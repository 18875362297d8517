import Mathlib
import PomaiCache.RecordLog
import PomaiCache.Dict

/-!
The time series engine. A put keeps the points of its series sorted by time and drops the
oldest ones over the limit; opening appends the points of the log in the order they were put
and drops from the front.
-/
namespace PomaiCache
open Codec RecordLog List
open scoped List

/-- A point of a series; the value is the bit pattern of a double. -/
structure TimeSeriesPoint where
  timestamp : UInt64
  value : UInt64
  deriving DecidableEq, Repr

namespace TimeSeriesPoint

def Before (a b : TimeSeriesPoint) : Prop := a.timestamp ≤ b.timestamp

instance : DecidableRel Before := fun a b => inferInstanceAs (Decidable (a.timestamp ≤ b.timestamp))

lemma Before.trans {a b c : TimeSeriesPoint} (first : Before a b) (second : Before b c) : Before a c :=
  UInt64.le_trans first second

lemma Before.total (a b : TimeSeriesPoint) : Before a b ∨ Before b a := UInt64.le_total ..

end TimeSeriesPoint

open TimeSeriesPoint

/-- `std::sort` by time; it may put points of the same time in any order. -/
structure Sorter where
  sort : List TimeSeriesPoint → List TimeSeriesPoint
  perm : ∀ points, (sort points).Perm points
  sorted : ∀ points, (sort points).Pairwise Before

structure Sample where
  series_id : UInt64
  point : TimeSeriesPoint
  deriving DecidableEq, Repr

namespace Sample

def encode (s : Sample) : Bytes := le 8 s.series_id.toNat ++ (le 8 s.point.timestamp.toNat ++ le 8 s.point.value.toNat)

/-- The three reads of the loop in `Open`. -/
def next (bytes : Bytes) : Option (Sample × Bytes) :=
  (read 8 bytes).bind fun sid =>
  (read 8 sid.2).bind fun ts =>
  (read 8 ts.2).map fun value =>
    (⟨UInt64.ofNat (leNat sid.1),UInt64.ofNat (leNat ts.1),UInt64.ofNat (leNat value.1)⟩,value.2)

lemma next_shrinks (found : next bytes = some (s,rest)) : rest.length < bytes.length := by
  obtain ⟨sid,first,found⟩ := read_bind found
  obtain ⟨ts,second,found⟩ := read_bind found
  obtain ⟨value,third,found⟩ := read_map found
  cases found
  omega

def reader : Reader Sample := ⟨next,next_shrinks⟩

lemma next_encode (s : Sample) (rest : Bytes) : next (s.encode ++ rest) = some (s,rest) := by
  simp [next,encode,append_assoc,read_append (le_length 8 _),Option.bind_some,Option.map_some,ofNat_leNat_u64]

end Sample

structure TimeSeriesEngine where
  max_points_per_series : Nat
  data : Dict UInt64 (List TimeSeriesPoint)
  /-- The file `timeseries.log`. -/
  log : Bytes

namespace TimeSeriesEngine

variable (limit : Nat)

def trimmed (vec : List TimeSeriesPoint) : List TimeSeriesPoint :=
  if limit > 0 ∧ vec.length > limit then vec.drop (vec.length - limit) else vec

def points (e : TimeSeriesEngine) (series_id : UInt64) : List TimeSeriesPoint := (e.data.lookup series_id).getD []

variable (data : Dict UInt64 (List TimeSeriesPoint))

def load (s : Sample) : Dict UInt64 (List TimeSeriesPoint) :=
  data.insert s.series_id (trimmed limit ((data.lookup s.series_id).getD [] ++ [s.point]))

def openEngine (e : TimeSeriesEngine) : TimeSeriesEngine :=
  {e with data := (Sample.reader.all e.log).foldl (load e.max_points_per_series) e.data}

variable (std : Sorter)

def inserted (vec : List TimeSeriesPoint) (point : TimeSeriesPoint) : List TimeSeriesPoint :=
  match vec.getLast? with
  | none => vec ++ [point]
  | some back => if point.timestamp < back.timestamp then std.sort (vec ++ [point]) else vec ++ [point]

def put (e : TimeSeriesEngine) (s : Sample) : TimeSeriesEngine :=
  {e with
    data := e.data.insert s.series_id (trimmed e.max_points_per_series (inserted std (e.points s.series_id) s.point))
    log := e.log ++ s.encode}

def range (e : TimeSeriesEngine) (series_id start_ts end_ts : UInt64) : List TimeSeriesPoint :=
  (e.points series_id).filter fun p => start_ts ≤ p.timestamp && p.timestamp ≤ end_ts

def putAll (e : TimeSeriesEngine) (puts : List Sample) : TimeSeriesEngine := puts.foldl (put std) e

def created : TimeSeriesEngine := ⟨limit,∅,[]⟩

def reopened (e : TimeSeriesEngine) : TimeSeriesEngine := openEngine {e with data := ∅}

def pointsOf (series_id : UInt64) (puts : List Sample) : List TimeSeriesPoint :=
  (puts.filter fun s => s.series_id = series_id).map Sample.point

/-- What the limit leaves of the points was put in the order of the times, and nothing older
is later. -/
def LastInOrder (put : List TimeSeriesPoint) : Prop :=
  (trimmed limit put).Pairwise Before ∧
    ∀ old ∈ put.take (put.length - (trimmed limit put).length), ∀ p ∈ trimmed limit put, Before old p

instance (limit : Nat) (put : List TimeSeriesPoint) : Decidable (LastInOrder limit put) :=
  inferInstanceAs (Decidable (_ ∧ _))

section
variable (limit : Nat)

lemma trimmed_sublist (vec : List TimeSeriesPoint) : (trimmed limit vec).Sublist vec := by
  unfold trimmed
  split
  · exact drop_sublist ..
  · exact .refl _

lemma trimmed_eq (vec : List TimeSeriesPoint) : trimmed limit vec = if limit = 0 then vec else vec.drop (vec.length - limit) := by
  unfold trimmed
  by_cases none : limit = 0
  · simp [none]
  · by_cases over_ : vec.length > limit
    · simp [none,over_,Nat.pos_of_ne_zero none]
    · simp [none,over_,show vec.length - limit = 0 by omega]

lemma trimmed_trimmed_append (vec more : List TimeSeriesPoint) :
    trimmed limit (trimmed limit vec ++ more) = trimmed limit (vec ++ more) := by
  simp only [trimmed_eq]
  split
  · rfl
  · rw [← drop_append_of_le_length (by omega),drop_drop]
    congr 1
    simp only [length_append,length_drop]
    omega

lemma foldl_trimmed (vec put : List TimeSeriesPoint) :
    put.foldl (fun vec p => trimmed limit (vec ++ [p])) (trimmed limit vec) = trimmed limit (vec ++ put) := by
  induction put generalizing vec with
  | nil => simp
  | cons p rest ih =>
    rw [foldl_cons,trimmed_trimmed_append,ih]
    simp

lemma take_trimmed (put : List TimeSeriesPoint) : put.take (put.length - (trimmed limit put).length) ++ trimmed limit put = put ∧
      (put.take (put.length - (trimmed limit put).length) ≠ [] → 0 < limit ∧ (trimmed limit put).length = limit) := by
  rw [trimmed_eq]
  split
  · simp
  · next bounded =>
    have removed : put.length - (put.drop (put.length - limit)).length = put.length - limit := by
      rw [length_drop]
      omega
    grind [take_append_drop,length_drop]

variable {limit : Nat} (std : Sorter)

def held (limit : Nat) (vec : List TimeSeriesPoint) (p : TimeSeriesPoint) : List TimeSeriesPoint :=
  trimmed limit (inserted std vec p)

lemma inserted_perm (vec : List TimeSeriesPoint) (p : TimeSeriesPoint) : (inserted std vec p).Perm (vec ++ [p]) := by
  unfold inserted
  split
  · exact .refl _
  · split
    · exact std.perm _
    · exact .refl _

lemma inserted_sorted (sorted : vec.Pairwise Before) (p : TimeSeriesPoint) : (inserted std vec p).Pairwise Before := by
  unfold inserted
  split
  · next empty => simp [List.getLast?_eq_none_iff.mp empty]
  · next back last =>
    split
    · exact std.sorted _
    · next above =>
      rw [pairwise_append]
      refine ⟨sorted,pairwise_singleton ..,fun a member b only => ?_⟩
      rw [mem_singleton.mp only]
      have atLast : Before back p := UInt64.not_lt.mp above
      -- the last point is the latest of a sorted series
      obtain ⟨front,rfl⟩ := List.getLast?_eq_some_iff.mp last
      rcases mem_append.mp member with earlier | here
      · exact ((pairwise_append.mp sorted).2.2 a earlier back (by simp)).trans atLast
      · rw [mem_singleton.mp here]
        exact atLast

lemma inserted_later (later : ∀ a ∈ vec, Before a p) : inserted std vec p = vec ++ [p] := by
  unfold inserted
  split
  · rfl
  · next back last =>
    rw [if_neg]
    exact UInt64.not_lt.mpr (later back (mem_of_getLast? last))

lemma foldl_held_inOrder {vec put : List TimeSeriesPoint} (fits : trimmed limit vec = vec)
    (sorted : put.Pairwise Before) (later : ∀ a ∈ vec, ∀ p ∈ put, Before a p) :
    put.foldl (held std limit) vec = trimmed limit (vec ++ put) := by
  induction put generalizing vec with
  | nil => simp [fits]
  | cons p rest ih =>
    obtain ⟨first,others⟩ := pairwise_cons.mp sorted
    have appended : held std limit vec p = trimmed limit (vec ++ [p]) := by
      rw [held,inserted_later std fun a member => later a member p (.head _)]
    have again : trimmed limit (trimmed limit (vec ++ [p])) = trimmed limit (vec ++ [p]) := by
      simpa using trimmed_trimmed_append limit (vec ++ [p]) []
    rw [foldl_cons,appended,ih again others,trimmed_trimmed_append]
    · simp
    · intro a member q inside
      rcases mem_append.mp ((trimmed_sublist limit _).mem member) with earlier | here
      · exact later a earlier q (.tail _ inside)
      · rw [mem_singleton.mp here]
        exact first q inside

/-- A series keeps the latest points: nothing it has dropped is later than anything it
holds, and it drops only from a full series. -/
structure KeepsLatest (limit : Nat) (put vec dropped : List TimeSeriesPoint) : Prop where
  perm : put.Perm (vec ++ dropped)
  older : ∀ d ∈ dropped, ∀ p ∈ vec, Before d p
  full : dropped ≠ [] → 0 < limit ∧ vec.length = limit
  sorted : vec.Pairwise Before
  fits : 0 < limit → vec.length ≤ limit

lemma KeepsLatest.put {put vec dropped : List TimeSeriesPoint} (keeps : KeepsLatest limit put vec dropped)
    (p : TimeSeriesPoint) : ∃ more, KeepsLatest limit (put ++ [p]) (held std limit vec p) (more ++ dropped) := by
  have sorted := inserted_sorted std keeps.sorted p
  have perm := inserted_perm std vec p
  have length : (inserted std vec p).length = vec.length + 1 := by simpa using perm.length_eq
  have all : (put ++ [p]).Perm (inserted std vec p ++ dropped) := by
    calc put ++ [p] ~ (vec ++ dropped) ++ [p] := keeps.perm.append_right _
      _ ~ (vec ++ [p]) ++ dropped := by
        grind
      _ ~ inserted std vec p ++ dropped := perm.symm.append_right _
  by_cases over_ : 0 < limit ∧ limit ≤ vec.length
  · -- the series was full, so its earliest point goes
    have vecLength : vec.length = limit := Nat.le_antisymm (keeps.fits over_.1) over_.2
    obtain ⟨first,rest,split⟩ : ∃ first rest, inserted std vec p = first :: rest :=
      exists_cons_of_length_eq_add_one length
    have kept : held std limit vec p = rest := by
      rw [held,trimmed_eq,if_neg (by omega),length,vecLength,split]
      simp
    rw [split] at sorted perm all length
    obtain ⟨earliest,restSorted⟩ := pairwise_cons.mp sorted
    rw [kept]
    refine ⟨[first],?_,?_,fun _ => ⟨over_.1,by simpa [vecLength] using length⟩,restSorted,
      fun _ => by simpa [vecLength] using Nat.le_of_eq length⟩
    · grind
    · intro d member q inside
      rcases mem_cons.mp member with rfl | before
      · exact earliest q inside
      · -- only the new point may be earlier than a dropped one, and then it is the first to go
        by_contra later
        have firstLater : ¬ Before d first := fun le => later (le.trans (earliest q inside))
        let earlier := fun a => !decide (Before d a)
        have two : 2 ≤ (first :: rest).countP earlier := by
          have one : 0 < rest.countP earlier := countP_pos_iff.mpr ⟨q,inside,by simp [earlier,later]⟩
          grind
        have none_ : vec.countP earlier = 0 := by
          rw [countP_eq_zero]
          intro a inVec
          simp [earlier,keeps.older d before a inVec]
        rw [perm.countP_eq,countP_append,none_] at two
        grind
  · have kept : held std limit vec p = inserted std vec p := by
      rw [held,trimmed_eq]
      split
      · rfl
      · rw [show (inserted std vec p).length - limit = 0 by omega,drop_zero]
    have nothing : dropped = [] := by
      by_contra some_
      obtain ⟨positive,filled⟩ := keeps.full some_
      omega
    subst nothing
    rw [kept]
    exact ⟨[],all,by simp,by simp,sorted,fun positive => by omega⟩

lemma KeepsLatest.run (limit : Nat) (put : List TimeSeriesPoint) :
    ∃ dropped, KeepsLatest limit put (put.foldl (held std limit) []) dropped := by
  induction put using List.reverseRecOn with
  | nil => exact ⟨[],.refl _,by simp,by simp,.nil,by simp⟩
  | append_singleton put p ih =>
    obtain ⟨dropped,keeps⟩ := ih
    obtain ⟨more,next⟩ := keeps.put std p
    rw [foldl_append]
    exact ⟨_,next⟩

/-- Loading the points of a series in the order of the puts gives the points the series
held, sorted, exactly when the last of them were put in order. -/
lemma load_faithful_iff (put : List TimeSeriesPoint) :
    (trimmed limit put).Perm (put.foldl (held std limit) []) ∧ (trimmed limit put).Pairwise Before ↔ LastInOrder limit put := by
  obtain ⟨split,filled⟩ := take_trimmed limit put
  unfold LastInOrder
  generalize put.take (put.length - (trimmed limit put).length) = old at split filled ⊢
  constructor
  · rintro ⟨same,sorted⟩
    refine ⟨sorted,fun earlier member p inside => ?_⟩
    obtain ⟨dropped,keeps⟩ := KeepsLatest.run std limit put
    -- both leave out the same points
    have left : trimmed limit put ++ old ~ trimmed limit put ++ dropped :=
      calc trimmed limit put ++ old
        _ ~ put := perm_append_comm.trans (.of_eq split)
        _ ~ put.foldl (held std limit) [] ++ dropped := keeps.perm
        _ ~ trimmed limit put ++ dropped := same.symm.append_right _
    have out := (perm_append_left_iff _).mp left
    exact keeps.older earlier (out.mem_iff.mp member) p (same.mem_iff.mp inside)
  · rintro ⟨sorted,later⟩
    refine ⟨?_,sorted⟩
    obtain ⟨dropped,keeps⟩ := KeepsLatest.run std limit old
    have fits : trimmed limit (old.foldl (held std limit) []) = old.foldl (held std limit) [] := by
      rw [trimmed_eq]
      split
      · rfl
      · have := keeps.fits (by omega)
        rw [show (old.foldl (held std limit) []).length - limit = 0 by omega,drop_zero]
    have folded : put.foldl (held std limit) [] = trimmed limit (old.foldl (held std limit) [] ++ trimmed limit put) := by
      nth_rewrite 1 [← split]
      rw [foldl_append]
      refine foldl_held_inOrder std fits sorted fun a member p inside => later a ?_ p inside
      exact keeps.perm.mem_iff.mpr (mem_append_left _ member)
    rw [folded]
    by_cases none : old = []
    · rw [none,foldl_nil,nil_append]
      have again := trimmed_trimmed_append limit put []
      rw [append_nil,append_nil] at again
      rw [again]
    · obtain ⟨positive,length⟩ := filled none
      rw [trimmed_eq limit (old.foldl (held std limit) [] ++ trimmed limit put),if_neg (by omega),length_append,length,
        Nat.add_sub_cancel,drop_left]

end

variable (change : List TimeSeriesPoint → TimeSeriesPoint → List TimeSeriesPoint)

def update (data : Dict UInt64 (List TimeSeriesPoint)) (s : Sample) : Dict UInt64 (List TimeSeriesPoint) :=
  data.insert s.series_id (change ((data.lookup s.series_id).getD []) s.point)

lemma foldl_update (samples : List Sample) (data : Dict UInt64 (List TimeSeriesPoint)) (series_id : UInt64) :
    ((samples.foldl (update change) data).lookup series_id).getD [] =
      (pointsOf series_id samples).foldl change ((data.lookup series_id).getD []) := by
  induction samples generalizing data with
  | nil => rfl
  | cons s rest ih =>
    rw [foldl_cons,ih]
    by_cases same : s.series_id = series_id
    · subst same
      simp [update,pointsOf]
    · rw [update,AList.lookup_insert_ne (Ne.symm same)]
      simp [pointsOf,same]

lemma putAll_eq (e : TimeSeriesEngine) (puts : List Sample) : e.putAll std puts = {e with
      data := puts.foldl (update (held std e.max_points_per_series)) e.data
      log := e.log ++ puts.flatMap Sample.encode} := by
  induction puts generalizing e with
  | nil => simp [putAll]
  | cons s rest ih =>
    have next : (e.putAll std (s :: rest)) = (e.put std s).putAll std rest := rfl
    rw [next,ih]
    simp [put,update,held,points]

variable {puts : List Sample} {e : TimeSeriesEngine}

lemma records_written (written : e.log = puts.flatMap Sample.encode) : Sample.reader.all e.log = puts :=
  Sample.reader.all_file written fun s _ => s.next_encode

lemma opened_points (written : e.log = puts.flatMap Sample.encode) (series_id : UInt64)
    (fits : trimmed e.max_points_per_series (e.points series_id) = e.points series_id) :
    e.openEngine.points series_id = trimmed e.max_points_per_series (e.points series_id ++ pointsOf series_id puts) := by
  have loaded := foldl_update (fun vec p => trimmed e.max_points_per_series (vec ++ [p])) puts e.data series_id
  have folded := foldl_trimmed e.max_points_per_series (e.points series_id) (pointsOf series_id puts)
  rw [fits] at folded
  simp only [openEngine,points,records_written written]
  exact loaded.trans folded

lemma reopened_points (e : TimeSeriesEngine) (series_id : UInt64) (written : e.log = puts.flatMap Sample.encode) :
    e.reopened.points series_id = trimmed e.max_points_per_series (pointsOf series_id puts) := by
  have none_ : points {e with data := ∅} series_id = [] := rfl
  have opened := opened_points (e := {e with data := ∅}) written series_id (by rw [none_]; simp [trimmed])
  rwa [none_,nil_append] at opened

/-- An engine that is opened again holds the points of the one that wrote them, each series
in the order of the times, exactly when in every series the points within the limit
were put in the order of their times and after everything older. -/
theorem reopened_faithful_iff (std : Sorter) (limit : Nat) (puts : List Sample) :
    let e := (created limit).putAll std puts
    (∀ series_id, e.reopened.points series_id ~ e.points series_id ∧ (e.reopened.points series_id).Pairwise Before) ↔
      ∀ series_id, LastInOrder limit (pointsOf series_id puts) := by
  intro e
  have same : e = {created limit with
      data := puts.foldl (update (held std limit)) ∅
      log := [] ++ puts.flatMap Sample.encode} := putAll_eq std (created limit) puts
  have written : e.log = puts.flatMap Sample.encode := by rw [same]; rfl
  have bound : e.max_points_per_series = limit := by rw [same]; rfl
  refine forall_congr' fun series_id => ?_
  have held_ : e.points series_id = (pointsOf series_id puts).foldl (held std limit) [] := by
    rw [same]
    exact foldl_update (held std limit) puts ∅ series_id
  grind [reopened_points,load_faithful_iff,pointsOf]

def insertionSorter : Sorter where
  sort := List.insertionSort Before
  perm := perm_insertionSort Before
  sorted points := by
    have : Std.Total Before := ⟨Before.total⟩
    have : IsTrans TimeSeriesPoint Before := ⟨fun _ _ _ => Before.trans⟩
    exact pairwise_insertionSort Before points

/-- A point put behind a later one. Without a limit the new engine has the points in the
wrong order; with room for one point it has the wrong point. -/
theorem reopened_unsorted :
    let puts : List Sample := [⟨1,⟨5,50⟩⟩,⟨1,⟨3,30⟩⟩]
    let unlimited := (created 0).putAll insertionSorter puts
    let single := (created 1).putAll insertionSorter puts
    unlimited.reopened.points 1 = [⟨5,50⟩,⟨3,30⟩] ∧ ¬ (unlimited.reopened.points 1).Pairwise Before ∧
      single.points 1 = [⟨5,50⟩] ∧ single.reopened.points 1 = [⟨3,30⟩] := by
  decide +kernel

/-! ### Opening an engine that is open -/

inductive Step
  | put (s : Sample)
  | restart

def step (e : TimeSeriesEngine) : Step → TimeSeriesEngine
  | .put s => e.put std s
  | .restart => e.reopened

def runAll (e : TimeSeriesEngine) (steps : List Step) : TimeSeriesEngine := steps.foldl (step std) e

def Spares (e : TimeSeriesEngine) : Step → Prop
  | .put s => e.max_points_per_series = 0 ∨ (e.points s.series_id).length < e.max_points_per_series
  | .restart => True

def SparesAll (std : Sorter) (e : TimeSeriesEngine) : List Step → Prop
  | [] => True
  | s :: rest => e.Spares s ∧ (e.step std s).SparesAll std rest

/-- The log holds these puts, and each series in memory has the points put to it. -/
structure Logged (e : TimeSeriesEngine) (puts : List Sample) : Prop where
  file : e.log = puts.flatMap Sample.encode
  held : ∀ series_id, e.points series_id ~ pointsOf series_id puts
  room : ∀ series_id, e.max_points_per_series = 0 ∨ (e.points series_id).length ≤ e.max_points_per_series

lemma trimmed_fits {limit : Nat} {vec : List TimeSeriesPoint} (room : limit = 0 ∨ vec.length ≤ limit) : trimmed limit vec = vec := by
  rw [trimmed,if_neg]
  omega

namespace Logged
variable {e : TimeSeriesEngine} {puts : List Sample}

lemma created (limit : Nat) : Logged (created limit) [] := by
  constructor
  · rfl
  · intro series_id
    rfl
  · intro series_id
    exact .inr (Nat.zero_le _)

lemma put (logged : Logged e puts) {std : Sorter} {s : Sample} (spares : e.Spares (.put s)) : Logged (e.put std s) (puts ++ [s]) := by
  have perm := inserted_perm std (e.points s.series_id) s.point
  have length := perm.length_eq
  rw [length_append,length_singleton] at length
  have room : e.max_points_per_series = 0 ∨ (inserted std (e.points s.series_id) s.point).length ≤ e.max_points_per_series := by
    rcases spares with none_ | less
    · exact .inl none_
    · exact .inr (by omega)
  have points (series_id : UInt64) : (e.put std s).points series_id =
      if s.series_id = series_id then inserted std (e.points s.series_id) s.point else e.points series_id := by
    simp only [TimeSeriesEngine.put,TimeSeriesEngine.points]
    by_cases same : s.series_id = series_id
    · subst same
      rw [AList.lookup_insert,if_pos rfl]
      exact trimmed_fits room
    · rw [AList.lookup_insert_ne (Ne.symm same),if_neg same]
  constructor
  · simp [TimeSeriesEngine.put,logged.file]
  · intro series_id
    rw [points]
    split
    · next same =>
      subst same
      have appended : pointsOf s.series_id (puts ++ [s]) = pointsOf s.series_id puts ++ [s.point] := by simp [pointsOf]
      rw [appended]
      exact perm.trans ((logged.held s.series_id).append_right [s.point])
    · next other =>
      have same : pointsOf series_id (puts ++ [s]) = pointsOf series_id puts := by simp [pointsOf,other]
      rw [same]
      exact logged.held series_id
  · intro series_id
    rw [points]
    split
    · exact room
    · exact logged.room series_id

lemma reopened (logged : Logged e puts) : Logged e.reopened puts := by
  have points (series_id : UInt64) : e.reopened.points series_id = pointsOf series_id puts := by
    rw [reopened_points e series_id logged.file]
    apply trimmed_fits
    rw [← (logged.held series_id).length_eq]
    exact logged.room series_id
  refine ⟨logged.file,fun series_id => ?_,fun series_id => ?_⟩
  · rw [points]
  · rw [points,← (logged.held series_id).length_eq]
    exact logged.room series_id

lemma runAll (logged : Logged e puts) {std : Sorter} {steps : List Step} (spares : e.SparesAll std steps) :
    ∃ after, Logged (e.runAll std steps) after := by
  induction steps generalizing e puts with
  | nil => exact ⟨puts,logged⟩
  | cons s rest ih =>
    cases s with
    | put s => exact ih (logged.put spares.1) spares.2
    | restart => exact ih logged.reopened spares.2

end Logged

lemma trimmed_append_iff {limit : Nat} {vec more : List TimeSeriesPoint} (perm : vec ~ more) (room : limit = 0 ∨ vec.length ≤ limit) :
    trimmed limit (vec ++ more) = vec ↔ vec = [] ∨ vec.length = limit ∧ vec = more := by
  have length := perm.length_eq
  constructor
  · intro same
    by_cases empty : vec = []
    · exact .inl empty
    · have some_ := length_pos_of_ne_nil empty
      have size := congrArg List.length same
      rw [trimmed_eq] at same size
      by_cases none_ : limit = 0
      · rw [if_pos none_,length_append] at size
        omega
      · rw [if_neg none_,length_drop,length_append] at size
        have full : vec.length = limit := by omega
        rw [if_neg none_,length_append,show vec.length + more.length - limit = vec.length by omega,drop_left] at same
        exact .inr ⟨full,same.symm⟩
  · grind [trimmed,trimmed_eq,length_append,drop_left]

def logged (e : TimeSeriesEngine) (series_id : UInt64) : List TimeSeriesPoint := pointsOf series_id (Sample.reader.all e.log)

lemma range_eq_iff (e other : TimeSeriesEngine) (series_id : UInt64) :
    (∀ start_ts end_ts, other.range series_id start_ts end_ts = e.range series_id start_ts end_ts) ↔
      other.points series_id = e.points series_id := by
  constructor
  · intro same
    have all (e : TimeSeriesEngine) : e.range series_id 0 (UInt64.ofNat (2 ^ 64 - 1)) = e.points series_id := by
      rw [range,filter_eq_self]
      intro p _
      have last : p.timestamp ≤ UInt64.ofNat (2 ^ 64 - 1) := by
        grind
      grind
    rw [← all,same,all]
  · intro same start_ts end_ts
    rw [range,range,same]

/-- Opening an engine that is open: a series stays as it is exactly when it is empty, or has
as many points as the limit allows and was put in the order it has. -/
lemma Logged.opened_same_iff (logged : Logged e puts) (series_id : UInt64) : e.openEngine.points series_id = e.points series_id ↔
      e.points series_id = [] ∨
        (e.points series_id).length = e.max_points_per_series ∧ e.points series_id = e.logged series_id := by
  have records : e.logged series_id = pointsOf series_id puts := by
    rw [TimeSeriesEngine.logged,records_written logged.file]
  rw [opened_points logged.file series_id (trimmed_fits (logged.room series_id)),records]
  exact trimmed_append_iff (logged.held series_id) (logged.room series_id)

end TimeSeriesEngine
end PomaiCache
