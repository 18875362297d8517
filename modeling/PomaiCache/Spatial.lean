import PomaiCache.Basic
import PomaiCache.RecordLog
import PomaiCache.Dict

/-!
The spatial engine. Its log has one record for each put, and nothing is ever deleted.
-/
namespace PomaiCache
open Codec RecordLog Layers List

/-- A point; latitude and longitude are the bit patterns of doubles. -/
structure SpatialPoint where
  id : UInt64
  latitude : UInt64
  longitude : UInt64
  deriving DecidableEq, Repr

namespace SpatialPoint

def encode (p : SpatialPoint) : Bytes := le 8 p.id.toNat ++ (le 8 p.latitude.toNat ++ le 8 p.longitude.toNat)

def next (bytes : Bytes) : Option (SpatialPoint × Bytes) :=
  (read 8 bytes).bind fun id =>
  (read 8 id.2).bind fun lat =>
  (read 8 lat.2).map fun lon =>
    (⟨UInt64.ofNat (leNat id.1),UInt64.ofNat (leNat lat.1),UInt64.ofNat (leNat lon.1)⟩,lon.2)

lemma next_shrinks {bytes rest : Bytes} {p : SpatialPoint} (found : next bytes = some (p,rest)) : rest.length < bytes.length := by
  obtain ⟨id,first,found⟩ := read_bind found
  grind [read_bind,read_map]

def reader : Reader SpatialPoint := ⟨next,next_shrinks⟩

lemma next_encode (p : SpatialPoint) (rest : Bytes) : next (p.encode ++ rest) = some (p,rest) := by
  simp [next,encode,append_assoc,read_append (le_length 8 _),Option.bind_some,Option.map_some,ofNat_leNat_u64]

end SpatialPoint

abbrev SpatialMap := Dict UInt64 SpatialPoint

structure SpatialEngine where
  max_points : Nat
  points : SpatialMap
  /-- The file `spatial.log`. -/
  log : Bytes

namespace SpatialEngine

variable (walk : Dict.Walk UInt64 SpatialPoint)

/-- `erase(begin())`; which point stands first is up to the map. -/
def eraseFirst (points : SpatialMap) : SpatialMap :=
  match (walk.order points).head? with
  | none => points
  | some first => points.erase first.1

def load (max_points : Nat) (points : SpatialMap) (p : SpatialPoint) : SpatialMap :=
  let points := points.assign p.id p
  if max_points > 0 ∧ points.size > max_points then eraseFirst walk points else points

def openEngine (e : SpatialEngine) : SpatialEngine :=
  {e with points := (SpatialPoint.reader.all e.log).foldl (load walk e.max_points) e.points}

def put (e : SpatialEngine) (p : SpatialPoint) : SpatialEngine :=
  let points := if e.max_points > 0 ∧ e.points.size ≥ e.max_points ∧ e.points.lookup p.id = none then eraseFirst walk e.points
    else e.points
  {e with points := points.assign p.id p, log := e.log ++ p.encode}

def created (max_points : Nat) : SpatialEngine := ⟨max_points,∅,[]⟩

def reopened (e : SpatialEngine) : SpatialEngine := openEngine walk {e with points := ∅}

inductive Step
  | put (walk : Dict.Walk UInt64 SpatialPoint) (p : SpatialPoint)
  | restart (walk : Dict.Walk UInt64 SpatialPoint)

variable (e : SpatialEngine)

def step : Step → SpatialEngine
  | .put walk p => e.put walk p
  | .restart walk => e.reopened walk

def runAll (steps : List Step) : SpatialEngine := steps.foldl step e

def Spares : Step → Prop
  | .put _ p => e.max_points = 0 ∨ e.points.size < e.max_points ∨ (e.points.lookup p.id).isSome
  | .restart _ => True

def SparesAll (e : SpatialEngine) : List Step → Prop
  | [] => True
  | s :: rest => e.Spares s ∧ (e.step s).SparesAll rest

def written (steps : List Step) : List SpatialPoint := steps.filterMap fun | .put _ p => some p | .restart _ => none

/-- The log holds these points, the map shows the last one of each id, and the limit is kept. -/
structure Logged (e : SpatialEngine) (ps : List SpatialPoint) : Prop where
  file : e.log = ps.flatMap SpatialPoint.encode
  held : ∀ id, e.points.lookup id = lastWrite (ps.map fun p => (p.id,p)) id
  room : e.max_points = 0 ∨ e.points.size ≤ e.max_points

lemma lastWrite_concat (ps : List SpatialPoint) (p : SpatialPoint) (id : UInt64) :
    lastWrite ((ps ++ [p]).map fun p => (p.id,p)) id = if p.id = id then some p else lastWrite (ps.map fun p => (p.id,p)) id := by
  grind [lastWrite_append,lastWrite_singleton]

lemma foldl_load {limit : Nat} {points large : SpatialMap} (room : limit = 0 ∨ large.size ≤ limit) {ps : List SpatialPoint}
    (inside : Dict.Inside points large) (logged : ∀ p ∈ ps, (large.lookup p.id).isSome)
    (walk : Dict.Walk UInt64 SpatialPoint) :
    ps.foldl (load walk limit) points = ps.foldl (fun points p => points.assign p.id p) points := by
  refine Dict.foldl_limited room (fun p member points inside id => ?_) inside
  rw [Dict.lookup_assign]
  split
  · next same =>
    intro _
    rw [← same]
    exact logged p member
  · exact inside id

lemma lookup_foldl_assign (ps : List SpatialPoint) (points : SpatialMap) (id : UInt64) :
    (ps.foldl (fun points p => points.assign p.id p) points).lookup id =
      (lastWrite (ps.map fun p => (p.id,p)) id).or (points.lookup id) := by
  induction ps using List.reverseRecOn with
  | nil => rfl
  | append_singleton ps p ih =>
    rw [foldl_append,foldl_cons,foldl_nil,Dict.lookup_assign,lastWrite_concat,ih]
    by_cases same : p.id = id <;> simp [same]

lemma keys_foldl_assign {ps : List SpatialPoint} {points : SpatialMap} (present : ∀ p ∈ ps, (points.lookup p.id).isSome) :
    (ps.foldl (fun points p => points.assign p.id p) points).keys = points.keys := by
  induction ps generalizing points with
  | nil => rfl
  | cons p rest ih =>
    have here := present p (.head _)
    have later : ∀ other ∈ rest, ((points.assign p.id p).lookup other.id).isSome := by
      grind [Dict.lookup_assign]
    rw [foldl_cons,ih later,Dict.keys_assign here]

namespace Logged
variable {e : SpatialEngine} {ps : List SpatialPoint}

lemma created (max_points : Nat) : Logged (created max_points) [] := by
  constructor
  · rfl
  · intro id
    rfl
  · exact .inr (Nat.zero_le _)

lemma records (logged : Logged e ps) : SpatialPoint.reader.all e.log = ps :=
  SpatialPoint.reader.all_file logged.file fun p _ => p.next_encode

lemma present (logged : Logged e ps) : ∀ p ∈ ps, (e.points.lookup p.id).isSome := by
  intro p member
  rw [logged.held,Option.isSome_iff_ne_none,Ne,lastWrite_eq_none]
  intro absent
  exact absent (p.id,p) (mem_map.mpr ⟨p,member,rfl⟩) rfl

lemma put (logged : Logged e ps) {walk : Dict.Walk UInt64 SpatialPoint} {p : SpatialPoint} (spares : e.Spares (.put walk p)) :
    Logged (e.put walk p) (ps ++ [p]) := by
  have kept : ¬(e.max_points > 0 ∧ e.points.size ≥ e.max_points ∧ e.points.lookup p.id = none) := by
    rintro ⟨positive,full,absent⟩
    rcases spares with none_ | less | there
    · omega
    · omega
    · rw [absent] at there
      cases there
  rw [SpatialEngine.put]
  simp only [if_neg kept]
  constructor
  · simp [logged.file]
  · intro id
    rw [Dict.lookup_assign,lastWrite_concat,logged.held]
  · by_cases there : (e.points.lookup p.id).isSome
    · rw [Dict.size_eq_keys,Dict.keys_assign there,← Dict.size_eq_keys]
      exact logged.room
    · have grown := e.points.size_assign_le p.id p
      rcases spares with none_ | less | present
      · exact .inl none_
      · exact .inr (Nat.le_trans grown less)
      · exact absurd present there

lemma reopened (logged : Logged e ps) (walk : Dict.Walk UInt64 SpatialPoint) : Logged (e.reopened walk) ps := by
  have loaded : e.reopened walk = {e with points := ps.foldl (fun points p => points.assign p.id p) ∅} := by
    rw [SpatialEngine.reopened,openEngine]
    simp only [logged.records]
    rw [foldl_load logged.room (fun id none_ => by cases none_) logged.present]
  have lookup (id : UInt64) : (ps.foldl (fun points p => points.assign p.id p) (∅ : SpatialMap)).lookup id = e.points.lookup id := by
    rw [lookup_foldl_assign,logged.held]
    exact Option.or_none
  rw [loaded]
  constructor
  · exact logged.file
  · intro id
    rw [lookup,logged.held]
  · refine logged.room.imp_right (Nat.le_trans (Dict.size_le fun id => ?_))
    rw [lookup]
    exact fun there => there

lemma runAll_written (logged : Logged e ps) {steps : List Step} (spares : e.SparesAll steps) :
    Logged (e.runAll steps) (ps ++ written steps) := by
  induction steps generalizing e ps with
  | nil => exact (append_nil ps).symm ▸ logged
  | cons s rest ih =>
    cases s with
    | put walk p =>
      have next := ih (logged.put spares.1) spares.2
      rwa [append_assoc] at next
    | restart walk => exact ih (logged.reopened walk) spares.2

lemma runAll (logged : Logged e ps) {steps : List Step} (spares : e.SparesAll steps) : ∃ after, Logged (e.runAll steps) after :=
  ⟨_,logged.runAll_written spares⟩

lemma opened_eq (logged : Logged e ps) (walk : Dict.Walk UInt64 SpatialPoint) : e.openEngine walk = e := by
  have points : ps.foldl (fun points p => points.assign p.id p) e.points = e.points := by
    apply Dict.eq_of_keys (keys_foldl_assign logged.present)
    simp [lookup_foldl_assign,logged.held]
  rw [openEngine,logged.records,foldl_load logged.room (fun _ there => there) logged.present,points]

end Logged

/-- As long as no point is evicted, each id has the point that was put last, over any number of
restarts and for any order of the hash map. -/
theorem runAll_shows_last (max_points : Nat) (steps : List Step) (spares : (created max_points).SparesAll steps) (id : UInt64) :
    ((created max_points).runAll steps).points.lookup id = lastWrite ((written steps).map fun p => (p.id,p)) id :=
  ((Logged.created max_points).runAll_written spares).held id

theorem runAll_shows_last_restarted :
    ((created 1).runAll [.put .plain ⟨7,0,0⟩,.restart .plain,.put .plain ⟨7,1,1⟩,.restart .plain]).points.lookup 7 = some ⟨7,1,1⟩ :=
  runAll_shows_last 1 _ (by simp [SparesAll,Spares,step,created]; decide +kernel) 7

end SpatialEngine
end PomaiCache
