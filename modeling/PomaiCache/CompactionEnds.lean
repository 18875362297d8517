import PomaiCache.CompactionReads
import PomaiCache.FairRuns

/-!
When the compaction job comes to its end. The job starts over when its merge ends with an
empty part in hand, so it completes under every clock exactly if that cannot happen, at
whatever times the entries are looked at.
-/
namespace PomaiCache
open Layers Merge FairRuns List

/-! ### Merges with readings of the wall clock -/

def untimed (t : Nat × SegmentEntry × UInt64) : Nat × SegmentEntry := (t.1,t.2.1)

lemma exists_untimed_filter (i : Nat) (same : ts.map untimed = ws.filter fun w => w.1 != i) :
    ∃ all : List (Nat × SegmentEntry × UInt64), all.map untimed = ws ∧ (all.filter fun t => t.1 != i) = ts := by
  induction ws generalizing ts with
  | nil =>
    rw [filter_nil,map_eq_nil_iff] at same
    exact ⟨[],rfl,same.symm⟩
  | cons w ws ih =>
    by_cases own : w.1 = i
    · rw [filter_cons_of_neg (by simp [own])] at same
      obtain ⟨all,whole,left⟩ := ih same
      refine ⟨(w.1,w.2,0) :: all,by rw [map_cons,whole]; rfl,?_⟩
      rw [filter_cons_of_neg (by simp [own]),left]
    · rw [filter_cons_of_pos (by simp [own])] at same
      obtain ⟨t,rest,rfl,first,others⟩ := map_eq_cons_iff.mp same
      obtain ⟨all,whole,left⟩ := ih others
      refine ⟨t :: all,by rw [map_cons,whole,first],?_⟩
      have differs : t.1 ≠ i := by rw [← first] at own; exact own
      rw [filter_cons_of_pos (by simp [differs]),left]

lemma map_untimed_filter (i : Nat) (ts : List (Nat × SegmentEntry × UInt64)) :
    (ts.filter fun t => t.1 != i).map untimed = (ts.map untimed).filter fun w => w.1 != i := by
  rw [filter_map]
  rfl

namespace VectorRuntime
section
variable (start : VectorRuntime)

/-- The parts the job writes if it takes the elements at these times. -/
def timedParts (ts : List (Nat × SegmentEntry × UInt64)) : Option (List (List (SegmentEntry × UInt64))) :=
  parts (fun a => a.1.id) (fun a => start.keeps a.2 a.1) kMaxSegmentEntries ts

def timedFrom (es : List (SegmentEntry × UInt64)) (last : Option VectorId) (ts : List (Nat × SegmentEntry × UInt64)) :
    Option (List (List (SegmentEntry × UInt64))) :=
  partsFrom (fun a => a.1.id) (fun a => start.keeps a.2 a.1) kMaxSegmentEntries es last ts

/-- At whatever times the entries are looked at, the merge does not end with an empty part
in hand. -/
def AlwaysKeeps : Prop := ∀ ts, ts.map untimed = merged start.segments → start.timedParts ts ≠ none

def KeepsFrom (es : List (SegmentEntry × UInt64)) (last : Option VectorId) (ws : List (Nat × SegmentEntry)) : Prop :=
  ∀ ts, ts.map untimed = ws → start.timedFrom es last ts ≠ none

end

variable {start : VectorRuntime}

section
variable {es : List (SegmentEntry × UInt64)} {last : Option VectorId} {i : Nat} {e : SegmentEntry}
  {ws : List (Nat × SegmentEntry)}

section
variable {ts : List (Nat × SegmentEntry × UInt64)} {now_sec : UInt64}

lemma timedFrom_forget (more : ts ≠ []) (unseen : ∀ w ∈ ts.map untimed, last ≠ some w.2.id) :
    start.timedFrom [] last ts = start.timedParts ts := by
  grind [timedFrom,timedParts,parts_eq,partsFrom_forget,untimed,mem_map_of_mem]

lemma timedFrom_old (same : last = some e.id) : start.timedFrom es last ((i,e,now_sec) :: ts) = start.timedFrom es last ts := by
  unfold timedFrom
  exact partsFrom_old same

section
variable (fresh : last ≠ some e.id)
include fresh

lemma timedFrom_dropped (dead : start.keeps now_sec e = false) :
    start.timedFrom es last ((i,e,now_sec) :: ts) = start.timedFrom es (some e.id) ts := by
  unfold timedFrom
  exact partsFrom_dead fresh dead

lemma timedFrom_taken (alive : start.keeps now_sec e = true) (room : es.length + 1 < kMaxSegmentEntries) :
    start.timedFrom es last ((i,e,now_sec) :: ts) = start.timedFrom (es ++ [(e,now_sec)]) (some e.id) ts := by
  unfold timedFrom
  exact partsFrom_live fresh alive room

lemma timedFrom_filled (alive : start.keeps now_sec e = true) (full : es.length + 1 ≥ kMaxSegmentEntries) :
    start.timedFrom es last ((i,e,now_sec) :: ts) = none ↔ start.timedParts (ts.filter fun t => t.1 != i) = none := by
  grind [timedFrom,timedParts,partsFrom_full,Option.map_eq_none_iff]

end
end

namespace KeepsFrom

lemma ne_nil (keeps : start.KeepsFrom es last []) : es ≠ [] := by
  rintro rfl
  exact keeps [] rfl partsFrom_nil

lemma tail (keeps : start.KeepsFrom es last ((i,e) :: ws)) (now_sec : UInt64) (whole : ts.map untimed = ws) :
    start.timedFrom es last ((i,e,now_sec) :: ts) ≠ none := by
  refine keeps _ ?_
  rw [map_cons,whole]
  rfl

lemma old (keeps : start.KeepsFrom es last ((i,e) :: ws)) (same : last = some e.id) : start.KeepsFrom es last ws := by
  intro ts whole
  have all := keeps.tail 0 whole
  rwa [timedFrom_old same] at all

section
variable (keeps : start.KeepsFrom es last ((i,e) :: ws)) (fresh : last ≠ some e.id) {now_sec : UInt64}
include keeps fresh

lemma dropped (dead : start.keeps now_sec e = false) : start.KeepsFrom es (some e.id) ws := by
  intro ts whole
  have all := keeps.tail now_sec whole
  rwa [timedFrom_dropped fresh dead] at all

lemma taken (alive : start.keeps now_sec e = true) (room : es.length + 1 < kMaxSegmentEntries) :
    start.KeepsFrom (es ++ [(e,now_sec)]) (some e.id) ws := by
  intro ts whole
  have all := keeps.tail now_sec whole
  rwa [timedFrom_taken fresh alive room] at all

lemma filled (alive : start.keeps now_sec e = true) (full : es.length + 1 ≥ kMaxSegmentEntries)
    (whole : ts.map untimed = ws.filter fun w => w.1 != i) : start.timedParts ts ≠ none := by
  obtain ⟨all,same,rfl⟩ := exists_untimed_filter i whole
  intro none_
  exact keeps.tail now_sec same ((timedFrom_filled fresh alive full).mpr none_)

end
end KeepsFrom

lemma unseen_of_filled (sorted : ((i,e) :: ws).Pairwise (Precedes SegmentEntry.id))
    (from_ : From SegmentEntry.id last ((i,e) :: ws)) (fresh : last ≠ some e.id) :
    ∀ w ∈ ws.filter fun w => w.1 != i, last ≠ some w.2.id := by
  intro w member same
  have later := ((pairwise_cons.mp sorted).1 w (mem_of_mem_filter member)).key_le
  have before := from_ _ same (i,e) (.head _)
  exact fresh (by rw [same,le_antisymm before later])

end

end VectorRuntime

def CompactProgress.advance : CompactProgress → Tick → CompactProgress
  | .running rt st pump,tick => rt.compactStep st pump tick
  | .complete rt result,_ => .complete rt result

lemma VectorRuntime.runCompact_eq (rt : VectorRuntime) (st : CompactState) (pump : Pump) (ticks : List Tick) :
    rt.runCompact st pump ticks = ticks.foldl CompactProgress.advance (.running rt st pump) := by
  have stays : ∀ (ticks : List Tick) (rt : VectorRuntime) (result : Status),
      ticks.foldl CompactProgress.advance (.complete rt result) = .complete rt result := by
    intro ticks rt result
    induction ticks with
    | nil => rfl
    | cons tick ticks ih => exact ih
  induction ticks generalizing rt st pump with
  | nil => rfl
  | cons tick ticks ih =>
    rw [runCompact,foldl_cons,CompactProgress.advance]
    cases rt.compactStep st pump tick with
    | running rt st pump => exact ih rt st pump
    | complete rt result => exact (stays ticks rt result).symm

def Pump.spent (pump : Pump) : Nat := if pump.entries < kBackgroundMaxEntriesPerTick then 0 else 1

lemma Pump.spent_le (pump : Pump) : pump.spent ≤ 1 := by
  unfold spent
  split <;> omega

/-- The next reading before the deadline lets the job take an element, or begins a new call. -/
def CompactProgress.Poised : CompactProgress → Prop
  | .running _ _ pump => pump.loop = .inner ↔ pump.entries < kBackgroundMaxEntriesPerTick
  | .complete _ _ => False

namespace VectorRuntime
variable (start : VectorRuntime)

/-- The states of a job that does not start over, with what is still to be done. -/
inductive Ending : Nat → CompactProgress → Prop
  | starting {st pump} (at_ : pump.loop = .outer) (phase : st.phase = .kBuild)
      (inputs : st.input_segments = start.segments) (heap : st.heap = []) (builder : st.builder = none)
      (noted : st.noted = none) (keeps : start.AlwaysKeeps) :
      Ending (2 * (4 * (merged start.segments).length + 20) + pump.spent) (.running start st pump)
  | building {es w ws st pump} (here : start.Pass (es.map Prod.fst) (w :: ws) st)
      (from_ : From SegmentEntry.id st.noted (w :: ws)) (keeps : start.KeepsFrom es st.noted (w :: ws)) :
      Ending (2 * (4 * ws.length + 16) + pump.spent) (.running start st pump)
  | drained {es st pump} (at_ : pump.loop = .inner) (here : start.Pass es [] st) (some_ : es ≠ []) :
      Ending (2 * 14 + pump.spent) (.running start st pump)
  | finalizing {es ws st pump} (at_ : pump.loop = .outer) (here : start.Filled es ws st)
      (from_ : From SegmentEntry.id st.noted ws) (unseen : ∀ w ∈ ws, st.noted ≠ some w.2.id)
      (keeps : ∀ ts, ts.map untimed = ws → start.timedParts ts ≠ none) :
      Ending (2 * (4 * ws.length + 13) + pump.spent) (.running start st pump)
  | late {rt st pump k} (at_ : pump.loop = .outer) (phase : (st.phase,k) ∈
        [(Phase.kCommitManifest,6),(.kInstall,5),(.kCleanup,4),(.kPublish,3),(.kDone,2)]) :
      Ending (2 * k + pump.spent) (.running rt st pump)
  | complete {rt} : Ending 0 (.complete rt .Ok)

def EndingFalls (k : Nat) (p next : CompactProgress) (tick : Tick) : Prop :=
  Falls (fun tick : Tick => tick.before_deadline = true) start.Ending CompactProgress.Poised k p next tick

variable {start}

lemma Ending.goes_on (pump : Pump) (at_ : pump.loop = .inner) (here : start.Pass (es.map Prod.fst) ws st)
    (from_ : From SegmentEntry.id st.noted ws) (keeps : start.KeepsFrom es st.noted ws) :
    ∃ k ≤ 2 * (4 * ws.length + 14) + 1, start.Ending k (.running start st pump) := by
  have spent := pump.spent_le
  cases ws with
  | nil => exact ⟨_,by rw [length_nil]; omega,.drained at_ here (by simpa using keeps.ne_nil)⟩
  | cons w ws => exact ⟨_,by rw [length_cons]; omega,.building here from_ keeps⟩

lemma Ending.paused (again : start.Ending (2 * k + Pump.start.spent) (.running rt st .start))
    (used : ¬ pump.hasBudget tick = true) :
    start.EndingFalls (2 * k + pump.spent) (.running rt st pump) (rt.compactOuter st pump tick) tick := by
  have next : rt.compactOuter st pump tick = .running rt st .start := if_neg used
  rw [next]
  refine ⟨_,again,?_⟩
  have zero : Pump.start.spent = 0 := rfl
  by_cases left : pump.entries < kBackgroundMaxEntriesPerTick
  · right
    have late : ¬ tick.before_deadline = true := by simpa [Pump.hasBudget,left] using used
    exact ⟨by rw [zero,Pump.spent,if_pos left],fun early => absurd early late⟩
  · left
    rw [zero,Pump.spent,if_neg left]
    exact Nat.lt_succ_self _

section
variable (strict : ∀ s ∈ start.segments, s.Strict) (dims : ∀ s ∈ start.segments, s.dim = start.dim)
include strict dims

variable {st : CompactState} {pump : Pump}

lemma Ending.pop (at_ : pump.loop = .inner) (here : start.Pass (es.map Prod.fst) ((i,e) :: ws) st)
    (from_ : From SegmentEntry.id st.noted ((i,e) :: ws)) (keeps : start.KeepsFrom es st.noted ((i,e) :: ws))
    (budget : pump.hasBudget tick) :
    ∃ k < 2 * (4 * ws.length + 16) + pump.spent, start.Ending k (start.compactInner st pump tick) := by
  have sorted := here.heap.sorted
  have popped := here.pop strict dims budget
  generalize start.compactInner st pump tick = progress at popped ⊢
  cases popped with
  | old same noted built passed =>
    rw [← noted] at from_ keeps same
    obtain ⟨k,le,ending⟩ := Ending.goes_on {pump with entries := pump.entries + 1} at_ passed from_.tail (keeps.old same)
    exact ⟨k,by omega,ending⟩
  | dropped fresh dead noted built passed =>
    have from_' : From SegmentEntry.id (some e.id) ws := From.cons sorted
    have keeps' := keeps.dropped fresh dead
    rw [← noted] at from_' keeps'
    obtain ⟨k,le,ending⟩ := Ending.goes_on {pump with entries := pump.entries + 1} at_ passed from_' keeps'
    exact ⟨k,by omega,ending⟩
  | @taken after fresh alive noted built passed =>
    have room : es.length + 1 < kMaxSegmentEntries := by
      have short := passed.room
      grind
    have from_' : From SegmentEntry.id (some e.id) ws := From.cons sorted
    have keeps' := keeps.taken fresh alive room
    rw [← noted] at from_' keeps'
    have passed' : start.Pass ((es ++ [(e,tick.now_sec)]).map Prod.fst) ws after := by
      rw [map_append]
      exact passed
    obtain ⟨k,le,ending⟩ := Ending.goes_on {pump with entries := pump.entries + 1} at_ passed' from_' keeps'
    exact ⟨k,by omega,ending⟩
  | filled fresh alive full noted built filled =>
    rw [length_map] at full
    have fewer := length_filter_le (fun w : Nat × SegmentEntry => w.1 != i) ws
    have unseen := unseen_of_filled sorted from_ fresh
    have within : From SegmentEntry.id st.noted (ws.filter fun w => w.1 != i) := fun id same w member =>
      from_ id same w (.tail _ (mem_of_mem_filter member))
    rw [← noted] at unseen within
    have spent : Pump.spent {pump with loop := .outer} = pump.spent := rfl
    exact ⟨_,by omega,.finalizing rfl filled within unseen fun ts whole => keeps.filled fresh alive full whole⟩

lemma Ending.inner (ending : start.Ending k (.running rt st pump)) (at_ : pump.loop = .inner) (tick : Tick) :
    start.EndingFalls k (.running rt st pump) (rt.compactInner st pump tick) tick := by
  cases ending with
  | @building es w ws _ _ here from_ keeps =>
    obtain ⟨i,e⟩ := w
    by_cases budget : pump.hasBudget tick
    · obtain ⟨k,less,ending⟩ := Ending.pop strict dims at_ here from_ keeps budget
      exact ⟨k,ending,.inl less⟩
    · rw [here.interrupted budget]
      refine ⟨_,.building here from_ keeps,.inr ⟨rfl,fun early => ?_⟩⟩
      have used : ¬ pump.entries < kBackgroundMaxEntriesPerTick := by simpa [Pump.hasBudget,early] using budget
      exact ⟨iff_of_false (fun same => by cases same) used,fun poised => used (poised.mp at_)⟩
  | drained _ here some_ =>
    obtain ⟨after,next,_,_,⟨_,filled⟩ | ⟨none_,_⟩⟩ := here.drained pump tick
    · rw [next]
      refine ⟨_,.finalizing rfl filled (fun _ _ _ member => absurd member not_mem_nil)
        (fun _ member => absurd member not_mem_nil) ?_,.inl ?_⟩
      · rintro ts whole
        simp [map_eq_nil_iff.mp whole,timedParts,parts_nil]
      · grind [Pump.spent,length_nil]
    · exact absurd none_ some_
  | starting outer | finalizing outer | late outer =>
    rw [at_] at outer
    cases outer

omit dims

lemma Ending.outer (ending : start.Ending k (.running rt st pump)) (at_ : pump.loop = .outer) (tick : Tick) :
    start.EndingFalls k (.running rt st pump) (rt.compactOuter st pump tick) tick := by
  have spent : Pump.spent {pump with loop := .inner} = pump.spent := rfl
  by_cases budget : pump.hasBudget tick
  swap
  · cases ending with
    | starting _ phase inputs heap builder noted keeps =>
      exact Ending.paused (.starting rfl phase inputs heap builder noted keeps) budget
    | building here from_ keeps => exact Ending.paused (.building here from_ keeps) budget
    | finalizing _ here from_ unseen keeps => exact Ending.paused (.finalizing rfl here from_ unseen keeps) budget
    | late _ phase => exact Ending.paused (.late rfl phase) budget
    | drained inner =>
      rw [at_] at inner
      cases inner
  unfold compactOuter
  rw [if_pos budget]
  cases ending with
  | starting _ phase inputs heap builder noted keeps =>
    simp only [phase]
    obtain ⟨passed,ended,begins⟩ := Pass.refill strict phase inputs heap builder pump
    cases whole : merged start.segments with
    | nil =>
      rw [ended whole]
      exact ⟨_,.late at_ (mem_cons_self),.inl (by omega)⟩
    | cons w ws =>
      have some_ : merged start.segments ≠ [] := by rw [whole]; exact cons_ne_nil _ _
      have unnoted : st.refill.noted = none := st.refill_fields.2.1.trans noted
      rw [begins some_]
      rw [whole] at passed
      have empty : start.Pass (([] : List (SegmentEntry × UInt64)).map Prod.fst) (w :: ws) st.refill := passed
      refine ⟨_,.building empty ?_ ?_,.inl ?_⟩
      · rw [unnoted]
        exact From.none _
      · intro ts same
        have more : ts ≠ [] := by
          rintro rfl
          cases same
        rw [unnoted,timedFrom_forget more fun _ _ => (Option.some_ne_none _).symm]
        exact keeps ts (same.trans whole.symm)
      · rw [spent,length_cons]
        omega
  | building here from_ keeps =>
    simp only [here.phase]
    rw [here.resume (cons_ne_nil _ _)]
    have left : pump.entries < kBackgroundMaxEntriesPerTick := by
      have both := budget
      simp only [Pump.hasBudget,Bool.and_eq_true,decide_eq_true_eq] at both
      exact both.1
    refine ⟨_,.building here from_ keeps,.inr ⟨rfl,fun _ => ⟨iff_of_true rfl left,fun poised => ?_⟩⟩⟩
    have inner := poised.mpr left
    rw [at_] at inner
    cases inner
  | @finalizing es ws _ _ _ here from_ unseen keeps =>
    simp only [here.phase]
    obtain ⟨after,next,noted,_,⟨_,phase⟩ | ⟨some_,passed⟩⟩ := here.write pump
    · rw [next]
      refine ⟨_,.late (k := 6) at_ ?_,.inl (by omega)⟩
      rw [phase]
      exact (.head _)
    · obtain ⟨w,ws,rfl⟩ := exists_cons_of_ne_nil some_
      rw [next]
      rw [← noted] at from_ unseen
      have empty : start.Pass (([] : List (SegmentEntry × UInt64)).map Prod.fst) (w :: ws) after := passed
      refine ⟨_,.building empty from_ ?_,.inl ?_⟩
      · intro ts same
        have more : ts ≠ [] := by
          rintro rfl
          cases same
        rw [timedFrom_forget more (by rw [same]; exact unseen)]
        exact keeps ts same
      · rw [length_cons]
        omega
  | late _ phase =>
    simp only [mem_cons,Prod.mk.injEq,not_mem_nil,or_false] at phase
    rcases phase with ⟨phase,rfl⟩ | ⟨phase,rfl⟩ | ⟨phase,rfl⟩ | ⟨phase,rfl⟩ | ⟨phase,rfl⟩
    · simp only [phase]
      exact ⟨_,.late (k := 5) at_ (by simp),.inl (by omega)⟩
    · simp only [phase]
      exact ⟨_,.late (k := 4) at_ (by simp),.inl (by omega)⟩
    · simp only [phase]
      exact ⟨_,.late (k := 3) at_ (by simp),.inl (by omega)⟩
    · simp only [phase]
      exact ⟨_,.late (k := 2) at_ (by simp),.inl (by omega)⟩
    · simp only [phase]
      exact ⟨_,.complete,.inl (by omega)⟩
  | drained inner =>
    rw [at_] at inner
    cases inner

include dims

lemma Ending.step (ending : start.Ending k p) (goes : ¬ ∃ rt, p = .complete rt .Ok)
    (tick : Tick) : start.EndingFalls k p (p.advance tick) tick := by
  cases p with
  | complete rt result =>
    cases ending
    exact absurd ⟨rt,rfl⟩ goes
  | running rt st pump =>
    rw [CompactProgress.advance,compactStep]
    split
    · next at_ => exact ending.outer strict at_ tick
    · next at_ => exact ending.inner strict dims at_ tick

lemma AlwaysKeeps.completes (keeps : start.AlwaysKeeps) (fair : Fair (fun tick : Tick => tick.before_deadline = true) clock) :
    ∃ n after, start.runCompact start.beginCompact .start ((List.range n).map clock) = .complete after .Ok := by
  have begins : start.Ending _ (.running start start.beginCompact .start) :=
    .starting rfl rfl rfl rfl rfl rfl keeps
  obtain ⟨n,after,done⟩ := fair.ends (fun k p tick ending goes => ending.step strict dims goes tick) begins
  refine ⟨n,after,?_⟩
  rw [runCompact_eq]
  exact done

end

section
variable (start) (whole : List (Nat × SegmentEntry × UInt64))

/-- If the first element of the merge is kept, the id that is noted does not let it pass for
one that was just seen. -/
def Unmistaken (noted : Option VectorId) : Prop :=
  ∀ t rest, whole = t :: rest → start.keeps t.2.2 t.2.1 → noted ≠ some t.2.1.id

/-- If the first element of the merge is kept, its id lies behind the one that is noted, or it
is the only one in the current part. -/
def Beyond (size : Nat) (noted : Option VectorId) : Prop :=
  ∀ t rest, whole = t :: rest → start.keeps t.2.2 t.2.1 → ∃ id, noted = some id ∧ t.2.1.id ≤ id ∧ (size ≠ 1 → t.2.1.id < id)

/-- The states of a job whose merge with these readings ends with an empty part. -/
inductive Doomed : CompactProgress → Prop
  | starting {st pump} (at_ : pump.loop = .outer) (phase : st.phase = .kBuild)
      (inputs : st.input_segments = start.segments) (heap : st.heap = []) (builder : st.builder = none)
      (noted : Unmistaken start whole st.noted) : Doomed (.running start st pump)
  | beginning {st pump} (here : start.Pass [] (whole.map untimed) st) (noted : Unmistaken start whole st.noted) :
      Doomed (.running start st pump)
  | building {es ts st pump} (more : pump.loop = .outer → ts ≠ []) (here : start.Pass (es.map Prod.fst) (ts.map untimed) st)
      (from_ : From SegmentEntry.id st.noted (ts.map untimed)) (beyond : Beyond start whole es.length st.noted)
      (endless : start.timedFrom es st.noted ts = none) : Doomed (.running start st pump)
  | finalizing {es ts st pump} (at_ : pump.loop = .outer) (here : start.Filled es (ts.map untimed) st)
      (from_ : From SegmentEntry.id st.noted (ts.map untimed))
      (unseen : ∀ w ∈ ts.map untimed, st.noted ≠ some w.2.id) (beyond : Beyond start whole 0 st.noted)
      (endless : start.timedParts ts = none) : Doomed (.running start st pump)

end

section
variable {whole : List (Nat × SegmentEntry × UInt64)} {es : List (SegmentEntry × UInt64)} {i : Nat} {e : SegmentEntry}
  {now_sec : UInt64} {ts : List (Nat × SegmentEntry × UInt64)} {st : CompactState} {pump : Pump}

lemma Beyond.later (beyond : Beyond start whole size st.noted)
    (from_ : From SegmentEntry.id st.noted ((i,e) :: ts.map untimed)) (fresh : st.noted ≠ some e.id) :
    Beyond start whole m (some e.id) := by
  intro t rest same alive
  obtain ⟨id,noted,le,_⟩ := beyond t rest same alive
  have before : id ≤ e.id := from_ id noted (i,e) (.head _)
  grind

lemma Unmistaken.first (noted : Unmistaken start ((i,e,now_sec) :: ts) st.noted) :
    (st.noted = some e.id → Beyond start ((i,e,now_sec) :: ts) 0 st.noted) ∧
      (start.keeps now_sec e = false → Beyond start ((i,e,now_sec) :: ts) 0 (some e.id)) ∧
      Beyond start ((i,e,now_sec) :: ts) 1 (some e.id) := by
  refine ⟨?_,?_,?_⟩
  · rintro seen t rest same alive
    cases same
    exact absurd seen (noted _ _ rfl alive)
  · rintro dead t rest same alive
    cases same
    rw [dead] at alive
    cases alive
  · rintro t rest same alive
    grind

section
variable (strict : ∀ s ∈ start.segments, s.Strict) (dims : ∀ s ∈ start.segments, s.dim = start.dim)
include strict dims

lemma Doomed.pop (at_ : pump.loop = .inner) (here : start.Pass (es.map Prod.fst) ((i,e) :: ts.map untimed) st)
    (endless : start.timedFrom es st.noted ((i,e,now_sec) :: ts) = none)
    (seen : st.noted = some e.id → Beyond start whole es.length st.noted)
    (dead : st.noted ≠ some e.id → start.keeps now_sec e = false → Beyond start whole es.length (some e.id))
    (alive : st.noted ≠ some e.id → Beyond start whole (es.length + 1) (some e.id))
    (cut : es.length + 1 ≥ kMaxSegmentEntries →
      From SegmentEntry.id st.noted ((i,e) :: ts.map untimed) ∧ Beyond start whole es.length st.noted)
    (budget : pump.hasBudget ⟨true,now_sec⟩) : Doomed start whole (start.compactInner st pump ⟨true,now_sec⟩) := by
  have sorted := here.heap.sorted
  have from_ : From SegmentEntry.id (some e.id) (ts.map untimed) := From.cons sorted
  have inner : ∀ {rest : List (Nat × SegmentEntry × UInt64)},
      Pump.loop {pump with entries := pump.entries + 1} = .outer → rest ≠ [] := by
    intro rest outer
    rw [at_] at outer
    cases outer
  have popped := here.pop strict dims budget
  generalize start.compactInner st pump ⟨true,now_sec⟩ = progress at popped ⊢
  cases popped with
  | old same noted built passed =>
    rw [timedFrom_old same,← noted] at endless
    have beyond := seen same
    rw [← noted] at beyond
    rw [← same,← noted] at from_
    exact .building inner passed from_ beyond endless
  | dropped fresh gone noted built passed =>
    rw [timedFrom_dropped fresh gone,← noted] at endless
    have beyond := dead fresh gone
    rw [← noted] at beyond from_
    exact .building inner passed from_ beyond endless
  | @taken after fresh kept noted built passed =>
    have room : es.length + 1 < kMaxSegmentEntries := by
      have short := passed.room
      grind
    rw [timedFrom_taken fresh kept room,← noted] at endless
    have beyond := alive fresh
    rw [← noted] at beyond from_
    have passed' : start.Pass ((es ++ [(e,now_sec)]).map Prod.fst) (ts.map untimed) after := by
      rw [map_append]
      exact passed
    exact .building inner passed' from_ (by rw [length_append]; exact beyond) endless
  | filled fresh kept full noted built filled =>
    rw [length_map] at full
    obtain ⟨before,beyond⟩ := cut full
    have unseen := unseen_of_filled sorted before fresh
    rw [timedFrom_filled fresh kept full] at endless
    rw [← map_untimed_filter] at unseen filled
    have within : From SegmentEntry.id st.noted ((ts.filter fun t => t.1 != i).map untimed) := by
      rw [map_untimed_filter]
      exact fun id same w member => before id same w (.tail _ (mem_of_mem_filter member))
    have many : es.length ≠ 1 := by
      rw [kMaxSegmentEntries] at full
      omega
    rw [← noted] at unseen within beyond
    refine .finalizing rfl filled within unseen ?_ endless
    intro t rest same first
    obtain ⟨id,at_id,le,less⟩ := beyond t rest same first
    exact ⟨id,at_id,le,fun _ => less many⟩

variable (readings : whole.map untimed = merged start.segments) (none_ : start.timedParts whole = none)

omit strict dims in
include none_ in
lemma whole_ne_nil : whole ≠ [] := by
  rintro rfl
  rw [timedParts,parts_nil] at none_
  cases none_

include none_ in
lemma Doomed.inner (doomed : Doomed start whole (.running start st pump)) (at_ : pump.loop = .inner) :
    ∃ now_sec, Doomed start whole (start.compactInner st pump ⟨true,now_sec⟩) := by
  cases doomed with
  | beginning here noted =>
    obtain ⟨⟨i,e,now_sec⟩,ts,rfl⟩ := exists_cons_of_ne_nil (whole_ne_nil none_)
    refine ⟨now_sec,?_⟩
    by_cases budget : pump.hasBudget ⟨true,now_sec⟩
    · obtain ⟨seen,dead,alive⟩ := noted.first
      have endless : start.timedFrom [] st.noted ((i,e,now_sec) :: ts) = none := by
        by_cases same : st.noted = some e.id
        · -- the merge ended with the id it begins with, which is dropped
          have gone : start.keeps now_sec e = false := by
            by_contra kept
            exact noted _ _ rfl (by simpa using kept) same
          have first : start.timedFrom [] none ((i,e,now_sec) :: ts) = none := by
            rw [timedFrom_forget (cons_ne_nil _ _) fun _ _ => (Option.some_ne_none _).symm]
            exact none_
          rw [timedFrom_dropped (Option.some_ne_none _).symm gone] at first
          rw [timedFrom_old same,same]
          exact first
        · have fresh : ∀ t ∈ ((i,e,now_sec) :: ts).head?, st.noted ≠ some t.2.1.id := by
            intro t head
            cases head
            exact same
          rw [timedFrom,partsFrom_forget fresh,← parts_eq (cons_ne_nil _ _)]
          exact none_
      have empty : start.Pass (([] : List (SegmentEntry × UInt64)).map Prod.fst) ((i,e) :: ts.map untimed) st := here
      grind [Doomed.pop,seen,length_nil,kMaxSegmentEntries]
    · rw [here.interrupted budget]
      exact .beginning here noted
  | @building es ts _ _ more here from_ beyond endless =>
    cases ts with
    | nil =>
      obtain ⟨after,next,_,_,⟨some_,_⟩ | ⟨empty,rfl⟩⟩ := here.drained pump ⟨true,0⟩
      · -- a part that is not empty would be written
        grind [timedFrom,partsFrom_nil]
      · refine ⟨0,?_⟩
        rw [next]
        refine .starting rfl here.phase here.inputs here.heap.heap_nil (by rw [here.builder,empty]; rfl) ?_
        intro t rest same first noted
        obtain ⟨id,at_id,_,less⟩ := beyond t rest same first
        simp_all
    | cons t ts =>
      obtain ⟨i,e,now_sec⟩ := t
      refine ⟨now_sec,?_⟩
      by_cases budget : pump.hasBudget ⟨true,now_sec⟩
      · exact Doomed.pop strict dims at_ here endless (fun _ => beyond) (fun fresh _ => beyond.later from_ fresh)
          (fun fresh => beyond.later from_ fresh) (fun _ => ⟨from_,beyond⟩) budget
      · have stays := here.interrupted budget
        rw [stays]
        exact .building (fun _ => cons_ne_nil _ _) here from_ beyond endless
  | starting outer | finalizing outer =>
    rw [at_] at outer
    cases outer

omit dims
include readings none_

lemma Doomed.outer (doomed : Doomed start whole (.running start st pump)) (at_ : pump.loop = .outer) (now_sec : UInt64) :
    Doomed start whole (start.compactOuter st pump ⟨true,now_sec⟩) := by
  have more := whole_ne_nil none_
  unfold compactOuter
  by_cases budget : pump.hasBudget ⟨true,now_sec⟩
  swap
  · rw [if_neg budget]
    cases doomed with
    | starting _ phase inputs heap builder noted => exact .starting rfl phase inputs heap builder noted
    | beginning here noted => exact .beginning here noted
    | building more here from_ beyond endless => exact .building (fun _ => more at_) here from_ beyond endless
    | finalizing _ here from_ unseen beyond endless => exact .finalizing rfl here from_ unseen beyond endless
  rw [if_pos budget]
  cases doomed with
  | starting _ phase inputs heap builder noted =>
    simp only [phase]
    obtain ⟨passed,_,begins⟩ := Pass.refill strict phase inputs heap builder pump
    rw [← readings] at passed begins
    rw [begins (by simpa using more)]
    refine .beginning passed ?_
    rw [st.refill_fields.2.1]
    exact noted
  | beginning here noted =>
    simp only [here.phase]
    rw [here.resume (by simpa using more)]
    exact .beginning here noted
  | building some_ here from_ beyond endless =>
    simp only [here.phase]
    rw [here.resume (by simpa using some_ at_)]
    exact .building (fun _ => some_ at_) here from_ beyond endless
  | @finalizing es ts _ _ _ here from_ unseen beyond endless =>
    simp only [here.phase]
    have some_ : ts ≠ [] := whole_ne_nil endless
    obtain ⟨after,next,noted,_,⟨ended,_⟩ | ⟨_,passed⟩⟩ := here.write pump
    · exact absurd (map_eq_nil_iff.mp ended) some_
    · rw [next]
      rw [← timedFrom_forget some_ unseen,← noted] at endless
      rw [← noted] at from_ beyond
      have empty : start.Pass (([] : List (SegmentEntry × UInt64)).map Prod.fst) (ts.map untimed) after := passed
      exact .building (fun _ => some_) empty from_ beyond endless

include dims

lemma Doomed.goes_on (doomed : Doomed start whole p) :
    ∃ tick : Tick, tick.before_deadline = true ∧ Doomed start whole (p.advance tick) := by
  have same : ∃ st pump, p = .running start st pump := by
    cases doomed <;> exact ⟨_,_,rfl⟩
  obtain ⟨st,pump,rfl⟩ := same
  simp only [CompactProgress.advance,compactStep]
  cases at_ : pump.loop with
  | outer => exact ⟨⟨true,0⟩,rfl,doomed.outer strict readings none_ at_ 0⟩
  | inner =>
    obtain ⟨now_sec,next⟩ := doomed.inner strict dims none_ at_
    exact ⟨⟨true,now_sec⟩,rfl,next⟩

lemma exists_endless : ∃ clock : Nat → Tick, (∀ n, (clock n).before_deadline = true) ∧
    ∀ n after result, start.runCompact start.beginCompact .start ((List.range n).map clock) ≠ .complete after result := by
  have begins : Doomed start whole (.running start start.beginCompact .start) :=
    .starting rfl rfl rfl rfl rfl fun _ _ _ _ => (Option.some_ne_none _).symm
  obtain ⟨clock,early,doomed⟩ := exists_doomed (fun p doomed => Doomed.goes_on strict dims readings none_ doomed) begins
  refine ⟨clock,early,fun n after result completed => ?_⟩
  have here := doomed n
  rw [runCompact_eq] at completed
  rw [FairRuns.after,completed] at here
  cases here

end

end

/-- A compaction of segments as the builder writes them completes under every clock that lets
it work, exactly if its merge cannot end with an empty part in hand. -/
theorem compact_completes_iff (rt : VectorRuntime) (strict : ∀ s ∈ rt.segments, s.Strict)
    (dims : ∀ s ∈ rt.segments, s.dim = rt.dim) :
    (∀ clock : Nat → Tick, Fair (fun tick : Tick => tick.before_deadline = true) clock →
        ∃ n after, rt.runCompact rt.beginCompact .start ((List.range n).map clock) = .complete after .Ok) ↔
      rt.AlwaysKeeps := by
  constructor
  · intro completes whole readings none_
    obtain ⟨clock,early,endless⟩ := exists_endless strict dims readings none_
    obtain ⟨n,after,completed⟩ := completes clock (.of_forall early)
    exact endless n after .Ok completed
  · exact fun keeps clock fair => keeps.completes strict dims fair

section
variable {rt : VectorRuntime} (short : (merged rt.segments).length < kMaxSegmentEntries)

omit short in
lemma firsts_untimed (ts : List (Nat × SegmentEntry × UInt64)) (last : Option VectorId) :
    (emit (fun a : SegmentEntry × UInt64 => a.1.id) (fun _ => true) last ts).map Prod.fst =
      emit SegmentEntry.id (fun _ => true) last (ts.map untimed) :=
  (emit_map Prod.fst last ts).symm

include short

/-- A merge that does not fill a part keeps something at every time exactly if some entry that
comes first of its id is kept at every time. -/
lemma alwaysKeeps_iff_of_short :
    rt.AlwaysKeeps ↔ merged rt.segments = [] ∨ ∃ e ∈ newestEntries rt.segments, ∀ now_sec, rt.keeps now_sec e = true := by
  have writes : ∀ ts, ts.map untimed = merged rt.segments → ts ≠ [] →
      (rt.timedParts ts = none ↔ emit (fun a : SegmentEntry × UInt64 => a.1.id) (fun a => rt.keeps a.2 a.1) none ts = []) := by
    intro ts whole more
    refine parts_of_short ?_ more
    rw [emit_eq_filter]
    refine (length_filter_le _ _).trans_lt ?_
    rw [← length_map Prod.fst,firsts_untimed,whole]
    have fewer := (emit_sublist SegmentEntry.id (fun _ => true) none (merged rt.segments)).length_le
    rw [length_map] at fewer
    exact fewer.trans_lt short
  constructor
  · intro keeps
    refine or_iff_not_imp_left.mpr fun more => ?_
    -- every entry is looked at when it is gone, if it ever is
    let gone (e : SegmentEntry) : UInt64 := Classical.epsilon fun now_sec => rt.keeps now_sec e = false
    let ts : List (Nat × SegmentEntry × UInt64) := (merged rt.segments).map fun w => (w.1,w.2,gone w.2)
    have whole : ts.map untimed = merged rt.segments := by
      rw [map_map]
      exact map_id _
    have some_ := keeps ts whole
    rw [ne_eq,writes ts whole (by simpa [ts] using more)] at some_
    obtain ⟨a,member⟩ := exists_mem_of_ne_nil _ some_
    rw [emit_eq_filter] at member
    obtain ⟨first,alive⟩ := mem_filter.mp member
    have read : a.2 = gone a.1 := by
      obtain ⟨i,inside⟩ := (emit_mem first).2
      obtain ⟨w,_,same⟩ := mem_map.mp inside
      cases same
      rfl
    have always : ∀ now_sec, rt.keeps now_sec a.1 = true := by
      intro now_sec
      by_contra never
      have ever : ∃ now_sec, rt.keeps now_sec a.1 = false := ⟨now_sec,by simpa using never⟩
      have dead : rt.keeps a.2 a.1 = false := by
        rw [read]
        exact Classical.epsilon_spec ever
      rw [dead] at alive
      cases alive
    refine ⟨a.1,?_,always⟩
    rw [newestEntries,emit_eq_filter,← whole,← firsts_untimed]
    refine mem_filter.mpr ⟨mem_map_of_mem first,?_⟩
    have both := always 0
    rw [VectorRuntime.keeps,Bool.and_eq_true] at both
    exact both.1
  · rintro (empty | ⟨e,member,always⟩) ts whole none_
    · rw [empty] at whole
      rw [map_eq_nil_iff.mp whole,timedParts,parts_nil] at none_
      cases none_
    · have more : ts ≠ [] := by
        rintro rfl
        rw [newestEntries,← whole] at member
        cases member
      rw [writes ts whole more] at none_
      rw [newestEntries,emit_eq_filter,← whole,← firsts_untimed] at member
      obtain ⟨a,first,rfl⟩ := mem_map.mp (mem_of_mem_filter member)
      have inside : a ∈ emit (fun a : SegmentEntry × UInt64 => a.1.id) (fun a => rt.keeps a.2 a.1) none ts := by
        rw [emit_eq_filter]
        exact mem_filter.mpr ⟨first,always a.2⟩
      rw [none_] at inside
      cases inside

end

theorem compact_completes_overwritten : ∃ n after,
    overwritten.runCompact overwritten.beginCompact .start ((List.range n).map fun _ => ⟨true,0⟩) = .complete after .Ok := by
  have strict : ∀ s ∈ overwritten.segments, s.Strict := by
    unfold Segment.Strict
    decide
  have dims : ∀ s ∈ overwritten.segments, s.dim = overwritten.dim := by decide
  have newest : ⟨1,[9],false,{}⟩ ∈ newestEntries overwritten.segments := by decide
  have keeps : overwritten.AlwaysKeeps :=
    (alwaysKeeps_iff_of_short (by decide)).mpr (.inr ⟨_,newest,fun _ => rfl⟩)
  exact (compact_completes_iff overwritten strict dims).mpr keeps _ (.of_forall fun _ => rfl)

def buried : VectorRuntime := holding 1 [⟨1,[⟨1,[0],true,{}⟩],by decide⟩,⟨1,[⟨2,[0],true,{}⟩],by decide⟩]

/-- However often and whenever it is called, the job never completes. -/
theorem compact_never_completes : ¬ ∃ ticks after result,
    buried.runCompact buried.beginCompact .start ticks = .complete after result := by
  rintro ⟨ticks,after,result,completed⟩
  have strict : ∀ s ∈ buried.segments, s.Strict := by
    unfold Segment.Strict
    decide
  have dims : ∀ s ∈ buried.segments, s.dim = buried.dim := by decide
  have endless : buried.compactParts = none := (parts_of_short (by decide) (by decide)).mpr (by decide)
  obtain ⟨_,ps,written,_⟩ := runCompact_complete strict dims rfl completed
  rw [endless] at written
  cases written

end VectorRuntime
end PomaiCache
