import PomaiCache.FreezeReads
import PomaiCache.MergeParts

/-!
The compaction job: all segments are merged through a heap of cursors, newest
version first, into new segments that replace them. `PumpBackgroundWork` works
within a budget of entries and time; the job is driven here one check of the
budget at a time, with what each check finds.
-/
namespace PomaiCache
open Layers Merge List

def kBackgroundMaxEntriesPerTick : Nat := 2048

structure CompactCursor where
  id : VectorId
  seg_idx : Nat
  entry_idx : Nat
  is_deleted : Bool
  deriving DecidableEq, Repr

/-- Not `operator>`. -/
def CompactCursor.le (a b : CompactCursor) : Prop :=
  if a.id ≠ b.id then a.id ≤ b.id else a.seg_idx ≤ b.seg_idx

instance : DecidableRel CompactCursor.le := fun a b => by
  unfold CompactCursor.le
  infer_instance

/-- The heap is the list of its cursors in ascending order, with the top in front. -/
structure CompactState where
  phase : Phase
  input_segments : List Segment
  heap : List CompactCursor
  last_id : VectorId
  is_first : Bool
  builder : Option SegmentBuilder
  built_segments : List Segment

inductive Loop
  | outer
  | inner
  deriving DecidableEq, Repr

structure Pump where
  loop : Loop
  entries : Nat

/-- What the clocks say at a check of the budget. The wall clock is read once in a call, so
that the checks of a call share its reading; a call may end at any check. -/
structure Tick where
  before_deadline : Bool
  now_sec : UInt64

def Pump.hasBudget (pump : Pump) (tick : Tick) : Bool :=
  decide (pump.entries < kBackgroundMaxEntriesPerTick) && tick.before_deadline

def Pump.start : Pump := ⟨.outer,0⟩

inductive CompactProgress
  | running (rt : VectorRuntime) (st : CompactState) (pump : Pump)
  | complete (rt : VectorRuntime) (result : Status)

namespace CompactState

variable (st : CompactState)

/-- Push a cursor to an entry of an input segment, if there is such an entry. -/
def push (seg_idx entry_idx : Nat) : CompactState :=
  match st.input_segments[seg_idx]? with
  | none => st
  | some s =>
    match s.readAt entry_idx with
    | .ok e => {st with heap := st.heap.orderedInsert CompactCursor.le ⟨e.id,seg_idx,entry_idx,e.is_deleted⟩}
    | .error _ => st

def refill : CompactState :=
  (List.range st.input_segments.length).foldl (fun st i => st.push i 0) st

def seen (id : VectorId) : CompactState := {st with last_id := id, is_first := false}

end CompactState

namespace VectorRuntime

variable (rt : VectorRuntime)

variable (st : CompactState)

def compactAdvance (top : CompactCursor) (pump : Pump) : CompactProgress :=
  .running rt (st.push top.seg_idx (top.entry_idx + 1)) {pump with entries := pump.entries + 1}

/-- The top is the newest version of a live id: it goes to the builder. When that
makes the segment full, the loop is left before the id is noted and before the next
entry of the segment is pushed. -/
def compactKeep (top : CompactCursor) (dim : UInt32) (found : Found) (pump : Pump) : CompactProgress :=
  let added := (st.builder.getD (.create rt.dim)).add top.id (.arena found.1) dim false found.2
  let st := {st with builder := some added.1}
  if added.2.ok then
    if added.1.count ≥ kMaxSegmentEntries then
      .running rt {st with phase := .kFinalizeSegment} {pump with loop := .outer}
    else rt.compactAdvance (st.seen top.id) top pump
  else .complete rt (.internal ("Compact: SegmentBuilder::Add failed: " ++ added.2.message))

/-- One iteration of the inner loop, for the cursor that was popped. -/
def compactPop (top : CompactCursor) (pump : Pump) (now_sec : UInt64) :
    CompactProgress :=
  if st.is_first || top.id != st.last_id then
    if top.is_deleted then rt.compactAdvance (st.seen top.id) top pump
    else
      match st.input_segments[top.seg_idx]? with
      | none => rt.compactAdvance (st.seen top.id) top pump
      | some s =>
        match s.findAndDecode top.id with
        | (.kFound,found) =>
          if vectorMetaExpired rt.ttl_sec now_sec found.2 then rt.compactAdvance (st.seen top.id) top pump
          else rt.compactKeep st top s.dim found pump
        | _ => rt.compactAdvance (st.seen top.id) top pump
  else rt.compactAdvance st top pump

/-- A check of the inner loop, and the iteration behind it or what follows the loop. -/
def compactInner (pump : Pump) (tick : Tick) : CompactProgress :=
  match st.heap with
  | [] =>
    .running rt (if st.builder.isSome then {st with phase := .kFinalizeSegment} else st) {pump with loop := .outer}
  | top :: heap =>
    if pump.hasBudget tick then rt.compactPop {st with heap := heap} top pump tick.now_sec
    else .running rt st {pump with loop := .outer}

def compactBuild (pump : Pump) : CompactProgress :=
  if st.heap.isEmpty && st.builder.isNone then
    let st := st.refill
    if st.heap.isEmpty then .running rt {st with phase := .kCommitManifest} pump
    else .running rt st {pump with loop := .inner}
  else .running rt st {pump with loop := .inner}

def compactFinalize (pump : Pump) : CompactProgress :=
  match st.builder with
  | none => .running rt {st with phase := .kCommitManifest} pump
  | some builder => .running rt
      {st with
        built_segments := st.built_segments ++ [builder.finish []]
        builder := none
        phase := if st.heap.isEmpty then .kCommitManifest else .kBuild} pump

/-- A check of the outer loop, and the iteration behind it or a new call. -/
def compactOuter (pump : Pump) (tick : Tick) : CompactProgress :=
  if pump.hasBudget tick then
    match st.phase with
    | .kBuild => rt.compactBuild st pump
    | .kFinalizeSegment => rt.compactFinalize st pump
    | .kCommitManifest =>
      .running {rt with manifest := st.built_segments.reverse} {st with phase := .kInstall} pump
    | .kInstall => .running {rt with segments := st.built_segments.reverse} {st with phase := .kCleanup} pump
    | .kCleanup => .running rt {st with phase := .kPublish} pump
    | .kPublish => .running rt.publishSnapshot {st with phase := .kDone} pump
    | .kDone => .complete rt .Ok
    | .kResetWal => .running rt st .start
  else .running rt st .start

def compactStep (pump : Pump) (tick : Tick) : CompactProgress :=
  match pump.loop with
  | .outer => rt.compactOuter st pump tick
  | .inner => rt.compactInner st pump tick

def runCompact (rt : VectorRuntime) (st : CompactState) (pump : Pump) : List Tick → CompactProgress
  | [] => .running rt st pump
  | tick :: ticks =>
    match rt.compactStep st pump tick with
    | .running rt st pump => runCompact rt st pump ticks
    | .complete rt result => .complete rt result

def beginCompact : CompactState where
  phase := .kBuild
  input_segments := rt.segments
  heap := []
  last_id := UInt64.ofNat (2 ^ 64 - 1)
  is_first := true
  builder := none
  built_segments := []

/-- `PickCompaction` for the one level there is: more than four files. -/
def pickCompaction : Bool := decide (rt.segments.length > 4)

/-- `HandleCompact`, with a job that is cancelled when the clocks have no more readings. -/
def compact (ticks : List Tick) : VectorRuntime × Status :=
  if !rt.pickCompaction && decide (rt.segments.length ≤ 1) then (rt,.Ok)
  else
    match rt.runCompact rt.beginCompact .start ticks with
    | .running rt _ _ => (rt,.aborted "Compaction timed out")
    | .complete rt result => (rt,result)

end VectorRuntime

lemma CompactCursor.le_iff (a b : CompactCursor) : a.le b ↔ Before CompactCursor.id (a.seg_idx,a) (b.seg_idx,b) := by
  unfold le Before
  grind

instance : IsTrans CompactCursor CompactCursor.le where
  trans a b c first second := by
    rw [CompactCursor.le_iff] at first second ⊢
    exact IsTrans.trans _ _ _ first second

instance : Std.Total CompactCursor.le where
  total a b := by
    rw [CompactCursor.le_iff,CompactCursor.le_iff]
    exact Std.Total.total (r := Before CompactCursor.id) _ _

/-- A cursor stands at the first of these entries of its segment. -/
structure CompactCursor.At (segs : List Segment) (c : CompactCursor) (e : SegmentEntry) (more : List SegmentEntry) :
    Prop where
  segment : ∃ s, segs[c.seg_idx]? = some s ∧ s.entries.drop c.entry_idx = e :: more
  id : c.id = e.id
  is_deleted : c.is_deleted = e.is_deleted

/-- The heap has a cursor for each run of the merge that is left, and each stands at
what is left of its run. -/
structure Represents (segs : List Segment) (heap : List CompactCursor) (ws : List (Nat × SegmentEntry)) : Prop where
  sorted : ws.Pairwise (Precedes SegmentEntry.id)
  ordered : heap.Pairwise CompactCursor.le
  distinct : (heap.map CompactCursor.seg_idx).Nodup
  runs : ∀ w ∈ ws, w.1 ∈ heap.map CompactCursor.seg_idx
  cursors : ∀ c ∈ heap, ∃ e more, c.At segs e more ∧ ws.filter (fun w => w.1 == c.seg_idx) = (e :: more).map fun e => (c.seg_idx,e)

namespace Represents
variable {segs : List Segment} {heap : List CompactCursor}

lemma heap_nil (here : Represents segs heap []) : heap = [] := by
  cases heap with
  | nil => rfl
  | cons c heap =>
    obtain ⟨e,more,_,left⟩ := here.cursors c (.head _)
    cases left

variable {ws : List (Nat × SegmentEntry)} {e : SegmentEntry}

lemma heap_ne_nil (here : Represents segs heap ws) (more : ws ≠ []) : heap ≠ [] := by
  rintro rfl
  obtain ⟨w,ws,rfl⟩ := exists_cons_of_ne_nil more
  exact absurd (here.runs w (.head _)) not_mem_nil

lemma top (here : Represents segs heap ((i,e) :: ws)) : ∃ top rest more, heap = top :: rest ∧ top.seg_idx = i ∧ top.At segs e more ∧
      ws.filter (fun w => w.1 == i) = more.map fun e => (i,e) := by
  obtain ⟨top,rest,rfl⟩ := exists_cons_of_ne_nil (here.heap_ne_nil (cons_ne_nil _ _))
  obtain ⟨f,more,stands,left⟩ := here.cursors top (.head _)
  by_cases own : top.seg_idx = i
  · grind
  · -- another cursor of the heap stands at the element and comes before the top
    obtain ⟨c,member,run⟩ := mem_map.mp (here.runs (i,e) (.head _))
    obtain ⟨e',_,stands',left'⟩ := here.cursors c member
    rw [run,filter_cons_of_pos (by simp),map_cons] at left'
    obtain ⟨first,_⟩ := List.cons.inj left'
    cases first
    have later : c ∈ rest := by
      grind
    have order := (CompactCursor.le_iff _ _).mp ((pairwise_cons.mp here.ordered).1 c later)
    have listed : (top.seg_idx,f) ∈ (i,e) :: ws := by
      grind [mem_of_mem_filter]
    rcases mem_cons.mp listed with same | behind
    · exact absurd (Prod.mk.inj same).1 own
    · have precedes := (pairwise_cons.mp here.sorted).1 _ behind
      unfold Before at order
      unfold Precedes at precedes
      rw [stands.id,stands'.id,run] at order
      grind

section
variable {i : Nat} {e : SegmentEntry} {ws : List (Nat × SegmentEntry)} {top : CompactCursor}
  {rest : List CompactCursor} (here : Represents segs (top :: rest) ((i,e) :: ws)) (run : top.seg_idx = i)
include here run

lemma rest_ne (member : c ∈ rest) : c.seg_idx ≠ i := by
  intro same
  refine (nodup_cons.mp here.distinct).1 ?_
  rw [run,← same]
  exact mem_map_of_mem member

lemma drop : Represents segs rest (ws.filter fun w => w.1 != i) where
  sorted := (pairwise_cons.mp here.sorted).2.filter _
  ordered := (pairwise_cons.mp here.ordered).2
  distinct := (nodup_cons.mp here.distinct).2
  runs := by
    intro w member
    obtain ⟨inside,other⟩ := mem_filter.mp member
    have listed := here.runs w (.tail _ inside)
    grind
  cursors := by
    intro c member
    have other := here.rest_ne run member
    obtain ⟨f,more,stands,left⟩ := here.cursors c (.tail _ member)
    refine ⟨f,more,stands,?_⟩
    rw [filter_cons_of_neg (by simpa using Ne.symm other)] at left
    rw [← left,filter_filter]
    grind

end

lemma insert (sorted : ws.Pairwise (Precedes SegmentEntry.id)) (here : Represents segs heap (ws.filter fun w => w.1 != i))
    (run : c.seg_idx = i) (stands : c.At segs e more) (left : ws.filter (fun w => w.1 == i) = (e :: more).map fun e => (i,e)) :
    Represents segs (heap.orderedInsert CompactCursor.le c) ws := by
  have other : ∀ d ∈ heap, d.seg_idx ≠ i := by
    rintro d member rfl
    obtain ⟨f,others,_,left⟩ := here.cursors d member
    rw [filter_filter,filter_eq_nil_iff.mpr (by simp)] at left
    cases left
  have perm := perm_orderedInsert CompactCursor.le c heap
  refine ⟨sorted,here.ordered.orderedInsert c heap,?_,?_,?_⟩
  · rw [(perm.map _).nodup_iff,map_cons,nodup_cons]
    refine ⟨fun listed => ?_,here.distinct⟩
    grind
  · intro w member
    rw [(perm.map _).mem_iff,map_cons,mem_cons]
    by_cases same : w.1 = i
    · exact .inl (same.trans run.symm)
    · exact .inr (here.runs w (mem_filter.mpr ⟨member,by simpa using same⟩))
  · intro d member
    rcases mem_cons.mp (perm.mem_iff.mp member) with rfl | inside
    · rw [← run] at left
      exact ⟨e,more,stands,left⟩
    · obtain ⟨f,others,stands',left'⟩ := here.cursors d inside
      refine ⟨f,others,stands',?_⟩
      rw [← left',filter_filter]
      refine filter_congr fun w _ => ?_
      grind

lemma push {i k : Nat} {st : CompactState} {s : Segment}
    (sorted : ws.Pairwise (Precedes SegmentEntry.id)) (inputs : st.input_segments = segs)
    (here : Represents segs st.heap (ws.filter fun w => w.1 != i)) (at_ : segs[i]? = some s)
    (left : ws.filter (fun w => w.1 == i) = (s.entries.drop k).map fun e => (i,e)) :
    Represents segs (st.push i k).heap ws := by
  have first : s.entries[k]? = (s.entries.drop k).head? := List.head?_drop.symm
  cases entries : s.entries.drop k with
  | nil =>
    rw [entries,List.head?_nil] at first
    simp only [CompactState.push,inputs,at_,Segment.readAt,first]
    rw [entries,map_nil,filter_eq_nil_iff] at left
    have all : ws.filter (fun w => w.1 != i) = ws :=
      filter_eq_self.mpr fun w member => by simpa using left w member
    rw [all] at here
    exact here
  | cons e more =>
    rw [entries,List.head?_cons] at first
    simp only [CompactState.push,inputs,at_,Segment.readAt,first]
    rw [entries] at left
    exact here.insert sorted rfl ⟨⟨s,at_,entries⟩,rfl,rfl⟩ left

lemma advance {i : Nat} {top : CompactCursor}
    {rest : List CompactCursor} (here : Represents segs (top :: rest) ((i,e) :: ws)) (run : top.seg_idx = i)
    {more : List SegmentEntry} (stands : top.At segs e more)
    (left : ws.filter (fun w => w.1 == i) = more.map fun e => (i,e)) {st : CompactState}
    (inputs : st.input_segments = segs) (heap : st.heap = rest) :
    Represents segs (st.push i (top.entry_idx + 1)).heap ws := by
  obtain ⟨s,at_,entries⟩ := stands.segment
  rw [run] at at_
  have tail : s.entries.drop (top.entry_idx + 1) = more := by rw [← tail_drop,entries,tail_cons]
  have dropped := here.drop run
  rw [← heap] at dropped
  exact dropped.push (pairwise_cons.mp here.sorted).2 inputs at_ (by rw [tail]; exact left)

end Represents

def merged (segs : List Segment) : List (Nat × SegmentEntry) := stream SegmentEntry.id (segs.map Segment.entries)

lemma merged_ascending {segs : List Segment} (strict : ∀ s ∈ segs, s.Strict) :
    Ascending SegmentEntry.id (segs.map Segment.entries) := by
  intro run member
  obtain ⟨s,inside,rfl⟩ := mem_map.mp member
  exact strict s inside

@[simp] lemma CompactState.push_inputs (st : CompactState) (i k : Nat) : (st.push i k).input_segments = st.input_segments := by
  unfold push
  split
  · rfl
  · split <;> rfl

lemma Represents.refill {segs : List Segment} (strict : ∀ s ∈ segs, s.Strict) {st : CompactState}
    (inputs : st.input_segments = segs) (empty : st.heap = []) : Represents segs st.refill.heap (merged segs) := by
  have sorted := stream_pairwise (merged_ascending strict)
  have upTo : ∀ n ≤ segs.length,((List.range n).foldl (fun st i => st.push i 0) st).input_segments = segs ∧
      Represents segs ((List.range n).foldl (fun st i => st.push i 0) st).heap
        ((merged segs).filter fun w => decide (w.1 < n)) := by
    intro n bound
    induction n with
    | zero =>
      refine ⟨inputs,?_⟩
      rw [range_zero,foldl_nil,empty,filter_eq_nil_iff.mpr (by simp)]
      exact ⟨.nil,.nil,.nil,nofun,nofun⟩
    | succ n ih =>
      obtain ⟨same,here⟩ := ih (by omega)
      rw [range_succ,foldl_append,foldl_cons,foldl_nil]
      refine ⟨by rw [CompactState.push_inputs,same],?_⟩
      have at_ : segs[n]? = some segs[n] := List.getElem?_eq_getElem (by omega)
      have run : (segs.map Segment.entries)[n]? = some segs[n].entries := by rw [getElem?_map,at_]; rfl
      refine Represents.push (sorted.filter _) same ?_ at_ ?_
      · rw [filter_filter]
        grind
      · rw [drop_zero,← stream_filter (merged_ascending strict) run,filter_filter]
        refine filter_congr fun w _ => ?_
        by_cases same : w.1 = n
        · simp [same]
        · simp [same]
  have all := (upTo segs.length (Nat.le_refl _)).2
  rw [CompactState.refill,inputs]
  have whole : (merged segs).filter (fun w => decide (w.1 < segs.length)) = merged segs := by
    refine filter_eq_self.mpr fun w member => ?_
    obtain ⟨run,at_,_⟩ := (mem_stream _ _ w.1 w.2).mp member
    have bound := (List.getElem?_eq_some_iff.mp at_).1
    simpa using bound
  rw [whole] at all
  exact all

end PomaiCache
