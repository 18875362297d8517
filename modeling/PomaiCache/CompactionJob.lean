import PomaiCache.Compaction

/-!
What the compaction job writes. However its work is spread over calls of
`PumpBackgroundWork`, it follows the merge of its input segments in parts; if the
merge ends without a live entry in the current part, it starts over and never
completes.
-/
namespace PomaiCache
open Layers Merge List

namespace SegmentEntry

def live (e : SegmentEntry) : Bool := !e.is_deleted

def kept (e : SegmentEntry) : BuilderEntry := ⟨e.id,.arena e.vec,false,e.md⟩

end SegmentEntry

def CompactState.noted (st : CompactState) : Option VectorId := if st.is_first then none else some st.last_id

variable (st : CompactState)

lemma CompactState.noted_ne (id : VectorId) : (st.is_first || id != st.last_id) = true ↔ st.noted ≠ some id := by
  unfold noted
  grind

@[simp] lemma CompactState.seen_noted (id : VectorId) : (st.seen id).noted = some id := rfl

@[simp] lemma CompactState.push_fields (i k : Nat) :
    (st.push i k).phase = st.phase ∧ (st.push i k).noted = st.noted ∧ (st.push i k).builder = st.builder ∧
      (st.push i k).built_segments = st.built_segments := by
  unfold push
  split
  · exact ⟨rfl,rfl,rfl,rfl⟩
  · split <;> exact ⟨rfl,rfl,rfl,rfl⟩

lemma CompactState.refill_fields : st.refill.phase = st.phase ∧ st.refill.noted = st.noted ∧ st.refill.builder = st.builder ∧
      st.refill.built_segments = st.built_segments ∧ st.refill.input_segments = st.input_segments := by
  have all : ∀ (is : List Nat) (st : CompactState),(is.foldl (fun st i => st.push i 0) st).phase = st.phase ∧
        (is.foldl (fun st i => st.push i 0) st).noted = st.noted ∧
        (is.foldl (fun st i => st.push i 0) st).builder = st.builder ∧
        (is.foldl (fun st i => st.push i 0) st).built_segments = st.built_segments ∧
        (is.foldl (fun st i => st.push i 0) st).input_segments = st.input_segments := by
    intro is
    induction is with
    | nil => exact fun st => ⟨rfl,rfl,rfl,rfl,rfl⟩
    | cons i is ih =>
      simp [*]
  exact all _ st

namespace VectorRuntime
section
variable (start : VectorRuntime)

def compactedSegment (es : List SegmentEntry) : Segment :=
  SegmentBuilder.finish ⟨start.dim,es.map SegmentEntry.kept⟩ []

def compactParts : Option (List (List SegmentEntry)) :=
  parts SegmentEntry.id SegmentEntry.live kMaxSegmentEntries (merged start.segments)

/-- The runtime when these parts have replaced its segments. -/
def compacted (ps : List (List SegmentEntry)) : VectorRuntime :=
  publishSnapshot
    {start with
      manifest := (ps.map start.compactedSegment).reverse
      segments := (ps.map start.compactedSegment).reverse}

/-- When the first element of the merge is live, its id lies behind the merge, so
that a new start does not take it for one that was just seen. -/
def Ahead (es : List SegmentEntry) (last : Option VectorId) (ws : List (Nat × SegmentEntry)) : Prop :=
  ∀ i first tail, merged start.segments = (i,first) :: tail → first.live →
    (last = none ∧ (ws = merged start.segments ∨ ∀ w ∈ ws, first.id < w.2.id)) ∨
      ∃ id, last = some id ∧ first.id ≤ id ∧ (es.length ≠ 1 → first.id < id)

/-- The job inside the merge, with `es` in the current part and `ws` left. -/
structure Pass (es : List SegmentEntry) (ws : List (Nat × SegmentEntry)) (st : CompactState) : Prop where
  phase : st.phase = .kBuild
  inputs : st.input_segments = start.segments
  heap : Represents start.segments st.heap ws
  builder : st.builder = builderOf start.dim (es.map SegmentEntry.kept)
  room : es.length < kMaxSegmentEntries

/-- The current part is full, or it is the last one. -/
structure Filled (es : List SegmentEntry) (ws : List (Nat × SegmentEntry)) (st : CompactState) : Prop where
  phase : st.phase = .kFinalizeSegment
  inputs : st.input_segments = start.segments
  heap : Represents start.segments st.heap ws
  builder : st.builder = some ⟨start.dim,es.map SegmentEntry.kept⟩

/-- The job in `kBuild`, with `es` in the current part and `ws` left of the merge. -/
structure Building (es : List SegmentEntry) (last : Option VectorId) (ws : List (Nat × SegmentEntry))
    (bs : List (List SegmentEntry)) (st : CompactState) : Prop extends start.Pass es ws st where
  built : st.built_segments = bs.map start.compactedSegment
  noted : ∀ id, last = some id → st.noted = some id
  unseen : last = none → es = [] ∧ ws ≠ [] ∧ ∀ w ∈ ws.head?, st.noted ≠ some w.2.id
  from_ : From SegmentEntry.id last ws
  ahead : start.Ahead es last ws
  outcome : start.compactParts = (partsFrom SegmentEntry.id SegmentEntry.live kMaxSegmentEntries es last ws).map fun ps => bs ++ ps

structure Starting (bs : List (List SegmentEntry)) (st : CompactState) : Prop where
  phase : st.phase = .kBuild
  inputs : st.input_segments = start.segments
  heap : st.heap = []
  builder : st.builder = none
  built : st.built_segments = bs.map start.compactedSegment
  again : start.compactParts = start.compactParts.map fun ps => bs ++ ps
  noted : ∀ i first tail, merged start.segments = (i,first) :: tail → first.live → st.noted ≠ some first.id

structure Finalizing (es : List SegmentEntry) (ws : List (Nat × SegmentEntry)) (bs : List (List SegmentEntry))
    (st : CompactState) : Prop extends start.Filled es ws st where
  built : st.built_segments = bs.map start.compactedSegment
  unseen : ∀ w ∈ ws.head?, st.noted ≠ some w.2.id
  ahead : ∀ i first tail, merged start.segments = (i,first) :: tail → first.live → ∀ w ∈ ws, first.id < w.2.id
  outcome : start.compactParts = (parts SegmentEntry.id SegmentEntry.live kMaxSegmentEntries ws).map fun ps => bs ++ es :: ps

inductive CompactJob : VectorRuntime → CompactState → Pump → Prop
  | starting {bs st pump} (at_ : pump.loop = .outer) (here : start.Starting bs st) : CompactJob start st pump
  | building {es last ws bs st pump} (more : pump.loop = .outer → ws ≠ [])
      (here : start.Building es last ws bs st) : CompactJob start st pump
  | finalizing {es ws bs st pump} (at_ : pump.loop = .outer) (here : start.Finalizing es ws bs st) : CompactJob start st pump
  | committing {ps st pump} (at_ : pump.loop = .outer) (phase : st.phase = .kCommitManifest)
      (built : st.built_segments = ps.map start.compactedSegment) (outcome : start.compactParts = some ps) :
      CompactJob start st pump
  | installing {ps st pump} (at_ : pump.loop = .outer) (phase : st.phase = .kInstall)
      (built : st.built_segments = ps.map start.compactedSegment) (outcome : start.compactParts = some ps) :
      CompactJob {start with manifest := (ps.map start.compactedSegment).reverse} st pump
  | installed {ps st pump} (at_ : pump.loop = .outer) (phase : st.phase = .kCleanup ∨ st.phase = .kPublish)
      (outcome : start.compactParts = some ps) :
      CompactJob
        {start with
          manifest := (ps.map start.compactedSegment).reverse
          segments := (ps.map start.compactedSegment).reverse} st pump
  | done {ps st pump} (at_ : pump.loop = .outer) (phase : st.phase = .kDone)
      (outcome : start.compactParts = some ps) : CompactJob (start.compacted ps) st pump

end

variable {start : VectorRuntime}

def keeps (start : VectorRuntime) (now_sec : UInt64) (e : SegmentEntry) : Bool :=
  e.live && !vectorMetaExpired start.ttl_sec now_sec e.md

/-- What an iteration of the inner loop makes of the element it takes. -/
inductive Popped (start : VectorRuntime) (now_sec : UInt64) (es : List SegmentEntry) (i : Nat) (e : SegmentEntry)
    (ws : List (Nat × SegmentEntry)) (st : CompactState) (pump : Pump) : CompactProgress → Prop
  | old {after} (same : st.noted = some e.id) (noted : after.noted = st.noted)
      (built : after.built_segments = st.built_segments) (here : start.Pass es ws after) :
      Popped start now_sec es i e ws st pump (.running start after {pump with entries := pump.entries + 1})
  | dropped {after} (fresh : st.noted ≠ some e.id) (dead : start.keeps now_sec e = false)
      (noted : after.noted = some e.id) (built : after.built_segments = st.built_segments)
      (here : start.Pass es ws after) :
      Popped start now_sec es i e ws st pump (.running start after {pump with entries := pump.entries + 1})
  | taken {after} (fresh : st.noted ≠ some e.id) (alive : start.keeps now_sec e = true)
      (noted : after.noted = some e.id) (built : after.built_segments = st.built_segments)
      (here : start.Pass (es ++ [e]) ws after) :
      Popped start now_sec es i e ws st pump (.running start after {pump with entries := pump.entries + 1})
  | filled {after} (fresh : st.noted ≠ some e.id) (alive : start.keeps now_sec e = true)
      (full : es.length + 1 ≥ kMaxSegmentEntries) (noted : after.noted = st.noted)
      (built : after.built_segments = st.built_segments)
      (here : start.Filled (es ++ [e]) (ws.filter fun w => w.1 != i) after) :
      Popped start now_sec es i e ws st pump (.running start after {pump with loop := .outer})

namespace Pass
variable {es : List SegmentEntry} {i : Nat} {e : SegmentEntry} {ws : List (Nat × SegmentEntry)} {st : CompactState}

section
variable (here : start.Pass es ((i,e) :: ws) st) {top : CompactCursor} {rest : List CompactCursor}
  (popped : st.heap = top :: rest) {more : List SegmentEntry} (run : top.seg_idx = i)
  (stands : top.At start.segments e more) (left : ws.filter (fun w => w.1 == i) = more.map fun e => (i,e))
include here popped run stands left

lemma advance {next : List SegmentEntry} (after : CompactState) (inputs : after.input_segments = start.segments)
    (phase : after.phase = .kBuild) (heap : after.heap = rest)
    (builder : after.builder = builderOf start.dim (next.map SegmentEntry.kept))
    (room : next.length < kMaxSegmentEntries) : start.Pass next ws (after.push top.seg_idx (top.entry_idx + 1)) := by
  obtain ⟨phase',_,builder',_⟩ := after.push_fields top.seg_idx (top.entry_idx + 1)
  have represents : Represents start.segments (after.push i (top.entry_idx + 1)).heap ws := by
    have all := here.heap
    rw [popped] at all
    exact all.advance run stands left inputs heap
  rw [← run] at represents
  exact ⟨phase'.trans phase,(after.push_inputs _ _).trans inputs,represents,builder'.trans builder,room⟩

end

lemma pop (here : start.Pass es ((i,e) :: ws) st) (strict : ∀ s ∈ start.segments, s.Strict)
    (dims : ∀ s ∈ start.segments, s.dim = start.dim) {pump : Pump} {tick : Tick} (budget : pump.hasBudget tick) :
    Popped start tick.now_sec es i e ws st pump (start.compactInner st pump tick) := by
  obtain ⟨top,rest,more,popped,run,stands,left⟩ := here.heap.top
  have begins : start.compactInner st pump tick = start.compactPop {st with heap := rest} top pump tick.now_sec := by
    simp [popped,if_pos budget,compactInner]
  rw [begins]
  have fields := fun (after : CompactState) => after.push_fields top.seg_idx (top.entry_idx + 1)
  let popped_ : CompactState := {st with heap := rest}
  unfold compactPop
  by_cases same : st.noted = some e.id
  · -- an older version of the id that was taken last
    have old : ¬ (st.is_first || top.id != st.last_id) = true := by
      rw [st.noted_ne,stands.id]
      exact not_not.mpr same
    rw [if_neg old]
    exact .old same (fields popped_).2.1 (fields popped_).2.2.2
      (here.advance popped run stands left popped_ here.inputs here.phase rfl here.builder here.room)
  have new : (st.is_first || top.id != st.last_id) = true := by
    rw [st.noted_ne,stands.id]
    exact same
  rw [if_pos new]
  have noted : ∀ st : CompactState, (st.seen top.id).noted = some e.id := fun st => by
    rw [CompactState.seen_noted,stands.id]
  have passed := here.advance popped run stands left (popped_.seen top.id) here.inputs here.phase rfl here.builder here.room
  have dropped (dead : start.keeps tick.now_sec e = false) : Popped start tick.now_sec es i e ws st pump
      (start.compactAdvance (popped_.seen top.id) top pump) :=
    .dropped same dead ((fields (popped_.seen top.id)).2.1.trans (noted popped_)) (fields (popped_.seen top.id)).2.2.2 passed
  by_cases deleted : top.is_deleted
  · rw [if_pos deleted]
    refine dropped ?_
    rw [keeps,SegmentEntry.live,← stands.is_deleted,deleted]
    rfl
  rw [if_neg deleted]
  have live : e.live = true := by rw [SegmentEntry.live,← stands.is_deleted]; simpa using deleted
  obtain ⟨s,at_s,entries⟩ := stands.segment
  have inside : s ∈ start.segments := mem_of_getElem? at_s
  have member : e ∈ s.entries := mem_of_mem_drop (by rw [entries]; exact (.head _))
  have found : s.findAndDecode top.id = (.kFound,(e.vec,e.md)) := by
    have raw := (Segment.findRaw_eq_some (strict s inside) top.id e).mpr ⟨member,stands.id.symm⟩
    grind [SegmentEntry.live,Segment.findAndDecode]
  simp only [here.inputs,at_s,found]
  by_cases expired : vectorMetaExpired start.ttl_sec tick.now_sec e.md
  · rw [if_pos expired]
    rw [← here.inputs]
    refine dropped ?_
    rw [keeps,expired,Bool.not_true,Bool.and_false]
  rw [if_neg expired]
  have alive : start.keeps tick.now_sec e = true := by simp [keeps,live,expired]
  have added : (st.builder.getD (.create start.dim)).add top.id (.arena e.vec) s.dim false e.md =
      (⟨start.dim,(es ++ [e]).map SegmentEntry.kept⟩,.Ok) := by
    rw [here.builder,builderOf_getD]
    simp [SegmentBuilder.add,dims s inside,SegmentEntry.kept,stands.id]
  have count : ((es ++ [e]).map SegmentEntry.kept).length = es.length + 1 := by simp
  simp only [compactKeep,added,Status.ok_Ok,if_true,SegmentBuilder.count,count]
  by_cases full : es.length + 1 ≥ kMaxSegmentEntries
  · -- the loop is left here: the run of the top is dropped, and its id is not noted
    rw [if_pos full]
    have all := here.heap
    rw [popped] at all
    exact .filled same alive full rfl rfl ⟨rfl,rfl,all.drop run,rfl⟩
  · rw [if_neg full]
    let kept_ : CompactState := {st with
      input_segments := start.segments
      heap := rest
      builder := some ⟨start.dim,(es ++ [e]).map SegmentEntry.kept⟩}
    refine .taken same alive ((fields (kept_.seen top.id)).2.1.trans (noted kept_)) (fields (kept_.seen top.id)).2.2.2
      (here.advance popped run stands left (kept_.seen top.id) rfl here.phase rfl ?_ ?_)
    · have more : builderOf start.dim ((es ++ [e]).map SegmentEntry.kept) = some ⟨start.dim,(es ++ [e]).map SegmentEntry.kept⟩ := by
        rw [map_append,map_singleton,builderOf_append]
      exact more.symm
    · grind

lemma resume (here : start.Pass es ws st) (more : ws ≠ []) (pump : Pump) :
    start.compactBuild st pump = .running start st {pump with loop := .inner} := by
  have some_ : st.heap.isEmpty = false := by simpa using here.heap.heap_ne_nil more
  rw [compactBuild,some_,Bool.false_and]
  rfl

lemma interrupted (here : start.Pass es ((i,e) :: ws) st) (used : ¬ pump.hasBudget tick = true) :
    start.compactInner st pump tick = .running start st {pump with loop := .outer} := by
  have more := here.heap.heap_ne_nil (cons_ne_nil _ _)
  unfold compactInner
  split
  · contradiction
  · rw [if_neg used]

lemma drained (here : start.Pass es [] st) (pump : Pump) (tick : Tick) :
    ∃ after, start.compactInner st pump tick = .running start after {pump with loop := .outer} ∧
      after.noted = st.noted ∧ after.built_segments = st.built_segments ∧
      (es ≠ [] ∧ start.Filled es [] after ∨ es = [] ∧ after = st) := by
  have ended : start.compactInner st pump tick =
      .running start (if st.builder.isSome then {st with phase := .kFinalizeSegment} else st)
        {pump with loop := .outer} := by
    simp [here.heap.heap_nil,compactInner]
  refine ⟨_,ended,?_⟩
  cases es with
  | cons e es =>
    rw [if_pos (by rw [here.builder]; rfl)]
    exact ⟨rfl,rfl,.inl ⟨cons_ne_nil _ _,rfl,here.inputs,here.heap,here.builder⟩⟩
  | nil =>
    rw [if_neg (by rw [here.builder]; nofun)]
    exact ⟨rfl,rfl,.inr ⟨rfl,rfl⟩⟩

lemma refill (strict : ∀ s ∈ start.segments, s.Strict) (phase : st.phase = .kBuild)
    (inputs : st.input_segments = start.segments) (heap : st.heap = []) (builder : st.builder = none) (pump : Pump) :
    start.Pass [] (merged start.segments) st.refill ∧ (merged start.segments = [] →
        start.compactBuild st pump = .running start {st.refill with phase := .kCommitManifest} pump) ∧
      (merged start.segments ≠ [] → start.compactBuild st pump = .running start st.refill {pump with loop := .inner}) := by
  obtain ⟨phase',_,builder',_,inputs'⟩ := st.refill_fields
  have represents := Represents.refill strict inputs heap
  have begins : start.compactBuild st pump =
      if st.refill.heap.isEmpty then .running start {st.refill with phase := .kCommitManifest} pump
      else .running start st.refill {pump with loop := .inner} := by
    rw [compactBuild,heap,builder]
    rfl
  refine ⟨⟨phase'.trans phase,inputs'.trans inputs,represents,builder'.trans builder,by decide⟩,?_,?_⟩
  · intro none_
    rw [none_] at represents
    rw [begins,represents.heap_nil]
    rfl
  · intro some_
    rw [begins,if_neg (by simpa using represents.heap_ne_nil some_)]

end Pass

variable {st : CompactState} {bs : List (List SegmentEntry)} {ws : List (Nat × SegmentEntry)} {es : List SegmentEntry}

lemma Filled.write (here : start.Filled es ws st) (pump : Pump) :
    ∃ after, start.compactFinalize st pump = .running start after pump ∧ after.noted = st.noted ∧
      after.built_segments = st.built_segments ++ [start.compactedSegment es] ∧
      (ws = [] ∧ after.phase = .kCommitManifest ∨ ws ≠ [] ∧ start.Pass [] ws after) := by
  have written : start.compactFinalize st pump = .running start
      {st with
        built_segments := st.built_segments ++ [start.compactedSegment es]
        builder := none
        phase := if st.heap.isEmpty then .kCommitManifest else .kBuild} pump := by
    rw [compactFinalize,here.builder]
    rfl
  refine ⟨_,written,rfl,rfl,?_⟩
  by_cases none_ : ws = []
  · have represents := here.heap
    rw [none_] at represents
    rw [represents.heap_nil]
    exact .inl ⟨none_,rfl⟩
  · have some_ : st.heap.isEmpty = false := by simpa using here.heap.heap_ne_nil none_
    rw [some_]
    exact .inr ⟨none_,rfl,here.inputs,here.heap,rfl,by decide⟩

section
variable {es : List SegmentEntry} {last : Option VectorId} {i : Nat} {e : SegmentEntry} {ws : List (Nat × SegmentEntry)}
  (ahead : start.Ahead es last ((i,e) :: ws)) (from_ : From SegmentEntry.id last ((i,e) :: ws))
  (fresh : last ≠ some e.id) (unseen : last = none → es = [])
include ahead from_ unseen

include fresh in
lemma Ahead.taken {next : List SegmentEntry} (grows : next = es ∧ e.live = false ∨ next = es ++ [e]) :
    start.Ahead next (some e.id) ws := by
  intro j first tail whole alive
  refine .inr ⟨e.id,rfl,?_⟩
  rcases ahead j first tail whole alive with ⟨none_,same | beyond⟩ | ⟨id,some_,le,_⟩
  · grind
  · have less := beyond (i,e) (.head _)
    exact ⟨le_of_lt less,fun _ => less⟩
  · have above : id ≤ e.id := from_ id some_ (i,e) (.head _)
    grind

lemma Ahead.full (sorted : ((i,e) :: ws).Pairwise (Precedes SegmentEntry.id))
    (full : es.length + 1 ≥ kMaxSegmentEntries) {j : Nat} {first : SegmentEntry} {tail : List (Nat × SegmentEntry)}
    (whole : merged start.segments = (j,first) :: tail) (alive : first.live) : ∀ w ∈ ws, first.id < w.2.id := by
  intro w member
  rw [kMaxSegmentEntries] at full
  rcases ahead j first tail whole alive with ⟨none_,_⟩ | ⟨id,some_,_,less⟩
  · rw [unseen none_,length_nil] at full
    omega
  · have above : id ≤ e.id := from_ id some_ (i,e) (.head _)
    have later : e.id ≤ w.2.id := ((pairwise_cons.mp sorted).1 w member).key_le
    exact lt_of_lt_of_le (less (by omega)) (above.trans later)

end

namespace Building
variable {es : List SegmentEntry} {last : Option VectorId} {i : Nat} {e : SegmentEntry} {ws : List (Nat × SegmentEntry)}
  {bs : List (List SegmentEntry)} {st : CompactState} (here : start.Building es last ((i,e) :: ws) bs st)
include here

lemma fresh_iff : st.noted ≠ some e.id ↔ last ≠ some e.id := by
  cases taken : last with
  | none =>
    have new := (here.unseen taken).2.2 (i,e) rfl
    exact ⟨fun _ => nofun,fun _ => new⟩
  | some id => rw [here.noted id taken]

/-- Where an iteration of the inner loop leads. -/
def Moves (start : VectorRuntime) (ws : List (Nat × SegmentEntry)) (i : Nat) (bs : List (List SegmentEntry))
    (progress : CompactProgress) : Prop :=
  ∃ st pump, progress = .running start st pump ∧ (pump.loop = .inner ∧ (∃ es last, start.Building es last ws bs st) ∨
      pump.loop = .outer ∧ ∃ es, start.Finalizing es (ws.filter fun w => w.1 != i) bs st)

lemma advance {next : List SegmentEntry} {after : CompactState} (passed : start.Pass next ws after)
    (built : after.built_segments = st.built_segments) (noted : after.noted = some e.id)
    (ahead : start.Ahead next (some e.id) ws)
    (outcome : partsFrom SegmentEntry.id SegmentEntry.live kMaxSegmentEntries es last ((i,e) :: ws) =
      partsFrom SegmentEntry.id SegmentEntry.live kMaxSegmentEntries next (some e.id) ws)
    {pump : Pump} (at_ : pump.loop = .inner) : Moves start ws i bs (.running start after pump) := by
  have moved : start.Building next (some e.id) ws bs after :=
    { toPass := passed
      built := built.trans here.built
      noted := by
        rintro id same
        rw [noted,same]
      unseen := nofun
      from_ := From.cons here.heap.sorted
      ahead := ahead
      outcome := by rw [here.outcome,outcome] }
  exact ⟨_,_,rfl,.inl ⟨at_,next,some e.id,moved⟩⟩

lemma iterate (strict : ∀ s ∈ start.segments, s.Strict) (dims : ∀ s ∈ start.segments, s.dim = start.dim)
    (forever : start.ttl_sec = 0) {pump : Pump} (at_ : pump.loop = .inner) {tick : Tick} (budget : pump.hasBudget tick) :
    Moves start ws i bs (start.compactInner st pump tick) := by
  have unseen := fun none_ => (here.unseen none_).1
  have young : start.keeps tick.now_sec e = e.live := by simp [keeps,vectorMetaExpired,forever]
  have popped := here.toPass.pop strict dims budget
  generalize start.compactInner st pump tick = progress at popped ⊢
  cases popped with
  | old same noted built passed =>
    have taken : last = some e.id := by
      by_contra fresh
      exact here.fresh_iff.mpr fresh same
    subst taken
    refine here.advance passed built (noted.trans same) ?_ (partsFrom_old rfl) at_
    intro j first tail whole alive
    rcases here.ahead j first tail whole alive with ⟨none_,_⟩ | behind
    · cases none_
    · exact .inr behind
  | dropped fresh dead noted built passed =>
    rw [here.fresh_iff] at fresh
    rw [young] at dead
    exact here.advance passed built noted (Ahead.taken here.ahead here.from_ fresh unseen (.inl ⟨rfl,dead⟩))
      (partsFrom_dead fresh dead) at_
  | taken fresh alive noted built passed =>
    rw [here.fresh_iff] at fresh
    rw [young] at alive
    have room : es.length + 1 < kMaxSegmentEntries := by
      have short := passed.room
      rwa [length_append,length_singleton] at short
    exact here.advance passed built noted (Ahead.taken here.ahead here.from_ fresh unseen (.inr rfl))
      (partsFrom_live fresh alive room) at_
  | filled fresh alive full noted built filled =>
    rw [here.fresh_iff] at fresh
    rw [young] at alive
    refine ⟨_,_,rfl,.inr ⟨rfl,es ++ [e],?_⟩⟩
    refine
      { toFilled := filled
        built := built.trans here.built
        unseen := ?_
        ahead := fun j first tail whole alive w member => Ahead.full here.ahead here.from_ unseen here.heap.sorted full
          whole alive w (mem_of_mem_filter member)
        outcome := ?_ }
    · -- the id that is still noted lies before the one that was taken
      intro w next same
      have member : w ∈ ws := mem_of_mem_filter (mem_of_mem_head? next)
      have later : e.id ≤ w.2.id := ((pairwise_cons.mp here.heap.sorted).1 w member).key_le
      cases taken : last with
      | none =>
        rw [unseen taken,length_nil,kMaxSegmentEntries] at full
        omega
      | some id =>
        rw [noted,here.noted id taken] at same
        cases same
        have before : w.2.id ≤ e.id := here.from_ _ taken (i,e) (.head _)
        exact fresh (by rw [taken,le_antisymm before later])
    · rw [here.outcome,partsFrom_full fresh alive full,Option.map_map]
      rfl

end Building

lemma Building.drained (here : start.Building es last [] bs st) (pump : Pump) (tick : Tick) :
    ∃ after, start.compactInner st pump tick = .running start after {pump with loop := .outer} ∧
      (start.Finalizing es [] bs after ∨ start.compactParts = none ∧ start.Starting bs after) := by
  have outcome := here.outcome
  rw [partsFrom_nil] at outcome
  obtain ⟨after,ended,_,built,⟨some_,filled⟩ | ⟨rfl,rfl⟩⟩ := here.toPass.drained pump tick
  · refine ⟨after,ended,.inl ?_⟩
    exact
      { toFilled := filled
        built := built.trans here.built
        unseen := nofun
        ahead := fun _ _ _ _ _ _ member => absurd member not_mem_nil
        outcome := by rw [outcome,parts_nil,if_neg (by simpa using some_)]; rfl }
  · have endless : start.compactParts = none := outcome
    refine ⟨after,ended,.inr ⟨endless,?_⟩⟩
    exact
      { phase := here.phase
        inputs := here.inputs
        heap := here.heap.heap_nil
        builder := here.builder
        built := here.built
        again := by rw [endless]; rfl
        noted := by
          intro i first tail whole alive noted
          rcases here.ahead i first tail whole alive with ⟨none_,_⟩ | ⟨id,some_,_,less⟩
          · exact (here.unseen none_).2.1 rfl
          · rw [here.noted id some_] at noted
            cases noted
            exact lt_irrefl _ (less Nat.zero_ne_one) }

lemma Starting.refill (here : start.Starting bs st) (strict : ∀ s ∈ start.segments, s.Strict) (pump : Pump) :
    (start.compactParts = some bs ∧ start.compactBuild st pump = .running start {st.refill with phase := .kCommitManifest} pump ∧
      st.refill.built_segments = bs.map start.compactedSegment) ∨
    (start.compactBuild st pump = .running start st.refill {pump with loop := .inner} ∧
      merged start.segments ≠ [] ∧ ∃ last, start.Building [] last (merged start.segments) bs st.refill) := by
  obtain ⟨_,noted,_,built,_⟩ := st.refill_fields
  obtain ⟨passed,ended,goes_on⟩ := Pass.refill strict here.phase here.inputs here.heap here.builder pump
  have again := here.again
  cases whole : merged start.segments with
  | nil =>
    left
    have all : start.compactParts = some [] := by rw [compactParts,whole,parts_nil]
    rw [all,Option.map_some,append_nil] at again
    exact ⟨by rw [all,again],ended whole,built.trans here.built⟩
  | cons head tail =>
    right
    obtain ⟨i,first⟩ := head
    refine ⟨goes_on (by rw [whole]; exact cons_ne_nil _ _),cons_ne_nil _ _,?_⟩
    rw [whole] at passed
    have all : start.compactParts = (partsFrom SegmentEntry.id SegmentEntry.live kMaxSegmentEntries [] none ((i,first) :: tail)).map
          fun ps => bs ++ ps := by
      rw [again,compactParts,whole,parts_eq (cons_ne_nil _ _)]
    by_cases same : st.noted = some first.id
    · -- the merge ended with the id it begins with, which is dead
      have dead : first.live = false := by
        by_contra alive
        exact here.noted i first tail whole (by simpa using alive) same
      refine ⟨some first.id,?_⟩
      exact
        { toPass := passed
          built := built.trans here.built
          noted := fun id taken => by rw [noted,same,taken]
          unseen := nofun
          from_ := by
            rintro id taken w member
            cases taken
            rcases mem_cons.mp member with rfl | later
            · exact le_rfl
            · exact ((pairwise_cons.mp passed.heap.sorted).1 w later).key_le
          ahead := by
            intro j other rest begins alive
            grind
          outcome := by rw [all,partsFrom_dead (Option.some_ne_none _).symm dead,partsFrom_old rfl] }
    · refine ⟨none,?_⟩
      exact
        { toPass := passed
          built := built.trans here.built
          noted := nofun
          unseen := by
            grind
          from_ := nofun
          ahead := fun _ _ _ _ _ => .inl ⟨rfl,.inl whole.symm⟩
          outcome := all }

lemma Finalizing.write (here : start.Finalizing es ws bs st) (pump : Pump) :
    ∃ after, start.compactFinalize st pump = .running start after pump ∧
      (ws = [] ∧ after.phase = .kCommitManifest ∧ start.compactParts = some (bs ++ [es]) ∧
        after.built_segments = (bs ++ [es]).map start.compactedSegment ∨
      ws ≠ [] ∧ start.Building [] none ws (bs ++ [es]) after) := by
  obtain ⟨after,next,noted,built,leads⟩ := here.toFilled.write pump
  have built : after.built_segments = (bs ++ [es]).map start.compactedSegment := by
    rw [built,here.built,map_append,map_singleton]
  have outcome := here.outcome
  refine ⟨after,next,?_⟩
  rcases leads with ⟨none_,phase⟩ | ⟨some_,passed⟩
  · rw [none_,parts_nil] at outcome
    exact .inl ⟨none_,phase,outcome,built⟩
  · refine .inr ⟨some_,?_⟩
    exact
      { toPass := passed
        built := built
        noted := nofun
        unseen := by
          refine fun _ => ⟨rfl,some_,fun w head => ?_⟩
          rw [noted]
          exact here.unseen w head
        from_ := nofun
        ahead := fun i first tail whole alive => .inl ⟨rfl,.inr (here.ahead i first tail whole alive)⟩
        outcome := by
          rw [outcome,parts_eq some_]
          simp }

/-- The job goes on in one of its states, or it completes with all its parts. -/
def CompactContinues (start : VectorRuntime) : CompactProgress → Prop
  | .running rt st pump => start.CompactJob rt st pump
  | .complete rt result => result = .Ok ∧ ∃ ps, start.compactParts = some ps ∧ rt = start.compacted ps

lemma CompactJob.paused (job : start.CompactJob rt st pump) (at_ : pump.loop = .outer) : start.CompactJob rt st .start := by
  cases job with
  | starting _ here => exact .starting rfl here
  | building more here => exact .building (fun _ => more at_) here
  | finalizing _ here => exact .finalizing rfl here
  | committing _ phase built outcome => exact .committing rfl phase built outcome
  | installing _ phase built outcome => exact .installing rfl phase built outcome
  | installed _ phase outcome => exact .installed rfl phase outcome
  | done _ phase outcome => exact .done rfl phase outcome

section
variable (strict : ∀ s ∈ start.segments, s.Strict) (dims : ∀ s ∈ start.segments, s.dim = start.dim) (forever : start.ttl_sec = 0)
include strict

variable {rt : VectorRuntime} {st : CompactState} {pump : Pump}

lemma CompactJob.outer (job : start.CompactJob rt st pump)
    (at_ : pump.loop = .outer) (tick : Tick) : start.CompactContinues (rt.compactOuter st pump tick) := by
  unfold compactOuter
  by_cases budget : pump.hasBudget tick
  swap
  · rw [if_neg budget]
    exact job.paused at_
  rw [if_pos budget]
  cases job with
  | starting _ here =>
    simp only [here.phase]
    rcases here.refill strict pump with ⟨outcome,next,built⟩ | ⟨next,some_,last,building⟩
    · rw [next]
      exact .committing at_ rfl built outcome
    · rw [next]
      exact .building (fun _ => some_) building
  | building more here =>
    simp only [here.phase]
    rw [here.toPass.resume (more at_)]
    exact .building (fun _ => more at_) here
  | finalizing _ here =>
    simp only [here.phase]
    obtain ⟨after,next,⟨_,phase,outcome,built⟩ | ⟨more,building⟩⟩ := here.write pump
    · rw [next]
      exact .committing at_ phase built outcome
    · rw [next]
      exact .building (fun _ => more) building
  | committing _ phase built outcome =>
    simp only [phase,built]
    exact .installing at_ rfl rfl outcome
  | installing _ phase built outcome =>
    simp only [phase,built]
    exact .installed at_ (.inl rfl) outcome
  | installed _ phase outcome =>
    rcases phase with phase | phase
    · simp only [phase]
      exact .installed at_ (.inr rfl) outcome
    · simp only [phase]
      exact .done at_ rfl outcome
  | done _ phase outcome =>
    simp only [phase]
    exact ⟨rfl,_,outcome,rfl⟩

include dims forever

lemma CompactJob.inner (job : start.CompactJob rt st pump)
    (at_ : pump.loop = .inner) (tick : Tick) : start.CompactContinues (rt.compactInner st pump tick) := by
  cases job with
  | @building es last ws bs _ _ _ here =>
    cases ws with
    | nil =>
      obtain ⟨after,next,finalizing | ⟨_,starting⟩⟩ := here.drained pump tick
      · rw [next]
        exact .finalizing rfl finalizing
      · rw [next]
        exact .starting rfl starting
    | cons first ws =>
      obtain ⟨i,e⟩ := first
      by_cases budget : pump.hasBudget tick
      · obtain ⟨after,onward,next,⟨loop,es',last',building⟩ | ⟨loop,es',finalizing⟩⟩ :=
          here.iterate strict dims forever at_ budget
        · rw [next]
          refine .building (fun outer => ?_) building
          rw [loop] at outer
          cases outer
        · rw [next]
          exact .finalizing loop finalizing
      · rw [here.toPass.interrupted budget]
        exact .building (fun _ => cons_ne_nil _ _) here
  | starting outer _ | finalizing outer _ | committing outer _ _ _ | installing outer _ _ _ | installed outer _ _
  | done outer _ _ =>
    rw [at_] at outer
    cases outer

lemma CompactJob.step (job : start.CompactJob rt st pump) (tick : Tick) : start.CompactContinues (rt.compactStep st pump tick) := by
  unfold compactStep
  split
  · next at_ => exact job.outer strict at_ tick
  · next at_ => exact job.inner strict dims forever at_ tick

lemma CompactJob.run (job : start.CompactJob rt st pump)
    (ticks : List Tick) : start.CompactContinues (rt.runCompact st pump ticks) := by
  induction ticks generalizing rt st pump with
  | nil => exact job
  | cons tick ticks ih =>
    have next := job.step strict dims forever tick
    rw [runCompact]
    split
    · next same =>
      rw [same] at next
      exact ih next
    · next same =>
      rw [same] at next
      exact next

end

lemma beginCompact_starting : start.Starting [] start.beginCompact where
  phase := rfl
  inputs := rfl
  heap := rfl
  builder := rfl
  built := rfl
  again := by simp
  noted := fun _ _ _ _ _ => (Option.some_ne_none _).symm

lemma beginCompact_job : start.CompactJob start start.beginCompact .start := .starting rfl beginCompact_starting

def Completes (rt : VectorRuntime) (st : CompactState) (pump : Pump) : Prop :=
  ∃ ticks after, rt.runCompact st pump ticks = .complete after .Ok

lemma Completes.step {rt next : VectorRuntime} {st after : CompactState} {pump onward : Pump} {tick : Tick}
    (stepped : rt.compactStep st pump tick = .running next after onward) (later : next.Completes after onward) :
    rt.Completes st pump := by
  obtain ⟨ticks,final,same⟩ := later
  refine ⟨tick :: ticks,final,?_⟩
  rw [runCompact,stepped]
  exact same

def Tick.early : Tick := ⟨true,0⟩

def Tick.late : Tick := ⟨false,0⟩

lemma hasBudget_late (pump : Pump) : ¬ pump.hasBudget Tick.late = true := by
  simp [Pump.hasBudget,Tick.late]

lemma Completes.outer {rt : VectorRuntime} {pump : Pump} (at_ : pump.loop = .outer)
    (later : rt.Completes st .start) : rt.Completes st pump := by
  have stepped : rt.compactStep st pump Tick.late = .running rt st .start := by
    rw [compactStep,at_]
    exact if_neg (hasBudget_late pump)
  exact .step stepped later

lemma Completes.commit (rt : VectorRuntime) (phase : st.phase = .kCommitManifest) : rt.Completes st .start := by
  refine ⟨replicate 5 Tick.early,publishSnapshot
    {rt with manifest := st.built_segments.reverse, segments := st.built_segments.reverse},?_⟩
  simp only [replicate,runCompact,compactStep,Pump.start,compactOuter,phase]
  rfl

lemma compactStep_first (rt : VectorRuntime) (st : CompactState) :
    (st.phase = .kBuild → rt.compactStep st .start Tick.early = rt.compactBuild st .start) ∧
      (st.phase = .kFinalizeSegment → rt.compactStep st .start Tick.early = rt.compactFinalize st .start) := by
  constructor
  · intro phase
    simp only [compactStep,Pump.start,compactOuter,phase]
    rfl
  · intro phase
    simp only [compactStep,Pump.start,compactOuter,phase]
    rfl

lemma Finalizing.completes (here : start.Finalizing es ws bs st)
    (building : ∀ {bs st pump}, start.Building [] none ws bs st → pump.loop = .inner → start.Completes st pump) :
    start.Completes st .start := by
  obtain ⟨after,next,leads⟩ := here.write .start
  have stepped := (compactStep_first start st).2 here.phase
  rw [next] at stepped
  refine .step stepped ?_
  rcases leads with ⟨_,phase,_⟩ | ⟨more,later⟩
  · exact .commit start phase
  · have resumed := (compactStep_first start after).1 later.phase
    rw [later.toPass.resume more] at resumed
    exact .step resumed (building later rfl)

section
variable (strict : ∀ s ∈ start.segments, s.Strict) (dims : ∀ s ∈ start.segments, s.dim = start.dim)
  (forever : start.ttl_sec = 0) (ends : start.compactParts ≠ none)
include strict dims forever ends

lemma Building.completes {es : List SegmentEntry} {last : Option VectorId} {ws : List (Nat × SegmentEntry)}
    {bs : List (List SegmentEntry)} {st : CompactState} (here : start.Building es last ws bs st) {pump : Pump}
    (at_ : pump.loop = .inner) : start.Completes st pump := by
  -- by what is left of the merge, which is less behind every element
  induction size : ws.length using Nat.strong_induction_on generalizing es last ws bs st pump with
  | _ n ih =>
    cases ws with
    | nil =>
      obtain ⟨after,next,leads⟩ := here.drained pump Tick.early
      have stepped : start.compactStep st pump Tick.early = .running start after {pump with loop := .outer} := by
        rw [compactStep,at_]
        exact next
      refine .step stepped (.outer rfl ?_)
      rcases leads with finalizing | ⟨endless,_⟩
      · exact finalizing.completes fun later _ => absurd rfl (later.unseen rfl).2.1
      · exact absurd endless ends
    | cons first ws =>
      obtain ⟨i,e⟩ := first
      rw [length_cons] at size
      -- out of time, a new call begins, and that has budget for an iteration
      have paused : start.compactStep st pump Tick.late = .running start st {pump with loop := .outer} := by
        rw [compactStep,at_]
        exact here.toPass.interrupted (hasBudget_late pump)
      have resumed := (compactStep_first start st).1 here.phase
      rw [here.toPass.resume (cons_ne_nil _ _)] at resumed
      refine .step paused (.outer rfl (.step resumed ?_))
      have budget : Pump.hasBudget ⟨.inner,0⟩ Tick.early = true := rfl
      obtain ⟨after,onward,next,leads⟩ := here.iterate strict dims forever rfl budget
      have stepped : start.compactStep st ⟨.inner,0⟩ Tick.early = .running start after onward := next
      refine .step stepped ?_
      rcases leads with ⟨loop,_,_,building⟩ | ⟨loop,_,finalizing⟩
      · exact ih ws.length (by omega) building loop rfl
      · refine .outer loop (finalizing.completes fun later inner => ?_)
        grind

lemma compact_completes : start.Completes start.beginCompact .start := by
  have here : start.Starting [] start.beginCompact := beginCompact_starting
  have stepped := (compactStep_first start start.beginCompact).1 rfl
  rcases here.refill strict .start with ⟨_,next,_⟩ | ⟨next,_,last,building⟩
  · rw [next] at stepped
    exact .step stepped (.commit start rfl)
  · rw [next] at stepped
    exact .step stepped (building.completes strict dims forever ends rfl)

end

/-- Whatever the readings of the clocks, a job that completes has replaced the segments by its parts. -/
lemma runCompact_complete (strict : ∀ s ∈ start.segments, s.Strict) (dims : ∀ s ∈ start.segments, s.dim = start.dim)
    (forever : start.ttl_sec = 0) {ticks : List Tick} {after : VectorRuntime} {result : Status}
    (completed : start.runCompact start.beginCompact .start ticks = .complete after result) :
    result = .Ok ∧ ∃ ps, start.compactParts = some ps ∧ after = start.compacted ps := by
  have run := beginCompact_job.run strict dims forever ticks
  rw [completed] at run
  exact run

end VectorRuntime
end PomaiCache
