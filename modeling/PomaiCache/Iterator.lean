import PomaiCache.FirstSeen
import PomaiCache.FreezeReads

/-!
The iterator over a snapshot. It walks the memtables and then the segments by position, and
remembers the ids it has passed.
-/
namespace PomaiCache
open Layers FirstSeen List

/-- An entry as the iteration over a memtable or a segment hands it out. -/
structure Reading where
  id : VectorId
  vec : Vec
  is_deleted : Bool
  md : Option Metadata

def MemTable.reading (m : MemTable) (slot : VectorId × Option Payload) : Reading :=
  match slot.2 with
  | none => ⟨slot.1,[],true,none⟩
  | some p =>
    if m.quantize_inmem then ⟨slot.1,p.decode m.platform m.dim.toNat,false,m.metadata slot.1⟩
    else ⟨slot.1,p.floats,false,m.metadata slot.1⟩

def MemTable.iterateWithMetadata (m : MemTable) : List Reading := m.map.entries.map m.reading

@[simp] lemma MemTable.reading_id (m : MemTable) (slot : VectorId × Option Payload) : (m.reading slot).id = slot.1 := by
  unfold reading
  split
  · rfl
  · split <;> rfl

def Segment.readings (s : Segment) : List Reading := s.entries.map fun e => ⟨e.id,e.vec,e.is_deleted,some e.md⟩

/-- The loop of `TryReadFromFrozenMem` and `TryReadFromSegment`: the entry at an index
of the first source, or else the first entry of a later one. -/
def readFrom {α : Type} (readings : α → List Reading) : List α → Nat → Nat → Option (Reading × Nat × Nat)
  | [],_,_ => none
  | s :: rest,source_idx,entry_idx =>
    match (readings s)[entry_idx]? with
    | some r => some (r,source_idx,entry_idx)
    | none => readFrom readings rest (source_idx + 1) 0

def remaining {α : Type} (readings : α → List Reading) : List α → Nat → List Reading
  | [],_ => []
  | s :: rest,entry_idx => (readings s).drop entry_idx ++ rest.flatMap readings

section
variable {α : Type} {readings : α → List Reading}

lemma remaining_zero (sources : List α) : remaining readings sources 0 = sources.flatMap readings := by
  cases sources <;> rfl

lemma readFrom_none {sources : List α} {source_idx entry_idx : Nat}
    (ended : readFrom readings sources source_idx entry_idx = none) : remaining readings sources entry_idx = [] := by
  induction sources generalizing source_idx entry_idx with
  | nil => rfl
  | cons s rest ih =>
    grind [readFrom,remaining,drop_eq_nil_of_le,remaining_zero]

lemma readFrom_some (read : readFrom readings sources source_idx entry_idx = some (r,source,entry)) : ∃ n, source = source_idx + n ∧
      remaining readings sources entry_idx = r :: remaining readings (sources.drop n) (entry + 1) := by
  induction sources generalizing source_idx entry_idx with
  | nil => cases read
  | cons s rest ih =>
    rw [readFrom] at read
    split at read
    · next here =>
      cases read
      grind [remaining,drop_eq_getElem_cons]
    · next past =>
      obtain ⟨n,moved,left⟩ := ih read
      refine ⟨n + 1,by omega,?_⟩
      rw [remaining,drop_eq_nil_of_le (List.getElem?_eq_none_iff.mp past),nil_append,← remaining_zero,left]
      rfl

end

structure IteratorSnapshot extends VectorSnapshot where
  live_memtable : Option MemTable

def IteratorSnapshot.memtables (snap : IteratorSnapshot) : List MemTable :=
  snap.live_memtable.toList ++ snap.frozen_memtables

inductive Source
  | FROZEN_MEM
  | SEGMENT
  | DONE
  deriving DecidableEq, Repr

structure VectorIterator where
  source : Source
  source_idx : Nat
  entry_idx : Nat
  current_id : VectorId
  current_vec : Vec
  seen : List VectorId
  ttl_sec : UInt32
  now_sec : UInt64
  deriving DecidableEq, Repr

namespace VectorIterator

variable (it : VectorIterator)

def valid : Bool := it.source != .DONE

def isExpired (md : Metadata) : Bool :=
  if it.ttl_sec = 0 then false
  else if md.timestamp = 0 then false
  else if it.now_sec < md.timestamp then false
  else decide (it.now_sec - md.timestamp ≥ it.ttl_sec.toUInt64)

/-- Take an entry as the current one; a deleted or expired entry has no vector. -/
def read (found : Reading × Nat × Nat) : VectorIterator :=
  {it with
    source_idx := found.2.1
    entry_idx := found.2.2
    current_id := found.1.id
    current_vec := if found.1.is_deleted || found.1.md.any it.isExpired then [] else found.1.vec}

def passed : VectorIterator := {it with entry_idx := it.entry_idx + 1}

section
variable (snap : IteratorSnapshot)

variable (it : VectorIterator)

def tryReadFromFrozenMem : Option VectorIterator :=
  (readFrom MemTable.iterateWithMetadata (snap.memtables.drop it.source_idx) it.source_idx it.entry_idx).map it.read

def tryReadFromSegment : Option VectorIterator :=
  (readFrom Segment.readings (snap.segments.drop it.source_idx) it.source_idx it.entry_idx).map it.read

def left : List Reading :=
  match it.source with
  | .FROZEN_MEM => remaining MemTable.iterateWithMetadata (snap.memtables.drop it.source_idx) it.entry_idx ++
      snap.segments.flatMap Segment.readings
  | .SEGMENT => remaining Segment.readings (snap.segments.drop it.source_idx) it.entry_idx
  | .DONE => []

def Took (it here : VectorIterator) : Prop :=
  ∃ found : Reading × Nat × Nat, here = it.read found ∧ it.left snap = found.1 :: here.passed.left snap

variable {snap} {it here : VectorIterator}

lemma tryReadFromFrozenMem_some (at_ : it.source = .FROZEN_MEM) (found : it.tryReadFromFrozenMem snap = some here) :
    Took snap it here := by
  obtain ⟨⟨r,source,entry⟩,read,rfl⟩ := Option.map_eq_some_iff.mp found
  obtain ⟨n,rfl,rest⟩ := readFrom_some read
  refine ⟨_,rfl,?_⟩
  have after : (it.read (r,it.source_idx + n,entry)).passed.source = .FROZEN_MEM := at_
  rw [drop_drop] at rest
  simp only [left,at_,after,rest]
  rfl

lemma tryReadFromSegment_some (at_ : it.source = .SEGMENT) (found : it.tryReadFromSegment snap = some here) :
    Took snap it here := by
  obtain ⟨⟨r,source,entry⟩,read,rfl⟩ := Option.map_eq_some_iff.mp found
  obtain ⟨n,rfl,rest⟩ := readFrom_some read
  refine ⟨_,rfl,?_⟩
  have after : (it.read (r,it.source_idx + n,entry)).passed.source = .SEGMENT := at_
  rw [drop_drop] at rest
  simp only [left,at_,after,rest]
  rfl

variable (snap) (it)

def isLive : Bool := decide (it.current_id ∉ it.seen) && !it.current_vec.isEmpty

def skip : VectorIterator :=
  passed {it with seen := if it.current_id ∈ it.seen then it.seen else it.current_id :: it.seen}

def enterSegments : VectorIterator := {it with source := .SEGMENT, source_idx := 0, entry_idx := 0}

def rank : Source → Nat
  | .FROZEN_MEM => 2
  | .SEGMENT => 1
  | .DONE => 0

lemma tryReadFromFrozenMem_none {it : VectorIterator} (at_ : it.source = .FROZEN_MEM)
    (ended : it.tryReadFromFrozenMem snap = none) : it.left snap = it.enterSegments.left snap := by
  have nothing := readFrom_none (Option.map_eq_none_iff.mp ended)
  simp [left,at_,nothing,enterSegments,remaining_zero]

lemma tryReadFromSegment_none {it : VectorIterator} (at_ : it.source = .SEGMENT)
    (ended : it.tryReadFromSegment snap = none) : it.left snap = [] := by
  simp only [left,at_]
  exact readFrom_none (Option.map_eq_none_iff.mp ended)

lemma Took.shrinks {it here : VectorIterator} (took : Took snap it here) :
    (here.skip.left snap).length + rank here.skip.source < (it.left snap).length + rank it.source := by
  obtain ⟨found,rfl,rest⟩ := took
  have same : (it.read found).skip.left snap = (it.read found).passed.left snap := rfl
  have source : (it.read found).skip.source = it.source := rfl
  rw [same,source,rest,length_cons]
  omega

def advanceToNextLive (it : VectorIterator) : VectorIterator :=
  match _at : it.source with
  | .FROZEN_MEM =>
    match _found : it.tryReadFromFrozenMem snap with
    | none => advanceToNextLive it.enterSegments
    | some here => if here.isLive then here else advanceToNextLive here.skip
  | .SEGMENT =>
    match _found : it.tryReadFromSegment snap with
    | none => {it with source := .DONE}
    | some here => if here.isLive then here else advanceToNextLive here.skip
  | .DONE => it
termination_by (it.left snap).length + rank it.source
decreasing_by
  · rw [tryReadFromFrozenMem_none snap _at _found,_at]
    exact Nat.lt_succ_self _
  · exact (tryReadFromFrozenMem_some _at _found).shrinks
  · exact (tryReadFromSegment_some _at _found).shrinks

variable {snap} {it} in
lemma advanceToNextLive_frozen (at_ : it.source = .FROZEN_MEM) : it.advanceToNextLive snap = match it.tryReadFromFrozenMem snap with
      | none => it.enterSegments.advanceToNextLive snap
      | some here => if here.isLive then here else here.skip.advanceToNextLive snap := by
  rw [advanceToNextLive]
  split
  · split <;> simp_all
  · simp_all
  · simp_all

variable {snap} {it} in
lemma advanceToNextLive_segment (at_ : it.source = .SEGMENT) : it.advanceToNextLive snap = match it.tryReadFromSegment snap with
      | none => {it with source := .DONE}
      | some here => if here.isLive then here else here.skip.advanceToNextLive snap := by
  rw [advanceToNextLive]
  split
  · simp_all
  · split <;> simp_all
  · simp_all

variable {snap} {it} in
lemma advanceToNextLive_done (at_ : it.source = .DONE) : it.advanceToNextLive snap = it := by
  rw [advanceToNextLive]
  split
  · simp_all
  · simp_all
  · rfl

def create (ttl_sec : UInt32) (now_sec : UInt64) : VectorIterator :=
  advanceToNextLive snap ⟨.FROZEN_MEM,0,0,0,[],[],ttl_sec,now_sec⟩

def next : VectorIterator :=
  if it.valid then advanceToNextLive snap (passed {it with seen := it.current_id :: it.seen}) else it

/-- Read the current entry and move on, up to a number of times: the pairs that were
read, and where the iterator then stands. -/
def scan : Nat → VectorIterator → List (VectorId × Vec) × VectorIterator
  | 0,it => ([],it)
  | n + 1,it =>
    if it.valid then
      let later := scan n (it.next snap)
      ((it.current_id,it.current_vec) :: later.1,later.2)
    else ([],it)

end

def shown (r : Reading) : Vec := if r.is_deleted || r.md.any it.isExpired then [] else r.vec

def visible (seen : List VectorId) (rs : List Reading) : List (VectorId × Vec) :=
  ((firsts Reading.id seen rs).filter fun r => !(it.shown r).isEmpty).map fun r => (r.id,it.shown r)

structure Advanced (snap : IteratorSnapshot) (it last : VectorIterator) : Prop where
  clock : last.ttl_sec = it.ttl_sec ∧ last.now_sec = it.now_sec
  ended : last.valid = false → it.visible it.seen (it.left snap) = []
  stands : last.valid = true → it.visible it.seen (it.left snap) =
    (last.current_id,last.current_vec) :: it.visible (last.current_id :: last.seen) (last.passed.left snap)

section
variable {snap : IteratorSnapshot} {it here : VectorIterator}

lemma Took.advanced (took : Took snap it here) (at_ : it.source ≠ .DONE)
    (later : ¬ here.isLive = true → Advanced snap here.skip (here.skip.advanceToNextLive snap)) :
    Advanced snap it (if here.isLive then here else here.skip.advanceToNextLive snap) := by
  obtain ⟨⟨r,source,entry⟩,rfl,rest⟩ := took
  have fields : (it.read (r,source,entry)).current_id = r.id ∧ (it.read (r,source,entry)).seen = it.seen ∧
    (it.read (r,source,entry)).current_vec = it.shown r := ⟨rfl,rfl,rfl⟩
  obtain ⟨id,seen,vec⟩ := fields
  by_cases live : (it.read (r,source,entry)).isLive
  · rw [if_pos live]
    rw [isLive,id,seen,vec,Bool.and_eq_true,decide_eq_true_eq] at live
    have stays : (it.read (r,source,entry)).valid = true := by
      show (it.source != .DONE) = true
      simpa using at_
    refine ⟨⟨rfl,rfl⟩,fun ended => ?_,fun _ => ?_⟩
    · rw [stays] at ended
      cases ended
    · rw [rest,visible,firsts_take _ live.1,filter_cons_of_pos (p := fun r => !(it.shown r).isEmpty) live.2,id,seen,vec]
      rfl
  · rw [if_neg live]
    have later := later live
    have passes : it.visible it.seen (it.left snap) =
        it.visible (it.read (r,source,entry)).skip.seen ((it.read (r,source,entry)).passed.left snap) := by
      have after : (it.read (r,source,entry)).skip.seen = if r.id ∈ it.seen then it.seen else r.id :: it.seen := rfl
      rw [rest,after]
      by_cases old : r.id ∈ it.seen
      · rw [if_pos old,visible,firsts_skip _ old]
        rfl
      · have dead : (it.shown r).isEmpty = true := by
          rw [isLive,id,seen,vec] at live
          simpa [old] using live
        simp [*,visible,firsts_take _ old]
    refine ⟨later.clock,fun ended => passes.trans (later.ended ended),fun stands => passes.trans (later.stands stands)⟩

variable (snap : IteratorSnapshot)

variable (it : VectorIterator)

lemma advanceToNextLive_advanced : Advanced snap it (it.advanceToNextLive snap) := by
  induction it using advanceToNextLive.induct snap with
  | case1 it at_ ended ih =>
    have same := tryReadFromFrozenMem_none snap at_ ended
    rw [advanceToNextLive_frozen at_,ended]
    refine ⟨ih.clock,fun past => ?_,fun stands => ?_⟩
    · rw [same]
      exact ih.ended past
    · rw [same]
      exact ih.stands stands
  | case2 it at_ here found live =>
    rw [advanceToNextLive_frozen at_,found]
    exact (tryReadFromFrozenMem_some at_ found).advanced (by rw [at_]; nofun) fun dead => absurd live dead
  | case3 it at_ here found dead ih =>
    rw [advanceToNextLive_frozen at_,found]
    exact (tryReadFromFrozenMem_some at_ found).advanced (by rw [at_]; nofun) fun _ => ih
  | case4 it at_ ended =>
    rw [advanceToNextLive_segment at_,ended]
    refine ⟨⟨rfl,rfl⟩,fun _ => ?_,nofun⟩
    rw [tryReadFromSegment_none snap at_ ended]
    rfl
  | case5 it at_ here found live =>
    rw [advanceToNextLive_segment at_,found]
    exact (tryReadFromSegment_some at_ found).advanced (by rw [at_]; nofun) fun dead => absurd live dead
  | case6 it at_ here found dead ih =>
    rw [advanceToNextLive_segment at_,found]
    exact (tryReadFromSegment_some at_ found).advanced (by rw [at_]; nofun) fun _ => ih
  | case7 it at_ =>
    rw [advanceToNextLive_done at_]
    refine ⟨⟨rfl,rfl⟩,fun _ => ?_,fun stands => ?_⟩
    · simp only [left,at_]
      rfl
    · rw [valid,at_] at stands
      cases stands

def pending (snap : IteratorSnapshot) (it : VectorIterator) : List (VectorId × Vec) :=
  if it.valid then (it.current_id,it.current_vec) :: it.visible (it.current_id :: it.seen) (it.passed.left snap) else []

lemma visible_congr {it last : VectorIterator} (clock : last.ttl_sec = it.ttl_sec ∧ last.now_sec = it.now_sec) :
    last.visible = it.visible := by
  have same : last.shown = it.shown := by
    funext r
    have expired : last.isExpired = it.isExpired := by
      funext md
      rw [isExpired,isExpired,clock.1,clock.2]
    rw [shown,shown,expired]
  funext seen rs
  rw [visible,visible,same]

lemma advanceToNextLive_pending : (it.advanceToNextLive snap).pending snap = it.visible it.seen (it.left snap) := by
  have advanced := advanceToNextLive_advanced snap it
  rw [pending,visible_congr advanced.clock]
  by_cases stands : (it.advanceToNextLive snap).valid = true
  · rw [if_pos stands,advanced.stands stands]
  · rw [if_neg stands,advanced.ended (by simpa using stands)]

lemma next_pending : (it.next snap).pending snap = (it.pending snap).tail := by
  rw [next,pending.eq_def snap it]
  by_cases stands : it.valid = true
  · rw [if_pos stands,if_pos stands,advanceToNextLive_pending]
    rfl
  · rw [if_neg stands,if_neg stands,pending,if_neg stands]
    rfl

lemma valid_iff_pending : it.valid = true ↔ it.pending snap ≠ [] := by
  rw [pending]
  by_cases stands : it.valid = true <;> simp [stands]

end
end VectorIterator

namespace IteratorSnapshot

def readings (snap : IteratorSnapshot) : List Reading :=
  snap.memtables.flatMap MemTable.iterateWithMetadata ++ snap.segments.flatMap Segment.readings

end IteratorSnapshot

lemma VectorIterator.create_pending (snap : IteratorSnapshot) (ttl_sec : UInt32) (now_sec : UInt64) :
    (create snap ttl_sec now_sec).pending snap = visible ⟨.FROZEN_MEM,0,0,0,[],[],ttl_sec,now_sec⟩ [] snap.readings := by
  rw [create,advanceToNextLive_pending]
  simp only [left,drop_zero,remaining_zero]
  rfl

end PomaiCache
