import PomaiCache.IteratorReads
import PomaiCache.NewestWrite

/-!
Iterators while the runtime is written to. An iterator keeps the frozen memtables and the
segments of its snapshot, which do not change, but it shares the active memtable with the
writers and finds its place there by position.
-/
namespace PomaiCache
open Layers List Option

namespace VectorRuntime

variable (rt : VectorRuntime)

/-- The tables in the order in which they became active, the active one last. -/
def tableAt (k : Nat) : Option MemTable := (rt.frozen_mem ++ [rt.mem])[k]?

def iteratorSnapshot : IteratorSnapshot :=
  ⟨rt.current_snapshot,if rt.mem.getCount > 0 then some rt.mem else none⟩

lemma Written.tableAt {rt next : VectorRuntime} (wrote : Written rt next) :
    (∀ k, k < rt.frozen_mem.length → next.tableAt k = rt.tableAt k) ∧ rt.frozen_mem.length ≤ next.frozen_mem.length := by
  have grown : ∃ more, next.frozen_mem = rt.frozen_mem ++ more := by
    cases wrote with
    | kept => exact ⟨[],(append_nil _).symm⟩
    | logged wal => exact ⟨[],(append_nil _).symm⟩
    | stored wal mem shape => exact ⟨[],(append_nil _).symm⟩
    | rotated wal mem shape =>
      unfold rotateWhenFull
      split
      · unfold rotateMemTable
        split
        · exact ⟨[],(append_nil _).symm⟩
        · exact ⟨[mem],rfl⟩
      · exact ⟨[],(append_nil _).symm⟩
  grind [VectorRuntime.tableAt,append_assoc]

lemma tableAt_isSome {rt : VectorRuntime} {k : Nat} (inside : k ≤ rt.frozen_mem.length) : ∃ m, rt.tableAt k = some m := by
  apply isSome_iff_exists.mp
  grind [tableAt,length_append,length_singleton]

lemma get_iteratorSnapshot (now_sec : UInt64) (id : VectorId) : (rt.get now_sec id).toOption.map Prod.fst =
      unexpired rt.ttl_sec now_sec (seen rt.iteratorSnapshot.lookupOrder id) := by
  have same : answer (readLayers rt.mem rt.current_snapshot) id = answer rt.iteratorSnapshot.lookupOrder id := by
    rw [IteratorSnapshot.lookupOrder,iteratorSnapshot]
    by_cases empty : rt.mem.getCount = 0
    · rw [if_neg (by omega),readLayers,answer_cons,layer_of_getCount_zero empty]
      rfl
    · rw [if_pos (by omega)]
      rfl
  rw [get,lookup,lookupById_eq,seen,same]
  cases answer rt.iteratorSnapshot.lookupOrder id with
  | none => rfl
  | some value =>
    cases value with
    | none => rfl
    | some found =>
      show ((if vectorMetaExpired rt.ttl_sec now_sec found.2 then Except.error (Status.notFound "vector expired")
        else Except.ok (found.1,found.2)).toOption).map Prod.fst = _
      cases late : vectorMetaExpired rt.ttl_sec now_sec found.2 <;> simp [unexpired,Option.filter,late,Except.toOption]

end VectorRuntime

/-- An iterator that a client holds: the snapshot it was given, where the live memtable
is a pointer to a table of the runtime, and its place. -/
structure SnapshotIterator where
  base : VectorSnapshot
  live : Option Nat
  it : VectorIterator

namespace SnapshotIterator

variable (rt : VectorRuntime)

def snapshot (held : SnapshotIterator) : IteratorSnapshot := ⟨held.base,held.live.bind rt.tableAt⟩

def newIterator (now_sec : UInt64) : SnapshotIterator where
  base := rt.current_snapshot
  live := if rt.mem.getCount > 0 then some rt.frozen_mem.length else none
  it := .create rt.iteratorSnapshot rt.ttl_sec now_sec

def next (rt : VectorRuntime) (held : SnapshotIterator) : SnapshotIterator :=
  {held with it := held.it.next (held.snapshot rt)}

def current (held : SnapshotIterator) : List (VectorId × Vec) :=
  if held.it.valid then [(held.it.current_id,held.it.current_vec)] else []

inductive Call
  | next
  | write (call : VectorRuntime.WriteCall)

def run (rt : VectorRuntime) (held : SnapshotIterator) : List Call → List (VectorId × Vec)
  | [] => []
  | .next :: calls => (held.next rt).current ++ run rt (held.next rt) calls
  | .write call :: calls => run (call.run rt).1 held calls

def yields (now_sec : UInt64) (calls : List Call) : List (VectorId × Vec) :=
  (newIterator rt now_sec).current ++ run rt (newIterator rt now_sec) calls

def Call.isNext : Call → Bool
  | .next => true
  | .write _ => false

def InActive (held : SnapshotIterator) : Prop :=
  held.live = some rt.frozen_mem.length ∧ held.it.source = .FROZEN_MEM ∧ held.it.source_idx = 0

/-- No write comes while the iterator is in the active memtable. -/
def Undisturbed (rt : VectorRuntime) (held : SnapshotIterator) : List Call → Prop
  | [] => True
  | .next :: calls => Undisturbed rt (held.next rt) calls
  | .write call :: calls => ¬ held.InActive rt ∧ Undisturbed (call.run rt).1 held calls

/-- The pointer of an iterator is to a table the runtime still has. -/
def Pointed (held : SnapshotIterator) : Prop := ∀ k ∈ held.live, k ≤ rt.frozen_mem.length

section
variable {rt : VectorRuntime} {held : SnapshotIterator}

lemma newIterator_snapshot (rt : VectorRuntime) (now_sec : UInt64) :
    (newIterator rt now_sec).snapshot rt = rt.iteratorSnapshot := by
  grind [snapshot,newIterator,VectorRuntime.iteratorSnapshot,VectorRuntime.tableAt]

lemma newIterator_pointed (rt : VectorRuntime) (now_sec : UInt64) : (newIterator rt now_sec).Pointed rt := by
  intro k member
  grind [newIterator]

lemma write_left (pointed : held.Pointed rt) (out : ¬ held.InActive rt) {next : VectorRuntime}
    (wrote : VectorRuntime.Written rt next) :
    held.it.passed.left (held.snapshot next) = held.it.passed.left (held.snapshot rt) := by
  obtain ⟨same,longer⟩ := wrote.tableAt
  unfold VectorIterator.left
  cases at_ : held.it.passed.source with
  | DONE => rfl
  | SEGMENT => rfl
  | FROZEN_MEM =>
    have tables : (held.snapshot next).memtables.drop held.it.passed.source_idx =
        (held.snapshot rt).memtables.drop held.it.passed.source_idx := by
      rw [IteratorSnapshot.memtables,IteratorSnapshot.memtables,snapshot,snapshot]
      cases shared : held.live with
      | none => rfl
      | some k =>
        have inside := pointed k shared
        by_cases rotated : k < rt.frozen_mem.length
        · rw [bind_some,bind_some,same k rotated]
        · -- the active table: the iterator is past it
          have active : k = rt.frozen_mem.length := by omega
          obtain ⟨i,past⟩ : ∃ i, held.it.passed.source_idx = i + 1 :=
            Nat.exists_eq_succ_of_ne_zero fun first => out ⟨by rw [shared,active],at_,first⟩
          grind [VectorRuntime.tableAt_isSome]
    show remaining _ _ _ ++ _ = remaining _ _ _ ++ _
    rw [tables]
    rfl

lemma write_pending (pointed : held.Pointed rt) (out : ¬ held.InActive rt) (call : VectorRuntime.WriteCall) :
    held.it.pending (held.snapshot (call.run rt).1) = held.it.pending (held.snapshot rt) := by
  rw [VectorIterator.pending,VectorIterator.pending,write_left pointed out (call.written rt)]

lemma current_pending (held : SnapshotIterator) (snap : IteratorSnapshot) (n : Nat) :
    held.current ++ (held.it.pending snap).tail.take n = (held.it.pending snap).take (n + 1) := by
  rw [current,VectorIterator.pending]
  split
  · rfl
  · simp

lemma run_pending {calls : List Call} (pointed : held.Pointed rt) (undisturbed : held.Undisturbed rt calls) :
    run rt held calls = (held.it.pending (held.snapshot rt)).tail.take (calls.countP Call.isNext) := by
  induction calls generalizing rt held with
  | nil => rfl
  | cons call calls ih =>
    cases call with
    | next =>
      have rest := @ih rt (held.next rt) pointed undisturbed
      have moved : (held.next rt).it.pending ((held.next rt).snapshot rt) = (held.it.pending (held.snapshot rt)).tail :=
        held.it.next_pending (held.snapshot rt)
      rw [run,rest,← moved,countP_cons_of_pos rfl,current_pending]
    | write call =>
      obtain ⟨out,later⟩ := undisturbed
      have pointed' : held.Pointed (call.run rt).1 := fun k member =>
        (pointed k member).trans (call.written rt).tableAt.2
      rw [run,ih pointed' later,write_pending pointed out call,countP_cons_of_neg (by simp [Call.isNext])]

end

def LivePairs (now_sec : UInt64) (pairs : List (VectorId × Vec)) : Prop :=
  (pairs.map Prod.fst).Nodup ∧ ∀ id vec, (id,vec) ∈ pairs ↔ ∃ md, rt.get now_sec id = .ok (vec,md)

/-- For each id the order of the scan shows the vector that the order of the lookups
shows, if that has not expired, and it has components. -/
def ConsistentAt (now_sec : UInt64) : Prop :=
  ∀ id, (unexpired rt.ttl_sec now_sec (seen rt.iteratorSnapshot.scanOrder id)).filter (fun vec => !vec.isEmpty) =
    unexpired rt.ttl_sec now_sec (seen rt.iteratorSnapshot.lookupOrder id)

/-- An iterator yields the pairs that were live when it was created, in an order that
was fixed then, whatever is written while it is not in the active memtable. -/
theorem iterator_stable (rt : VectorRuntime) (now_sec : UInt64) (consistent : ConsistentAt rt now_sec) :
    ∃ pairs, LivePairs rt now_sec pairs ∧ ∀ calls, (newIterator rt now_sec).Undisturbed rt calls →
      yields rt now_sec calls = pairs.take (1 + calls.countP Call.isNext) := by
  obtain ⟨distinct,shown⟩ := rt.iteratorSnapshot.create_pairs rt.ttl_sec now_sec
  refine ⟨_,⟨distinct,fun id vec => ?_⟩,fun calls undisturbed => ?_⟩
  · rw [shown,consistent id,← rt.get_iteratorSnapshot]
    cases rt.get now_sec id with
    | error st => simp [Except.toOption]
    | ok found => simp [Except.toOption,Prod.ext_iff]
  · rw [yields,run_pending (newIterator_pointed rt now_sec) undisturbed,current_pending,newIterator_snapshot,Nat.add_comm]
    rfl

lemma consistentAt_of_single {rt : VectorRuntime} (forever : rt.ttl_sec = 0) (now_sec : UInt64)
    (plain : ∀ m ∈ rt.iteratorSnapshot.live_memtable.toList ++ rt.current_snapshot.frozen_memtables, m.quantize_inmem = false)
    (single : rt.current_snapshot.frozen_memtables.length ≤ 1) (strict : ∀ s ∈ rt.current_snapshot.segments, s.Strict)
    (sized : ∀ id found, seen rt.iteratorSnapshot.lookupOrder id = some found → found.1 ≠ []) :
    ConsistentAt rt now_sec := by
  intro id
  rw [forever,unexpired_zero,unexpired_zero]
  exact rt.iteratorSnapshot.consistent_of_single plain single strict sized id

instance : ∀ (rt : VectorRuntime) (held : SnapshotIterator) (calls : List Call), Decidable (held.Undisturbed rt calls)
  | _,_,[] => .isTrue trivial
  | rt,held,.next :: calls => instDecidableUndisturbed rt (held.next rt) calls
  | rt,held,.write call :: calls =>
    haveI := instDecidableUndisturbed (call.run rt).1 held calls
    inferInstanceAs (Decidable (¬ (held.live = some rt.frozen_mem.length ∧ held.it.source = .FROZEN_MEM ∧
      held.it.source_idx = 0) ∧ held.Undisturbed (call.run rt).1 calls))

lemma eq_of_take {pairs yielded : List (VectorId × Vec)} {n : Nat} (taken : yielded = pairs.take n)
    (fewer : yielded.length < n) : yielded = pairs := by
  rw [taken,length_take] at fewer
  rw [taken,take_of_length_le (by omega)]

def oneActive : Option VectorRuntime :=
  (VectorRuntime.openLocked .plain 1 false 0 ⟨[],1000,0,none,0,0,0⟩ [VectorRuntime.storedSix]).toOption.bind
    (VectorRuntime.runAll · [.put [] 1 [7] {}])

def writtenMeanwhile : List Call := [.next,.write (.delete [] 3),.write (.put [] 1 [9] {}),.next]

theorem iterator_stable_in_segment : ∃ rt ∈ oneActive, LivePairs rt 0 [(1,[7]),(3,[6])] ∧
    yields rt 0 writtenMeanwhile = [(1,[7]),(3,[6])] := by
  have facts : oneActive.map (fun rt => (decide (rt.ttl_sec = 0 ∧ rt.current_snapshot.frozen_memtables.length = 0 ∧
      (∀ s ∈ rt.current_snapshot.segments, s.entries = VectorRuntime.storedSix.entries) ∧
      rt.mem.quantize_inmem = false ∧ rt.mem.dim.toNat = 1 ∧ (newIterator rt 0).Undisturbed rt writtenMeanwhile),
      yields rt 0 writtenMeanwhile)) = some (true,[(1,[7]),(3,[6])]) := by decide +kernel
  obtain ⟨rt,started,same⟩ := map_eq_some_iff.mp facts
  simp only [Prod.mk.injEq,decide_eq_true_eq] at same
  obtain ⟨⟨forever,none_,stored,raw,dim,undisturbed⟩,yielded⟩ := same
  have tables : ∀ m ∈ rt.iteratorSnapshot.live_memtable.toList ++ rt.current_snapshot.frozen_memtables, m = rt.mem := by
    intro m member
    rw [VectorRuntime.iteratorSnapshot,eq_nil_of_length_eq_zero none_,append_nil] at member
    exact (by simpa using member : 0 < rt.mem.getCount ∧ rt.mem = m).2.symm
  have strict : ∀ s ∈ rt.current_snapshot.segments, s.Strict := fun s member => by
    rw [Segment.Strict,stored s member]
    decide
  have sized : ∀ id found, seen rt.iteratorSnapshot.lookupOrder id = some found → found.1.length = 1 := by
    intro id found shown
    obtain ⟨layer,listed,held⟩ := exists_of_findSome?_eq_some (join_eq_some_iff.mp shown)
    rcases mem_append.mp listed with active | segment
    · obtain ⟨m,member,rfl⟩ := mem_map.mp active
      rw [tables m (by simpa [VectorRuntime.iteratorSnapshot] using member)] at held
      rw [MemTable.layer_sized raw held,dim]
    · obtain ⟨s,member,rfl⟩ := mem_map.mp segment
      rw [Segment.layer_firstLayer (strict s member),Segment.firstLayer,stored s member] at held
      obtain ⟨e,first,same⟩ := map_eq_some_iff.mp held
      have only : e = ⟨3,[6],false,{}⟩ := mem_singleton.mp (mem_of_find?_eq_some first)
      subst only
      cases same
      rfl
  have consistent : ConsistentAt rt 0 := consistentAt_of_single forever 0 (fun m member => tables m member ▸ raw) (by omega) strict
      fun id found shown empty => by
    have one := sized id found shown
    rw [empty] at one
    cases one
  obtain ⟨pairs,live,all⟩ := iterator_stable rt 0 consistent
  have taken := all writtenMeanwhile undisturbed
  rw [yielded] at taken
  rw [← eq_of_take taken (by decide)] at live
  exact ⟨rt,started,live,yielded⟩

def twoActive : Option VectorRuntime :=
  (VectorRuntime.openLocked .plain 1 false 0 ⟨[],1000,0,none,0,0,0⟩ []).toOption.bind
    (VectorRuntime.runAll · [.put [] 1 [7] {},.put [] 2 [8] {}])

def deletedMeanwhile : List Call := [.write (.delete [] 2),.next,.next]

theorem iterator_sees_delete : ∃ rt ∈ twoActive, (∃ md, rt.get 0 2 = .ok ([8],md)) ∧ yields rt 0 deletedMeanwhile = [(1,[7])] ∧
    ¬ ∃ pairs, LivePairs rt 0 pairs ∧ yields rt 0 deletedMeanwhile = pairs.take (1 + deletedMeanwhile.countP Call.isNext) := by
  have facts : twoActive.map (fun rt => ((rt.get 0 2).toOption.map Prod.fst,yields rt 0 deletedMeanwhile)) =
      some (some [8],[(1,[7])]) := by decide +kernel
  obtain ⟨rt,started,same⟩ := map_eq_some_iff.mp facts
  obtain ⟨read,yielded⟩ := Prod.mk.inj same
  have found : ∃ md, rt.get 0 2 = .ok ([8],md) := by
    cases got : rt.get 0 2 with
    | error st =>
      rw [got] at read
      cases read
    | ok found =>
      rw [got] at read
      exact ⟨found.2,by rw [← Option.some.inj read]⟩
  refine ⟨rt,started,found,yielded,?_⟩
  rintro ⟨pairs,live,taken⟩
  rw [yielded] at taken
  have member := (live.2 2 [8]).mpr found
  rw [← eq_of_take taken (by decide)] at member
  simp at member

end SnapshotIterator
end PomaiCache
