import PomaiCache.FreezeReads

/-!
The newest write wins. A runtime is a map from ids to vectors that is spread over
the active table, the frozen ones behind it and the segments; writes go to the
active table, and rotation moves it behind the frozen ones without changing what
is read.
-/
namespace PomaiCache
open Layers Option

namespace MemTable
variable {m result : MemTable} {id : VectorId} {value : Option Payload} {md : Option Metadata}

lemma Writes.overlays_look {γ : Type} (look : Found → γ) (writes : Writes m result id value md) : Overlays look m.layer result.layer
      (if id = kEmpty then [] else [(id,value.map fun p => look (p.floats,md.getD {}))]) := by
  intro other
  rw [MemTable.layer,MemTable.layer,writes.version]
  by_cases real : id = kEmpty
  · rw [if_pos real,lastWrite_nil,if_neg fun both => both.2 real]
  · rw [if_neg real,lastWrite_singleton]
    by_cases same : id = other
    · rw [if_pos same,if_pos ⟨same.symm,real⟩]
      cases value <;> rfl
    · rw [if_neg same,if_neg fun both => same both.1.symm]

lemma Writes.overlays (writes : Writes m result id value md) (real : id ≠ kEmpty) :
    Overlays Prod.fst m.layer result.layer [(id,value.map Payload.floats)] := by
  have seen := writes.overlays_look Prod.fst
  rw [if_neg real] at seen
  exact seen

lemma putBatch_overlays (ok : (m.putBatch ids vectors).2.ok) (real : ∀ id ∈ ids, id ≠ kEmpty) :
    Overlays Prod.fst m.layer (m.putBatch ids vectors).1.layer ((ids.zip vectors).map fun item => (item.1,some item.2)) := by
  have stored : ∀ (items : List (VectorId × Vec)) (m : MemTable),(∀ item ∈ items, item.1 ≠ kEmpty ∧ item.2.length = m.dim.toNat) →
      Overlays Prod.fst m.layer (items.foldl (fun m item => m.storeRaw item.1 item.2) m).layer
        (items.map fun item => (item.1,some item.2)) := by
    intro items
    induction items with
    | nil => exact fun m _ => .refl _ _
    | cons item items ih =>
      intro m fits
      obtain ⟨here,sized⟩ := fits item (.head _)
      have writes := m.storeRaw_writes item.1 sized
      refine (writes.overlays here).trans (ih _ fun other member => ?_)
      rw [writes.dim]
      exact fits other (.tail _ member)
  obtain ⟨⟨_,sized⟩,done⟩ | ⟨_,st,refused,done⟩ := putBatch_cases m ids vectors
  · rw [done]
    exact stored _ m fun item member => ⟨real _ (List.of_mem_zip member).1,sized _ (List.of_mem_zip member).2⟩
  · rw [done,refused] at ok
    cases ok

end MemTable

namespace VectorRuntime

def view (rt : VectorRuntime) : Layer VectorId Found := answer (readLayers rt.mem rt.current_snapshot)

lemma get_view_expiring (rt : VectorRuntime) (now_sec : UInt64) (id : VectorId) : rt.get now_sec id = match rt.view id with
    | some (some found) =>
      if vectorMetaExpired rt.ttl_sec now_sec found.2 then .error (.notFound "vector expired") else .ok found
    | some none => .error (.notFound "tombstone")
    | none => .error (.notFound "vector not found") := by
  rw [get,lookup,lookupById_eq,view]
  cases answer (readLayers rt.mem rt.current_snapshot) id with
  | none => rfl
  | some value => cases value <;> rfl

section
variable {rt : VectorRuntime} (forever : rt.ttl_sec = 0) (now_sec : UInt64) (id : VectorId)
include forever

lemma get_view : rt.get now_sec id = match rt.view id with
    | some (some found) => .ok found
    | some none => .error (.notFound "tombstone")
    | none => .error (.notFound "vector not found") := by
  simp [get_view_expiring,forever,vectorMetaExpired]

lemma exists_get : rt.exists_ now_sec id = (rt.get now_sec id).toOption.isSome := by
  rw [exists_,lookup,lookupById_eq,get_view forever,view,forever]
  cases answer (readLayers rt.mem rt.current_snapshot) id with
  | none => rfl
  | some value =>
    cases value with
    | none => rfl
    | some found => simp [LookupResult.ofAnswer,vectorMetaExpired,Except.toOption]

omit forever in
lemma get_segments (synced : rt.Synced) (empty : rt.mem.getCount = 0) (none_ : rt.frozen_mem = []) :
    rt.get now_sec id = rt.getFromSnapshot ⟨[],rt.segments⟩ now_sec id := by
  have silent : rt.mem.lookup id = none := by rw [MemTable.lookup_eq,layer_of_getCount_zero empty,map_none]
  have same : rt.lookup id = lookupById none (some ⟨[],rt.segments⟩) id := by
    rw [lookup,synced,none_,lookupById,bind_some,silent]
    rfl
  rw [get,getFromSnapshot,same]

end

/-! ### What a write does to the layers -/

lemma rotateMemTable_view {rt : VectorRuntime} (synced : rt.Synced) : rt.rotateMemTable.view = rt.view := by
  unfold rotateMemTable
  by_cases empty : rt.mem.getCount = 0
  · rw [if_pos empty]
  · rw [if_neg empty]
    funext id
    have created : rt.newMemTable.layer id = none := layer_create ..
    show answer (rt.newMemTable.layer ::
      ((rt.frozen_mem ++ [rt.mem]).reverse.map MemTable.layer ++ rt.segments.map Segment.layer)) id = rt.view id
    rw [view,synced,readLayers,answer_cons,created,none_or]
    simp

lemma rotateWhenFull_view {rt : VectorRuntime} (synced : rt.Synced) : rt.rotateWhenFull.view = rt.view := by
  unfold rotateWhenFull
  split
  · exact rotateMemTable_view synced
  · rfl

section
variable {γ : Type} {look : Found → γ} {rt : VectorRuntime} {mem : MemTable} {writes : List (VectorId × Option γ)}

lemma stored_overlays (wal : Wal) (written : Overlays look rt.mem.layer mem.layer writes) :
    Overlays look rt.view (view {rt with wal := wal, wal_epoch := rt.wal_epoch + 1, mem := mem}) writes :=
  written.answer _

lemma rotated_overlays (synced : rt.Synced) (wal : Wal) (written : Overlays look rt.mem.layer mem.layer writes) :
    Overlays look rt.view (view (rotateWhenFull {rt with wal := wal, wal_epoch := rt.wal_epoch + 1, mem := mem})) writes := by
  have filled : Synced {rt with wal := wal, wal_epoch := rt.wal_epoch + 1, mem := mem} := synced
  rw [rotateWhenFull_view filled]
  exact stored_overlays wal written

end

section
variable {rt : VectorRuntime} {outs : List Outcome}

lemma put_ok {id : VectorId} (ok : (rt.put outs id vec md).2.ok) :
    vec.length = rt.dim.toNat ∧ ∃ wal : Wal, (rt.put outs id vec md).1 = rotateWhenFull
      {rt with
        wal := wal
        wal_epoch := rt.wal_epoch + 1
        mem := (rt.mem.putMeta id vec {md with lsn := wal.seq}).1} := by
  unfold put at ok ⊢
  by_cases sized : vec.length = rt.dim.toNat
  · rw [if_neg (not_not.mpr sized)] at ok ⊢
    refine ⟨sized,(rt.wal.appendPut outs id vec md).1,?_⟩
    split at ok
    · cases ok
    · next free =>
      grind
  · rw [if_pos sized] at ok
    cases ok

lemma putBatch_ok (ok : (rt.putBatch outs ids vectors).2.ok) : ids = [] ∧ (rt.putBatch outs ids vectors).1 = rt ∨
      (rt.mem.putBatch ids vectors).2.ok ∧ ∃ wal : Wal, (rt.putBatch outs ids vectors).1 = rotateWhenFull
        {rt with
          wal := wal
          wal_epoch := rt.wal_epoch + 1
          mem := (rt.mem.putBatch ids vectors).1} := by
  unfold putBatch at ok ⊢
  split at ok
  · cases ok
  next equal =>
  rw [if_neg equal]
  split at ok
  · next empty =>
    grind
  next some_ =>
  rw [if_neg some_]
  split at ok
  · cases ok
  next sized =>
  rw [if_neg sized]
  split at ok
  · cases ok
  next free =>
  grind

lemma delete_ok {id : VectorId} (ok : (rt.delete outs id).2.ok) : ∃ wal : Wal, (rt.delete outs id).1 = {rt with
      wal := wal
      wal_epoch := rt.wal_epoch + 1
      mem := (rt.mem.delete id).1} := by
  grind [delete]

end

inductive WriteCall
  | put (outs : List Outcome) (id : VectorId) (vec : Vec) (md : Metadata)
  | putBatch (outs : List Outcome) (ids : List VectorId) (vectors : List Vec)
  | delete (outs : List Outcome) (id : VectorId)

namespace WriteCall

def run (rt : VectorRuntime) : WriteCall → VectorRuntime × Status
  | put outs id vec md => rt.put outs id vec md
  | putBatch outs ids vectors => rt.putBatch outs ids vectors
  | delete outs id => rt.delete outs id

def writes : WriteCall → List (VectorId × Option Vec)
  | put _ id vec _ => [(id,some vec)]
  | putBatch _ ids vectors => (ids.zip vectors).map fun item => (item.1,some item.2)
  | delete _ id => [(id,none)]

def ids : WriteCall → List VectorId
  | put _ id _ _ => [id]
  | putBatch _ ids _ => ids
  | delete _ id => [id]

lemma written (call : WriteCall) (rt : VectorRuntime) : Written rt (call.run rt).1 := by
  cases call with
  | put outs id vec md => exact put_written rt outs id vec md
  | putBatch outs ids vectors => exact putBatch_written rt outs ids vectors
  | delete outs id => exact delete_written rt outs id

end WriteCall

def runAll (rt : VectorRuntime) : List WriteCall → Option VectorRuntime
  | [] => some rt
  | call :: calls => if (call.run rt).2.ok then runAll (call.run rt).1 calls else none

section
variable {rt : VectorRuntime} (synced : rt.Synced) (plain : Plain rt)
include synced plain

lemma WriteCall.overlays {call : WriteCall} (ok : (call.run rt).2.ok) (real : ∀ id ∈ call.ids, id ≠ kEmpty) :
    Overlays Prod.fst rt.view (call.run rt).1.view call.writes := by
  cases call with
  | put outs id vec md =>
    have ok : (rt.put outs id vec md).2.ok := ok
    obtain ⟨sized,wal,same⟩ := put_ok ok
    rw [← plain.mem.1] at sized
    have raw : rt.mem.allocate vec = .raw vec := by simp [MemTable.allocate,plain.mem.2]
    have writes := (rt.mem.putMeta_ok id {md with lsn := wal.seq} sized).2
    rw [raw] at writes
    show Overlays Prod.fst rt.view (view (rt.put outs id vec md).1) _
    rw [same]
    exact rotated_overlays synced _ (writes.overlays (real id (.head _)))
  | putBatch outs ids vectors =>
    have ok : (rt.putBatch outs ids vectors).2.ok := ok
    show Overlays Prod.fst rt.view (view (rt.putBatch outs ids vectors).1) _
    rcases putBatch_ok ok with ⟨rfl,same⟩ | ⟨stored,wal,same⟩
    · rw [same]
      exact Overlays.refl _ _
    · rw [same]
      exact rotated_overlays synced _ (MemTable.putBatch_overlays stored real)
  | delete outs id =>
    have ok : (rt.delete outs id).2.ok := ok
    obtain ⟨wal,same⟩ := delete_ok ok
    show Overlays Prod.fst rt.view (view (rt.delete outs id).1) _
    rw [same]
    exact stored_overlays _ ((rt.mem.delete_writes id).2.overlays (real id (.head _)))

lemma runAll_overlays {calls : List WriteCall} {final : VectorRuntime} (ran : rt.runAll calls = some final)
    (real : ∀ call ∈ calls, ∀ id ∈ call.ids, id ≠ kEmpty) :
    final.Synced ∧ Plain final ∧ Overlays Prod.fst rt.view final.view (calls.flatMap WriteCall.writes) := by
  induction calls generalizing rt with
  | nil =>
    cases ran
    exact ⟨synced,plain,.refl _ _⟩
  | cons call calls ih =>
    rw [runAll] at ran
    split at ran
    · next ok =>
      have here := WriteCall.overlays synced plain ok (real _ (.head _))
      have wrote := call.written rt
      obtain ⟨synced',plain',later⟩ := ih (synced.written wrote) (plain.written wrote) ran
        fun call member => real call (.tail _ member)
      rw [List.flatMap_cons]
      exact ⟨synced',plain',here.trans later⟩
    · cases ran

end

/-- A read returns the vector of the last put of an id, finds nothing if the id was
deleted last, and returns what it returned before if the id was not written; on a
runtime that started with empty tables that is the answer of the segments. -/
theorem get_newest_write (rt : VectorRuntime) (synced : rt.Synced) (plain : Plain rt) (calls : List WriteCall)
    (real : ∀ call ∈ calls, ∀ id ∈ call.ids, id ≠ kEmpty) (final : VectorRuntime) (ran : rt.runAll calls = some final)
    (now_sec : UInt64) (id : VectorId) : (match lastWrite (calls.flatMap WriteCall.writes) id with
      | some (some vec) => ∃ md, final.get now_sec id = .ok (vec,md)
      | some none => final.get now_sec id = .error (.notFound "tombstone")
      | none => final.get now_sec id = rt.get now_sec id ∧ (rt.mem.getCount = 0 → rt.frozen_mem = [] →
          final.get now_sec id = rt.getFromSnapshot ⟨[],rt.segments⟩ now_sec id)) ∧
      final.exists_ now_sec id = (final.get now_sec id).toOption.isSome := by
  obtain ⟨synced',plain',overlays⟩ := runAll_overlays synced plain ran real
  refine ⟨?_,exists_get plain'.ttl now_sec id⟩
  have here := overlays id
  cases last : lastWrite (calls.flatMap WriteCall.writes) id with
  | none =>
    rw [last] at here
    have same : final.get now_sec id = rt.get now_sec id := by
      rw [get_view plain'.ttl,get_view plain.ttl,show final.view id = rt.view id from here]
    grind [get_segments]
  | some value =>
    rw [last] at here
    obtain ⟨found,held,same⟩ := map_eq_some_iff.mp here
    cases value with
    | none =>
      have deleted : found = none := map_eq_none_iff.mp same
      rw [get_view plain'.ttl,held,deleted]
    | some vec =>
      obtain ⟨⟨_,md⟩,rfl,rfl⟩ := map_eq_some_iff.mp same
      exact ⟨md,by rw [get_view plain'.ttl,held]⟩

def storedSix : Segment := ⟨1,[⟨3,[6],false,{}⟩],by decide⟩

def mixedCalls : List WriteCall := [.put [] 1 [7] {},.putBatch [] [2,1] [[8],[9]],.delete [] 2]

theorem get_newest_write_mixed : ∃ rt final,
    openLocked .plain 1 false 0 ⟨[],1000,0,none,0,0,0⟩ [storedSix] = .ok rt ∧ rt.runAll mixedCalls = some final ∧
      (∃ md, final.get 0 1 = .ok ([9],md)) ∧ final.get 0 2 = .error (.notFound "tombstone") ∧
      final.get 0 3 = rt.getFromSnapshot ⟨[],rt.segments⟩ 0 3 := by
  have facts : ((openLocked .plain 1 false 0 ⟨[],1000,0,none,0,0,0⟩ [storedSix]).toOption.map fun rt =>
      ((rt.runAll mixedCalls).isSome,rt.mem.getCount,rt.frozen_mem.isEmpty)) = some (true,0,true) := by decide +kernel
  cases opened : openLocked .plain 1 false 0 ⟨[],1000,0,none,0,0,0⟩ [storedSix] with
  | error st =>
    rw [opened] at facts
    cases facts
  | ok rt =>
    rw [opened] at facts
    simp only [Except.toOption,map_some,some_inj,Prod.mk.injEq,List.isEmpty_iff] at facts
    obtain ⟨all,empty,none_⟩ := facts
    obtain ⟨final,ran⟩ := isSome_iff_exists.mp all
    have reads := get_newest_write rt (.openLocked opened) (.openLocked opened) mixedCalls (by simp [mixedCalls,WriteCall.ids,kEmpty]) final ran 0
    exact ⟨rt,final,rfl,ran,(reads 1).1,(reads 2).1,(reads 3).1.2 empty none_⟩

end VectorRuntime
end PomaiCache
