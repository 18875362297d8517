import PomaiCache.FrozenTables

/-!
What a freeze does to point reads. The tables of a job are installed oldest
first, while reads expect the newest first; so a completed freeze keeps a read
exactly when the oldest and the newest table that hold the id show the same.
-/
namespace PomaiCache
open Layers List

/-! ### Replay keeps the shape of the table -/

namespace Wal
open MemTable (SameShape)

lemma orReturn_sameShape (shape : SameShape m outcome.1) (returned : orReturn outcome = .ok result) : SameShape m result := by
  grind [orReturn]

lemma applyOp_sameShape {seq : UInt64} {op : UInt8} {id : VectorId} {dim : Nat} {rest : Codec.Bytes}
    {m result : MemTable} (applied : applyOp seq op id dim rest m = .ok result) : SameShape m result := by
  unfold applyOp at applied
  dsimp only at applied
  split at applied
  · split at applied
    · cases applied
    · exact orReturn_sameShape (m.putMeta_sameShape ..) applied
  · split at applied
    · split at applied
      · cases applied
      · obtain ⟨md,_,stored⟩ := bind_eq_ok applied
        exact orReturn_sameShape (m.putMeta_sameShape ..) stored
    · split at applied
      · split at applied
        · cases applied
        · exact orReturn_sameShape (m.delete_sameShape id) applied
      · split at applied
        · cases applied
          exact .refl m
        · cases applied

lemma replayFrames_sameShape {cipher : Option Cipher} {fuel : Nat} {rest : Codec.Bytes}
    {state result : MemTable × UInt64} (replayed : replayFrames cipher fuel rest state = .ok result) :
    SameShape state.1 result.1 := by
  induction fuel generalizing rest state with
  | zero =>
    cases replayed
    exact .refl _
  | succ fuel ih =>
    rw [replayFrames] at replayed
    cases next : nextBody rest with
    | none =>
      rw [next] at replayed
      cases replayed
      exact .refl _
    | some body =>
      rw [next] at replayed
      obtain ⟨payload,_,replayed⟩ := bind_eq_ok replayed
      obtain ⟨mem,applied,replayed⟩ := bind_eq_ok replayed
      exact (applyOp_sameShape applied).trans (ih replayed)

lemma replayDir_sameShape {cipher : Option Cipher} {dir : WalDir} {state result : MemTable × UInt64}
    (replayed : replayDir cipher dir state = .ok result) : SameShape state.1 result.1 := by
  induction dir generalizing state with
  | nil =>
    cases replayed
    exact .refl _
  | cons file rest ih =>
    cases file with
    | none =>
      cases replayed
      exact .refl _
    | some file =>
      obtain ⟨between,here,replayed⟩ := bind_eq_ok replayed
      obtain ⟨off,_,frames⟩ := bind_eq_ok here
      exact (replayFrames_sameShape frames).trans (ih replayed)

end Wal

namespace VectorRuntime

/-- The states of a runtime without quantization and expiry that started on an empty
directory. Appends to the log may fail, and freezes may be cancelled. -/
inductive Reachable (platform : Platform) (dim : UInt32) : VectorRuntime → Prop
  | opened {wal : Wal} {rt : VectorRuntime} (empty : wal.dir = [])
      (started : openLocked platform dim false 0 wal [] = .ok rt) : Reachable platform dim rt
  | put {rt : VectorRuntime} (before : Reachable platform dim rt) (outs : List Outcome) (id : VectorId) (vec : Vec)
      (md : Metadata) : Reachable platform dim (rt.put outs id vec md).1
  | putBatch {rt : VectorRuntime} (before : Reachable platform dim rt) (outs : List Outcome)
      (ids : List VectorId) (vectors : List Vec) : Reachable platform dim (rt.putBatch outs ids vectors).1
  | delete {rt : VectorRuntime} (before : Reachable platform dim rt) (outs : List Outcome) (id : VectorId) :
      Reachable platform dim (rt.delete outs id).1
  | rotate {rt : VectorRuntime} (before : Reachable platform dim rt) : Reachable platform dim rt.rotateMemTable
  | freeze {rt : VectorRuntime} (before : Reachable platform dim rt) (clock : List UInt64) :
      Reachable platform dim (rt.freeze clock).1
  | restart {rt next : VectorRuntime} (before : Reachable platform dim rt) (started : rt.restart = .ok next) :
      Reachable platform dim next

/-- What a write may do to the runtime: nothing, something to the log only, or a
change of the active table, after which it may be rotated. -/
inductive Written (rt : VectorRuntime) : VectorRuntime → Prop
  | kept : Written rt rt
  | logged (wal : Wal) : Written rt {rt with wal := wal}
  | stored (wal : Wal) (mem : MemTable) (shape : MemTable.SameShape rt.mem mem) : Written rt
      {rt with
        wal := wal
        wal_epoch := rt.wal_epoch + 1
        mem := mem}
  | rotated (wal : Wal) (mem : MemTable) (shape : MemTable.SameShape rt.mem mem) : Written rt (rotateWhenFull
        {rt with
          wal := wal
          wal_epoch := rt.wal_epoch + 1
          mem := mem})

section
variable (rt : VectorRuntime) (outs : List Outcome)

lemma put_written (id : VectorId) (vec : Vec) (md : Metadata) : Written rt (rt.put outs id vec md).1 := by
  unfold put
  split
  · exact .kept
  split
  · exact .kept
  · dsimp only
    split
    · split
      · exact .rotated _ _ (rt.mem.putMeta_sameShape ..)
      · exact .stored _ _ (rt.mem.putMeta_sameShape ..)
    · exact .logged _

lemma putBatch_written (ids : List VectorId) (vectors : List Vec) : Written rt (rt.putBatch outs ids vectors).1 := by
  unfold putBatch
  split
  · exact .kept
  split
  · exact .kept
  split
  · exact .kept
  split
  · exact .kept
  · dsimp only
    split
    · split
      · exact .rotated _ _ (rt.mem.putBatch_sameShape ..)
      · exact .stored _ _ (rt.mem.putBatch_sameShape ..)
    · exact .logged _

lemma delete_written (id : VectorId) : Written rt (rt.delete outs id).1 := by
  unfold delete
  dsimp only
  split
  · exact .stored _ _ (rt.mem.delete_sameShape id)
  · exact .logged _

end

/-- No expiry, and every table stores plain vectors of the runtime's dimension. -/
structure Plain (rt : VectorRuntime) : Prop where
  ttl : rt.ttl_sec = 0
  layout : rt.quantize_inmem = false
  mem : rt.mem.dim = rt.dim ∧ rt.mem.quantize_inmem = false
  frozen_mem : ∀ m ∈ rt.frozen_mem, m.dim = rt.dim ∧ m.quantize_inmem = false

namespace Plain
variable {rt : VectorRuntime} (plain : Plain rt)
include plain

lemma rotateMemTable : Plain rt.rotateMemTable := by
  unfold VectorRuntime.rotateMemTable
  split
  · exact plain
  · refine ⟨plain.ttl,plain.layout,⟨rfl,plain.layout⟩,?_⟩
    intro m member
    rcases mem_append.mp member with before | last
    · exact plain.frozen_mem m before
    · rw [mem_singleton.mp last]
      exact plain.mem

lemma rotateWhenFull : Plain rt.rotateWhenFull := by
  unfold VectorRuntime.rotateWhenFull
  split
  · exact plain.rotateMemTable
  · exact plain

lemma written {next : VectorRuntime} (wrote : Written rt next) : Plain next := by
  have moved : ∀ wal mem, MemTable.SameShape rt.mem mem → Plain
      {rt with
        wal := wal
        wal_epoch := rt.wal_epoch + 1
        mem := mem} := fun wal mem shape =>
    ⟨plain.ttl,plain.layout,⟨shape.dim.trans plain.mem.1,shape.quantize_inmem.trans plain.mem.2⟩,plain.frozen_mem⟩
  cases wrote with
  | kept => exact plain
  | logged wal => exact ⟨plain.ttl,plain.layout,plain.mem,plain.frozen_mem⟩
  | stored wal mem shape => exact moved wal mem shape
  | rotated wal mem shape => exact (moved wal mem shape).rotateWhenFull

lemma freezable : rt.Freezable := by
  intro m member
  rw [plain.ttl]
  exact ⟨(plain.frozen_mem m member).1,m.unexpiring_zero⟩

omit plain in
lemma job {start : VectorRuntime} (plain : Plain start) {left : Nat} {st : FreezeState}
    (job : Job start left rt st) : Plain rt := by
  have emptied : Plain start.walReset := ⟨plain.ttl,plain.layout,plain.mem,by simp [walReset]⟩
  have same : Plain start.installed := ⟨plain.ttl,plain.layout,plain.mem,plain.frozen_mem⟩
  cases job with
  | between | inside | full | ended | committing => exact plain
  | installing => exact ⟨plain.ttl,plain.layout,plain.mem,plain.frozen_mem⟩
  | resetting => exact same
  | publishing => exact emptied
  | done => exact ⟨plain.ttl,plain.layout,plain.mem,emptied.frozen_mem⟩

lemma freeze (clock : List UInt64) : Plain (rt.freeze clock).1 := by
  have rotated := plain.rotateMemTable
  rcases freeze_spec rotated.freezable clock with ⟨_,same⟩ | ⟨_,same⟩ | ⟨left,cut,st,running,same,_⟩
  · rw [same]
    exact rotated
  · rw [same]
    exact rotated.job (Job.done : Job rt.rotateMemTable _ _ _)
  · rw [same]
    exact rotated.job running

omit plain in
lemma openLocked {platform : Platform} {dim : UInt32} {wal : Wal} {manifest : List Segment}
    (started : openLocked platform dim false 0 wal manifest = .ok rt) : Plain rt := by
  rw [VectorRuntime.openLocked] at started
  dsimp only at started
  split at started
  · split at started
    · cases started
    · next mem seq replayed =>
      have shape := Wal.replayDir_sameShape replayed
      have opened : Plain
          { platform := platform
            dim := dim
            quantize_inmem := false
            ttl_sec := 0
            wal := {wal.reopen.1 with seq := seq}
            wal_epoch := 0
            mem := mem
            frozen_mem := []
            segments := []
            current_snapshot := ⟨[],[]⟩
            manifest := manifest } := ⟨rfl,rfl,⟨shape.dim,shape.quantize_inmem⟩,by simp⟩
      have rotated := opened.rotateMemTable
      cases started
      unfold start
      rw [rotate_guarded]
      exact ⟨rotated.ttl,rotated.layout,rotated.mem,rotated.frozen_mem⟩
  · cases started

end Plain

lemma Reachable.plain {platform : Platform} {dim : UInt32} {rt : VectorRuntime}
    (reachable : Reachable platform dim rt) : Plain rt := by
  induction reachable with
  | opened empty started => exact .openLocked started
  | put before outs id vec md ih => exact ih.written (put_written _ outs id vec md)
  | putBatch before outs ids vectors ih => exact ih.written (putBatch_written _ outs ids vectors)
  | delete before outs id ih => exact ih.written (delete_written _ outs id)
  | rotate before ih => exact ih.rotateMemTable
  | freeze before clock ih => exact ih.freeze clock
  | restart before started ih =>
    rw [VectorRuntime.restart,ih.ttl,ih.layout] at started
    exact .openLocked started

end VectorRuntime

def LookupResult.visible (result : LookupResult) : Option Vec :=
  if result.state = .kFound then some result.vec else none

lemma LookupResult.visible_ofAnswer (found : Option (Option Found)) :
    (LookupResult.ofAnswer found).visible = found.join.map Prod.fst := by
  cases found with
  | none => rfl
  | some value => cases value <;> rfl

namespace VectorRuntime

lemma lookup_visible (rt : VectorRuntime) (id : VectorId) :
    (rt.lookup id).visible = (seen (readLayers rt.mem rt.current_snapshot) id).map Prod.fst := by
  rw [lookup,lookupById_eq,LookupResult.visible_ofAnswer,seen]

variable {rt : VectorRuntime}

lemma get_toOption (forever : rt.ttl_sec = 0) (now_sec : UInt64) (id : VectorId) :
    (rt.get now_sec id).toOption = seen (readLayers rt.mem rt.current_snapshot) id := by
  rw [get,lookup,lookupById_eq,seen,forever]
  cases answer (readLayers rt.mem rt.current_snapshot) id with
  | none => rfl
  | some value =>
    cases value with
    | none => rfl
    | some found => simp [LookupResult.ofAnswer,vectorMetaExpired,Except.toOption]

def tables (rt : VectorRuntime) : List (Layer VectorId Found) := (rt.frozen_mem ++ [rt.mem]).map MemTable.layer

/-- The order in which a freeze leaves the layers: the oldest table comes first. -/
def installOrder (rt : VectorRuntime) : List (Layer VectorId Found) := rt.tables ++ rt.segments.map Segment.layer

lemma layer_of_getCount_zero {m : MemTable} (empty : m.getCount = 0) (id : VectorId) : m.layer id = none := by
  rw [MemTable.layer,MemTable.version_of_getCount_zero empty,Option.map_none]

lemma layer_create (platform : Platform) (dim : UInt32) (q : Bool) (id : VectorId) :
    (MemTable.create platform dim q).layer id = none := by
  rw [MemTable.layer,MemTable.version_create,Option.map_none]

lemma flatMap_segmentsOf_answer {mems : List MemTable} (plain : ∀ m ∈ mems, m.quantize_inmem = false) (dim : UInt32)
    (freed : Vec) (id : VectorId) : answer ((mems.flatMap fun m => m.segmentsOf dim freed).map Segment.layer) id =
      answer (mems.map MemTable.layer) id := by
  induction mems with
  | nil => rfl
  | cons m mems ih =>
    rw [flatMap_cons,map_append,answer_append,map_cons,answer_cons,
      m.segmentsOf_answer (plain m (.head _)),ih fun other member => plain other (.tail _ member)]

lemma rotate_answer (rt : VectorRuntime) (id : VectorId) : rt.rotateMemTable.mem.layer id = none ∧
      answer (rt.rotateMemTable.frozen_mem.map MemTable.layer) id = answer rt.tables id ∧
      rt.rotateMemTable.segments = rt.segments := by
  unfold rotateMemTable
  by_cases empty : rt.mem.getCount = 0
  · simp [if_pos empty,tables,map_append,answer_append,map_cons,answer_cons,layer_of_getCount_zero empty]
  · rw [if_neg empty]
    exact ⟨layer_create ..,rfl,rfl⟩

lemma readLayers_frozen (start : VectorRuntime) : readLayers start.frozen.mem start.frozen.current_snapshot =
      start.mem.layer :: (start.frozenSegments.map Segment.layer ++ start.segments.map Segment.layer) := by
  rw [← map_append]
  rfl

lemma frozen_seen (plain : Plain rt) (id : VectorId) :
    seen (readLayers rt.rotateMemTable.frozen.mem rt.rotateMemTable.frozen.current_snapshot) id = seen rt.installOrder id := by
  obtain ⟨active,moved,kept⟩ := rt.rotate_answer id
  have written := flatMap_segmentsOf_answer (fun m member => (plain.rotateMemTable.frozen_mem m member).2)
    rt.rotateMemTable.dim rt.rotateMemTable.platform.freed id
  rw [seen,readLayers_frozen,answer_cons,active,Option.none_or,answer_append,frozenSegments,written,moved,kept,seen,
    installOrder,answer_append]

/-- When a freeze keeps the reads: there is nothing to freeze, or for each id the
order of installation shows what is read now. -/
def KeepsReads (rt : VectorRuntime) : Prop :=
  rt.frozen_mem = [] ∧ rt.mem.getCount = 0 ∨ ∀ id, (seen rt.installOrder id).map Prod.fst =
      (seen (readLayers rt.mem rt.current_snapshot) id).map Prod.fst

/-- A freeze that completes keeps every point read exactly in the states that meet
the condition. -/
theorem freeze_keeps_reads (platform : Platform) (dim : UInt32) (rt : VectorRuntime) (clock : List UInt64)
    (reachable : Reachable platform dim rt) (completed : (rt.freeze clock).2 = .Ok) :
    (∀ id, ((rt.freeze clock).1.lookup id).visible = (rt.lookup id).visible) ↔ rt.KeepsReads := by
  have plain := reachable.plain
  have rotated := plain.rotateMemTable
  simp only [lookup_visible]
  rcases freeze_spec rotated.freezable clock with ⟨nothing,same⟩ | ⟨some_,same⟩ | ⟨left,cut,st,running,same,_⟩
  · have empty : rt.mem.getCount = 0 := by
      by_contra some_
      rw [rotateMemTable,if_neg some_] at nothing
      simp [publishSnapshot] at nothing
    rw [rotateMemTable,if_pos empty] at nothing same
    rw [same]
    exact iff_of_true (fun _ => rfl) (.inl ⟨nothing,empty⟩)
  · rw [same]
    simp only [frozen_seen plain]
    constructor
    · exact fun kept => .inr kept
    · rintro (⟨nothing,empty⟩ | kept)
      · rw [rotateMemTable,if_pos empty] at some_
        exact absurd nothing some_
      · exact kept
  · rw [same] at completed
    cases completed

/-- The published snapshot is up to date: no freeze was cancelled between the
installation of its segments and the publication. -/
def Synced (rt : VectorRuntime) : Prop := rt.current_snapshot = ⟨rt.frozen_mem,rt.segments⟩

/-- The oldest and the newest table that hold an id show the same vector. -/
def NoConflict (rt : VectorRuntime) : Prop :=
  ∀ id, (seen rt.tables id).map Prod.fst = (seen rt.tables.reverse id).map Prod.fst

lemma keepsReads_iff_noConflict (synced : rt.Synced) : rt.KeepsReads ↔ rt.NoConflict := by
  have now : readLayers rt.mem rt.current_snapshot = rt.tables.reverse ++ rt.segments.map Segment.layer := by
    rw [synced,readLayers,tables,← map_reverse,reverse_append]
    rfl
  have each : ∀ id, (seen rt.installOrder id).map Prod.fst = (seen (readLayers rt.mem rt.current_snapshot) id).map Prod.fst ↔
      (seen rt.tables id).map Prod.fst = (seen rt.tables.reverse id).map Prod.fst := by
    intro id
    rw [installOrder,now]
    exact seen_reverse_append Prod.fst rt.tables _ id
  constructor
  · rintro (⟨nothing,empty⟩ | kept)
    · intro id
      grind [tables]
    · exact fun id => (each id).mp (kept id)
  · exact fun agree => .inr fun id => (each id).mpr (agree id)

/-! Every step but a cancelled freeze keeps the snapshot up to date. -/

namespace Synced
variable {rt : VectorRuntime} (synced : rt.Synced)
include synced

lemma rotateMemTable : rt.rotateMemTable.Synced := by
  unfold VectorRuntime.rotateMemTable
  split
  · exact synced
  · rfl

lemma rotateWhenFull : rt.rotateWhenFull.Synced := by
  unfold VectorRuntime.rotateWhenFull
  split
  · exact synced.rotateMemTable
  · exact synced

lemma written {next : VectorRuntime} (wrote : Written rt next) : next.Synced := by
  cases wrote with
  | kept => exact synced
  | logged wal => exact synced
  | stored wal mem shape => exact synced
  | rotated wal mem shape =>
    have filled : Synced {rt with wal := wal, wal_epoch := rt.wal_epoch + 1, mem := mem} := synced
    exact filled.rotateWhenFull

omit synced in
lemma openLocked {platform : Platform} {dim : UInt32} {q : Bool} {ttl_sec : UInt32} {wal : Wal}
    {manifest : List Segment} (started : openLocked platform dim q ttl_sec wal manifest = .ok rt) : rt.Synced := by
  rw [VectorRuntime.openLocked] at started
  dsimp only at started
  split at started
  · split at started
    · cases started
    · cases started
      rfl
  · cases started

end Synced

theorem freeze_keeps_reads_single : ∃ rt, Reachable .plain 1 rt ∧ (rt.lookup 1).visible = some [7] ∧
    (rt.freeze (replicate 30 0)).2 = .Ok ∧
    ∀ id, ((rt.freeze (replicate 30 0)).1.lookup id).visible = (rt.lookup id).visible := by
  have facts : ((openLocked .plain 1 false 0 ⟨[],1000,0,none,0,0,0⟩ []).toOption.map fun first =>
      let rt := (first.put [] 1 [7] {}).1
      ((rt.freeze (replicate 30 0)).2,(rt.lookup 1).visible,rt.frozen_mem.isEmpty)) =
      some (.Ok,some [7],true) := by decide +kernel
  cases opened : openLocked .plain 1 false 0 ⟨[],1000,0,none,0,0,0⟩ [] with
  | error st =>
    rw [opened] at facts
    cases facts
  | ok first =>
    rw [opened] at facts
    simp only [Except.toOption,Option.map_some,Option.some_inj,Prod.mk.injEq,List.isEmpty_iff] at facts
    obtain ⟨completed,shown,alone⟩ := facts
    have reachable := (Reachable.opened rfl opened).put [] 1 [7] {}
    have synced := (Synced.openLocked opened).written (put_written first [] 1 [7] {})
    refine ⟨_,reachable,shown,completed,(freeze_keeps_reads _ _ _ _ reachable completed).mpr ?_⟩
    refine (keepsReads_iff_noConflict synced).mpr fun id => ?_
    rw [tables,alone]
    rfl

/-- A put, a restart that freezes the replayed table, and a second put of the same
id: the read shows the second vector before the freeze and the first one after it. -/
theorem freeze_shows_oldest : (do
      let rt ← openLocked .plain 1 false 0 ⟨[],1000,0,none,0,0,0⟩ []
      let rt ← (rt.put [] 1 [0] {}).1.restart
      let rt := (rt.put [] 1 [1] {}).1
      let after := rt.freeze (replicate 30 0)
      pure (after.2,(rt.lookup 1).visible,(after.1.lookup 1).visible)).toOption =
      some (Status.Ok,some [1],some [0]) := by
  decide +kernel

end VectorRuntime
end PomaiCache
