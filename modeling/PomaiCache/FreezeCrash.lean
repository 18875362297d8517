import PomaiCache.FreezeReads

/-!
Crashes and restarts. At every step each write is in the log or in a segment the
manifest lists, and replaying what is already in a segment does no harm: the
table that replay gives answers like all memtables together, and below it the
manifest answers like the segments.
-/
namespace PomaiCache
open Layers Wal List Option

structure MemTable.Bare (dim : UInt32) (m : MemTable) : Prop where
  dim : m.dim = dim
  plain : m.quantize_inmem = false
  metadata : ∀ id, m.metadata id = none

namespace MemTable
variable {dim : UInt32} {m result : MemTable} {id : VectorId} {value : Option Payload}

lemma bare_create (platform : Platform) (dim : UInt32) : Bare dim (create platform dim false) :=
  ⟨rfl,rfl,fun _ => rfl⟩

lemma Writes.bare (writes : Writes m result id value none) (bare : Bare dim m) : Bare dim result := by
  refine ⟨writes.dim.trans bare.dim,writes.quantize_inmem.trans bare.plain,fun other => ?_⟩
  rw [writes.metadata]
  split
  · rfl
  · exact bare.metadata other

lemma Writes.layer (writes : Writes m result id value none) (real : id ≠ kEmpty) (other : VectorId) :
    result.layer other = if other = id then some (value.map fun p => (p.floats,{})) else m.layer other := by
  rw [MemTable.layer,writes.version]
  by_cases same : other = id
  · rw [if_pos ⟨same,real⟩,if_pos same]
    cases value <;> rfl
  · rw [if_neg (fun both => same both.1),if_neg same]
    rfl

lemma Bare.putMeta (bare : Bare dim m) (id : VectorId) {vec : Vec} (sized : vec.length = dim.toNat) (lsn : UInt64) :
    (m.putMeta id vec {lsn := lsn}).2 = .Ok ∧ Writes m (m.putMeta id vec {lsn := lsn}).1 id (some (.raw vec)) none := by
  obtain ⟨status,writes⟩ := m.putMeta_ok id {lsn := lsn} (by rw [bare.dim]; exact sized)
  have raw : m.allocate vec = .raw vec := by simp [allocate,bare.plain]
  rw [raw] at writes
  exact ⟨status,writes⟩

lemma Bare.storeRaw (bare : Bare dim m) (id : VectorId) (sized : vec.length = dim.toNat) :
    Writes m (m.storeRaw id vec) id (some (.raw vec)) none := by
  have writes := m.storeRaw_writes id (by rw [bare.dim]; exact sized)
  rwa [bare.metadata] at writes

lemma Bare.unexpiring (bare : Bare dim m) (ttl_sec : UInt32) : m.Unexpiring ttl_sec := by
  intro id now_sec
  rw [bare.metadata]
  simp [VectorRuntime.vectorMetaExpired]

end MemTable

structure Mirrors (dim : UInt32) (replayed active : MemTable) (below : List (Layer VectorId Found)) : Prop where
  bare : replayed.Bare dim
  bare_active : active.Bare dim
  layer : ∀ id, replayed.layer id = answer (active.layer :: below) id

section
variable {dim : UInt32} {replayed replayed' active active' : MemTable} {below : List (Layer VectorId Found)}

lemma MemTable.Writes.grows {m result : MemTable} {id : VectorId} {value : Option Payload} {md : Option Metadata}
    (writes : MemTable.Writes m result id value md) (other : VectorId) (silent : result.layer other = none) :
    m.layer other = none := by
  rw [MemTable.layer,Option.map_eq_none_iff,writes.version] at silent
  split at silent
  · cases silent
  · rw [MemTable.layer,silent,Option.map_none]

lemma Mirrors.writes (mirrors : Mirrors dim replayed active below) {id : VectorId} {value : Option Payload}
    (real : id ≠ kEmpty) (first : MemTable.Writes replayed replayed' id value none)
    (second : MemTable.Writes active active' id value none) : Mirrors dim replayed' active' below := by
  refine ⟨first.bare mirrors.bare,second.bare mirrors.bare_active,fun other => ?_⟩
  have before := mirrors.layer other
  rw [answer_cons] at before ⊢
  rw [first.layer real,second.layer real]
  grind

lemma Mirrors.batch (mirrors : Mirrors dim replayed active below)
    (real : ∀ item ∈ items, item.1 ≠ kEmpty) (sized : ∀ item ∈ items, item.2.length = dim.toNat) (seq later : UInt64) :
    Mirrors dim (applyAll (replayed,later) (batchRecords seq items)).1
      (items.foldl (fun m item => m.storeRaw item.1 item.2) active) below := by
  induction items generalizing replayed active seq later with
  | nil => exact mirrors
  | cons item items ih =>
    have length := sized item (.head _)
    have step := mirrors.writes (real item (.head _))
      (mirrors.bare.putMeta item.1 length (seq + 1)).2 (mirrors.bare_active.storeRaw item.1 length)
    simp only [batchRecords,applyAll,foldl_cons,Record.apply]
    exact ih step (fun other member => real other (.tail _ member)) (fun other member => sized other (.tail _ member)) _ _

lemma storeRaw_layer_none {items : List (VectorId × Vec)} {m : MemTable} (bare : m.Bare dim)
    (real : ∀ item ∈ items, item.1 ≠ kEmpty) (sized : ∀ item ∈ items, item.2.length = dim.toNat) {id : VectorId}
    (absent : (items.foldl (fun m item => m.storeRaw item.1 item.2) m).layer id = none) : m.layer id = none := by
  induction items generalizing m with
  | nil => exact absent
  | cons item items ih =>
    have writes := bare.storeRaw item.1 (sized item (.head _))
    have earlier := ih (writes.bare bare) (fun other member => real other (.tail _ member))
      (fun other member => sized other (.tail _ member)) absent
    rw [writes.layer (real item (.head _))] at earlier
    split at earlier
    · cases earlier
    · exact earlier

end

namespace VectorRuntime

def replayed (rt : VectorRuntime) (rs : List Record) : MemTable := (applyAll (rt.newMemTable,0) rs).1

/-- The log holds the records `rs`, which replay to what the memtables say; reads
see the memtables over the segments; and the manifest lists what the segments
answer below the memtables. -/
structure Durable (dim : UInt32) (rs : List Record) (rt : VectorRuntime) : Prop where
  same : rt.dim = dim
  layout : rt.quantize_inmem = false
  unencrypted : rt.wal.cipher = none
  log : Clean rt.wal dim rs
  mirrors : Mirrors dim (rt.replayed rs) rt.mem (rt.frozen_mem.reverse.map MemTable.layer)
  bare : ∀ m ∈ rt.frozen_mem, m.Bare dim
  published : ∀ id, answer (readLayers rt.mem rt.current_snapshot) id =
    answer (rt.tables.reverse ++ rt.segments.map Segment.layer) id
  listed : ∀ id, answer rt.tables.reverse id = none →
    answer (rt.manifest.map Segment.layer) id = answer (rt.segments.map Segment.layer) id

lemma tables_reverse (rt : VectorRuntime) : rt.tables.reverse = rt.mem.layer :: rt.frozen_mem.reverse.map MemTable.layer := by
  rw [tables,map_append,reverse_append,map_reverse]
  rfl

lemma rotate_tables (rt : VectorRuntime) (id : VectorId) :
    answer rt.rotateMemTable.tables.reverse id = answer rt.tables.reverse id := by
  grind [tables_reverse,answer_cons,publishSnapshot,newMemTable,layer_create,reverse_append,rotateMemTable]

namespace Durable
variable {dim : UInt32} {rs : List Record} {rt : VectorRuntime} (durable : Durable dim rs rt)
include durable

lemma rotateMemTable : Durable dim rs rt.rotateMemTable := by
  unfold VectorRuntime.rotateMemTable
  split
  · exact durable
  · have created : rt.newMemTable.Bare dim := by
      rw [newMemTable,durable.same,durable.layout]
      exact MemTable.bare_create ..
    have order := rt.rotate_tables
    simp only [VectorRuntime.rotateMemTable,if_neg (by assumption : ¬rt.mem.getCount = 0)] at order
    refine ⟨durable.same,durable.layout,durable.unencrypted,durable.log,?_,?_,?_,?_⟩
    · refine ⟨durable.mirrors.bare,created,fun id => ?_⟩
      have together := order id
      rw [tables_reverse,tables_reverse] at together
      exact (durable.mirrors.layer id).trans together.symm
    · intro m member
      rcases mem_append.mp member with before | last
      · exact durable.bare m before
      · rw [mem_singleton.mp last]
        exact durable.mirrors.bare_active
    · intro id
      rw [tables_reverse]
      rfl
    · intro id nothing
      exact durable.listed id ((order id).symm.trans nothing)

end Durable

lemma openLocked_durable {platform : Platform} {dim : UInt32} {wal : Wal} {rs : List Record} (ttl_sec : UInt32)
    (manifest : List Segment) (status : wal.reopen.2 = .Ok) (log : Clean wal.reopen.1 dim rs)
    (unencrypted : wal.reopen.1.cipher = none)
    (bare : (applyAll (MemTable.create platform dim false,0) rs).1.Bare dim) :
    ∃ next, openLocked platform dim false ttl_sec wal manifest = .ok next ∧ Durable dim rs next ∧
      next.ttl_sec = ttl_sec ∧ ∀ id, answer (readLayers next.mem next.current_snapshot) id =
        ((applyAll (MemTable.create platform dim false,0) rs).1.layer id).or (answer (manifest.map Segment.layer) id) := by
  have result := Clean.replay (MemTable.create platform dim false) log
  rw [reopen_seq] at result
  let opened : VectorRuntime :=
    { platform := platform
      dim := dim
      quantize_inmem := false
      ttl_sec := ttl_sec
      wal := {wal.reopen.1 with seq := (applyAll (MemTable.create platform dim false,0) rs).2}
      wal_epoch := 0
      mem := (applyAll (MemTable.create platform dim false,0) rs).1
      frozen_mem := []
      segments := manifest
      current_snapshot := ⟨[],manifest⟩
      manifest := manifest }
  have loaded : Durable dim rs opened := by
    obtain ⟨p,here,held,gone⟩ := log
    refine ⟨rfl,rfl,unencrypted,⟨p,⟨here.dir,here.gen⟩,held,gone⟩,⟨bare,bare,fun id => ?_⟩,?_,?_,?_⟩
    · rw [answer_cons]
      exact (or_none).symm
    · intro m member
      cases member
    · intro id
      rw [tables_reverse]
      rfl
    · intro id _
      rfl
  have started : openLocked platform dim false ttl_sec wal manifest = .ok opened.rotateMemTable := by
    simp only [openLocked,status,Status.ok_Ok,if_true,result]
    refine congrArg Except.ok ((congrArg loadSegments (rotate_guarded _)).trans ?_)
    unfold VectorRuntime.rotateMemTable
    by_cases empty : opened.mem.getCount = 0
    · rw [if_pos empty,if_pos empty]
      rfl
    · rw [if_neg empty,if_neg empty]
      rfl
  have rotated := loaded.rotateMemTable
  have kept : opened.rotateMemTable.segments = manifest ∧ opened.rotateMemTable.ttl_sec = ttl_sec := by
    unfold VectorRuntime.rotateMemTable
    split <;> exact ⟨rfl,rfl⟩
  refine ⟨_,started,rotated,kept.2,fun id => ?_⟩
  rw [rotated.published,answer_append,kept.1,rotate_tables,tables_reverse,answer_cons]
  exact congrArg (Option.or · _) or_none

namespace Durable
variable {dim : UInt32} {rs : List Record} {rt : VectorRuntime} (durable : Durable dim rs rt)
include durable

lemma rotateWhenFull : Durable dim rs rt.rotateWhenFull := by
  unfold VectorRuntime.rotateWhenFull
  split
  · exact durable.rotateMemTable
  · exact durable

lemma stored {c : Call} (replayable : c.Replayable none dim) {mem : MemTable} (epoch : Nat)
    (mirrors : Mirrors dim (applyAll (applyAll (rt.newMemTable,0) rs) (c.records rt.wal.seq)).1 mem
      (rt.frozen_mem.reverse.map MemTable.layer)) (grows : ∀ id, mem.layer id = none → rt.mem.layer id = none) :
    Durable dim (rs ++ c.records rt.wal.seq)
      {rt with
        wal := (rt.wal.call [] c).1
        wal_epoch := epoch
        mem := mem} := by
  obtain ⟨_,log,cipher⟩ := durable.log.call (c := c) (by rw [durable.unencrypted]; exact replayable)
  have seen_before : ∀ id, answer (mem.layer :: rt.frozen_mem.reverse.map MemTable.layer) id = none →
      answer rt.tables.reverse id = none := by
    grind [answer_cons,or_eq_none_iff,tables_reverse]
  refine ⟨durable.same,durable.layout,cipher.trans durable.unencrypted,log,?_,durable.bare,?_,?_⟩
  · rw [replayed,applyAll_append]
    exact mirrors
  · intro id
    -- below the active table the two orders answered alike wherever it was silent
    have before := durable.published id
    rw [readLayers,tables_reverse,cons_append,answer_cons,answer_cons] at before
    rw [readLayers,tables_reverse,cons_append,answer_cons,answer_cons]
    dsimp only
    cases held : mem.layer id with
    | some value => rfl
    | none =>
      rw [grows id held] at before
      exact before
  · intro id nothing
    rw [tables_reverse] at nothing
    exact durable.listed id (seen_before id nothing)

lemma put (short : 25 + 4 * dim.toNat < 2 ^ 32) {id : VectorId} (real : id ≠ kEmpty) (vec : Vec) :
    ∃ more, Durable dim more (rt.put [] id vec {}).1 := by
  unfold VectorRuntime.put
  by_cases wrong : vec.length ≠ rt.dim.toNat
  · rw [if_pos wrong]
    exact ⟨rs,durable⟩
  rw [if_neg wrong]
  by_cases full : rt.backpressure
  · rw [if_pos full]
    exact ⟨rs,durable⟩
  rw [if_neg full]
  have sized : vec.length = dim.toNat := by rw [← durable.same]; exact not_not.mp wrong
  have replayable : (Call.put id vec {}).Replayable none dim :=
    ⟨sized,carried_empty,by decide,by simp [Framed,putRecord,overhead,Record.payload,sized]; omega⟩
  obtain ⟨status,_,_⟩ := durable.log.call (c := .put id vec {}) (by rw [durable.unencrypted]; exact replayable)
  obtain ⟨done,active⟩ := durable.mirrors.bare_active.putMeta id sized (rt.wal.appendPut [] id vec {}).1.seq
  have first := (durable.mirrors.bare.putMeta id sized (rt.wal.seq + 1)).2
  have after := durable.stored replayable (rt.wal_epoch + 1) (durable.mirrors.writes real first active) active.grows
  simp only [call] at status
  simp only [status,Status.ok_Ok,if_true,done]
  exact ⟨_,after.rotateWhenFull⟩

lemma delete {id : VectorId} (real : id ≠ kEmpty) : ∃ more, Durable dim more (rt.delete [] id).1 := by
  unfold VectorRuntime.delete
  have replayable : (Call.del id).Replayable none dim := trivial
  obtain ⟨status,_,_⟩ := durable.log.call (c := .del id) (by rw [durable.unencrypted]; exact replayable)
  have active := (rt.mem.delete_writes id).2
  have first := ((rt.replayed rs).delete_writes id).2
  have after := durable.stored replayable (rt.wal_epoch + 1) (durable.mirrors.writes real first active) active.grows
  simp only [call] at status
  simp only [status,Status.ok_Ok,if_true]
  exact ⟨_,after⟩

lemma putBatch (short : 25 + 4 * dim.toNat < 2 ^ 32) {ids : List VectorId} (real : ∀ id ∈ ids, id ≠ kEmpty)
    (vectors : List Vec) : ∃ more, Durable dim more (rt.putBatch [] ids vectors).1 := by
  unfold VectorRuntime.putBatch
  by_cases lengths : ids.length ≠ vectors.length
  · rw [if_pos lengths]
    exact ⟨rs,durable⟩
  rw [if_neg lengths]
  by_cases nothing : ids.isEmpty
  · rw [if_pos nothing]
    exact ⟨rs,durable⟩
  rw [if_neg nothing]
  by_cases wrong : vectors.any fun vec => vec.length ≠ rt.dim.toNat
  · rw [if_pos wrong]
    exact ⟨rs,durable⟩
  rw [if_neg wrong]
  by_cases full : rt.backpressure
  · rw [if_pos full]
    exact ⟨rs,durable⟩
  rw [if_neg full]
  have sized : ∀ vec ∈ vectors, vec.length = dim.toNat := by
    intro vec member
    rw [← durable.same]
    by_contra different
    grind
  have items : ∀ item ∈ ids.zip vectors, item.1 ≠ kEmpty ∧ item.2.length = dim.toNat := fun item member =>
    ⟨real item.1 (of_mem_zip member).1,sized item.2 (of_mem_zip member).2⟩
  have replayable : (Call.batch ids vectors).Replayable none dim :=
    ⟨not_not.mp lengths,fun vec member =>
      ⟨sized vec member,by simp [Framed,overhead,Record.payload,sized vec member]; omega⟩⟩
  obtain ⟨status,_,_⟩ := durable.log.call (c := .batch ids vectors) (by rw [durable.unencrypted]; exact replayable)
  have stores : rt.mem.putBatch ids vectors = ((ids.zip vectors).foldl (fun m item => m.storeRaw item.1 item.2) rt.mem,.Ok) := by
    obtain ⟨_,done⟩ | ⟨wrong,_⟩ := rt.mem.putBatch_cases ids vectors
    · exact done
    · exact absurd ⟨not_not.mp lengths,by rwa [durable.mirrors.bare_active.dim]⟩ wrong
  have mirrors := durable.mirrors.batch (fun item member => (items item member).1)
    (fun item member => (items item member).2) rt.wal.seq (applyAll (rt.newMemTable,0) rs).2
  have after := durable.stored replayable (rt.wal_epoch + 1) mirrors fun id =>
    storeRaw_layer_none durable.mirrors.bare_active (fun item member => (items item member).1)
      (fun item member => (items item member).2)
  simp only [call] at status
  simp only [status,Status.ok_Ok,if_true,stores]
  exact ⟨_,after.rotateWhenFull⟩

lemma freezable : rt.Freezable := by
  intro m member
  have bare := durable.bare m member
  exact ⟨bare.dim.trans durable.same.symm,bare.unexpiring rt.ttl_sec⟩

/-- With one frozen table and an empty active one, the segments of the job say what
the tables say. -/
lemma written (single : rt.frozen_mem.length ≤ 1) (idle : ∀ id, rt.mem.layer id = none) (id : VectorId) :
    answer (rt.frozenSegments.map Segment.layer) id = answer rt.tables.reverse id := by
  have alone : rt.frozen_mem.reverse = rt.frozen_mem := by
    match rt.frozen_mem,single with
    | [],_ => rfl
    | [m],_ => rfl
  rw [frozenSegments,flatMap_segmentsOf_answer (fun m member => (durable.bare m member).plain),tables_reverse,
    answer_cons,idle,none_or,alone]

lemma job (single : rt.frozen_mem.length ≤ 1) (idle : ∀ id, rt.mem.layer id = none)
    (job : Job rt left cut st) : ∃ more, Durable dim more cut := by
  have written := durable.written single idle
  have listed : ∀ id, answer rt.tables.reverse id = none →
      answer ((rt.frozenSegments ++ rt.manifest).map Segment.layer) id = answer (rt.segments.map Segment.layer) id := by
    intro id nothing
    rw [map_append,answer_append,written,nothing,none_or]
    exact durable.listed id nothing
  have both : ∀ id, answer ((rt.frozenSegments ++ rt.manifest).map Segment.layer) id =
      answer ((rt.frozenSegments ++ rt.segments).map Segment.layer) id := by
    intro id
    rw [map_append,map_append,answer_append,answer_append]
    cases held : answer (rt.frozenSegments.map Segment.layer) id with
    | some value => rfl
    | none =>
      rw [none_or,none_or]
      exact durable.listed id (by rw [← written]; exact held)
  have reads : ∀ id, answer (readLayers rt.mem rt.current_snapshot) id =
      answer ((rt.frozenSegments ++ rt.segments).map Segment.layer) id := by
    simp [*,durable.published,answer_append,map_append]
  have silent : ∀ segments : List Segment, ∀ id,answer (walReset rt).tables.reverse id = none ∧
        answer ((walReset rt).tables.reverse ++ segments.map Segment.layer) id = answer (segments.map Segment.layer) id := by
    intro segments id
    have none_ : answer (walReset rt).tables.reverse id = none := by
      rw [tables_reverse,answer_cons]
      exact or_eq_none_iff.mpr ⟨idle id,rfl⟩
    exact ⟨none_,by rw [answer_append,none_,none_or]⟩
  obtain ⟨emptied,cipher⟩ := durable.log.reset
  have created : Mirrors dim (rt.replayed []) rt.mem [] := by
    refine ⟨?_,durable.mirrors.bare_active,fun id => ?_⟩
    · rw [replayed,newMemTable,durable.same,durable.layout]
      exact MemTable.bare_create ..
    · rw [answer_cons,idle]
      exact layer_create ..
  have reset : Durable dim [] rt.walReset := by
    refine ⟨durable.same,durable.layout,cipher.trans durable.unencrypted,emptied,created,?_,?_,?_⟩
    · intro m member
      cases member
    · exact fun id => (reads id).trans (silent _ id).2.symm
    · exact fun id _ => both id
  cases job with
  | between | inside | full | ended | committing => exact ⟨rs,durable⟩
  | installing =>
    exact ⟨rs,durable.same,durable.layout,durable.unencrypted,durable.log,durable.mirrors,durable.bare,durable.published,listed⟩
  | resetting =>
    refine ⟨rs,durable.same,durable.layout,durable.unencrypted,durable.log,durable.mirrors,durable.bare,?_,?_⟩
    · intro id
      refine (durable.published id).trans ?_
      rw [answer_append,answer_append]
      have twice : answer (rt.installed.segments.map Segment.layer) id =
          (answer rt.tables.reverse id).or (answer (rt.segments.map Segment.layer) id) := by
        rw [← written,← answer_append,← map_append]
        rfl
      rw [twice]
      change _ = (answer rt.tables.reverse id).or _
      cases answer rt.tables.reverse id <;> rfl
    · exact fun id _ => both id
  | publishing => exact ⟨[],reset⟩
  | done =>
    refine ⟨[],reset.same,reset.layout,reset.unencrypted,reset.log,reset.mirrors,reset.bare,?_,reset.listed⟩
    intro id
    rw [tables_reverse]
    rfl

lemma freeze (single : rt.rotateMemTable.frozen_mem.length ≤ 1) (clock : List UInt64) :
    ∃ more, Durable dim more (rt.freeze clock).1 := by
  have rotated := durable.rotateMemTable
  have idle : ∀ id, rt.rotateMemTable.mem.layer id = none := fun id => (rt.rotate_answer id).1
  rcases freeze_spec rotated.freezable clock with ⟨_,same⟩ | ⟨_,same⟩ | ⟨left,cut,st,running,same,_⟩
  · rw [same]
    exact ⟨rs,rotated⟩
  · rw [same]
    exact rotated.job single idle (Job.done : Job rt.rotateMemTable _ _ _)
  · rw [same]
    exact rotated.job single idle running

lemma restart : ∃ next, rt.restart = .ok next ∧ Durable dim rs next ∧ next.ttl_sec = rt.ttl_sec ∧
    ∀ id, next.lookup id = rt.lookup id := by
  obtain ⟨status,log,cipher⟩ := durable.log.reopen
  have bare := durable.mirrors.bare
  rw [replayed,newMemTable,durable.same,durable.layout] at bare
  obtain ⟨next,started,after,ttl,reads⟩ := openLocked_durable rt.ttl_sec rt.manifest status log
    (cipher.trans durable.unencrypted) bare
  rw [← durable.same,← durable.layout] at started
  refine ⟨next,started,after,ttl,fun id => ?_⟩
  have mirrored := durable.mirrors.layer id
  rw [replayed,newMemTable,durable.same,durable.layout] at mirrored
  rw [lookup,lookupById_eq,lookup,lookupById_eq,durable.published,answer_append,reads,mirrored,tables_reverse]
  cases held : answer (rt.mem.layer :: rt.frozen_mem.reverse.map MemTable.layer) id with
  | some value => rfl
  | none =>
    rw [none_or,none_or,durable.listed id (by rw [tables_reverse]; exact held)]

end Durable

/-- The states of runs on an unencrypted log: puts without metadata, batches,
deletes, freezes of at most one table each, complete or cancelled, and restarts. The
id that marks empty slots is not used. -/
inductive Steady (platform : Platform) (dim ttl_sec : UInt32) : VectorRuntime → Prop
  | opened {wal : Wal} {rt : VectorRuntime} (empty : wal.dir = []) (unencrypted : wal.cipher = none)
      (started : openLocked platform dim false ttl_sec wal [] = .ok rt) : Steady platform dim ttl_sec rt
  | put {rt : VectorRuntime} (before : Steady platform dim ttl_sec rt) (id : VectorId) (real : id ≠ kEmpty)
      (vec : Vec) : Steady platform dim ttl_sec (rt.put [] id vec {}).1
  | putBatch {rt : VectorRuntime} (before : Steady platform dim ttl_sec rt) (ids : List VectorId)
      (real : ∀ id ∈ ids, id ≠ kEmpty) (vectors : List Vec) :
      Steady platform dim ttl_sec (rt.putBatch [] ids vectors).1
  | delete {rt : VectorRuntime} (before : Steady platform dim ttl_sec rt) (id : VectorId) (real : id ≠ kEmpty) :
      Steady platform dim ttl_sec (rt.delete [] id).1
  | freeze {rt : VectorRuntime} (before : Steady platform dim ttl_sec rt)
      (single : rt.rotateMemTable.frozen_mem.length ≤ 1) (clock : List UInt64) :
      Steady platform dim ttl_sec (rt.freeze clock).1
  | restart {rt next : VectorRuntime} (before : Steady platform dim ttl_sec rt) (started : rt.restart = .ok next) :
      Steady platform dim ttl_sec next

lemma Steady.durable {platform : Platform} {dim ttl_sec : UInt32} {rt : VectorRuntime}
    (short : 25 + 4 * dim.toNat < 2 ^ 32) (steady : Steady platform dim ttl_sec rt) : ∃ rs, Durable dim rs rt := by
  induction steady with
  | opened empty unencrypted started =>
    obtain ⟨status,log,cipher⟩ := Clean.begin (by rw [empty]; intro file member; cases member) dim
    obtain ⟨next,same,after,_,_⟩ := openLocked_durable ttl_sec [] status log (cipher.trans unencrypted)
      (MemTable.bare_create platform dim)
    rw [started] at same
    cases same
    exact ⟨[],after⟩
  | put before id real vec ih => exact ih.elim fun rs durable => durable.put short real vec
  | putBatch before ids real vectors ih => exact ih.elim fun rs durable => durable.putBatch short real vectors
  | delete before id real ih => exact ih.elim fun rs durable => durable.delete real
  | freeze before single clock ih => exact ih.elim fun rs durable => durable.freeze single clock
  | restart before started ih =>
    obtain ⟨rs,durable⟩ := ih
    obtain ⟨next,same,after,_,_⟩ := durable.restart
    rw [started] at same
    cases same
    exact ⟨rs,after⟩

end VectorRuntime
end PomaiCache
