import PomaiCache.FreezeCrash

/-!
The embedded database: `Database` over `StorageEngine` over the vector runtime. Opening it
opens the log but never replays it, so that after a reopen reads see the segments of the
manifest only.
-/
namespace PomaiCache
open Layers Wal Option

structure EmbeddedOptions where
  dim : UInt32
  auto_freeze_on_pressure : Bool

namespace StorageEngine

/-- The runtime with its defaults over an empty memtable, and `Start` when the pod is
registered. -/
def startPod (platform : Platform) (options : EmbeddedOptions) (wal : Wal) (manifest : List Segment) : VectorRuntime :=
  VectorRuntime.start
    { platform := platform
      dim := options.dim
      quantize_inmem := false
      ttl_sec := 0
      wal := wal
      wal_epoch := 0
      mem := MemTable.create platform options.dim false
      frozen_mem := []
      segments := []
      current_snapshot := ⟨[],[]⟩
      manifest := manifest }

def openEngine (platform : Platform) (options : EmbeddedOptions) (wal : Wal) (manifest : List Segment) :
    Wal × Except Status VectorRuntime :=
  let (wal,st) := wal.reopen
  if st.ok then (wal,.ok (startPod platform options wal manifest)) else (wal,.error st)

end StorageEngine

inductive Database
  | closed (wal : Wal) (manifest : List Segment)
  | opened (auto_freeze_on_pressure : Bool) (engine : VectorRuntime)

/-- What a call to `MaybeApplyBackpressure` meets: whether the memtable is over its
threshold, and the clock of the freeze this may start. -/
structure Moment where
  pressured : Bool
  clock : List UInt64

namespace Database

def openOn (db : Database) (platform : Platform) (options : EmbeddedOptions) : Database × Status :=
  match db with
  | opened _ _ => (db,.invalidArgument "already open")
  | closed wal manifest =>
    if options.dim = 0 then (db,.invalidArgument "dimension must be greater than 0")
    else
      match StorageEngine.openEngine platform options wal manifest with
      | (_,.ok engine) => (opened options.auto_freeze_on_pressure engine,.Ok)
      | (wal,.error st) => (closed wal manifest,st)

def close (db : Database) : Database × Status :=
  match db with
  | opened _ engine => (closed engine.wal engine.manifest,.Ok)
  | closed _ _ => (db,.Ok)

def freeze (db : Database) (clock : List UInt64) : Database × Status :=
  match db with
  | opened auto engine => (opened auto (engine.freeze clock).1,(engine.freeze clock).2)
  | closed _ _ => (db,.invalidArgument "closed")

def maybeApplyBackpressure (db : Database) (moment : Moment) : Database × Status :=
  match db with
  | opened auto _ =>
    if moment.pressured then
      if auto then db.freeze moment.clock else (db,.resourceExhausted "memtable pressure")
    else (db,.Ok)
  | closed _ _ => (db,.invalidArgument "closed")

/-- `TaskScheduler::Poll`: the maintenance tasks that are due; their results are dropped. -/
def poll (db : Database) (due : List Moment) : Database :=
  due.foldl (fun db moment => (db.maybeApplyBackpressure moment).1) db

/-- `StorageEngine::Append` without metadata, and the pod's handler. -/
def append (db : Database) (id : VectorId) (vec : Vec) : Database × Status :=
  match db with
  | opened auto engine =>
    if vec.isEmpty then (db,.invalidArgument "vector put-meta invalid payload")
    else (opened auto (engine.put [] id vec {}).1,(engine.put [] id vec {}).2)
  | closed _ _ => (db,.invalidArgument "closed")

def addVector (db : Database) (moment : Moment) (due : List Moment) (id : VectorId) (vec : Vec) : Database × Status :=
  let (db,st) := db.maybeApplyBackpressure moment
  if st.ok then
    let (db,st) := db.append id vec
    (db.poll due,st)
  else (db,st)

def delete (db : Database) (due : List Moment) (id : VectorId) : Database × Status :=
  match db with
  | opened auto engine => (poll (opened auto (engine.delete [] id).1) due,(engine.delete [] id).2)
  | closed _ _ => (db,.invalidArgument "closed")

def get (db : Database) (now_sec : UInt64) (id : VectorId) : Except Status Found :=
  match db with
  | opened _ engine => engine.get now_sec id
  | closed _ _ => .error (.invalidArgument "closed")

end Database

/-! ### What a freeze leaves of the layers -/

namespace VectorRuntime

/-- The invariant of a runtime without quantization and expiry whose log is in order.
Where the tables are silent, the segments and the manifest answer alike, and so do
the segments of the snapshot where its tables are. -/
structure Settled (cipher : Option Cipher) (dim : UInt32) (rt : VectorRuntime) : Prop where
  same : rt.dim = dim
  plain : Plain rt
  encryption : rt.wal.cipher = cipher
  log : ∃ rs, Clean rt.wal dim rs
  covered : ∀ m ∈ rt.frozen_mem, m ∈ rt.current_snapshot.frozen_memtables
  listed : ∀ id, rt.mem.layer id = none → (∀ m ∈ rt.frozen_mem, m.layer id = none) →
    answer (rt.segments.map Segment.layer) id = answer (rt.manifest.map Segment.layer) id
  shown : ∀ id, rt.mem.layer id = none → (∀ m ∈ rt.current_snapshot.frozen_memtables, m.layer id = none) →
    answer (rt.current_snapshot.segments.map Segment.layer) id = answer (rt.manifest.map Segment.layer) id

lemma frozenSegments_silent (plain : Plain rt) (id : VectorId) :
    answer (rt.frozenSegments.map Segment.layer) id = none ↔ ∀ m ∈ rt.frozen_mem, m.layer id = none := by
  rw [frozenSegments,flatMap_segmentsOf_answer fun m member => (plain.frozen_mem m member).2,answer_eq_none]
  simp

namespace Settled
variable {cipher : Option Cipher} {dim : UInt32} {rt : VectorRuntime} (settled : Settled cipher dim rt)
include settled

lemma rotateMemTable : Settled cipher dim rt.rotateMemTable := by
  have plain := settled.plain.rotateMemTable
  unfold VectorRuntime.rotateMemTable at plain ⊢
  by_cases empty : rt.mem.getCount = 0
  · rw [if_pos empty]
    exact settled
  rw [if_neg empty] at plain ⊢
  have silent : ∀ id, (∀ m ∈ rt.frozen_mem ++ [rt.mem], m.layer id = none) →
      answer (rt.segments.map Segment.layer) id = answer (rt.manifest.map Segment.layer) id := by
    intro id nothing
    exact settled.listed id (nothing _ (by simp)) fun m member => nothing m (List.mem_append_left _ member)
  exact ⟨settled.same,plain,settled.encryption,settled.log,fun m member => member,
    fun id _ nothing => silent id nothing,fun id _ nothing => silent id nothing⟩

lemma rotateWhenFull : Settled cipher dim rt.rotateWhenFull := by
  unfold VectorRuntime.rotateWhenFull
  split
  · exact settled.rotateMemTable
  · exact settled

lemma stored {c : Call} (replayable : c.Replayable cipher dim) {mem : MemTable} (epoch : Nat)
    (shape : MemTable.SameShape rt.mem mem) (grows : ∀ id, mem.layer id = none → rt.mem.layer id = none) :
    Settled cipher dim {rt with wal := (rt.wal.call [] c).1, wal_epoch := epoch, mem := mem} := by
  obtain ⟨rs,clean⟩ := settled.log
  obtain ⟨_,log,kept⟩ := clean.call (c := c) (by rw [settled.encryption]; exact replayable)
  have plain := settled.plain
  refine ⟨settled.same,⟨plain.ttl,plain.layout,?_,plain.frozen_mem⟩,kept.trans settled.encryption,⟨_,log⟩,settled.covered,?_,?_⟩
  · exact ⟨shape.dim.trans plain.mem.1,shape.quantize_inmem.trans plain.mem.2⟩
  · exact fun id silent => settled.listed id (grows id silent)
  · exact fun id silent => settled.shown id (grows id silent)

lemma put (short : 25 + overhead cipher + 4 * dim.toNat < 2 ^ 32) (id : VectorId) (vec : Vec) :
    Settled cipher dim (rt.put [] id vec {}).1 := by
  unfold VectorRuntime.put
  by_cases wrong : vec.length ≠ rt.dim.toNat
  · rw [if_pos wrong]
    exact settled
  rw [if_neg wrong]
  by_cases full : rt.backpressure
  · rw [if_pos full]
    exact settled
  rw [if_neg full]
  have sized : vec.length = dim.toNat := by rw [← settled.same]; exact not_not.mp wrong
  have replayable : (Call.put id vec {}).Replayable cipher dim :=
    ⟨sized,carried_empty,by decide,by simp [Framed,putRecord,Record.payload,sized]; omega⟩
  obtain ⟨rs,clean⟩ := settled.log
  obtain ⟨status,_,_⟩ := clean.call (c := .put id vec {}) (by rw [settled.encryption]; exact replayable)
  have fits : vec.length = rt.mem.dim.toNat := by rw [settled.plain.mem.1]; exact not_not.mp wrong
  obtain ⟨done,writes⟩ := rt.mem.putMeta_ok id {lsn := (rt.wal.appendPut [] id vec {}).1.seq} fits
  have after := settled.stored replayable (rt.wal_epoch + 1) writes.sameShape writes.grows
  simp only [call] at status
  simp only [status,Status.ok_Ok,if_true,done]
  exact after.rotateWhenFull

lemma delete (id : VectorId) : Settled cipher dim (rt.delete [] id).1 := by
  unfold VectorRuntime.delete
  have replayable : (Call.del id).Replayable cipher dim := trivial
  obtain ⟨rs,clean⟩ := settled.log
  obtain ⟨status,_,_⟩ := clean.call (c := .del id) (by rw [settled.encryption]; exact replayable)
  obtain ⟨done,writes⟩ := rt.mem.delete_writes id
  have after := settled.stored replayable (rt.wal_epoch + 1) writes.sameShape writes.grows
  simp only [call] at status
  simp only [status,Status.ok_Ok,if_true]
  exact after

lemma job (job : Job rt left cut st) : Settled cipher dim cut := by
  have plain := settled.plain
  have silent := frozenSegments_silent plain
  -- the manifest with the new segments in front of it
  have shown : ∀ id, rt.mem.layer id = none → (∀ m ∈ rt.current_snapshot.frozen_memtables, m.layer id = none) →
      answer (rt.current_snapshot.segments.map Segment.layer) id =
        answer ((rt.frozenSegments ++ rt.manifest).map Segment.layer) id := by
    intro id idle nothing
    rw [List.map_append,answer_append,(silent id).mpr fun m member => nothing m (settled.covered m member),none_or]
    exact settled.shown id idle nothing
  -- with the new segments in front of both, the two lists answer alike
  have both : ∀ id, rt.mem.layer id = none → answer ((rt.frozenSegments ++ rt.segments).map Segment.layer) id =
        answer ((rt.frozenSegments ++ rt.manifest).map Segment.layer) id := by
    intro id idle
    rw [List.map_append,List.map_append,answer_append,answer_append]
    cases held : answer (rt.frozenSegments.map Segment.layer) id with
    | some value => rfl
    | none =>
      rw [none_or,none_or]
      exact settled.listed id idle ((silent id).mp held)
  have next := plain.job job
  have wiped : ∃ rs, Clean rt.wal.reset.1 dim rs := settled.log.elim fun _ clean => ⟨[],clean.reset.1⟩
  have kept : rt.wal.reset.1.cipher = cipher :=
    settled.log.elim fun _ clean => clean.reset.2.trans settled.encryption
  cases job with
  | between | inside | full | ended | committing => exact settled
  | installing =>
    refine ⟨settled.same,next,settled.encryption,settled.log,settled.covered,?_,shown⟩
    grind [committed,answer_append]
  | resetting =>
    exact ⟨settled.same,next,settled.encryption,settled.log,settled.covered,fun id idle _ => both id idle,shown⟩
  | publishing =>
    exact ⟨settled.same,next,kept,wiped,by simp [walReset],fun id idle _ => both id idle,shown⟩
  | done =>
    exact ⟨settled.same,next,kept,wiped,fun m member => member,fun id idle _ => both id idle,fun id idle _ => both id idle⟩

lemma freeze (clock : List UInt64) : Settled cipher dim (rt.freeze clock).1 := by
  have rotated := settled.rotateMemTable
  rcases freeze_spec rotated.plain.freezable clock with ⟨_,same⟩ | ⟨_,same⟩ | ⟨left,cut,st,running,same,_⟩
  · rw [same]
    exact rotated
  · rw [same]
    exact rotated.job (Job.done : Job rt.rotateMemTable _ _ _)
  · rw [same]
    exact rotated.job running

omit settled in
lemma startPod (platform : Platform) {options : EmbeddedOptions} {wal : Wal} {rs : List Record}
    (log : Clean wal options.dim rs) (manifest : List Segment) :
    Settled wal.cipher options.dim (StorageEngine.startPod platform options wal manifest) := by
  refine ⟨rfl,⟨rfl,rfl,⟨rfl,rfl⟩,?_⟩,rfl,⟨rs,log⟩,fun m member => member,fun _ _ _ => rfl,fun _ _ _ => rfl⟩
  intro m member
  cases member

end Settled

def Flushed (rt : VectorRuntime) : Prop :=
  ∀ id value, answer (rt.mem.layer :: rt.current_snapshot.frozen_memtables.reverse.map MemTable.layer) id = some value →
    value = seen (rt.manifest.map Segment.layer) id

lemma Settled.flushed_iff {cipher : Option Cipher} {dim : UInt32} {rt : VectorRuntime} (settled : Settled cipher dim rt) :
    (∀ id, seen (rt.manifest.map Segment.layer) id = seen (readLayers rt.mem rt.current_snapshot) id) ↔ rt.Flushed := by
  have split_ : ∀ id, answer (readLayers rt.mem rt.current_snapshot) id =
      (answer (rt.mem.layer :: rt.current_snapshot.frozen_memtables.reverse.map MemTable.layer) id).or
        (answer (rt.current_snapshot.segments.map Segment.layer) id) := by
    intro id
    rw [readLayers,← List.cons_append,answer_append]
  constructor
  · intro alike id value held
    rw [alike,seen,split_,held]
    rfl
  · intro flushed id
    rw [seen.eq_def (readLayers _ _),split_]
    cases held : answer (rt.mem.layer :: rt.current_snapshot.frozen_memtables.reverse.map MemTable.layer) id with
    | some value =>
      rw [← flushed id value held]
      rfl
    | none =>
      have silent := answer_eq_none.mp held
      rw [none_or,settled.shown id (silent _ (.head _)),seen]
      simp_all

end VectorRuntime

namespace Database

/-- The states of a database that was first opened on an empty directory. -/
inductive Reachable (platform : Platform) (options : EmbeddedOptions) (cipher : Option Cipher) : Database → Prop
  | fresh {wal : Wal} (empty : wal.dir = []) (encryption : wal.cipher = cipher) : Reachable platform options cipher (closed wal [])
  | openOn {db : Database} (before : Reachable platform options cipher db) :
      Reachable platform options cipher (db.openOn platform options).1
  | close {db : Database} (before : Reachable platform options cipher db) : Reachable platform options cipher db.close.1
  | addVector {db : Database} (before : Reachable platform options cipher db) (moment : Moment) (due : List Moment)
      (id : VectorId) (vec : Vec) : Reachable platform options cipher (db.addVector moment due id vec).1
  | delete {db : Database} (before : Reachable platform options cipher db) (due : List Moment) (id : VectorId) :
      Reachable platform options cipher (db.delete due id).1
  | freeze {db : Database} (before : Reachable platform options cipher db) (clock : List UInt64) :
      Reachable platform options cipher (db.freeze clock).1

def Sound (options : EmbeddedOptions) (cipher : Option Cipher) : Database → Prop
  | closed wal _ => wal.reopen.2 = .Ok ∧ wal.reopen.1.cipher = cipher ∧ ∃ rs, Clean wal.reopen.1 options.dim rs
  | opened _ engine => options.dim ≠ 0 ∧ engine.Settled cipher options.dim

variable {platform : Platform} {options : EmbeddedOptions} {cipher : Option Cipher} {db : Database}

lemma openEngine_ok (status : wal.reopen.2 = .Ok) (manifest : List Segment) :
    StorageEngine.openEngine platform options wal manifest =
      (wal.reopen.1,.ok (StorageEngine.startPod platform options wal.reopen.1 manifest)) := by
  simp [StorageEngine.openEngine,status]

lemma Sound.openOn (sound : db.Sound options cipher) : (db.openOn platform options).1.Sound options cipher := by
  cases db with
  | opened auto engine => exact sound
  | closed wal manifest =>
    rw [Database.openOn]
    by_cases zero : options.dim = 0
    · rw [if_pos zero]
      exact sound
    · obtain ⟨status,same,rs,log⟩ := sound
      rw [if_neg zero,openEngine_ok status]
      rw [← same]
      exact ⟨zero,.startPod platform log manifest⟩

lemma Sound.close (sound : db.Sound options cipher) : db.close.1.Sound options cipher := by
  cases db with
  | closed wal manifest => exact sound
  | opened auto engine =>
    obtain ⟨_,settled⟩ := sound
    obtain ⟨rs,log⟩ := settled.log
    obtain ⟨status,after,same⟩ := log.reopen
    exact ⟨status,same.trans settled.encryption,rs,after⟩

lemma Sound.freeze (sound : db.Sound options cipher) (clock : List UInt64) : (db.freeze clock).1.Sound options cipher := by
  cases db with
  | closed wal manifest => exact sound
  | opened auto engine => exact ⟨sound.1,sound.2.freeze clock⟩

lemma Sound.maybeApplyBackpressure (sound : db.Sound options cipher) (moment : Moment) :
    (db.maybeApplyBackpressure moment).1.Sound options cipher := by
  cases db with
  | closed wal manifest => exact sound
  | opened auto engine =>
    rw [Database.maybeApplyBackpressure]
    split
    · split
      · exact sound.freeze moment.clock
      · exact sound
    · exact sound

lemma Sound.poll (sound : db.Sound options cipher) (due : List Moment) : (db.poll due).Sound options cipher := by
  induction due generalizing db with
  | nil => exact sound
  | cons moment due ih => exact ih (sound.maybeApplyBackpressure moment)

lemma Sound.append (short : 25 + overhead cipher + 4 * options.dim.toNat < 2 ^ 32) (sound : db.Sound options cipher)
    (id : VectorId) (vec : Vec) : (db.append id vec).1.Sound options cipher := by
  cases db with
  | closed wal manifest => exact sound
  | opened auto engine =>
    rw [Database.append]
    split
    · exact sound
    · exact ⟨sound.1,sound.2.put short id vec⟩

lemma Sound.addVector (short : 25 + overhead cipher + 4 * options.dim.toNat < 2 ^ 32)
    (sound : db.Sound options cipher) (moment : Moment) (due : List Moment) (id : VectorId) (vec : Vec) :
    (db.addVector moment due id vec).1.Sound options cipher := by
  rw [Database.addVector]
  have pressed := sound.maybeApplyBackpressure moment
  dsimp only
  split
  · exact (pressed.append short id vec).poll due
  · exact pressed

lemma Sound.delete (sound : db.Sound options cipher) (due : List Moment) (id : VectorId) :
    (db.delete due id).1.Sound options cipher := by
  cases db with
  | closed wal manifest => exact sound
  | opened auto engine =>
    have after : (opened auto (engine.delete [] id).1).Sound options cipher := ⟨sound.1,sound.2.delete id⟩
    exact after.poll due

lemma Reachable.sound (short : 25 + overhead cipher + 4 * options.dim.toNat < 2 ^ 32)
    (reachable : Reachable platform options cipher db) : db.Sound options cipher := by
  induction reachable with
  | fresh empty encryption =>
    obtain ⟨status,log,same⟩ := Clean.begin (by rw [empty]; intro file member; cases member) options.dim
    exact ⟨status,same.trans encryption,[],log⟩
  | openOn before ih => exact ih.openOn
  | close before ih => exact ih.close
  | addVector before moment due id vec ih => exact ih.addVector short moment due id vec
  | delete before due id ih => exact ih.delete due id
  | freeze before clock ih => exact ih.freeze clock

def freezes (db : Database) (clocks : List (List UInt64)) : Database :=
  clocks.foldl (fun db clock => (db.freeze clock).1) db

lemma freezes_startPod (auto : Bool) (wal : Wal) (manifest : List Segment) (clocks : List (List UInt64)) :
    (opened auto (StorageEngine.startPod platform options wal manifest)).freezes clocks =
      opened auto (StorageEngine.startPod platform options wal manifest) := by
  induction clocks with
  | nil => rfl
  | cons clock clocks ih => exact ih

lemma startPod_seen (wal : Wal) (manifest : List Segment) (now_sec : UInt64) (id : VectorId) :
    ((StorageEngine.startPod platform options wal manifest).get now_sec id).toOption = seen (manifest.map Segment.layer) id := by
  rw [VectorRuntime.get_toOption rfl,seen,readLayers,answer_cons]
  change (((MemTable.create platform options.dim false).layer id).or _).join = _
  rw [VectorRuntime.layer_create]
  rfl

/-- Closing the database and opening it again succeeds. It keeps every read, through
any later freezes, exactly when all that reads took from the memtables was in the
segments already. -/
theorem reopen_keeps_reads_iff (platform : Platform) (options : EmbeddedOptions) (cipher : Option Cipher)
    (short : 25 + overhead cipher + 4 * options.dim.toNat < 2 ^ 32) (auto : Bool) (engine : VectorRuntime)
    (reachable : Reachable platform options cipher (opened auto engine)) :
    ∃ next, (opened auto engine).close.1.openOn platform options = (next,.Ok) ∧
      ((∀ clocks now_sec id, ((next.freezes clocks).get now_sec id).toOption =
        ((opened auto engine).get now_sec id).toOption) ↔ engine.Flushed) := by
  obtain ⟨positive,settled⟩ := reachable.sound short
  obtain ⟨status,_⟩ := (reachable.sound short).close
  refine ⟨opened options.auto_freeze_on_pressure
    (StorageEngine.startPod platform options engine.wal.reopen.1 engine.manifest),?_,?_⟩
  · rw [close,openOn,if_neg positive,openEngine_ok status]
  · rw [← settled.flushed_iff]
    simp [freezes_startPod,get,startPod_seen,VectorRuntime.get_toOption settled.plain.ttl]

theorem reopen_keeps_reads_frozen : ∃ engine, Reachable .plain ⟨1,true⟩ none (opened true engine) ∧
    (engine.get 0 1).toOption.map Prod.fst = some [7] ∧
    ∃ next, (opened true engine).close.1.openOn .plain ⟨1,true⟩ = (next,.Ok) ∧
      ∀ clocks now_sec id, ((next.freezes clocks).get now_sec id).toOption = ((opened true engine).get now_sec id).toOption := by
  let first := ((closed ⟨[],1073741824,0,none,0,0,0⟩ []).openOn .plain ⟨1,true⟩).1
  let db := ((first.addVector ⟨false,[]⟩ [] 1 [7]).1.freeze (List.replicate 30 0)).1
  have fresh : Reachable .plain ⟨1,true⟩ none (closed ⟨[],1073741824,0,none,0,0,0⟩ []) := .fresh rfl rfl
  have reachable : Reachable .plain ⟨1,true⟩ none db := (fresh.openOn.addVector ⟨false,[]⟩ [] 1 [7]).freeze _
  have facts : (match db with
      | opened true engine => some (engine.mem.getCount,engine.current_snapshot.frozen_memtables.isEmpty,
          (engine.get 0 1).toOption.map Prod.fst)
      | _ => none) = some (0,true,some [7]) := by decide +kernel
  generalize db = db at reachable facts
  cases db with
  | closed wal manifest => cases facts
  | opened auto engine =>
    cases auto with
    | false => cases facts
    | true =>
      simp only [some_inj,Prod.mk.injEq,List.isEmpty_iff] at facts
      obtain ⟨empty,alone,shown⟩ := facts
      obtain ⟨next,started,kept⟩ := reopen_keeps_reads_iff .plain ⟨1,true⟩ none (by decide) true engine reachable
      refine ⟨engine,reachable,shown,next,started,kept.mpr ?_⟩
      intro id value held
      rw [alone,answer_cons,VectorRuntime.layer_of_getCount_zero empty] at held
      cases held

/-- A vector is added, and the database is closed and opened: the vector is gone. -/
theorem reopen_loses_vector :
    let first := ((closed ⟨[],1073741824,0,none,0,0,0⟩ []).openOn .plain ⟨1,true⟩).1
    let added := first.addVector ⟨false,[]⟩ [] 1 [7]
    let next := added.1.close.1.openOn .plain ⟨1,true⟩
    added.2 = .Ok ∧ next.2 = .Ok ∧ (added.1.get 0 1).toOption = some ([7],{}) ∧
      next.1.get 0 1 = .error (.notFound "vector not found") := by
  decide +kernel

end Database
end PomaiCache
