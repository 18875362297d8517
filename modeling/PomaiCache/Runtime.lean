import PomaiCache.Segment
import PomaiCache.WalRuns

/-!
The vector runtime: the active memtable, the frozen ones behind it, the segments
behind those, and the log that makes the memtables durable. Reads go through the
active memtable and a published snapshot of the rest, newest layer first.
-/
namespace PomaiCache
open Layers

def kMaxSegmentEntries : Nat := 20000
def kMaxFrozenMemtables : Nat := 4
def kMemtableSoftLimit : Nat := 5000

structure VectorSnapshot where
  frozen_memtables : List MemTable
  segments : List Segment

inductive LookupState
  | kNotFound
  | kTombstone
  | kFound
  deriving DecidableEq, Repr

structure LookupResult where
  state : LookupState
  vec : Vec
  md : Metadata
  deriving DecidableEq, Repr

def LookupResult.notFound : LookupResult := ⟨.kNotFound,[],{}⟩
def LookupResult.tombstone : LookupResult := ⟨.kTombstone,[],{}⟩

variable (m : MemTable)

/-- What `LookupById` asks of a memtable. -/
def MemTable.lookup (id : VectorId) : Option LookupResult :=
  if m.isTombstone id then some .tombstone
  else
    match m.get id with
    | .ok (p,md) => some ⟨.kFound,p.floats,md⟩
    | .error _ => none

def Segment.lookup (s : Segment) (id : VectorId) : Option LookupResult :=
  match s.get id with
  | .ok (vec,md) => some ⟨.kFound,vec,md⟩
  | .error st => if st.code = .kNotFound ∧ st.message = "tombstone" then some .tombstone else none

def lookupById (active : Option MemTable) (snapshot : Option VectorSnapshot) (id : VectorId) : LookupResult :=
  match active.bind fun m => m.lookup id with
  | some result => result
  | none =>
    match snapshot with
    | none => .notFound
    | some snap =>
      match snap.frozen_memtables.reverse.findSome? fun m => m.lookup id with
      | some result => result
      | none => (snap.segments.findSome? fun s => s.lookup id).getD .notFound

def MemTable.layer : Layer VectorId Found := fun id =>
  (m.version id).map fun value => value.map fun found => (found.1.floats,found.2)

def LookupResult.ofAnswer : Option (Option Found) → LookupResult
  | some (some found) => ⟨.kFound,found.1,found.2⟩
  | some none => .tombstone
  | none => .notFound

lemma MemTable.lookup_eq (id : VectorId) : m.lookup id = (m.layer id).map fun value => LookupResult.ofAnswer (some value) := by
  rw [lookup,layer,isTombstone,get,version]
  cases held : m.map.find id with
  | none => simp
  | some value => cases value <;> simp [LookupResult.ofAnswer]

lemma Segment.lookup_eq (s : Segment) (id : VectorId) :
    s.lookup id = (s.layer id).map fun value => LookupResult.ofAnswer (some value) := by
  grind [lookup,get_eq,Status.notFound,LookupResult.ofAnswer]

lemma findSome?_lookup {α : Type} {look : α → VectorId → Option LookupResult} {layer : α → Layer VectorId Found}
    (each : ∀ a id, look a id = (layer a id).map fun value => LookupResult.ofAnswer (some value))
    (items : List α) (id : VectorId) : (items.findSome? fun a => look a id) =
      (answer (items.map layer) id).map fun value => LookupResult.ofAnswer (some value) := by
  induction items with
  | nil => rfl
  | cons item items ih =>
    grind [answer_cons]

def readLayers (active : MemTable) (snap : VectorSnapshot) : List (Layer VectorId Found) :=
  active.layer :: (snap.frozen_memtables.reverse.map MemTable.layer ++ snap.segments.map Segment.layer)

lemma lookupById_eq (active : MemTable) (snap : VectorSnapshot) (id : VectorId) :
    lookupById (some active) (some snap) id = .ofAnswer (answer (readLayers active snap) id) := by
  rw [lookupById,readLayers,answer_cons,answer_append]
  simp only [Option.bind_some,findSome?_lookup MemTable.lookup_eq,findSome?_lookup Segment.lookup_eq]
  rw [MemTable.lookup_eq]
  cases active.layer id with
  | some value => rfl
  | none =>
    cases answer (snap.frozen_memtables.reverse.map MemTable.layer) id with
    | some value => rfl
    | none => cases answer (snap.segments.map Segment.layer) id <;> rfl

/-- The state of a started runtime on a vector membrane, with write coalescing off.
Segment files are written once under names that are not used again, so the
manifest's names stand for the segments they name. -/
structure VectorRuntime where
  platform : Platform
  dim : UInt32
  quantize_inmem : Bool
  ttl_sec : UInt32
  wal : Wal
  wal_epoch : Nat
  mem : MemTable
  frozen_mem : List MemTable
  segments : List Segment
  current_snapshot : VectorSnapshot
  manifest : List Segment

namespace VectorRuntime

variable (rt : VectorRuntime)

def publishSnapshot : VectorRuntime :=
  {rt with current_snapshot := ⟨rt.frozen_mem,rt.segments⟩}

def newMemTable : MemTable := MemTable.create rt.platform rt.dim rt.quantize_inmem

def rotateMemTable : VectorRuntime :=
  if rt.mem.getCount = 0 then rt
  else publishSnapshot {rt with frozen_mem := rt.frozen_mem ++ [rt.mem], mem := rt.newMemTable}

def loadSegments : VectorRuntime := publishSnapshot {rt with segments := rt.manifest}

def start : VectorRuntime :=
  loadSegments (if rt.mem.getCount > 0 then rt.rotateMemTable else rt)

def rotateWhenFull : VectorRuntime :=
  if rt.mem.getCount ≥ kMemtableSoftLimit then rt.rotateMemTable else rt

def backpressure : Bool :=
  decide (rt.frozen_mem.length ≥ kMaxFrozenMemtables) && decide (rt.mem.getCount ≥ kMemtableSoftLimit)

def put (outs : List Outcome) (id : VectorId) (vec : Vec) (md : Metadata) : VectorRuntime × Status :=
  if vec.length ≠ rt.dim.toNat then (rt,.invalidArgument "dim mismatch")
  else if rt.backpressure then (rt,.resourceExhausted "too many frozen memtables; backpressure")
  else
    let (wal,_,st) := rt.wal.appendPut outs id vec md
    let rt := {rt with wal := wal}
    if st.ok then
      let rt := {rt with wal_epoch := rt.wal_epoch + 1}
      let (mem,st) := rt.mem.putMeta id vec {md with lsn := rt.wal.seq}
      let rt := {rt with mem := mem}
      if st.ok then (rt.rotateWhenFull,.Ok) else (rt,st)
    else (rt,st)

def putBatch (rt : VectorRuntime) (outs : List Outcome) (ids : List VectorId) (vectors : List Vec) : VectorRuntime × Status :=
  if ids.length ≠ vectors.length then (rt,.invalidArgument "ids and vectors size mismatch")
  else if ids.isEmpty then (rt,.Ok)
  else if vectors.any (fun vec => vec.length ≠ rt.dim.toNat) then (rt,.invalidArgument "dim mismatch")
  else if rt.backpressure then (rt,.resourceExhausted "too many frozen memtables; backpressure")
  else
    let (wal,_,st) := rt.wal.appendBatch outs ids vectors
    let rt := {rt with wal := wal}
    if st.ok then
      let rt := {rt with wal_epoch := rt.wal_epoch + 1}
      let (mem,st) := rt.mem.putBatch ids vectors
      let rt := {rt with mem := mem}
      if st.ok then (rt.rotateWhenFull,.Ok) else (rt,st)
    else (rt,st)

def delete (rt : VectorRuntime) (outs : List Outcome) (id : VectorId) : VectorRuntime × Status :=
  let (wal,_,st) := rt.wal.appendDelete outs id
  let rt := {rt with wal := wal}
  if st.ok then
    let rt := {rt with wal_epoch := rt.wal_epoch + 1}
    let (mem,st) := rt.mem.delete id
    ({rt with mem := mem},st)
  else (rt,st)

def vectorMetaExpired (ttl_sec : UInt32) (now_sec : UInt64) (md : Metadata) : Bool :=
  decide (ttl_sec > 0) && decide (md.timestamp > 0) && decide (now_sec ≥ md.timestamp) &&
    decide (now_sec - md.timestamp ≥ ttl_sec.toUInt64)

def lookup (id : VectorId) : LookupResult :=
  lookupById (some rt.mem) (some rt.current_snapshot) id

def get (now_sec : UInt64) (id : VectorId) : Except Status Found :=
  let result := rt.lookup id
  match result.state with
  | .kTombstone => .error (.notFound "tombstone")
  | .kFound =>
    if vectorMetaExpired rt.ttl_sec now_sec result.md then .error (.notFound "vector expired")
    else .ok (result.vec,result.md)
  | .kNotFound => .error (.notFound "vector not found")

def getFromSnapshot (snap : VectorSnapshot) (now_sec : UInt64) (id : VectorId) : Except Status Found :=
  let result := lookupById none (some snap) id
  match result.state with
  | .kTombstone => .error (.notFound "tombstone")
  | .kFound =>
    if vectorMetaExpired rt.ttl_sec now_sec result.md then .error (.notFound "vector expired")
    else .ok (result.vec,result.md)
  | .kNotFound => .error (.notFound "vector not found")

def exists_ (now_sec : UInt64) (id : VectorId) : Bool :=
  let result := rt.lookup id
  if result.state ≠ .kFound then false else !vectorMetaExpired rt.ttl_sec now_sec result.md

/-- `VectorEngine::OpenLocked` on a directory with this log and this manifest: the
log is opened and replayed into a new memtable, which `Start` freezes. -/
def openLocked (platform : Platform) (dim : UInt32) (quantize_inmem : Bool) (ttl_sec : UInt32) (wal : Wal)
    (manifest : List Segment) : Except Status VectorRuntime :=
  let (wal,st) := wal.reopen
  if st.ok then
    match wal.replayInto (MemTable.create platform dim quantize_inmem) with
    | .error st => .error st
    | .ok (mem,seq) => .ok (start
        { platform := platform
          dim := dim
          quantize_inmem := quantize_inmem
          ttl_sec := ttl_sec
          wal := {wal with seq := seq}
          wal_epoch := 0
          mem := mem
          frozen_mem := []
          segments := []
          current_snapshot := ⟨[],[]⟩
          manifest := manifest })
  else .error st

def restart : Except Status VectorRuntime :=
  openLocked rt.platform rt.dim rt.quantize_inmem rt.ttl_sec rt.wal rt.manifest

def openedStore : VectorRuntime where
  platform := .plain
  dim := 1
  quantize_inmem := false
  ttl_sec := 0
  wal := ⟨[some walFileHeader],1000,0,none,0,0,16⟩
  wal_epoch := 0
  mem := .create .plain 1 false
  frozen_mem := []
  segments := []
  current_snapshot := ⟨[],[]⟩
  manifest := []

example : openLocked .plain 1 false 0 ⟨[],1000,0,none,0,0,0⟩ [] = .ok openedStore := rfl

end VectorRuntime
end PomaiCache
