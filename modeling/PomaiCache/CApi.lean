import PomaiCache.Coalesce

/-!
Puts and reads of the C interface. A batch goes to the log and the memtable without the
metadata of its items, and leaves the metadata that the active table still has for their ids.
-/
namespace PomaiCache
open Codec Layers List

inductive CStatusCode
  | POMAI_STATUS_OK
  | POMAI_STATUS_INVALID_ARGUMENT
  | POMAI_STATUS_NOT_FOUND
  | POMAI_STATUS_ALREADY_EXISTS
  | POMAI_STATUS_IO_ERROR
  | POMAI_STATUS_CORRUPTION
  | POMAI_STATUS_RESOURCE_EXHAUSTED
  | POMAI_STATUS_DEADLINE_EXCEEDED
  | POMAI_STATUS_INTERNAL
  | POMAI_STATUS_UNIMPLEMENTED
  | POMAI_STATUS_PARTIAL_FAILURE
  deriving DecidableEq, Repr

structure CStatus where
  code : CStatusCode
  message : String
  deriving DecidableEq, Repr

def toCCode : ErrorCode → CStatusCode
  | .kOk => .POMAI_STATUS_OK
  | .kInvalidArgument => .POMAI_STATUS_INVALID_ARGUMENT
  | .kNotFound => .POMAI_STATUS_NOT_FOUND
  | .kAlreadyExists => .POMAI_STATUS_ALREADY_EXISTS
  | .kResourceExhausted => .POMAI_STATUS_RESOURCE_EXHAUSTED
  | ErrorCode.kIO => .POMAI_STATUS_IO_ERROR
  | .kPartial => .POMAI_STATUS_PARTIAL_FAILURE
  | .kAborted => .POMAI_STATUS_CORRUPTION
  | .kCorruption => .POMAI_STATUS_CORRUPTION
  | .kPermissionDenied => .POMAI_STATUS_INTERNAL
  | .kFailedPrecondition => .POMAI_STATUS_INTERNAL
  | .kUnknown => .POMAI_STATUS_INTERNAL
  | .kInternal => .POMAI_STATUS_INTERNAL

def makeStatus (code : CStatusCode) (message : String) : Option CStatus :=
  if code = .POMAI_STATUS_OK then none else some ⟨code,message⟩

def toCStatus (st : Status) : Option CStatus := if st.ok then none else makeStatus (toCCode st.code) st.message

/-- `pomai_upsert_t`. A null pointer is none, and the dimension is the length of the vector. -/
structure Upsert where
  struct_size : UInt32 := 48
  id : VectorId
  vector : Option Vec
  metadata : Option Bytes := none

def minUpsertStructSize : UInt32 := 44

variable (item : Upsert)

def Upsert.floats : Vec := item.vector.getD []

def Upsert.toMetadata : Metadata :=
  match item.metadata with
  | none => {}
  | some bytes => if bytes.isEmpty then {} else {tenant := bytes, device_id := bytes, location_id := bytes}

def validateVector (rt : VectorRuntime) (vec : Vec) : Status :=
  if vec.length ≠ rt.dim.toNat then .invalidArgument "vector_engine dim mismatch" else .Ok

variable (c : Coalescing)

/-- `pomai_put`, with the engine's `Put`. No memory pressure and no maintenance task come between. -/
def pomaiPut (outs : List Outcome) (now : Nat) (item : Upsert) : Coalescing × Option CStatus :=
  if item.floats.isEmpty then (c,makeStatus .POMAI_STATUS_INVALID_ARGUMENT "invalid put arguments")
  else if item.struct_size < minUpsertStructSize then
    (c,makeStatus .POMAI_STATUS_INVALID_ARGUMENT "upsert.struct_size is too small")
  else if (validateVector c.rt item.floats).ok then
    let done := c.put outs now item.id item.floats item.toMetadata
    (done.1,toCStatus done.2)
  else (c,toCStatus (validateVector c.rt item.floats))

def checkItems : List Upsert → Option CStatus
  | [] => none
  | item :: rest =>
    if item.struct_size < minUpsertStructSize then
      makeStatus .POMAI_STATUS_INVALID_ARGUMENT "all batch items require valid struct_size"
    else if item.floats.isEmpty then makeStatus .POMAI_STATUS_INVALID_ARGUMENT "all batch items require vector and dim"
    else checkItems rest

def pomaiPutBatch (outs : List Outcome) (items : List Upsert) : Coalescing × Option CStatus :=
  if items.isEmpty then (c,none)
  else
    match checkItems items with
    | some st => (c,some st)
    | none =>
      match items.find? fun item => !(validateVector c.rt item.floats).ok with
      | some item => (c,toCStatus (validateVector c.rt item.floats))
      | none =>
        let done := c.rt.putBatch outs (items.map Upsert.id) (items.map Upsert.floats)
        ({c with rt := done.1},toCStatus done.2)

/-- `pomai_record_t`. Empty metadata is a null pointer. -/
structure CRecord where
  id : VectorId
  dim : UInt32
  vector : Vec
  metadata : Option Bytes
  is_deleted : Bool
  deriving DecidableEq, Repr

def recordOf (id : VectorId) (vec : Vec) (tenant : Bytes) : CRecord :=
  ⟨id,UInt32.ofNat vec.length,vec,if tenant.isEmpty then none else some tenant,false⟩

def pomaiGet (now_sec : UInt64) (id : VectorId) : Except (Option CStatus) CRecord :=
  match c.rt.get now_sec id with
  | .ok (vec,md) => .ok (recordOf id vec md.tenant)
  | .error st => .error (toCStatus st)

/-- `pomai_put` on items in order, each with the outcomes of its writes and its time; none if
one fails. -/
def putEach (c : Coalescing) : List (Upsert × List Outcome × Nat) → Option Coalescing
  | [] => some c
  | call :: rest =>
    let done := pomaiPut c call.2.1 call.2.2 call.1
    if done.2 = none then putEach done.1 rest else none

/-- The part of a version that `pomai_get` looks at: the vector, the tenant and the time. -/
def shownBy (found : Found) : Vec × Bytes × UInt64 := (found.1,found.2.tenant,found.2.timestamp)

def readOf (id : VectorId) (ttl_sec : UInt32) (now_sec : UInt64) :
    Option (Option (Vec × Bytes × UInt64)) → Except (Option CStatus) CRecord
  | some (some (vec,tenant,timestamp)) =>
    if VectorRuntime.vectorMetaExpired ttl_sec now_sec {timestamp := timestamp} then
      .error (toCStatus (.notFound "vector expired"))
    else .ok (recordOf id vec tenant)
  | some none => .error (toCStatus (.notFound "tombstone"))
  | none => .error (toCStatus (.notFound "vector not found"))

lemma pomaiGet_eq (now_sec : UInt64) (id : VectorId) :
    pomaiGet c now_sec id = readOf id c.rt.ttl_sec now_sec ((c.rt.view id).map fun found => found.map shownBy) := by
  grind [pomaiGet,VectorRuntime.get_view_expiring,VectorRuntime.vectorMetaExpired,readOf,shownBy]

def realWrites {γ : Type} (value : Upsert → γ) (items : List Upsert) : List (VectorId × Option γ) :=
  (items.filter fun item => item.id ≠ kEmpty).map fun item => (item.id,some (value item))

lemma realWrites_cons {γ : Type} (value : Upsert → γ) (item : Upsert) (rest : List Upsert) :
    realWrites value (item :: rest) = (if item.id = kEmpty then [] else [(item.id,some (value item))]) ++ realWrites value rest := by
  grind [kEmpty,realWrites]

namespace MemTable
variable {m other : MemTable}

def Alike (m other : MemTable) : Prop :=
  m.getCount = other.getCount ∧ ∀ id, (m.version id).isSome = (other.version id).isSome

lemma Alike.writes {after later : MemTable} {id : VectorId} {value value' : Option Payload} {md md' : Option Metadata}
    (alike : Alike m other) (first : Writes m after id value md) (second : Writes other later id value' md') :
    Alike after later := by
  refine ⟨?_,fun x => ?_⟩
  · rw [first.getCount,second.getCount,alike.1,alike.2]
  · rw [first.version,second.version]
    split
    · rfl
    · exact alike.2 x

def storeAll (m : MemTable) (items : List Upsert) : MemTable := items.foldl (fun m item => m.storeRaw item.id item.floats) m

def Sized (m : MemTable) (items : List Upsert) : Prop := ∀ item ∈ items, item.floats.length = m.dim.toNat

lemma Sized.tail {item : Upsert} {rest : List Upsert} (sized : m.Sized (item :: rest)) (same : other.dim = m.dim) :
    other.Sized rest := fun later member => by
  rw [same]
  exact sized later (.tail _ member)

variable {items : List Upsert}

lemma storeAll_getCount (alike : Alike m other) (sized : m.Sized items) (same : other.dim = m.dim) :
    (m.storeAll items).getCount = (other.storeAll items).getCount := by
  induction items generalizing m other with
  | nil => exact alike.1
  | cons item rest ih =>
    have here : item.floats.length = m.dim.toNat := sized item (.head _)
    have first := m.storeRaw_writes item.id here
    have second := other.storeRaw_writes item.id (by rw [same]; exact here)
    exact ih (alike.writes first second) (sized.tail first.dim) (by rw [second.dim,first.dim,same])

lemma getCount_le_storeAll (sized : m.Sized items) : m.getCount ≤ (m.storeAll items).getCount := by
  induction items generalizing m with
  | nil => exact Nat.le_refl _
  | cons item rest ih =>
    have writes := m.storeRaw_writes item.id (sized item (.head _))
    have more := writes.getCount
    have later := ih (sized.tail writes.dim)
    exact Nat.le_trans (by omega) later

lemma putBatch_items (ok : (m.putBatch (items.map Upsert.id) (items.map Upsert.floats)).2.ok) :
    m.Sized items ∧ (m.putBatch (items.map Upsert.id) (items.map Upsert.floats)).1 = m.storeAll items := by
  obtain ⟨⟨_,sized⟩,done⟩ | ⟨_,st,refused,done⟩ := putBatch_cases m (items.map Upsert.id) (items.map Upsert.floats)
  · refine ⟨fun item member => sized _ (mem_map_of_mem member),?_⟩
    rw [done,zip_map',foldl_map]
    rfl
  · rw [done,refused] at ok
    cases ok

/-- What a batch leaves of an item: its vector and the metadata the table has for its id. -/
def batched (m : MemTable) (item : Upsert) : Vec × Bytes × UInt64 :=
  shownBy (item.floats,(m.metadata item.id).getD {})

lemma storeAll_overlays (sized : m.Sized items) :
    Overlays shownBy m.layer (m.storeAll items).layer (realWrites m.batched items) := by
  induction items generalizing m with
  | nil => exact .refl _ _
  | cons item rest ih =>
    have writes := m.storeRaw_writes item.id (sized item (.head _))
    have same : (m.storeRaw item.id item.floats).batched = m.batched := by
      funext later
      rw [batched,batched,writes.metadata]
      split
      · next equal => rw [equal]
      · rfl
    have later := ih (sized.tail writes.dim)
    rw [same] at later
    rw [realWrites_cons]
    exact (writes.overlays_look shownBy).trans later

lemma kept_shown (vec : Vec) (md : Metadata) :
    shownBy (vec,(if keepsMetadata md then some md else none).getD {}) = (vec,md.tenant,md.timestamp) := by
  grind [keepsMetadata,shownBy]

def single (item : Upsert) : Vec × Bytes × UInt64 := (item.floats,item.toMetadata.tenant,item.toMetadata.timestamp)

lemma putMeta_overlays (id : VectorId) (md : Metadata) (plain : m.quantize_inmem = false)
    (sized : vec.length = m.dim.toNat) : Overlays shownBy m.layer (m.putMeta id vec md).1.layer
      (if id = kEmpty then [] else [(id,some (vec,md.tenant,md.timestamp))]) := by
  have left := (m.putMeta_ok id md sized).2.overlays_look shownBy
  grind [allocate,Payload.floats,kept_shown]

end MemTable

namespace VectorRuntime
variable {rt : VectorRuntime}

def below (rt : VectorRuntime) (rotated : Bool) : List (Layer VectorId Found) :=
  let snap : VectorSnapshot := if rotated then ⟨rt.frozen_mem,rt.segments⟩ else rt.current_snapshot
  snap.frozen_memtables.reverse.map MemTable.layer ++ snap.segments.map Segment.layer

def full (m : MemTable) : Bool := decide (m.getCount ≥ kMemtableSoftLimit)

lemma rotateMemTable_full (count : full rt.mem = true) : rt.rotateMemTable = {rt with
      frozen_mem := rt.frozen_mem ++ [rt.mem]
      mem := rt.newMemTable
      current_snapshot := ⟨rt.frozen_mem ++ [rt.mem],rt.segments⟩} := by
  have some_ : rt.mem.getCount ≠ 0 := by
    have many : kMemtableSoftLimit ≤ rt.mem.getCount := of_decide_eq_true count
    rw [kMemtableSoftLimit] at many
    omega
  rw [rotateMemTable,if_neg some_]
  rfl

lemma answer_rotated (count : full rt.mem = true) (rotated : Bool) :
    answer (rt.rotateMemTable.mem.layer :: rt.rotateMemTable.below rotated) = answer (rt.mem.layer :: rt.below true) := by
  funext id
  have created : rt.newMemTable.layer id = none := layer_create ..
  rw [rotateMemTable_full count]
  cases rotated <;> simp [below,answer_cons,created]

lemma rotateWhenFull_answer (rt : VectorRuntime) : rt.rotateWhenFull.view = answer (rt.mem.layer :: rt.below (full rt.mem)) := by
  by_cases count : full rt.mem = true
  · have many : rt.mem.getCount ≥ kMemtableSoftLimit := of_decide_eq_true count
    rw [rotateWhenFull,if_pos many,count,← answer_rotated count false]
    rfl
  · have few : ¬ rt.mem.getCount ≥ kMemtableSoftLimit := fun many => count (decide_eq_true many)
    rw [rotateWhenFull,if_neg few,Bool.eq_false_iff.mpr count]
    rfl

lemma rotateWhenFull_ttl (rt : VectorRuntime) : rt.rotateWhenFull.ttl_sec = rt.ttl_sec := by
  unfold rotateWhenFull rotateMemTable
  split
  · split <;> rfl
  · rfl

def stored (rt : VectorRuntime) (wal : Wal) (mem : MemTable) : VectorRuntime :=
  {rt with wal := wal, wal_epoch := rt.wal_epoch + 1, mem := mem}

end VectorRuntime

lemma toCStatus_eq_none (st : Status) : toCStatus st = none ↔ st.ok = true := by
  by_cases ok : st.ok = true
  · simp [toCStatus,ok]
  · have code : toCCode st.code ≠ .POMAI_STATUS_OK := by
      intro same
      cases held : st.code <;> simp_all [toCCode,Status.ok]
    simp [toCStatus,ok,makeStatus,code]

namespace Coalescing
variable {c : Coalescing}

lemma put_off (off : c.coalesce_window_us = 0) (outs : List Outcome) (now : Nat) (id : VectorId) (vec : Vec)
    (md : Metadata) : c.put outs now id vec md = ({c with rt := (c.rt.put outs id vec md).1},(c.rt.put outs id vec md).2) := by
  rw [Coalescing.put,VectorRuntime.put]
  split
  · rfl
  split
  · rfl
  · rw [if_neg (by simp [off])]

variable {outs : List Outcome} {item : Upsert}

lemma pomaiPut_ok (off : c.coalesce_window_us = 0) (done : (pomaiPut c outs now item).2 = none) :
    item.floats.length = c.rt.dim.toNat ∧ ∃ wal : Wal, (pomaiPut c outs now item).1 =
      {c with rt := (c.rt.stored wal (c.rt.mem.putMeta item.id item.floats {item.toMetadata with lsn := wal.seq}).1).rotateWhenFull} := by
  unfold pomaiPut at done ⊢
  split at done
  · simp [makeStatus] at done
  next some_ =>
  split at done
  · simp [makeStatus] at done
  next large =>
  split at done
  · next valid =>
    rw [if_neg some_,if_neg large,if_pos valid,put_off off]
    rw [put_off off] at done
    obtain ⟨sized,wal,same⟩ := VectorRuntime.put_ok ((toCStatus_eq_none _).mp done)
    exact ⟨sized,wal,by rw [same]; rfl⟩
  · next invalid => exact absurd ((toCStatus_eq_none _).mp done) invalid

lemma pomaiPutBatch_ok (some_ : items ≠ []) (done : (pomaiPutBatch c outs items).2 = none) :
    c.rt.mem.Sized items ∧ ∃ wal : Wal, (pomaiPutBatch c outs items).1 =
      {c with rt := (c.rt.stored wal (c.rt.mem.storeAll items)).rotateWhenFull} := by
  unfold pomaiPutBatch at done ⊢
  rw [if_neg (by simpa using some_)] at done ⊢
  split at done
  · cases done
  split at done
  · next item found =>
    grind [toCStatus_eq_none]
  · dsimp only at done ⊢
    rcases VectorRuntime.putBatch_ok ((toCStatus_eq_none _).mp done) with ⟨empty,_⟩ | ⟨stored,wal,same⟩
    · exact absurd (by simpa using empty) some_
    · obtain ⟨sized,batched⟩ := MemTable.putBatch_items stored
      refine ⟨sized,wal,?_⟩
      rw [same,batched]
      rfl

lemma pomaiPut_step (off : c.coalesce_window_us = 0) (shaped : c.rt.Shaped) (plain : c.rt.quantize_inmem = false)
    (done : (pomaiPut c outs now item).2 = none) :
    item.floats.length = c.rt.mem.dim.toNat ∧ (pomaiPut c outs now item).1.coalesce_window_us = 0 ∧
      VectorRuntime.SameConfig c.rt (pomaiPut c outs now item).1.rt ∧ (pomaiPut c outs now item).1.rt.Shaped ∧
      ∃ wal mem value md, MemTable.Writes c.rt.mem mem item.id value md ∧
        (pomaiPut c outs now item).1.rt = (c.rt.stored wal mem).rotateWhenFull ∧
        Overlays shownBy c.rt.mem.layer mem.layer (realWrites MemTable.single [item]) := by
  obtain ⟨sized,wal,same⟩ := pomaiPut_ok off done
  have dims : c.rt.mem.dim = c.rt.dim := shaped.dim
  rw [← dims] at sized
  have writes := (c.rt.mem.putMeta_ok item.id {item.toMetadata with lsn := wal.seq} sized).2
  have wrote : VectorRuntime.Written c.rt (pomaiPut c outs now item).1.rt := by
    rw [same]
    exact .rotated wal _ writes.sameShape
  obtain ⟨config,turned⟩ := wrote.config shaped
  refine ⟨sized,by rw [same]; exact off,config,turned,wal,_,_,_,writes,by rw [same],?_⟩
  have left := MemTable.putMeta_overlays item.id {item.toMetadata with lsn := wal.seq} (shaped.quantize_inmem.trans plain) sized
  rw [realWrites_cons]
  simpa [realWrites,MemTable.single] using left

lemma rotateWhenFull_below {rt : VectorRuntime} {wal : Wal} {mem : MemTable} {rest : List Upsert}
    {value : Option Payload} {md : Option Metadata} (writes : MemTable.Writes rt.mem mem item.id value md)
    (sized : rt.mem.Sized (item :: rest)) :
    answer ((rt.stored wal mem).rotateWhenFull.mem.layer :: (rt.stored wal mem).rotateWhenFull.below
        (VectorRuntime.full ((rt.stored wal mem).rotateWhenFull.mem.storeAll rest))) =
      answer (mem.layer :: rt.below (VectorRuntime.full (rt.mem.storeAll (item :: rest)))) := by
  have first := rt.mem.storeRaw_writes item.id (sized item (.head _))
  have alike : MemTable.Alike (rt.mem.storeRaw item.id item.floats) mem :=
    MemTable.Alike.writes ⟨rfl,fun _ => rfl⟩ first writes
  have tail := sized.tail first.dim
  have whole : (rt.mem.storeAll (item :: rest)).getCount = (mem.storeAll rest).getCount :=
    MemTable.storeAll_getCount alike tail (by rw [writes.dim,first.dim])
  by_cases count : VectorRuntime.full mem = true
  · have many : mem.getCount ≥ kMemtableSoftLimit := of_decide_eq_true count
    have grown := MemTable.getCount_le_storeAll (m := mem) (sized.tail writes.dim)
    have more : VectorRuntime.full (rt.mem.storeAll (item :: rest)) = true := decide_eq_true (by omega)
    rw [VectorRuntime.rotateWhenFull,if_pos (show (rt.stored wal mem).mem.getCount ≥ _ from many),more]
    exact VectorRuntime.answer_rotated count _
  · have few : ¬ (rt.stored wal mem).mem.getCount ≥ kMemtableSoftLimit := fun many => count (decide_eq_true many)
    have same : VectorRuntime.full (mem.storeAll rest) = VectorRuntime.full (rt.mem.storeAll (item :: rest)) := by
      rw [VectorRuntime.full,VectorRuntime.full,whole]
    rw [VectorRuntime.rotateWhenFull,if_neg few,← same]
    rfl

lemma putEach_overlays (off : c.coalesce_window_us = 0) (shaped : c.rt.Shaped) (plain : c.rt.quantize_inmem = false)
    {call : Upsert × List Outcome × Nat} {calls : List (Upsert × List Outcome × Nat)} {final : Coalescing}
    (done : putEach c (call :: calls) = some final) (sized : c.rt.mem.Sized ((call :: calls).map Prod.fst)) :
    final.rt.ttl_sec = c.rt.ttl_sec ∧
      Overlays shownBy (answer (c.rt.mem.layer :: c.rt.below (VectorRuntime.full (c.rt.mem.storeAll ((call :: calls).map Prod.fst)))))
        final.rt.view (realWrites MemTable.single ((call :: calls).map Prod.fst)) := by
  induction calls generalizing c call with
  | nil =>
    rw [putEach] at done
    split at done
    · next ok =>
      obtain ⟨_,_,config,_,wal,mem,value,md,writes,same,left⟩ := pomaiPut_step off shaped plain ok
      obtain rfl := Option.some.inj done
      refine ⟨config.ttl_sec,?_⟩
      have first := c.rt.mem.storeRaw_writes call.1.id (sized call.1 (.head _))
      have alike : MemTable.Alike (c.rt.mem.storeAll [call.1]) mem :=
        MemTable.Alike.writes ⟨rfl,fun _ => rfl⟩ first writes
      have count : VectorRuntime.full (c.rt.mem.storeAll [call.1]) = VectorRuntime.full mem := by
        rw [VectorRuntime.full,VectorRuntime.full,alike.1]
      rw [same,VectorRuntime.rotateWhenFull_answer,map_cons,map_nil,count]
      exact left.answer _
    · cases done
  | cons next calls ih =>
    rw [putEach] at done
    split at done
    · next ok =>
      obtain ⟨_,window,config,turned,wal,mem,value,md,writes,same,left⟩ := pomaiPut_step off shaped plain ok
      have later : (pomaiPut c call.2.1 call.2.2 call.1).1.rt.mem.Sized ((next :: calls).map Prod.fst) := by
        refine sized.tail ?_
        rw [turned.dim,shaped.dim]
        exact config.dim
      obtain ⟨ttl,rest⟩ := ih window turned (config.quantize_inmem.trans plain) done later
      refine ⟨ttl.trans config.ttl_sec,?_⟩
      rw [same,rotateWhenFull_below writes sized] at rest
      rw [map_cons,realWrites_cons]
      have here := left.answer (c.rt.below (VectorRuntime.full (c.rt.mem.storeAll ((call :: next :: calls).map Prod.fst))))
      rw [realWrites_cons] at here
      simp only [realWrites,filter_nil,map_nil,append_nil] at here
      exact here.trans rest
    · cases done

end Coalescing

def lastItem (items : List Upsert) (id : VectorId) : Option Upsert := items.reverse.find? fun item => item.id = id

lemma lastWrite_realWrites {γ : Type} (value : Upsert → γ) (items : List Upsert) (id : VectorId) :
    lastWrite (realWrites value items) id = if id = kEmpty then none else (lastItem items id).map fun item => some (value item) := by
  have cons : ∀ item rest, lastItem (item :: rest) id = (lastItem rest id).or (if item.id = id then some item else none) := by
    grind [lastItem]
  induction items with
  | nil => simp [realWrites,lastItem]
  | cons item rest ih =>
    rw [realWrites_cons,lastWrite_append,ih,cons]
    by_cases reserved : id = kEmpty
    · by_cases here : item.id = kEmpty
      · simp [reserved,here]
      · simp [reserved,here,lastWrite_singleton]
    · by_cases here : item.id = kEmpty
      · simp [reserved,here,if_neg (show ¬ kEmpty = id from fun same => reserved same.symm)]
      · grind [lastItem,lastWrite_singleton]

lemma Upsert.toMetadata_timestamp : item.toMetadata.timestamp = 0 := by
  rw [toMetadata]
  split
  · rfl
  · split <;> rfl

lemma recordOf_inj {id : VectorId} : recordOf id vec first = recordOf id vec second ↔ first = second := by
  simp only [recordOf,CRecord.mk.injEq,true_and,and_true]
  grind

/-- The active table's metadata for the id of an item is what the item brings, and has not expired. -/
def Agreeing (rt : VectorRuntime) (now_sec : UInt64) (item : Upsert) : Prop :=
  ((rt.mem.metadata item.id).getD {}).tenant = item.toMetadata.tenant ∧
    VectorRuntime.vectorMetaExpired rt.ttl_sec now_sec ((rt.mem.metadata item.id).getD {}) = false

lemma readOf_batched_iff (rt : VectorRuntime) (now_sec : UInt64) (item : Upsert) :
    readOf item.id rt.ttl_sec now_sec (some (some (rt.mem.batched item))) =
      readOf item.id rt.ttl_sec now_sec (some (some (MemTable.single item))) ↔ Agreeing rt now_sec item := by
  have kept : VectorRuntime.vectorMetaExpired rt.ttl_sec now_sec {timestamp := 0} = false := by
    simp [VectorRuntime.vectorMetaExpired]
  have stale : VectorRuntime.vectorMetaExpired rt.ttl_sec now_sec {timestamp := ((rt.mem.metadata item.id).getD {}).timestamp} =
    VectorRuntime.vectorMetaExpired rt.ttl_sec now_sec ((rt.mem.metadata item.id).getD {}) := rfl
  simp only [MemTable.batched,MemTable.single,shownBy,readOf,item.toMetadata_timestamp,kept,stale,Agreeing]
  grind [VectorRuntime.vectorMetaExpired,recordOf_inj]

/-- A batch reads like the puts of its items exactly if, for the last item of each id, the
active table's metadata is what the item brings and has not expired. -/
theorem put_batch_same_iff (c : Coalescing) (shaped : c.rt.Shaped) (plain : c.rt.quantize_inmem = false) (outs : List Outcome)
    (calls : List (Upsert × List Outcome × Nat)) (off : calls = [] ∨ c.coalesce_window_us = 0)
    (now_sec : UInt64) (final : Coalescing) (batch : (pomaiPutBatch c outs (calls.map Prod.fst)).2 = none)
    (each : putEach c calls = some final) :
    (∀ id, pomaiGet (pomaiPutBatch c outs (calls.map Prod.fst)).1 now_sec id = pomaiGet final now_sec id) ↔
      ∀ id item, id ≠ kEmpty → lastItem (calls.map Prod.fst) id = some item → Agreeing c.rt now_sec item := by
  cases calls with
  | nil =>
    obtain rfl : c = final := Option.some.inj each
    simp [pomaiPutBatch,lastItem]
  | cons call calls =>
    obtain ⟨sized,wal,same⟩ := Coalescing.pomaiPutBatch_ok (by simp) batch
    obtain ⟨ttl,singles⟩ := Coalescing.putEach_overlays (off.resolve_left (by simp)) shaped plain each sized
    have whole := (MemTable.storeAll_overlays sized).answer
      (c.rt.below (VectorRuntime.full (c.rt.mem.storeAll ((call :: calls).map Prod.fst))))
    have config : (pomaiPutBatch c outs ((call :: calls).map Prod.fst)).1.rt.ttl_sec = c.rt.ttl_sec := by
      rw [same]
      exact VectorRuntime.rotateWhenFull_ttl _
    have batchView : (pomaiPutBatch c outs ((call :: calls).map Prod.fst)).1.rt.view =
        answer ((c.rt.mem.storeAll ((call :: calls).map Prod.fst)).layer ::
          c.rt.below (VectorRuntime.full (c.rt.mem.storeAll ((call :: calls).map Prod.fst)))) := by
      rw [same]
      exact VectorRuntime.rotateWhenFull_answer _
    refine forall_congr' fun id => ?_
    rw [pomaiGet_eq,pomaiGet_eq,config,ttl,batchView]
    have stored := whole id
    have put := singles id
    rw [lastWrite_realWrites] at stored put
    by_cases reserved : id = kEmpty
    · grind
    · rw [if_neg reserved] at stored put
      cases last : lastItem ((call :: calls).map Prod.fst) id with
      | none =>
        grind
      | some item =>
        rw [last] at stored put
        obtain rfl : item.id = id := by simpa using List.find?_some last
        grind [readOf_batched_iff]

def openedDirect : Coalescing := ⟨.openedStore,[],0,0,256⟩

def twoVersions : List (Upsert × List Outcome × Nat) :=
  [({id := 1, vector := some [7]},[],0),({id := 1, vector := some [8]},[],0)]

theorem put_batch_same_two : ∃ final, putEach openedDirect twoVersions = some final ∧
    ∀ id, pomaiGet (pomaiPutBatch openedDirect [] (twoVersions.map Prod.fst)).1 0 id = pomaiGet final 0 id := by
  obtain ⟨final,each⟩ : ∃ final, putEach openedDirect twoVersions = some final :=
    Option.isSome_iff_exists.mp (by decide +kernel)
  refine ⟨final,each,?_⟩
  refine (put_batch_same_iff openedDirect (.refl _) rfl [] twoVersions (.inr rfl) 0 final (by decide +kernel) each).mpr ?_
  intro id item _ last
  have listed : item ∈ twoVersions.map Prod.fst := mem_reverse.mp (mem_of_find?_eq_some last)
  rcases mem_pair.mp listed with rfl | rfl
  · exact ⟨rfl,rfl⟩
  · exact ⟨rfl,rfl⟩

/-- The batch forgets the metadata of its item. And where an older version in the active
table had metadata, a batch without any keeps the old one. -/
theorem put_batch_differs :
    ((putEach openedDirect [({id := 1, vector := some [7], metadata := some [97]},[],0)]).map fun c => pomaiGet c 0 1) =
      some (.ok ⟨1,1,[7],some [97],false⟩) ∧
    (pomaiPutBatch openedDirect [] [{id := 1, vector := some [7], metadata := some [97]}]).2 = none ∧
    pomaiGet (pomaiPutBatch openedDirect [] [{id := 1, vector := some [7], metadata := some [97]}]).1 0 1 =
      .ok ⟨1,1,[7],none,false⟩ ∧
    pomaiGet (pomaiPutBatch (pomaiPut openedDirect [] 0 {id := 1, vector := some [7], metadata := some [97]}).1 []
      [{id := 1, vector := some [8]}]).1 0 1 = .ok ⟨1,1,[8],some [97],false⟩ := by
  refine ⟨by decide +kernel,by decide +kernel,by decide +kernel,by decide +kernel⟩

end PomaiCache
