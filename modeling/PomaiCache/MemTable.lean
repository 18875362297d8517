import PomaiCache.Basic
import PomaiCache.FlatHashMemMap

/-!
The in-memory write buffer. The map gives each id a pointer to the stored vector
or the null pointer, which marks a deletion; metadata stands beside the map and
only for the puts that carry some of it.
-/
namespace PomaiCache
open Codec FlatHashMemMap

/-- The single-precision operations the quantizer uses, on bit patterns. -/
structure FloatOps where
  lt : UInt32 → UInt32 → Bool
  add : UInt32 → UInt32 → UInt32
  sub : UInt32 → UInt32 → UInt32
  mul : UInt32 → UInt32 → UInt32
  div : UInt32 → UInt32 → UInt32
  ofCode : UInt8 → UInt32
  toCode : UInt32 → UInt8

/-- What the code takes from the platform: the hash of an id, the floats, and what
is read through a span whose buffer has been freed. -/
structure Platform where
  hash : VectorId → UInt64
  floats : FloatOps
  freed : Vec
  /-- The words of the arena at and behind a vector stored as floats, where it has no float. -/
  arena : Nat → UInt32

def Platform.plain : Platform where
  hash := id
  floats :=
    { lt := fun a b => a < b
      add := (· + ·)
      sub := (· - ·)
      mul := (· * ·)
      div := (· / ·)
      ofCode := UInt8.toUInt32
      toCode := UInt32.toUInt8 }
  freed := []
  arena := fun _ => 0

def float0 : UInt32 := 0x00000000
def float1 : UInt32 := 0x3F800000
def float255 : UInt32 := 0x437F0000

def kEmpty : VectorId := UInt64.ofNat (2 ^ 64 - 1)

inductive Payload
  | raw (vec : Vec)
  | sq8 (vmin inv_scale : UInt32) (codes : Bytes)
  deriving DecidableEq, Repr

namespace Payload

def dim : Payload → Nat
  | raw vec => vec.length
  | sq8 _ _ codes => codes.length

def isRaw : Payload → Bool
  | raw _ => true
  | sq8 .. => false

variable (fl : FloatOps)

def extremes (vec : Vec) : UInt32 × UInt32 :=
  vec.tail.foldl (fun found x =>
    (if fl.lt x found.1 then x else found.1,if fl.lt found.2 x then x else found.2))
    (vec.headD 0,vec.headD 0)

def quantize (vec : Vec) : Payload :=
  let vmin := (extremes fl vec).1
  let vmax := (extremes fl vec).2
  let range := fl.sub vmax vmin
  let inv_scale := if fl.lt float0 range then fl.div float255 range else float0
  sq8 vmin inv_scale (vec.map fun x =>
    let scaled := if fl.lt float0 range then fl.mul (fl.div (fl.sub x vmin) range) float255 else float0
    fl.toCode (if fl.lt scaled float0 then float0 else if fl.lt float255 scaled then float255 else scaled))

/-- The header and code bytes as a quantized cursor reads them. A vector stored
as floats is read through the same layout, in dimension 1 and 2 on into the arena. -/
def layout (arena : Nat → UInt32) (n : Nat) : Payload → UInt32 × UInt32 × Bytes
  | sq8 vmin inv_scale codes => (vmin,inv_scale,codes)
  | raw vec =>
    let word (i : Nat) := vec.getD i (arena i)
    (word 0,word 1,(List.range n).map fun i => (le 4 (word (2 + i / 4)).toNat).getD (i % 4) 0)

def decode (platform : Platform) (n : Nat) (p : Payload) : Vec :=
  let fl := platform.floats
  let (vmin,inv_scale,codes) := p.layout platform.arena n
  let scale := if fl.lt float0 inv_scale then fl.div float1 inv_scale else float0
  codes.map fun code => fl.add vmin (fl.mul (fl.ofCode code) scale)

@[simp] lemma quantize_dim (vec : Vec) : (quantize fl vec).dim = vec.length := by
  simp [quantize,dim]

lemma decode_length (platform : Platform) (n : Nat) (p : Payload) (sized : p.dim = n) : (p.decode platform n).length = n := by
  cases p with
  | raw vec => simp [decode,layout]
  | sq8 vmin inv_scale codes => simpa [decode,layout,dim] using sized

end Payload

/-- The memtable. Every stored vector has the table's dimension, and without
quantization it is stored as it came. -/
structure MemTable where
  platform : Platform
  dim : UInt32
  quantize_inmem : Bool
  map : Map VectorId (Option Payload)
  metadata : VectorId → Option Metadata
  temporal_index : List (UInt64 × VectorId)
  marked : map.sentinel = kEmpty
  stored : ∀ id p, map.find id = some (some p) → p.dim = dim.toNat ∧ (quantize_inmem = false → p.isRaw)

namespace MemTable

def create (platform : Platform) (dim : UInt32) (quantize_inmem : Bool) : MemTable where
  platform := platform
  dim := dim
  quantize_inmem := quantize_inmem
  map := Map.create platform.hash kEmpty 128 ⟨7,by decide⟩
  metadata := fun _ => none
  temporal_index := []
  marked := rfl
  stored := by simp

variable (m : MemTable)

variable (id : VectorId)

/-- `map_.Put`, for an allocation the table may hold. -/
def store (value : Option Payload)
    (fits : ∀ p, value = some p → p.dim = m.dim.toNat ∧ (m.quantize_inmem = false → p.isRaw)) : MemTable where
  platform := m.platform
  dim := m.dim
  quantize_inmem := m.quantize_inmem
  map := m.map.put id value
  metadata := m.metadata
  temporal_index := m.temporal_index
  marked := by rw [Map.put_sentinel,m.marked]
  stored := by
    intro other p held
    rw [Map.find_put] at held
    split at held
    · exact fits p (Option.some.inj held)
    · exact m.stored other p held

def setMetadata (md : Option Metadata) : MemTable :=
  {m with metadata := fun other => if other = id then md else m.metadata other}

def dropTimestamp : MemTable :=
  match m.metadata id with
  | some old => if old.timestamp > 0 then
      {m with temporal_index := m.temporal_index.erase (old.timestamp,id)} else m
  | none => m

/-- Insert into the multimap, behind the pairs with an equal timestamp. -/
def insertTimestamp (ts : UInt64) (id : VectorId) : MemTable :=
  {m with temporal_index := m.temporal_index.takeWhile (·.1 ≤ ts) ++ (ts,id) :: m.temporal_index.dropWhile (·.1 ≤ ts)}

def allocate (vec : Vec) : Payload :=
  if m.quantize_inmem && m.dim > 0 then Payload.quantize m.platform.floats vec else .raw vec

def keepsMetadata (md : Metadata) : Bool :=
  !md.tenant.isEmpty || md.src_vid != 0 || md.timestamp != 0 || !md.text.isEmpty

lemma allocate_fits {vec : Vec} (sized : vec.length = m.dim.toNat) :
    (m.allocate vec).dim = m.dim.toNat ∧ (m.quantize_inmem = false → (m.allocate vec).isRaw) := by
  unfold allocate
  split
  · exact ⟨by simpa using sized,fun off => by simp_all⟩
  · exact ⟨sized,fun _ => rfl⟩

def putMeta (vec : Vec) (md : Metadata) : MemTable × Status :=
  if sized : vec.length = m.dim.toNat then
    let m := (m.store id (some (m.allocate vec)) fun p same => by
      cases same
      exact m.allocate_fits sized).dropTimestamp id
    if keepsMetadata md then
      let m := m.setMetadata id (some md)
      (if md.timestamp > 0 then m.insertTimestamp md.timestamp id else m,.Ok)
    else (m.setMetadata id none,.Ok)
  else (m,.invalidArgument "dim mismatch")

def put (vec : Vec) : MemTable × Status := m.putMeta id vec {}

/-- The final loop of `PutBatch`: it stores the floats and nothing else. -/
def storeRaw (vec : Vec) : MemTable :=
  if sized : vec.length = m.dim.toNat then
    m.store id (some (.raw vec)) fun p same => by
      cases same
      exact ⟨sized,fun _ => rfl⟩
  else m

def putBatch (ids : List VectorId) (vectors : List Vec) : MemTable × Status :=
  if ids.length ≠ vectors.length then (m,.invalidArgument "ids and vectors size mismatch")
  else if ids.isEmpty then (m,.Ok)
  else if vectors.any (fun vec => vec.length ≠ m.dim.toNat) then (m,.invalidArgument "dim mismatch")
  else ((ids.zip vectors).foldl (fun m item => m.storeRaw item.1 item.2) m,.Ok)

def delete : MemTable × Status :=
  let m := (m.store id none fun _ same => by cases same).dropTimestamp id
  (m.setMetadata id none,.Ok)

def get : Except Status (Payload × Metadata) :=
  match m.map.find id with
  | some (some p) => .ok (p,(m.metadata id).getD {})
  | _ => .error (.notFound "vector not found")

lemma get_eq_ok_iff {m : MemTable} {id : VectorId} {p : Payload} {md : Metadata} :
    m.get id = .ok (p,md) ↔ m.map.find id = some (some p) ∧ (m.metadata id).getD {} = md := by
  unfold get
  grind

def isTombstone : Bool := m.map.find id == some none

def getCount : Nat := m.map.size

end MemTable

/-- A span of floats as the cursor hands it out: none for a deletion, a span of
the table's arena, or a span of the cursor's own decode buffer. -/
inductive View
  | null
  | arena (vec : Vec)
  | decodeBuf
  deriving DecidableEq, Repr

structure CursorEntry where
  id : VectorId
  vec : View
  is_deleted : Bool
  md : Option Metadata
  deriving DecidableEq, Repr

structure Cursor where
  mem : MemTable
  snap : List (VectorId × Option Payload)
  decode_buf : Vec

def MemTable.createCursor (m : MemTable) : Cursor := ⟨m,m.map.entries,[]⟩

def Payload.floats : Payload → Vec
  | raw vec => vec
  | sq8 vmin inv_scale _ => [vmin,inv_scale]

def Cursor.next (c : Cursor) : Option (CursorEntry × Cursor) :=
  match c.snap with
  | [] => none
  | (id,none) :: rest => some (⟨id,.null,true,none⟩,{c with snap := rest})
  | (id,some p) :: rest =>
    if c.mem.quantize_inmem then
      some (⟨id,.decodeBuf,false,c.mem.metadata id⟩,
        {c with snap := rest, decode_buf := p.decode c.mem.platform c.mem.dim.toNat})
    else some (⟨id,.arena p.floats,false,c.mem.metadata id⟩,{c with snap := rest})

/-! ### What a memtable says about an id -/

namespace MemTable

/-- The version of an id: none if the table does not hold it, a deletion, or the
stored vector with its metadata. -/
def version (m : MemTable) (id : VectorId) : Option (Option (Payload × Metadata)) :=
  (m.map.find id).map fun value => value.map fun p => (p,(m.metadata id).getD {})

def kept (md : Metadata) : Metadata := if keepsMetadata md then md else {}

@[simp] lemma version_create (platform : Platform) (dim : UInt32) (q : Bool) (id : VectorId) :
    (create platform dim q).version id = none := by
  simp [version,create]

variable (m : MemTable)

@[simp] lemma version_kEmpty : m.version kEmpty = none := by
  rw [version,← m.marked,Map.find_sentinel,Option.map_none]

variable (id : VectorId)

section Fields
variable (m : MemTable) (id : VectorId)

lemma dropTimestamp_eq : ∃ times, m.dropTimestamp id = {m with temporal_index := times} := by
  unfold dropTimestamp
  split
  · split
    · exact ⟨_,rfl⟩
    · exact ⟨m.temporal_index,rfl⟩
  · exact ⟨m.temporal_index,rfl⟩

@[simp] lemma dropTimestamp_fields : (m.dropTimestamp id).map = m.map ∧ (m.dropTimestamp id).metadata = m.metadata ∧
    (m.dropTimestamp id).dim = m.dim ∧ (m.dropTimestamp id).quantize_inmem = m.quantize_inmem ∧
    (m.dropTimestamp id).platform = m.platform := by
  obtain ⟨times,same⟩ := dropTimestamp_eq m id
  simp [same]

end Fields

/-- What one write does to the table: the id's pointer and metadata change, the
rest stays, and the shape of the table stays. -/
structure Writes (m result : MemTable) (id : VectorId) (value : Option Payload)
    (md : Option Metadata) : Prop where
  map : result.map = m.map.put id value
  metadata : ∀ other, result.metadata other = if other = id then md else m.metadata other
  dim : result.dim = m.dim
  quantize_inmem : result.quantize_inmem = m.quantize_inmem
  platform : result.platform = m.platform

lemma putMeta_ok {vec : Vec} (md : Metadata) (sized : vec.length = m.dim.toNat) : (m.putMeta id vec md).2 = .Ok ∧
      Writes m (m.putMeta id vec md).1 id (some (m.allocate vec)) (if keepsMetadata md then some md else none) := by
  simp only [putMeta,dif_pos sized]
  by_cases keeps : keepsMetadata md
  · by_cases timed : md.timestamp > 0
    · simp only [keeps,timed,if_true]
      exact ⟨trivial,by constructor <;> simp [insertTimestamp,setMetadata,store]⟩
    · simp only [keeps,timed,if_true,if_false]
      exact ⟨trivial,by constructor <;> simp [setMetadata,store]⟩
  · simp only [keeps]
    exact ⟨rfl,by constructor <;> simp [setMetadata,store]⟩

lemma putMeta_mismatch {vec : Vec} (md : Metadata) (wrong : vec.length ≠ m.dim.toNat) :
    m.putMeta id vec md = (m,.invalidArgument "dim mismatch") := by
  simp only [putMeta,dif_neg wrong]

lemma storeRaw_writes {vec : Vec} (sized : vec.length = m.dim.toNat) :
    Writes m (m.storeRaw id vec) id (some (.raw vec)) (m.metadata id) := by
  simp only [storeRaw,dif_pos sized]
  constructor <;> simp only [store]
  intro other
  split
  · next same => rw [same]
  · rfl

lemma delete_writes : (m.delete id).2 = .Ok ∧ Writes m (m.delete id).1 id none none := by
  refine ⟨rfl,?_⟩
  constructor <;> simp [delete,setMetadata,store]

structure SameShape (m result : MemTable) : Prop where
  dim : result.dim = m.dim
  quantize_inmem : result.quantize_inmem = m.quantize_inmem
  platform : result.platform = m.platform

lemma SameShape.refl : SameShape m m := ⟨rfl,rfl,rfl⟩

lemma SameShape.trans {a b c : MemTable} (first : SameShape a b) (second : SameShape b c) : SameShape a c :=
  ⟨second.dim.trans first.dim,second.quantize_inmem.trans first.quantize_inmem,second.platform.trans first.platform⟩

section Written
variable {m result : MemTable} {id : VectorId} {value : Option Payload} {md : Option Metadata}

lemma Writes.version (writes : Writes m result id value md) (other : VectorId) : result.version other = if other = id ∧ id ≠ kEmpty
      then some (value.map fun p => (p,md.getD {})) else m.version other := by
  simp only [MemTable.version,writes.map,writes.metadata,Map.find_put,m.marked]
  by_cases same : other = id
  · subst same
    by_cases real : other = kEmpty
    · simp [real,← m.marked]
    · simp [real]
  · simp [same]

lemma Writes.getCount (writes : Writes m result id value md) :
    result.getCount = m.getCount + (if (m.version id).isSome then 0 else 1) := by
  simp [MemTable.getCount,writes.map,Map.size_put,MemTable.version]

lemma Writes.sameShape (writes : Writes m result id value md) : SameShape m result :=
  ⟨writes.dim,writes.quantize_inmem,writes.platform⟩

end Written

lemma putMeta_sameShape (vec : Vec) (md : Metadata) : SameShape m (m.putMeta id vec md).1 := by
  by_cases sized : vec.length = m.dim.toNat
  · exact (putMeta_ok m id md sized).2.sameShape
  · rw [putMeta_mismatch m id md sized]
    exact .refl m

lemma storeRaw_sameShape (vec : Vec) : SameShape m (m.storeRaw id vec) := by
  by_cases sized : vec.length = m.dim.toNat
  · exact (storeRaw_writes m id sized).sameShape
  · rw [storeRaw,dif_neg sized]
    exact .refl m

lemma putBatch_cases (ids : List VectorId) (vectors : List Vec) :
    (ids.length = vectors.length ∧ ∀ vec ∈ vectors, vec.length = m.dim.toNat) ∧
      m.putBatch ids vectors = ((ids.zip vectors).foldl (fun m item => m.storeRaw item.1 item.2) m,.Ok) ∨
    ¬(ids.length = vectors.length ∧ ∀ vec ∈ vectors, vec.length = m.dim.toNat) ∧
      ∃ st : Status, st.ok = false ∧ m.putBatch ids vectors = (m,st) := by
  unfold putBatch
  by_cases paired : ids.length = vectors.length
  swap
  · exact .inr ⟨fun both => paired both.1,_,rfl,if_pos paired⟩
  rw [if_neg (not_not.mpr paired)]
  by_cases empty : ids = []
  · grind
  rw [if_neg (by simpa using empty)]
  by_cases sized : ∀ vec ∈ vectors, vec.length = m.dim.toNat
  · grind
  · exact .inr ⟨fun both => sized both.2,_,rfl,if_pos (by simpa using sized)⟩

lemma putBatch_keeps {P : MemTable → Prop} (step : ∀ (m : MemTable) id vec, P m → P (m.storeRaw id vec)) {m : MemTable} (here : P m)
    (ids : List VectorId) (vectors : List Vec) : P (m.putBatch ids vectors).1 := by
  obtain ⟨_,done⟩ | ⟨_,st,_,done⟩ := putBatch_cases m ids vectors
  · rw [done]
    exact List.foldlRecOn _ _ here fun m kept item _ => step m item.1 item.2 kept
  · rwa [done]

lemma putBatch_sameShape (ids : List VectorId) (vectors : List Vec) : SameShape m (m.putBatch ids vectors).1 :=
  putBatch_keeps (fun next id vec shape => shape.trans (next.storeRaw_sameShape id vec)) (.refl m) ids vectors

lemma delete_sameShape : SameShape m (m.delete id).1 :=
  (delete_writes m id).2.sameShape

lemma version_of_getCount_zero {m : MemTable} (empty : m.getCount = 0) (id : VectorId) : m.version id = none := by
  have none_ : m.map.entries = [] := by
    have bound := m.map.entries_length_le
    rw [getCount] at empty
    exact List.eq_nil_of_length_eq_zero (by omega)
  rw [version]
  cases held : m.map.find id with
  | none => rfl
  | some value =>
    have member := (m.map.mem_entries id value).mpr held
    rw [none_] at member
    cases member

end MemTable
end PomaiCache
