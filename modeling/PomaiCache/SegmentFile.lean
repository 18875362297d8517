import PomaiCache.Options
import PomaiCache.Runtime

/-!
Segment files with quantized vectors. The builder writes records of one size, each with the
code of a vector; the reader finds a record by its id and hands the code to a decoder.
-/
namespace PomaiCache
open Codec Layers List Option Options

namespace Options.IndexParams

variable (params : IndexParams)

def subQuantizers : UInt32 := if params.pq_m > 0 then params.pq_m else 8

/-- The bytes the builder reserves for a vector, with the 32-bit arithmetic of the source. -/
def vecBytes (dim : UInt32) : Nat :=
  match params.quant_type with
  | .kNone => dim.toNat * 4
  | .kSq8 => dim.toNat
  | .kFp16 => (dim * 2).toNat
  | .kBit => ((dim + 7) / 8).toNat
  | .kPq8 => params.subQuantizers.toNat

def entrySize (dim : UInt32) : Nat := (8 + 4 + params.vecBytes dim + 63) / 64 * 64

end Options.IndexParams

inductive Trained
  | none
  | vector (q : VectorQuantizer)
  | product (q : ProductQuantizer)

namespace Trained

def encode (fl : FloatOps) : Trained → Vec → Bytes
  | none,vec => words vec
  | vector q,vec => q.encode fl vec
  | product q,vec => q.encode fl vec

def decode (fl : FloatOps) (dim : Nat) : Trained → Bytes → Vec
  | none,codes => readWords dim codes
  | vector q,codes => q.decode fl codes
  | product q,codes => q.decode codes

/-- The two numbers of the header that a reader restores the scalar quantizer from. -/
def range : Trained → UInt32 × UInt32
  | vector (.sq8 q) => (q.global_min,q.global_inv_scale)
  | _ => (float0,float0)

end Trained

def BuilderEntry.data (e : BuilderEntry) (buf : Vec) (dim : UInt32) : Vec :=
  (List.range dim.toNat).map fun i => (e.vec.floats buf dim).getD i float0

@[simp] lemma BuilderEntry.data_length (e : BuilderEntry) (buf : Vec) (dim : UInt32) :
    (e.data buf dim).length = dim.toNat := by simp [data]

def kFlagNone : UInt8 := 0
def kFlagTombstone : UInt8 := 1

/-- A segment file: the header, the records and the metadata of each record. -/
structure SegmentFile where
  count : UInt32
  dim : UInt32
  quant_type : QuantizationType
  quant_min : UInt32
  quant_inv_scale : UInt32
  entry_size : UInt32
  entries : Bytes
  metadata : List Metadata

namespace SegmentBuilder

def trainingData (b : SegmentBuilder) (buf : Vec) : Vec :=
  (b.entries.filter fun e => !e.is_deleted).flatMap fun e => e.data buf b.dim

/-- The part of `Finish` that trains a quantizer; `codebook` are the centroids that
the k-means of the product quantizer comes to. -/
def train (fl : FloatOps) (params : IndexParams) (codebook : Nat → Nat → Vec) (b : SegmentBuilder) (buf : Vec) :
    Except Status Trained :=
  let data := b.trainingData buf
  match params.quant_type with
  | .kNone => .ok .none
  | .kSq8 =>
    if data.isEmpty then .ok (.vector (.sq8 (.create b.dim.toNat)))
    else ((ScalarQuantizer8Bit.create b.dim.toNat).train fl data (data.length / b.dim.toNat)).map fun q => .vector (.sq8 q)
  | .kFp16 => .ok (.vector (.fp16 b.dim.toNat))
  | .kBit => .ok (.vector (.bit b.dim.toNat))
  | .kPq8 =>
    let m := params.subQuantizers
    if b.dim = 0 ∨ m = 0 ∨ b.dim % m ≠ 0 then .error (.invalidArgument "pq_m must be > 0 and divide dim")
    else if !data.isEmpty && decide (data.length / b.dim.toNat < ProductQuantizer.ksub) then
      .error (.invalidArgument "PQ training requires at least ksub=256 vectors")
    else .ok (.product ⟨b.dim.toNat,m.toNat,codebook⟩)

variable (fl : FloatOps)

/-- The bytes of the vector of a record. A deletion is stored with zeros. -/
def payload (params : IndexParams) (trained : Trained) (buf : Vec) (dim : UInt32) (e : BuilderEntry) :
    Bytes :=
  if e.is_deleted then replicate (params.vecBytes dim) 0 else trained.encode fl (e.data buf dim)

/-- A record: id, flags, three bytes of padding and the vector, in a zeroed buffer. -/
def record (params : IndexParams) (trained : Trained) (buf : Vec) (dim : UInt32) (e : BuilderEntry) :
    Bytes :=
  let bytes := le 8 e.id.toNat ++ ((if e.is_deleted then kFlagTombstone else kFlagNone) ::
    ([0,0,0] ++ payload fl params trained buf dim e))
  bytes ++ replicate (params.entrySize dim - bytes.length) 0

def sorted (b : SegmentBuilder) : List BuilderEntry := b.entries.insertionSort fun x y => x.id ≤ y.id

/-- `Finish`, with all writes to the file successful. -/
def finishFile (params : IndexParams) (codebook : Nat → Nat → Vec) (b : SegmentBuilder) (buf : Vec) : Except Status SegmentFile :=
  (b.train fl params codebook buf).map fun trained =>
    { count := UInt32.ofNat b.entries.length
      dim := b.dim
      quant_type := params.quant_type
      quant_min := trained.range.1
      quant_inv_scale := trained.range.2
      entry_size := UInt32.ofNat (params.entrySize b.dim)
      entries := b.sorted.flatMap (record fl params trained buf b.dim)
      metadata := b.sorted.map BuilderEntry.md }

end SegmentBuilder

structure SegmentReader where
  fl : FloatOps
  count : Nat
  dim : Nat
  entry_size : Nat
  quant_type : QuantizationType
  quantizer : Option VectorQuantizer
  entries : Bytes
  metadata : List Metadata

namespace SegmentReader

/-- `Open` on a file that has its full size. No quantizer is made for product codes. -/
def openFile (fl : FloatOps) (file : SegmentFile) : SegmentReader where
  fl := fl
  count := file.count.toNat
  dim := file.dim.toNat
  entry_size := file.entry_size.toNat
  quant_type := file.quant_type
  quantizer :=
    match file.quant_type with
    | .kSq8 => some (.sq8 ((ScalarQuantizer8Bit.create file.dim.toNat).loadState fl file.quant_min file.quant_inv_scale))
    | .kFp16 => some (.fp16 file.dim.toNat)
    | .kBit => some (.bit file.dim.toNat)
    | _ => none
  entries := file.entries
  metadata := file.metadata

variable (r : SegmentReader)

def getMetadata (index : Nat) : Metadata := r.metadata.getD index {}

def readId (index : Nat) : VectorId := UInt64.ofNat (leNat (slice r.entries (index * r.entry_size) 8))

/-- The result, where the vector of the record starts, and the metadata. -/
def findRaw (id : VectorId) : Segment.FindResult × Nat × Metadata :=
  match BinarySearch.search ((List.range r.count).map r.readId) id 0 (r.count - 1) with
  | none => (.kNotFound,0,{})
  | some mid =>
    if (r.entries.drop (mid * r.entry_size)).getD 8 0 &&& kFlagTombstone ≠ 0 then (.kFoundTombstone,0,r.getMetadata mid)
    else (.kFound,mid * r.entry_size + 12,r.getMetadata mid)

/-- `FindAndDecode`; nothing when it goes through the null pointer of a missing quantizer. -/
def findAndDecode (id : VectorId) : Option (Segment.FindResult × Found) :=
  match r.findRaw id with
  | (.kFound,start,md) =>
    if r.quant_type = .kNone then some (.kFound,(readWords r.dim (span r.entries start (r.dim * 4)),md))
    else
      let bytes := if r.quant_type = .kFp16 then r.dim * 2 else r.dim
      r.quantizer.map fun q => (.kFound,(q.decode r.fl (span r.entries start bytes),md))
  | (result,_,md) => some (result,([],md))

/-- `Get`: a slice of the file, by its start and its length, and the metadata. -/
def get (id : VectorId) : Except Status (Nat × Nat × Metadata) :=
  match r.findRaw id with
  | (.kFound,start,md) =>
    let bytes :=
      match r.quant_type with
      | .kSq8 => r.dim
      | .kFp16 => r.dim * 2
      | .kBit => (r.dim + 7) / 8
      | _ => r.dim * 4
    .ok (start,bytes,md)
  | (.kFoundTombstone,_,_) => .error (.notFound "tombstone")
  | (.kNotFound,_,_) => .error (.notFound "id not found in segment")

/-- The loop of `LookupById` over the segments. It takes the start of the slice of `Get`
and a length of its own; nothing when it goes through a null pointer. -/
def lookupSegments (dim : UInt32) (id : VectorId) : List SegmentReader → Option LookupResult
  | [] => some .notFound
  | r :: rest =>
    match r.get id with
    | .ok (start,_,md) =>
      if r.quant_type = .kNone then some ⟨.kFound,readWords dim.toNat (span r.entries start (dim.toNat * 4)),md⟩
      else
        let bytes := if r.quant_type = .kFp16 then dim.toNat * 2 else dim.toNat
        r.quantizer.map fun q => ⟨.kFound,q.decode r.fl (span r.entries start bytes),md⟩
    | .error st =>
      if st.code = .kNotFound ∧ st.message = "tombstone" then some .tombstone
      else lookupSegments dim id rest

/-- `LookupById` over memtables and segment files. -/
def lookupById (active : Option MemTable) (frozen_memtables : List MemTable) (segments : List SegmentReader)
    (id : VectorId) (dim : UInt32) : Option LookupResult :=
  match (active.toList ++ frozen_memtables.reverse).findSome? fun m => m.lookup id with
  | some result => some result
  | none => lookupSegments dim id segments

end SegmentReader

namespace SegmentBuilder
variable {fl : FloatOps} {params : IndexParams} {codebook : Nat → Nat → Vec} {b : SegmentBuilder} {buf : Vec}
  {trained : Trained} {file : SegmentFile}

def LiveId (b : SegmentBuilder) (id : VectorId) : Prop :=
  (∃ e ∈ b.entries, e.id = id) ∧ ∀ e ∈ b.entries, e.id = id → e.is_deleted = false

/-- The records are where 32-bit offsets reach, and so are the components of a vector. -/
structure Fits (params : IndexParams) (b : SegmentBuilder) : Prop where
  records : 128 + b.entries.length * params.entrySize b.dim < 2 ^ 32
  components : b.dim.toNat * 2 < 2 ^ 32

lemma mem_sorted {e : BuilderEntry} : e ∈ b.sorted ↔ e ∈ b.entries := (perm_insertionSort _ _).mem_iff

lemma sorted_length : b.sorted.length = b.entries.length := length_insertionSort _ _

lemma sorted_ids : (b.sorted.map BuilderEntry.id).Pairwise (· ≤ ·) := by
  have total : Std.Total fun x y : BuilderEntry => x.id ≤ y.id := ⟨fun x y => le_total x.id y.id⟩
  have trans : IsTrans BuilderEntry fun x y => x.id ≤ y.id := ⟨fun _ _ _ => le_trans⟩
  exact pairwise_map.mpr (pairwise_insertionSort _ _)

lemma record_length {e : BuilderEntry} (short : (payload fl params trained buf b.dim e).length ≤ params.vecBytes b.dim) :
    (record fl params trained buf b.dim e).length = params.entrySize b.dim := by
  grind [IndexParams.entrySize,record,length_append,length_cons,length_replicate,le_length,length_nil]

/-- A reader that sees the records of a builder. -/
structure Laid (fl : FloatOps) (params : IndexParams) (trained : Trained) (buf : Vec) (b : SegmentBuilder)
    (r : SegmentReader) : Prop where
  count : r.count = b.entries.length
  entry_size : r.entry_size = params.entrySize b.dim
  entries : r.entries = b.sorted.flatMap (record fl params trained buf b.dim)
  metadata : r.metadata = b.sorted.map BuilderEntry.md
  short : ∀ e ∈ b.entries, (payload fl params trained buf b.dim e).length ≤ params.vecBytes b.dim

lemma openFile_laid (fits : Fits params b) (nonempty : b.entries ≠ []) (ready : b.train fl params codebook buf = .ok trained)
    (built : b.finishFile fl params codebook buf = .ok file)
    (short : ∀ e ∈ b.entries, (payload fl params trained buf b.dim e).length ≤ params.vecBytes b.dim) :
    Laid fl params trained buf b (.openFile fl file) := by
  rw [finishFile,ready] at built
  cases built
  have one : 1 ≤ b.entries.length := length_pos_iff.mpr nonempty
  have sixtyfour : 64 ≤ params.entrySize b.dim := by
    rw [IndexParams.entrySize]
    omega
  have many := Nat.mul_le_mul_right (params.entrySize b.dim) one
  have each := Nat.mul_le_mul_left b.entries.length sixtyfour
  have range := fits.records
  have width : UInt32.size = 2 ^ 32 := rfl
  exact ⟨UInt32.toNat_ofNat_of_lt' (by omega),UInt32.toNat_ofNat_of_lt' (by omega),rfl,rfl,short⟩

namespace Laid
variable {r : SegmentReader} (laid : Laid fl params trained buf b r)
include laid

lemma drop_entries {i : Nat} {e : BuilderEntry} (held : b.sorted[i]? = some e) :
    ∃ rest, r.entries.drop (i * r.entry_size) = le 8 e.id.toNat ++
      ((if e.is_deleted then kFlagTombstone else kFlagNone) :: ([0,0,0] ++ (payload fl params trained buf b.dim e ++ rest))) := by
  have here := drop_records (fun e member => record_length (laid.short e (mem_sorted.mp member))) held
  simp [laid.entries,laid.entry_size,here,record,append_assoc,cons_append]

lemma readId_eq : (List.range r.count).map r.readId = b.sorted.map BuilderEntry.id := by
  apply ext_getElem?
  intro i
  rw [getElem?_map,getElem?_map]
  by_cases inside : i < b.sorted.length
  · have held := List.getElem?_eq_getElem inside
    obtain ⟨rest,here⟩ := laid.drop_entries held
    have within : i < r.count := by rw [laid.count,← sorted_length]; exact inside
    rw [held,List.getElem?_range within,map_some,map_some,SegmentReader.readId,slice,here,take_left' (le_length ..),ofNat_leNat_u64]
  · have outside : ¬ i < r.count := by rw [laid.count,← sorted_length]; exact inside
    simp [*]

lemma findRaw_sorted (id : VectorId) : match BinarySearch.search (b.sorted.map BuilderEntry.id) id 0 (b.sorted.length - 1) with
    | none => r.findRaw id = (.kNotFound,0,{})
    | some mid => ∃ e, b.sorted[mid]? = some e ∧ e.id = id ∧ if e.is_deleted then r.findRaw id = (.kFoundTombstone,0,e.md)
        else ∃ start rest, r.findRaw id = (.kFound,start,e.md) ∧
          r.entries.drop start = trained.encode fl (e.data buf b.dim) ++ rest := by
  have whole : (r.count : Int) - 1 = b.sorted.length - 1 := by rw [laid.count,sorted_length]
  cases found : BinarySearch.search (b.sorted.map BuilderEntry.id) id 0 (b.sorted.length - 1) with
  | none =>
    show r.findRaw id = _
    rw [SegmentReader.findRaw,laid.readId_eq,whole,found]
  | some mid =>
    have at_ := BinarySearch.search_sound found
    rw [getElem?_map,map_eq_some_iff] at at_
    obtain ⟨e,held,same⟩ := at_
    refine ⟨e,held,same,?_⟩
    obtain ⟨rest,here⟩ := laid.drop_entries held
    have flag : (r.entries.drop (mid * r.entry_size)).getD 8 0 = if e.is_deleted then kFlagTombstone else kFlagNone := by
      rw [here,getD_eq_getElem?_getD,List.getElem?_append_right (by simp)]
      simp
    have md : r.getMetadata mid = e.md := by
      rw [SegmentReader.getMetadata,laid.metadata,getD_eq_getElem?_getD,getElem?_map,held]
      rfl
    rw [SegmentReader.findRaw,laid.readId_eq,whole,found]
    dsimp only
    rw [flag,md]
    cases kept : e.is_deleted with
    | true => rfl
    | false =>
      refine ⟨mid * r.entry_size + 12,rest,rfl,?_⟩
      have twelve : (le 8 e.id.toNat ++ [kFlagNone,0,0,0]).length = 12 := by simp
      have split : r.entries.drop (mid * r.entry_size) =
          (le 8 e.id.toNat ++ [kFlagNone,0,0,0]) ++ (payload fl params trained buf b.dim e ++ rest) := by
        rw [here,kept]
        simp
      rw [← drop_drop,split,drop_left' twelve,payload,kept,if_neg Bool.false_ne_true]

lemma findRaw_live {id : VectorId} (live : b.LiveId id) : ∃ e ∈ b.entries, e.id = id ∧
    ∃ start rest, r.findRaw id = (.kFound,start,e.md) ∧ r.entries.drop start = trained.encode fl (e.data buf b.dim) ++ rest := by
  obtain ⟨⟨e,member,same⟩,alive⟩ := live
  have listed : id ∈ b.sorted.map BuilderEntry.id := mem_map.mpr ⟨e,mem_sorted.mpr member,same⟩
  obtain ⟨mid,found,_⟩ := BinarySearch.search_whole sorted_ids listed
  rw [length_map] at found
  have raw := laid.findRaw_sorted id
  rw [found] at raw
  obtain ⟨e,held,same,rest⟩ := raw
  have member : e ∈ b.entries := mem_sorted.mp (mem_of_getElem? held)
  grind

end Laid

def codeLength (dim : Nat) : QuantizationType → Nat
  | .kSq8 => dim
  | .kFp16 => dim * 2
  | .kBit => (dim + 7) / 8
  | _ => 0

lemma trainingData_nil (none_ : b.trainingData buf = []) (live : ∃ e ∈ b.entries, e.is_deleted = false) : b.dim.toNat = 0 := by
  obtain ⟨e,member,kept⟩ := live
  have data := flatMap_eq_nil_iff.mp none_ e (mem_filter.mpr ⟨member,by simp [kept]⟩)
  rw [← e.data_length buf b.dim,data]
  rfl

lemma train_sq8 (ready : b.train fl params codebook buf = .ok trained) (type : params.quant_type = .kSq8) :
    ∃ q : ScalarQuantizer8Bit, trained = .vector (.sq8 q) ∧ q.dim = b.dim.toNat ∧ (q.is_trained = true ∨ b.trainingData buf = []) := by
  simp only [train,type] at ready
  split at ready
  · next none_ =>
    cases ready
    exact ⟨_,rfl,rfl,.inr (isEmpty_iff.mp none_)⟩
  · cases scanned : (ScalarQuantizer8Bit.create b.dim.toNat).train fl (b.trainingData buf)
        ((b.trainingData buf).length / b.dim.toNat) with
    | error st =>
      rw [scanned] at ready
      cases ready
    | ok q =>
      rw [scanned] at ready
      cases ready
      obtain ⟨done,dim⟩ := ScalarQuantizer8Bit.train_ok scanned
      exact ⟨q,rfl,dim,.inl done⟩

lemma openFile_quantizer (ready : b.train fl params codebook buf = .ok trained)
    (built : b.finishFile fl params codebook buf = .ok file) (live : ∃ e ∈ b.entries, e.is_deleted = false)
    (coded : params.quant_type = .kSq8 ∨ params.quant_type = .kFp16 ∨ params.quant_type = .kBit) :
    ∃ q restored, trained = .vector q ∧ q.Ready ∧ q.dim = b.dim.toNat ∧ q.codeLength = codeLength b.dim.toNat params.quant_type ∧
      (SegmentReader.openFile fl file).quantizer = some restored ∧ ∀ codes, restored.decode fl codes = q.decode fl codes := by
  rw [finishFile,ready] at built
  cases built
  rcases coded with type | type | type
  · obtain ⟨q,rfl,dim,done⟩ := train_sq8 ready type
    have done : q.is_trained = true ∨ q.dim = 0 := done.imp_right fun none_ => dim.trans (trainingData_nil none_ live)
    refine ⟨_,.sq8 ((ScalarQuantizer8Bit.create q.dim).loadState fl q.global_min q.global_inv_scale),rfl,done,dim,?_,?_,
      ScalarQuantizer8Bit.loadState_decode fl done⟩
    · rw [type]
      exact dim
    · simp only [SegmentReader.openFile,type,dim]
      rfl
  · simp only [train,type] at ready
    cases ready
    refine ⟨_,.fp16 b.dim.toNat,rfl,trivial,rfl,?_,?_,fun _ => rfl⟩
    · rw [type]
      rfl
    · simp only [SegmentReader.openFile,type]
  · simp only [train,type] at ready
    cases ready
    refine ⟨_,.bit b.dim.toNat,rfl,trivial,rfl,?_,?_,fun _ => rfl⟩
    · rw [type]
      rfl
    · simp only [SegmentReader.openFile,type]

lemma vecBytes_eq (fits : Fits params b) (coded : params.quant_type = .kSq8 ∨ params.quant_type = .kFp16 ∨
    params.quant_type = .kBit ∧ b.dim.toNat ≤ 1) :
    params.vecBytes b.dim = codeLength b.dim.toNat params.quant_type := by
  have range := fits.components
  rcases coded with type | type | ⟨type,small⟩
  · simp only [IndexParams.vecBytes,type,codeLength]
  · simp only [IndexParams.vecBytes,type,codeLength,UInt32.toNat_mul]
    exact Nat.mod_eq_of_lt range
  · simp only [IndexParams.vecBytes,type,codeLength,UInt32.toNat_div,UInt32.toNat_add]
    grind

lemma finishFile_trained (built : b.finishFile fl params codebook buf = .ok file) :
    ∃ trained, b.train fl params codebook buf = .ok trained := by
  cases ready : b.train fl params codebook buf with
  | error st =>
    rw [finishFile,ready] at built
    cases built
  | ok trained => exact ⟨trained,rfl⟩

/-- What a read of an id should return: the decoded code of an entry with the id. -/
def Decoded (fl : FloatOps) (params : IndexParams) (codebook : Nat → Nat → Vec) (b : SegmentBuilder) (buf : Vec)
    (id : VectorId) (found : Found) : Prop :=
  found.1.length = b.dim.toNat ∧ ∃ trained, b.train fl params codebook buf = .ok trained ∧
    ∃ e ∈ b.entries, e.id = id ∧ found = (trained.decode fl b.dim.toNat (trained.encode fl (e.data buf b.dim)),e.md)

end SegmentBuilder

namespace SegmentReader
variable {fl : FloatOps} {params : IndexParams} {codebook : Nat → Nat → Vec} {b : SegmentBuilder} {buf : Vec}
  {file : SegmentFile}

/-- The length of the codes `FindAndDecode` and `LookupById` hand to the decoder. -/
def readBytes (dim : Nat) (type : QuantizationType) : Nat := if type = .kFp16 then dim * 2 else dim

variable {id : VectorId} {r : SegmentReader}

lemma findAndDecode_found {start : Nat} {md : Metadata} (quantized : r.quant_type ≠ .kNone)
    (found : r.findRaw id = (.kFound,start,md)) : r.findAndDecode id =
      r.quantizer.map fun q => (.kFound,(q.decode r.fl (span r.entries start (readBytes r.dim r.quant_type)),md)) := by
  rw [findAndDecode,found]
  exact if_neg quantized

lemma findRaw_of_found {found : Found} (read : r.findAndDecode id = some (.kFound,found)) :
    ∃ start md, r.findRaw id = (.kFound,start,md) := by
  rw [findAndDecode] at read
  grind

lemma lookupSegments_found {start : Nat} {md : Metadata} (quantized : r.quant_type ≠ .kNone)
    (found : r.findRaw id = (.kFound,start,md)) (dim : UInt32) (older : List SegmentReader) :
    lookupSegments dim id (r :: older) =
      r.quantizer.map fun q => ⟨.kFound,q.decode r.fl (span r.entries start (readBytes dim.toNat r.quant_type)),md⟩ := by
  rw [lookupSegments,get,found]
  exact if_neg quantized

lemma lookupSegments_skip {newer : List SegmentReader}
    (absent : ∀ r ∈ newer, (r.findRaw id).1 = .kNotFound) (dim : UInt32) (rest : List SegmentReader) :
    lookupSegments dim id (newer ++ rest) = lookupSegments dim id rest := by
  induction newer with
  | nil => rfl
  | cons r newer ih =>
    have here : r.get id = .error (.notFound "id not found in segment") := by
      have missed := absent r (.head _)
      rw [get]
      grind
    rw [cons_append,lookupSegments,here]
    exact ih fun r member => absent r (.tail _ member)

@[simp] lemma openFile_fl (fl : FloatOps) (file : SegmentFile) : (openFile fl file).fl = fl := rfl

lemma openFile_type (built : b.finishFile fl params codebook buf = .ok file) :
    (openFile fl file).quant_type = params.quant_type ∧ (openFile fl file).dim = b.dim.toNat := by
  obtain ⟨trained,ready⟩ := SegmentBuilder.finishFile_trained built
  rw [SegmentBuilder.finishFile,ready] at built
  cases built
  exact ⟨rfl,rfl⟩

lemma reads_decoded (built : b.finishFile fl params codebook buf = .ok file) (fits : b.Fits params)
    (live : b.LiveId id) (coded : params.quant_type = .kSq8 ∨ params.quant_type = .kFp16 ∨
      params.quant_type = .kBit ∧ b.dim.toNat ≤ 1) :
    ∃ found, b.Decoded fl params codebook buf id found ∧ (openFile fl file).findAndDecode id = some (.kFound,found) ∧
      ∀ older, lookupSegments b.dim id (openFile fl file :: older) = some ⟨.kFound,found.1,found.2⟩ := by
  obtain ⟨trained,ready⟩ := SegmentBuilder.finishFile_trained built
  have kept : ∃ e ∈ b.entries, e.is_deleted = false := by
    obtain ⟨e,member,same⟩ := live.1
    exact ⟨e,member,live.2 e member same⟩
  obtain ⟨q,restored,rfl,done,dim,length,restores,decodes⟩ := SegmentBuilder.openFile_quantizer ready built kept (by tauto)
  have sized : ∀ e : BuilderEntry, (q.encode fl (e.data buf b.dim)).length =
      SegmentBuilder.codeLength b.dim.toNat params.quant_type := fun e => by
    rw [VectorQuantizer.encode_length fl done (by rw [e.data_length,dim]),length]
  have laid := SegmentBuilder.openFile_laid fits (by obtain ⟨e,member,_⟩ := kept; exact ne_nil_of_mem member) ready built
    fun e _ => by
      rw [SegmentBuilder.vecBytes_eq fits coded,SegmentBuilder.payload]
      split
      · rw [length_replicate,SegmentBuilder.vecBytes_eq fits coded]
      · exact (sized e).le
  obtain ⟨e,member,same,start,rest,found,here⟩ := laid.findRaw_live live
  have type := openFile_type built
  have quantized : (openFile fl file).quant_type ≠ .kNone := by
    grind
  have bytes : SegmentBuilder.codeLength b.dim.toNat params.quant_type = readBytes b.dim.toNat params.quant_type := by
    rcases coded with is | is | ⟨is,small⟩ <;> rw [is]
    · rfl
    · rfl
    · show (b.dim.toNat + 7) / 8 = b.dim.toNat
      omega
  have code : span (openFile fl file).entries start (readBytes b.dim.toNat params.quant_type) =
      q.encode fl (e.data buf b.dim) := span_piece here ((sized e).trans bytes)
  refine ⟨(q.decode fl (q.encode fl (e.data buf b.dim)),e.md),⟨?_,_,ready,e,member,same,rfl⟩,?_,fun older => ?_⟩
  · grind [VectorQuantizer.decode_length,VectorQuantizer.encode_length]
  · rw [findAndDecode_found quantized found,restores,type.1,type.2,openFile_fl,code,map_some,decodes]
  · rw [lookupSegments_found quantized found,restores,type.1,openFile_fl,code,map_some,decodes]

/-- Where no newer layer has the id, a live id is read back decoded by both reads exactly
for scalar codes, half floats, and bits of at most one component. -/
theorem quantized_reads_iff (built : b.finishFile fl params codebook buf = .ok file) (fits : b.Fits params)
    (quantized : params.quant_type ≠ .kNone) {id : VectorId} (live : b.LiveId id)
    {active : Option MemTable} {frozen_memtables : List MemTable} {newer older : List SegmentReader}
    (unwritten : ∀ m ∈ active.toList ++ frozen_memtables.reverse, m.lookup id = none)
    (absent : ∀ r ∈ newer, (r.findRaw id).1 = .kNotFound) :
    (∃ found, b.Decoded fl params codebook buf id found ∧ (openFile fl file).findAndDecode id = some (.kFound,found) ∧
      lookupById active frozen_memtables (newer ++ openFile fl file :: older) id b.dim = some ⟨.kFound,found.1,found.2⟩) ↔
    params.quant_type = .kSq8 ∨ params.quant_type = .kFp16 ∨ params.quant_type = .kBit ∧ b.dim.toNat ≤ 1 := by
  constructor
  · rintro ⟨found,⟨sized,_⟩,read,_⟩
    obtain ⟨type,dim⟩ := openFile_type built
    obtain ⟨start,md,raw⟩ := findRaw_of_found read
    rw [findAndDecode_found (by rw [type]; exact quantized) raw,type,dim] at read
    cases is : params.quant_type with
    | kNone => exact absurd is quantized
    | kSq8 => exact .inl rfl
    | kFp16 => exact .inr (.inl rfl)
    | kBit =>
      refine .inr (.inr ⟨rfl,?_⟩)
      have restores : (openFile fl file).quantizer = some (.bit b.dim.toNat) := by
        grind [openFile]
      rw [restores,is,map_some,some_inj] at read
      by_contra large
      -- the span has one byte for each component
      have wrong : (span (openFile fl file).entries start (readBytes b.dim.toNat .kBit)).length ≠
          (VectorQuantizer.bit b.dim.toNat).codeLength := by
        rw [span_length]
        show b.dim.toNat ≠ (b.dim.toNat + 7) / 8
        omega
      rw [VectorQuantizer.decode_rejects _ wrong] at read
      grind
    | kPq8 =>
      grind [openFile,read]
  · grind [read,reads_decoded,lookupById,lookupSegments_skip]

def halfBuilder : SegmentBuilder := ⟨2,[⟨5,.arena [float1,floatMinus1],false,{}⟩,⟨3,.null,true,{}⟩]⟩

theorem quantized_reads_half : ∃ file, halfBuilder.finishFile Platform.plain.floats {quant_type := .kFp16} (fun _ _ => []) [] = .ok file ∧
    ∃ found, halfBuilder.Decoded Platform.plain.floats {quant_type := .kFp16} (fun _ _ => []) [] 5 found ∧
      (openFile Platform.plain.floats file).findAndDecode 5 = some (.kFound,found) ∧
      lookupById none [] [openFile Platform.plain.floats file] 5 2 = some ⟨.kFound,found.1,found.2⟩ := by
  have live : halfBuilder.LiveId 5 := ⟨⟨_,.head _,rfl⟩,by decide⟩
  exact ⟨_,rfl,(quantized_reads_iff (b := halfBuilder) rfl ⟨by decide,by decide⟩ (by decide) live
    (fun _ member => absurd member not_mem_nil) (fun _ member => absurd member not_mem_nil)).mpr (.inr (.inl rfl))⟩

def bitBuilder : SegmentBuilder := ⟨2,[⟨5,.arena [float1,float1],false,{}⟩]⟩

theorem quantized_read_empty : ∃ file, bitBuilder.finishFile Platform.plain.floats {quant_type := .kBit} (fun _ _ => []) [] = .ok file ∧
    bitBuilder.LiveId 5 ∧ (openFile Platform.plain.floats file).findAndDecode 5 = some (.kFound,([],{})) ∧
    lookupById none [] [openFile Platform.plain.floats file] 5 2 = some ⟨.kFound,[],{}⟩ ∧
    ¬ ∃ found, bitBuilder.Decoded Platform.plain.floats {quant_type := .kBit} (fun _ _ => []) [] 5 found ∧
      (openFile Platform.plain.floats file).findAndDecode 5 = some (.kFound,found) := by
  have facts : (bitBuilder.finishFile Platform.plain.floats {quant_type := .kBit} (fun _ _ => []) []).toOption.map (fun file =>
      ((openFile Platform.plain.floats file).findAndDecode 5,lookupById none [] [openFile Platform.plain.floats file] 5 2)) =
      some (some (.kFound,([],{})),some ⟨.kFound,[],{}⟩) := by decide +kernel
  cases built : bitBuilder.finishFile Platform.plain.floats {quant_type := .kBit} (fun _ _ => []) [] with
  | error st =>
    rw [built] at facts
    cases facts
  | ok file =>
    rw [built] at facts
    obtain ⟨read,looked⟩ := Prod.mk.inj (Option.some.inj facts)
    refine ⟨file,rfl,⟨⟨_,.head _,rfl⟩,by decide⟩,read,looked,?_⟩
    rintro ⟨found,⟨sized,_⟩,same⟩
    rw [read] at same
    cases same
    cases sized

end SegmentReader
end PomaiCache
