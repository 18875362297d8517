import PomaiCache.SegmentFile
import PomaiCache.Text

/-!
Segment files as bytes: a header of 56 bytes, zeros up to offset 128, the records, the offsets
and blobs of their metadata, the temporal index and a checksum. The reader maps the file and
finds everything through the offsets in the header.
-/
namespace PomaiCache
open Codec Text List Options

def readU32 (bytes : Bytes) (off : Nat) : UInt32 := UInt32.ofNat (leNat (slice bytes off 4))

def readU64 (bytes : Bytes) (off : Nat) : UInt64 := UInt64.ofNat (leNat (slice bytes off 8))

lemma readU32_here {bytes after : Bytes} {cursor : Nat} {x : UInt32} (here : bytes.drop cursor = le 4 x.toNat ++ after) :
    readU32 bytes cursor = x ∧ bytes.drop (cursor + 4) = after := by
  have four : (le 4 x.toNat).length = 4 := le_length 4 _
  refine ⟨?_,by rw [← drop_drop,here,drop_left' four]⟩
  rw [readU32,slice,here,take_left' four,ofNat_leNat_u32]

lemma readU64_here {bytes after : Bytes} {cursor : Nat} {x : UInt64} (here : bytes.drop cursor = le 8 x.toNat ++ after) :
    readU64 bytes cursor = x := by
  rw [readU64,slice,here,take_left' (le_length ..),ofNat_leNat_u64]

def QuantizationType.code : QuantizationType → UInt8
  | .kNone => 0
  | .kSq8 => 1
  | .kFp16 => 2
  | .kBit => 3
  | .kPq8 => 4

def kSegmentMagic : Bytes := ascii "pomai.seg.v1"

/-- `SegmentHeader` behind its magic. Of the reserved bytes only the first is ever set. -/
structure SegmentHeader where
  version : UInt32
  count : UInt32
  dim : UInt32
  metadata_offset : UInt32
  quant_type : UInt8
  reserved1 : UInt8
  quant_min : UInt32
  quant_inv_scale : UInt32
  entries_start_offset : UInt32
  entry_size : UInt32
  temporal_index_offset : UInt32
  deriving DecidableEq

namespace SegmentHeader

def size : Nat := 56

variable (h : SegmentHeader)

def bytes : Bytes :=
  kSegmentMagic ++ (le 4 h.version.toNat ++ (le 4 h.count.toNat ++ (le 4 h.dim.toNat ++ (le 4 h.metadata_offset.toNat ++
    ([h.quant_type,h.reserved1,0,0] ++ (le 4 h.quant_min.toNat ++ (le 4 h.quant_inv_scale.toNat ++
    (le 4 h.entries_start_offset.toNat ++ (le 4 h.entry_size.toNat ++ (le 4 h.temporal_index_offset.toNat ++
    le 4 0))))))))))

def read (data : Bytes) : SegmentHeader where
  version := readU32 data 12
  count := readU32 data 16
  dim := readU32 data 20
  metadata_offset := readU32 data 24
  quant_type := data.getD 28 0
  reserved1 := data.getD 29 0
  quant_min := readU32 data 32
  quant_inv_scale := readU32 data 36
  entries_start_offset := readU32 data 40
  entry_size := readU32 data 44
  temporal_index_offset := readU32 data 48

lemma bytes_length : h.bytes.length = size := by
  have magic : kSegmentMagic.length = 12 := rfl
  simp [bytes,size,magic]

lemma read_bytes (rest : Bytes) : read (h.bytes ++ rest) = h := by
  have magic : kSegmentMagic.length = 12 := by decide
  simp [read,bytes,readU32,slice_front,slice_behind,slice_cons,magic,getElem?_append]

end SegmentHeader

/-- `add_str`: the length, and the bytes where it is not zero. -/
def addStr (s : Bytes) : Bytes :=
  let len := UInt32.ofNat s.length
  le 4 len.toNat ++ if len > 0 then s else []

variable (md : Metadata)

def metadataBlob : Bytes :=
  le 8 md.src_vid.toNat ++ (le 8 md.timestamp.toNat ++ (le 8 md.lsn.toNat ++ (le 8 md.lat.toNat ++ (le 8 md.lon.toNat ++
    (addStr md.device_id ++ (addStr md.location_id ++ (addStr md.tenant ++ (addStr md.text ++ addStr md.payload))))))))

/-- Where each blob starts, and where the last one ends, from a size on. -/
def blobOffsets : Nat → List Metadata → List Nat
  | size, [] => [size]
  | size, md :: rest => size :: blobOffsets (size + (metadataBlob md).length) rest

/-- The timestamps in ascending order with the indices of their entries. Each takes 16 bytes, of
which `gap` are the four the compiler leaves free. -/
def temporalIndex (gap : Nat → Nat) (metadata : List Metadata) : Bytes :=
  ((metadata.zipIdx.map fun pair => (pair.1.timestamp,pair.2)).insertionSort fun x y => x.1 ≤ y.1).flatMap
    fun entry => le 8 entry.1.toNat ++ (le 4 entry.2 ++ le 4 (gap entry.2))

namespace SegmentBuilder

/-- The header `Finish` writes, with the offset of the temporal index filled in at the end. -/
def header (params : IndexParams) (b : SegmentBuilder) (file : SegmentFile) (temporal_index_offset : UInt32) : SegmentHeader :=
  { version := 6, count := file.count, dim := file.dim
    metadata_offset := UInt32.ofNat (128 + b.entries.length * params.entrySize b.dim)
    quant_type := file.quant_type.code
    reserved1 := if params.quant_type = .kPq8 then params.subQuantizers.toUInt8 else 0
    quant_min := file.quant_min, quant_inv_scale := file.quant_inv_scale
    entries_start_offset := 128, entry_size := file.entry_size, temporal_index_offset }

def pad : Bytes := replicate (128 - SegmentHeader.size) 0

def offsets (file : SegmentFile) : Bytes := (blobOffsets 0 file.metadata).flatMap (le 8)

def blob (file : SegmentFile) : Bytes := file.metadata.flatMap metadataBlob

/-- The bytes of the file. The checksum goes over the header as it was written first. -/
def fileBytes (gap : Nat → Nat) (params : IndexParams) (b : SegmentBuilder) (file : SegmentFile) : Bytes :=
  let first := b.header params file 0
  let final := b.header params file (UInt32.ofNat (first.metadata_offset.toNat + (offsets file).length + (blob file).length))
  let times := temporalIndex gap file.metadata
  let crc := crc32c (first.bytes ++ (pad ++ (file.entries ++ (offsets file ++ (blob file ++ times))))) 0
  final.bytes ++ (pad ++ (file.entries ++ (offsets file ++ (blob file ++ (times ++ le 4 crc.toNat)))))

def finishBytes (fl : FloatOps) (gap : Nat → Nat) (params : IndexParams) (codebook : Nat → Nat → Vec) (b : SegmentBuilder)
    (buf : Vec) : Except Status Bytes :=
  (b.finishFile fl params codebook buf).map (b.fileBytes gap params)

end SegmentBuilder

structure MappedSegment where
  fl : FloatOps
  bytes : Bytes
  count : UInt32
  dim : UInt32
  entry_size : Nat
  entries_start_offset : UInt32
  metadata_offset : UInt32
  temporal_index_offset : UInt32
  quant_type : UInt8
  quantizer : Option VectorQuantizer
  pq : Option ProductQuantizer

namespace MappedSegment

/-- The bytes of a vector, as far as `Open` and `ForEach` know them. -/
def codeBytes (quant_type : UInt8) (dim : Nat) (otherwise : Nat) : Nat :=
  if quant_type = QuantizationType.kSq8.code then dim
  else if quant_type = QuantizationType.kFp16.code then dim * 2
  else if quant_type = QuantizationType.kBit.code then (dim + 7) / 8
  else otherwise

/-- `Open` on a mapped file; `pq` is the product quantizer of the file beside it, if it can be
loaded. The checksum is not looked at. -/
def openBytes (fl : FloatOps) (pq : Option ProductQuantizer) (data : Bytes) : Except Status MappedSegment :=
  if data.length < SegmentHeader.size then .error (.corruption "file too small")
  else
    let h := SegmentHeader.read data
    if data.take 12 ≠ kSegmentMagic then .error (.corruption "bad magic")
    else if h.version < 2 ∨ h.version > 6 then .error (.corruption "unsupported version")
    else
      let quant_type := if h.version ≥ 4 then h.quant_type else QuantizationType.kNone.code
      let reader : MappedSegment :=
        { fl, bytes := data, count := h.count, dim := h.dim
          entry_size := if h.version ≥ 5 then h.entry_size.toNat else 8 + 4 + codeBytes quant_type h.dim.toNat (h.dim.toNat * 4)
          entries_start_offset := if h.version ≥ 5 then h.entries_start_offset else UInt32.ofNat SegmentHeader.size
          metadata_offset := if h.version ≥ 3 then h.metadata_offset else 0
          temporal_index_offset := if h.version ≥ 6 then h.temporal_index_offset else 0
          quant_type
          quantizer :=
            if quant_type = QuantizationType.kSq8.code then
              some (.sq8 ((ScalarQuantizer8Bit.create h.dim.toNat).loadState fl h.quant_min h.quant_inv_scale))
            else if quant_type = QuantizationType.kFp16.code then some (.fp16 h.dim.toNat)
            else if quant_type = QuantizationType.kBit.code then some (.bit h.dim.toNat)
            else none
          pq := if quant_type = QuantizationType.kPq8.code then pq else none }
      if data.length < reader.entries_start_offset.toNat + reader.count.toNat * reader.entry_size + 4 then
        .error (.corruption "segment truncated")
      else .ok reader

def readStr (blob : Bytes) (cursor : Nat) : Bytes × Nat :=
  let len := readU32 blob cursor
  if len > 0 then (slice blob (cursor + 4) len.toNat,cursor + 4 + len.toNat) else ([],cursor + 4)

def readBlob (blob : Bytes) : Metadata :=
  let device_id := readStr blob 40
  let location_id := readStr blob device_id.2
  let tenant := readStr blob location_id.2
  let text := readStr blob tenant.2
  let payload := readStr blob text.2
  { src_vid := readU64 blob 0, timestamp := readU64 blob 8, lsn := readU64 blob 16, lat := readU64 blob 24
    lon := readU64 blob 32, device_id := device_id.1, location_id := location_id.1, tenant := tenant.1
    text := text.1, payload := payload.1 }

variable (r : MappedSegment)

def metaOffsets : Bytes := r.bytes.drop r.metadata_offset.toNat

variable (index : Nat)

def metaBlob : Option Metadata :=
  let start := readU64 r.metaOffsets (index * 8)
  let stop := readU64 r.metaOffsets ((index + 1) * 8)
  if stop > start then some (readBlob ((r.metaOffsets.drop ((r.count + 1).toNat * 8)).drop start.toNat)) else none

def getMetadata : Metadata :=
  if r.metadata_offset = 0 ∨ index ≥ r.count.toNat then {} else (r.metaBlob index).getD {}

def recordAt : Bytes := r.bytes.drop (r.entries_start_offset.toNat + index * r.entry_size)

def readId : VectorId := readU64 (r.recordAt index) 0

def isDeleted : Bool := (r.recordAt index).getD 8 0 &&& kFlagTombstone != 0

/-- The result, the payload and what follows it, and the metadata. -/
def findRaw (id : VectorId) : Segment.FindResult × Bytes × Metadata :=
  match BinarySearch.search ((List.range r.count.toNat).map r.readId) id 0 (r.count.toNat - 1) with
  | none => (.kNotFound,[],{})
  | some mid =>
    if r.isDeleted mid then (.kFoundTombstone,[],r.getMetadata mid)
    else (.kFound,(r.recordAt mid).drop 12,r.getMetadata mid)

/-- `Get`: the bytes of the vector, as they are in the file, and the metadata. -/
def get (id : VectorId) : Except Status (Bytes × Metadata) :=
  match r.findRaw id with
  | (.kFound,payload,md) => .ok (payload.take (codeBytes r.quant_type r.dim.toNat (r.dim.toNat * 4)),md)
  | (.kFoundTombstone,_,_) => .error (.notFound "tombstone")
  | (.kNotFound,_,_) => .error (.notFound "id not found in segment")

/-- `ReadAt`: a deletion has no vector, and neither has a quantized entry. -/
def readAt (index : UInt32) : Except Status SegmentEntry :=
  if index ≥ r.count then .error (.invalidArgument "index out of range")
  else
    let i := index.toNat
    .ok { id := r.readId i
          vec := if r.isDeleted i || r.quant_type != QuantizationType.kNone.code then []
            else readWords r.dim.toNat ((r.recordAt i).drop 12)
          is_deleted := r.isDeleted i
          md := r.getMetadata i }

/-- The vector `ForEach` shows for the entry at an index. -/
def shownVec (i : Nat) : Vec :=
  let payload := (r.recordAt i).drop 12
  if r.isDeleted i then []
  else
    match r.pq, r.quantizer with
    | some pq, _ => pq.decode payload
    | none, some q => q.decode r.fl (payload.take (codeBytes r.quant_type r.dim.toNat r.dim.toNat))
    | none, none => readWords r.dim.toNat payload

def forEach : List (VectorId × Vec × Bool × Option Metadata) :=
  (List.range r.count.toNat).map fun i =>
    (r.readId i,r.shownVec i,r.isDeleted i,if r.metadata_offset > 0 then r.metaBlob i else none)

end MappedSegment

/-- What is stored of a string: nothing where the 32-bit length field comes out as zero. -/
def keptStr (s : Bytes) : Bytes := if UInt32.ofNat s.length > 0 then s else []

def storedMetadata : Metadata :=
  { md with
    device_id := keptStr md.device_id, location_id := keptStr md.location_id, tenant := keptStr md.tenant
    text := keptStr md.text, payload := keptStr md.payload }

namespace MappedSegment

lemma readStr_here {blob after s : Bytes} {cursor : Nat} (here : blob.drop cursor = addStr s ++ after)
    (small : (addStr s).length < 2 ^ 32) :
    readStr blob cursor = (keptStr s,cursor + (addStr s).length) ∧ blob.drop (cursor + (addStr s).length) = after := by
  refine ⟨?_,by rw [← drop_drop,here,drop_left]⟩
  have here : blob.drop cursor = le 4 (UInt32.ofNat s.length).toNat ++ (keptStr s ++ after) := by
    rw [here,addStr,keptStr,append_assoc]
  obtain ⟨len,behind⟩ := readU32_here here
  by_cases some_ : UInt32.ofNat s.length > 0
  · have kept : keptStr s = s := if_pos some_
    have short : s.length < 2 ^ 32 := by
      simp only [addStr,some_,if_true,length_append,le_length] at small
      omega
    have whole : (UInt32.ofNat s.length).toNat = s.length := UInt32.toNat_ofNat_of_lt' short
    have text : slice blob (cursor + 4) s.length = s := by rw [slice,behind,kept,take_left]
    simp only [readStr,len,if_pos some_,whole,text,kept,addStr,length_append,le_length,Nat.add_assoc]
  · simp [readStr,len,some_,keptStr,addStr]

lemma readBlob_metadataBlob (md : Metadata) (rest : Bytes) (small : (metadataBlob md).length < 2 ^ 32) :
    readBlob (metadataBlob md ++ rest) = storedMetadata md := by
  simp only [metadataBlob,length_append,le_length] at small
  have start : (metadataBlob md ++ rest).drop 40 = addStr md.device_id ++ (addStr md.location_id ++ (addStr md.tenant ++
      (addStr md.text ++ (addStr md.payload ++ rest)))) := by
    simp [metadataBlob,drop_append,drop_eq_nil_of_le]
  obtain ⟨device_id,start⟩ := readStr_here start (by omega)
  obtain ⟨location_id,start⟩ := readStr_here start (by omega)
  obtain ⟨tenant,start⟩ := readStr_here start (by omega)
  obtain ⟨text,start⟩ := readStr_here start (by omega)
  obtain ⟨payload,-⟩ := readStr_here start (by omega)
  simp only [readBlob,device_id,location_id,tenant,text,payload,storedMetadata]
  simp [readU64,metadataBlob,slice_front,slice_behind]

end MappedSegment

lemma metadataBlob_pos : 0 < (metadataBlob md).length := by
  simp [metadataBlob]

lemma blobOffsets_length (size : Nat) (metadata : List Metadata) : (blobOffsets size metadata).length = metadata.length + 1 := by
  induction metadata generalizing size with
  | nil => rfl
  | cons md rest ih => simp [blobOffsets,ih]

lemma blobOffsets_getElem? (size : Nat) {metadata : List Metadata} {i : Nat} (inside : i ≤ metadata.length) :
    (blobOffsets size metadata)[i]? = some (size + ((metadata.take i).flatMap metadataBlob).length) := by
  induction metadata generalizing size i with
  | nil =>
    obtain rfl : i = 0 := by simpa using inside
    simp [blobOffsets]
  | cons md rest ih =>
    cases i with
    | zero => simp [blobOffsets]
    | succ i =>
      rw [blobOffsets,List.getElem?_cons_succ,ih _ (by simpa using inside)]
      simp only [take_succ_cons,flatMap_cons,length_append,Nat.add_assoc]

lemma drop_blobs {metadata : List Metadata} {i : Nat} {md : Metadata} (held : metadata[i]? = some md) :
    (metadata.flatMap metadataBlob).drop ((metadata.take i).flatMap metadataBlob).length =
      metadataBlob md ++ (metadata.drop (i + 1)).flatMap metadataBlob := by
  grind [metadataBlob,take_append_drop,drop_eq_getElem_cons,drop_left]

end PomaiCache
