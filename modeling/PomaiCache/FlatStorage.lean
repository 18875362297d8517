import PomaiCache.Layers
import PomaiCache.Quantizers

/-!
The flat storage engine `pomaidb::StorageEngine`: one file of a header and records, a buffer of
records that are not written yet, and an index that is built from the mapped file. The buffer
is written at the position of the file descriptor.
-/
namespace PomaiCache.Pomaidb
open Codec Layers List

/-- `"POMAI_LOGv1"` and a zero, in ASCII. -/
def kMagic : Bytes := [0x50,0x4F,0x4D,0x41,0x49,0x5F,0x4C,0x4F,0x47,0x76,0x31,0x00]

variable (dim : UInt32)

def storageFileHeader : Bytes :=
  kMagic ++ le 4 1 ++ le 4 dim.toNat ++ replicate 44 0

/-- What `Open` asks of a header it has read in full. -/
def validFor (hdr : Bytes) : Bool :=
  slice hdr 0 12 == kMagic && leNat (slice hdr 12 4) == 1 && leNat (slice hdr 16 4) > 0 && leNat (slice hdr 16 4) == dim.toNat

def kFlagTombstone : UInt32 := 1
def kFlagQuantized : UInt32 := 2

structure VectorRecordHeader where
  id : VectorId
  dim : UInt32
  flags : UInt32
  metadata_len : UInt32
  deriving DecidableEq, Repr

namespace VectorRecordHeader

variable (h : VectorRecordHeader)

def isTombstone : Bool := h.flags &&& kFlagTombstone != 0
def isQuantized : Bool := h.flags &&& kFlagQuantized != 0

def bytes : Bytes :=
  le 8 h.id.toNat ++ le 4 h.dim.toNat ++ le 4 h.flags.toNat ++ le 4 h.metadata_len.toNat ++ replicate 44 0

def parse (b : Bytes) : VectorRecordHeader :=
  { id := UInt64.ofNat (leNat (slice b 0 8))
    dim := UInt32.ofNat (leNat (slice b 8 4))
    flags := UInt32.ofNat (leNat (slice b 12 4))
    metadata_len := UInt32.ofNat (leNat (slice b 16 4)) }

end VectorRecordHeader

def recordSize (dim metadata_len : UInt32) (quantized : Bool) : Nat :=
  let payload := if quantized then metadata_len.toNat + 8 + dim.toNat else metadata_len.toNat + dim.toNat * 4
  (64 + payload + 63) / 64 * 64

/-- What a record says about its id: that it is deleted, its vector, or the range and the
codes of its vector. -/
inductive Stored
  | deleted
  | plain (vec : Vec)
  | coded (min_val max_val : UInt32) (codes : Bytes)
  deriving DecidableEq, Repr

namespace Stored

def flags : Stored → UInt32
  | deleted => kFlagTombstone
  | plain _ => 0
  | coded .. => kFlagQuantized

/-- The bytes behind the metadata; a tombstone has room for a vector and leaves it zero. -/
def payload : Stored → Bytes
  | deleted => []
  | plain vec => words vec
  | coded min_val max_val codes => le 4 min_val.toNat ++ le 4 max_val.toNat ++ codes

def isDeleted : Stored → Bool
  | deleted => true
  | _ => false

def isCoded : Stored → Bool
  | coded .. => true
  | _ => false

end Stored

/-- A record; of the metadata it keeps the tenant. -/
structure Rec where
  id : VectorId
  dim : UInt32
  tenant : Bytes
  stored : Stored
  deriving DecidableEq, Repr

namespace Rec

variable (r : Rec)

def header : VectorRecordHeader := ⟨r.id,r.dim,r.stored.flags,UInt32.ofNat r.tenant.length⟩

def size : Nat := recordSize r.dim r.header.metadata_len r.header.isQuantized

def copied : Bytes := r.header.bytes ++ r.tenant ++ r.stored.payload

def Fits : Prop := r.copied.length ≤ r.size

instance (r : Rec) : Decidable r.Fits := inferInstanceAs (Decidable (_ ≤ _))

def encode : Bytes := r.copied ++ replicate (r.size - r.copied.length) 0

end Rec

structure IndexEntry where
  offset : Nat
  length : Nat
  tombstone : Bool
  in_buffer : Bool
  deriving DecidableEq, Repr

/-- The engine and the content of its file. `fd` is the position of the descriptor while the
file is open. The map is shared, so that it shows the first `map_size` bytes of the file. -/
structure StorageEngine where
  file : Bytes
  fd : Option Nat := none
  dim : UInt32 := 0
  flush_threshold : Nat := 32 * 1024 * 1024
  file_size : Nat := 0
  buffer : Bytes := []
  pending_bytes : Nat := 0
  map_size : Nat := 0
  index : List (VectorId × IndexEntry) := []
  use_quantization : Bool := true

def writeAt (file : Bytes) (pos : Nat) (data : Bytes) : Bytes :=
  file.take pos ++ replicate (pos - file.length) 0 ++ data ++ file.drop (pos + data.length)

namespace StorageEngine

/-- The loop of `BuildIndexFromMmap`. -/
def scanRecords (map : Bytes) : Nat → Nat → List (VectorId × IndexEntry)
  | 0,_ => []
  | fuel + 1,off =>
    if off + 64 ≤ map.length then
      let h := VectorRecordHeader.parse (map.drop off)
      let rec_len := recordSize h.dim h.metadata_len h.isQuantized
      if off + rec_len > map.length then []
      else (h.id,⟨off,rec_len,h.isTombstone,false⟩) :: scanRecords map fuel (off + rec_len)
    else []

variable (e : StorageEngine)

def buildIndexFromMmap : StorageEngine :=
  if e.map_size ≤ 64 then {e with index := []}
  else {e with index := scanRecords (e.file.take e.map_size) e.map_size 64}

def reloadMmap : StorageEngine :=
  match e.fd with
  | none => {e with map_size := 0}
  | some _ => buildIndexFromMmap {e with file_size := e.file.length, map_size := e.file.length}

def close : StorageEngine :=
  {e with fd := none, map_size := 0, file_size := 0, index := [], buffer := [], pending_bytes := 0}

/-- `Open`; a file that does not exist is empty. -/
def openFile (dim : UInt32) (flush_threshold_bytes : Nat) (use_quantization : Bool) : StorageEngine × Status :=
  if dim = 0 then (e,.invalidArgument "dim must be > 0")
  else
    let e := {e.close with dim, flush_threshold := flush_threshold_bytes, use_quantization}
    if e.file.length = 0 then
      -- writing the header moves the descriptor behind it
      (reloadMmap {e with file := writeAt e.file 0 (storageFileHeader dim), fd := some 64, file_size := 64},.Ok)
    else
      -- `pread` does not move it
      let hdr := slice e.file 0 64
      if hdr.length < 64 || !validFor dim hdr then
        ({e with file_size := e.file.length},.corruption "invalid header")
      else (reloadMmap {e with fd := some 0, file_size := e.file.length},.Ok)

/-- Copy a record into the buffer and note it in the index. Pieces that do not fit are written
behind the end of the buffer: there is no telling what happens then. -/
def push (r : Rec) : Option StorageEngine :=
  if r.Fits then
    let buffer := e.buffer ++ r.encode
    some {e with
      buffer
      pending_bytes := e.pending_bytes + r.size
      index := e.index ++ [(r.id,⟨e.file_size + (buffer.length - r.size),r.size,r.header.isTombstone,true⟩)]}
  else none

def flushBufferToFile (pos : Nat) : StorageEngine :=
  if e.buffer.isEmpty then e
  else
    {e with
      file := writeAt e.file pos e.buffer
      fd := some (pos + e.buffer.length)
      file_size := e.file_size + e.buffer.length
      buffer := []
      pending_bytes := 0
      index := e.index.map fun kv => (kv.1,{kv.2 with in_buffer := false})}

def notOpen : Status := ⟨.kFailedPrecondition,"not open"⟩

def flush : StorageEngine × Status :=
  match e.fd with
  | none => (e,notOpen)
  | some pos => (reloadMmap (e.flushBufferToFile pos),.Ok)

def flushIfFull : StorageEngine × Status :=
  if e.pending_bytes ≥ e.flush_threshold then e.flush else (e,.Ok)

def floatNano : UInt32 := 0x3089705F

variable (fl : FloatOps)

def flat (min_val max_val : UInt32) : Bool :=
  ScalarQuantizer8Bit.le fl (fl.sub max_val min_val) floatNano

def codeOf (min_val max_val x : UInt32) : UInt8 :=
  let scale := if flat fl min_val max_val then float0 else fl.div float255 (fl.sub max_val min_val)
  let f := fl.add (fl.mul (fl.sub x min_val) scale) floatHalf
  let low := if fl.lt f float255 then f else float255
  fl.toCode (if fl.lt float0 low then low else float0)

def decodeOf (min_val max_val : UInt32) (code : UInt8) : UInt32 :=
  let inv_scale := if flat fl min_val max_val then float0 else fl.div (fl.sub max_val min_val) float255
  fl.add min_val (fl.mul (fl.ofCode code) inv_scale)

/-- What `Append` stores: the range is the one of the vector. -/
def storedVector (quantized : Bool) (vec : Vec) : Stored :=
  if quantized then
    let range := Payload.extremes fl vec
    .coded range.1 range.2 (vec.map (codeOf fl range.1 range.2))
  else .plain vec

def batchRange (vectors : Vec) : UInt32 × UInt32 := Payload.extremes fl (vectors.headD 0 :: vectors)

def rows (dim : Nat) : List VectorId → Vec → List (VectorId × Vec)
  | [],_ => []
  | id :: ids,vectors => (id,vectors.take dim) :: rows dim ids (vectors.drop dim)

def append (e : StorageEngine) (id : VectorId) (vec : Vec) (md : Option Metadata) : Option (StorageEngine × Status) :=
  if e.fd.isNone then some (e,notOpen)
  else if vec.length ≠ e.dim.toNat then some (e,.invalidArgument "dim mismatch")
  else (e.push ⟨id,UInt32.ofNat vec.length,(md.map Metadata.tenant).getD [],storedVector fl e.use_quantization vec⟩).map flushIfFull

def appendEach (fl : FloatOps) (e : StorageEngine) : List (VectorId × Vec) → Option (StorageEngine × Status)
  | [] => some (e,.Ok)
  | item :: rest =>
    (e.append fl item.1 item.2 none).bind fun next =>
      if next.2.ok then appendEach fl next.1 rest else some next

def pushEach (e : StorageEngine) : List Rec → Option StorageEngine
  | [] => some e
  | r :: rest => (e.push r).bind fun e => pushEach e rest

def appendBatch (e : StorageEngine) (ids : List VectorId) (vectors : Vec) (dim : UInt32) : Option (StorageEngine × Status) :=
  if e.fd.isNone then some (e,notOpen)
  else if dim = 0 then some (e,.invalidArgument "dim must be > 0")
  else if ids.isEmpty then some (e,.Ok)
  else if vectors.length ≠ ids.length * dim.toNat then some (e,.invalidArgument "AppendBatch: ids * dim mismatch")
  else if e.use_quantization then
    let range := batchRange fl vectors
    (e.pushEach ((rows dim.toNat ids vectors).map fun item =>
      ⟨item.1,dim,[],.coded range.1 range.2 (item.2.map (codeOf fl range.1 range.2))⟩)).map flushIfFull
  else e.appendEach fl (rows dim.toNat ids vectors)

def delete (id : VectorId) : Option (StorageEngine × Status) :=
  if e.fd.isNone then some (e,notOpen)
  else (e.push ⟨id,e.dim,[],.deleted⟩).map flushIfFull

/-- What `Get` finds. The metadata it returns is always null. -/
structure GetResult where
  data : Option Vec
  dim : UInt32
  is_tombstone : Bool
  deriving DecidableEq, Repr

def readEntry (e : StorageEngine) (entry : IndexEntry) : Except Status GetResult :=
  if entry.tombstone then .ok ⟨none,0,true⟩
  else
    let source := if entry.in_buffer then e.buffer else e.file.take e.map_size
    let off := if entry.in_buffer then entry.offset - e.file_size else entry.offset
    if off + entry.length > source.length then .error (.corruption "index")
    else
      let h := VectorRecordHeader.parse (source.drop off)
      let payload := source.drop (off + (64 + h.metadata_len.toNat))
      if h.isQuantized then
        let min_val := UInt32.ofNat (leNat (slice payload 0 4))
        let max_val := UInt32.ofNat (leNat (slice payload 4 4))
        .ok ⟨some ((slice payload 8 h.dim.toNat).map (decodeOf fl min_val max_val)),h.dim,false⟩
      else .ok ⟨some (readWords h.dim.toNat payload),h.dim,false⟩

def get (e : StorageEngine) (id : VectorId) : Except Status GetResult :=
  match lastWrite e.index id with
  | none => .error (.notFound "vector id")
  | some entry => e.readEntry fl entry

end StorageEngine

@[simp] lemma storageFileHeader_length : (storageFileHeader dim).length = 64 := by
  simp [storageFileHeader,kMagic]

@[simp] lemma VectorRecordHeader.bytes_length (h : VectorRecordHeader) : h.bytes.length = 64 := by
  simp [bytes]

lemma VectorRecordHeader.parse_bytes (h : VectorRecordHeader) (after : Bytes) : parse (h.bytes ++ after) = h := by
  simp [parse,bytes,slice_front,slice_behind]

variable (r : Rec)

@[simp] lemma Rec.header_isTombstone : r.header.isTombstone = r.stored.isDeleted := by
  change (r.stored.flags &&& kFlagTombstone != 0) = _
  cases r.stored <;> simp only [Stored.flags,Stored.isDeleted] <;> decide

@[simp] lemma Rec.header_isQuantized : r.header.isQuantized = r.stored.isCoded := by
  change (r.stored.flags &&& kFlagQuantized != 0) = _
  cases r.stored <;> simp only [Stored.flags,Stored.isCoded] <;> decide

/-- A record as the calls make it: a vector of its dimension, and no metadata on a tombstone. -/
def Rec.Sized : Prop :=
  match r.stored with
  | .deleted => r.tenant = []
  | .plain vec => vec.length = r.dim.toNat
  | .coded _ _ codes => codes.length = r.dim.toNat

lemma Rec.copied_length : r.copied.length = 64 + r.tenant.length + r.stored.payload.length := by
  simp [copied,Nat.add_assoc]

lemma Rec.fits_iff {r : Rec} (sized : r.Sized) : r.Fits ↔ r.tenant.length < 2 ^ 32 := by
  obtain ⟨id,dim,tenant,stored⟩ := r
  have length : (UInt32.ofNat tenant.length).toNat = tenant.length % 2 ^ 32 := UInt32.toNat_ofNat'
  rw [Fits,copied_length,size,header_isQuantized,recordSize]
  simp only [header,length]
  cases stored with
  | deleted =>
    obtain rfl : tenant = [] := sized
    simp only [Stored.payload,Stored.isCoded,length_nil,Bool.false_eq_true,if_false]
    omega
  | plain vec =>
    have sized : vec.length = dim.toNat := sized
    simp only [Stored.payload,Stored.isCoded,words_length,sized,Bool.false_eq_true,if_false]
    omega
  | coded min_val max_val codes =>
    have sized : codes.length = dim.toNat := sized
    simp only [Stored.payload,Stored.isCoded,length_append,le_length,sized,if_true]
    omega

lemma Rec.encode_length {r : Rec} (fits : r.Fits) : r.encode.length = r.size := by
  rw [encode,length_append,length_replicate]
  exact Nat.add_sub_cancel' fits

lemma Rec.size_ge : 64 ≤ r.size := by
  rw [size,recordSize]
  omega

def Stored.result (fl : FloatOps) (dim : UInt32) : Stored → StorageEngine.GetResult
  | deleted => ⟨none,0,true⟩
  | plain vec => ⟨some vec,dim,false⟩
  | coded min_val max_val codes => ⟨some (codes.map (StorageEngine.decodeOf fl min_val max_val)),dim,false⟩

structure Rec.Formed (r : Rec) : Prop where
  sized : r.Sized
  short : r.tenant.length < 2 ^ 32

namespace Rec.Formed
variable {r : Rec}

lemma fits (formed : r.Formed) : r.Fits := (fits_iff formed.sized).mpr formed.short

lemma metadata_len (formed : r.Formed) : r.header.metadata_len.toNat = r.tenant.length :=
  UInt32.toNat_ofNat_of_lt' formed.short

lemma parse (_ : r.Formed) (rest : Bytes) : VectorRecordHeader.parse (r.encode ++ rest) = r.header := by
  rw [encode,copied,append_assoc,append_assoc,append_assoc]
  exact VectorRecordHeader.parse_bytes _ _

lemma drop_payload (formed : r.Formed) (rest : Bytes) :
    ∃ zeros, (r.encode ++ rest).drop (64 + r.header.metadata_len.toNat) = r.stored.payload ++ (zeros ++ rest) := by
  refine ⟨replicate (r.size - r.copied.length) 0,?_⟩
  grind [length_append,VectorRecordHeader.bytes_length,formed.metadata_len,encode,copied,append_assoc,drop_left]

end Rec.Formed

namespace StorageEngine

lemma readEntry_record (fl : FloatOps) {e : StorageEngine} {off : Nat} {r : Rec} {rest : Bytes} (formed : r.Formed)
    (mapped : e.map_size = e.file.length) (here : e.file.drop off = r.encode ++ rest) :
    e.readEntry fl ⟨off,r.size,r.stored.isDeleted,false⟩ = .ok (r.stored.result fl r.dim) := by
  obtain ⟨zeros,behind⟩ := formed.drop_payload rest
  have size := congrArg List.length here
  rw [length_drop,length_append,Rec.encode_length formed.fits] at size
  have big := r.size_ge
  have inside : ¬off + r.size > e.file.length := by omega
  rw [← here,drop_drop] at behind
  rw [readEntry]
  simp only [mapped,take_length,Bool.false_eq_true,if_false,inside,here,formed.parse,behind,Rec.header_isQuantized]
  cases stored : r.stored with
  | deleted => rfl
  | plain vec =>
    have sized : vec.length = r.dim.toNat := by simpa [Rec.Sized,stored] using formed.sized
    simp only [Stored.isDeleted,Stored.isCoded,Stored.payload,Stored.result,Bool.false_eq_true,if_false]
    rw [show r.header.dim = r.dim from rfl,← sized,readWords_words]
  | coded min_val max_val codes =>
    have sized : codes.length = r.dim.toNat := by simpa [Rec.Sized,stored] using formed.sized
    simp [Stored.isDeleted,Stored.isCoded,Stored.result,Stored.payload,show r.header.dim = r.dim from rfl,slice_front,
      slice_behind,sized]

def entriesFrom : Nat → List Rec → List (VectorId × IndexEntry)
  | _,[] => []
  | off,r :: rest => (r.id,⟨off,r.size,r.stored.isDeleted,false⟩) :: entriesFrom (off + r.size) rest

lemma scanRecords_eq {map : Bytes} {off fuel : Nat} {rs : List Rec} (formed : ∀ r ∈ rs, r.Formed)
    (here : map.drop off = rs.flatMap Rec.encode) (enough : map.length ≤ fuel + off) :
    scanRecords map fuel off = entriesFrom off rs := by
  induction rs generalizing off fuel with
  | nil =>
    have done : map.length ≤ off := drop_eq_nil_iff.mp here
    cases fuel with
    | zero => rfl
    | succ fuel => rw [scanRecords,if_neg (by omega),entriesFrom]
  | cons r rest ih =>
    have first := formed r (.head _)
    rw [flatMap_cons] at here
    have size := congrArg List.length here
    rw [length_drop,length_append,Rec.encode_length first.fits] at size
    have big := r.size_ge
    have later : map.drop (off + r.size) = rest.flatMap Rec.encode := by
      rw [← drop_drop,here,← Rec.encode_length first.fits,drop_left]
    cases fuel with
    | zero => omega
    | succ fuel =>
      have header : off + 64 ≤ map.length := by omega
      have whole : ¬off + r.size > map.length := by omega
      have length : recordSize r.header.dim r.header.metadata_len r.stored.isCoded = r.size := by
        rw [Rec.size,Rec.header_isQuantized]
        rfl
      rw [scanRecords,if_pos header,here]
      simp only [first.parse,Rec.header_isQuantized,Rec.header_isTombstone,length,whole,if_false]
      rw [ih (fun other member => formed other (.tail _ member)) later (by omega)]
      rfl

lemma lastWrite_entries (fl : FloatOps) {e : StorageEngine} {off : Nat} {rs : List Rec} {dim : UInt32}
    (formed : ∀ r ∈ rs, r.Formed ∧ r.dim = dim) (mapped : e.map_size = e.file.length)
    (here : e.file.drop off = rs.flatMap Rec.encode) (id : VectorId) :
    (lastWrite (entriesFrom off rs) id).map (e.readEntry fl) =
      (lastWrite (rs.map fun r => (r.id,r.stored)) id).map fun stored => .ok (stored.result fl dim) := by
  induction rs generalizing off with
  | nil => rfl
  | cons r rest ih =>
    obtain ⟨first,same⟩ := formed r (.head _)
    rw [flatMap_cons] at here
    have later : e.file.drop (off + r.size) = rest.flatMap Rec.encode := by
      rw [← drop_drop,here,← Rec.encode_length first.fits,drop_left]
    have shown := readEntry_record fl first mapped here
    rw [same] at shown
    have others := ih (fun other member => formed other (.tail _ member)) later
    rw [entriesFrom,map_cons,← singleton_append,lastWrite_append,← singleton_append (l := List.map _ rest),
      lastWrite_append,Option.map_or,Option.map_or,others,lastWrite_singleton,lastWrite_singleton]
    by_cases here_ : r.id = id
    · simp [here_,shown]
    · simp [here_]

end StorageEngine

variable {file : Bytes}

lemma writeAt_eq {pos : Nat} (inside : pos ≤ file.length) (data : Bytes) :
    writeAt file pos data = file.take pos ++ (data ++ file.drop (pos + data.length)) := by
  rw [writeAt,Nat.sub_eq_zero_of_le inside]
  simp

lemma writeAt_nil {pos : Nat} (inside : pos ≤ file.length) : writeAt file pos [] = file := by
  simp [writeAt_eq inside]

lemma writeAt_writeAt (inside : pos ≤ file.length) (first second : Bytes) :
    writeAt (writeAt file pos first) (pos + first.length) second = writeAt file pos (first ++ second) := by
  have front : (file.take pos ++ first).length = pos + first.length := by
    rw [length_append,length_take_of_le inside]
  have long : pos + first.length ≤ (writeAt file pos first).length := by
    rw [writeAt_eq inside,← append_assoc,length_append,front]
    exact Nat.le_add_right ..
  rw [writeAt_eq long,writeAt_eq inside,writeAt_eq inside,← append_assoc (file.take pos),take_left' front,
    ← drop_drop,drop_left' front,drop_drop,length_append]
  simp [Nat.add_assoc]

inductive Call
  | append (id : VectorId) (vec : Vec) (md : Option Metadata)
  | batch (ids : List VectorId) (vectors : Vec) (dim : UInt32)
  | delete (id : VectorId)

namespace Call
open StorageEngine

def Right (dim : UInt32) : Call → Prop
  | append _ vec _ => vec.length = dim.toNat
  | batch ids vectors d => d = dim ∧ vectors.length = ids.length * dim.toNat
  | delete _ => True

def tenant : Call → Bytes
  | append _ _ md => (md.map Metadata.tenant).getD []
  | _ => []

def writes (fl : FloatOps) (quantized : Bool) (dim : UInt32) : Call → List (VectorId × Stored)
  | append id vec _ => [(id,storedVector fl quantized vec)]
  | batch ids vectors _ => (rows dim.toNat ids vectors).map fun item =>
      (item.1,if quantized then
          .coded (batchRange fl vectors).1 (batchRange fl vectors).2
            (item.2.map (codeOf fl (batchRange fl vectors).1 (batchRange fl vectors).2))
        else .plain item.2)
  | delete id => [(id,.deleted)]

def records (fl : FloatOps) (quantized : Bool) (dim : UInt32) (c : Call) : List Rec :=
  (c.writes fl quantized dim).map fun w => ⟨w.1,dim,c.tenant,w.2⟩

end Call

namespace StorageEngine

def call (fl : FloatOps) (e : StorageEngine) : Call → Option (StorageEngine × Status)
  | .append id vec md => e.append fl id vec md
  | .batch ids vectors dim => e.appendBatch fl ids vectors dim
  | .delete id => e.delete id

def runCalls (fl : FloatOps) : List Call → StorageEngine → Option StorageEngine
  | [],e => some e
  | c :: rest,e => (e.call fl c).bind fun next => runCalls fl rest next.1

end StorageEngine

lemma rows_length {dim : Nat} {ids : List VectorId} {vectors : Vec} (length : vectors.length = ids.length * dim) :
    ∀ item ∈ StorageEngine.rows dim ids vectors, item.2.length = dim := by
  induction ids generalizing vectors with
  | nil => simp [StorageEngine.rows]
  | cons id ids ih =>
    rw [length_cons,Nat.succ_mul] at length
    intro item member
    rcases mem_cons.mp member with rfl | later
    · exact length_take_of_le (by omega)
    · exact ih (by rw [length_drop]; omega) item later

lemma Call.records_sized (fl : FloatOps) (quantized : Bool) {dim : UInt32} {c : Call} (right : c.Right dim) :
    ∀ r ∈ c.records fl quantized dim, r.Sized ∧ r.dim = dim := by
  intro r member
  obtain ⟨w,written,rfl⟩ := mem_map.mp member
  refine ⟨?_,rfl⟩
  cases c with
  | append id vec md =>
    have sized : vec.length = dim.toNat := right
    rw [mem_singleton.mp written]
    cases quantized <;> simpa [Rec.Sized,StorageEngine.storedVector] using sized
  | batch ids vectors d =>
    obtain ⟨item,row,rfl⟩ := mem_map.mp written
    have sized := rows_length right.2 item row
    cases quantized <;> simpa [Rec.Sized] using sized
  | delete id =>
    rw [mem_singleton.mp written]
    rfl

/-- Where an engine writes: over which file, at which position, and in which form. -/
structure Start where
  base : Bytes
  pos : Nat
  dim : UInt32
  quantized : Bool
  inside : pos ≤ base.length

/-- The records of the calls so far, the first of them written and the others in the buffer. -/
structure Laid (s : Start) (e : StorageEngine) (rs : List Rec) : Prop where
  dim : e.dim = s.dim
  quantized : e.use_quantization = s.quantized
  parts : ∃ done pend, rs = done ++ pend ∧ e.file = writeAt s.base s.pos (done.flatMap Rec.encode) ∧
    e.fd = some (s.pos + (done.flatMap Rec.encode).length) ∧ e.buffer = pend.flatMap Rec.encode

namespace Laid
variable {s : Start} {e : StorageEngine} {rs : List Rec}

lemma opened (laid : Laid s e rs) : e.fd.isNone = false := by
  obtain ⟨_,_,_,_,fd,_⟩ := laid.parts
  rw [fd]
  rfl

lemma push (laid : Laid s e rs) {r : Rec} (fits : r.Fits) : ∃ next, e.push r = some next ∧ Laid s next (rs ++ [r]) := by
  obtain ⟨done,pend,split,file,fd,buffer⟩ := laid.parts
  refine ⟨_,if_pos fits,?_⟩
  refine ⟨laid.dim,laid.quantized,done,pend ++ [r],?_,file,fd,?_⟩
  · rw [split,append_assoc]
  · simp [buffer]

lemma reloadMmap (laid : Laid s e rs) : Laid s e.reloadMmap rs := by
  obtain ⟨dim,quantized,parts⟩ := laid
  unfold StorageEngine.reloadMmap
  split
  · exact ⟨dim,quantized,parts⟩
  · unfold StorageEngine.buildIndexFromMmap
    split <;> exact ⟨dim,quantized,parts⟩

lemma flush (laid : Laid s e rs) :
    e.flush.2 = .Ok ∧ Laid s e.flush.1 rs ∧ e.flush.1.file = writeAt s.base s.pos (rs.flatMap Rec.encode) := by
  obtain ⟨done,pend,rfl,file,fd,buffer⟩ := laid.parts
  let pos := s.pos + (done.flatMap Rec.encode).length
  have written : Laid s (e.flushBufferToFile pos) (done ++ pend) ∧
      (e.flushBufferToFile pos).file = writeAt s.base s.pos ((done ++ pend).flatMap Rec.encode) := by
    unfold StorageEngine.flushBufferToFile
    split
    · next empty =>
      grind
    · have all : writeAt e.file pos e.buffer = writeAt s.base s.pos ((done ++ pend).flatMap Rec.encode) := by
        rw [file,buffer,writeAt_writeAt s.inside,flatMap_append]
      refine ⟨⟨laid.dim,laid.quantized,done ++ pend,[],(append_nil _).symm,all,?_,rfl⟩,all⟩
      rw [buffer,flatMap_append,length_append,← Nat.add_assoc]
  have kept (e : StorageEngine) : e.reloadMmap.file = e.file := by
    grind [StorageEngine.reloadMmap,StorageEngine.buildIndexFromMmap]
  have flushed : e.flush = ((e.flushBufferToFile pos).reloadMmap,.Ok) := by
    rw [StorageEngine.flush,fd]
  rw [flushed]
  exact ⟨rfl,written.1.reloadMmap,(kept _).trans written.2⟩

lemma flushIfFull (laid : Laid s e rs) : e.flushIfFull.2 = .Ok ∧ Laid s e.flushIfFull.1 rs := by
  unfold StorageEngine.flushIfFull
  split
  · exact ⟨laid.flush.1,laid.flush.2.1⟩
  · exact ⟨rfl,laid⟩

variable (fl : FloatOps)

lemma append (laid : Laid s e rs) (id : VectorId) {vec : Vec} (right : vec.length = s.dim.toNat)
    (md : Option Metadata) (short : ((md.map Metadata.tenant).getD []).length < 2 ^ 32) :
    ∃ next, e.append fl id vec md = some (next,.Ok) ∧
      Laid s next (rs ++ [⟨id,s.dim,(md.map Metadata.tenant).getD [],StorageEngine.storedVector fl s.quantized vec⟩]) := by
  let r : Rec := ⟨id,s.dim,(md.map Metadata.tenant).getD [],StorageEngine.storedVector fl s.quantized vec⟩
  have sized : r.Sized := (Call.records_sized fl s.quantized (c := .append id vec md) right r (.head _)).1
  obtain ⟨pushed,done,after⟩ := laid.push ((Rec.fits_iff sized).mpr short)
  obtain ⟨status,full⟩ := after.flushIfFull
  refine ⟨_,?_,full⟩
  have dim : UInt32.ofNat vec.length = s.dim := by rw [right,UInt32.ofNat_toNat]
  rw [StorageEngine.append,laid.opened,laid.dim,laid.quantized]
  grind

lemma appendEach (laid : Laid s e rs) {items : List (VectorId × Vec)} (right : ∀ item ∈ items, item.2.length = s.dim.toNat) :
    ∃ next, e.appendEach fl items = some (next,.Ok) ∧
      Laid s next (rs ++ items.map fun item => ⟨item.1,s.dim,[],StorageEngine.storedVector fl s.quantized item.2⟩) := by
  induction items generalizing e rs with
  | nil => exact ⟨e,rfl,by simpa using laid⟩
  | cons item rest ih =>
    obtain ⟨next,done,after⟩ := laid.append fl item.1 (right item (.head _)) none (by simp)
    obtain ⟨last,others,final⟩ := ih after fun other member => right other (.tail _ member)
    refine ⟨last,?_,by simpa using final⟩
    rw [StorageEngine.appendEach,done]
    exact others

lemma pushEach (laid : Laid s e rs) {items : List Rec} (fits : ∀ r ∈ items, r.Fits) :
    ∃ next, e.pushEach items = some next ∧ Laid s next (rs ++ items) := by
  induction items generalizing e rs with
  | nil => exact ⟨e,rfl,by simpa using laid⟩
  | cons r rest ih =>
    obtain ⟨next,done,after⟩ := laid.push (fits r (.head _))
    grind [StorageEngine.pushEach]

/-- A call of the right dimension lays its records behind the others, unless its tenant is
too long for the length field. -/
lemma call (laid : Laid s e rs) (positive : s.dim ≠ 0) {c : Call} (right : c.Right s.dim) (short : c.tenant.length < 2 ^ 32) :
    ∃ next, e.call fl c = some (next,.Ok) ∧ Laid s next (rs ++ c.records fl s.quantized s.dim) := by
  have fits : ∀ r ∈ c.records fl s.quantized s.dim, r.Fits := by
    intro r member
    have tenant : r.tenant = c.tenant := by
      obtain ⟨w,_,rfl⟩ := mem_map.mp member
      rfl
    grind [Rec.fits_iff,Call.records_sized]
  cases c with
  | append id vec md => exact laid.append fl id right md short
  | delete id =>
    obtain ⟨pushed,done,after⟩ := laid.push (fits ⟨id,s.dim,[],.deleted⟩ (.head _))
    obtain ⟨status,full⟩ := after.flushIfFull
    refine ⟨_,?_,full⟩
    rw [StorageEngine.call,StorageEngine.delete,laid.opened,laid.dim,done]
    exact congrArg some (Prod.ext rfl status)
  | batch ids vectors d =>
    obtain ⟨rfl,length⟩ := right
    rw [StorageEngine.call,StorageEngine.appendBatch,laid.opened,laid.quantized]
    simp only [Bool.false_eq_true,if_false,positive]
    by_cases none_ : ids.isEmpty = true
    · simp [*,isEmpty_iff.mp none_,Call.records,Call.writes,StorageEngine.rows]
    · rw [if_neg none_,if_neg (not_not_intro length)]
      cases quantized : s.quantized with
      | false =>
        obtain ⟨next,done,after⟩ := laid.appendEach fl (rows_length length)
        refine ⟨next,by simpa using done,?_⟩
        simpa [Call.records,Call.writes,Call.tenant,StorageEngine.storedVector,quantized,Function.comp_def] using after
      | true =>
        rw [quantized] at fits
        obtain ⟨pushed,done,after⟩ := laid.pushEach fits
        obtain ⟨status,full⟩ := after.flushIfFull
        refine ⟨_,?_,full⟩
        simp only [Call.records,Call.writes,Call.tenant,map_map,Function.comp_def,if_true] at done ⊢
        grind

lemma call_overflows (laid : Laid s e rs) {c : Call} (right : c.Right s.dim)
    (long : ¬c.tenant.length < 2 ^ 32) : e.call fl c = none := by
  cases c with
  | batch ids vectors d => exact absurd (by simp [Call.tenant]) long
  | delete id => exact absurd (by simp [Call.tenant]) long
  | append id vec md =>
    have right : vec.length = s.dim.toNat := right
    let r : Rec := ⟨id,s.dim,(md.map Metadata.tenant).getD [],StorageEngine.storedVector fl s.quantized vec⟩
    have sized : r.Sized := (Call.records_sized fl s.quantized (c := .append id vec md) right r (.head _)).1
    have overflow : e.push r = none := if_neg fun fits => long ((Rec.fits_iff sized).mp fits)
    rw [StorageEngine.call,StorageEngine.append,laid.opened,laid.dim,laid.quantized]
    simp only [Bool.false_eq_true,if_false,right,ne_eq,not_true_eq_false,UInt32.ofNat_toNat]
    rw [show e.push _ = none from overflow,Option.map_none]

lemma runCalls (laid : Laid s e rs) (positive : s.dim ≠ 0)
    (right : ∀ c ∈ calls, c.Right s.dim) (short : ∀ c ∈ calls, c.tenant.length < 2 ^ 32) :
    ∃ next, StorageEngine.runCalls fl calls e = some next ∧
      Laid s next (rs ++ calls.flatMap (Call.records fl s.quantized s.dim)) := by
  induction calls generalizing e rs with
  | nil => exact ⟨e,rfl,by simpa using laid⟩
  | cons c rest ih =>
    obtain ⟨next,done,after⟩ := laid.call fl positive (right c (.head _)) (short c (.head _))
    grind [StorageEngine.runCalls]

lemma short_of_runCalls (laid : Laid s e rs) (positive : s.dim ≠ 0)
    (right : ∀ c ∈ calls, c.Right s.dim) (ran : StorageEngine.runCalls fl calls e = some final) :
    ∀ c ∈ calls, c.tenant.length < 2 ^ 32 := by
  induction calls generalizing e rs with
  | nil => simp
  | cons c rest ih =>
    have first := right c (.head _)
    have short : c.tenant.length < 2 ^ 32 := by
      by_contra long
      rw [StorageEngine.runCalls,laid.call_overflows fl first long] at ran
      cases ran
    obtain ⟨next,done,after⟩ := laid.call fl positive first short
    rw [StorageEngine.runCalls,done] at ran
    grind

end Laid

lemma kMagic_length : kMagic.length = 12 := by decide

lemma validFor_header {dim : UInt32} (positive : dim ≠ 0) (rest : Bytes) :
    slice (storageFileHeader dim ++ rest) 0 64 = storageFileHeader dim ∧ validFor dim (storageFileHeader dim) = true := by
  have value : 0 < dim.toNat := Nat.pos_of_ne_zero fun zero => positive (UInt32.toNat_inj.mp zero)
  have small : dim.toNat < 256 ^ 4 := dim.toNat_lt
  refine ⟨slice_front (by simp) rest,?_⟩
  simp [validFor,storageFileHeader,slice_front,slice_behind,kMagic_length,leNat_le_of_lt small,value,show leNat (le 4 1) = 1 from rfl]

/-- A record at the start of a file is not a header of the file: where the header has its
version stand the flags, and the dimension stands where a tombstone has no metadata. -/
lemma validFor_record {r : Rec} (sized : r.Sized) (dim : UInt32) (rest : Bytes) :
    validFor dim (slice (r.encode ++ rest) 0 64) = false := by
  have head : slice (r.encode ++ rest) 0 64 = r.header.bytes := by
    simp [Rec.encode,Rec.copied,slice_front]
  have parsed : VectorRecordHeader.parse r.header.bytes = r.header := by
    simpa using r.header.parse_bytes []
  have flags := congrArg VectorRecordHeader.flags parsed
  have length := congrArg VectorRecordHeader.metadata_len parsed
  rw [head]
  by_contra valid
  simp only [validFor,Bool.not_eq_false,Bool.and_eq_true,beq_iff_eq,decide_eq_true_eq] at valid
  obtain ⟨⟨⟨_,version⟩,positive⟩,_⟩ := valid
  simp only [VectorRecordHeader.parse,version] at flags length
  cases stored : r.stored with
  | plain vec => simp [Rec.header,stored,Stored.flags] at flags
  | coded min_val max_val codes => simp [Rec.header,stored,Stored.flags,kFlagQuantized] at flags
  | deleted =>
    have none_ : r.tenant = [] := by simpa [Rec.Sized,stored] using sized
    have four : (slice r.header.bytes 16 4).length = 4 := by simp [slice_length]
    have small := leNat_lt (slice r.header.bytes 16 4)
    rw [four] at small
    have zero := congrArg UInt32.toNat length
    have absent : r.header.metadata_len.toNat = 0 := by simp [Rec.header,none_]
    rw [UInt32.toNat_ofNat_of_lt' small,absent] at zero
    exact absurd zero (Nat.ne_of_gt positive)

namespace StorageEngine

variable {dim : UInt32} {e : StorageEngine} {calls : List Call}

lemma openFile_new (positive : dim ≠ 0) (threshold : Nat) (quantized : Bool) : Laid ⟨storageFileHeader dim,64,dim,quantized,by simp⟩
      (openFile {file := []} dim threshold quantized).1 [] := by
  have header : writeAt [] 0 (storageFileHeader dim) = storageFileHeader dim := by simp [writeAt]
  simp only [openFile,positive,if_false,close,length_nil,if_true,header]
  apply Laid.reloadMmap
  exact ⟨rfl,rfl,[],[],rfl,by rw [flatMap_nil,writeAt_nil (by simp)],rfl,rfl⟩

lemma buildIndexFromMmap_eq {rs : List Rec} (formed : ∀ r ∈ rs, r.Formed)
    (mapped : e.map_size = e.file.length) (file : e.file = storageFileHeader dim ++ rs.flatMap Rec.encode) :
    e.buildIndexFromMmap = {e with index := entriesFrom 64 rs} := by
  have behind : e.file.drop 64 = rs.flatMap Rec.encode := by
    rw [file,drop_left' (storageFileHeader_length dim)]
  have scanned : scanRecords e.file e.file.length 64 = entriesFrom 64 rs := scanRecords_eq formed behind (by omega)
  rw [buildIndexFromMmap,mapped]
  by_cases empty : e.file.length ≤ 64
  · rw [if_pos empty]
    cases rs with
    | nil => rfl
    | cons r rest =>
      have size := r.size_ge
      have long := congrArg List.length behind
      rw [length_drop,flatMap_cons,length_append,Rec.encode_length (formed r (.head _)).fits] at long
      omega
  · rw [if_neg empty,take_length,scanned]

/-- A file with its header: the descriptor is at its start, and the index is the one of the
records behind the header. -/
lemma openFile_again (positive : dim ≠ 0) (threshold : Nat) (quantized : Bool) (e : StorageEngine)
    {rs : List Rec} (formed : ∀ r ∈ rs, r.Formed) (file : e.file = storageFileHeader dim ++ rs.flatMap Rec.encode) :
    (e.openFile dim threshold quantized).2 = .Ok ∧
      Laid ⟨e.file,0,dim,quantized,Nat.zero_le _⟩ (e.openFile dim threshold quantized).1 [] ∧
      (e.openFile dim threshold quantized).1.index = entriesFrom 64 rs ∧
      (e.openFile dim threshold quantized).1.file = e.file ∧
      (e.openFile dim threshold quantized).1.map_size = e.file.length := by
  obtain ⟨head,valid⟩ := validFor_header positive (rs.flatMap Rec.encode)
  rw [← file] at head
  have long : e.file.length = 64 + (rs.flatMap Rec.encode).length := by simp [file]
  have some_ : ¬e.file.length = 0 := by omega
  let opened : StorageEngine :=
    { e.close with
      dim := dim
      flush_threshold := threshold
      use_quantization := quantized
      fd := some 0
      file_size := e.file.length }
  have again : e.openFile dim threshold quantized = (opened.reloadMmap,.Ok) := by
    simp [openFile,positive,close,some_,head,valid,opened]
  have index : opened.reloadMmap = {opened with map_size := e.file.length, index := entriesFrom 64 rs} :=
    buildIndexFromMmap_eq (e := {opened with map_size := e.file.length}) formed rfl file
  rw [again]
  refine ⟨rfl,?_,?_⟩
  · refine Laid.reloadMmap (e := opened) ?_
    exact ⟨rfl,rfl,[],[],rfl,(writeAt_nil (Nat.zero_le _)).symm,rfl,rfl⟩
  · rw [index]
    exact ⟨rfl,rfl,rfl⟩

structure Settings where
  flush_threshold : Nat
  use_quantization : Bool

variable (fl : FloatOps)

def session (dim : UInt32) (settings : Settings) (calls : List Call) (e : StorageEngine) : Option StorageEngine :=
  (runCalls fl calls (e.openFile dim settings.flush_threshold settings.use_quantization).1).map fun e => e.flush.1.close

def reopened (dim : UInt32) (first second third : Settings) (calls later : List Call) : Option (StorageEngine × Status) :=
  ((session fl dim first calls {file := []}).bind (session fl dim second later)).map fun e =>
    e.openFile dim third.flush_threshold third.use_quantization

def shown (dim : UInt32) (writes : List (VectorId × Stored)) (id : VectorId) : Except Status GetResult :=
  match lastWrite writes id with
  | none => .error (.notFound "vector id")
  | some stored => .ok (stored.result fl dim)

lemma session_file (positive : dim ≠ 0) {settings : Settings}
    (right : ∀ c ∈ calls, c.Right dim) {base : Bytes} {pos : Nat} (inside : pos ≤ base.length)
    (laid : Laid ⟨base,pos,dim,settings.use_quantization,inside⟩
      (e.openFile dim settings.flush_threshold settings.use_quantization).1 []) :
    (∀ final, session fl dim settings calls e = some final → ∀ c ∈ calls, c.tenant.length < 2 ^ 32) ∧
    ((∀ c ∈ calls, c.tenant.length < 2 ^ 32) → ∃ final, session fl dim settings calls e = some final ∧ final.file = writeAt base pos
        ((calls.flatMap (Call.records fl settings.use_quantization dim)).flatMap Rec.encode)) := by
  constructor
  · intro final done
    obtain ⟨last,ran,_⟩ := Option.map_eq_some_iff.mp done
    exact laid.short_of_runCalls fl positive right ran
  · intro short
    obtain ⟨last,ran,after⟩ := laid.runCalls fl positive right short
    obtain ⟨_,_,file⟩ := after.flush
    simp [*,session,Option.map_some,close]

lemma records_formed (quantized : Bool) (right : ∀ c ∈ calls, c.Right dim) (short : ∀ c ∈ calls, c.tenant.length < 2 ^ 32) :
    ∀ r ∈ calls.flatMap (Call.records fl quantized dim), r.Formed ∧ r.dim = dim := by
  intro r member
  obtain ⟨c,inside,record⟩ := mem_flatMap.mp member
  obtain ⟨sized,same⟩ := Call.records_sized fl quantized (right c inside) r record
  have tenant : r.tenant = c.tenant := by
    obtain ⟨w,_,rfl⟩ := mem_map.mp record
    rfl
  exact ⟨⟨sized,tenant ▸ short c inside⟩,same⟩

lemma get_openFile (positive : dim ≠ 0) (settings : Settings)
    {quantized : Bool} (right : ∀ c ∈ calls, c.Right dim) (short : ∀ c ∈ calls, c.tenant.length < 2 ^ 32)
    (file : e.file = storageFileHeader dim ++ (calls.flatMap (Call.records fl quantized dim)).flatMap Rec.encode) (id : VectorId) :
    (e.openFile dim settings.flush_threshold settings.use_quantization).1.get fl id =
      shown fl dim (calls.flatMap (Call.writes fl quantized dim)) id := by
  have formed := records_formed fl quantized right short
  obtain ⟨_,_,index,same,mapped⟩ := openFile_again positive settings.flush_threshold settings.use_quantization e
    (fun r member => (formed r member).1) file
  have behind : (e.openFile dim settings.flush_threshold settings.use_quantization).1.file.drop 64 =
      (calls.flatMap (Call.records fl quantized dim)).flatMap Rec.encode := by
    rw [same,file,drop_left' (storageFileHeader_length dim)]
  have last := lastWrite_entries fl formed (mapped.trans (congrArg List.length same.symm)) behind id
  have writes : (calls.flatMap (Call.records fl quantized dim)).map (fun r => (r.id,r.stored)) =
      calls.flatMap (Call.writes fl quantized dim) := by
    simp [map_flatMap,Call.records,Function.comp_def]
  rw [writes] at last
  rw [get,index,shown]
  grind

/-- Calls of the right dimension on a new file are found again after a second session and
another opening exactly if the second session stores nothing and no tenant of the first
is longer than its length field can tell. -/
theorem storage_survives_iff (fl : FloatOps) {dim : UInt32} (positive : dim ≠ 0) (first second third : Settings)
    {calls later : List Call} (right : ∀ c ∈ calls ++ later, c.Right dim) :
    (∃ e, reopened fl dim first second third calls later = some (e,.Ok) ∧
      ∀ id, e.get fl id = shown fl dim (calls.flatMap (Call.writes fl first.use_quantization dim) ++
        later.flatMap (Call.writes fl second.use_quantization dim)) id) ↔
      (∀ c ∈ calls, c.tenant.length < 2 ^ 32) ∧ later.flatMap (Call.writes fl second.use_quantization dim) = [] := by
  have right₁ : ∀ c ∈ calls, c.Right dim := fun c member => right c (mem_append_left _ member)
  have right₂ : ∀ c ∈ later, c.Right dim := fun c member => right c (mem_append_right _ member)
  obtain ⟨short_of,run₁⟩ := session_file fl positive right₁ _ (openFile_new positive first.flush_threshold first.use_quantization)
  have session₂ {e : StorageEngine} (short : ∀ c ∈ calls, c.tenant.length < 2 ^ 32) (file : e.file = storageFileHeader dim ++
        (calls.flatMap (Call.records fl first.use_quantization dim)).flatMap Rec.encode) :=
    session_file fl positive right₂ (Nat.zero_le _) (openFile_again positive second.flush_threshold second.use_quantization e
        (fun r member => (records_formed fl first.use_quantization right₁ short r member).1) file).2.1
  have header (data : Bytes) : writeAt (storageFileHeader dim) 64 data = storageFileHeader dim ++ data := by
    rw [writeAt_eq (by simp),take_of_length_le (by simp),drop_of_length_le (by simp),append_nil]
  constructor
  · rintro ⟨e,done,_⟩
    obtain ⟨final,both,opened⟩ := Option.map_eq_some_iff.mp done
    obtain ⟨middle,ran₁,ran₂⟩ := Option.bind_eq_some_iff.mp both
    have short := short_of middle ran₁
    obtain ⟨middle_,same,file⟩ := run₁ short
    obtain rfl : middle = middle_ := Option.some_inj.mp (ran₁.symm.trans same)
    rw [header] at file
    obtain ⟨short_of₂,run₂⟩ := session₂ short file
    have short₂ := short_of₂ final ran₂
    obtain ⟨final_,same₂,file₂⟩ := run₂ short₂
    obtain rfl : final = final_ := Option.some_inj.mp (ran₂.symm.trans same₂)
    refine ⟨short,?_⟩
    by_contra stored
    -- the first record of the second session stands where the header was
    obtain ⟨r,rest,records⟩ : ∃ r rest, later.flatMap (Call.records fl second.use_quantization dim) = r :: rest := by
      apply exists_cons_of_ne_nil
      intro none_
      apply stored
      have := congrArg (List.map fun r : Rec => (r.id,r.stored)) none_
      simpa [map_flatMap,Call.records,Function.comp_def] using this
    have formed := records_formed fl second.use_quantization right₂ short₂ r (by rw [records]; exact (.head _))
    rw [records,flatMap_cons,writeAt_eq (Nat.zero_le _),take_zero,nil_append,append_assoc] at file₂
    have invalid := validFor_record formed.1.sized dim
      (rest.flatMap Rec.encode ++ middle.file.drop (0 + (r.encode ++ rest.flatMap Rec.encode).length))
    rw [← file₂] at invalid
    have some_ : ¬final.file.length = 0 := by
      have size := r.size_ge
      rw [file₂,length_append,Rec.encode_length formed.1.fits]
      omega
    have failed : (final.openFile dim third.flush_threshold third.use_quantization).2 = .corruption "invalid header" := by
      simp [openFile,positive,close,some_,invalid]
    rw [opened] at failed
    exact absurd (show Status.Ok = .corruption "invalid header" from failed) (by decide)
  · rintro ⟨short,nothing⟩
    obtain ⟨middle,ran₁,file⟩ := run₁ short
    rw [header] at file
    have none_ : later.flatMap (Call.records fl second.use_quantization dim) = [] := by
      rw [flatMap_eq_nil_iff] at nothing ⊢
      intro c member
      rw [Call.records,nothing c member]
      rfl
    have short₂ : ∀ c ∈ later, c.tenant.length < 2 ^ 32 := by
      intro c member
      have silent := flatMap_eq_nil_iff.mp nothing c member
      cases c with
      | append id vec md => cases silent
      | batch ids vectors d => simp [Call.tenant]
      | delete id => simp [Call.tenant]
    obtain ⟨final,ran₂,file₂⟩ := (session₂ short file).2 short₂
    rw [none_,flatMap_nil,writeAt_nil (Nat.zero_le _),file] at file₂
    obtain ⟨status,_⟩ := openFile_again positive third.flush_threshold third.use_quantization final
      (fun r member => (records_formed fl first.use_quantization right₁ short r member).1) file₂
    refine ⟨(final.openFile dim third.flush_threshold third.use_quantization).1,?_,fun id => ?_⟩
    · rw [reopened,ran₁,Option.bind_some,ran₂,Option.map_some,← status]
    · rw [nothing,append_nil]
      exact get_openFile fl positive third right₁ short file₂ id

theorem storage_survives_silence : ∃ e, reopened Platform.plain.floats 1 ⟨100,false⟩ ⟨1000,true⟩ ⟨0,false⟩
        [.append 1 [5] none,.append 2 [6] none,.delete 1] [.batch [] [] 1] = some (e,.Ok) ∧
      e.get Platform.plain.floats 1 = .ok ⟨none,0,true⟩ ∧ e.get Platform.plain.floats 2 = .ok ⟨some [6],1,false⟩ := by
  have right : ∀ c ∈ [Call.append 1 [5] none,.append 2 [6] none,.delete 1] ++ [.batch [] [] 1], c.Right 1 := by
    simp [Call.Right]
  obtain ⟨e,done,all⟩ := (storage_survives_iff Platform.plain.floats (by decide) ⟨100,false⟩ ⟨1000,true⟩ ⟨0,false⟩
    right).mpr ⟨by simp [Call.tenant],rfl⟩
  exact ⟨e,done,(all 1).trans rfl,(all 2).trans rfl⟩

/-- One vector in each session: the second one is written over the header, and the file
cannot be opened any more. -/
theorem storage_header_overwritten : (reopened Platform.plain.floats 1 ⟨1000,false⟩ ⟨1000,false⟩ ⟨1000,false⟩ [.append 1 [5] none]
        [.append 2 [6] none]).map Prod.snd = some (.corruption "invalid header") ∧
      ¬∃ e, reopened Platform.plain.floats 1 ⟨1000,false⟩ ⟨1000,false⟩ ⟨1000,false⟩ [.append 1 [5] none]
        [.append 2 [6] none] = some (e,.Ok) := by
  have failed : (reopened Platform.plain.floats 1 ⟨1000,false⟩ ⟨1000,false⟩ ⟨1000,false⟩ [.append 1 [5] none]
      [.append 2 [6] none]).map Prod.snd = some (.corruption "invalid header") := by decide +kernel
  refine ⟨failed,?_⟩
  rintro ⟨e,done⟩
  rw [done] at failed
  exact absurd (show Status.Ok = .corruption "invalid header" from Option.some_inj.mp failed) (by decide)

end StorageEngine
end PomaiCache.Pomaidb
