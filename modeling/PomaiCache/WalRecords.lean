import PomaiCache.WalDecoded

/-!
The records of the log and their frames: what the writer lays out, the reader
takes apart again, and a run of frames followed by a torn tail replays as its
records in order.
-/
namespace PomaiCache.Wal
open Codec List

/-- Every string of the record has a length its length field can hold. -/
def StringsFit (md : Metadata) : Prop :=
  md.tenant.length < 2 ^ 32 ∧ md.device_id.length < 2 ^ 32 ∧ md.location_id.length < 2 ^ 32 ∧
    md.text.length < 2 ^ 32 ∧ md.payload.length < 2 ^ 32

instance (md : Metadata) : Decidable (StringsFit md) :=
  inferInstanceAs (Decidable (md.tenant.length < 2 ^ 32 ∧ md.device_id.length < 2 ^ 32 ∧
    md.location_id.length < 2 ^ 32 ∧ md.text.length < 2 ^ 32 ∧ md.payload.length < 2 ^ 32))

/-- A record of the log. `putLegacy` is the older layout, whose metadata is only
the tenant. -/
inductive Record
  | put (seq : UInt64) (id : VectorId) (vec : Vec)
  | putMeta (seq : UInt64) (id : VectorId) (vec : Vec) (md : Metadata)
  | putLegacy (seq : UInt64) (id : VectorId) (vec : Vec) (tenant : Bytes)
  | del (seq : UInt64) (id : VectorId)
  | rawKV (seq : UInt64) (op : UInt8) (key value : Bytes)
  deriving DecidableEq, Repr

namespace Record

def seq : Record → UInt64
  | put seq _ _ | putMeta seq _ _ _ | putLegacy seq _ _ _ | del seq _ | rawKV seq _ _ _ => seq

def payload : Record → Bytes
  | put seq id vec => recordPrefix seq Op.kPut id (UInt32.ofNat vec.length) ++ words vec
  | putMeta seq id vec md =>
    recordPrefix seq Op.kPutMeta id (UInt32.ofNat vec.length) ++ words vec ++ metadataBlock md
  | putLegacy seq id vec tenant =>
    recordPrefix seq Op.kPutMeta id (UInt32.ofNat vec.length) ++ words vec ++ appendString tenant
  | del seq id => deletePlain seq id
  | rawKV seq op key value => rawKVPlain seq op key value

/-- The record is one the writer lays out for vectors of this dimension. -/
def Fits (dim : UInt32) : Record → Prop
  | put _ _ vec => vec.length = dim.toNat
  | putMeta _ _ vec md => vec.length = dim.toNat ∧ StringsFit md
  | putLegacy _ _ vec tenant => vec.length = dim.toNat ∧ tenant.length < 36
  | del _ _ => True
  | rawKV _ op _ _ => op = Op.kRawKV ∨ op = Op.kBatchStart ∨ op = Op.kBatchEnd

def apply (mem : MemTable) : Record → MemTable
  | put seq id vec => (mem.putMeta id vec {lsn := seq}).1
  | putMeta seq id vec md => (mem.putMeta id vec {md with lsn := seq}).1
  | putLegacy seq id vec tenant => (mem.putMeta id vec {tenant := tenant, lsn := seq}).1
  | del _ id => (mem.delete id).1
  | rawKV _ _ _ _ => mem

end Record

section Fields
variable (seq : UInt64) (op : UInt8) (id : VectorId) (dim : UInt32) (rest : Bytes)

@[simp] lemma recordPrefix_length : (recordPrefix seq op id dim).length = 21 := by
  simp [recordPrefix]

lemma read_seq : UInt64.ofNat (leNat (slice (recordPrefix seq op id dim ++ rest) 0 8)) = seq := by
  simp [recordPrefix,slice_front]

lemma read_op : UInt8.ofNat (leNat (slice (recordPrefix seq op id dim ++ rest) 8 1)) = op := by
  simp [recordPrefix,slice,leNat]

lemma read_id : UInt64.ofNat (leNat (slice (recordPrefix seq op id dim ++ rest) 9 8)) = id := by
  simp [recordPrefix,slice_behind,slice_cons,slice_front]

lemma read_dim : leNat (slice (recordPrefix seq op id dim ++ rest) 17 4) = dim.toNat := by
  simp [recordPrefix,slice_behind,slice_cons,slice_front]

lemma decodePayload_recordPrefix : decodePayload (recordPrefix seq op id dim ++ rest) = decodeOp seq op id dim.toNat rest := by
  rw [decodePayload,read_seq,read_op,read_id,read_dim,drop_left' (recordPrefix_length seq op id dim)]

end Fields

lemma appendString_eq (fits : s.length < 2 ^ 32) : appendString s = le 4 s.length ++ s := by
  grind [UInt32.ofNat,UInt32.toNat_ofNat',Nat.mod_eq_of_lt,appendString,take_length]

lemma readString_appendString {block s after : Bytes} {cursor : Nat}
    (here : block.drop cursor = appendString s ++ after) (fits : s.length < 2 ^ 32) :
    readString block cursor = some (s,cursor + 4 + s.length) ∧ block.drop (cursor + 4 + s.length) = after := by
  rw [appendString_eq fits,append_assoc] at here
  have behind : block.drop (cursor + 4) = s ++ after := by
    rw [← drop_drop,here,drop_left' (le_length 4 _)]
  have size : leNat (slice block cursor 4) = s.length := by
    rw [slice,here,take_left' (le_length 4 _)]
    exact leNat_le_of_lt (by omega)
  have whole : block.length - cursor = 4 + (s.length + after.length) := by
    rw [← length_drop,here]
    simp
  refine ⟨?_,by rw [← drop_drop,behind,drop_left]⟩
  simp only [readString,size]
  rw [if_neg (by omega),if_neg (by omega),slice,behind,take_left]

def fixedFields (md : Metadata) : Bytes :=
  le 8 md.src_vid.toNat ++ (le 8 md.timestamp.toNat ++ (le 8 md.lsn.toNat ++ (le 8 md.lat.toNat ++ le 8 md.lon.toNat)))

lemma fixedFields_length (md : Metadata) : (fixedFields md).length = 40 := by
  simp [fixedFields]

lemma metadataBlock_eq (md : Metadata) : metadataBlock md = fixedFields md ++
    (appendString md.tenant ++ (appendString md.device_id ++ (appendString md.location_id ++
      (appendString md.text ++ (appendString md.payload ++ []))))) := by
  simp [metadataBlock,fixedFields]

variable {cipher : Option Cipher} {rs : List Record} {dim : UInt32} {state : MemTable × UInt64} {md : Metadata} {bytes : Bytes} {body : Bytes}

lemma readStrings_metadataBlock (fit : StringsFit md) (start : Metadata) : readStrings (metadataBlock md) start = some { start with
      tenant := md.tenant
      device_id := md.device_id
      location_id := md.location_id
      text := md.text
      payload := md.payload } := by
  obtain ⟨tenant,device_id,location_id,text,payload⟩ := fit
  have strings : (metadataBlock md).drop 40 = appendString md.tenant ++ (appendString md.device_id ++
      (appendString md.location_id ++ (appendString md.text ++ (appendString md.payload ++ [])))) := by
    rw [metadataBlock_eq,drop_left' (fixedFields_length md)]
  obtain ⟨first,strings⟩ := readString_appendString strings tenant
  obtain ⟨second,strings⟩ := readString_appendString strings device_id
  obtain ⟨third,strings⟩ := readString_appendString strings location_id
  obtain ⟨fourth,strings⟩ := readString_appendString strings text
  obtain ⟨fifth,_⟩ := readString_appendString strings payload
  simp only [readStrings,first,second,third,fourth,fifth,Option.bind_some,Option.map_some]

lemma metadataBlock_length (md : Metadata) : 40 ≤ (metadataBlock md).length := by
  rw [metadataBlock_eq,length_append,fixedFields_length]
  omega

lemma decodeMetadata_metadataBlock (fit : StringsFit md) : decodeMetadata (metadataBlock md) = .ok md := by
  simp only [decodeMetadata,if_pos (metadataBlock_length md),readStrings_metadataBlock fit]
  simp [metadataBlock_eq,fixedFields,slice_front,slice_behind]

lemma orReturn_putMeta (mem : MemTable) (id : VectorId) (md : Metadata)
    (sized : vec.length = mem.dim.toNat) : orReturn (mem.putMeta id vec md) = .ok (mem.putMeta id vec md).1 := by
  rw [orReturn,(mem.putMeta_ok id md sized).1,if_pos Status.ok_Ok]

lemma toNat_ofNat_length {vec : Vec} (sized : vec.length = dim.toNat) : (UInt32.ofNat vec.length).toNat = vec.length := by
  rw [sized,UInt32.ofNat_toNat]

def Record.decoded : Record → Decoded
  | put seq id vec => ⟨seq,Op.kPut,id,vec,{lsn := seq}⟩
  | putMeta seq id vec md => ⟨seq,Op.kPutMeta,id,vec,{md with lsn := seq}⟩
  | putLegacy seq id vec tenant => ⟨seq,Op.kPutMeta,id,vec,{tenant := tenant, lsn := seq}⟩
  | del seq id => ⟨seq,Op.kDel,id,[],{}⟩
  | rawKV seq op _ _ => ⟨seq,op,0,[],{}⟩

@[simp] lemma Record.decoded_seq (r : Record) : r.decoded.seq = r.seq := by cases r <;> rfl

variable (seq : UInt64)

lemma decodeOp_putMeta (id : VectorId) (vec : Vec) (enough : 4 ≤ block.length) (decoded : decodeMetadata block = .ok md) :
    decodeOp seq Op.kPutMeta id vec.length (words vec ++ block) = .ok ⟨seq,Op.kPutMeta,id,vec,{md with lsn := seq}⟩ := by
  have differs : Op.kPutMeta ≠ Op.kPut := by decide
  have behind : (words vec ++ block).drop (vec.length * 4) = block :=
    drop_left' (by rw [words_length]; omega)
  simp only [decodeOp,if_neg differs,if_true,behind,decoded,readWords_words,length_append,words_length,Except.bind]
  rw [if_neg (by omega)]

lemma decodePayload_payload {r : Record} (fits : r.Fits dim) : decodePayload r.payload = .ok r.decoded := by
  cases r with
  | put seq id vec =>
    have vector : readWords vec.length (words vec) = vec := by simpa using readWords_words vec []
    rw [Record.payload,decodePayload_recordPrefix,toNat_ofNat_length fits]
    simp only [decodeOp,words_length,if_true,vector]
    rw [if_neg (by omega),Record.decoded]
  | putMeta seq id vec md =>
    obtain ⟨sized,strings⟩ := fits
    grind [metadataBlock_length,Record.payload,append_assoc,decodePayload_recordPrefix,toNat_ofNat_length,decodeOp_putMeta,
      decodeMetadata_metadataBlock,Record.decoded]
  | putLegacy seq id vec tenant =>
    obtain ⟨sized,short⟩ := fits
    have length : (appendString tenant).length = 4 + tenant.length := by
      rw [appendString_eq (by omega),length_append,le_length]
    have whole : (appendString tenant).drop 0 = appendString tenant ++ [] := by simp
    have decoded : decodeMetadata (appendString tenant) = .ok {tenant := tenant} := by
      rw [decodeMetadata,if_neg (by omega),(readString_appendString whole (by omega)).1]
    rw [Record.payload,append_assoc,decodePayload_recordPrefix,toNat_ofNat_length sized,
      decodeOp_putMeta seq id vec (by omega) decoded,Record.decoded]
  | del seq id =>
    rw [Record.payload,deletePlain,← append_nil (recordPrefix ..),decodePayload_recordPrefix]
    rfl
  | rawKV seq op key value =>
    simp only [Record.payload,rawKVPlain,append_assoc]
    rw [decodePayload_recordPrefix]
    rcases fits with rfl | rfl | rfl <;> rfl

lemma Record.applyTo_decoded {mem : MemTable} {r : Record} (fits : r.Fits mem.dim) : r.decoded.applyTo mem = .ok (r.apply mem) := by
  cases r with
  | put seq id vec => exact orReturn_putMeta mem id _ fits
  | putMeta seq id vec md => exact orReturn_putMeta mem id _ fits.1
  | putLegacy seq id vec tenant => exact orReturn_putMeta mem id _ fits.1
  | del seq id => simp [Decoded.applyTo,Record.decoded,Op.kDel,Op.kPut,Op.kPutMeta,orReturn,(mem.delete_writes id).1,Record.apply]
  | rawKV seq op key value =>
    rcases fits with rfl | rfl | rfl <;> rfl

lemma Record.payload_eq (r : Record) : ∃ op id dim rest, r.payload = recordPrefix r.seq op id dim ++ rest := by
  cases r with
  | put seq id vec => exact ⟨_,_,_,_,rfl⟩
  | putMeta seq id vec md => exact ⟨_,_,_,_,append_assoc ..⟩
  | putLegacy seq id vec tenant => exact ⟨_,_,_,_,append_assoc ..⟩
  | del seq id => exact ⟨_,_,_,[],(append_nil _).symm⟩
  | rawKV seq op key value =>
    exact ⟨op,0,0,_,by simp only [payload,rawKVPlain,append_assoc]; rfl⟩

lemma Record.payload_length (r : Record) : 21 ≤ r.payload.length := by
  obtain ⟨op,id,dim,rest,split⟩ := r.payload_eq
  rw [split,length_append,recordPrefix_length]
  omega

def Record.later (r : Record) : UInt64 := if r.seq > seq then r.seq else seq

lemma laterSeq_payload (r : Record) : laterSeq seq r.payload = r.later seq := by
  obtain ⟨op,id,dim,rest,split⟩ := r.payload_eq
  rw [laterSeq,split,read_seq,Record.later]

@[simp] lemma Record.apply_dim (mem : MemTable) {r : Record} (fits : r.Fits mem.dim) : (r.apply mem).dim = mem.dim := by
  cases r with
  | put seq id vec => exact (mem.putMeta_ok id _ fits).2.dim
  | putMeta seq id vec md => exact (mem.putMeta_ok id _ fits.1).2.dim
  | putLegacy seq id vec tenant => exact (mem.putMeta_ok id _ fits.1).2.dim
  | del seq id => exact (mem.delete_writes id).2.dim
  | rawKV seq op key value => rfl

def frame (body : Bytes) : Bytes :=
  le 4 (body.length + 4) ++ (body ++ le 4 (crc32c body 0).toNat)

/-- The body carries the record, plain or encrypted, and its length fits the field. -/
structure Sealed (cipher : Option Cipher) (r : Record) (body : Bytes) : Prop where
  opens : decryptBody cipher body = .ok r.payload
  long : 21 ≤ body.length
  short : body.length + 4 < 2 ^ 32

/-- The bytes are the frames of these records, one behind the other. -/
inductive Frames (cipher : Option Cipher) (dim : UInt32) : List Record → Bytes → Prop
  | nil : Frames cipher dim [] []
  | cons {r : Record} {body : Bytes} {rs : List Record} {bytes : Bytes} (fits : r.Fits dim)
      (carries : Sealed cipher r body) (more : Frames cipher dim rs bytes) :
      Frames cipher dim (r :: rs) (frame body ++ bytes)

@[simp] lemma frame_length (body : Bytes) : (frame body).length = 4 + (body.length + 4) := by
  simp [frame]

lemma nextBody_frame (rest : Bytes) (short : body.length + 4 < 2 ^ 32) :
    nextBody (frame body ++ rest) = some (body ++ le 4 (crc32c body 0).toNat) := by
  have size : leNat (slice (frame body ++ rest) 0 4) = body.length + 4 := by
    rw [frame,append_assoc,slice_front (le_length ..),leNat_le_of_lt short]
  have content : slice (frame body ++ rest) 4 (body.length + 4) = body ++ le 4 (crc32c body 0).toNat := by
    rw [frame,append_assoc,slice_behind (by simp),le_length]
    exact slice_front (by simp) rest
  simp only [nextBody,size,content,length_append,frame_length]
  rw [if_neg (by omega),if_neg (by omega)]

lemma drop_frame (body rest : Bytes) : (frame body ++ rest).drop (4 + (body ++ le 4 (crc32c body 0).toNat).length) = rest :=
  drop_left' (by simp)

lemma stored_crc (body : Bytes) :
    leNat (slice (body ++ le 4 (crc32c body 0).toNat) (body.length + 4 - 4) 4) = (crc32c body 0).toNat := by
  simp [slice_behind,slice_all]

lemma openBody_frame (carries : Sealed cipher r body) : openBody cipher (body ++ le 4 (crc32c body 0).toNat) = .ok r.payload := by
  have enough := carries.long
  have record := r.payload_length
  rw [openBody,length_append,le_length,if_neg (by omega),stored_crc,Nat.add_sub_cancel,take_left,if_neg (by simp),carries.opens]
  simp only [Except.bind]
  rw [if_neg (by omega)]

def applyAll (state : MemTable × UInt64) (rs : List Record) : MemTable × UInt64 :=
  rs.foldl (fun state r => (r.apply state.1,r.later state.2)) state

lemma decodeFrames_frames {tail : Bytes} (frames : Frames cipher dim rs bytes) (torn : nextBody tail = none) {fuel : Nat} (enough : rs.length ≤ fuel) :
    decodeFrames cipher fuel (bytes ++ tail) = .ok (rs.map Record.decoded) := by
  induction frames generalizing fuel with
  | nil =>
    cases fuel with
    | zero => rfl
    | succ fuel => simp only [decodeFrames,nil_append,torn,map_nil]
  | cons fits carries more ih =>
    rename_i r body rs bytes
    cases fuel with
    | zero => simp at enough
    | succ fuel =>
      rw [append_assoc,decodeFrames,nextBody_frame _ carries.short]
      simp only [openBody_frame carries,decodePayload_payload fits,Except.bind,drop_frame]
      rw [ih (by simpa using enough),map_cons]

lemma applyAll_decoded (fits : ∀ r ∈ rs, r.Fits state.1.dim) :
    Decoded.applyAll (rs.map Record.decoded) state = .ok (applyAll state rs) := by
  induction rs generalizing state with
  | nil => rfl
  | cons r rs ih =>
    have here := fits r (.head _)
    rw [map_cons,Decoded.applyAll,Decoded.step,Record.applyTo_decoded here,Record.decoded_seq]
    refine ih fun other member => ?_
    rw [Record.apply_dim _ here]
    exact fits other (.tail _ member)

lemma Frames.fits (frames : Frames cipher dim rs bytes) : ∀ r ∈ rs, r.Fits dim := by
  induction frames with
  | nil => simp
  | cons fits carries more ih =>
    grind

lemma replayFrames_frames (frames : Frames cipher state.1.dim rs bytes) {tail : Bytes}
    (torn : nextBody tail = none) {fuel : Nat} (enough : rs.length ≤ fuel) :
    replayFrames cipher fuel (bytes ++ tail) state = .ok (applyAll state rs) := by
  rw [replayFrames_decoded (decodeFrames_frames frames torn enough),applyAll_decoded frames.fits]

lemma nextBody_take_frame (short : body.length + 4 < 2 ^ 32)
    (inside : cut < (frame body).length) : nextBody ((frame body).take cut) = none := by
  have length : ((frame body).take cut).length = cut := by
    rw [length_take,Nat.min_eq_left (by omega)]
  rw [nextBody,length]
  split
  · rfl
  · have size : leNat (slice ((frame body).take cut) 0 4) = body.length + 4 := by
      rw [slice_take (by omega),frame,slice_front (le_length ..),leNat_le_of_lt short]
    rw [frame_length] at inside
    rw [size,if_pos (by omega)]

lemma nextBody_nil : nextBody [] = none := rfl

lemma Frames.length_le (frames : Frames cipher dim rs bytes) : rs.length ≤ bytes.length := by
  induction frames with
  | nil => exact Nat.le_refl 0
  | cons fits carries more ih =>
    simp only [length_cons,length_append,frame_length]
    omega

lemma Frames.append (first : Frames cipher dim rs bytes) (second : Frames cipher dim more others) :
    Frames cipher dim (rs ++ more) (bytes ++ others) := by
  induction first with
  | nil => exact second
  | cons fits carries tail ih =>
    rw [append_assoc]
    exact .cons fits carries ih

@[simp] lemma walFileHeader_length : walFileHeader.length = 16 := rfl

lemma framesOffset_header (bytes : Bytes) : framesOffset (walFileHeader ++ bytes) = .ok 16 := by
  rfl

lemma replayFile_frames {bytes tail : Bytes} (frames : Frames cipher state.1.dim rs bytes) (torn : nextBody tail = none) :
    replayFile cipher (walFileHeader ++ (bytes ++ tail)) state = .ok (applyAll state rs) := by
  rw [replayFile,framesOffset_header]
  simp only [Except.bind]
  rw [drop_left' walFileHeader_length]
  refine replayFrames_frames frames torn ?_
  have := frames.length_le
  simp only [length_append]
  omega

lemma applyAll_append (state : MemTable × UInt64) (rs more : List Record) :
    applyAll state (rs ++ more) = applyAll (applyAll state rs) more := foldl_append

lemma applyAll_dim (same : state.1.dim = dim) (fits : ∀ r ∈ rs, r.Fits dim) : (applyAll state rs).1.dim = dim := by
  induction rs generalizing state with
  | nil => exact same
  | cons r rs ih =>
    have here := fits r (.head _)
    refine ih ?_ fun other member => fits other (.tail _ member)
    rw [← same] at here
    exact (Record.apply_dim state.1 here).trans same

structure Replays (cipher : Option Cipher) (dim : UInt32) (rs : List Record) (file : Bytes) : Prop where
  fits : ∀ r ∈ rs, r.Fits dim
  runs : ∀ state : MemTable × UInt64, state.1.dim = dim → replayFile cipher file state = .ok (applyAll state rs)

lemma Frames.replays {bytes tail : Bytes} (frames : Frames cipher dim rs bytes) (torn : nextBody tail = none) :
    Replays cipher dim rs (walFileHeader ++ (bytes ++ tail)) where
  fits := frames.fits
  runs := by
    rintro state rfl
    exact replayFile_frames frames torn

lemma replayDir_files (replays : List.Forall₂ (Replays cipher dim) recss files)
    (gap : rest.firstMissing = 0) (state : MemTable × UInt64) (same : state.1.dim = dim) :
    replayDir cipher (files.map some ++ rest) state = .ok (applyAll state recss.flatten) := by
  induction replays generalizing state with
  | nil => rcases WalDir.cases_of_gap gap with rfl | ⟨_,rfl⟩ <;> rfl
  | cons here more ih =>
    simp only [map_cons,cons_append,replayDir,here.runs state same,Except.bind,flatten_cons,applyAll_append]
    exact ih _ (applyAll_dim same here.fits)

end PomaiCache.Wal
