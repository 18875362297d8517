import PomaiCache.SegmentBytes

/-!
What is added to a segment builder is read back from the file: by id, by position and by a walk
over all entries. The offsets of the writer and the reader agree for every size below `2 ^ 32`;
what can be lost is a string of the metadata whose length is a multiple of `2 ^ 32`, for which
the length field is zero and no bytes are written.
-/
namespace PomaiCache
open Codec List Options

namespace SegmentBuilder
variable {fl : FloatOps} {params : IndexParams} {codebook : Nat → Nat → Vec} {b : SegmentBuilder} {buf : Vec}
  {gap : Nat → Nat} {file : SegmentFile} {r : MappedSegment}

def plainFile (fl : FloatOps) (params : IndexParams) (b : SegmentBuilder) (buf : Vec) : SegmentFile :=
  { count := UInt32.ofNat b.entries.length
    dim := b.dim
    quant_type := .kNone
    quant_min := float0
    quant_inv_scale := float0
    entry_size := UInt32.ofNat (params.entrySize b.dim)
    entries := b.sorted.flatMap (record fl params .none buf b.dim)
    metadata := b.sorted.map BuilderEntry.md }

lemma finishFile_plain (plain : params.quant_type = .kNone) :
    b.finishFile fl params codebook buf = .ok (b.plainFile fl params buf) := by
  simp [finishFile,train,plain,plainFile,Except.map,Trained.range]

lemma payload_short (plain : params.quant_type = .kNone) (e : BuilderEntry) :
    (payload fl params .none buf b.dim e).length ≤ params.vecBytes b.dim := by
  have bytes : params.vecBytes b.dim = b.dim.toNat * 4 := by simp only [IndexParams.vecBytes,plain]
  rw [payload]
  split
  · rw [length_replicate]
  · rw [Trained.encode,words_length,e.data_length,bytes,Nat.mul_comm]

lemma records_length (plain : params.quant_type = .kNone) :
    (b.plainFile fl params buf).entries.length = b.entries.length * params.entrySize b.dim := by
  have sized : ∀ e ∈ b.sorted, (record fl params .none buf b.dim e).length = params.entrySize b.dim :=
    fun e _ => record_length (payload_short plain e)
  rw [plainFile,length_flatMap,map_congr_left sized,map_const',sum_replicate,sorted_length]
  rfl

structure Mapped (fl : FloatOps) (params : IndexParams) (b : SegmentBuilder) (buf : Vec) (r : MappedSegment) : Prop where
  count : r.count.toNat = b.entries.length
  few : b.entries.length + 1 < 2 ^ 32
  dim : r.dim = b.dim
  plain : r.quant_type = QuantizationType.kNone.code ∧ r.quantizer = none ∧ r.pq = none
  sized : b.entries ≠ [] → r.entry_size = params.entrySize b.dim
  records : ∃ tail, r.bytes.drop r.entries_start_offset.toNat = (b.plainFile fl params buf).entries ++ tail
  block : ∃ tail, r.metaOffsets = offsets (b.plainFile fl params buf) ++ (blob (b.plainFile fl params buf) ++ tail)
  there : r.metadata_offset.toNat ≠ 0
  small : (blob (b.plainFile fl params buf)).length < 2 ^ 32

lemma offsets_length (file : SegmentFile) : (offsets file).length = (file.metadata.length + 1) * 8 := by
  rw [offsets,length_flatMap,map_congr_left fun n _ => le_length 8 n,map_const',sum_replicate,blobOffsets_length]
  rfl

lemma temporalIndex_length (gap : Nat → Nat) (metadata : List Metadata) :
    (temporalIndex gap metadata).length = metadata.length * 16 := by
  have sixteen : ∀ entry : UInt64 × Nat, (le 8 entry.1.toNat ++ (le 4 entry.2 ++ le 4 (gap entry.2))).length = 16 := by
    intro entry
    simp
  rw [temporalIndex,length_flatMap,map_congr_left fun entry _ => sixteen entry,map_const',sum_replicate,length_insertionSort]
  simp

lemma fileBytes_length (plain : params.quant_type = .kNone) :
    (b.fileBytes gap params (b.plainFile fl params buf)).length = 128 + b.entries.length * params.entrySize b.dim +
      (b.entries.length + 1) * 8 + (blob (b.plainFile fl params buf)).length + b.entries.length * 16 + 4 := by
  have entries : (b.plainFile fl params buf).metadata.length = b.entries.length := by simp [plainFile,sorted_length]
  simp only [fileBytes,length_append,SegmentHeader.bytes_length,SegmentHeader.size,pad,length_replicate,
    records_length plain,offsets_length,temporalIndex_length,le_length,entries]
  omega

lemma openBytes_plain (pq : Option ProductQuantizer) {data : Bytes} {h : SegmentHeader} (header : SegmentHeader.read data = h)
    (magic : data.take 12 = kSegmentMagic) (current : h.version = 6) (plain : h.quant_type = QuantizationType.kNone.code)
    (large : ¬ data.length < SegmentHeader.size)
    (whole : ¬ data.length < h.entries_start_offset.toNat + h.count.toNat * h.entry_size.toNat + 4) :
    MappedSegment.openBytes fl pq data = .ok ⟨fl,data,h.count,h.dim,h.entry_size.toNat,h.entries_start_offset,
      h.metadata_offset,h.temporal_index_offset,QuantizationType.kNone.code,none,none⟩ := by
  have six : ¬ ((6 : UInt32) < 2 ∨ (6 : UInt32) > 6) := by decide
  have newest : (6 : UInt32) ≥ 3 ∧ (6 : UInt32) ≥ 4 ∧ (6 : UInt32) ≥ 5 ∧ (6 : UInt32) ≥ 6 := by decide
  have uncoded : QuantizationType.kNone.code ≠ QuantizationType.kSq8.code ∧
      QuantizationType.kNone.code ≠ QuantizationType.kFp16.code ∧
      QuantizationType.kNone.code ≠ QuantizationType.kBit.code ∧
      QuantizationType.kNone.code ≠ QuantizationType.kPq8.code := by decide
  simp [*,MappedSegment.openBytes,ne_eq,not_true_eq_false]

lemma openBytes_mapped (pq : Option ProductQuantizer) (plain : params.quant_type = .kNone)
    (small : (b.fileBytes gap params (b.plainFile fl params buf)).length < 2 ^ 32) :
    ∃ r, MappedSegment.openBytes fl pq (b.fileBytes gap params (b.plainFile fl params buf)) = .ok r ∧ Mapped fl params b buf r := by
  let file := b.plainFile fl params buf
  obtain ⟨temporal,tail,layout⟩ : ∃ temporal tail, b.fileBytes gap params file =
      (b.header params file temporal).bytes ++ (pad ++ (file.entries ++ (offsets file ++ (blob file ++ tail)))) :=
    ⟨_,_,rfl⟩
  show ∃ r, MappedSegment.openBytes fl pq (b.fileBytes gap params file) = .ok r ∧ _
  have records : file.entries.length = b.entries.length * params.entrySize b.dim := records_length plain
  have front : ((b.header params file temporal).bytes ++ pad).length = 128 := by
    simp [SegmentHeader.bytes_length,pad,SegmentHeader.size]
  have total : (b.fileBytes gap params file).length = 128 + b.entries.length * params.entrySize b.dim +
      (b.entries.length + 1) * 8 + (blob file).length + b.entries.length * 16 + 4 := fileBytes_length plain
  replace small : (b.fileBytes gap params file).length < 2 ^ 32 := small
  have few : b.entries.length < 2 ^ 32 := by omega
  have count : (UInt32.ofNat b.entries.length).toNat = b.entries.length := UInt32.toNat_ofNat_of_lt' few
  have size : b.entries ≠ [] → (UInt32.ofNat (params.entrySize b.dim)).toNat = params.entrySize b.dim := by
    intro some_
    have one : 1 ≤ b.entries.length := length_pos_iff.mpr some_
    have many := Nat.mul_le_mul_right (params.entrySize b.dim) one
    have width : UInt32.size = 2 ^ 32 := rfl
    exact UInt32.toNat_ofNat_of_lt' (by omega)
  have meta_ : (UInt32.ofNat (128 + b.entries.length * params.entrySize b.dim)).toNat =
      128 + b.entries.length * params.entrySize b.dim := UInt32.toNat_ofNat_of_lt' (show _ < 2 ^ 32 by omega)
  -- The records are as long as the header says, also where there are none.
  have room : (UInt32.ofNat b.entries.length).toNat * (UInt32.ofNat (params.entrySize b.dim)).toNat =
      b.entries.length * params.entrySize b.dim := by
    by_cases none_ : b.entries = []
    · simp [none_]
    · rw [count,size none_]
  have behind : (b.fileBytes gap params file).drop 128 = file.entries ++ (offsets file ++ (blob file ++ tail)) := by
    rw [layout,← append_assoc,drop_left' front]
  have header : SegmentHeader.read (b.fileBytes gap params file) = b.header params file temporal := by
    rw [layout,SegmentHeader.read_bytes]
  have magic : (b.fileBytes gap params file).take 12 = kSegmentMagic := by
    rw [layout,SegmentHeader.bytes]
    simp only [append_assoc]
    exact take_left' rfl
  have whole : ¬ (b.fileBytes gap params file).length <
      128 + (UInt32.ofNat b.entries.length).toNat * (UInt32.ofNat (params.entrySize b.dim)).toNat + 4 := by
    rw [total,room]
    omega
  refine ⟨_,openBytes_plain pq header magic rfl rfl (by rw [total,SegmentHeader.size]; omega) whole,?_⟩
  refine ⟨count,by omega,rfl,⟨rfl,rfl,rfl⟩,size,⟨_,behind⟩,⟨tail,?_⟩,?_,?_⟩
  · show (b.fileBytes gap params file).drop (UInt32.ofNat (128 + b.entries.length * params.entrySize b.dim)).toNat = _
    rw [meta_,← drop_drop,behind,drop_left' records]
  · show (UInt32.ofNat (128 + b.entries.length * params.entrySize b.dim)).toNat ≠ 0
    rw [meta_]
    omega
  · show (blob file).length < 2 ^ 32
    omega

lemma blobs_before_le (metadata : List Metadata) (j : Nat) :
    ((metadata.take j).flatMap metadataBlob).length ≤ (metadata.flatMap metadataBlob).length := by
  conv_rhs => rw [← take_append_drop j metadata,flatMap_append,length_append]
  exact Nat.le_add_right _ _

lemma readU64_offsets {file : SegmentFile} (small : (blob file).length < 2 ^ 32) (tail : Bytes) {j : Nat}
    (most : j ≤ file.metadata.length) :
    (readU64 (offsets file ++ tail) (j * 8)).toNat = ((file.metadata.take j).flatMap metadataBlob).length := by
  have listed := blobOffsets_getElem? 0 most
  rw [Nat.zero_add] at listed
  have here := drop_records (fun n _ => le_length 8 n) listed
  have shorter : j * 8 ≤ (offsets file).length := by
    rw [offsets_length]
    omega
  have bound : ((file.metadata.take j).flatMap metadataBlob).length < 2 ^ 64 := by
    have part := blobs_before_le file.metadata j
    rw [blob] at small
    omega
  have whole : (UInt64.ofNat ((file.metadata.take j).flatMap metadataBlob).length).toNat =
      ((file.metadata.take j).flatMap metadataBlob).length := UInt64.toNat_ofNat_of_lt' bound
  grind [offsets,UInt64.ofNat,metadataBlob,blobOffsets,append_assoc,readU64_here]

def shown (buf : Vec) (dim : UInt32) (e : BuilderEntry) : SegmentEntry :=
  ⟨e.id,if e.is_deleted then [] else e.data buf dim,e.is_deleted,storedMetadata e.md⟩

namespace Mapped
variable (mapped : Mapped fl params b buf r)
include mapped

variable {e : BuilderEntry} {i : Nat}

lemma recordAt_here (plain : params.quant_type = .kNone) (held : b.sorted[i]? = some e) :
    ∃ rest, r.recordAt i = le 8 e.id.toNat ++ ([if e.is_deleted then kFlagTombstone else kFlagNone,0,0,0] ++
      (payload fl params .none buf b.dim e ++ rest)) := by
  obtain ⟨tail,records⟩ := mapped.records
  have some_ : b.entries ≠ [] := ne_nil_of_mem (mem_sorted.mp (mem_of_getElem? held))
  have inside : i < b.entries.length := by
    rw [← sorted_length]
    exact (List.getElem?_eq_some_iff.mp held).1
  have within : i * params.entrySize b.dim ≤ (b.plainFile fl params buf).entries.length := by
    rw [records_length plain]
    exact Nat.mul_le_mul_right _ (Nat.le_of_lt inside)
  have here : (b.plainFile fl params buf).entries.drop (i * params.entrySize b.dim) =
      record fl params .none buf b.dim e ++ (b.sorted.drop (i + 1)).flatMap (record fl params .none buf b.dim) :=
    drop_records (fun e _ => record_length (payload_short plain e)) held
  rw [MappedSegment.recordAt,← drop_drop,records,mapped.sized some_,drop_append_of_le_length within,here,record]
  simp

lemma readId_eq (plain : params.quant_type = .kNone) (held : b.sorted[i]? = some e) : r.readId i = e.id := by
  obtain ⟨rest,here⟩ := mapped.recordAt_here plain held
  rw [MappedSegment.readId,here]
  simp [readU64,slice_front]

lemma isDeleted_eq (plain : params.quant_type = .kNone) (held : b.sorted[i]? = some e) : r.isDeleted i = e.is_deleted := by
  obtain ⟨rest,here⟩ := mapped.recordAt_here plain held
  have flag : (r.recordAt i).getD 8 0 = if e.is_deleted then kFlagTombstone else kFlagNone := by
    rw [here,getD_eq_getElem?_getD,List.getElem?_append_right (by simp)]
    simp
  rw [MappedSegment.isDeleted,flag]
  cases e.is_deleted <;> decide

lemma payload_here (plain : params.quant_type = .kNone) (held : b.sorted[i]? = some e)
    (live : e.is_deleted = false) : ∃ rest, (r.recordAt i).drop 12 = words (e.data buf b.dim) ++ rest := by
  obtain ⟨rest,here⟩ := mapped.recordAt_here plain held
  have twelve : (le 8 e.id.toNat ++ [if e.is_deleted then kFlagTombstone else kFlagNone,0,0,0]).length = 12 := by simp
  refine ⟨rest,?_⟩
  rw [here,← append_assoc,drop_left' twelve,payload,live]
  rfl

lemma metaBlob_eq (held : b.sorted[i]? = some e) : r.metaBlob i = some (storedMetadata e.md) := by
  obtain ⟨tail,block⟩ := mapped.block
  have small := mapped.small
  have md : (b.plainFile fl params buf).metadata[i]? = some e.md := by simp [plainFile,held]
  have inside : i < (b.plainFile fl params buf).metadata.length := (List.getElem?_eq_some_iff.mp md).1
  have entries : (b.plainFile fl params buf).metadata.length = b.entries.length := by simp [plainFile,sorted_length]
  have start := readU64_offsets small (blob (b.plainFile fl params buf) ++ tail) (Nat.le_of_lt inside)
  have stop := readU64_offsets small (blob (b.plainFile fl params buf) ++ tail)
    (show i + 1 ≤ (b.plainFile fl params buf).metadata.length from inside)
  have next : (((b.plainFile fl params buf).metadata.take (i + 1)).flatMap metadataBlob).length =
      (((b.plainFile fl params buf).metadata.take i).flatMap metadataBlob).length + (metadataBlob e.md).length := by
    rw [take_add_one,md,flatMap_append,length_append]
    simp
  have before := blobs_before_le (b.plainFile fl params buf).metadata (i + 1)
  have blobs : (blob (b.plainFile fl params buf)).length = ((b.plainFile fl params buf).metadata.flatMap metadataBlob).length := rfl
  have positive := metadataBlob_pos e.md
  have count : (r.count + 1).toNat * 8 = (offsets (b.plainFile fl params buf)).length := by
    have few := mapped.few
    rw [offsets_length,entries,UInt32.toNat_add,mapped.count]
    simp
    omega
  have later : readU64 r.metaOffsets ((i + 1) * 8) > readU64 r.metaOffsets (i * 8) := by
    rw [gt_iff_lt,UInt64.lt_iff_toNat_lt,block,start,stop]
    omega
  rw [MappedSegment.metaBlob]
  simp only [if_pos later]
  rw [count,block,drop_left,start,drop_append_of_le_length (by omega),blob,drop_blobs md,append_assoc,
    MappedSegment.readBlob_metadataBlob _ _ (by omega)]

lemma getMetadata_eq (held : b.sorted[i]? = some e) : r.getMetadata i = storedMetadata e.md := by
  have inside : i < b.sorted.length := (List.getElem?_eq_some_iff.mp held).1
  have there : ¬ (r.metadata_offset = 0 ∨ i ≥ r.count.toNat) := by
    rw [mapped.count,← sorted_length]
    rintro (zero | outside)
    · exact mapped.there (by simp [zero])
    · omega
  rw [MappedSegment.getMetadata,if_neg there,mapped.metaBlob_eq held]
  rfl

variable (plain : params.quant_type = .kNone)
include plain

lemma vector_eq (held : b.sorted[i]? = some e)
    (live : e.is_deleted = false) : readWords r.dim.toNat ((r.recordAt i).drop 12) = e.data buf b.dim := by
  obtain ⟨rest,here⟩ := mapped.payload_here plain held live
  have floats := readWords_words (e.data buf b.dim) rest
  rw [e.data_length,← here] at floats
  rw [mapped.dim,floats]

lemma readAt_eq (index : UInt32) : r.readAt index = match (b.sorted.map (shown buf b.dim))[index.toNat]? with
      | some e => .ok e
      | none => .error (.invalidArgument "index out of range") := by
  have bound : index ≥ r.count ↔ b.sorted.length ≤ index.toNat := by
    rw [ge_iff_le,UInt32.le_iff_toNat_le,mapped.count,sorted_length]
  rw [getElem?_map]
  cases held : b.sorted[index.toNat]? with
  | none =>
    rw [MappedSegment.readAt,if_pos (bound.mpr (List.getElem?_eq_none_iff.mp held))]
    rfl
  | some e =>
    have inside : ¬ index ≥ r.count := by
      grind
    rw [MappedSegment.readAt,if_neg inside]
    simp only [mapped.readId_eq plain held,mapped.isDeleted_eq plain held,mapped.getMetadata_eq held,mapped.plain.1,
      bne_self_eq_false,Bool.or_false,Option.map_some,shown]
    cases kept : e.is_deleted with
    | true => rfl
    | false => simp only [mapped.vector_eq plain held kept]

lemma forEach_eq : r.forEach = (b.sorted.map (shown buf b.dim)).map fun e => (e.id,e.vec,e.is_deleted,some e.md) := by
  refine ext_getElem? ?_
  intro i
  rw [MappedSegment.forEach,mapped.count,← sorted_length,map_map,getElem?_map,getElem?_map]
  cases held : b.sorted[i]? with
  | none =>
    grind
  | some e =>
    have there : r.metadata_offset > 0 := by
      rw [gt_iff_lt,UInt32.lt_iff_toNat_lt]
      exact Nat.pos_of_ne_zero mapped.there
    rw [List.getElem?_range (List.getElem?_eq_some_iff.mp held).1]
    simp only [Option.map_some,mapped.readId_eq plain held,mapped.isDeleted_eq plain held,if_pos there,
      mapped.metaBlob_eq held,MappedSegment.shownVec,mapped.plain.2.1,mapped.plain.2.2,Function.comp_apply,shown]
    cases kept : e.is_deleted with
    | true => rfl
    | false => simp [mapped.vector_eq plain held kept]

lemma ids_eq : (List.range r.count.toNat).map r.readId = b.sorted.map BuilderEntry.id := by
  refine ext_getElem? ?_
  intro i
  rw [mapped.count,← sorted_length,getElem?_map,getElem?_map]
  cases held : b.sorted[i]? with
  | none =>
    grind
  | some e =>
    rw [List.getElem?_range (List.getElem?_eq_some_iff.mp held).1]
    simp only [Option.map_some,mapped.readId_eq plain held]

lemma search_eq (id : VectorId) : BinarySearch.search ((List.range r.count.toNat).map r.readId) id 0 (r.count.toNat - 1) =
      BinarySearch.search (b.sorted.map BuilderEntry.id) id 0 ((b.sorted.map BuilderEntry.id).length - 1) := by
  rw [mapped.ids_eq plain,mapped.count,length_map,sorted_length]

lemma findRaw_held (ascending : (b.sorted.map BuilderEntry.id).Pairwise (· < ·))
    (held : b.sorted[i]? = some e) : r.findRaw e.id = if e.is_deleted then (.kFoundTombstone,[],storedMetadata e.md)
      else (.kFound,(r.recordAt i).drop 12,storedMetadata e.md) := by
  have found := (BinarySearch.search_eq_some ascending e.id i).mpr (by simp [held])
  rw [MappedSegment.findRaw,mapped.search_eq plain,found]
  simp only [mapped.isDeleted_eq plain held,mapped.getMetadata_eq held]

lemma findRaw_absent {id : VectorId} (absent : id ∉ b.sorted.map BuilderEntry.id) : r.findRaw id = (.kNotFound,[],{}) := by
  rw [MappedSegment.findRaw,mapped.search_eq plain]
  cases found : BinarySearch.search (b.sorted.map BuilderEntry.id) id 0 ((b.sorted.map BuilderEntry.id).length - 1) with
  | none => rfl
  | some i => exact absurd (mem_of_getElem? (BinarySearch.search_sound found)) absent

end Mapped
def addEntry (b : SegmentBuilder) (e : SegmentEntry) : SegmentBuilder × Status :=
  b.add e.id (.arena e.vec) (UInt32.ofNat e.vec.length) e.is_deleted e.md

def addAll (b : SegmentBuilder) (items : List SegmentEntry) : SegmentBuilder := items.foldl (fun b e => (b.addEntry e).1) b

def kept (e : SegmentEntry) : BuilderEntry := ⟨e.id,if e.is_deleted then .null else .arena e.vec,e.is_deleted,e.md⟩

lemma addAll_entries (b : SegmentBuilder) (items : List SegmentEntry)
    (fit : ∀ e ∈ items, e.is_deleted = false → e.vec.length = b.dim.toNat) :
    b.addAll items = ⟨b.dim,b.entries ++ items.map kept⟩ := by
  induction items generalizing b with
  | nil => simp [addAll]
  | cons e rest ih =>
    have one : (b.addEntry e).1 = ⟨b.dim,b.entries ++ [kept e]⟩ := by
      cases deleted : e.is_deleted with
      | true => simp [addEntry,add,deleted,kept]
      | false =>
        simp [fit e (.head _) deleted,UInt32.ofNat_toNat,addEntry,add,deleted,kept]
    have more := ih (b.addEntry e).1 (by rw [one]; exact fun x member => fit x (.tail _ member))
    rw [addAll,foldl_cons,← addAll,more,one]
    simp

end SegmentBuilder

/-- An entry without what nobody asks of a tombstone. -/
def SegmentEntry.shown (e : SegmentEntry) : SegmentEntry := if e.is_deleted then ⟨e.id,[],true,{}⟩ else e

/-- Everything that was added is read back, and nothing else. -/
structure MappedSegment.ReadsBack (r : MappedSegment) (items : List SegmentEntry) : Prop where
  live : ∀ e ∈ items, e.is_deleted = false → r.get e.id = .ok (words e.vec,e.md) ∧
    ∃ payload, r.findRaw e.id = (.kFound,payload,e.md) ∧ readWords r.dim.toNat payload = e.vec
  deleted : ∀ e ∈ items, e.is_deleted = true → r.get e.id = .error (.notFound "tombstone") ∧
    (r.findRaw e.id).1 = .kFoundTombstone
  absent : ∀ id, id ∉ items.map SegmentEntry.id → r.get id = .error (.notFound "id not found in segment") ∧
    r.findRaw id = (.kNotFound,[],{})
  listed : ∃ listing : List SegmentEntry, (listing.map SegmentEntry.shown).Perm (items.map SegmentEntry.shown) ∧
    listing.Pairwise (fun x y => x.id < y.id) ∧ r.count.toNat = listing.length ∧
    (∀ index : UInt32, r.readAt index = match listing[index.toNat]? with
      | some e => .ok e
      | none => .error (.invalidArgument "index out of range")) ∧
    r.forEach = listing.map fun e => (e.id,e.vec,e.is_deleted,some e.md)

/-- No string of the metadata has a length that the 32-bit length field takes for zero. -/
def Metadata.Lossless (md : Metadata) : Prop :=
  ∀ s ∈ [md.device_id,md.location_id,md.tenant,md.text,md.payload], s.length % 2 ^ 32 = 0 → s = []

instance (md : Metadata) : Decidable md.Lossless := inferInstanceAs (Decidable (∀ s ∈ _, _ → _))

lemma keptStr_eq_iff (s : Bytes) : keptStr s = s ↔ (s.length % 2 ^ 32 = 0 → s = []) := by
  simp [gt_iff_lt,UInt32.lt_iff_toNat_lt,UInt32.toNat_ofNat,keptStr]

lemma storedMetadata_eq_iff (md : Metadata) : storedMetadata md = md ↔ md.Lossless := by
  simp only [Metadata.Lossless,mem_cons,not_mem_nil,or_false,forall_eq_or_imp,forall_eq,← keptStr_eq_iff]
  obtain ⟨tenant,device_id,location_id,src_vid,timestamp,lsn,text,payload,lat,lon⟩ := md
  simp only [storedMetadata,Metadata.mk.injEq]
  tauto

namespace SegmentBuilder
variable {fl : FloatOps} {params : IndexParams} {buf : Vec} {dim : UInt32} {items : List SegmentEntry} {r : MappedSegment}

lemma kept_data (buf : Vec) {e : SegmentEntry} (live : e.is_deleted = false) (fit : e.vec.length = dim.toNat) :
    (kept e).data buf dim = e.vec := by
  grind [ext_getElem,BuilderEntry.data_length,BuilderEntry.data,kept,View.floats]

def filled (dim : UInt32) (items : List SegmentEntry) : SegmentBuilder := ⟨dim,items.map kept⟩

lemma filled_sorted (dim : UInt32) (distinct : (items.map SegmentEntry.id).Nodup) :
    (filled dim items).sorted.Perm (items.map kept) ∧ ((filled dim items).sorted.map BuilderEntry.id).Pairwise (· < ·) := by
  have perm : (filled dim items).sorted.Perm (items.map kept) := perm_insertionSort _ _
  have same : (items.map kept).map BuilderEntry.id = items.map SegmentEntry.id := by
    rw [map_map]
    rfl
  have unequal : ((filled dim items).sorted.map BuilderEntry.id).Nodup := by
    rw [(perm.map _).nodup_iff,same]
    exact distinct
  exact ⟨perm,(sorted_ids.and unequal).imp fun ⟨le,ne⟩ => lt_of_le_of_ne le ne⟩

namespace Mapped
variable (mapped : Mapped fl params (filled dim items) buf r)
include mapped

lemma findRaw_item (plain : params.quant_type = .kNone) (distinct : (items.map SegmentEntry.id).Nodup)
    (fit : ∀ e ∈ items, e.is_deleted = false → e.vec.length = dim.toNat) {e : SegmentEntry} (member : e ∈ items) :
    if e.is_deleted then r.findRaw e.id = (.kFoundTombstone,[],storedMetadata e.md)
    else ∃ rest, r.findRaw e.id = (.kFound,words e.vec ++ rest,storedMetadata e.md) := by
  obtain ⟨perm,ascending⟩ := filled_sorted dim distinct
  obtain ⟨i,held⟩ := mem_iff_getElem?.mp (perm.mem_iff.mpr (mem_map_of_mem (f := kept) member))
  have found := mapped.findRaw_held plain ascending held
  cases deleted : e.is_deleted with
  | true => simpa [kept,deleted] using found
  | false =>
    obtain ⟨rest,here⟩ := mapped.payload_here plain held deleted
    grind [kept,filled,kept_data]

lemma readsBack (plain : params.quant_type = .kNone) (distinct : (items.map SegmentEntry.id).Nodup)
    (fit : ∀ e ∈ items, e.is_deleted = false → e.vec.length = dim.toNat)
    (lossless : ∀ e ∈ items, e.is_deleted = false → storedMetadata e.md = e.md) : r.ReadsBack items := by
  obtain ⟨perm,ascending⟩ := filled_sorted dim distinct
  have dims : r.dim = dim := mapped.dim
  refine ⟨?_,?_,?_,(filled dim items).sorted.map (SegmentBuilder.shown buf dim),?_,?_,?_,mapped.readAt_eq plain,mapped.forEach_eq plain⟩
  · intro e member live
    have found := mapped.findRaw_item plain distinct fit member
    rw [live,lossless e member live] at found
    obtain ⟨rest,found⟩ := found
    have size : MappedSegment.codeBytes r.quant_type r.dim.toNat (r.dim.toNat * 4) = (words e.vec).length := by
      rw [mapped.plain.1,words_length,fit e member live,dims,Nat.mul_comm]
      rfl
    refine ⟨?_,_,found,?_⟩
    · rw [MappedSegment.get,found]
      simp only [size,take_left]
    · have floats := readWords_words e.vec rest
      rwa [fit e member live,← dims] at floats
  · intro e member deleted
    have found := mapped.findRaw_item plain distinct fit member
    rw [deleted,if_pos rfl] at found
    rw [MappedSegment.get,found]
    exact ⟨rfl,rfl⟩
  · intro id absent
    have missing : id ∉ (filled dim items).sorted.map BuilderEntry.id := by
      rw [(perm.map _).mem_iff,map_map]
      exact absent
    have found := mapped.findRaw_absent plain missing
    refine ⟨?_,found⟩
    rw [MappedSegment.get,found]
  · rw [map_map]
    refine (perm.map _).trans (.of_eq ?_)
    rw [map_map]
    refine map_congr_left ?_
    intro e member
    cases deleted : e.is_deleted with
    | true => simp [SegmentBuilder.shown,kept,deleted,SegmentEntry.shown]
    | false =>
      have data := kept_data buf deleted (fit e member deleted)
      simp only [kept,deleted,Bool.false_eq_true,if_false] at data
      have md := lossless e member deleted
      cases e
      simp_all [SegmentBuilder.shown,SegmentEntry.shown,kept]
  · rw [pairwise_map]
    exact (pairwise_map.mp ascending).imp id
  · rw [mapped.count,length_map,sorted_length]

end Mapped

/-- A segment file shorter than `2 ^ 32` bytes gives everything back that was added exactly if
no string of the metadata of a live entry has a positive multiple of `2 ^ 32` bytes. -/
theorem segment_reads_back_iff (fl : FloatOps) (gap : Nat → Nat) (pq : Option ProductQuantizer) (params : IndexParams)
    (plain : params.quant_type = .kNone) (codebook : Nat → Nat → Vec) (buf : Vec) (dim : UInt32) (items : List SegmentEntry)
    (distinct : (items.map SegmentEntry.id).Nodup)
    (fit : ∀ e ∈ items, e.is_deleted = false → e.vec.length = dim.toNat) :
    ∃ bytes, ((create dim).addAll items).finishBytes fl gap params codebook buf = .ok bytes ∧
      (bytes.length < 2 ^ 32 → ∃ r, MappedSegment.openBytes fl pq bytes = .ok r ∧
        (r.ReadsBack items ↔ ∀ e ∈ items, e.is_deleted = false → e.md.Lossless)) := by
  have built : (create dim).addAll items = filled dim items := addAll_entries (create dim) items fit
  rw [built,finishBytes,finishFile_plain plain]
  refine ⟨_,rfl,?_⟩
  intro small
  obtain ⟨r,opened,mapped⟩ := openBytes_mapped pq plain small
  refine ⟨r,opened,?_⟩
  simp only [← storedMetadata_eq_iff]
  constructor
  · intro reads e member live
    have found := mapped.findRaw_item plain distinct fit member
    obtain ⟨-,payload,read,-⟩ := reads.live e member live
    grind
  · exact mapped.readsBack plain distinct fit

def mixedEntries : List SegmentEntry :=
  [⟨9,[float1,floatMinus1],false,{ tenant := [1,2], timestamp := 5 }⟩,⟨4,[],true,{ text := [7] }⟩,⟨6,[float0,float1],false,{}⟩]

theorem segment_reads_back_mixed : ∃ bytes r,
    ((create 2).addAll mixedEntries).finishBytes Platform.plain.floats (fun _ => 0) {} (fun _ _ => []) [] = .ok bytes ∧
      MappedSegment.openBytes Platform.plain.floats none bytes = .ok r ∧ r.ReadsBack mixedEntries := by
  obtain ⟨bytes,built,reads⟩ := segment_reads_back_iff Platform.plain.floats (fun _ => 0) none {} rfl (fun _ _ => []) []
    2 mixedEntries (by decide) (by decide)
  have small : bytes.length < 2 ^ 32 := by
    have short : (((create 2).addAll mixedEntries).finishBytes Platform.plain.floats (fun _ => 0) {}
        (fun _ _ => []) []).toOption.all (fun bytes => bytes.length < 2 ^ 32) = true := by decide +kernel
    simpa [built,Except.toOption] using short
  obtain ⟨r,opened,same⟩ := reads small
  exact ⟨bytes,r,built,opened,same.mpr (by decide)⟩

lemma metadataBlob_length (md : Metadata) : (metadataBlob md).length = 60 + (keptStr md.device_id).length +
    (keptStr md.location_id).length + (keptStr md.tenant).length + (keptStr md.text).length + (keptStr md.payload).length := by
  have each (s : Bytes) : (addStr s).length = 4 + (keptStr s).length := by
    rw [addStr,keptStr,length_append,le_length]
  simp only [metadataBlob,length_append,le_length,each]
  omega

lemma text_lost {text : Bytes} (long : text.length = 2 ^ 32) : ∃ bytes r,
    ((create 1).addAll [⟨7,[float1],false,{ text }⟩]).finishBytes Platform.plain.floats (fun _ => 0) {} (fun _ _ => []) [] =
      .ok bytes ∧ bytes.length = 288 ∧ MappedSegment.openBytes Platform.plain.floats none bytes = .ok r ∧
      ¬ r.ReadsBack [⟨7,[float1],false,{ text }⟩] := by
  have lost : keptStr text = [] := by
    rw [keptStr,long,if_neg (by decide)]
  have built : (create 1).addAll [⟨7,[float1],false,{ text }⟩] = filled 1 [⟨7,[float1],false,{ text }⟩] :=
    addAll_entries (create 1) _ (by simp [create])
  have size : ((filled 1 [⟨7,[float1],false,{ text }⟩]).fileBytes (fun _ => 0) {}
      ((filled 1 [⟨7,[float1],false,{ text }⟩]).plainFile Platform.plain.floats {} [])).length = 288 := by
    have blobs : (blob ((filled 1 [⟨7,[float1],false,{ text }⟩]).plainFile Platform.plain.floats {} [])).length = 60 := by
      have empty : keptStr [] = [] := rfl
      simp [blob,plainFile,sorted,filled,kept,metadataBlob_length,lost,empty]
    have entry : IndexParams.entrySize {} 1 = 64 := by decide
    rw [fileBytes_length rfl,blobs]
    simp [filled,entry]
  obtain ⟨r,opened,mapped⟩ : ∃ r, MappedSegment.openBytes Platform.plain.floats none
      ((filled 1 [⟨7,[float1],false,{ text }⟩]).fileBytes (fun _ => 0) {}
        ((filled 1 [⟨7,[float1],false,{ text }⟩]).plainFile Platform.plain.floats {} [])) = .ok r ∧
      Mapped Platform.plain.floats {} (filled 1 [⟨7,[float1],false,{ text }⟩]) [] r :=
    openBytes_mapped none rfl (by rw [size]; decide)
  rw [built,finishBytes,finishFile_plain rfl]
  refine ⟨_,r,rfl,size,opened,?_⟩
  intro reads
  have found := mapped.findRaw_item rfl (by simp) (by simp) (.head _)
  obtain ⟨_,payload,there,_⟩ := reads.live _ (.head _) rfl
  rw [if_neg Bool.false_ne_true,there] at found
  obtain ⟨rest,found⟩ := found
  have same : text = keptStr text := congrArg (fun result => Metadata.text result.2.2) found
  rw [lost] at same
  simp [same] at long

theorem segment_loses_text : ∃ bytes r,
    ((create 1).addAll [⟨7,[float1],false,{ text := replicate (2 ^ 32) 65 }⟩]).finishBytes Platform.plain.floats (fun _ => 0)
      {} (fun _ _ => []) [] = .ok bytes ∧ bytes.length = 288 ∧
    MappedSegment.openBytes Platform.plain.floats none bytes = .ok r ∧
    ¬ r.ReadsBack [⟨7,[float1],false,{ text := replicate (2 ^ 32) 65 }⟩] :=
  text_lost length_replicate

end SegmentBuilder
end PomaiCache
