import PomaiCache.Crc
import PomaiCache.SegmentBytes

/-!
The checksum at the end of a segment file. `Finish` sums up the pieces as it appends them, and
then writes the header anew, with the offset of the temporal index, over the one it has summed.
-/
namespace PomaiCache
open Codec List Options

namespace Codec

lemma toBitVec_shift (crc : UInt32) :
    ((crc >>> 1) ^^^ (kPoly &&& (~~~(crc &&& 1) + 1))).toBitVec = Crc.shift kPoly.toBitVec crc.toBitVec := by
  have mask : (kPoly &&& (~~~(crc &&& 1) + 1)).toBitVec = if crc.toBitVec.getLsbD 0 then kPoly.toBitVec else 0 := by
    have low : (crc &&& 1).toBitVec = (BitVec.ofBool (crc.toBitVec.getLsbD 0)).setWidth 32 := by
      rw [UInt32.toBitVec_and]
      exact BitVec.and_one_eq_setWidth_ofBool_getLsbD
    simp only [UInt32.toBitVec_and kPoly,UInt32.toBitVec_add,UInt32.toBitVec_not,low]
    cases crc.toBitVec.getLsbD 0 <;> decide
  rw [UInt32.toBitVec_xor,mask]
  rfl

lemma toBitVec_tableAt (i : UInt32) : (tableAt i).toBitVec = Crc.shifts kPoly.toBitVec 8 i.toBitVec := by
  have walk (n : Nat) : ((List.range n).foldl (fun (crc : UInt32) _ => (crc >>> 1) ^^^ (kPoly &&& (~~~(crc &&& 1) + 1))) i).toBitVec =
      Crc.shifts kPoly.toBitVec n i.toBitVec := by
    induction n with
    | zero => rfl
    | succ n ih =>
      rw [range_succ,foldl_append,foldl_cons,foldl_nil,toBitVec_shift,ih,Nat.add_comm n 1,Crc.shifts_add]
      rfl
  exact walk 8

lemma toBitVec_crcStep (crc : UInt32) (byte : UInt8) :
    (crcStep crc byte).toBitVec = Crc.step kPoly.toBitVec crc.toBitVec byte.toBitVec := by
  have bits (i : Nat) : ((crc.toBitVec ^^^ byte.toBitVec.setWidth 32) &&& 0xFF).getLsbD i =
      (decide (i < 8) && (crc.toBitVec ^^^ byte.toBitVec.setWidth 32).getLsbD i) := by
    have mask : (255 : BitVec 32).getLsbD i = decide (i < 8) := by
      rw [show (255 : BitVec 32) = (BitVec.allOnes 8).setWidth 32 by decide,BitVec.getLsbD_setWidth,BitVec.getLsbD_allOnes]
      grind
    rw [BitVec.getLsbD_and,mask,Bool.and_comm]
  have high : (crc.toBitVec ^^^ byte.toBitVec.setWidth 32) >>> 8 = crc.toBitVec >>> 8 := by
    refine BitVec.eq_of_getLsbD_eq fun i inside => ?_
    simp
  rw [Crc.step,Crc.shifts_split _ bits,high,crcStep,UInt32.toBitVec_xor,toBitVec_tableAt]
  rfl

lemma toBitVec_foldl_crcStep (data : Bytes) (crc : UInt32) :
    (data.foldl crcStep crc).toBitVec = (data.map UInt8.toBitVec).foldl (Crc.step kPoly.toBitVec) crc.toBitVec := by
  induction data generalizing crc with
  | nil => rfl
  | cons byte rest ih => rw [foldl_cons,ih,toBitVec_crcStep,map_cons,foldl_cons]

lemma crc32c_burst {before left right after : Bytes} {seed : UInt32} (same : left.length = right.length)
    (fits : left.length ≤ 4) (equal : crc32c (before ++ (left ++ after)) seed = crc32c (before ++ (right ++ after)) seed) :
    left = right := by
  have states := congrArg UInt32.toBitVec (UInt32.not_inj.mp equal)
  simp only [toBitVec_foldl_crcStep,map_append] at states
  have top : kPoly.toBitVec.msb = true := by decide
  have burst := Crc.burst_injective top (by simpa using same) (by rw [length_map]; omega) states
  exact map_injective_iff.mpr (fun _ _ => UInt8.toBitVec_inj.mp) burst

end Codec

structure SegmentStream where
  bytes : Bytes := []
  crc : UInt32 := 0

namespace SegmentStream

def append (s : SegmentStream) (piece : Bytes) : SegmentStream := {s with bytes := s.bytes ++ piece}

def summed (s : SegmentStream) (piece : Bytes) : SegmentStream := {s.append piece with crc := crc32c piece s.crc}

def pwrite (s : SegmentStream) (off : Nat) (piece : Bytes) : SegmentStream :=
  {s with bytes := s.bytes.take off ++ piece ++ s.bytes.drop (off + piece.length)}

lemma foldl_summed (pieces : List Bytes) (s : SegmentStream) :
    pieces.foldl summed s = ⟨s.bytes ++ pieces.flatten,crc32c pieces.flatten s.crc⟩ := by
  induction pieces generalizing s with
  | nil => simp [crc32c]
  | cons piece rest ih => simp [ih,summed,append,← crc32c_append]

end SegmentStream

namespace SegmentBuilder
variable {fl : FloatOps} {gap : Nat → Nat} {params : IndexParams} {codebook : Nat → Nat → Vec} {b : SegmentBuilder} {buf : Vec}

def stream (gap : Nat → Nat) (params : IndexParams) (b : SegmentBuilder) (file : SegmentFile) (records : List Bytes) : Bytes :=
  let first := b.header params file 0
  let s := records.foldl SegmentStream.summed ((({} : SegmentStream).summed first.bytes).summed pad)
  let s := s.pwrite 0 (b.header params file
    (UInt32.ofNat (first.metadata_offset.toNat + (offsets file).length + (blob file).length))).bytes
  let s := s.summed (offsets file)
  let s := if (blob file).isEmpty then s else s.summed (blob file)
  let s := s.summed (temporalIndex gap file.metadata)
  (s.append (le 4 s.crc.toNat)).bytes

/-- The file written in pieces, its header patched later, is the same. -/
theorem stream_eq (file : SegmentFile) (records : List Bytes) :
    let file := {file with entries := records.flatten}
    b.stream gap params file records = b.fileBytes gap params file := by
  intro file
  have skipped (s : SegmentStream) : (if (blob file).isEmpty then s else s.summed (blob file)) = s.summed (blob file) := by
    cases none_ : (blob file).isEmpty with
    | false => rfl
    | true => simp [isEmpty_iff.mp none_,SegmentStream.summed,SegmentStream.append,crc32c]
  have front (h : SegmentHeader) (rest : Bytes) : ((b.header params file 0).bytes ++ rest).drop h.bytes.length = rest :=
    drop_left' (by rw [SegmentHeader.bytes_length,SegmentHeader.bytes_length])
  simp only [stream,skipped,SegmentStream.foldl_summed]
  simp only [SegmentStream.summed,SegmentStream.append,SegmentStream.pwrite,fileBytes,crc32c_append,nil_append,
    append_assoc,take_zero,Nat.zero_add,front]
  rfl

def Checked (bytes : Bytes) : Prop :=
  bytes.drop (bytes.length - 4) = le 4 (crc32c (bytes.take (bytes.length - 4)) 0).toNat

lemma checked_append (front last : Bytes) (four : last.length = 4) :
    Checked (front ++ last) ↔ last = le 4 (crc32c front 0).toNat := by
  grind [Checked,drop_left,take_left]

lemma le_four_inj {x y : UInt32} : le 4 x.toNat = le 4 y.toNat ↔ x = y :=
  ⟨fun same => by rw [← ofNat_leNat_u32 x,same,ofNat_leNat_u32],fun same => by rw [same]⟩

/-- Where the temporal index starts, as the header has it before it is cut to 32 bits. -/
def temporalOffset (params : IndexParams) (b : SegmentBuilder) : Nat :=
  128 + b.entries.length * params.entrySize b.dim + 8 * (b.entries.length + 1) +
    (b.entries.map fun e => (metadataBlob e.md).length).sum

lemma finishFile_metadata {file : SegmentFile} (built : b.finishFile fl params codebook buf = .ok file) :
    (offsets file).length = 8 * (b.entries.length + 1) ∧
      (blob file).length = (b.entries.map fun e => (metadataBlob e.md).length).sum := by
  obtain ⟨trained,ready⟩ := finishFile_trained built
  rw [finishFile,ready] at built
  cases built
  have sorted : b.sorted.Perm b.entries := perm_insertionSort _ _
  constructor
  · rw [offsets,length_flatMap]
    simp [blobOffsets_length,sorted.length_eq,Nat.mul_comm]
  · rw [blob,length_flatMap,map_map]
    exact (sorted.map _).sum_eq

lemma header_split (params : IndexParams) (b : SegmentBuilder) (file : SegmentFile) :
    ∃ front, ∀ offset, (b.header params file offset).bytes = front ++ (le 4 offset.toNat ++ le 4 0) := by
  apply Exists.intro
  intro offset
  simp only [SegmentHeader.bytes,header,← append_assoc]
  rfl

lemma checked_fileBytes_iff (file : SegmentFile) : Checked (b.fileBytes gap params file) ↔
    UInt32.ofNat ((b.header params file 0).metadata_offset.toNat + (offsets file).length + (blob file).length) = 0 := by
  generalize moved : UInt32.ofNat ((b.header params file 0).metadata_offset.toNat + (offsets file).length + (blob file).length) =
    offset
  generalize rest : pad ++ (file.entries ++ (offsets file ++ (blob file ++ temporalIndex gap file.metadata))) = tail
  have whole : b.fileBytes gap params file = ((b.header params file offset).bytes ++ tail) ++
      le 4 (crc32c ((b.header params file 0).bytes ++ tail) 0).toNat := by
    simp only [fileBytes,moved,← rest,append_assoc]
  rw [whole,checked_append _ _ (le_length 4 _),le_four_inj]
  obtain ⟨front,split⟩ := header_split params b file
  constructor
  · intro same
    simp only [split,append_assoc] at same
    exact (le_four_inj.mp (crc32c_burst (by simp) (by simp) same)).symm
  · rintro rfl
    rfl

/-- The checksum is that of the file exactly if the offset of the temporal index is a multiple of `2 ^ 32`. -/
theorem checksum_iff {bytes : Bytes} (finished : b.finishBytes fl gap params codebook buf = .ok bytes) :
    Checked bytes ↔ 2 ^ 32 ∣ b.temporalOffset params := by
  cases built : b.finishFile fl params codebook buf with
  | error st =>
    rw [finishBytes,built] at finished
    cases finished
  | ok file =>
    rw [finishBytes,built] at finished
    cases finished
    obtain ⟨offsets_,blob_⟩ := finishFile_metadata built
    have start : (b.header params file 0).metadata_offset.toNat = (128 + b.entries.length * params.entrySize b.dim) % 2 ^ 32 :=
      UInt32.toNat_ofNat'
    rw [checked_fileBytes_iff,offsets_,blob_,start,← UInt32.toNat_inj,UInt32.toNat_ofNat',temporalOffset]
    have zero : (0 : UInt32).toNat = 0 := rfl
    omega

def oneVector : SegmentBuilder := ⟨1,[⟨7,.arena [5],false,{}⟩]⟩

theorem checksum_iff_one : ∃ bytes, oneVector.finishBytes Platform.plain.floats (fun _ => 0) {} (fun _ _ => []) [] = .ok bytes ∧
    (Checked bytes ↔ 2 ^ 32 ∣ oneVector.temporalOffset {}) :=
  ⟨_,rfl,@checksum_iff _ _ _ (fun _ _ => []) _ [] _ rfl⟩

/-- The checksum at the end of that segment is not the one of its bytes. -/
theorem checksum_misses_header : ∃ bytes,
    oneVector.finishBytes Platform.plain.floats (fun _ => 0) {} (fun _ _ => []) [] = .ok bytes ∧ ¬Checked bytes := by
  refine ⟨_,rfl,?_⟩
  rw [checked_fileBytes_iff]
  decide

end SegmentBuilder
end PomaiCache
