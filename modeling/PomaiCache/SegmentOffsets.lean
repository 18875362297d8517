import PomaiCache.SegmentChecksum

/-!
The offsets in the header of a segment. They are computed in 64 bits and stored in 32, and the
size of a code is computed in 32 bits before; nothing checks what is cut off. Every append to the
file is taken to be complete.
-/
namespace PomaiCache.SegmentBuilder
open Codec List Options

variable {fl : FloatOps} {params : IndexParams} {codebook : Nat → Nat → Vec} {b : SegmentBuilder} {buf : Vec} {trained : Trained}
  {file : SegmentFile}

/-- The size of a code is computed without a carry. -/
def Unwrapped (params : IndexParams) (dim : UInt32) : Prop :=
  match params.quant_type with
  | .kFp16 => dim.toNat * 2 < 2 ^ 32
  | .kBit => dim.toNat + 7 < 2 ^ 32
  | _ => True

/-- Each record fills an entry, and the two blocks behind the records start where the header says. A
vector that is copied behind the end of its entry is a record that is too long. -/
structure OffsetsTrue (fl : FloatOps) (params : IndexParams) (trained : Trained) (buf : Vec) (b : SegmentBuilder)
    (file : SegmentFile) (h : SegmentHeader) : Prop where
  entry_size : ∀ e ∈ b.entries, (record fl params trained buf b.dim e).length = h.entry_size.toNat
  metadata_offset : h.metadata_offset.toNat = 128 + file.entries.length
  temporal_index_offset : h.temporal_index_offset.toNat = 128 + file.entries.length + (offsets file).length + (blob file).length

def finalHeader (params : IndexParams) (b : SegmentBuilder) (file : SegmentFile) : SegmentHeader :=
  b.header params file (UInt32.ofNat ((b.header params file 0).metadata_offset.toNat + (offsets file).length + (blob file).length))

/-- A code has the bytes that were reserved for it, unless the size was cut, and then it has far more. -/
lemma code_length (ready : b.train fl params codebook buf = .ok trained) (e : BuilderEntry) :
    (Unwrapped params b.dim → (trained.encode fl (e.data buf b.dim)).length ≤ params.vecBytes b.dim) ∧
      (¬Unwrapped params b.dim → params.vecBytes b.dim + 63 < (trained.encode fl (e.data buf b.dim)).length) := by
  have small := b.dim.toNat_lt
  cases type : params.quant_type with
  | kNone =>
    simp only [train,type] at ready
    cases ready
    simp [Trained.encode,Unwrapped,type,IndexParams.vecBytes,Nat.mul_comm]
  | kSq8 =>
    have short (q : ScalarQuantizer8Bit) : (q.encode fl (e.data buf b.dim)).length ≤ b.dim.toNat := by
      rw [ScalarQuantizer8Bit.encode]
      split <;> simp
    obtain ⟨q,rfl,_⟩ := train_sq8 ready type
    simp only [Unwrapped,type,IndexParams.vecBytes,not_true_eq_false,false_implies,and_true,forall_const]
    exact short q
  | kFp16 =>
    simp only [train,type] at ready
    cases ready
    have code : (HalfFloat.encode b.dim.toNat (e.data buf b.dim)).length = b.dim.toNat * 2 := by
      simp [HalfFloat.encode,length_flatMap]
    have reserved : (b.dim * 2).toNat = b.dim.toNat * 2 % 2 ^ 32 := UInt32.toNat_mul _ _
    simp only [Trained.encode,VectorQuantizer.encode,code,Unwrapped,type,IndexParams.vecBytes,reserved]
    omega
  | kBit =>
    simp only [train,type] at ready
    cases ready
    have code : (BitQuantizer.encode fl b.dim.toNat (e.data buf b.dim)).length = (b.dim.toNat + 7) / 8 := by
      simp [BitQuantizer.encode,BitQuantizer.bitQuantize_length]
    have reserved : ((b.dim + 7) / 8).toNat = (b.dim.toNat + 7) % 2 ^ 32 / 8 := rfl
    simp only [Trained.encode,VectorQuantizer.encode,code,Unwrapped,type,IndexParams.vecBytes,reserved]
    omega
  | kPq8 =>
    grind [train,Trained.encode,ProductQuantizer.encode,Unwrapped,IndexParams.vecBytes]

lemma record_fills_iff (ready : b.train fl params codebook buf = .ok trained) (e : BuilderEntry) :
    (record fl params trained buf b.dim e).length = params.entrySize b.dim ↔ (e.is_deleted = false → Unwrapped params b.dim) := by
  obtain ⟨short,long⟩ := code_length ready e
  cases deleted : e.is_deleted with
  | true => simp [record_length (show (payload fl params trained buf b.dim e).length ≤ _ by simp [payload,deleted])]
  | false =>
    by_cases unwrapped : Unwrapped params b.dim
    · grind [record_length,payload]
    · have longer := long unwrapped
      simp only [record,payload,deleted,Bool.false_eq_true,if_false,length_append,length_cons,length_replicate,
        le_length,length_nil,forall_const,unwrapped,iff_false,IndexParams.entrySize]
      omega

lemma entries_length (built : b.finishFile fl params codebook buf = .ok file) (ready : b.train fl params codebook buf = .ok trained)
    (filled : ∀ e ∈ b.entries, (record fl params trained buf b.dim e).length = params.entrySize b.dim) :
    file.entries.length = b.entries.length * params.entrySize b.dim := by
  rw [finishFile,ready] at built
  cases built
  have sized : ∀ e ∈ b.sorted, (record fl params trained buf b.dim e).length = params.entrySize b.dim :=
    fun e member => filled e (mem_sorted.mp member)
  rw [length_flatMap,map_congr_left sized,map_const',sum_replicate,sorted_length]
  rfl

section
variable (built : b.finishFile fl params codebook buf = .ok file) (ready : b.train fl params codebook buf = .ok trained)
include built

lemma finalHeader_eq : (b.finalHeader params file).entry_size.toNat = params.entrySize b.dim % 2 ^ 32 ∧
    (b.finalHeader params file).metadata_offset.toNat = (128 + b.entries.length * params.entrySize b.dim) % 2 ^ 32 ∧
    (b.finalHeader params file).temporal_index_offset.toNat = b.temporalOffset params % 2 ^ 32 := by
  obtain ⟨offsets_,blob_⟩ := finishFile_metadata built
  obtain ⟨trained,ready⟩ := finishFile_trained built
  have start : (b.header params file 0).metadata_offset.toNat = (128 + b.entries.length * params.entrySize b.dim) % 2 ^ 32 :=
    UInt32.toNat_ofNat'
  have temporal : (b.finalHeader params file).temporal_index_offset.toNat =
      ((b.header params file 0).metadata_offset.toNat + (offsets file).length + (blob file).length) % 2 ^ 32 := UInt32.toNat_ofNat'
  refine ⟨?_,start,?_⟩
  · rw [finishFile,ready] at built
    cases built
    exact UInt32.toNat_ofNat'
  · rw [temporal,start,offsets_,blob_,temporalOffset]
    omega

include ready

lemma offsetsTrue_of_filled (filled : ∀ e ∈ b.entries, (record fl params trained buf b.dim e).length = params.entrySize b.dim) :
    OffsetsTrue fl params trained buf b file (b.finalHeader params file) ↔ b.temporalOffset params < 2 ^ 32 := by
  obtain ⟨entry,start,temporal⟩ := finalHeader_eq built
  obtain ⟨offsets_,blob_⟩ := finishFile_metadata built
  have records := entries_length built ready filled
  have whole : 128 + file.entries.length + (offsets file).length + (blob file).length = b.temporalOffset params := by
    rw [records,offsets_,blob_,temporalOffset]
  constructor
  · intro right
    have here := right.temporal_index_offset
    rw [temporal,whole] at here
    omega
  · intro short
    have least : 128 + b.entries.length * params.entrySize b.dim < 2 ^ 32 := by
      rw [temporalOffset] at short
      omega
    refine ⟨fun e member => ?_,?_,?_⟩
    · have one : params.entrySize b.dim ≤ b.entries.length * params.entrySize b.dim :=
        Nat.le_mul_of_pos_left _ (length_pos_of_mem member)
      rw [filled e member,entry,Nat.mod_eq_of_lt (by omega)]
    · rw [start,records,Nat.mod_eq_of_lt least]
    · rw [temporal,whole,Nat.mod_eq_of_lt short]

omit ready in
lemma OffsetsTrue.filled (right : OffsetsTrue fl params trained buf b file (b.finalHeader params file)) :
    ∀ e ∈ b.entries, (record fl params trained buf b.dim e).length = params.entrySize b.dim := by
  intro e member
  have size := right.entry_size e member
  grind [record,length_append,length_replicate,finalHeader_eq,Nat.mod_le]

/-- The offsets in the header are right exactly if the codes have the size that was reserved and the
temporal index starts where 32 bits reach. -/
theorem offsets_true_iff : OffsetsTrue fl params trained buf b file (b.finalHeader params file) ↔
    ((∃ e ∈ b.entries, e.is_deleted = false) → Unwrapped params b.dim) ∧ b.temporalOffset params < 2 ^ 32 := by
  constructor
  · intro right
    have filled := right.filled built
    grind [offsetsTrue_of_filled,record_fills_iff]
  · grind [offsetsTrue_of_filled,record_fills_iff]

end

theorem offsets_true_one : ∃ file, oneVector.finishFile Platform.plain.floats {} (fun _ _ => []) [] = .ok file ∧
      OffsetsTrue Platform.plain.floats {} .none [] oneVector file (oneVector.finalHeader {} file) :=
  ⟨_,rfl,(@offsets_true_iff _ _ (fun _ _ => []) _ _ _ _ rfl rfl).mpr ⟨fun _ => trivial,by decide⟩⟩

/-- One deletion among vectors of `2 ^ 30` components: the entry has more bytes than its size in the header says. -/
theorem offsets_wrap : ∃ file,
    (⟨2 ^ 30,[⟨7,.null,true,{}⟩]⟩ : SegmentBuilder).finishFile Platform.plain.floats {} (fun _ _ => []) [] = .ok file ∧
      ¬OffsetsTrue Platform.plain.floats {} .none [] ⟨2 ^ 30,[⟨7,.null,true,{}⟩]⟩ file
        (finalHeader {} ⟨2 ^ 30,[⟨7,.null,true,{}⟩]⟩ file) := by
  refine ⟨_,rfl,fun right => ?_⟩
  have short := (@offsetsTrue_of_filled _ _ (fun _ _ => []) _ _ _ _ rfl rfl
    (@OffsetsTrue.filled _ _ (fun _ _ => []) _ _ _ _ rfl right)).mp right
  revert short
  decide

end PomaiCache.SegmentBuilder
