import PomaiCache.Options
import PomaiCache.SegmentFile

/-!
The scores of a segment's entries. A scan decodes each entry and compares floats; the paths
that start from candidates compare codes with kernels of their own, look distances up in a
table, take them from a graph, or know no kernel for a type and leave zero.
-/
namespace PomaiCache
open Codec
open Options (MetricType)

def Options.MetricType.isIp : MetricType → Bool
  | .kL2 => false
  | _ => true

/-- The operations on floats that scores are made of; the last four are those of the SIMD library. -/
structure Arithmetic where
  floats : FloatOps
  neg : UInt32 → UInt32
  ofCount : Nat → UInt32
  toHalf : UInt32 → UInt16
  dotF32 : Vec → Vec → UInt32
  l2sqF32 : Vec → Vec → UInt32
  dotF16 : List UInt16 → List UInt16 → UInt32
  l2sqF16 : List UInt16 → List UInt16 → UInt32

namespace Arithmetic

section
variable (ar : Arithmetic) (query : Vec)

def dot (vec : Vec) : UInt32 := if query.isEmpty then float0 else ar.dotF32 query vec

def l2Sq (vec : Vec) : UInt32 := if query.isEmpty then float0 else ar.l2sqF32 query vec

def dotSq8 (codes : Bytes) (min_val inv_scale query_sum : UInt32) : UInt32 :=
  let sum := (query.zip codes).foldl (fun sum pair => ar.floats.add sum (ar.floats.mul pair.1 (ar.floats.ofCode pair.2))) float0
  ar.floats.add (ar.floats.mul sum inv_scale) (ar.floats.mul query_sum min_val)

def kSq8Chunk : Nat := 32

/-- The loop of `L2SqSq8` over chunks, the last of which may be shorter. -/
def l2Chunks (dequantize : UInt8 → UInt32) : Nat → Vec → Bytes → UInt32 → UInt32
  | 0,_,_,sum_sq => sum_sq
  | fuel + 1,query,data,sum_sq =>
    if query.isEmpty then sum_sq
    else l2Chunks dequantize fuel (query.drop kSq8Chunk) (data.drop kSq8Chunk)
      (ar.floats.add sum_sq (ar.l2sqF32 (query.take kSq8Chunk) ((data.take kSq8Chunk).map dequantize)))

def l2SqSq8 (data : Bytes) (min_val max_val : UInt32) : UInt32 :=
  if query.isEmpty || data.length != query.length then float0
  else
    let range := ar.floats.sub max_val min_val
    let inv_scale := if ScalarQuantizer8Bit.le ar.floats range 0x3089705F then float0 else ar.floats.div range float255
    ar.l2Chunks (fun code => ar.floats.add min_val (ar.floats.mul (ar.floats.ofCode code) inv_scale)) query.length query data float0

def dotFp16 (codes : List UInt16) : UInt32 := if query.isEmpty then float0 else ar.dotF16 (query.map ar.toHalf) codes

def l2SqFp16 (codes : List UInt16) : UInt32 := if query.isEmpty then float0 else ar.l2sqF16 (query.map ar.toHalf) codes

def popcount (byte : UInt8) : Nat := (List.range 8).countP fun i => (byte >>> UInt8.ofNat i) &&& 1 = 1

def hammingDist (a b : Bytes) : Nat := ((a.zip b).map fun pair => popcount (pair.1 ^^^ pair.2)).sum

def dotBit (codes : Bytes) : UInt32 :=
  ar.floats.sub (ar.ofCount query.length) (ar.ofCount (hammingDist (BitQuantizer.bitQuantize ar.floats query) codes))

variable (metric : MetricType)

/-- One number of the table `ComputeIPTable` or `ComputeL2Table` fills. -/
def tableEntry (pq : ProductQuantizer) (m k : Nat) : UInt32 :=
  let part := (query.drop (m * pq.dsub)).take pq.dsub
  if metric.isIp then
    (part.zip (pq.centroids m k)).foldl (fun ip pair => ar.floats.add ip (ar.floats.mul pair.1 pair.2)) float0
  else ProductQuantizer.distance ar.floats part (pq.centroids m k)

def scoreFromTable (pq : ProductQuantizer) (code : Bytes) : UInt32 :=
  (List.range pq.M).foldl (fun s m => ar.floats.add s (ar.tableEntry query metric pq m (code.getD m 0).toNat)) float0

def floatScore (vec : Vec) : UInt32 :=
  if metric.isIp then ar.dot query vec else ar.neg (ar.l2Sq query vec)

def querySum : UInt32 := query.foldl ar.floats.add float0

def sq8Score (codes : Bytes) (q_min q_inv_scale : UInt32) : UInt32 :=
  if metric.isIp then ar.dotSq8 query codes q_min q_inv_scale (ar.querySum query)
  else
    let q_max := ar.floats.add q_min (ar.floats.mul float255 q_inv_scale)
    ar.neg (ar.l2SqSq8 query codes q_min q_max)

def fp16Score (codes : List UInt16) : UInt32 :=
  if metric.isIp then ar.dotFp16 query codes else ar.neg (ar.l2SqFp16 query codes)

end
end Arithmetic

namespace SegmentReader
variable (r : SegmentReader)

def payloadStart (index : Nat) : Nat := index * r.entry_size + 12

def floatsAt (index : Nat) : Vec := readWords r.dim (span r.entries (r.payloadStart index) (r.dim * 4))

def codesAt (index : Nat) : Bytes :=
  span r.entries (r.payloadStart index) (match r.quant_type with
    | .kFp16 => r.dim * 2
    | .kBit => (r.dim + 7) / 8
    | _ => r.dim)

/-- The vector `ForEach` hands out for a live record. -/
def shownVec (pq : Option ProductQuantizer) (index : Nat) : Vec :=
  match r.quant_type,pq,r.quantizer with
  | .kPq8,some pq,_ => pq.decode (span r.entries (r.payloadStart index) pq.M)
  | .kNone,_,_ => r.floatsAt index
  | _,_,some q => q.decode r.fl (r.codesAt index)
  | _,_,none => r.floatsAt index

variable (ar : Arithmetic)

def scanScore (metric : MetricType) (pq : Option ProductQuantizer) (query : Vec) (index : Nat) : UInt32 :=
  ar.floatScore query metric (r.shownVec pq index)

def sq8Range : UInt32 × UInt32 :=
  match r.quantizer with
  | some (.sq8 q) => (q.global_min,q.global_inv_scale)
  | _ => (float0,float0)

/-- The chain of types that a candidate's codes go through. -/
def codeScore (metric : MetricType) (query : Vec) (index : Nat) : UInt32 :=
  match r.quant_type with
  | .kSq8 => ar.sq8Score query metric (r.codesAt index) r.sq8Range.1 r.sq8Range.2
  | .kFp16 => ar.fp16Score query metric ((List.range r.dim).map fun i => UInt16.ofNat (leNat (slice (r.codesAt index) (2 * i) 2)))
  | _ => float0

/-- How an entry becomes a candidate: from the graph, which compares its own floats or those in the file
and is exact if it falls back on all of them; over a table of distances; over codes, if there is
nothing to filter; or from the index with filters or visibility. -/
inductive Path
  | graph (exact : Bool) (pool : Option Vec)
  | table (pq : ProductQuantizer)
  | codes
  | candidates

def graphVec (pool : Option Vec) (index : Nat) : Vec := pool.getD (r.floatsAt index)

def pathScore (metric : MetricType) (query : Vec) (index : Nat) : Path → UInt32
  | .graph exact pool =>
    let vec := r.graphVec pool index
    if metric.isIp && !exact then ar.floats.sub float1 (ar.floats.sub float1 (ar.dot query vec))
    else ar.floatScore query metric vec
  | .table pq =>
    let raw := ar.scoreFromTable query metric pq (span r.entries (r.payloadStart index) pq.M)
    if metric.isIp then raw else ar.neg raw
  | .codes => if r.quant_type = .kBit then ar.dotBit query (r.codesAt index) else r.codeScore ar metric query index
  | .candidates =>
    if r.quant_type = .kNone then ar.floatScore query metric (r.floatsAt index) else r.codeScore ar metric query index

/-- The types for which a path is taken; a quantizer that is loaded has at least one part. -/
def Path.Taken (type : QuantizationType) (pq : Option ProductQuantizer) : Path → Prop
  | .graph _ _ => True
  | .table q => type = .kPq8 ∧ pq = some q ∧ q.M ≠ 0
  | .codes => type ≠ .kNone ∧ type ≠ .kPq8
  | .candidates => True

/-- When a path's score is that of a scan whatever the operations on floats are. -/
def Path.Exact (file : SegmentFile) (pq : Option ProductQuantizer) (metric : MetricType) (query : Vec) (index : Nat) : Path → Prop
  | .graph exact pool => (metric.isIp = true → exact = true) ∧
      (query = [] ∨ ∀ fl, (openFile fl file).graphVec pool index = (openFile fl file).shownVec pq index)
  | .table _ => False
  | .codes => query = [] ∧ (file.quant_type = .kFp16 ∨ file.quant_type = .kSq8 ∧ metric.isIp = false)
  | .candidates => file.quant_type = .kNone ∨ query = [] ∧ match file.quant_type with
    | .kFp16 => True
    | .kSq8 => metric.isIp = false
    | _ => metric.isIp = true

/-! ### Operations that tell paths apart -/

def flat : Arithmetic where
  floats := ⟨fun _ _ => false,fun _ _ => 1,fun _ _ => 1,fun _ _ => 1,fun _ _ => 1,fun _ => 0,fun _ => 0⟩
  neg := (· + 2)
  ofCount := fun _ => 0
  toHalf := fun _ => 0
  dotF32 := fun _ _ => 2
  l2sqF32 := fun _ _ => 2
  dotF16 := fun _ _ => 1
  l2sqF16 := fun _ _ => 1

lemma flat_sub (a b : UInt32) : flat.floats.sub a b = 1 := rfl

lemma flat_floatScore (query vec : Vec) (metric : MetricType) :
    flat.floatScore query metric vec = if query.isEmpty then (if metric.isIp then 0 else 2) else if metric.isIp then 2 else 4 := by
  simp only [Arithmetic.floatScore,Arithmetic.dot,Arithmetic.l2Sq,flat,float0]
  cases query.isEmpty <;> cases metric.isIp <;> rfl

lemma flat_l2Chunks (dequantize : UInt8 → UInt32) (fuel : Nat) : ∀ query data, flat.l2Chunks dequantize fuel query data 1 = 1 := by
  induction fuel with
  | zero => exact fun _ _ => rfl
  | succ fuel ih =>
    intro query data
    rw [Arithmetic.l2Chunks]
    split
    · rfl
    · exact ih _ _

variable (query : Vec)

lemma flat_l2SqSq8 (data : Bytes) (low high : UInt32) :
    flat.l2SqSq8 query data low high = 0 ∨ flat.l2SqSq8 query data low high = 1 := by
  rw [Arithmetic.l2SqSq8]
  split
  · exact .inl rfl
  · next full =>
    cases query with
    | nil => exact absurd rfl full
    | cons x rest =>
      refine .inr ?_
      simp only [List.length_cons,Arithmetic.l2Chunks]
      exact flat_l2Chunks ..

variable (metric : MetricType)

lemma flat_sq8Score (codes : Bytes) (low scale : UInt32) :
    flat.sq8Score query metric codes low scale ∈ if metric.isIp then [1] else [2,3] := by
  rw [Arithmetic.sq8Score]
  cases metric.isIp with
  | true => exact List.mem_singleton.mpr rfl
  | false =>
    have two : ∀ x, flat.neg x = x + 2 := fun _ => rfl
    grind [flat_l2SqSq8,float255]

lemma flat_fp16Score (codes : List UInt16) : flat.fp16Score query metric codes ∈ if metric.isIp then [0,1] else [2,3] := by
  rw [Arithmetic.fp16Score,Arithmetic.dotFp16,Arithmetic.l2SqFp16]
  cases metric.isIp <;> cases query.isEmpty <;> simp [flat,float0]

lemma flat_scoreFromTable (pq : ProductQuantizer) (code : Bytes) (parts : pq.M ≠ 0) :
    flat.scoreFromTable query metric pq code = 1 := by
  obtain ⟨n,more⟩ := Nat.exists_eq_succ_of_ne_zero parts
  rw [Arithmetic.scoreFromTable,more,List.range_succ,List.foldl_append]
  rfl

/-- Kernels that know a vector. -/
def telling (fl : FloatOps) (vec : Vec) : Arithmetic where
  floats := fl
  neg := id
  ofCount := fun _ => 0
  toHalf := fun _ => 0
  dotF32 := fun _ other => if other = vec then 1 else 0
  l2sqF32 := fun _ other => if other = vec then 1 else 0
  dotF16 := fun _ _ => 0
  l2sqF16 := fun _ _ => 0

section
variable {file : SegmentFile} {metric : MetricType} {query : Vec} {index : Nat}

lemma floatScore_eq_iff {vec : Vec} (shown : FloatOps → Vec) :
    (∀ ar : Arithmetic, ar.floatScore query metric vec = ar.floatScore query metric (shown ar.floats)) ↔
      query = [] ∨ ∀ fl, vec = shown fl := by
  constructor
  · intro same
    refine or_iff_not_imp_left.mpr fun full fl => ?_
    have told := same (telling fl vec)
    by_contra differ
    have other : ¬shown fl = vec := fun both => differ both.symm
    cases metric <;>
      simp [Arithmetic.floatScore,Arithmetic.dot,Arithmetic.l2Sq,Options.MetricType.isIp,telling,full,other] at told
  · rintro (rfl | same) ar
    · rfl
    · rw [← same]

lemma codeScore_iff (shown : FloatOps → Vec) (quantized : file.quant_type ≠ .kNone) :
    (∀ ar : Arithmetic, (openFile ar.floats file).codeScore ar metric query index = ar.floatScore query metric (shown ar.floats)) ↔
      query = [] ∧ match file.quant_type with
        | .kFp16 => True
        | .kSq8 => metric.isIp = false
        | _ => metric.isIp = true := by
  have type : ∀ fl, (openFile fl file).quant_type = file.quant_type := fun _ => rfl
  constructor
  · intro same
    have told := same flat
    rw [flat_floatScore,codeScore,type] at told
    rw [← List.isEmpty_iff]
    cases coded : file.quant_type with
    | kNone => exact absurd coded quantized
    | kSq8 =>
      simp only [coded] at told
      have value := told ▸ flat_sq8Score ..
      revert value
      cases query.isEmpty <;> cases metric.isIp <;> decide
    | kFp16 =>
      simp only [coded] at told
      have value := told ▸ flat_fp16Score ..
      revert value
      cases query.isEmpty <;> cases metric.isIp <;> decide
    | kBit | kPq8 =>
      simp only [coded,float0] at told
      revert told
      cases query.isEmpty <;> cases metric.isIp <;> decide
  · rintro ⟨rfl,fine⟩ ar
    rw [codeScore,type]
    cases coded : file.quant_type with
    | kNone => exact absurd coded quantized
    | kSq8 => simp_all [Arithmetic.sq8Score,Arithmetic.l2SqSq8,Arithmetic.floatScore,Arithmetic.l2Sq]
    | kFp16 => rfl
    | kBit | kPq8 => simp_all [Arithmetic.floatScore,Arithmetic.dot]

end

/-- The score of a path is that of a scan, whatever the operations on floats are, exactly if candidates come
from a segment that is not quantized, or from a graph with the floats of the scan and distances that
are not inner products turned over, or an empty query makes both scores constant. -/
theorem path_score_iff (file : SegmentFile) (pq : Option ProductQuantizer) (metric : MetricType) (query : Vec) (index : Nat) (path : Path)
    (taken : path.Taken file.quant_type pq) :
    (∀ ar : Arithmetic, (openFile ar.floats file).pathScore ar metric query index path =
      (openFile ar.floats file).scanScore ar metric pq query index) ↔ path.Exact file pq metric query index := by
  have type : ∀ fl, (openFile fl file).quant_type = file.quant_type := fun _ => rfl
  cases path with
  | graph exact pool =>
    by_cases inverted : metric.isIp = true ∧ exact = false
    · refine iff_of_false (fun same => ?_) (fun fine => ?_)
      · have told := same flat
        rw [pathScore,scanScore,if_pos (by simp [inverted]),flat_sub,flat_floatScore,inverted.1] at told
        revert told
        cases query.isEmpty <;> decide
      · rw [fine.1 inverted.1] at inverted
        cases inverted.2
    · have plain : ¬(metric.isIp && !exact) = true := by simpa using inverted
      have vec : ∀ fl, (openFile fl file).graphVec pool index = (openFile flat.floats file).graphVec pool index := fun _ => rfl
      simp only [pathScore,scanScore,if_neg plain,Path.Exact,vec]
      rw [floatScore_eq_iff fun fl => (openFile fl file).shownVec pq index]
      refine (and_iff_right ?_).symm
      simpa using inverted
  | table q =>
    obtain ⟨_,_,parts⟩ := taken
    refine iff_of_false (fun same => ?_) id
    have told := same flat
    rw [pathScore,scanScore,flat_floatScore,flat_scoreFromTable _ _ _ _ parts] at told
    revert told
    cases query.isEmpty <;> cases metric.isIp <;> decide
  | codes =>
    by_cases bits : file.quant_type = .kBit
    · refine iff_of_false (fun same => ?_) (fun fine => by simp [Path.Exact,bits] at fine)
      have told := same flat
      rw [pathScore,scanScore,flat_floatScore,type,if_pos bits,Arithmetic.dotBit,flat_sub] at told
      revert told
      cases query.isEmpty <;> cases metric.isIp <;> decide
    · simp only [pathScore,scanScore,type,if_neg bits]
      rw [codeScore_iff (fun fl => (openFile fl file).shownVec pq index) taken.1,Path.Exact]
      obtain ⟨plain,product⟩ := taken
      cases coded : file.quant_type <;> simp_all
  | candidates =>
    by_cases plain : file.quant_type = .kNone
    · refine iff_of_true (fun ar => ?_) (.inl plain)
      rw [pathScore,scanScore,type,if_pos plain]
      unfold shownVec
      rw [type,plain]
    · simp [pathScore,scanScore,type,codeScore_iff (fun fl => (openFile fl file).shownVec pq index) plain,Path.Exact,plain]

def bitFile : SegmentFile := ⟨1,1,.kBit,0,0,64,le 8 5 ++ [0,0,0,0] ++ [1] ++ List.replicate 51 0,[]⟩

def integers : Arithmetic where
  floats := Platform.plain.floats
  neg := id
  ofCount := UInt32.ofNat
  toHalf := UInt32.toUInt16
  dotF32 := fun a b => (a.zip b).foldl (fun sum pair => sum + pair.1 * pair.2) 0
  l2sqF32 := fun a b => (a.zip b).foldl (fun sum pair => sum + (pair.1 - pair.2) * (pair.1 - pair.2)) 0
  dotF16 := fun _ _ => 0
  l2sqF16 := fun _ _ => 0

/-- Under filters the candidate of a binary segment has score zero, in a scan it has that of its bits. -/
theorem path_score_bit : (openFile integers.floats bitFile).pathScore integers .kInnerProduct [1] 0 .candidates = float0 ∧
    (openFile integers.floats bitFile).scanScore integers .kInnerProduct none [1] 0 = float1 := by
  decide +kernel

theorem path_score_plain : (openFile integers.floats {bitFile with quant_type := .kNone}).pathScore integers .kL2 [1] 0 .candidates =
    (openFile integers.floats {bitFile with quant_type := .kNone}).scanScore integers .kL2 none [1] 0 :=
  (path_score_iff {bitFile with quant_type := .kNone} none .kL2 [1] 0 .candidates trivial).mpr (.inl rfl) integers

end SegmentReader
end PomaiCache
