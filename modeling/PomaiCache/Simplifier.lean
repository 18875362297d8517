import Mathlib
import PomaiCache.Basic

/-!
Index and vertex buffers of triangle meshes. A vertex is three floats that are only ever copied
together, so it is left abstract.
-/
namespace PomaiCache
open List

structure SimplifyOutput (V : Type) where
  indices : List UInt32
  vertices : List V
  deriving DecidableEq, Repr

namespace Simplifier
variable {V : Type}

def unmapped : UInt32 := 0xFFFFFFFF

structure Compaction (V : Type) where
  remap : UInt32 → UInt32
  out : SimplifyOutput V

def compactStep (vertices : List V) (c : Compaction V) (old_i : UInt32) : Except Status (Compaction V) :=
  match vertices[old_i.toNat]? with
  | none => .error (.invalidArgument "index out of range")
  | some v =>
    if c.remap old_i = unmapped then
      let mapped := UInt32.ofNat c.out.vertices.length
      .ok ⟨Function.update c.remap old_i mapped,⟨c.out.indices ++ [mapped],c.out.vertices ++ [v]⟩⟩
    else .ok {c with out := {c.out with indices := c.out.indices ++ [c.remap old_i]}}

def compactVertexBuffer (vertices : List V) (indices : List UInt32) : Except Status (SimplifyOutput V) :=
  if vertices.isEmpty then .error (.invalidArgument "invalid vertices")
  else if indices.isEmpty ∨ indices.length % 3 ≠ 0 then .error (.invalidArgument "invalid indices")
  else (indices.foldlM (compactStep vertices) ⟨fun _ => unmapped,⟨[],[]⟩⟩).map Compaction.out

/-- The state of the loop behind some indices, of which `order` lists the distinct ones as they
came. -/
structure Renumbers (vertices : List V) (order done : List UInt32) (c : Compaction V) : Prop where
  nodup : order.Nodup
  listed : ∀ i, i ∈ order ↔ i ∈ done
  remap : ∀ i, c.remap i = if i ∈ order then UInt32.ofNat (order.idxOf i) else unmapped
  copied : c.out.vertices.map some = order.map fun i => vertices[i.toNat]?
  indices : c.out.indices = done.map fun i => UInt32.ofNat (order.idxOf i)

namespace Renumbers
variable {vertices : List V} {order done : List UInt32} {c : Compaction V}

lemma length_eq (here : Renumbers vertices order done c) : order.length = done.dedup.length :=
  ((perm_ext_iff_of_nodup here.nodup (nodup_dedup done)).mpr fun i => by simp [here.listed]).length_eq

lemma step (here : Renumbers vertices order done c) {i : UInt32} (inRange : i.toNat < vertices.length)
    (few : order.length < 2 ^ 32) :
    ∃ next all, compactStep vertices c i = .ok next ∧ Renumbers vertices all (done ++ [i]) next := by
  have sized : c.out.vertices.length = order.length := by simpa using congrArg List.length here.copied
  simp only [compactStep,List.getElem?_eq_getElem inRange,here.remap]
  by_cases seen : i ∈ order
  · have known : UInt32.ofNat (order.idxOf i) ≠ unmapped := by
      intro same
      have below := idxOf_lt_length_iff.mpr seen
      have top := congrArg UInt32.toNat same
      rw [UInt32.toNat_ofNat_of_lt' (show order.idxOf i < 2 ^ 32 by omega)] at top
      have : unmapped.toNat = 2 ^ 32 - 1 := rfl
      omega
    refine ⟨_,order,by rw [if_pos seen,if_neg known],?_⟩
    refine ⟨here.nodup,fun j => ?_,here.remap,here.copied,by simp [here.indices]⟩
    grind [here.listed]
  · refine ⟨_,order ++ [i],by rw [if_neg seen,if_pos rfl],?_⟩
    have old {j : UInt32} (there : j ∈ order) : (order ++ [i]).idxOf j = order.idxOf j := idxOf_append_of_mem there
    have new : (order ++ [i]).idxOf i = order.length := by simp [idxOf_append_of_notMem seen]
    refine ⟨?_,fun j => by simp [here.listed],fun j => ?_,?_,?_⟩
    · grind [here.nodup]
    · by_cases same : j = i
      · subst same
        simp [new,sized]
      · simp only [Function.update_of_ne same,here.remap]
        by_cases there : j ∈ order <;> simp [there,same,old]
    · simp [here.copied,List.getElem?_eq_getElem inRange]
    · simp only [here.indices,map_append,map_cons,map_nil,sized,new]
      congr 1
      exact map_congr_left fun j member => by rw [old ((here.listed j).mpr member)]

lemma run (here : Renumbers vertices order done c) {rest : List UInt32} (inRange : ∀ i ∈ rest, i.toNat < vertices.length)
    (few : (done ++ rest).dedup.length < 2 ^ 32) :
    ∃ next all, rest.foldlM (compactStep vertices) c = .ok next ∧ Renumbers vertices all (done ++ rest) next := by
  induction rest generalizing order done c with
  | nil => exact ⟨c,order,rfl,by simpa using here⟩
  | cons i rest ih =>
    have part : done.dedup ⊆ (done ++ i :: rest).dedup := fun j member => by simp_all
    have fewer := (subperm_of_subset (nodup_dedup done) part).length_le
    obtain ⟨middle,all,done_,there⟩ := here.step (inRange i (.head _)) (by rw [here.length_eq]; omega)
    obtain ⟨next,all,others,end_⟩ := ih there (fun j member => inRange j (.tail _ member)) (by simpa using few)
    exact ⟨next,all,by rw [foldlM_cons,done_]; exact others,by simpa using end_⟩

end Renumbers

/-- The corners of the new mesh are those of the old one, in the same order, and nothing else is
in its buffer. -/
structure Compacts (vertices : List V) (indices : List UInt32) (out : SimplifyOutput V) : Prop where
  corners : List.Forall₂ (fun new old => out.vertices[new.toNat]? = vertices[old.toNat]? ∧ new.toNat < out.vertices.length)
    out.indices indices
  used : ∀ k < out.vertices.length, ∃ new ∈ out.indices, new.toNat = k
  distinct : out.vertices.length = indices.dedup.length

lemma compactVertexBuffer_ok {vertices : List V} {indices : List UInt32} (some_ : indices ≠ []) (triangles : indices.length % 3 = 0)
    (inRange : ∀ i ∈ indices, i.toNat < vertices.length) (few : indices.dedup.length < 2 ^ 32) :
    ∃ out, compactVertexBuffer vertices indices = .ok out ∧ Compacts vertices indices out := by
  obtain ⟨i,member⟩ := exists_mem_of_ne_nil _ some_
  have nonempty : vertices ≠ [] := by
    rintro rfl
    simpa using inRange i member
  have start : Renumbers vertices [] [] ⟨fun _ => unmapped,⟨[],[]⟩⟩ := ⟨.nil,by simp,by simp,rfl,rfl⟩
  obtain ⟨next,order,done,here⟩ := start.run inRange (by simpa using few)
  refine ⟨next.out,by simp [compactVertexBuffer,nonempty,some_,triangles,done,Except.map],?_⟩
  have sized : next.out.vertices.length = order.length := by simpa using congrArg List.length here.copied
  have place {j : UInt32} (there : j ∈ order) : (UInt32.ofNat (order.idxOf j)).toNat = order.idxOf j := by
    have below := idxOf_lt_length_iff.mpr there
    have := here.length_eq
    exact UInt32.toNat_ofNat_of_lt' (show _ < 2 ^ 32 by simp at this; omega)
  constructor
  · rw [here.indices,nil_append,forall₂_map_left_iff,forall₂_same]
    intro j member
    have there := (here.listed j).mpr member
    have below := idxOf_lt_length_iff.mpr there
    rw [place there,sized]
    have copied : (next.out.vertices.map some)[order.idxOf j]? = (order.map fun i => vertices[i.toNat]?)[order.idxOf j]? := by
      rw [here.copied]
    simp only [getElem?_map,List.getElem?_eq_getElem below,getElem_idxOf,Option.map_some] at copied
    refine ⟨?_,below⟩
    rw [List.getElem?_eq_getElem (sized ▸ below)] at copied ⊢
    exact Option.some.inj copied
  · intro k below
    rw [sized] at below
    have there := getElem_mem below
    refine ⟨_,?_,(place there).trans (here.nodup.idxOf_getElem k below)⟩
    rw [here.indices]
    exact mem_map_of_mem ((here.listed _).mp there)
  · rw [sized]
    exact here.length_eq

/-- A list of indices that is not empty, is in range and has fewer than `2 ^ 32` distinct ones is
compacted without a change of the geometry; with more of them a number would be the mark of
the unmapped ones. -/
theorem compact_preserves (vertices : List V) (indices : List UInt32) (some_ : indices ≠ []) (triangles : indices.length % 3 = 0)
    (inRange : ∀ i ∈ indices, i.toNat < vertices.length) (few : indices.dedup.length < 2 ^ 32) :
    ∃ out, compactVertexBuffer vertices indices = .ok out ∧ Compacts vertices indices out :=
  compactVertexBuffer_ok some_ triangles inRange few

theorem compact_preserves_twice : ∃ out, compactVertexBuffer ["a","b","c","d"] [3,1,3] = .ok out ∧ Compacts ["a","b","c","d"] [3,1,3] out :=
  compact_preserves _ _ (by decide) (by decide) (by simp) (by decide)

/-- An empty list of indices is refused. -/
theorem compact_empty : (∀ i ∈ ([] : List UInt32), i.toNat < ["a"].length) ∧ ([] : List UInt32).length % 3 = 0 ∧
    compactVertexBuffer ["a"] [] = .error (.invalidArgument "invalid indices") := by
  refine ⟨by simp,rfl,rfl⟩

/-! ### The order of the triangles -/

/-- `std::log2` of an integer, cut off at the point. Below `2 ^ 42` the rounding of the logarithm
does not reach the next integer. -/
structure Log2 where
  cut : Nat → Nat
  exact : ∀ n, 0 < n → n < 2 ^ 42 → cut n = n.log2
  large : ∀ n, 2 ^ 42 ≤ n → n < 2 ^ 64 → 42 ≤ cut n ∧ cut n ≤ 64

abbrev Triangle := UInt32 × UInt32 × UInt32

def Triangle.key (t : Triangle) : UInt32 := min t.1 (min t.2.1 t.2.2)

def triangles : List UInt32 → List Triangle
  | a :: b :: c :: rest => (a,b,c) :: triangles rest
  | _ => []

variable (log2 : Log2) (indices : List UInt32) (vertex_count : UInt64)

def bucketShift : UInt32 :=
  if vertex_count > 0 then (max 0 (UInt64.ofNat (log2.cut vertex_count.toNat) - 10)).toUInt32 else 0

/-- `OptimizeIndexOrder`; nothing if two triangles are compared by a shift of all bits or more. -/
def optimizeIndexOrder : Option (Except Status (List UInt32)) :=
  if indices.isEmpty ∨ indices.length % 3 ≠ 0 then some (.error (.invalidArgument "invalid indices"))
  else
    let tris := triangles indices
    let bucket_shift := bucketShift log2 vertex_count
    if 1 < tris.length ∧ 32 ≤ bucket_shift then none
    else
      let sorted := tris.mergeSort fun l r => l.key >>> bucket_shift ≤ r.key >>> bucket_shift
      some (.ok (sorted.flatMap fun t => [t.1,t.2.1,t.2.2]))

lemma triangles_flatMap (ts : List Triangle) : triangles (ts.flatMap fun t => [t.1,t.2.1,t.2.2]) = ts := by
  induction ts with
  | nil => rfl
  | cons t rest ih => simp [triangles,ih]

lemma filter_mergeSort {α : Type} (bucket : α → UInt32) (k : UInt32) (l : List α) :
    (l.mergeSort fun x y => bucket x ≤ bucket y).filter (bucket · = k) = l.filter (bucket · = k) := by
  have same : (l.filter (bucket · = k)).Pairwise fun x y => decide (bucket x ≤ bucket y) = true := by
    rw [pairwise_filter]
    exact pairwise_of_forall fun x y => by simp +contextual
  have kept := (sublist_mergeSort (fun _ _ _ => by simpa using UInt32.le_trans) (fun _ _ => by simpa using UInt32.le_total ..)
    same filter_sublist).filter (bucket · = k)
  simp only [filter_filter,Bool.and_self] at kept
  exact (kept.eq_of_length ((mergeSort_perm l _).filter _).length_eq.symm).symm

lemma bucketShift_lt_iff (some_ : 0 < vertex_count) :
    bucketShift log2 vertex_count < 32 ↔ 2 ^ 10 ≤ vertex_count.toNat ∧ vertex_count.toNat < 2 ^ 42 := by
  have positive : 0 < vertex_count.toNat := UInt64.lt_iff_toNat_lt.mp some_
  have shift : (bucketShift log2 vertex_count).toNat = (2 ^ 64 - 10 + log2.cut vertex_count.toNat % 2 ^ 64) % 2 ^ 64 % 2 ^ 32 := by
    have top : ∀ x : UInt64, max 0 x = x := fun x => if_pos (UInt64.zero_le)
    rw [bucketShift,if_pos some_,top,UInt64.toNat_toUInt32,UInt64.toNat_sub]
    simp
  rw [UInt32.lt_iff_toNat_lt,shift,show (32 : UInt32).toNat = 32 from rfl]
  by_cases below : vertex_count.toNat < 2 ^ 42
  · have ten : 2 ^ 10 ≤ vertex_count.toNat ↔ 10 ≤ vertex_count.toNat.log2 := (Nat.le_log2 positive.ne').symm
    have top : vertex_count.toNat.log2 < 42 := (Nat.log2_lt positive.ne').mpr below
    rw [log2.exact _ positive below,ten]
    omega
  · have bounds := log2.large _ (not_lt.mp below) vertex_count.toNat_lt
    omega

/-- What the order is for: the same triangles, those of a bucket in the order they had. -/
structure Reorders (indices out : List UInt32) (shift : UInt32) : Prop where
  perm : (triangles out).Perm (triangles indices)
  stable : ∀ k, (triangles out).filter (·.key >>> shift = k) = (triangles indices).filter (·.key >>> shift = k)

/-- The unsigned subtraction wraps around for fewer than `2 ^ 10` vertices, and from `2 ^ 42` on
the difference is too large. -/
theorem optimizeIndexOrder_iff (triples : indices.length % 3 = 0) (some_ : 0 < vertex_count) :
    (bucketShift log2 vertex_count < 32 ∧ ∃ out, optimizeIndexOrder log2 indices vertex_count = some (.ok out) ∧
      Reorders indices out (bucketShift log2 vertex_count)) ↔
        indices ≠ [] ∧ 2 ^ 10 ≤ vertex_count.toNat ∧ vertex_count.toNat < 2 ^ 42 := by
  rw [bucketShift_lt_iff log2 vertex_count some_]
  constructor
  · rintro ⟨range,out,done,_⟩
    refine ⟨?_,range⟩
    rintro rfl
    cases done
  · rintro ⟨full,range⟩
    have small := UInt32.not_le.mpr ((bucketShift_lt_iff log2 vertex_count some_).mpr range)
    refine ⟨range,_,by simp only [optimizeIndexOrder,List.isEmpty_iff,full,triples,ne_eq,not_true,or_self,if_false,small,and_false]; rfl,?_,?_⟩
    · rw [triangles_flatMap]
      exact mergeSort_perm _ _
    · intro k
      rw [triangles_flatMap]
      exact filter_mergeSort (fun t : Triangle => t.key >>> bucketShift log2 vertex_count) k _

def plainLog2 : Log2 := ⟨Nat.log2,fun _ _ _ => rfl,fun n large short =>
  ⟨(Nat.le_log2 (by omega)).mpr large,((Nat.log2_lt (by omega)).mpr short).le⟩⟩

theorem optimizeIndexOrder_thousand : ∃ out, optimizeIndexOrder plainLog2 [9,8,7,1,2,3] 1024 = some (.ok out) ∧
    Reorders [9,8,7,1,2,3] out (bucketShift plainLog2 1024) :=
  ((optimizeIndexOrder_iff plainLog2 [9,8,7,1,2,3] 1024 (by decide) (by decide)).mpr (by decide)).2

theorem bucketShift_small : bucketShift plainLog2 6 = 4294967288 ∧ optimizeIndexOrder plainLog2 [3,4,5,0,1,2] 6 = none := by
  decide +kernel

end Simplifier
end PomaiCache
