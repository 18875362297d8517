import PomaiCache.Freeze
import PomaiCache.Options
import PomaiCache.SegmentFile

/-!
The index of a segment. `BuildIndex` records the positions the entries have in the order in
which they were added, and `Finish` sorts the entries by id afterwards: a recorded position is
right exactly for an entry that was added at the place its id has in the segment.
-/
namespace PomaiCache
open Codec List Options

section Rank
variable {α κ : Type} [LinearOrder κ] {key : α → κ}

lemma getElem?_eq_some_iff_rank {items : List α} (ascending : items.Pairwise fun a b => key a < key b) (k : Nat) (a : α) :
    items[k]? = some a ↔ a ∈ items ∧ items.countP (fun b => key b < key a) = k := by
  induction items generalizing k with
  | nil => simp
  | cons first rest ih =>
    obtain ⟨least,ascending⟩ := pairwise_cons.mp ascending
    grind

end Rank

/-- What the index uses of the platform: the centroids that the iterations of `Train` come to
from the sample they start with, and scores. -/
structure IvfLibrary (S : Type) where
  kmeans : Vec → Nat → Nat → List Vec
  dot : Vec → Vec → S
  greater : S → S → Bool
  lowest : S

structure IvfFlatIndex where
  dim : UInt32
  nlist : Nat
  centroids : List Vec
  trained : Bool
  lists : List (List UInt32)
  total_count : Nat

namespace IvfFlatIndex
variable {S : Type}

def create (dim : UInt32) (nlist : Nat) : IvfFlatIndex :=
  let nlist := if nlist = 0 then 1 else nlist
  { dim, nlist, centroids := [], trained := false, lists := replicate nlist [], total_count := 0 }

variable (lib : IvfLibrary S)

variable (idx : IvfFlatIndex)

def findNearestCentroid (vec : Vec) : Nat :=
  ((List.range idx.nlist).foldl (fun (best : S × Nat) i =>
    let score := lib.dot vec (idx.centroids.getD i [])
    if lib.greater score best.1 then (score,i) else best) (lib.lowest,0)).2

def train (data : Vec) (num_vectors : Nat) : Except Status IvfFlatIndex :=
  if num_vectors = 0 then .ok idx
  else if data.length < num_vectors * idx.dim.toNat then .error (.invalidArgument "Data buffer too small")
  else .ok { idx with centroids := lib.kmeans data num_vectors idx.nlist, trained := true }

def add (entry_index : UInt32) (vec : Vec) : Except Status IvfFlatIndex :=
  if !idx.trained then .error (.aborted "Index not trained")
  else if vec.length ≠ idx.dim.toNat then .error (.invalidArgument "Dim mismatch")
  else .ok { idx with
    lists := idx.lists.modify (idx.findNearestCentroid lib vec) (· ++ [entry_index])
    total_count := idx.total_count + 1 }

lemma findNearestCentroid_lt {idx : IvfFlatIndex} (some_ : 0 < idx.nlist) (vec : Vec) :
    idx.findNearestCentroid lib vec < idx.nlist := by
  have walk (positions : List Nat) (inside : ∀ i ∈ positions, i < idx.nlist) (best : S × Nat) (start : best.2 < idx.nlist) :
      (positions.foldl (fun (best : S × Nat) i =>
        let score := lib.dot vec (idx.centroids.getD i [])
        if lib.greater score best.1 then (score,i) else best) best).2 < idx.nlist := by
    induction positions generalizing best with
    | nil => exact start
    | cons i rest ih =>
      refine ih (fun j member => inside j (.tail _ member)) _ ?_
      dsimp only
      split
      · exact inside i (.head _)
      · exact start
  exact walk _ (by simp) _ some_

end IvfFlatIndex

/-- The part of the graph index that the entries of a segment are found through. -/
structure HnswIndex where
  dim : UInt32
  id_map : List VectorId
  vector_pool : Vec
  entry_index_map : List UInt32

namespace HnswIndex

def create (dim : UInt32) : HnswIndex := { dim, id_map := [], vector_pool := [], entry_index_map := [] }

def add (idx : HnswIndex) (id : VectorId) (vec : Vec) : Except Status HnswIndex :=
  if vec.length ≠ idx.dim.toNat then .error (.invalidArgument "vector dim mismatch")
  else .ok { idx with vector_pool := idx.vector_pool ++ vec, id_map := idx.id_map ++ [id] }

def addBatch (idx : HnswIndex) (ids : List VectorId) (vecs : Vec) : Except Status HnswIndex :=
  ids.zipIdx.foldlM (fun idx pair => idx.add pair.1 ((vecs.drop (pair.2 * idx.dim.toNat)).take idx.dim.toNat)) idx

end HnswIndex

inductive BuiltIndex
  | ivf (idx : IvfFlatIndex)
  | hnsw (idx : HnswIndex)

namespace SegmentBuilder
variable {S : Type}

variable (b : SegmentBuilder)

def indexed : List (UInt32 × BuilderEntry) :=
  (b.entries.zipIdx.filter fun pair => !pair.1.is_deleted).map fun pair => (UInt32.ofNat pair.2,pair.1)

variable (lib : IvfLibrary S)

/-- `BuildIndex`, with the index file written. -/
def buildIndex (params : IndexParams) (b : SegmentBuilder) (buf : Vec) : Except Status BuiltIndex :=
  let training_data := b.trainingData buf
  let num_live := b.indexed.length
  match params.type with
  | .kHnsw => do
    let idx ← (HnswIndex.create b.dim).addBatch (b.indexed.map fun pair => pair.2.id) training_data
    .ok (.hnsw { idx with entry_index_map := b.indexed.map Prod.fst })
  | .kIvfFlat => do
    let nlist := if num_live < params.nlist.toNat then max 1 num_live else params.nlist.toNat
    let idx ← (IvfFlatIndex.create b.dim nlist).train lib training_data num_live
    let idx ← b.indexed.foldlM (fun idx pair => idx.add lib pair.1 (pair.2.data buf b.dim)) idx
    .ok (.ivf idx)

/-- The live entries of the finished file, with their positions. -/
def finished : List (BuilderEntry × Nat) := b.sorted.zipIdx.filter fun pair => !pair.1.is_deleted

/-- The list of each centroid holds the positions in the finished file of the live entries that are nearest to it,
and the nodes of a graph are the live entries with their positions there. -/
def PointsRight (b : SegmentBuilder) (buf : Vec) : BuiltIndex → Prop
  | .ivf idx => ∀ c, ((idx.lists.getD c []).map UInt32.toNat).Perm
      ((b.finished.filter fun pair => idx.findNearestCentroid lib (pair.1.data buf b.dim) = c).map Prod.snd)
  | .hnsw idx => ((idx.entry_index_map.map UInt32.toNat).zip idx.id_map).Perm (b.finished.map fun pair => (pair.2,pair.1.id))

def rank (id : VectorId) : Nat := b.entries.countP fun e => e.id < id

/-- The live entries of each centroid were added at the places that their ids have in the segment, in some order; for
a graph each live entry was added at the place of its id. -/
def Placed (b : SegmentBuilder) (buf : Vec) : BuiltIndex → Prop
  | .ivf idx => ∀ c, ((b.entries.zipIdx.filter fun pair => !pair.1.is_deleted && idx.findNearestCentroid lib (pair.1.data buf b.dim) = c).map
      fun pair => pair.2 % 2 ^ 32).Perm ((b.entries.filter fun e => !e.is_deleted && idx.findNearestCentroid lib (e.data buf b.dim) = c).map
        fun e => b.rank e.id)
  | .hnsw _ => ∀ i e, b.entries[i]? = some e → e.is_deleted = false → b.rank e.id = i % 2 ^ 32

/-! ### What the positions point at -/

lemma indexed_entries (b : SegmentBuilder) : b.indexed.map Prod.snd = b.entries.filter fun e => !e.is_deleted := by
  rw [indexed,map_map]
  conv_rhs => rw [← zipIdx_map_fst 0 b.entries,filter_map]
  rfl

variable {b : SegmentBuilder}

lemma mem_indexed {pair : UInt32 × BuilderEntry} :
    pair ∈ b.indexed ↔ ∃ i, b.entries[i]? = some pair.2 ∧ pair.2.is_deleted = false ∧ pair.1 = UInt32.ofNat i := by
  grind [indexed,Prod.exists,Bool.not_eq_true',Prod.mk.injEq]

lemma trainingData_length (b : SegmentBuilder) (buf : Vec) : (b.trainingData buf).length = b.indexed.length * b.dim.toNat := by
  have count : b.indexed.length = (b.entries.filter fun e => !e.is_deleted).length := by
    rw [← indexed_entries,length_map]
  rw [count,trainingData,length_flatMap]
  simp [map_const',sum_replicate]

lemma addBatch_ok (vecs : Vec) (ids : List VectorId) (idx : HnswIndex) (k : Nat)
    (long : (k + ids.length) * idx.dim.toNat ≤ vecs.length) :
    ∃ after, (ids.zipIdx k).foldlM (fun (idx : HnswIndex) (pair : VectorId × Nat) =>
      idx.add pair.1 ((vecs.drop (pair.2 * idx.dim.toNat)).take idx.dim.toNat)) idx = .ok after ∧
      after.id_map = idx.id_map ++ ids := by
  induction ids generalizing idx k with
  | nil => exact ⟨idx,rfl,by simp⟩
  | cons id rest ih =>
    have room : (k + 1) * idx.dim.toNat ≤ vecs.length :=
      (Nat.mul_le_mul_right _ (by simp)).trans long
    have whole : ((vecs.drop (k * idx.dim.toNat)).take idx.dim.toNat).length = idx.dim.toNat := by
      grind
    obtain ⟨after,run,ids_⟩ := ih { idx with
      vector_pool := idx.vector_pool ++ (vecs.drop (k * idx.dim.toNat)).take idx.dim.toNat
      id_map := idx.id_map ++ [id] } (k + 1) (by simpa [Nat.add_assoc,Nat.add_comm 1] using long)
    refine ⟨after,?_,by simpa using ids_⟩
    rw [zipIdx_cons,foldlM_cons]
    simpa [HnswIndex.add,whole,bind,Except.bind] using run

lemma addAll_ok (buf : Vec) (dim : UInt32) (pairs : List (UInt32 × BuilderEntry)) (idx : IvfFlatIndex)
    (ready : idx.trained = true ∧ idx.dim = dim ∧ 0 < idx.nlist ∧ idx.lists.length = idx.nlist) :
    ∃ after, pairs.foldlM (fun (idx : IvfFlatIndex) pair => idx.add lib pair.1 (pair.2.data buf dim)) idx = .ok after ∧
      after.findNearestCentroid lib = idx.findNearestCentroid lib ∧ ∀ c, after.lists.getD c [] = idx.lists.getD c [] ++
        (pairs.filter fun pair => idx.findNearestCentroid lib (pair.2.data buf dim) = c).map Prod.fst := by
  induction pairs generalizing idx with
  | nil => exact ⟨idx,rfl,rfl,by simp⟩
  | cons pair rest ih =>
    obtain ⟨trained,same,some_,full⟩ := ready
    have inside := IvfFlatIndex.findNearestCentroid_lt lib some_ (pair.2.data buf dim)
    let added := { idx with
      lists := idx.lists.modify (idx.findNearestCentroid lib (pair.2.data buf dim)) (· ++ [pair.1])
      total_count := idx.total_count + 1 }
    obtain ⟨after,run,near,stored⟩ := ih added ⟨trained,same,some_,by simpa [added] using full⟩
    refine ⟨after,?_,near,fun c => ?_⟩
    · rw [foldlM_cons]
      simpa [IvfFlatIndex.add,trained,same,bind,Except.bind,added] using run
    · rw [stored,show added.findNearestCentroid lib = idx.findNearestCentroid lib from rfl]
      simp only [added,getD_eq_getElem?_getD,getElem?_modify]
      by_cases here : idx.findNearestCentroid lib (pair.2.data buf dim) = c
      · subst here
        simp [getElem?_eq_getElem (full.symm ▸ inside)]
      · simp [here]

/-- What an index holds when the entries have been added. -/
def Holds (b : SegmentBuilder) (buf : Vec) : BuiltIndex → Prop
  | .ivf idx => ∀ c, idx.lists.getD c [] = (b.indexed.filter fun pair => idx.findNearestCentroid lib (pair.2.data buf b.dim) = c).map Prod.fst
  | .hnsw idx => idx.entry_index_map = b.indexed.map Prod.fst ∧ idx.id_map = b.indexed.map fun pair => pair.2.id

lemma buildIndex_ok (params : IndexParams) (b : SegmentBuilder) (buf : Vec) :
    ∃ index, b.buildIndex lib params buf = .ok index ∧ b.Holds lib buf index := by
  cases type : params.type with
  | kHnsw =>
    obtain ⟨after,run,ids⟩ := addBatch_ok (b.trainingData buf) (b.indexed.map fun pair => pair.2.id) (HnswIndex.create b.dim) 0
      (by rw [trainingData_length]; simp [HnswIndex.create])
    refine ⟨.hnsw { after with entry_index_map := b.indexed.map Prod.fst },?_,rfl,ids⟩
    simp [buildIndex,type,HnswIndex.addBatch,run,bind,Except.bind]
  | kIvfFlat =>
    by_cases none_ : b.indexed = []
    · simp [Holds,buildIndex,type,none_,IvfFlatIndex.train,bind,Except.bind,pure,Except.pure,IvfFlatIndex.create,getElem?_replicate]
      grind
    · have some_ : b.indexed.length ≠ 0 := by simpa using none_
      let nlist := if b.indexed.length < params.nlist.toNat then max 1 b.indexed.length else params.nlist.toNat
      let trained := { IvfFlatIndex.create b.dim nlist with
        centroids := lib.kmeans (b.trainingData buf) b.indexed.length (IvfFlatIndex.create b.dim nlist).nlist, trained := true }
      have ready : trained.trained = true ∧ trained.dim = b.dim ∧ 0 < trained.nlist ∧ trained.lists.length = trained.nlist := by
        grind [IvfFlatIndex.create]
      have enough : ¬ (b.trainingData buf).length < b.indexed.length * (IvfFlatIndex.create b.dim nlist).dim.toNat := by
        rw [trainingData_length]
        simp [IvfFlatIndex.create]
      obtain ⟨after,run,near,stored⟩ := addAll_ok lib buf b.dim b.indexed trained ready
      refine ⟨.ivf after,?_,fun c => ?_⟩
      · simp only [buildIndex,type,IvfFlatIndex.train,if_neg some_]
        rw [if_neg enough]
        simp only [bind,Except.bind]
        rw [run]
      · have empty : trained.lists.getD c [] = [] := by
          simp [trained,IvfFlatIndex.create,getElem?_replicate]
          grind
        rw [stored,near,empty,nil_append]

lemma sorted_getElem? (distinct : (b.entries.map BuilderEntry.id).Nodup) (k : Nat) (e : BuilderEntry) :
    b.sorted[k]? = some e ↔ e ∈ b.entries ∧ b.rank e.id = k := by
  have perm : b.sorted.Perm b.entries := perm_insertionSort _ _
  have strict : b.sorted.Pairwise fun x y => x.id < y.id := by
    have unequal : (b.sorted.map BuilderEntry.id).Nodup := (perm.map _).nodup_iff.mpr distinct
    have ascending := pairwise_map.mp (b.sorted_ids.and unequal)
    exact ascending.imp fun ⟨le,ne⟩ => lt_of_le_of_ne le ne
  rw [getElem?_eq_some_iff_rank strict,perm.mem_iff,perm.countP_eq]
  rfl

lemma finished_perm (distinct : (b.entries.map BuilderEntry.id).Nodup) :
    b.finished.Perm ((b.entries.filter fun e => !e.is_deleted).map fun e => (e,b.rank e.id)) := by
  have perm : b.sorted.Perm b.entries := perm_insertionSort _ _
  have placed : b.finished = (b.sorted.filter fun e => !e.is_deleted).map fun e => (e,b.rank e.id) := by
    conv_rhs => rw [← zipIdx_map_fst 0 b.sorted,filter_map,map_map]
    refine (map_id' _).symm.trans (map_congr_left ?_)
    intro pair member
    have held := mem_zipIdx_iff_getElem?.mp (mem_filter.mp member).1
    exact Prod.ext rfl ((sorted_getElem? distinct pair.2 pair.1).mp held).2.symm
  rw [placed]
  exact (perm.filter _).map _

lemma pointsRight_iff (distinct : (b.entries.map BuilderEntry.id).Nodup) (buf : Vec) {index : BuiltIndex} (holds : b.Holds lib buf index) :
    b.PointsRight lib buf index ↔ b.Placed lib buf index := by
  have perm := finished_perm distinct
  cases index with
  | ivf idx =>
    refine forall_congr' fun c => ?_
    have there := ((perm.filter fun pair => decide (idx.findNearestCentroid lib (pair.1.data buf b.dim) = c)).map Prod.snd)
    rw [filter_map,map_map,filter_filter] at there
    have here : (idx.lists.getD c []).map UInt32.toNat = (b.entries.zipIdx.filter fun pair => !pair.1.is_deleted &&
        idx.findNearestCentroid lib (pair.1.data buf b.dim) = c).map fun pair => pair.2 % 2 ^ 32 := by
      rw [holds c,indexed,filter_map,map_map,map_map,filter_filter]
      simp only [Function.comp_def,UInt32.toNat_ofNat',Bool.and_comm]
    rw [here]
    simp only [Function.comp_def,Bool.and_comm] at there ⊢
    exact ⟨fun right => right.trans there,fun right => right.trans there.symm⟩
  | hnsw idx =>
    obtain ⟨positions,ids⟩ := holds
    have nodes : (idx.entry_index_map.map UInt32.toNat).zip idx.id_map = b.indexed.map fun pair => (pair.1.toNat,pair.2.id) := by
      rw [positions,ids,map_map,zip_map']
      rfl
    have there := perm.map fun pair => (pair.2,pair.1.id)
    rw [map_map] at there
    simp only [PointsRight,Placed,nodes]
    constructor
    · intro right i e held live
      have member := (right.trans there).mem_iff.mp (mem_map_of_mem (mem_indexed.mpr ⟨i,held,live,rfl⟩ : (UInt32.ofNat i,e) ∈ b.indexed))
      obtain ⟨other,_,same⟩ := mem_map.mp member
      simp only [Function.comp_apply,Prod.mk.injEq,UInt32.toNat_ofNat'] at same
      rw [← same.2,same.1]
    · intro placed
      have same : b.indexed.map (fun pair => (pair.1.toNat,pair.2.id)) =
          (b.indexed.map Prod.snd).map fun e => (b.rank e.id,e.id) := by
        rw [map_map]
        refine map_congr_left fun pair member => ?_
        obtain ⟨i,held,live,pos⟩ := mem_indexed.mp member
        simp [placed i pair.2 held live,pos]
      rw [same,indexed_entries]
      exact there.symm

/-- The postings of an index are right exactly if the live entries were added at the places their ids have among
the ids of the segment: each of them for a graph, those of a centroid together for its list. -/
theorem postings_right_iff (lib : IvfLibrary S) (params : IndexParams) (b : SegmentBuilder) (buf : Vec)
    (distinct : (b.entries.map BuilderEntry.id).Nodup) : ∃ index, b.buildIndex lib params buf = .ok index ∧
      (b.PointsRight lib buf index ↔ b.Placed lib buf index) := by
  obtain ⟨index,built,holds⟩ := buildIndex_ok lib params b buf
  exact ⟨index,built,pointsRight_iff lib distinct buf holds⟩

def ascendingBuilder : SegmentBuilder :=
  ⟨1,[⟨3,.arena [float1],false,{}⟩,⟨5,.null,true,{}⟩,⟨8,.arena [floatMinus1],false,{}⟩]⟩

def descendingBuilder : SegmentBuilder := ⟨1,[⟨8,.arena [floatMinus1],false,{}⟩,⟨3,.arena [float1],false,{}⟩]⟩

/-- Each vector is a centroid of its own. -/
def plainIvf : IvfLibrary Int where
  kmeans data _ nlist := (List.range nlist).map fun i => (data.drop i).take 1
  dot x y := if x = y then 1 else 0
  greater x y := x > y
  lowest := -1

lemma placed_of_each (placed : ∀ i e, b.entries[i]? = some e → e.is_deleted = false → b.rank e.id = i % 2 ^ 32) (buf : Vec)
    (index : BuiltIndex) : b.Placed lib buf index := by
  cases index with
  | hnsw idx => exact placed
  | ivf idx =>
    intro c
    refine .of_eq ?_
    conv_rhs => rw [← zipIdx_map_fst 0 b.entries,filter_map,map_map]
    refine map_congr_left fun pair member => ?_
    obtain ⟨held,kept⟩ := mem_filter.mp member
    simp only [Bool.and_eq_true,Bool.not_eq_true'] at kept
    exact (placed pair.2 pair.1 (mem_zipIdx_iff_getElem?.mp held) kept.1).symm

theorem postings_right_ascending :
    ∃ index, ascendingBuilder.buildIndex plainIvf {} [] = .ok index ∧ ascendingBuilder.PointsRight plainIvf [] index := by
  obtain ⟨index,built,right⟩ := postings_right_iff plainIvf {} ascendingBuilder [] (by decide)
  refine ⟨index,built,right.mpr (placed_of_each plainIvf ?_ [] index)⟩
  intro i e held live
  match i with
  | 0 | 1 | 2 =>
    obtain rfl := Option.some.inj held
    decide
  | i + 3 => cases held

/-- The entry with id 8 is added first and posted as 0 for its centroid, where the finished file has id 3. -/
theorem postings_wrong_descending :
    (∃ index, descendingBuilder.buildIndex plainIvf {} [] = .ok index ∧ ¬ descendingBuilder.PointsRight plainIvf [] index) ∧
    ∃ index, descendingBuilder.buildIndex plainIvf { type := .kHnsw } [] = .ok index ∧
      ¬ descendingBuilder.PointsRight plainIvf [] index := by
  constructor
  · refine ⟨_,rfl,fun right => ?_⟩
    have first := right 0
    revert first
    decide
  · refine ⟨_,rfl,fun right => ?_⟩
    simp only [PointsRight] at right
    revert right
    decide

/-! ### The builder of a freeze -/

/-- The training succeeds but for product codes of some, but fewer than 256, live entries. -/
lemma train_ok_iff (fl : FloatOps) (params : IndexParams) (codebook : Nat → Nat → Vec) (b : SegmentBuilder) (buf : Vec)
    (divides : params.quant_type = .kPq8 → b.dim % params.subQuantizers = 0) :
    (∃ trained, b.train fl params codebook buf = .ok trained) ↔
      (params.quant_type = .kPq8 → b.dim ≠ 0 ∧ (b.indexed.length = 0 ∨ 256 ≤ b.indexed.length)) := by
  have length := b.trainingData_length buf
  cases type : params.quant_type with
  | kNone => simp [train,type]
  | kFp16 => simp [train,type]
  | kBit => simp [train,type]
  | kSq8 =>
    by_cases empty : b.trainingData buf = []
    · simp [train,type,empty]
    · have some_ : b.indexed.length ≠ 0 ∧ b.dim.toNat ≠ 0 := by
        rw [← length_eq_zero_iff,length,Nat.mul_eq_zero] at empty
        tauto
      simp only [train,type,List.isEmpty_iff,empty,if_false,ScalarQuantizer8Bit.train,length,ScalarQuantizer8Bit.create,
        Nat.mul_div_cancel _ (Nat.pos_of_ne_zero some_.2),some_,or_self,lt_irrefl]
      split <;> simp [Except.map]
  | kPq8 =>
    have some_ : params.subQuantizers ≠ 0 := by
      rw [IndexParams.subQuantizers]
      split
      · next positive =>
        rintro zero
        rw [zero] at positive
        exact absurd positive (by decide)
      · decide
    by_cases zero : b.dim = 0
    · simp [train,type,zero]
    · have positive : 0 < b.dim.toNat := Nat.pos_of_ne_zero fun none_ => zero (UInt32.toNat_inj.mp none_)
      by_cases none_ : b.indexed.length = 0
      · have empty : b.trainingData buf = [] := length_eq_zero_iff.mp (by rw [length,none_,Nat.zero_mul])
        simp [train,type,zero,some_,divides type,empty,none_]
      · have full : b.trainingData buf ≠ [] := fun empty => by simp [empty,none_,positive.ne'] at length
        by_cases few : b.indexed.length < 256
        · simp [train,type,zero,some_,divides type,full,length,Nat.mul_div_cancel _ positive,ProductQuantizer.ksub,few,none_]
        · simp [train,type,zero,some_,divides type,length,Nat.mul_div_cancel _ positive,ProductQuantizer.ksub,few]
          omega

/-- The builder that a freeze fills with a part of a memtable becomes a segment exactly if
product codes find no live entry or enough of them to train on. -/
theorem freeze_progress_iff (lib : IvfLibrary S) (fl : FloatOps) (params : IndexParams) (codebook : Nat → Nat → Vec)
    (b : SegmentBuilder) (buf : Vec)
    (divides : params.quant_type = .kPq8 → b.dim % params.subQuantizers = 0) :
    ((∃ index, b.buildIndex lib params buf = .ok index) ∧
      ∃ file, b.finishFile fl params codebook buf = .ok file) ↔
        (params.quant_type = .kPq8 → b.dim ≠ 0 ∧ (b.indexed.length = 0 ∨ 256 ≤ b.indexed.length)) := by
  refine Iff.trans ?_ (train_ok_iff fl params codebook b buf divides)
  obtain ⟨index,built,_⟩ := buildIndex_ok lib params b buf
  constructor
  · rintro ⟨_,file,finished⟩
    exact finishFile_trained finished
  · rintro ⟨q,ready⟩
    exact ⟨⟨index,built⟩,_,by rw [finishFile,ready]; rfl⟩

/-- As many live entries as the product codes need. -/
def trainable : SegmentBuilder := ⟨8,replicate 256 ⟨7,.arena (replicate 8 float1),false,{}⟩⟩

theorem freeze_progress_trained : (∃ index, trainable.buildIndex plainIvf {quant_type := .kPq8} [] = .ok index) ∧
    ∃ file, trainable.finishFile Platform.plain.floats {quant_type := .kPq8} (fun _ _ => []) [] = .ok file :=
  (freeze_progress_iff plainIvf _ {quant_type := .kPq8} _ trainable _ (by decide)).mpr fun _ => ⟨by decide,.inr (by decide +kernel)⟩

/-- A memtable with one vector. -/
def singleTable : MemTable := ((MemTable.create Platform.plain 8 false).put 7 (replicate 8 float1)).1

theorem freeze_stuck_single : ¬∃ file, (⟨8,singleTable.map.entries.map singleTable.builderEntry⟩ : SegmentBuilder).finishFile
    Platform.plain.floats {quant_type := .kPq8} (fun _ _ => []) [] = .ok file := by
  rintro ⟨file,finished⟩
  have enough := (train_ok_iff _ {quant_type := .kPq8} _ _ _ (by decide +kernel)).mp (finishFile_trained finished) rfl
  revert enough
  decide +kernel

end SegmentBuilder
end PomaiCache
