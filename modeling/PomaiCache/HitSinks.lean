import PomaiCache.Search

/-!
The sinks that keep the best hits of a search. A hit with the least score makes room for a
better one, but the heap takes the least id of that score for the worst hit where `IsBetterHit`
takes it for the best.
-/
namespace PomaiCache
open Ranking List

section
variable {S : Type} [LinearOrder S]

lemma isBetterHit_iff (a b : SearchHit S) : isBetterHit a b = true ↔ b.score < a.score ∨ a.score = b.score ∧ a.id < b.id := by
  grind [isBetterHit]

lemma worseHit_iff (a b : SearchHit S) : worseHit a b = true ↔ b.score < a.score ∨ a.score = b.score ∧ b.id < a.id := by
  grind [worseHit]

lemma not_isBetterHit_iff (a b : SearchHit S) : ¬isBetterHit b a = true ↔ b.score < a.score ∨ a.score = b.score ∧ a.id ≤ b.id := by
  rw [isBetterHit_iff]
  grind

lemma not_worseHit_iff (a b : SearchHit S) : ¬worseHit a b = true ↔ a.score < b.score ∨ a.score = b.score ∧ a.id ≤ b.id := by
  rw [worseHit_iff]
  grind

lemma not_isBetterHit_iff_le (a b : SearchHit S) : ¬isBetterHit b a = true ↔
    toLex (OrderDual.toDual a.score,a.id) ≤ toLex (OrderDual.toDual b.score,b.id) := by
  rw [not_isBetterHit_iff,Prod.Lex.toLex_le_toLex]
  rfl

lemma not_worseHit_iff_le (a b : SearchHit S) : ¬worseHit a b = true ↔ toLex (a.score,a.id) ≤ toLex (b.score,b.id) := by
  rw [not_worseHit_iff,Prod.Lex.toLex_le_toLex]

instance : Std.Total fun a b : SearchHit S => ¬isBetterHit b a = true :=
  ⟨by simp only [not_isBetterHit_iff_le]; exact fun _ _ => le_total _ _⟩

instance : IsTrans (SearchHit S) fun a b => ¬isBetterHit b a = true :=
  ⟨by simp only [not_isBetterHit_iff_le]; exact fun _ _ _ => le_trans⟩

instance : Std.Total fun a b : SearchHit S => ¬worseHit a b = true :=
  ⟨by simp only [not_worseHit_iff_le]; exact fun _ _ => le_total _ _⟩

instance : IsTrans (SearchHit S) fun a b => ¬worseHit a b = true :=
  ⟨by simp only [not_worseHit_iff_le]; exact fun _ _ _ => le_trans⟩

def heapOf (k : Nat) (pushes : List (SearchHit S)) : List (SearchHit S) := pushes.foldl (pushHit k) []

/-- `CApiHitSink`: `Push` is that of `VectorHitSink`; `Finalize` fills the results from the last one on. -/
def capiHits (k : UInt32) (pushes : List (SearchHit S)) : List (SearchHit S) := (heapOf k.toNat pushes).reverse

def bestHits (k : Nat) (pushes : List (SearchHit S)) : List (SearchHit S) :=
  (pushes.insertionSort fun a b => ¬isBetterHit b a = true).take k

variable (k : Nat)

lemma heapOf_snoc (pushes : List (SearchHit S)) (h : SearchHit S) : heapOf k (pushes ++ [h]) = pushHit k (heapOf k pushes) h := by
  rw [heapOf,foldl_append]
  rfl

lemma bestHits_ordered (pushes : List (SearchHit S)) : (bestHits k pushes).Pairwise fun a b => ¬isBetterHit b a = true :=
  (pairwise_insertionSort _ pushes).sublist (take_sublist _ _)

lemma descending_of_ordered {hits : List (SearchHit S)} (ordered : hits.Pairwise fun a b => ¬isBetterHit b a = true) :
    Descending SearchHit.score hits := by
  refine ordered.imp ?_
  grind [not_isBetterHit_iff]

lemma bestHits_best (pushes : List (SearchHit S)) : Best SearchHit.score k pushes (bestHits k pushes) := by
  have whole : pushes.Perm (pushes ++ []) := by rw [append_nil]
  refine (best_take_iff whole (perm_insertionSort _ pushes) ?_ k).mpr (by simp)
  exact descending_of_ordered (pairwise_insertionSort _ pushes)

structure HeapKept (k : Nat) (pushes heap : List (SearchHit S)) : Prop where
  ordered : heap.Pairwise fun a b => ¬worseHit a b = true
  best : Best SearchHit.score k pushes heap

lemma HeapKept.push {k : Nat} {pushes heap : List (SearchHit S)} (kept : HeapKept k pushes heap) (h : SearchHit S) :
    HeapKept k (pushes ++ [h]) (pushHit k heap h) := by
  obtain ⟨ordered,best⟩ := kept
  have inserted : ∀ rest : List (SearchHit S), (rest.orderedInsert (fun a b => ¬worseHit a b = true) h).Perm (rest ++ [h]) :=
    fun rest => (perm_orderedInsert _ h rest).trans (perm_append_singleton h rest).symm
  have size := best.length
  unfold pushHit
  split
  · rename_i none_
    subst none_
    have empty : heap = [] := eq_nil_of_length_eq_zero (by omega)
    subst empty
    exact ⟨.nil,best.skip rfl (by simp)⟩
  split
  · rename_i less
    exact ⟨ordered.orderedInsert h heap,best.room less (inserted heap)⟩
  split
  · grind
  · rename_i some_ top rest full
    obtain ⟨least,later⟩ := pairwise_cons.mp ordered
    have full_ : rest.length + 1 = k := by
      rw [length_cons] at size full
      omega
    have low : ∀ a ∈ rest, top.score ≤ a.score := by
      grind [not_worseHit_iff]
    split
    · rename_i better
      refine ⟨later.orderedInsert h rest,best.replace full_ low ?_ (inserted rest)⟩
      grind [isBetterHit_iff]
    · rename_i worse
      have bound : h.score ≤ top.score := by
        grind [not_isBetterHit_iff]
      refine ⟨ordered,best.skip full_ ?_⟩
      grind

lemma heapOf_kept (pushes : List (SearchHit S)) : HeapKept k pushes (heapOf k pushes) := by
  induction pushes using List.reverseRecOn with
  | nil => exact ⟨.nil,.nil k⟩
  | append_singleton pushes h ih =>
    rw [heapOf_snoc]
    exact ih.push h

lemma pushHit_subperm (heap : List (SearchHit S)) (hit : SearchHit S) : (pushHit k heap hit).Subperm (heap ++ [hit]) := by
  have kept : heap.Subperm (heap ++ [hit]) := (sublist_append_left heap [hit]).subperm
  have inserted : ∀ rest : List (SearchHit S), (rest.orderedInsert (fun a b => ¬worseHit a b = true) hit).Perm (rest ++ [hit]) :=
    fun rest => (perm_orderedInsert _ hit rest).trans (perm_append_singleton hit rest).symm
  unfold pushHit
  split
  · exact kept
  split
  · exact (inserted heap).subperm
  split
  · exact nil_subperm
  · rename_i top rest _
    split
    · exact (inserted rest).subperm.trans (sublist_cons_self top (rest ++ [hit])).subperm
    · exact kept

lemma pushHit_perm {k : Nat} {heap : List (SearchHit S)} (hit : SearchHit S) (room : heap.length < k) :
    (pushHit k heap hit).Perm (heap ++ [hit]) := by
  unfold pushHit
  rw [if_neg (by omega),if_pos room]
  exact (perm_orderedInsert _ hit heap).trans (perm_append_singleton hit heap).symm

lemma foldl_pushHit_subperm (pushed : List (SearchHit S)) : ∀ heap, (pushed.foldl (pushHit k) heap).Subperm (heap ++ pushed) := by
  induction pushed with
  | nil =>
    intro heap
    simpa using List.Subperm.refl heap
  | cons hit rest ih =>
    intro heap
    have step := (subperm_append_right rest).mpr (pushHit_subperm k heap hit)
    simpa using (ih (pushHit k heap hit)).trans step

lemma foldl_pushHit_perm {k : Nat} (pushed : List (SearchHit S)) :
    ∀ {heap}, heap.length + pushed.length ≤ k → (pushed.foldl (pushHit k) heap).Perm (heap ++ pushed) := by
  induction pushed with
  | nil =>
    intro heap _
    simp
  | cons hit rest ih =>
    intro heap room
    rw [length_cons] at room
    have step := pushHit_perm hit (show heap.length < k by omega)
    grind [step.length_eq,length_append,length_singleton]

lemma Searcher.finalize_subperm (env : Searcher S) (topk : UInt32) (pushed : List (SearchHit S)) : (env.finalize topk pushed).Subperm pushed :=
  (env.sort_perm _).subperm.trans (by simpa using foldl_pushHit_subperm topk.toNat pushed [])

lemma Searcher.finalize_perm (env : Searcher S) {topk : UInt32} {pushed : List (SearchHit S)} (room : pushed.length ≤ topk.toNat) :
    (env.finalize topk pushed).Perm pushed :=
  (env.sort_perm _).trans (by simpa using foldl_pushHit_perm pushed (show [].length + _ ≤ _ by simpa using room))

/-! ### Hits that share no scores -/

def Apart (k : Nat) (pushes : List (SearchHit S)) : Prop :=
  ∀ a ∈ bestHits k pushes, ∀ b ∈ pushes, a.score = b.score → a = b

variable {k : Nat} {pushes order : List (SearchHit S)}

lemma Apart.eq_bestHits (apart : Apart k pushes) {out : List (SearchHit S)} (perm : out.Perm (bestHits k pushes))
    (desc : Descending SearchHit.score out) : out = bestHits k pushes := by
  refine perm.eq_of_pairwise ?_ desc (descending_of_ordered (bestHits_ordered k pushes))
  intro a b _ there first second
  have inside := (bestHits_best k pushes).subset
  exact (apart b there a (inside (perm.mem_iff.mp ‹a ∈ out›)) (le_antisymm first second)).symm

lemma heap_ascending {heap : List (SearchHit S)} (ordered : heap.Pairwise fun a b => ¬worseHit a b = true) :
    Descending SearchHit.score heap.reverse := by
  refine pairwise_reverse.mpr (ordered.imp ?_)
  grind [not_worseHit_iff]

lemma Apart.heap_perm (apart : Apart k pushes) (distinct : pushes.Nodup) (perm : order.Perm pushes) :
    (heapOf k order).Perm (bestHits k pushes) := by
  have kept := (heapOf_kept k order).best
  obtain ⟨rest,parts,dominated⟩ := kept.split
  have same : Best SearchHit.score k pushes (heapOf k order) :=
    ⟨⟨rest,perm.symm.trans parts,dominated⟩,by rw [kept.length,perm.length_eq]⟩
  exact same.perm_of_unique (bestHits_best k pushes) distinct apart

variable {a b : SearchHit S}

lemma eq_of_unbeaten (first : ¬isBetterHit b a = true) (second : ¬isBetterHit a b = true) : a = b := by
  have below := (not_isBetterHit_iff a b).mp first
  have above := (not_isBetterHit_iff b a).mp second
  have same : a.score = b.score ∧ a.id = b.id := by
    grind
  cases a
  cases b
  simp_all

lemma heapOf_one (pushes : List (SearchHit S)) :
    heapOf 1 pushes = [] ∧ pushes = [] ∨ ∃ t ∈ pushes, heapOf 1 pushes = [t] ∧ ∀ y ∈ pushes, ¬isBetterHit y t = true := by
  induction pushes using List.reverseRecOn with
  | nil => exact .inl ⟨rfl,rfl⟩
  | append_singleton pushes h ih =>
    refine .inr ?_
    rw [heapOf_snoc]
    have itself : ¬isBetterHit h h = true := by simp [isBetterHit]
    rcases ih with ⟨heap,rfl⟩ | ⟨t,member,heap,unbeaten⟩
    · grind [pushHit]
    · rw [heap]
      by_cases better : isBetterHit h t = true
      · refine ⟨h,by simp,by simp [pushHit,better],?_⟩
        intro y there
        rcases mem_append.mp there with old | new
        · -- `h` beats `t`, which is not beaten
          have trans_ := Std.Total.total (r := fun a b : SearchHit S => ¬isBetterHit b a = true) h t
          have first : ¬isBetterHit t h = true := by
            grind
          exact IsTrans.trans (r := fun a b : SearchHit S => ¬isBetterHit b a = true) h t y first (unbeaten y old)
        · rw [mem_singleton.mp new]
          exact itself
      · grind [pushHit]

lemma bestHits_one (member : t ∈ pushes) (unbeaten : ∀ y ∈ pushes, ¬isBetterHit y t = true) : bestHits 1 pushes = [t] := by
  have perm := perm_insertionSort (fun a b : SearchHit S => ¬isBetterHit b a = true) pushes
  have ordered := pairwise_insertionSort (fun a b : SearchHit S => ¬isBetterHit b a = true) pushes
  rw [bestHits]
  cases sorted : pushes.insertionSort fun a b : SearchHit S => ¬isBetterHit b a = true with
  | nil =>
    grind
  | cons x rest =>
    rw [sorted] at perm ordered
    have first : ¬isBetterHit x t = true := unbeaten x (perm.mem_iff.mp (.head _))
    have same : x = t := by
      rcases mem_cons.mp (perm.mem_iff.mpr member) with rfl | later
      · rfl
      · exact eq_of_unbeaten ((pairwise_cons.mp ordered).1 t later) first
    rw [same]
    rfl

omit [LinearOrder S] in
lemma eq_of_perm_short {l other : List (SearchHit S)} (short : l.length ≤ 1) (perm : other.Perm l) : other = l := by
  match l,short with
  | [],_ => exact perm.eq_nil
  | [t],_ => exact perm_singleton.mp perm

lemma heapOf_one_eq (perm : order.Perm pushes) : heapOf 1 order = bestHits 1 pushes := by
  rcases heapOf_one order with ⟨heap,rfl⟩ | ⟨t,member,heap,unbeaten⟩
  · rw [heap,nil_perm.mp perm]
    rfl
  · rw [heap,bestHits_one (perm.mem_iff.mp member) fun y there => unbeaten y (perm.mem_iff.mpr there)]

lemma apart_of_reverse (ordered : order.Pairwise fun a b => ¬worseHit a b = true)
    (same : order.reverse = bestHits k pushes) (first : a ∈ bestHits k pushes) (second : b ∈ bestHits k pushes)
    (score : a.score = b.score) : a = b := by
  have up := pairwise_reverse.mpr ordered
  rw [same] at up
  have both := up.and (bestHits_ordered k pushes)
  have equal : (bestHits k pushes).Pairwise fun x y => x.score = y.score → x = y := by
    refine both.imp ?_
    rintro x y ⟨above,below⟩ tied
    rcases (not_worseHit_iff y x).mp above with less | ⟨_,ids⟩
    · exact absurd less (by simp [tied])
    · rcases (not_isBetterHit_iff x y).mp below with less | ⟨_,others⟩
      · exact absurd less (by simp [tied])
      · cases x
        cases y
        grind
  have symmetric : Std.Symm fun x y : SearchHit S => x.score = y.score → x = y :=
    ⟨fun x y given tied => (given tied.symm).symm⟩
  exact List.Pairwise.forall_of_forall (fun _ _ _ => rfl) equal first second score

lemma bestHits_before (chosen : a ∈ bestHits k pushes) (member : b ∈ pushes) (left : b ∉ bestHits k pushes) :
    ¬isBetterHit b a = true := by
  have perm := perm_insertionSort (fun a b : SearchHit S => ¬isBetterHit b a = true) pushes
  have ordered := pairwise_insertionSort (fun a b : SearchHit S => ¬isBetterHit b a = true) pushes
  rw [← take_append_drop k (pushes.insertionSort _)] at perm ordered
  rcases mem_append.mp (perm.mem_iff.mpr member) with front | back
  · exact absurd front left
  · exact (pairwise_append.mp ordered).2.2 a chosen b back

lemma top_stays (better : List (SearchHit S)) :
    ∀ {rest : List (SearchHit S)}, (∀ g ∈ better, a.score < g.score) → rest.length + 1 + better.length ≤ k → a ∉ rest →
      ∃ more, better.foldl (pushHit k) (a :: rest) = a :: more ∧ more.length = rest.length + better.length ∧ a ∉ more := by
  induction better with
  | nil =>
    intro rest _ _ absent
    exact ⟨rest,rfl,rfl,absent⟩
  | cons g later ih =>
    intro rest above room absent
    rw [length_cons] at room
    have high := above g (.head _)
    have under : worseHit g a = true := (worseHit_iff g a).mpr (.inl high)
    have pushed : pushHit k (a :: rest) g = a :: rest.orderedInsert (fun a b => ¬worseHit a b = true) g := by
      unfold pushHit
      grind
    have missing : a ∉ rest.orderedInsert (fun a b => ¬worseHit a b = true) g := by
      intro inside
      simp_all
    grind [worseHit,orderedInsert_length]

lemma heap_loses (tied : a.score = b.score) (ids : a.id < b.id)
    (above : ∀ x ∈ better ++ [g], a.score < x.score) (full : better.length + 2 = k) (absent : a ∉ rest) :
    a ∉ heapOf k (a :: b :: (better ++ [g]) ++ rest) := by
  have under : worseHit b a = true := (worseHit_iff b a).mpr (.inr ⟨tied.symm,ids⟩)
  have pair : pushHit k (pushHit k [] a) b = [a,b] := by
    grind [pushHit]
  have other : a ∉ [b] := by
    grind
  obtain ⟨more,walk,length,missing⟩ := top_stays (k := k) better (fun x member => above x (mem_append_left _ member))
    (show [b].length + 1 + better.length ≤ k by rw [length_singleton]; omega) other
  rw [length_singleton] at length
  have high := above g (by simp)
  have last : pushHit k (a :: more) g = more.orderedInsert (fun a b => ¬worseHit a b = true) g := by
    have wins : isBetterHit g a = true := (isBetterHit_iff g a).mpr (.inl high)
    unfold pushHit
    grind
  have gone : a ∉ pushHit k (a :: more) g := by
    grind [mem_orderedInsert,absurd,lt_irrefl]
  intro inside
  rw [heapOf,foldl_append,foldl_cons,foldl_cons,foldl_append,pair,walk,foldl_cons,foldl_nil] at inside
  rcases mem_append.mp ((foldl_pushHit_subperm k rest _).subset inside) with kept | later
  · exact gone kept
  · exact absent later

/-- A hit of the best that shares its score with another hit is lost, or listed out of order, in some order. -/
lemma lost_or_misplaced (many : 2 ≤ k) (distinct : pushes.Nodup) (chosen : a ∈ bestHits k pushes)
    (member : b ∈ pushes) (tied : a.score = b.score) (differ : a ≠ b) :
    ∃ order : List (SearchHit S), order.Perm pushes ∧ (heapOf k order).reverse ≠ bestHits k pushes := by
  by_contra none_
  simp only [not_exists,not_and,not_not] at none_
  have listed := none_ pushes (.refl _)
  have once : ∀ x ∈ bestHits k pushes, a.score = x.score → a = x := fun x inside score =>
    apart_of_reverse (heapOf_kept k pushes).ordered listed chosen inside score
  have left : b ∉ bestHits k pushes := fun inside => differ (once b inside tied)
  -- `a` is the only one of its score among the best; push it and `b` before the others
  have best := bestHits_best k pushes
  obtain ⟨rest,parts,dominated⟩ := best.split
  have behind : b ∈ rest := by
    grind
  have ids : a.id < b.id := by
    rcases (not_isBetterHit_iff a b).mp (bestHits_before chosen member left) with less | ⟨_,below⟩
    · exact absurd less (by simp [tied])
    · refine lt_of_le_of_ne below ?_
      intro same
      cases a
      cases b
      simp_all
  obtain ⟨front,tail,split⟩ := append_of_mem chosen
  obtain ⟨early,late,cut⟩ := append_of_mem behind
  have others : ((front ++ tail).length : Nat) + 1 = k := by
    have size := best.length
    have whole := parts.length_eq
    rw [split,length_append,length_cons] at size
    rw [cut,split,length_append,length_append,length_cons,length_append,length_cons] at whole
    rw [length_append]
    omega
  obtain ⟨better,g,ends⟩ : ∃ better g, front ++ tail = better ++ [g] := by
    rcases eq_nil_or_concat (front ++ tail) with empty | ⟨better,g,ends⟩
    · rw [empty,length_nil] at others
      omega
    · exact ⟨better,g,by rw [ends,concat_eq_append]⟩
  have perm : (a :: b :: (better ++ [g]) ++ (early ++ late)).Perm pushes := by
    have first : (bestHits k pushes).Perm (a :: (better ++ [g])) := by
      rw [split,← ends]
      exact perm_middle
    have second : rest.Perm (b :: (early ++ late)) := by
      rw [cut]
      exact perm_middle
    refine List.Perm.symm (parts.trans ((first.append second).trans ?_))
    rw [cons_append,cons_append,cons_append]
    exact perm_middle.cons a
  have apart : (a :: b :: (better ++ [g]) ++ (early ++ late)).Nodup := perm.nodup_iff.mpr distinct
  have above : ∀ x ∈ better ++ [g], a.score < x.score := by
    intro x inside
    have there : x ∈ bestHits k pushes := by
      rw [← ends] at inside
      rw [split]
      rcases mem_append.mp inside with here | later
      · exact mem_append_left _ here
      · exact mem_append_right _ (.tail _ later)
    refine lt_of_le_of_ne (tied ▸ dominated x there b behind) ?_
    intro score
    have same := once x there score
    have fresh : a ∉ better ++ [g] := by
      rw [cons_append,cons_append,nodup_cons] at apart
      intro again
      exact apart.1 (by simp only [mem_cons,mem_append] at again ⊢; exact .inr (.inl again))
    exact fresh (same ▸ inside)
  have absent : a ∉ early ++ late := by
    rw [cons_append,cons_append,nodup_cons] at apart
    intro again
    exact apart.1 (.tail _ (mem_append_right _ again))
  have lost := heap_loses (k := k) tied ids above (by
    rw [ends,length_append,length_singleton] at others
    omega) absent
  have kept := none_ _ perm
  rw [← kept] at chosen
  exact lost (mem_reverse.mp chosen)

/-- Both sinks end with the best hits in their order, in whichever order the hits are pushed,
exactly if there is at most one of them or none of them shares its score with another hit. -/
theorem top_k_iff (env : Searcher S) (k : UInt32) (pushes : List (SearchHit S)) (ids : (pushes.map SearchHit.id).Nodup) :
    (∀ order : List (SearchHit S), order.Perm pushes →
      env.finalize k order = bestHits k.toNat pushes ∧ capiHits k order = bestHits k.toNat pushes) ↔
        (k.toNat ≤ 1 ∨ Apart k.toNat pushes) := by
  have distinct : pushes.Nodup := ids.of_map _
  constructor
  · intro right
    by_contra wrong
    obtain ⟨many,tied⟩ := not_or.mp wrong
    simp only [Apart,not_forall] at tied
    obtain ⟨a,chosen,b,member,score,differ⟩ := tied
    obtain ⟨order,perm,other⟩ := lost_or_misplaced (by omega) distinct chosen member score differ
    exact other (right order perm).2
  · rintro (few | apart) order perm
    · have heap : heapOf k.toNat order = bestHits k.toNat pushes := by
        rcases Nat.le_one_iff_eq_zero_or_eq_one.mp few with zero | one
        · have empty : heapOf 0 order = [] := eq_nil_of_length_eq_zero (by simpa using (heapOf_kept 0 order).best.length)
          rw [zero,empty]
          rfl
        · rw [one]
          exact heapOf_one_eq perm
      have short : (bestHits k.toNat pushes).length ≤ 1 := (length_take_le _ _).trans few
      refine ⟨?_,?_⟩
      · exact eq_of_perm_short short ((env.sort_perm _).trans (.of_eq heap))
      · exact eq_of_perm_short short ((reverse_perm _).trans (.of_eq heap))
    · have heap := apart.heap_perm distinct perm
      refine ⟨?_,?_⟩
      · exact apart.eq_bestHits ((env.sort_perm _).trans heap) (env.sort_descending _)
      · exact apart.eq_bestHits ((reverse_perm _).trans heap) (heap_ascending (heapOf_kept _ order).ordered)

end

theorem top_k_distinct : plainSearcher.finalize 2 [⟨1,3⟩,⟨2,5⟩,⟨3,4⟩] = bestHits 2 [⟨1,3⟩,⟨2,5⟩,⟨3,4⟩] ∧
      capiHits 2 [⟨1,(3 : Int)⟩,⟨2,5⟩,⟨3,4⟩] = bestHits 2 [⟨1,3⟩,⟨2,5⟩,⟨3,4⟩] :=
  (top_k_iff plainSearcher 2 [⟨1,3⟩,⟨2,5⟩,⟨3,4⟩] (by decide)).mpr (.inr (by
    have best : bestHits 2 [⟨1,(3 : Int)⟩,⟨2,5⟩,⟨3,4⟩] = [⟨2,5⟩,⟨3,4⟩] := by decide
    rw [show UInt32.toNat 2 = 2 from rfl,Apart,best]
    decide)) _ (.refl _)

/-- Pushed before the best hit, the hit with the lower id is lost; pushed after it, it is kept.
Two hits of one score are listed with the higher id first. -/
theorem top_k_depends_on_order : bestHits 2 [⟨1,(0 : Int)⟩,⟨2,0⟩,⟨3,1⟩] = [⟨3,1⟩,⟨1,0⟩] ∧
    plainSearcher.finalize 2 [⟨1,0⟩,⟨2,0⟩,⟨3,1⟩] = [⟨3,1⟩,⟨2,0⟩] ∧
    plainSearcher.finalize 2 [⟨3,1⟩,⟨1,0⟩,⟨2,0⟩] = [⟨3,1⟩,⟨1,0⟩] ∧
    capiHits 2 [⟨1,(0 : Int)⟩,⟨2,0⟩,⟨3,1⟩] = [⟨3,1⟩,⟨2,0⟩] ∧ capiHits 2 [⟨1,(0 : Int)⟩,⟨2,0⟩] = [⟨2,0⟩,⟨1,0⟩] := by
  decide

end PomaiCache
