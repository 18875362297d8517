import Mathlib

/-!
The best elements of a list by a score. Elements of one score may be chosen in any way, so
there is a choice of the best and not the best.
-/
namespace PomaiCache.Ranking
open List

variable {α S : Type} [LinearOrder S] (score : α → S)

/-- A choice of the `k` best elements: no element that is left out has a higher score than one
that is chosen. -/
structure Best (k : Nat) (all out : List α) : Prop where
  split : ∃ rest, all.Perm (out ++ rest) ∧ ∀ a ∈ out, ∀ b ∈ rest, score b ≤ score a
  length : out.length = min k all.length

def Descending (sorted : List α) : Prop := sorted.Pairwise fun a b => score b ≤ score a

variable {score}

lemma Descending.le_of_mem_take {sorted : List α} (desc : Descending score sorted) {k : Nat} {least : S}
    (enough : k ≤ (sorted.filter (least ≤ score ·)).length) : ∀ a ∈ sorted.take k, least ≤ score a := by
  induction sorted generalizing k with
  | nil => simp
  | cons x xs ih =>
    obtain ⟨first,rest⟩ := pairwise_cons.mp desc
    cases k with
    | zero => simp
    | succ k =>
      by_cases high : least ≤ score x
      · rw [filter_cons_of_pos (by simpa using high)] at enough
        intro a member
        rcases mem_cons.mp member with rfl | later
        · exact high
        · exact ih rest (by simpa using enough) a later
      · grind [filter_eq_nil_iff]

/-- The front of the candidates in descending order is a choice of the best of all exactly if
each element that is not a candidate is matched by enough candidates. -/
lemma best_take_iff {all cand rest sorted : List α} (parts : all.Perm (cand ++ rest)) (perm : sorted.Perm cand)
    (desc : Descending score sorted) (k : Nat) :
    Best score k all (sorted.take k) ↔ ∀ e ∈ rest, k ≤ (cand.filter (score e ≤ score ·)).length := by
  have whole : all.Perm (sorted.take k ++ (sorted.drop k ++ rest)) := by
    rw [← append_assoc,take_append_drop]
    exact parts.trans (perm.symm.append_right rest)
  have size : all.length = sorted.length + rest.length := by
    rw [parts.length_eq,length_append,perm.length_eq]
  have count (e : α) : (cand.filter (score e ≤ score ·)).length = (sorted.filter (score e ≤ score ·)).length :=
    (perm.filter _).length_eq.symm
  constructor
  · rintro ⟨⟨other,chosen,dominated⟩,length⟩ e member
    have same : other.Perm (sorted.drop k ++ rest) := (perm_append_left_iff _).mp (chosen.symm.trans whole)
    have below : ∀ a ∈ sorted.take k, score e ≤ score a := fun a inside =>
      dominated a inside e (same.mem_iff.mpr (mem_append_right _ member))
    have some_ : 0 < rest.length := length_pos_of_mem member
    have full : (sorted.take k).length = k := by
      rw [length_take] at length ⊢
      omega
    rw [count]
    calc k = (sorted.take k).length := full.symm
      _ = ((sorted.take k).filter (score e ≤ score ·)).length := by
        rw [filter_eq_self.mpr fun a inside => by simpa using below a inside]
      _ ≤ (sorted.filter (score e ≤ score ·)).length := ((take_sublist k sorted).filter _).length_le
  · intro covered
    refine ⟨⟨sorted.drop k ++ rest,whole,fun a inside b member => ?_⟩,?_⟩
    · rcases mem_append.mp member with later | outside
      · have split_ : Descending score (sorted.take k ++ sorted.drop k) := by rwa [take_append_drop]
        exact (pairwise_append.mp split_).2.2 a inside b later
      · have enough := covered b outside
        rw [count] at enough
        exact desc.le_of_mem_take enough a inside
    · rw [length_take,size]
      cases rest with
      | nil => simp
      | cons e rest =>
        have enough := covered e (.head _)
        have some_ := length_filter_le (fun a => decide (score e ≤ score a)) sorted
        rw [count] at enough
        omega

lemma descending_insertionSort (score : α → S) (l : List α) : Descending score (l.insertionSort fun a b => score b ≤ score a) := by
  have total : Std.Total fun a b : α => score b ≤ score a := ⟨fun a b => le_total (score b) (score a)⟩
  have trans_ : IsTrans α fun a b => score b ≤ score a := ⟨fun _ _ _ first second => le_trans second first⟩
  exact pairwise_insertionSort _ l

lemma best_insertionSort (score : α → S) (l : List α) (k : Nat) :
    Best score k l ((l.insertionSort fun a b => score b ≤ score a).take k) := by
  have whole : l.Perm (l ++ []) := by rw [append_nil]
  exact (best_take_iff whole (perm_insertionSort _ l) (descending_insertionSort score l) k).mpr (by simp)

namespace Best
variable {k : Nat} {all out : List α} {h : α}

lemma nil (k : Nat) : Best score k [] [] := ⟨⟨[],by simp,by simp⟩,by simp⟩

lemma room (best : Best score k all out) (less : out.length < k) {more : List α} (perm : more.Perm (out ++ [h])) :
    Best score k (all ++ [h]) more := by
  obtain ⟨⟨rest,parts,_⟩,length⟩ := best
  have size := parts.length_eq
  rw [length_append] at size
  have none_ : rest = [] := eq_nil_of_length_eq_zero (by omega)
  subst none_
  rw [append_nil] at parts
  refine ⟨⟨[],?_,by simp⟩,?_⟩
  · rw [append_nil]
    exact (parts.append_right [h]).trans perm.symm
  · rw [perm.length_eq,length_append,length_append,length_singleton]
    omega

lemma replace {t : α} (best : Best score k all (t :: out)) (full : out.length + 1 = k) (least : ∀ a ∈ out, score t ≤ score a)
    (better : score t ≤ score h) {more : List α} (perm : more.Perm (out ++ [h])) : Best score k (all ++ [h]) more := by
  obtain ⟨⟨rest,parts,dominated⟩,length⟩ := best
  refine ⟨⟨t :: rest,?_,?_⟩,?_⟩
  · have before : (all ++ [h]).Perm (h :: t :: (out ++ rest)) := (parts.append_right [h]).trans (perm_append_singleton h _)
    have after : (more ++ t :: rest).Perm (t :: h :: (out ++ rest)) := by
      refine perm_middle.trans ((perm.append_right rest).cons t |>.trans (List.Perm.cons t ?_))
      simp
    exact (before.trans (List.Perm.swap t h _)).trans after.symm
  · grind
  · grind [length_cons,perm.length_eq,length_append,length_singleton]

lemma skip (best : Best score k all out) (full : out.length = k) (worse : ∀ a ∈ out, score h ≤ score a) :
    Best score k (all ++ [h]) out := by
  obtain ⟨⟨rest,parts,dominated⟩,length⟩ := best
  refine ⟨⟨rest ++ [h],?_,?_⟩,?_⟩
  · rw [← append_assoc]
    exact parts.append_right [h]
  · grind
  · rw [length_append,length_singleton]
    omega

lemma subset (best : Best score k all out) : out ⊆ all := by
  obtain ⟨⟨rest,parts,_⟩,_⟩ := best
  grind

lemma nodup (best : Best score k all out) (distinct : all.Nodup) : out.Nodup := by
  obtain ⟨⟨rest,parts,_⟩,_⟩ := best
  exact (nodup_append.mp (parts.nodup_iff.mp distinct)).1

lemma perm_of_unique {other : List α} (best : Best score k all out) (another : Best score k all other) (distinct : all.Nodup)
    (unique : ∀ a ∈ other, ∀ b ∈ all, score a = score b → a = b) : out.Perm other := by
  classical
  have inside : other ⊆ out := by
    intro b chosen
    by_contra missing
    obtain ⟨rest,parts,dominated⟩ := best.split
    obtain ⟨rest',parts',dominated'⟩ := another.split
    have left : b ∈ rest := by
      rcases mem_append.mp (parts.mem_iff.mp (parts'.mem_iff.mpr (mem_append_left _ chosen))) with here | there
      · exact absurd here missing
      · exact there
    -- all of the first choice score higher than `b`, so they are in the second one without `b`
    have higher : out ⊆ other.erase b := by
      intro a member
      have apart : a ≠ b := fun same => missing (same ▸ member)
      have above : score b < score a := by
        refine lt_of_le_of_ne (dominated a member b left) ?_
        intro same
        exact apart (unique b chosen a (parts.mem_iff.mpr (mem_append_left _ member)) same).symm
      have there : a ∈ other := by
        rcases mem_append.mp (parts'.mem_iff.mp (parts.mem_iff.mpr (mem_append_left _ member))) with here | below
        · exact here
        · exact absurd (dominated' b chosen a below) (not_le.mpr above)
      exact (mem_erase_of_ne apart).mpr there
    have less := (subperm_of_subset (best.nodup distinct) higher).length_le
    have some_ := length_pos_of_mem chosen
    have first := best.length
    have second := another.length
    rw [length_erase_of_mem chosen] at less
    omega
  have sub := subperm_of_subset (another.nodup distinct) inside
  exact (sub.perm_of_length_le (by rw [best.length,another.length])).symm

end Best
end PomaiCache.Ranking
