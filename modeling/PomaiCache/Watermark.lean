import Mathlib

/-!
Reading a sequence with a watermark: an item is taken if its key is above the mark,
and its key is the next mark. What is taken is the whole part above the first mark
exactly when the keys of that part rise.
-/
namespace PomaiCache.Watermark
open List
variable {α κ : Type} [LinearOrder κ] (key : α → κ)

def rising (mark : κ) : List α → List α
  | [] => []
  | item :: items => if mark < key item then item :: rising (key item) items else rising mark items

def final (mark : κ) : List α → κ
  | [] => mark
  | item :: items => if mark < key item then final (key item) items else final mark items

def above (mark : κ) (items : List α) : List α := items.filter fun item => mark < key item

variable {key} {mark : κ} {item : α} {items : List α}

@[simp] lemma mem_above : item ∈ above key mark items ↔ item ∈ items ∧ mark < key item := by simp [above]

lemma above_above {higher : κ} (le : mark ≤ higher) : above key higher (above key mark items) = above key higher items := by
  rw [above,above,above,filter_filter]
  grind

lemma rising_sublist : (rising key mark items).Sublist (above key mark items) := by
  induction items generalizing mark with
  | nil => exact List.Sublist.refl _
  | cons item items ih =>
    rw [rising,above]
    by_cases late : mark < key item
    · rw [if_pos late,filter_cons_of_pos (by simpa using late)]
      have rest : (rising key (key item) items).Sublist (above key (key item) (above key mark items)) := by
        rw [above_above (le_of_lt late)]
        exact ih
      exact (rest.trans filter_sublist).cons_cons item
    · rw [if_neg late,filter_cons_of_neg (by simpa using late)]
      exact ih

lemma rising_pairwise : (rising key mark items).Pairwise fun a b => key a < key b := by
  induction items generalizing mark with
  | nil => exact List.Pairwise.nil
  | cons item items ih =>
    rw [rising]
    split
    · refine pairwise_cons.mpr ⟨?_,ih⟩
      intro later member
      exact (mem_above.mp (rising_sublist.subset member)).2
    · exact ih

lemma rising_eq_above (ordered : (above key mark items).Pairwise fun a b => key a < key b) :
    rising key mark items = above key mark items := by
  induction items generalizing mark with
  | nil => rfl
  | cons item items ih =>
    rw [above] at ordered ⊢
    rw [rising]
    by_cases late : mark < key item
    · rw [filter_cons_of_pos (by simpa using late)] at ordered ⊢
      obtain ⟨first,rest⟩ := pairwise_cons.mp ordered
      have whole : above key (key item) items = above key mark items := by
        rw [← above_above (le_of_lt late),above,filter_eq_self]
        intro later member
        simpa using first later member
      rw [if_pos late,ih (by rw [whole]; exact rest),whole]
      rfl
    · rw [filter_cons_of_neg (by simpa using late)] at ordered ⊢
      rw [if_neg late]
      exact ih ordered

lemma rising_eq_above_iff :
    rising key mark items = above key mark items ↔ (above key mark items).Pairwise fun a b => key a < key b :=
  ⟨fun same => same ▸ rising_pairwise,rising_eq_above⟩

lemma final_spec : final key mark items = mark ∧ rising key mark items = [] ∨
    ∃ item ∈ rising key mark items, final key mark items = key item ∧ ∀ other ∈ rising key mark items, key other ≤ key item := by
  induction items generalizing mark with
  | nil => exact .inl ⟨rfl,rfl⟩
  | cons item items ih =>
    rw [final,rising]
    by_cases late : mark < key item
    · rw [if_pos late,if_pos late]
      right
      rcases ih with ⟨same,none_⟩ | ⟨greatest,member,same,bound⟩
      · refine ⟨item,.head _,same,?_⟩
        simp [*]
      · refine ⟨greatest,mem_cons_of_mem _ member,same,?_⟩
        intro other held
        rcases mem_cons.mp held with rfl | later
        · exact le_of_lt (mem_above.mp (rising_sublist.subset member)).2
        · exact bound other later
    · rw [if_neg late,if_neg late]
      exact ih

end PomaiCache.Watermark
