import Mathlib

/-!
A scan that takes the first element of each key. `firsts` skips the elements whose
keys were seen before, so that of several versions of one key the first one counts.
-/
namespace PomaiCache.FirstSeen
variable {κ α : Type} [DecidableEq κ]

/-- The first elements of their keys, without the keys seen before. -/
def firsts (key : α → κ) : List κ → List α → List α
  | _,[] => []
  | seen,a :: rest =>
    if key a ∈ seen then firsts key seen rest else a :: firsts key (key a :: seen) rest

variable {key : α → κ}

lemma firsts_skip {seen : List κ} {a : α} (rest : List α) (old : key a ∈ seen) :
    firsts key seen (a :: rest) = firsts key seen rest := if_pos old

lemma firsts_take {seen : List κ} {a : α} (rest : List α) (new : key a ∉ seen) :
    firsts key seen (a :: rest) = a :: firsts key (key a :: seen) rest := if_neg new

lemma mem_firsts (seen : List κ) (items : List α) (a : α) :
    a ∈ firsts key seen items ↔ key a ∉ seen ∧ (items.find? fun b => key b = key a) = some a := by
  induction items generalizing seen with
  | nil => simp [firsts]
  | cons b rest ih =>
    by_cases old : key b ∈ seen
    · rw [firsts_skip rest old,ih]
      grind
    · rw [firsts_take rest old,List.mem_cons,ih,List.mem_cons,not_or]
      grind

lemma firsts_nodup (seen : List κ) (items : List α) : ((firsts key seen items).map key).Nodup := by
  induction items generalizing seen with
  | nil => exact .nil
  | cons b rest ih =>
    by_cases old : key b ∈ seen
    · rw [firsts_skip rest old]
      exact ih seen
    · rw [firsts_take rest old,List.map_cons,List.nodup_cons]
      grind [mem_firsts]

end PomaiCache.FirstSeen
