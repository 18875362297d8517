import Mathlib

/-!
Cutting a list into blocks: elements are collected one after the other, a block
is closed when it has reached its size, and what is left over at the end is a
block of its own.
-/
namespace PomaiCache.Blocks
variable {α : Type}

/-- The blocks of a list when `block` has been collected already. -/
def blocksFrom (size : Nat) (block : List α) : List α → List (List α)
  | [] => if block.isEmpty then [] else [block]
  | x :: xs =>
    if (block ++ [x]).length ≥ size then (block ++ [x]) :: blocksFrom size [] xs
    else blocksFrom size (block ++ [x]) xs

def blocks (size : Nat) (xs : List α) : List (List α) := blocksFrom size [] xs

lemma blocksFrom_flatten (size : Nat) (block xs : List α) : (blocksFrom size block xs).flatten = block ++ xs := by
  induction xs generalizing block with
  | nil =>
    rw [blocksFrom]
    grind
  | cons x xs ih =>
    rw [blocksFrom]
    grind

@[simp] lemma blocks_flatten (size : Nat) (xs : List α) : (blocks size xs).flatten = xs := by
  rw [blocks,blocksFrom_flatten,List.nil_append]

lemma exists_block (size : Nat) {xs : List α} {x : α} (member : x ∈ xs) : ∃ block ∈ blocks size xs, x ∈ block := by
  rw [← blocks_flatten size xs] at member
  exact List.mem_flatten.mp member

lemma blocks_single {size : Nat} {xs : List α} (fits : xs.length ≤ size) (some_ : xs ≠ []) : blocks size xs = [xs] := by
  have from_ : ∀ block rest : List α, (block ++ rest).length ≤ size → block ++ rest ≠ [] →
      blocksFrom size block rest = [block ++ rest] := by
    intro block rest
    induction rest generalizing block with
    | nil =>
      grind [blocksFrom]
    | cons x rest ih =>
      intro fits _
      have count : (block ++ [x] ++ rest).length ≤ size := by simpa using fits
      rw [blocksFrom]
      by_cases full : (block ++ [x]).length ≥ size
      · have last : rest = [] := List.eq_nil_of_length_eq_zero (by rw [List.length_append] at count; omega)
        rw [if_pos full,last]
        rfl
      · grind
  exact from_ [] xs fits some_

end PomaiCache.Blocks
