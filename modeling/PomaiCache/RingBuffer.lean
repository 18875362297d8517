import Mathlib

/-!
A circular buffer of fixed capacity is a bounded queue: what is pushed goes behind
its contents, and what is popped is the first of them.
-/
namespace PomaiCache
open List

/-- A circular buffer. The slots from `head` on are filled, and `tail` is behind them. -/
structure RingBuffer (α : Type) (capacity : Nat) where
  data : Nat → Option α
  head : Nat
  tail : Nat
  size : Nat
  bounded : size ≤ capacity
  wrapped : head % capacity = head
  behind : tail = (head + size) % capacity
  filled : ∀ i < size, (data ((head + i) % capacity)).isSome

namespace RingBuffer
variable {α : Type} {capacity : Nat}

def create : RingBuffer α capacity where
  data := fun _ => none
  head := 0
  tail := 0
  size := 0
  bounded := Nat.zero_le _
  wrapped := Nat.zero_mod _
  behind := (Nat.zero_mod _).symm
  filled := by simp

lemma slot_ne {head i n : Nat} (less : i < n) (inside : n < capacity) : (head + i) % capacity ≠ (head + n) % capacity := by
  intro same
  have distance : capacity ∣ (head + n) - (head + i) := Nat.dvd_of_mod_eq_zero (Nat.sub_mod_eq_zero_of_mod_eq same.symm)
  have := Nat.le_of_dvd (by omega) distance
  omega

variable (r : RingBuffer α capacity)

/-- `push_back`: nothing if the buffer is full. -/
def pushBack (value : α) : Option (RingBuffer α capacity) :=
  if full : r.size = capacity then none
  else some
    { data := Function.update r.data r.tail (some value)
      head := r.head
      tail := (r.tail + 1) % capacity
      size := r.size + 1
      bounded := by
        have := r.bounded
        omega
      wrapped := r.wrapped
      behind := by rw [r.behind,Nat.mod_add_mod,Nat.add_assoc]
      filled := by
        intro i inside
        have room : r.size < capacity := by
          have := r.bounded
          omega
        rcases Nat.lt_succ_iff_lt_or_eq.mp inside with earlier | rfl
        · rw [Function.update_of_ne (by rw [r.behind]; exact slot_ne earlier room)]
          exact r.filled i earlier
        · rw [← r.behind,Function.update_self]
          rfl }

/-- `pop_front`: nothing if the buffer is empty. -/
def popFront : Option (α × RingBuffer α capacity) :=
  if empty : r.size = 0 then none
  else (r.data r.head).map fun value => (value,
    { data := r.data
      head := (r.head + 1) % capacity
      tail := r.tail
      size := r.size - 1
      bounded := by
        have := r.bounded
        omega
      wrapped := Nat.mod_mod _ _
      behind := by
        rw [r.behind,Nat.mod_add_mod]
        congr 1
        omega
      filled := by
        intro i inside
        rw [Nat.mod_add_mod,Nat.add_assoc,Nat.add_comm 1 i]
        exact r.filled (i + 1) (by omega) })

def contents : List α := (List.range r.size).filterMap fun i => r.data ((r.head + i) % capacity)

@[simp] lemma contents_create : (create : RingBuffer α capacity).contents = [] := rfl

lemma contents_length : r.contents.length = r.size := by
  have all : ∀ n ≤ r.size, ((List.range n).filterMap fun i => r.data ((r.head + i) % capacity)).length = n := by
    intro n
    induction n with
    | zero => simp
    | succ n ih =>
      intro inside
      obtain ⟨value,held⟩ := Option.isSome_iff_exists.mp (r.filled n (by omega))
      rw [range_succ,filterMap_append,length_append,ih (by omega)]
      simp [held]
  exact all r.size (Nat.le_refl _)

variable {r : RingBuffer α capacity}

lemma pushBack_contents (room : r.contents.length < capacity) (value : α) :
    ∃ after, r.pushBack value = some after ∧ after.contents = r.contents ++ [value] := by
  have free : r.size < capacity := by rwa [contents_length] at room
  refine ⟨_,dif_neg (by omega),?_⟩
  simp only [contents,range_succ,filterMap_append]
  congr 1
  · apply filterMap_congr
    intro i inside
    rw [Function.update_of_ne]
    rw [r.behind]
    exact slot_ne (mem_range.mp inside) free
  · simp [← r.behind]

lemma popFront_nil (empty : r.contents = []) : r.popFront = none := by
  apply dif_pos
  rw [← contents_length,empty,length_nil]

lemma popFront_cons {value : α} {rest : List α} (held : r.contents = value :: rest) :
    ∃ after, r.popFront = some (value,after) ∧ after.contents = rest := by
  have some_ : r.size = rest.length + 1 := by rw [← contents_length,held,length_cons]
  obtain ⟨first,front⟩ := Option.isSome_iff_exists.mp (r.filled 0 (by omega))
  rw [Nat.add_zero,r.wrapped] at front
  have split : r.contents = first :: (List.range rest.length).filterMap fun i => r.data (((r.head + 1) % capacity + i) % capacity) := by
    have next : ∀ i, ((fun i => r.data ((r.head + i) % capacity)) ∘ Nat.succ) i = r.data (((r.head + 1) % capacity + i) % capacity) := by
      intro i
      rw [Nat.mod_add_mod,Function.comp_apply,Nat.succ_eq_add_one,Nat.add_assoc,Nat.add_comm 1 i]
    rw [contents,some_,range_succ_eq_map,filterMap_cons,Nat.add_zero,r.wrapped,front,filterMap_map,funext next]
  obtain ⟨rfl,same⟩ := List.cons.inj (held.symm.trans split)
  rw [popFront,dif_neg (by omega),front,Option.map_some]
  refine ⟨_,rfl,?_⟩
  simp only [contents,some_,Nat.add_sub_cancel]
  exact same.symm

end RingBuffer
end PomaiCache
