import Mathlib

/-!
Checksums by a shift register. The register is linear over exclusive or, and with the highest
bit of the polynomial set a shift loses nothing.
-/
namespace Crc

variable {w : Nat} (poly : BitVec w)

/-- The register moves down by one bit; the bit that leaves it adds the polynomial. -/
def shift (z : BitVec w) : BitVec w := (z >>> 1) ^^^ (if z.getLsbD 0 then poly else 0)

lemma shift_xor (x y : BitVec w) : shift poly (x ^^^ y) = shift poly x ^^^ shift poly y := by
  simp only [shift,BitVec.getLsbD_xor,BitVec.ushiftRight_xor_distrib]
  cases x.getLsbD 0 <;> cases y.getLsbD 0 <;> ext i <;> simp [Bool.xor_comm,Bool.xor_left_comm]

lemma shift_of_even (even : z.getLsbD 0 = false) : shift poly z = z >>> 1 := by
  simp [shift,even]

lemma msb_shift {poly : BitVec w} (top : poly.msb = true) (z : BitVec w) : (shift poly z).msb = z.getLsbD 0 := by
  grind [shift,BitVec.msb_xor]

lemma shift_injective {poly : BitVec w} (top : poly.msb = true) : Function.Injective (shift poly) := by
  intro x y same
  have low : x.getLsbD 0 = y.getLsbD 0 := by rw [← msb_shift top x,same,msb_shift top y]
  have high : x >>> 1 = y >>> 1 := by
    simp only [shift,low] at same
    exact BitVec.xor_left_inj _ |>.mp same
  refine BitVec.eq_of_getLsbD_eq fun i inside => ?_
  cases i with
  | zero => exact low
  | succ i =>
    have here := congrArg (·.getLsbD i) high
    simpa [BitVec.getLsbD_ushiftRight,Nat.add_comm] using here

def shifts (n : Nat) (z : BitVec w) : BitVec w := (shift poly)^[n] z

lemma shifts_add (m n : Nat) (z : BitVec w) : shifts poly (m + n) z = shifts poly m (shifts poly n z) :=
  Function.iterate_add_apply _ m n z

lemma shifts_xor (n : Nat) (x y : BitVec w) : shifts poly n (x ^^^ y) = shifts poly n x ^^^ shifts poly n y := by
  induction n generalizing x y with
  | zero => rfl
  | succ n ih => simp only [shifts,Function.iterate_succ_apply,shift_xor] at ih ⊢; exact ih _ _

lemma shifts_injective {poly : BitVec w} (top : poly.msb = true) (n : Nat) : Function.Injective (shifts poly n) :=
  (shift_injective top).iterate n

lemma shifts_of_low_zero (n : Nat) (low : ∀ i < n, z.getLsbD i = false) : shifts poly n z = z >>> n := by
  induction n generalizing z with
  | zero => simp [shifts]
  | succ n ih =>
    have even := shift_of_even poly (low 0 (Nat.succ_pos n))
    have rest : ∀ i < n, (z >>> 1).getLsbD i = false := fun i small => by
      rw [BitVec.getLsbD_ushiftRight]
      exact low _ (by omega)
    rw [Nat.add_comm n 1,BitVec.shiftRight_add,← ih rest]
    simp [shifts,Function.iterate_add_apply,even,Nat.add_comm 1 n]

lemma shifts_split (bits : ∀ i, low.getLsbD i = (decide (i < n) && z.getLsbD i)) :
    shifts poly n z = shifts poly n low ^^^ (z >>> n) := by
  have zero : ∀ i < n, (z ^^^ low).getLsbD i = false := fun i small => by simp [bits,small]
  have high : (z ^^^ low) >>> n = z >>> n := by
    grind
  conv_lhs => rw [← BitVec.xor_zero (x := z),← BitVec.xor_self (x := low),← BitVec.xor_assoc,BitVec.xor_comm]
  rw [shifts_xor,shifts_of_low_zero poly n zero,high]

def step (z : BitVec w) (byte : BitVec 8) : BitVec w := shifts poly 8 (z ^^^ byte.setWidth w)

def word (w : Nat) : List (BitVec 8) → BitVec w
  | [] => 0
  | byte :: rest => byte.setWidth w ^^^ (word w rest <<< 8)

lemma word_high (behind : 8 * bytes.length ≤ i) : (word w bytes).getLsbD i = false := by
  induction bytes generalizing i with
  | nil => simp [word]
  | cons byte rest ih =>
    grind [List.length_cons,word]

lemma word_injective (same : left.length = right.length) (fits : 8 * left.length ≤ w)
    (equal : word w left = word w right) : left = right := by
  induction left generalizing right with
  | nil => exact (List.length_eq_zero_iff.mp same.symm).symm
  | cons a left ih =>
    cases right with
    | nil => simp at same
    | cons b right =>
      rw [List.length_cons] at fits
      have bits (i : Nat) := congrArg (·.getLsbD i) equal
      simp only [word,BitVec.getLsbD_xor,BitVec.getLsbD_setWidth,BitVec.getLsbD_shiftLeft] at bits
      have first : a = b := by
        refine BitVec.eq_of_getLsbD_eq fun i inside => ?_
        simpa [inside,show i < w by omega] using bits i
      have rest : word w left = word w right := by
        refine BitVec.eq_of_getLsbD_eq fun i inside => ?_
        by_cases high : i + 8 < w
        · simpa [high,show ¬i + 8 < 8 by omega] using bits (i + 8)
        · grind [word_high]
      rw [first,ih (by simpa using same) (by omega) rest]

lemma foldl_step_eq (bytes : List (BitVec 8)) (fits : 8 * bytes.length ≤ w) (z : BitVec w) :
    bytes.foldl (step poly) z = shifts poly (8 * bytes.length) (z ^^^ word w bytes) := by
  induction bytes generalizing z with
  | nil => simp [shifts,word]
  | cons byte rest ih =>
    rw [List.length_cons] at fits
    have raised : shifts poly 8 (word w rest <<< 8) = word w rest := by
      rw [shifts_of_low_zero poly 8 (fun i small => by simp [small])]
      refine BitVec.eq_of_getLsbD_eq fun i inside => ?_
      grind [Nat.add_comm,word,word_high]
    calc (byte :: rest).foldl (step poly) z
        = shifts poly (8 * rest.length) (step poly z byte ^^^ word w rest) := ih (by omega) _
      _ = shifts poly (8 * rest.length) (shifts poly 8 (z ^^^ word w (byte :: rest))) := by
        rw [word,← BitVec.xor_assoc,shifts_xor poly 8 _ (word w rest <<< 8),raised,step]
      _ = shifts poly (8 * (byte :: rest).length) (z ^^^ word w (byte :: rest)) := by
        rw [← shifts_add,List.length_cons,Nat.mul_succ]

lemma foldl_step_injective {poly : BitVec w} (top : poly.msb = true) (bytes : List (BitVec 8)) :
    Function.Injective (bytes.foldl (step poly)) := by
  induction bytes with
  | nil => exact Function.injective_id
  | cons byte rest ih =>
    intro x y same
    exact BitVec.xor_left_inj _ |>.mp (shifts_injective top 8 (ih same))

lemma burst_injective {poly : BitVec w} (top : poly.msb = true) {z : BitVec w} {before left right after : List (BitVec 8)}
    (same : left.length = right.length) (fits : 8 * left.length ≤ w)
    (equal : (before ++ (left ++ after)).foldl (step poly) z = (before ++ (right ++ after)).foldl (step poly) z) :
    left = right := by
  simp only [List.foldl_append] at equal
  have here := foldl_step_injective top after equal
  grind [foldl_step_eq,word_injective,BitVec.xor_right_inj,shifts_injective]

end Crc
