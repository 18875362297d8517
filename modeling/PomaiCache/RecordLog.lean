import PomaiCache.Codec

/-!
Files of records, as a loop over an input stream reads them: each record begins where the
one before it ends, and the loop stops at the first record that is not there in full. What
a writer appends record by record is read back as the list of its records.
-/
namespace PomaiCache.RecordLog
open Codec

def read (n : Nat) (bytes : Bytes) : Option (Bytes × Bytes) :=
  if n ≤ bytes.length then some (bytes.take n,bytes.drop n) else none

variable {n : Nat}

lemma read_append (length : piece.length = n) (rest : Bytes) : read n (piece ++ rest) = some (piece,rest) := by
  subst length
  simp [read]

lemma read_length (found : read n bytes = some (piece,rest)) : rest.length + n = bytes.length := by
  grind [List.length_drop,read]

lemma read_bind {α : Type} {bytes : Bytes} {more : Bytes × Bytes → Option α} {out : α}
    (found : (read n bytes).bind more = some out) :
    ∃ got : Bytes × Bytes, got.2.length + n = bytes.length ∧ more got = some out := by
  obtain ⟨got,first,found⟩ := Option.bind_eq_some_iff.mp found
  exact ⟨got,read_length first,found⟩

lemma read_map {α : Type} {bytes : Bytes} {made : Bytes × Bytes → α} {out : α} (found : (read n bytes).map made = some out) :
    ∃ got : Bytes × Bytes, got.2.length + n = bytes.length ∧ made got = out := by
  obtain ⟨got,last,found⟩ := Option.map_eq_some_iff.mp found
  exact ⟨got,read_length last,found⟩

lemma read_piece (found : read n bytes = some (piece,rest)) : piece.length = n := by
  grind [read]

/-- One step of the loop. A record takes at least one byte, so the loop ends. -/
structure Reader (R : Type) where
  next : Bytes → Option (R × Bytes)
  shrinks : ∀ {bytes r rest}, next bytes = some (r,rest) → rest.length < bytes.length

namespace Reader
variable {R : Type} (rd : Reader R)

def upTo : Nat → Bytes → List R
  | 0,_ => []
  | fuel + 1,bytes =>
    match rd.next bytes with
    | none => []
    | some (r,rest) => r :: upTo fuel rest

def all (bytes : Bytes) : List R := rd.upTo bytes.length bytes

lemma next_nil : rd.next [] = none := by
  cases found : rd.next [] with
  | none => rfl
  | some step => exact absurd (rd.shrinks found) (Nat.not_lt_zero _)

@[simp] lemma all_nil : rd.all [] = [] := rfl

lemma upTo_enough (enough : bytes.length ≤ fuel) : rd.upTo fuel bytes = rd.all bytes := by
  have both (n m : Nat) (bytes : Bytes) (left : bytes.length ≤ n) (right : bytes.length ≤ m) :
      rd.upTo n bytes = rd.upTo m bytes := by
    induction n generalizing m bytes with
    | zero =>
      rw [List.length_eq_zero_iff.mp (Nat.le_zero.mp left)]
      cases m <;> simp [upTo,rd.next_nil]
    | succ n ih =>
      cases m with
      | zero =>
        rw [List.length_eq_zero_iff.mp (Nat.le_zero.mp right)]
        simp [upTo,rd.next_nil]
      | succ m =>
        simp only [upTo]
        cases found : rd.next bytes with
        | none => rfl
        | some step =>
          have less := rd.shrinks found
          exact congrArg _ (ih m step.2 (by omega) (by omega))
  exact both fuel bytes.length bytes enough (Nat.le_refl _)

lemma all_next (found : rd.next bytes = some (r,rest)) : rd.all bytes = r :: rd.all rest := by
  have less := rd.shrinks found
  rw [← rd.upTo_enough (Nat.le_refl bytes.length)]
  cases length : bytes.length with
  | zero => omega
  | succ fuel =>
    simp only [upTo,found]
    rw [rd.upTo_enough (by omega)]

lemma forall_all {good : R → Prop} (ensures : ∀ {bytes r rest}, rd.next bytes = some (r,rest) → good r) (bytes : Bytes) :
    ∀ r ∈ rd.all bytes, good r := by
  have steps (fuel : Nat) (bytes : Bytes) : ∀ r ∈ rd.upTo fuel bytes, good r := by
    induction fuel generalizing bytes with
    | zero => simp [upTo]
    | succ fuel ih =>
      grind [upTo]
  exact steps bytes.length bytes

lemma all_written (encode : R → Bytes) (reads : ∀ r ∈ rs, ∀ rest, rd.next (encode r ++ rest) = some (r,rest)) (tail : Bytes) :
    rd.all (rs.flatMap encode ++ tail) = rs ++ rd.all tail := by
  induction rs with
  | nil => rfl
  | cons r rs ih =>
    rw [List.flatMap_cons,List.append_assoc,rd.all_next (reads r (.head _) _),ih fun other member => reads other (.tail _ member)]
    rfl

/-- A file of written records is read back as they are. -/
lemma all_file {encode : R → Bytes} (written : file = rs.flatMap encode)
    (reads : ∀ r ∈ rs, ∀ rest, rd.next (encode r ++ rest) = some (r,rest)) : rd.all file = rs := by
  have read := rd.all_written encode reads []
  rwa [List.append_nil,all_nil,List.append_nil,← written] at read

end Reader
end PomaiCache.RecordLog
