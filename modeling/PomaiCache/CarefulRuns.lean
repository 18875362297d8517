import Mathlib

/-!
Runs of calls on a state. A property that a call keeps only under a condition holds all along a
run exactly if the condition is met at each call.
-/
namespace PomaiCache.CarefulRuns
variable {S C : Type} {call : S → C → S} {Inv : S → Prop} {careful : S → C → Prop}

/-- The condition is met at each call of a run, in the state in which it is made. -/
def Careful (call : S → C → S) (careful : S → C → Prop) : S → List C → Prop
  | _, [] => True
  | s, c :: rest => careful s c ∧ Careful call careful (call s c) rest

instance decidableCareful [each : ∀ s c, Decidable (careful s c)] : ∀ s calls, Decidable (Careful call careful s calls)
  | _,[] => .isTrue trivial
  | s,c :: rest => @instDecidableAnd _ _ (each s c) (decidableCareful (call s c) rest)

lemma invariant (keeps : ∀ s c, Inv s → Inv (call s c)) {s : S} (start : Inv s) (calls : List C) : Inv (calls.foldl call s) := by
  induction calls generalizing s with
  | nil => exact start
  | cons c rest ih => exact ih (keeps s c start)

lemma good_iff (Good : S → Prop) (keeps : ∀ s c, Inv s → Inv (call s c)) (step : ∀ s c, Inv s → Good s → (Good (call s c) ↔ careful s c))
    {s : S} (start : Inv s) (good : Good s) (calls : List C) :
    (∀ n, Good ((calls.take n).foldl call s)) ↔ Careful call careful s calls := by
  induction calls generalizing s with
  | nil => simp [good,Careful]
  | cons c rest ih =>
    constructor
    · intro always
      have next : Good (call s c) := always 1
      exact ⟨(step s c start good).mp next,(ih (keeps s c start) next).mp fun n => always (n + 1)⟩
    · rintro ⟨first,later⟩ n
      cases n with
      | zero => exact good
      | succ n => exact (ih (keeps s c start) ((step s c start good).mpr first)).mpr later n

end PomaiCache.CarefulRuns
