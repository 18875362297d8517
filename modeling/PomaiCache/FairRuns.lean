import Mathlib

/-!
Machines that are driven by the readings of a clock. A machine comes to its end under every
fair clock if a rank never rises and falls whenever two readings in a row let it work; it has a
clock under which it never ends if some reading always leads from a doomed state to another.
-/
namespace PomaiCache.FairRuns
variable {σ ι : Type} {step : σ → ι → σ} {enough : ι → Prop}

def Fair (enough : ι → Prop) (clock : Nat → ι) : Prop := ∀ n, ∃ m ≥ n, enough (clock m) ∧ enough (clock (m + 1))

lemma Fair.of_forall {clock : Nat → ι} (always : ∀ n, enough (clock n)) : Fair enough clock :=
  fun n => ⟨n,le_rfl,always n,always (n + 1)⟩

def after (step : σ → ι → σ) (clock : Nat → ι) (s : σ) (n : Nat) : σ := ((List.range n).map clock).foldl step s

lemma after_succ (step : σ → ι → σ) (clock : Nat → ι) (s : σ) (n : Nat) :
    after step clock s (n + 1) = step (after step clock s n) (clock n) := by
  rw [after,after,List.range_succ,List.map_append,List.foldl_append]
  rfl

/-- What a reading does to a state of some rank: the rank falls, or it is kept. A reading that
is enough and keeps it makes the state ready, and a ready state is not kept by another. -/
def Falls (enough : ι → Prop) (Ranked : Nat → σ → Prop) (Ready : σ → Prop) (k : Nat) (s next : σ) (i : ι) : Prop :=
  ∃ k', Ranked k' next ∧ (k' < k ∨ k' = k ∧ (enough i → Ready next ∧ ¬ Ready s))

section
variable {Ranked : Nat → σ → Prop} {Ready Done : σ → Prop}
  (steps : ∀ k s i, Ranked k s → ¬ Done s → Falls enough Ranked Ready k s (step s i) i) {clock : Nat → ι} {start : σ}
include steps

lemma ranked_later (endless : ∀ n, ¬ Done (after step clock start n)) {k n : Nat}
    (ranked : Ranked k (after step clock start n)) (d : Nat) : ∃ k' ≤ k, Ranked k' (after step clock start (n + d)) := by
  induction d with
  | zero => exact ⟨k,le_rfl,ranked⟩
  | succ d ih =>
    obtain ⟨k',le,ranked⟩ := ih
    obtain ⟨k'',ranked',falls⟩ := steps k' _ (clock (n + d)) ranked (endless (n + d))
    grind [after_succ]

lemma ranked_less (endless : ∀ n, ¬ Done (after step clock start n)) {k n : Nat}
    (ranked : Ranked k (after step clock start n)) (first : enough (clock n)) (second : enough (clock (n + 1))) :
    ∃ k' < k, Ranked k' (after step clock start (n + 2)) := by
  obtain ⟨k₁,ranked₁,falls₁⟩ := steps k _ (clock n) ranked (endless n)
  rw [← after_succ step clock start n] at ranked₁ falls₁
  obtain ⟨k₂,ranked₂,falls₂⟩ := steps k₁ _ (clock (n + 1)) ranked₁ (endless (n + 1))
  grind [after_succ]

lemma Fair.ends (fair : Fair enough clock) {k : Nat} (ranked : Ranked k start) : ∃ n, Done (after step clock start n) := by
  by_contra never
  have endless : ∀ n, ¬ Done (after step clock start n) := not_exists.mp never
  -- no rank is left: every one would be followed by a lower one
  have none_ : ∀ k n, ¬ Ranked k (after step clock start n) := by
    intro k
    induction k using Nat.strong_induction_on with
    | _ k ih =>
      intro n ranked
      obtain ⟨m,later,first,second⟩ := fair n
      obtain ⟨d,rfl⟩ := Nat.exists_eq_add_of_le later
      obtain ⟨k₁,le,ranked₁⟩ := ranked_later steps endless ranked d
      obtain ⟨k₂,less,ranked₂⟩ := ranked_less steps endless ranked₁ first second
      exact ih k₂ (less.trans_le le) _ ranked₂
  exact none_ k 0 ranked

end

/-- If some reading leads from each doomed state to another, there is a clock under which the
machine stays doomed. -/
lemma exists_doomed {Doomed : σ → Prop} (goes_on : ∀ s, Doomed s → ∃ i, enough i ∧ Doomed (step s i)) {start : σ}
    (doomed : Doomed start) : ∃ clock : Nat → ι, (∀ n, enough (clock n)) ∧ ∀ n, Doomed (after step clock start n) := by
  choose pick picked using goes_on
  let next (s : {s // Doomed s}) : {s // Doomed s} := ⟨step s.1 (pick s.1 s.2),(picked s.1 s.2).2⟩
  let states (n : Nat) : {s // Doomed s} := next^[n] ⟨start,doomed⟩
  refine ⟨fun n => pick (states n).1 (states n).2,fun n => (picked _ _).1,fun n => ?_⟩
  have same : after step (fun n => pick (states n).1 (states n).2) start n = (states n).1 := by
    induction n with
    | zero => rfl
    | succ n ih =>
      grind [after_succ,Function.iterate_succ_apply']
  rw [same]
  exact (states n).2

end PomaiCache.FairRuns
