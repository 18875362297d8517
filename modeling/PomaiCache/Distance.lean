import Mathlib

/-!
Distances along the edges of a directed graph.
-/
namespace PomaiCache

inductive Walks {α : Type} (edge : α → α → Prop) (start : α) : Nat → α → Prop
  | nil : Walks edge start 0 start
  | snoc {n : Nat} {u v : α} : Walks edge start n u → edge u v → Walks edge start (n + 1) v

def Distance {α : Type} (edge : α → α → Prop) (start v : α) (d : Nat) : Prop := IsLeast {n | Walks edge start n v} d

namespace Distance
variable {α : Type} {edge : α → α → Prop} {start u v : α} {d n : Nat}

lemma unique {e : Nat} (first : Distance edge start v d) (second : Distance edge start v e) : d = e :=
  Nat.le_antisymm (first.2 second.1) (second.2 first.1)

lemma of_walk (walk : Walks edge start n v) : ∃ d ≤ n, Distance edge start v d := by
  classical
  have some_ : ∃ k, Walks edge start k v := ⟨n,walk⟩
  exact ⟨Nat.find some_,Nat.find_le walk,Nat.find_spec some_,fun k other => Nat.find_le other⟩

lemma zero_iff : Distance edge start v 0 ↔ v = start := by
  constructor
  · rintro ⟨walk,_⟩
    cases walk
    rfl
  · rintro rfl
    exact ⟨.nil,fun _ _ => Nat.zero_le _⟩

lemma succ_iff : Distance edge start v (n + 1) ↔
    (¬ ∃ d ≤ n, Distance edge start v d) ∧ ∃ u, Distance edge start u n ∧ edge u v := by
  constructor
  · rintro ⟨walk,least⟩
    refine ⟨?_,?_⟩
    · rintro ⟨d,le,nearer⟩
      have := least nearer.1
      omega
    · cases walk with
      | @snoc _ u _ before last =>
        refine ⟨u,⟨before,fun k other => ?_⟩,last⟩
        have := least (Walks.snoc other last)
        omega
  · rintro ⟨far,u,near,last⟩
    refine ⟨.snoc near.1 last,fun k walk => ?_⟩
    by_contra less
    obtain ⟨d,le,nearer⟩ := of_walk walk
    exact far ⟨d,by omega,nearer⟩

lemma none_behind (none_ : ∀ v, ¬ Distance edge start v n) (le : n ≤ d) (v : α) : ¬ Distance edge start v d := by
  induction d, le using Nat.le_induction generalizing v with
  | base => exact none_ v
  | succ d _ ih =>
    intro at_
    obtain ⟨u,near,_⟩ := (succ_iff.mp at_).2
    exact ih u near

end Distance
end PomaiCache
