import Mathlib

/-!
Linear probing, independent of what the cells hold. A table is a number of
cells and the key each cell holds, if any; a key walks the cells from its home
onwards, wrapping around at the end.
-/
namespace PomaiCache.Probing

/-! ### A counted loop with an early return -/

/-- Visit `i`, `i + 1`, ... at most `fuel` times and return the first hit. -/
def firstHit {β : Type} (visit : Nat → Option β) : Nat → Nat → Option β
  | 0,_ => none
  | fuel + 1,i =>
    match visit i with
    | some found => some found
    | none => firstHit visit fuel (i + 1)

section FirstHit
variable {β : Type} {visit : Nat → Option β}

lemma firstHit_of_first {fuel i j : Nat} (found : β) (inside : j < fuel)
    (hit : visit (i + j) = some found) (before : ∀ k < j, visit (i + k) = none) :
    firstHit visit fuel i = some found := by
  induction j generalizing fuel i with
  | zero =>
    obtain ⟨fuel,rfl⟩ : ∃ rest, fuel = rest + 1 := ⟨fuel - 1,by omega⟩
    simp only [Nat.add_zero] at hit
    simp [firstHit,hit]
  | succ j ih =>
    obtain ⟨fuel,rfl⟩ : ∃ rest, fuel = rest + 1 := ⟨fuel - 1,by omega⟩
    have here : visit i = none := by simpa using before 0 (by omega)
    simp only [firstHit,here]
    grind

end FirstHit

/-! ### Tables in which every key can be reached from its home -/

section Tables
variable {K : Type}

/-- Cell `p` is where the walk of `key` arrives after passing only cells that
hold other keys. -/
def Arrives (n : Nat) (home : K → Nat) (cell : Nat → Option K) (key : K) (p : Nat) : Prop :=
  ∃ j < n, (home key + j) % n = p ∧ ∀ i < j, ∃ other, cell ((home key + i) % n) = some other ∧ other ≠ key

def Probed (n : Nat) (home : K → Nat) (cell : Nat → Option K) : Prop :=
  ∀ p < n, ∀ key, cell p = some key → Arrives n home cell key p

variable {n : Nat} {home : K → Nat} {cell : Nat → Option K}

lemma Probed.unique (probed : Probed n home cell) {p q : Nat} {key : K} (pIn : p < n)
    (qIn : q < n) (atP : cell p = some key) (atQ : cell q = some key) : p = q := by
  obtain ⟨j,_,rfl,beforeJ⟩ := probed p pIn key atP
  obtain ⟨k,_,rfl,beforeK⟩ := probed q qIn key atQ
  rcases Nat.lt_trichotomy j k with less | same | more
  · grind
  · rw [same]
  · grind

lemma Probed.insert (probed : Probed n home cell) {p : Nat} {key : K}
    (empty : cell p = none) (arrives : Arrives n home cell key p) :
    Probed n home (Function.update cell p (some key)) := by
  have passes (other : K) (q : Nat) (walk : Arrives n home cell other q) :
      Arrives n home (Function.update cell p (some key)) other q := by
    obtain ⟨j,inside,ends,before⟩ := walk
    refine ⟨j,inside,ends,fun i early => ?_⟩
    grind
  intro q qIn other atQ
  by_cases same : q = p
  · grind
  · rw [Function.update_of_ne same] at atQ
    exact passes _ _ (probed q qIn other atQ)

lemma walk_visits {p : Nat} (start : Nat) (inside : p < n) : ∃ j < n, (start + j) % n = p := by
  have positive : 0 < n := by omega
  have home : start % n < n := Nat.mod_lt _ positive
  refine ⟨(p + (n - start % n)) % n,Nat.mod_lt _ positive,?_⟩
  rw [Nat.add_mod,Nat.mod_mod,← Nat.add_mod,← Nat.mod_add_mod]
  have whole : start % n + (p + (n - start % n)) = p + n := by omega
  rw [whole,Nat.add_mod_right,Nat.mod_eq_of_lt inside]

lemma arrives_empty (home : K → Nat) {key : K} {p : Nat} (inside : p < n) (empty : cell p = none)
    (absent : ∀ q < n, cell q ≠ some key) : ∃ j < n, cell ((home key + j) % n) = none ∧
      ∀ i < j, ∃ other, cell ((home key + i) % n) = some other ∧ other ≠ key := by
  obtain ⟨far,farIn,arrival⟩ := walk_visits (home key) inside
  have reached : ∃ j, cell ((home key + j) % n) = none := ⟨far,by rw [arrival]; exact empty⟩
  refine ⟨Nat.find reached,?_,Nat.find_spec reached,?_⟩
  · exact Nat.lt_of_le_of_lt (Nat.find_le (by rw [arrival]; exact empty)) farIn
  · intro i early
    have filled := Nat.find_min reached early
    obtain ⟨other,there⟩ := Option.ne_none_iff_exists'.mp filled
    grind [Nat.mod_lt]

end Tables
end PomaiCache.Probing
