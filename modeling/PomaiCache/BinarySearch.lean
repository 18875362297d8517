import Mathlib

/-!
Binary search over a closed interval of signed indices, as it is written with
two bounds that may cross.
-/
namespace PomaiCache.BinarySearch
variable {κ : Type} [LinearOrder κ]

/-- The loop: the index of the key between `left` and `right`. -/
def search (keys : List κ) (key : κ) (left right : Int) : Option Nat :=
  if left ≤ right then
    let mid := left + (right - left) / 2
    match keys[mid.toNat]? with
    | none => none
    | some read =>
      if read = key then some mid.toNat
      else if read < key then search keys key (mid + 1) right
      else search keys key left (mid - 1)
  else none
termination_by (right + 1 - left).toNat
decreasing_by all_goals omega

/-- The keys outside the bounds are on the right side of the searched one. -/
structure Bounds (keys : List κ) (key : κ) (left right : Int) : Prop where
  start : 0 ≤ left
  stop : right < keys.length
  below : ∀ (i : Nat) read, keys[i]? = some read → (i : Int) < left → read < key
  above : ∀ (i : Nat) read, keys[i]? = some read → right < (i : Int) → key < read

variable {keys : List κ}

lemma search_sound {key : κ} {left right : Int} {i : Nat} (found : search keys key left right = some i) : keys[i]? = some key := by
  fun_induction search keys key left right with
  | case1 => cases found
  | case2 left right inside mid held =>
    cases found
    exact held
  | case3 left right inside mid read held other less ih => exact ih found
  | case4 left right inside mid read held other more ih => exact ih found
  | case5 => cases found

lemma search_complete {key : κ} {left right : Int} (ascending : keys.Pairwise (· ≤ ·))
    (bounds : Bounds keys key left right) (missed : search keys key left right = none) : key ∉ keys := by
  have ordered : ∀ (i j : Nat) first second, keys[i]? = some first → keys[j]? = some second → i < j → first ≤ second := by
    intro i j first second here there less
    obtain ⟨inside,rfl⟩ := List.getElem?_eq_some_iff.mp here
    obtain ⟨inside',rfl⟩ := List.getElem?_eq_some_iff.mp there
    exact List.pairwise_iff_getElem.mp ascending i j inside inside' less
  fun_induction search keys key left right with
  | case1 left right inside mid held =>
    -- the middle is inside the list
    have range := bounds.stop
    grind
  | case2 => cases missed
  | case3 left right inside mid read held other less ih =>
    refine ih ⟨by have := bounds.start; omega,bounds.stop,?_,bounds.above⟩ missed
    grind
  | case4 left right inside mid read held other more ih =>
    have greater : key < read := lt_of_le_of_ne (not_lt.mp more) (Ne.symm other)
    refine ih ⟨bounds.start,by have := bounds.stop; omega,bounds.below,?_⟩ missed
    grind
  | case5 left right crossed =>
    intro member
    obtain ⟨i,here⟩ := List.mem_iff_getElem?.mp member
    rcases Int.lt_or_le i left with before | behind
    · exact lt_irrefl _ (bounds.below i key here before)
    · exact lt_irrefl _ (bounds.above i key here (by omega))

lemma bounds_whole (keys : List κ) (key : κ) : Bounds keys key 0 (keys.length - 1) := by
  refine ⟨Int.le_refl _,by omega,fun _ _ _ before => by omega,?_⟩
  grind

lemma search_whole (ascending : keys.Pairwise (· ≤ ·)) {key : κ} (member : key ∈ keys) :
    ∃ i, search keys key 0 (keys.length - 1) = some i ∧ keys[i]? = some key := by
  cases found : search keys key 0 (keys.length - 1) with
  | none => exact absurd member (search_complete ascending (bounds_whole keys key) found)
  | some i => exact ⟨i,rfl,search_sound found⟩

lemma search_eq_some (ascending : keys.Pairwise (· < ·)) (key : κ) (i : Nat) :
    search keys key 0 (keys.length - 1) = some i ↔ keys[i]? = some key := by
  constructor
  · exact search_sound
  · intro here
    obtain ⟨j,found,there⟩ := search_whole (ascending.imp le_of_lt) (List.mem_of_getElem? here)
    obtain ⟨inside,same⟩ := List.getElem?_eq_some_iff.mp here
    obtain ⟨inside',same'⟩ := List.getElem?_eq_some_iff.mp there
    have distinct : keys.Nodup := ascending.imp ne_of_lt
    rw [found,(List.Nodup.getElem_inj_iff distinct).mp (same.trans same'.symm)]

end PomaiCache.BinarySearch
