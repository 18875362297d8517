import Mathlib

/-!
Stores that keep a key in several layers. A layer says nothing about a key,
says that it is deleted, or gives its value; the first layer that says anything
answers.
-/
namespace PomaiCache.Layers
variable {κ β : Type}

abbrev Layer (κ β : Type) := κ → Option (Option β)

def answer (layers : List (Layer κ β)) (key : κ) : Option (Option β) := layers.findSome? (· key)

def seen (layers : List (Layer κ β)) (key : κ) : Option β := (answer layers key).join

@[simp] lemma answer_nil (key : κ) : answer ([] : List (Layer κ β)) key = none := rfl

lemma answer_cons (first : Layer κ β) (rest : List (Layer κ β)) (key : κ) :
    answer (first :: rest) key = (first key).or (answer rest key) := by
  rw [answer,List.findSome?_cons]
  cases first key <;> rfl

lemma answer_append (upper lower : List (Layer κ β)) (key : κ) :
    answer (upper ++ lower) key = (answer upper key).or (answer lower key) :=
  List.findSome?_append

lemma answer_eq_none {layers : List (Layer κ β)} {key : κ} : answer layers key = none ↔ ∀ layer ∈ layers, layer key = none :=
  List.findSome?_eq_none_iff

lemma answer_reverse_eq_none (layers : List (Layer κ β)) (key : κ) :
    answer layers.reverse key = none ↔ answer layers key = none := by
  simp [answer_eq_none]

lemma seen_append_congr (upper : List (Layer κ β))
    (below : seen lower key = seen lower' key) : seen (upper ++ lower) key = seen (upper ++ lower') key := by
  rw [seen,seen,answer_append,answer_append]
  cases answer upper key with
  | none => exact below
  | some value => rfl

/-- Putting layers in the opposite order is not seen exactly when the first and the
last layer that hold a key show the same, as far as the reader looks. -/
lemma seen_reverse_append {γ : Type} (look : β → γ) (layers lower : List (Layer κ β)) (key : κ) :
    (seen (layers ++ lower) key).map look = (seen (layers.reverse ++ lower) key).map look ↔
      (seen layers key).map look = (seen layers.reverse key).map look := by
  have same := answer_reverse_eq_none layers key
  rw [seen,seen,seen,seen,answer_append,answer_append]
  cases forwards : answer layers key with
  | none =>
    rw [same.mpr forwards]
    exact iff_of_true rfl rfl
  | some value =>
    cases backwards : answer layers.reverse key with
    | none =>
      rw [same.mp backwards] at forwards
      cases forwards
    | some other => rfl

section
variable {γ : Type} [DecidableEq κ]

def lastWrite (writes : List (κ × γ)) (key : κ) : Option γ := (writes.reverse.find? fun w => w.1 = key).map Prod.snd

@[simp] lemma lastWrite_nil (key : κ) : lastWrite ([] : List (κ × γ)) key = none := rfl

lemma lastWrite_eq_none {writes : List (κ × γ)} {key : κ} : lastWrite writes key = none ↔ ∀ w ∈ writes, w.1 ≠ key := by
  simp [lastWrite]

lemma lastWrite_append (first second : List (κ × γ)) (key : κ) :
    lastWrite (first ++ second) key = (lastWrite second key).or (lastWrite first key) := by
  grind [lastWrite,List.reverse_append]

lemma lastWrite_singleton (key other : κ) (value : γ) :
    lastWrite [(key,value)] other = if key = other then some value else none := by
  by_cases same : key = other <;> simp [lastWrite,same]

lemma lastWrite_map {δ : Type} (change : γ → δ) (writes : List (κ × γ)) (key : κ) :
    lastWrite (writes.map fun w => (w.1,change w.2)) key = (lastWrite writes key).map change := by
  rw [lastWrite,← List.map_reverse,List.find?_map,lastWrite,Option.map_map,Option.map_map]
  rfl

lemma mem_of_lastWrite {writes : List (κ × γ)} {key : κ} {value : γ} (last : lastWrite writes key = some value) :
    (key,value) ∈ writes := by
  obtain ⟨w,found,rfl⟩ := Option.map_eq_some_iff.mp last
  grind

/-- A layer after writes: a written key shows the last value written to it, as far as
the reader looks, and any other key has kept its answer. -/
def Overlays (look : β → γ) (before after : Layer κ β) (writes : List (κ × Option γ)) : Prop :=
  ∀ key, match lastWrite writes key with
    | some value => (after key).map (fun found => found.map look) = some value
    | none => after key = before key

lemma Overlays.refl (look : β → γ) (layer : Layer κ β) : Overlays look layer layer [] := fun _ => rfl

lemma Overlays.trans {look : β → γ} {a b c : Layer κ β} {first second : List (κ × Option γ)}
    (earlier : Overlays look a b first) (later : Overlays look b c second) : Overlays look a c (first ++ second) := by
  intro key
  have upper := later key
  have lower := earlier key
  rw [lastWrite_append]
  grind

lemma Overlays.answer {look : β → γ} {before after : Layer κ β} {writes : List (κ × Option γ)}
    (written : Overlays look before after writes) (below : List (Layer κ β)) :
    Overlays look (answer (before :: below)) (answer (after :: below)) writes := by
  intro key
  have here := written key
  grind [lastWrite,answer_cons]

/-- One layer is ahead of another by writes: it shows the last of them, or what the other
shows, as far as the reader looks. -/
def Ahead (look : β → γ) (below above : Layer κ β) (writes : List (κ × Option γ)) : Prop :=
  ∀ key, (above key).map (fun found => found.map look) = (lastWrite writes key).or ((below key).map fun found => found.map look)

namespace Ahead
variable {look : β → γ} {below above after : Layer κ β} {writes : List (κ × Option γ)}

lemma refl (look : β → γ) (layer : Layer κ β) : Ahead look layer layer [] := fun _ => rfl

lemma further (ahead : Ahead look below above writes) (written : Overlays look above after more) :
    Ahead look below after (writes ++ more) := by
  intro key
  have here := written key
  rw [lastWrite_append]
  cases last : lastWrite more key with
  | some value =>
    rw [last] at here
    exact here
  | none =>
    rw [last] at here
    rw [Option.none_or,← ahead key,show after key = above key from here]

lemma caught (ahead : Ahead look below above writes) (written : Overlays look below after writes) : Ahead look after above [] := by
  intro key
  have here := written key
  rw [ahead key,lastWrite_nil,Option.none_or]
  grind

lemma both (ahead : Ahead look below above writes)
    (apart : ∀ key, lastWrite writes key = none ∨ lastWrite more key = none) (lower : Overlays look below after more)
    (upper : Overlays look above later more) : Ahead look after later writes := by
  intro key
  have here := lower key
  have there := upper key
  cases last : lastWrite more key with
  | some value =>
    grind
  | none =>
    rw [last] at here there
    rw [show later key = above key from there,show after key = below key from here]
    exact ahead key

end Ahead

end

end PomaiCache.Layers
