import Mathlib
import PomaiCache.Layers

/-!
Finite maps with an iteration order nobody relies on. A map is an association list with
distinct keys; puts and deletions are writes, and a map after writes holds, under each key,
what the last write to it says.
-/
namespace PomaiCache
open Layers List

abbrev Dict (κ β : Type) := AList fun _ : κ => β

namespace Dict
variable {κ β : Type}

def size (d : Dict κ β) : Nat := d.entries.length

def keep (test : κ → β → Bool) (d : Dict κ β) : Dict κ β :=
  ⟨d.entries.filter fun e => test e.1 e.2,d.nodupKeys.sublist filter_sublist⟩

structure Walk (κ β : Type) where
  order : Dict κ β → List (Σ _ : κ, β)
  perm : ∀ d, (order d).Perm d.entries

def Walk.plain : Walk κ β := ⟨fun d => d.entries,fun _ => .refl _⟩

lemma size_eq_keys (d : Dict κ β) : d.size = d.keys.length := by
  simp [size,AList.keys,List.keys]

variable {d : Dict κ β} {key : κ}

lemma keep_eq_self (all : ∀ e ∈ d.entries, test e.1 e.2 = true) : d.keep test = d :=
  AList.ext (filter_eq_self.mpr all)

variable [DecidableEq κ]

lemma mem_entries : ⟨key,value⟩ ∈ d.entries ↔ d.lookup key = some value :=
  AList.mem_lookup_iff.symm

lemma filter_entries (d : Dict κ β) (key : κ) :
    d.entries.filter (fun e => e.1 = key) = ((d.lookup key).map fun value => (⟨key,value⟩ : Σ _ : κ, β)).toList := by
  have lists (l : List (Σ _ : κ, β)) (nodup : l.NodupKeys) :
      l.filter (fun e => e.1 = key) = ((l.dlookup key).map fun value => (⟨key,value⟩ : Σ _ : κ, β)).toList := by
    induction l with
    | nil => rfl
    | cons e l ih =>
      grind [filter_eq_nil_iff]
  exact lists d.entries d.nodupKeys

def Walk.front (first : Dict κ β → κ) : Walk κ β where
  order d := d.entries.filter (fun e => e.1 = first d) ++ d.entries.filter fun e => ¬ e.1 = first d
  perm d := by simpa using filter_append_perm (fun e => decide (e.1 = first d)) d.entries

lemma Walk.front_order (first : Dict κ β → κ) (held : d.lookup (first d) = some value) :
    ∃ rest, (Walk.front first).order d = ⟨first d,value⟩ :: rest := by
  simp [front,filter_entries,held]

lemma lookup_keep (test : κ → β → Bool) (d : Dict κ β) (key : κ) : (d.keep test).lookup key = (d.lookup key).filter (test key) := by
  apply Option.ext
  intro value
  rw [← mem_entries,Option.filter_eq_some_iff,← mem_entries]
  simp [keep]

lemma measure_le (measure : (Σ _ : κ, β) → Nat) {small large : Dict κ β} (inside : ∀ key value, small.lookup key = some value →
      ∃ other, large.lookup key = some other ∧ measure ⟨key,value⟩ ≤ measure ⟨key,other⟩) :
    (small.entries.map measure).sum ≤ (large.entries.map measure).sum := by
  let weight (key : κ) : Nat := (large.lookup key).elim 0 fun other => measure ⟨key,other⟩
  have keys : small.keys.Subperm large.keys := by
    apply subperm_of_subset small.keys_nodup
    intro key member
    obtain ⟨value,held⟩ := Option.isSome_iff_exists.mp (AList.lookup_isSome.mpr member)
    obtain ⟨other,found,_⟩ := inside key value held
    exact AList.lookup_isSome.mp (by rw [found]; rfl)
  obtain ⟨part,same,sublist⟩ := keys
  calc (small.entries.map measure).sum
    _ ≤ (small.entries.map fun e => weight e.1).sum := by
      apply sum_le_sum
      intro e member
      obtain ⟨other,found,le⟩ := inside e.1 e.2 (mem_entries.mp member)
      simpa [weight,found] using le
    _ = (small.keys.map weight).sum := by
      rw [AList.keys,List.keys,map_map]
      rfl
    _ = (part.map weight).sum := (same.map weight).sum_eq.symm
    _ ≤ (large.keys.map weight).sum := (sublist.map weight).sum_le_sum fun _ _ => Nat.zero_le _
    _ = (large.entries.map measure).sum := by
      rw [AList.keys,List.keys,map_map]
      congr 1
      apply map_congr_left
      intro e member
      simp [weight,mem_entries.mp member]

lemma size_le {small large : Dict κ β} (inside : ∀ key, (small.lookup key).isSome → (large.lookup key).isSome) :
    small.size ≤ large.size := by
  have ones : (small.entries.map fun _ => 1).sum ≤ (large.entries.map fun _ => 1).sum := measure_le _ fun key value held => by
    obtain ⟨other,found⟩ := Option.isSome_iff_exists.mp (inside key (by rw [held]; rfl))
    exact ⟨other,found,Nat.le_refl _⟩
  simpa [size] using ones

def write (d : Dict κ β) (w : κ × Option β) : Dict κ β :=
  match w.2 with
  | some value => d.insert w.1 value
  | none => d.erase w.1

def writeAll (d : Dict κ β) (writes : List (κ × Option β)) : Dict κ β := writes.foldl write d

lemma lookup_write (d : Dict κ β) (w : κ × Option β) (key : κ) :
    (d.write w).lookup key = if w.1 = key then w.2 else d.lookup key := by
  obtain ⟨at_,value⟩ := w
  by_cases same : at_ = key
  · subst same
    cases value <;> simp [write]
  · cases value <;> simp [write,same,Ne.symm same]

lemma lookup_writeAll (writes : List (κ × Option β)) (d : Dict κ β) (key : κ) :
    (d.writeAll writes).lookup key = (lastWrite writes key).getD (d.lookup key) := by
  induction writes using List.reverseRecOn with
  | nil => rfl
  | append_singleton writes w ih =>
    grind [writeAll,lookup_write,lastWrite_append,lastWrite_singleton]

lemma lastWrite_entries (d : Dict κ β) (key : κ) :
    lastWrite (d.entries.map fun e => (e.1,some e.2)) key = (d.lookup key).map some := by
  cases found : d.lookup key with
  | none =>
    rw [Option.map_none,lastWrite_eq_none]
    intro w member same
    obtain ⟨e,inside,rfl⟩ := mem_map.mp member
    have held : d.lookup e.1 = some e.2 := mem_entries.mp inside
    rw [show e.1 = key from same,found] at held
    cases held
  | some value =>
    have inside := mem_entries.mpr found
    cases last : lastWrite (d.entries.map fun e => (e.1,some e.2)) key with
    | none => exact absurd rfl (lastWrite_eq_none.mp last _ (mem_map.mpr ⟨_,inside,rfl⟩))
    | some held =>
      obtain ⟨e,entry,same⟩ := mem_map.mp (mem_of_lastWrite last)
      obtain ⟨key_,value_⟩ := Prod.mk.inj same
      have both := mem_entries.mp entry
      grind

lemma lastWrite_walk (walk : Walk κ β) (d : Dict κ β) (key : κ) :
    lastWrite ((walk.order d).map fun e => (e.1,some e.2)) key = (d.lookup key).map some := by
  have perm := walk.perm d
  let ordered : Dict κ β := ⟨walk.order d,(perm_nodupKeys perm).mpr d.nodupKeys⟩
  have same : ordered.lookup key = d.lookup key := AList.perm_lookup perm
  rw [← same]
  exact lastWrite_entries ordered key

def Inside (d large : Dict κ β) : Prop := ∀ key, (d.lookup key).isSome → (large.lookup key).isSome

/-- A loop that cuts the map when it grows over a limit cuts nothing while the map stays
within another one that keeps the limit. -/
lemma foldl_limited {R : Type} {put : Dict κ β → R → Dict κ β} {cut : Dict κ β → Dict κ β} {limit : Nat} {large : Dict κ β}
    (room : limit = 0 ∨ large.size ≤ limit) {rs : List R}
    (keeps : ∀ r ∈ rs, ∀ d, Inside d large → Inside (put d r) large) (inside : Inside d large) :
    rs.foldl (fun d r => if limit > 0 ∧ (put d r).size > limit then cut (put d r) else put d r) d = rs.foldl put d := by
  induction rs generalizing d with
  | nil => rfl
  | cons r rest ih =>
    have next := keeps r (.head _) d inside
    have kept : ¬(limit > 0 ∧ (put d r).size > limit) := by
      rintro ⟨positive,over_⟩
      have := size_le next
      rcases room with none_ | fits <;> omega
    grind

/-! ### Records that each change one key -/

def alter (d : Dict κ β) (key : κ) (change : Option β → Option β) : Dict κ β := d.write (key,change (d.lookup key))

lemma lookup_alter (d : Dict κ β) (key : κ) (change : Option β → Option β) (other : κ) :
    (d.alter key change).lookup other = if key = other then change (d.lookup key) else d.lookup other :=
  lookup_write ..

lemma lookup_foldl_alter {R : Type} (at_ : R → κ) (change : R → Option β → Option β) (rs : List R) (d : Dict κ β) (key : κ) :
    (rs.foldl (fun d r => d.alter (at_ r) (change r)) d).lookup key =
      (rs.filter fun r => at_ r = key).foldl (fun held r => change r held) (d.lookup key) := by
  induction rs generalizing d with
  | nil => rfl
  | cons r rs ih =>
    rw [foldl_cons,ih,lookup_alter]
    grind

/-! ### Assignment that keeps the order of the entries -/

/-- `d[key] = value`: an entry that is there stays where it is. -/
def assign (d : Dict κ β) (key : κ) (value : β) : Dict κ β :=
  if (d.lookup key).isSome then d.replace key value else d.insert key value

lemma lookup_replace (d : Dict κ β) (key : κ) (value : β) (other : κ) :
    (d.replace key value).lookup other = if key = other then (d.lookup key).map fun _ => value else d.lookup other := by
  have lists (l : List (Σ _ : κ, β)) : (l.kreplace key value).dlookup other =
      if key = other then (l.dlookup key).map fun _ => value else l.dlookup other := by
    induction l with
    | nil => simp [List.kreplace]
    | cons e l ih =>
      obtain ⟨at_,old⟩ := e
      rw [List.kreplace,lookmap_cons]
      by_cases here : key = at_
      · grind
      · by_cases there : other = at_
        · subst there
          simp [here]
        · simp only [here,if_false]
          rw [dlookup_cons_ne _ _ there,dlookup_cons_ne _ _ here,dlookup_cons_ne _ _ there]
          exact ih
  exact lists d.entries

lemma lookup_assign (d : Dict κ β) (key : κ) (value : β) (other : κ) :
    (d.assign key value).lookup other = if key = other then some value else d.lookup other := by
  unfold assign
  split
  · next present =>
    obtain ⟨old,held⟩ := Option.isSome_iff_exists.mp present
    rw [lookup_replace,held]
    rfl
  · exact lookup_write d (key,some value) other

lemma keys_assign (present : (d.lookup key).isSome) (value : β) : (d.assign key value).keys = d.keys := by
  rw [assign,if_pos present,AList.keys_replace]

lemma size_insert_le (d : Dict κ β) (key : κ) (value : β) : size (d.insert key value) ≤ d.size + 1 := by
  grind [size_eq_keys,AList.keys_insert,length_cons]

lemma erase_absent (absent : d.lookup key = none) : d.erase key = d :=
  AList.ext (kerase_of_notMem_keys (AList.lookup_eq_none.mp absent))

lemma entries_perm (held : d.lookup key = some value) : d.entries.Perm (⟨key,value⟩ :: (d.erase key).entries) := by
  obtain ⟨other,before,behind,_,whole,rest⟩ := exists_of_kerase (AList.lookup_isSome.mp (by rw [held]; rfl) : key ∈ d)
  have same : d.lookup key = some other := mem_entries.mp (by simp [whole])
  cases held.symm.trans same
  rw [show (d.erase key).entries = before ++ behind from rest,whole]
  exact perm_middle

lemma size_insert_new (fresh : d.lookup key = none) (value : β) : size (d.insert key value) = d.size + 1 := by
  have absent : key ∉ d.keys := AList.lookup_eq_none.mp fresh
  rw [size_eq_keys,AList.keys_insert,size_eq_keys,length_cons,erase_of_not_mem absent]

lemma size_insert_present (present : (d.lookup key).isSome) (value : β) : size (d.insert key value) ≤ d.size := by
  apply size_le
  intro other
  by_cases same : other = key
  · rw [same]
    exact fun _ => present
  · rw [AList.lookup_insert_ne same]
    exact fun there => there

lemma size_assign_le (d : Dict κ β) (key : κ) (value : β) : (d.assign key value).size ≤ d.size + 1 := by
  unfold assign
  split
  · rw [size_eq_keys,AList.keys_replace,size_eq_keys]
    omega
  · exact size_insert_le ..

lemma eq_of_keys (keys : d.keys = other.keys) (same : ∀ key, d.lookup key = other.lookup key) : d = other := by
  have values {e : Σ _ : κ, β} {d : Dict κ β} (member : e ∈ d.entries) : some e = (d.lookup e.1).map fun value => ⟨e.1,value⟩ := by
    rw [mem_entries.mp member]
    rfl
  apply AList.ext
  apply map_injective_iff.mpr (Option.some_injective _)
  have entries (d : Dict κ β) : d.entries.map some = d.keys.map fun key => (d.lookup key).map fun value => (⟨key,value⟩ : Σ _ : κ, β) := by
    rw [AList.keys,List.keys,map_map]
    exact map_congr_left fun e member => values member
  simp [entries,keys,same]

end Dict
end PomaiCache
