import Mathlib
import PomaiCache.Probing

/-!
The open-addressing map of the memtable. A slot whose key is the sentinel is empty, the
capacity is a power of two, and the table doubles when three quarters of it are counted as
used.
-/
namespace PomaiCache.FlatHashMemMap
open Probing List
set_option linter.unusedSectionVars false

structure Slot (K V : Type) where
  key : K
  value : V
  deriving DecidableEq, Repr

/-- The members of the class; `cap_` is the number of slots. -/
structure Table (K V : Type) where
  hash : K → UInt64
  sentinel : K
  slots : List (Slot K V)
  count : Nat

variable {K V : Type} [DecidableEq K] [Inhabited V]

def emptySlot (sentinel : K) : Slot K V := ⟨sentinel,default⟩

/-- The next power of two, in 64 bits; the mailbox rounds its capacity in the same way. -/
def roundUpPow2 (n : UInt64) : UInt64 :=
  if n = 0 then 1
  else
    let n := n - 1
    let n := n ||| n >>> 1
    let n := n ||| n >>> 2
    let n := n ||| n >>> 4
    let n := n ||| n >>> 8
    let n := n ||| n >>> 16
    let n := n ||| n >>> 32
    n + 1

def walkIndex (hash : K → UInt64) (mask : Nat) (key : K) (i : Nat) : Nat :=
  (((hash key).toNat &&& mask) + i) &&& mask

/-- Insert a key known to be absent, as rehashing does. -/
def putIntoRaw (hash : K → UInt64) (sentinel : K) (slots : List (Slot K V)) (key : K) (value : V) : List (Slot K V) :=
  let mask := slots.length - 1
  match firstHit (fun i =>
      let p := walkIndex hash mask key i
      if (slots.getD p (emptySlot sentinel)).key = sentinel then some p else none)
      slots.length 0 with
  | some p => slots.set p ⟨key,value⟩
  | none => slots

def reinsert (hash : K → UInt64) (sentinel : K) (slots : List (Slot K V)) (s : Slot K V) : List (Slot K V) :=
  if s.key = sentinel then slots else putIntoRaw hash sentinel slots s.key s.value

namespace Table

def cap (t : Table K V) : Nat := t.slots.length
def mask (t : Table K V) : Nat := t.cap - 1
def threshold (t : Table K V) : Nat := (t.cap * 3) / 4
def slot (t : Table K V) (p : Nat) : Slot K V := t.slots.getD p (emptySlot t.sentinel)

/-- The probe loop of `Find` and `PutInternal`: the first slot on the walk that
is empty (`true`) or holds the key (`false`). -/
def seek (t : Table K V) (key : K) : Option (Nat × Bool) :=
  firstHit (fun i =>
    let p := walkIndex t.hash t.mask key i
    if (t.slot p).key = t.sentinel then some (p,true)
    else if (t.slot p).key = key then some (p,false)
    else none) t.cap 0

def find (t : Table K V) (key : K) : Option V :=
  match t.seek key with
  | some (p,false) => some (t.slot p).value
  | _ => none

def putInternal (t : Table K V) (key : K) (value : V) (allow_overwrite : Bool) : Table K V × Bool :=
  match t.seek key with
  | some (p,true) => ({t with slots := t.slots.set p ⟨key,value⟩, count := t.count + 1},true)
  | some (p,false) =>
    (if allow_overwrite then {t with slots := t.slots.set p ⟨(t.slot p).key,value⟩} else t,false)
  | none => (t,false)

def grow (t : Table K V) : Table K V :=
  let new_slots := replicate (t.cap * 2) (emptySlot t.sentinel)
  {t with slots := t.slots.foldl (reinsert t.hash t.sentinel) new_slots}

def put (t : Table K V) (key : K) (value : V) : Table K V × Bool :=
  let t := if t.count ≥ t.threshold then t.grow else t
  t.putInternal key value true

def size (t : Table K V) : Nat := t.count

def entries (t : Table K V) : List (K × V) :=
  (t.slots.filter (fun s => s.key ≠ t.sentinel)).map (fun s => (s.key,s.value))

end Table

def create (hash : K → UInt64) (sentinel : K) (initial_cap : UInt64) : Table K V :=
  ⟨hash,sentinel,replicate (if initial_cap = 0 then 64 else roundUpPow2 initial_cap).toNat (emptySlot sentinel),0⟩

/-! ### The cells of a slot array -/

variable (sentinel : K) (slots : List (Slot K V))

def cell (p : Nat) : Option K :=
  if (slots.getD p (emptySlot sentinel)).key = sentinel then none
  else some (slots.getD p (emptySlot sentinel)).key

def occupied : Nat :=
  slots.countP (fun s => s.key ≠ sentinel)

def home (hash : K → UInt64) (key : K) : Nat := (hash key).toNat

lemma walkIndex_eq (hash : K → UInt64) (e : Nat) (key : K) (i : Nat) :
    walkIndex hash (2 ^ e - 1) key i = (home hash key + i) % 2 ^ e := by
  simp only [walkIndex,home,Nat.and_two_pow_sub_one_eq_mod]
  exact Nat.mod_add_mod ..

lemma cell_replicate (n p : Nat) : cell sentinel (replicate n (emptySlot sentinel : Slot K V)) p = none := by
  by_cases inside : p < n <;> simp [cell,List.getD,inside,emptySlot]

lemma getD_set (p q : Nat) (s d : Slot K V) (inside : p < slots.length) :
    (slots.set p s).getD q d = if q = p then s else slots.getD q d := by
  grind

variable {hash : K → UInt64} {p : Nat}

lemma cell_set {s : Slot K V} (inside : p < slots.length) (real : s.key ≠ sentinel) :
    cell sentinel (slots.set p s) = Function.update (cell sentinel slots) p (some s.key) := by
  funext q
  by_cases same : q = p
  · subst same
    simp only [cell,getD_set _ _ _ _ _ inside,if_true,if_neg real,Function.update_self]
  · simp only [cell,getD_set _ _ _ _ _ inside,if_neg same,Function.update_of_ne same]

lemma occupied_set {s : Slot K V}
    (inside : p < slots.length) (empty : cell sentinel slots p = none) (real : s.key ≠ sentinel) :
    occupied sentinel (slots.set p s) = occupied sentinel slots + 1 := by
  have vacant : slots[p].key = sentinel := by
    by_contra filled
    simp [cell,List.getD,List.getElem?_eq_getElem inside,filled] at empty
  simp [occupied,countP_set inside,vacant,real]

lemma exists_empty (room : occupied sentinel slots < slots.length) :
    ∃ p < slots.length, cell sentinel slots p = none := by
  by_contra full
  push Not at full
  have all : ∀ s ∈ slots, (fun s : Slot K V => decide (s.key ≠ sentinel)) s := by
    grind [getElem_of_mem,cell,List.getD]
  rw [occupied,countP_eq_length.mpr all] at room
  exact Nat.lt_irrefl _ room

/-! ### Slot arrays in which every key can be found -/

def Holds (key : K) (value : V) : Prop :=
  key ≠ sentinel ∧ ⟨key,value⟩ ∈ slots

structure Sound (hash : K → UInt64) (sentinel : K) (slots : List (Slot K V)) : Prop where
  pow : ∃ e, slots.length = 2 ^ e
  probed : Probed slots.length (home hash) (cell sentinel slots)

lemma cell_eq_some (p : Nat) (key : K) : cell sentinel slots p = some key ↔
      key ≠ sentinel ∧ (slots.getD p (emptySlot sentinel)).key = key := by
  by_cases vacant : (slots.getD p (emptySlot sentinel)).key = sentinel
  · simp only [cell,if_pos vacant,reduceCtorEq,false_iff]
    rintro ⟨real,same⟩
    exact real (same.symm.trans vacant)
  · grind [cell,Option.some_inj]

lemma cell_eq_none (p : Nat) :
    cell sentinel slots p = none ↔ (slots.getD p (emptySlot sentinel)).key = sentinel := by
  simp [cell]

lemma holds_iff (key : K) (value : V) :
    Holds sentinel slots key value ↔ ∃ p < slots.length, cell sentinel slots p = some key ∧
      (slots.getD p (emptySlot sentinel)).value = value := by
  constructor
  · rintro ⟨real,member⟩
    obtain ⟨p,inside,there⟩ := getElem_of_mem member
    refine ⟨p,inside,(cell_eq_some ..).mpr ⟨real,?_⟩,?_⟩ <;> simp [List.getElem?_eq_getElem inside,there]
  · rintro ⟨p,inside,atP,same⟩
    obtain ⟨real,keyed⟩ := (cell_eq_some ..).mp atP
    refine ⟨real,?_⟩
    have there : slots.getD p (emptySlot sentinel) = slots[p] := by
      simp [List.getElem?_eq_getElem inside]
    rw [← keyed,← same,there]
    exact getElem_mem inside

lemma holds_set (s : Slot K V) (inside : p < slots.length) (key : K) (value : V) :
    Holds sentinel (slots.set p s) key value ↔ key ≠ sentinel ∧ (s = ⟨key,value⟩ ∨
        ∃ q < slots.length, q ≠ p ∧ slots.getD q (emptySlot sentinel) = ⟨key,value⟩) := by
  unfold Holds
  refine and_congr_right fun real => ?_
  rw [mem_iff_getElem]
  constructor
  · rintro ⟨q,qIn,there⟩
    rw [length_set] at qIn
    by_cases same : q = p
    · subst same
      exact .inl (by simpa using there)
    · refine .inr ⟨q,qIn,same,?_⟩
      grind
  · grind

variable {slots} {sentinel}

lemma holds_fill (inside : p < slots.length) (empty : cell sentinel slots p = none) {key : K} (value : V) (real : key ≠ sentinel)
    (other : K) (found : V) : Holds sentinel (slots.set p ⟨key,value⟩) other found ↔
      (other = key ∧ found = value) ∨ Holds sentinel slots other found := by
  rw [holds_set _ _ _ inside,holds_iff]
  constructor
  · grind [cell_eq_some]
  · rintro (⟨rfl,rfl⟩ | ⟨q,qIn,atQ,same⟩)
    · exact ⟨real,.inl rfl⟩
    · obtain ⟨realOther,keyed⟩ := (cell_eq_some ..).mp atQ
      refine ⟨realOther,.inr ⟨q,qIn,?_,by rw [← keyed,← same]⟩⟩
      rintro rfl
      rw [empty] at atQ
      cases atQ

lemma Sound.fill (sound : Sound hash sentinel slots) {key : K} (value : V)
    (inside : p < slots.length) (real : key ≠ sentinel) (empty : cell sentinel slots p = none)
    (arrives : Arrives slots.length (home hash) (cell sentinel slots) key p) :
    Sound hash sentinel (slots.set p ⟨key,value⟩) := by
  refine ⟨by simpa using sound.pow,?_⟩
  rw [length_set,cell_set _ _ inside real]
  exact sound.probed.insert empty arrives

lemma sound_replicate (hash : K → UInt64) (sentinel : K) (e : Nat) :
    Sound hash sentinel (replicate (2 ^ e) (emptySlot sentinel : Slot K V)) := by
  refine ⟨⟨e,by simp⟩,fun p _ key atP => ?_⟩
  rw [cell_replicate] at atP
  cases atP

lemma putIntoRaw_spec (sound : Sound hash sentinel slots) {key : K} (value : V)
    (absent : ∀ found, ¬Holds sentinel slots key found) (room : occupied sentinel slots < slots.length) :
    ∃ p < slots.length, cell sentinel slots p = none ∧ Arrives slots.length (home hash) (cell sentinel slots) key p ∧
      putIntoRaw hash sentinel slots key value = slots.set p ⟨key,value⟩ := by
  obtain ⟨vacant,vacantIn,empty⟩ := exists_empty sentinel slots room
  have missing : ∀ q < slots.length, cell sentinel slots q ≠ some key := by
    intro q qIn there
    exact absent _ ((holds_iff ..).mpr ⟨q,qIn,there,rfl⟩)
  obtain ⟨j,jIn,stop,before⟩ := arrives_empty (home hash) vacantIn empty missing
  obtain ⟨e,sized⟩ := sound.pow
  have positive : 0 < slots.length := by rw [sized]; positivity
  refine ⟨_,Nat.mod_lt _ positive,stop,⟨j,jIn,rfl,before⟩,?_⟩
  simp only [putIntoRaw]
  rw [firstHit_of_first ((home hash key + j) % slots.length) jIn]
  · simp only [Nat.zero_add,sized,walkIndex_eq]
    rw [if_pos ((cell_eq_none ..).mp (by rw [← sized]; exact stop))]
  · intro i early
    obtain ⟨other,there,_⟩ := before i early
    obtain ⟨realOther,keyed⟩ := (cell_eq_some ..).mp there
    simp only [Nat.zero_add,sized,walkIndex_eq]
    rw [← sized,if_neg (by rw [keyed]; exact realOther)]

lemma foldl_reinsert (hash : K → UInt64) (sentinel : K) (rest slots : List (Slot K V))
    (sound : Sound hash sentinel slots) (distinct : rest.Pairwise (fun s t => s.key ≠ sentinel → s.key ≠ t.key))
    (fresh : ∀ s ∈ rest, s.key ≠ sentinel → ∀ found, ¬Holds sentinel slots s.key found)
    (room : occupied sentinel slots + rest.length ≤ slots.length) :
    let result := rest.foldl (reinsert hash sentinel) slots
    Sound hash sentinel result ∧ result.length = slots.length ∧
      occupied sentinel result = occupied sentinel slots + occupied sentinel rest ∧
      ∀ key value, Holds sentinel result key value ↔ Holds sentinel rest key value ∨ Holds sentinel slots key value := by
  induction rest generalizing slots with
  | nil => simp [sound,Holds,occupied]
  | cons s rest ih =>
    obtain ⟨apart,distinct⟩ := pairwise_cons.mp distinct
    simp only [foldl_cons]
    simp only [length_cons] at room
    by_cases vacant : s.key = sentinel
    · have skip : reinsert hash sentinel slots s = slots := if_pos vacant
      rw [skip]
      obtain ⟨sound',sized,counted,same⟩ := ih slots sound distinct (fun t member => fresh t (.tail _ member)) (by omega)
      refine ⟨sound',sized,by simpa [occupied,vacant] using counted,fun key value => ?_⟩
      rw [same]
      grind [Holds]
    · obtain ⟨p,inside,empty,arrives,placed⟩ :=
        putIntoRaw_spec sound s.value (fresh s (.head _) vacant) (by omega)
      have step : reinsert hash sentinel slots s = slots.set p ⟨s.key,s.value⟩ := by
        rw [reinsert,if_neg vacant,placed]
      rw [step]
      have added := occupied_set sentinel slots (s := ⟨s.key,s.value⟩) inside empty vacant
      obtain ⟨sound',sized,counted,same⟩ := ih _ (sound.fill s.value inside vacant empty arrives) distinct (by
          intro t member real found held
          rcases (holds_fill inside empty s.value vacant t.key found).mp held with ⟨match_,_⟩ | held
          · exact apart t member vacant match_.symm
          · exact fresh t (.tail _ member) real found held)
        (by rw [added,length_set]; omega)
      refine ⟨sound',by simpa using sized,?_,fun key value => ?_⟩
      · rw [counted,added]
        simp only [occupied,countP_cons,decide_not,vacant,decide_false,Bool.not_false,if_true]
        omega
      · rw [same,holds_fill inside empty s.value vacant]
        simp only [Holds,mem_cons]
        constructor
        · rintro (⟨real,member⟩ | ⟨rfl,rfl⟩ | held)
          · exact .inl ⟨real,.inr member⟩
          · exact .inl ⟨vacant,.inl rfl⟩
          · exact .inr held
        · rintro (⟨real,rfl | member⟩ | held)
          · exact .inr (.inl ⟨rfl,rfl⟩)
          · exact .inl ⟨real,member⟩
          · exact .inr (.inr held)

lemma Sound.pairwise (sound : Sound hash sentinel slots) : slots.Pairwise (fun s t => s.key ≠ sentinel → s.key ≠ t.key) := by
  rw [pairwise_iff_getElem]
  intro p q pIn qIn less real same
  have atP : cell sentinel slots p = some slots[p].key :=
    (cell_eq_some ..).mpr ⟨real,by simp [List.getElem?_eq_getElem pIn]⟩
  have atQ : cell sentinel slots q = some slots[p].key :=
    (cell_eq_some ..).mpr ⟨real,by simp [List.getElem?_eq_getElem qIn,same]⟩
  exact absurd (sound.probed.unique pIn qIn atP atQ) (by omega)

namespace Table

/-- Keys can be found, `count_` bounds the keys held, and three quarters of the
capacity bound `count_`. A put of the sentinel counts without holding. -/
structure Valid (t : Table K V) : Prop where
  sound : Sound t.hash t.sentinel t.slots
  counted : occupied t.sentinel t.slots ≤ t.count
  loaded : t.count ≤ t.threshold

variable {t : Table K V} {key : K}

lemma grow_valid (valid : t.Valid) (full : t.count ≥ t.threshold) : t.grow.Valid ∧ t.grow.count < t.grow.threshold ∧
      ∀ key value, Holds t.sentinel t.grow.slots key value ↔ Holds t.sentinel t.slots key value := by
  obtain ⟨e,sized⟩ := valid.sound.pow
  have double : t.cap * 2 = 2 ^ (e + 1) := by rw [cap,sized,Nat.pow_succ]
  have vacant : occupied t.sentinel (replicate (t.cap * 2) (emptySlot t.sentinel : Slot K V)) = 0 := by
    simp [occupied,emptySlot,countP_replicate]
  have nothing (key : K) (found : V) : ¬Holds t.sentinel (replicate (t.cap * 2) (emptySlot t.sentinel)) key found := by
    rintro ⟨real,member⟩
    have same := (mem_replicate.mp member).2
    exact real (congrArg Slot.key same)
  obtain ⟨sound,length,occupancy,same⟩ := foldl_reinsert t.hash t.sentinel t.slots
    (replicate (t.cap * 2) (emptySlot t.sentinel))
    (by rw [double]; exact sound_replicate ..) valid.sound.pairwise
    (fun s _ _ found => nothing s.key found)
    (by rw [vacant,length_replicate]; simp only [cap]; omega)
  have positive : 0 < t.cap := by rw [cap,sized]; positivity
  have grownCap : t.grow.cap = t.cap * 2 := by
    have := length
    rw [length_replicate] at this
    exact this
  have atMost := valid.loaded
  refine ⟨⟨sound,?_,?_⟩,?_,fun key value => ?_⟩
  · exact (occupancy.trans (by rw [vacant,Nat.zero_add])).le.trans valid.counted
  · show t.count ≤ t.grow.threshold
    simp only [threshold,grownCap] at atMost ⊢
    omega
  · show t.count < t.grow.threshold
    simp only [threshold,grownCap] at atMost ⊢
    omega
  · refine (same key value).trans ⟨?_,.inl⟩
    grind

lemma seek_present (sound : Sound t.hash t.sentinel t.slots) {p : Nat}
    (inside : p < t.cap) (atP : cell t.sentinel t.slots p = some key) : t.seek key = some (p,false) := by
  obtain ⟨e,sized⟩ := sound.pow
  obtain ⟨j,jIn,rfl,before⟩ := sound.probed p inside key atP
  refine firstHit_of_first _ jIn ?_ fun i early => ?_
  · obtain ⟨real,keyed⟩ := (cell_eq_some ..).mp atP
    simp only [Nat.zero_add,mask,cap,slot,sized,walkIndex_eq]
    rw [← sized,keyed,if_neg real,if_pos rfl]
  · obtain ⟨other,there,differs⟩ := before i early
    obtain ⟨real,keyed⟩ := (cell_eq_some ..).mp there
    simp only [Nat.zero_add,mask,cap,slot,sized,walkIndex_eq]
    rw [← sized,keyed,if_neg real,if_neg differs]

lemma seek_absent (sound : Sound t.hash t.sentinel t.slots) (absent : ∀ q < t.cap, cell t.sentinel t.slots q ≠ some key)
    (room : occupied t.sentinel t.slots < t.cap) :
    ∃ p < t.cap, t.seek key = some (p,true) ∧ cell t.sentinel t.slots p = none ∧
      Arrives t.slots.length (home t.hash) (cell t.sentinel t.slots) key p := by
  obtain ⟨e,sized⟩ := sound.pow
  obtain ⟨vacant,vacantIn,empty⟩ := exists_empty t.sentinel t.slots room
  obtain ⟨j,jIn,stop,before⟩ := arrives_empty (home t.hash) vacantIn empty absent
  have positive : 0 < t.slots.length := by omega
  refine ⟨_,Nat.mod_lt _ positive,?_,stop,⟨j,jIn,rfl,before⟩⟩
  refine firstHit_of_first _ jIn ?_ fun i early => ?_
  · simp only [Nat.zero_add,mask,cap,slot,sized,walkIndex_eq]
    rw [← sized,if_pos ((cell_eq_none ..).mp stop)]
  · obtain ⟨other,there,differs⟩ := before i early
    obtain ⟨real,keyed⟩ := (cell_eq_some ..).mp there
    simp only [Nat.zero_add,mask,cap,slot,sized,walkIndex_eq]
    rw [← sized,keyed,if_neg real,if_neg differs]

lemma Valid.room (valid : t.Valid) : occupied t.sentinel t.slots < t.cap := by
  obtain ⟨e,sized⟩ := valid.sound.pow
  have positive : 0 < t.cap := by rw [cap,sized]; positivity
  have := valid.counted
  have := valid.loaded
  simp only [threshold] at *
  omega

lemma find_eq_some (valid : t.Valid) (key : K) (value : V) : t.find key = some value ↔ Holds t.sentinel t.slots key value := by
  by_cases present : ∃ p < t.cap, cell t.sentinel t.slots p = some key
  · obtain ⟨p,inside,atP⟩ := present
    simp only [find,seek_present valid.sound inside atP,Option.some_inj]
    rw [holds_iff]
    constructor
    · rintro rfl
      exact ⟨p,inside,atP,rfl⟩
    · rintro ⟨q,qIn,atQ,rfl⟩
      rw [valid.sound.probed.unique qIn inside atQ atP]
      rfl
  · push Not at present
    obtain ⟨p,_,sought,_,_⟩ := seek_absent valid.sound present valid.room
    simp only [find,sought,reduceCtorEq,false_iff]
    rw [holds_iff]
    rintro ⟨q,qIn,atQ,_⟩
    exact present q qIn atQ

/-- What one `PutInternal` with room does: the key gets the value, unless it is
the sentinel, and the count grows unless the key was held. -/
def Stored (t result : Table K V) (key : K) (value : V) : Prop :=
  result.Valid ∧ result.hash = t.hash ∧ result.sentinel = t.sentinel ∧ (∀ other found, Holds t.sentinel result.slots other found ↔
      if other = key then key ≠ t.sentinel ∧ found = value
      else Holds t.sentinel t.slots other found) ∧
    result.count = t.count + (if (t.find key).isSome then 0 else 1)

lemma putInternal_present (valid : t.Valid) {p : Nat} (value : V)
    (inside : p < t.cap) (atP : cell t.sentinel t.slots p = some key) :
    Stored t (t.putInternal key value true).1 key value := by
  obtain ⟨real,keyed⟩ := (cell_eq_some ..).mp atP
  have there : (t.slot p).key = key := keyed
  have found : t.find key = some (t.slot p).value :=
    (find_eq_some valid ..).mpr ((holds_iff ..).mpr ⟨p,inside,atP,rfl⟩)
  have cells : cell t.sentinel (t.slots.set p ⟨key,value⟩) = cell t.sentinel t.slots := by
    rw [cell_set _ _ inside real,← atP,Function.update_eq_self]
  have result : (t.putInternal key value true).1 = {t with slots := t.slots.set p ⟨key,value⟩} := by
    simp [putInternal,seek_present valid.sound inside atP,there]
  rw [result]
  refine ⟨⟨⟨by simpa using valid.sound.pow,?_⟩,?_,?_⟩,rfl,rfl,fun other value' => ?_,?_⟩
  · show Probed (t.slots.set p ⟨key,value⟩).length _ (cell t.sentinel (t.slots.set p ⟨key,value⟩))
    rw [cells,length_set]
    exact valid.sound.probed
  · have same : occupied t.sentinel (t.slots.set p ⟨key,value⟩) = occupied t.sentinel t.slots := by
      have filled : t.slots[p].key ≠ t.sentinel := by
        simp only [List.getD,List.getElem?_eq_getElem inside,Option.getD_some] at keyed
        rwa [keyed]
      have positive : 0 < t.slots.countP (fun s => s.key ≠ t.sentinel) :=
        countP_pos_iff.mpr ⟨_,getElem_mem inside,by simpa using filled⟩
      simp only [occupied,countP_set inside,filled,real,ne_eq,not_false_eq_true,decide_true,if_true]
      exact Nat.sub_add_cancel positive
    exact same.le.trans valid.counted
  · simpa [threshold,cap] using valid.loaded
  · simp only [holds_set _ _ _ inside]
    by_cases same : other = key
    · subst same
      rw [if_pos rfl]
      refine and_congr_right fun _ => ⟨?_,fun same => .inl (by rw [same])⟩
      rintro (same | ⟨q,qIn,away,thereQ⟩)
      · cases same
        rfl
      · have atQ : cell t.sentinel t.slots q = some other :=
          (cell_eq_some ..).mpr ⟨real,by rw [thereQ]⟩
        exact absurd (valid.sound.probed.unique qIn inside atQ atP) away
    · rw [if_neg same,holds_iff]
      constructor
      · rintro ⟨realOther,clash | ⟨q,qIn,_,thereQ⟩⟩
        · exact absurd (congrArg Slot.key clash).symm same
        · grind [cell_eq_some]
      · rintro ⟨q,qIn,atQ,valued⟩
        obtain ⟨realOther,keyedQ⟩ := (cell_eq_some ..).mp atQ
        refine ⟨realOther,.inr ⟨q,qIn,?_,by rw [← keyedQ,← valued]⟩⟩
        grind
  · simp [found]

lemma putInternal_absent (valid : t.Valid) (loaded : t.count < t.threshold)
    (value : V) (absent : ∀ p < t.cap, cell t.sentinel t.slots p ≠ some key) :
    Stored t (t.putInternal key value true).1 key value := by
  obtain ⟨p,inside,sought,empty,arrives⟩ := seek_absent valid.sound absent valid.room
  have missing (found : V) : ¬Holds t.sentinel t.slots key found := by
    rw [holds_iff]
    rintro ⟨q,qIn,atQ,_⟩
    exact absent q qIn atQ
  have notFound : t.find key = none := by
    rw [Option.eq_none_iff_forall_ne_some]
    intro found held
    exact missing found ((find_eq_some valid ..).mp held)
  have result : (t.putInternal key value true).1 =
      {t with slots := t.slots.set p ⟨key,value⟩, count := t.count + 1} := by
    simp only [putInternal,sought]
  have counted := valid.counted
  rw [result]
  by_cases real : key = t.sentinel
  · -- The sentinel lands in an empty slot and leaves it empty.
    have vacant : (t.slots.getD p (emptySlot t.sentinel)).key = t.sentinel := (cell_eq_none ..).mp empty
    have cells : cell t.sentinel (t.slots.set p ⟨key,value⟩) = cell t.sentinel t.slots := by
      funext q
      by_cases same : q = p
      · subst same
        simp only [cell,getD_set _ _ _ _ _ inside,if_true,real,vacant]
      · simp only [cell,getD_set _ _ _ _ _ inside,if_neg same]
    have same : occupied t.sentinel (t.slots.set p ⟨key,value⟩) = occupied t.sentinel t.slots := by
      have free : t.slots[p].key = t.sentinel := by
        simpa [List.getElem?_eq_getElem inside] using vacant
      simp [occupied,countP_set inside,free,real]
    refine ⟨⟨⟨by simpa using valid.sound.pow,?_⟩,?_,?_⟩,rfl,rfl,fun other found => ?_,by simp [notFound]⟩
    · show Probed (t.slots.set p ⟨key,value⟩).length _ (cell t.sentinel (t.slots.set p ⟨key,value⟩))
      rw [cells,length_set]
      exact valid.sound.probed
    · grind
    · simpa [threshold,cap,Nat.succ_le_iff] using loaded
    · grind [holds_iff,length_set,cell_eq_some]
  · refine ⟨⟨valid.sound.fill value inside real empty arrives,?_,?_⟩,rfl,rfl,fun other found => ?_,by simp [notFound]⟩
    · show occupied t.sentinel (t.slots.set p ⟨key,value⟩) ≤ t.count + 1
      rw [occupied_set t.sentinel t.slots inside empty real]
      omega
    · simpa [threshold,cap,Nat.succ_le_iff] using loaded
    · rw [holds_fill inside empty value real]
      grind

lemma putInternal_stored (valid : t.Valid) (loaded : t.count < t.threshold)
    (key : K) (value : V) : Stored t (t.putInternal key value true).1 key value := by
  by_cases present : ∃ p < t.cap, cell t.sentinel t.slots p = some key
  · grind [putInternal_present]
  · push Not at present
    exact putInternal_absent valid loaded value present

lemma put_stored (valid : t.Valid) (key : K) (value : V) : Stored t (t.put key value).1 key value := by
  by_cases full : t.count ≥ t.threshold
  · obtain ⟨grown,loaded,same⟩ := grow_valid valid full
    have finds : t.grow.find key = t.find key := by
      ext found
      rw [find_eq_some grown,find_eq_some valid]
      exact same key found
    have result : t.put key value = t.grow.putInternal key value true := by
      simp only [put,if_pos full]
    obtain ⟨valid',hashed,marked,holds,counted⟩ := putInternal_stored grown loaded key value
    rw [result]
    refine ⟨valid',hashed,marked,fun other found => ?_,?_⟩
    · refine (holds other found).trans ?_
      by_cases isKey : other = key
      · rw [if_pos isKey,if_pos isKey]
        exact Iff.rfl
      · rw [if_neg isKey,if_neg isKey]
        exact same other found
    · rw [counted,finds]
      rfl
  · have result : t.put key value = t.putInternal key value true := by
      simp only [put,if_neg full]
    rw [result]
    exact putInternal_stored valid (by omega) key value

end Table

def Slot.forget (s : Slot K V) : Slot K Unit := ⟨s.key,()⟩

lemma getD_forget (sentinel : K) (slots : List (Slot K V)) (p : Nat) :
    ((slots.map Slot.forget).getD p (emptySlot sentinel)).key = (slots.getD p (emptySlot sentinel)).key := by
  have same : (emptySlot sentinel : Slot K Unit) = (emptySlot sentinel : Slot K V).forget := rfl
  rw [same,getD_map]
  rfl

lemma putIntoRaw_forget (hash : K → UInt64) (sentinel : K) (slots : List (Slot K V)) (key : K) (value : V) :
    (putIntoRaw hash sentinel slots key value).map Slot.forget = putIntoRaw hash sentinel (slots.map Slot.forget) key () := by
  simp only [putIntoRaw,length_map,getD_forget]
  split
  · exact map_set
  · rfl

namespace Table

def shape (t : Table K V) : Table K Unit := ⟨t.hash,t.sentinel,t.slots.map Slot.forget,t.count⟩

lemma grow_shape (t : Table K V) : t.grow.shape = t.shape.grow := by
  have walk : ∀ rest slots : List (Slot K V), (rest.foldl (reinsert t.hash t.sentinel) slots).map Slot.forget =
      (rest.map Slot.forget).foldl (reinsert t.hash t.sentinel) (slots.map Slot.forget) := by
    intro rest
    induction rest with
    | nil => exact fun _ => rfl
    | cons s rest ih =>
      intro slots
      have first : (reinsert t.hash t.sentinel slots s).map Slot.forget = reinsert t.hash t.sentinel (slots.map Slot.forget) s.forget := by
        simp only [reinsert,apply_ite (List.map Slot.forget),putIntoRaw_forget]
        rfl
      rw [foldl_cons,ih,first]
      rfl
  simp only [grow,shape,walk,cap,length_map,map_replicate]
  rfl

lemma put_shape (t : Table K V) (key : K) (value : V) : (t.put key value).1.shape = (t.shape.put key ()).1 := by
  have inner : ∀ t : Table K V, (t.putInternal key value true).1.shape = (t.shape.putInternal key () true).1 := by
    intro t
    have same : ∀ p, (t.shape.slot p).key = (t.slot p).key := getD_forget t.sentinel t.slots
    have sought : t.shape.seek key = t.seek key := by
      simp only [seek,same,mask,show t.shape.cap = t.cap from length_map _]
      rfl
    unfold putInternal
    rw [sought]
    split
    · simp [shape,Slot.forget,map_set]
    · simp only [if_true,same]
      simp [shape,Slot.forget,map_set]
    · rfl
  have loaded : (t.count ≥ t.threshold) = (t.shape.count ≥ t.shape.threshold) := by simp [shape,threshold,cap]
  unfold put
  rw [inner]
  grind [grow_shape]

lemma entries_shape (t : Table K V) : t.entries.map Prod.fst = t.shape.entries.map Prod.fst := by
  simp only [entries,shape,filter_map,map_map]
  rfl

lemma valid_empty (hash : K → UInt64) (sentinel : K) {n : Nat} (pow : n = 2 ^ e) :
    (⟨hash,sentinel,.replicate n (emptySlot sentinel),0⟩ : Table K V).Valid := by
  subst pow
  exact ⟨sound_replicate ..,by simp [occupied,emptySlot,countP_replicate],Nat.zero_le _⟩

end Table
/-- A table with its invariant, which is all a user of the class can build. -/
structure Map (K V : Type) [DecidableEq K] [Inhabited V] extends Table K V where
  valid : toTable.Valid

namespace Map

def create (hash : K → UInt64) (sentinel : K) (initial_cap : UInt64)
    (pow : ∃ e, (if initial_cap = 0 then 64 else roundUpPow2 initial_cap).toNat = 2 ^ e) : Map K V where
  toTable := FlatHashMemMap.create hash sentinel initial_cap
  valid := by
    obtain ⟨e,sized⟩ := pow
    exact Table.valid_empty hash sentinel sized

def put (m : Map K V) (key : K) (value : V) : Map K V where
  toTable := (m.toTable.put key value).1
  valid := (Table.put_stored m.valid key value).1

def find (m : Map K V) (key : K) : Option V := m.toTable.find key
def entries (m : Map K V) : List (K × V) := m.toTable.entries
def size (m : Map K V) : Nat := m.toTable.size

lemma find_iff (m : Map K V) (key : K) (value : V) : m.find key = some value ↔ Holds m.sentinel m.slots key value :=
  Table.find_eq_some m.valid key value

@[simp] lemma put_sentinel (m : Map K V) (key : K) (value : V) :
    (m.put key value).sentinel = m.sentinel := (Table.put_stored m.valid key value).2.2.1

lemma find_put (m : Map K V) (key other : K) (value : V) : (m.put key value).find other =
      if other = key ∧ key ≠ m.sentinel then some value else m.find other := by
  ext found
  have holds := (Table.put_stored m.valid key value).2.2.2.1 other found
  rw [find_iff,put_sentinel]
  refine holds.trans ?_
  by_cases same : other = key
  · subst same
    by_cases real : other = m.sentinel
    · simp [real,find_iff,Holds]
    · simp [real,eq_comm]
  · simp [same,find_iff]

@[simp] lemma find_sentinel (m : Map K V) : m.find m.sentinel = none := by
  rw [Option.eq_none_iff_forall_ne_some]
  intro value held
  exact ((find_iff ..).mp held).1 rfl

lemma size_put (m : Map K V) (key : K) (value : V) : (m.put key value).size = m.size + (if (m.find key).isSome then 0 else 1) :=
  (Table.put_stored m.valid key value).2.2.2.2

lemma mem_entries (m : Map K V) (key : K) (value : V) : (key,value) ∈ m.entries ↔ m.find key = some value := by
  rw [find_iff]
  simp only [entries,Table.entries,mem_map,mem_filter,Holds,Prod.mk.injEq,decide_eq_true_eq]
  constructor
  · rintro ⟨s,⟨member,real⟩,rfl,rfl⟩
    exact ⟨real,member⟩
  · grind

lemma find?_entries (m : Map K V) (key : K) : (m.entries.find? fun slot => slot.1 = key).map Prod.snd = m.find key := by
  cases found : m.entries.find? fun slot => slot.1 = key with
  | none =>
    cases held : m.find key with
    | none => rfl
    | some value =>
      have listed := (m.mem_entries key value).mpr held
      exact absurd (List.find?_eq_none.mp found _ listed) (by simp)
  | some slot =>
    have same : slot.1 = key := by simpa using List.find?_some found
    have held := (m.mem_entries slot.1 slot.2).mp (mem_of_find?_eq_some found)
    rw [← same,held,Option.map_some]

lemma entries_eq (m : Map K V) : m.entries = (m.entries.map Prod.fst).filterMap fun key => (m.find key).map (key,·) := by
  conv_lhs => rw [← filterMap_some (l := m.entries)]
  rw [filterMap_map]
  refine filterMap_congr fun slot member => ?_
  simp [(m.mem_entries slot.1 slot.2).mp member]

lemma entries_nodup (m : Map K V) : (m.entries.map Prod.fst).Nodup := by
  simp only [entries,Table.entries,map_map,List.Nodup,pairwise_map,Function.comp_apply]
  rw [pairwise_filter]
  refine m.valid.sound.pairwise.imp fun apart real _ => ?_
  exact apart (by simpa using real)

lemma entries_length_le (m : Map K V) : m.entries.length ≤ m.size := by
  simp only [entries,Table.entries,length_map,← countP_eq_length_filter]
  exact m.valid.counted

lemma find_empty (m : Map K V) (empty : ∃ n, m.slots = .replicate n (emptySlot m.sentinel)) (key : K) : m.find key = none := by
  rw [Option.eq_none_iff_forall_ne_some]
  intro value held
  obtain ⟨n,slots⟩ := empty
  obtain ⟨real,member⟩ := (find_iff ..).mp held
  rw [slots] at member
  exact real (congrArg Slot.key (mem_replicate.mp member).2)

@[simp] lemma find_create (hash : K → UInt64) (sentinel : K) (initial_cap : UInt64)
    (pow : ∃ e, (if initial_cap = 0 then 64 else roundUpPow2 initial_cap).toNat = 2 ^ e) (key : K) :
    (create hash sentinel initial_cap pow : Map K V).find key = none :=
  find_empty _ ⟨_,rfl⟩ key

end Map
end PomaiCache.FlatHashMemMap
