import Mathlib
import PomaiCache.FlatHashMemMap
import PomaiCache.Mailbox

/-!
Whole runs of the memtable's map, from its constructor on: the table against the finite map that
the calls describe.
-/
namespace PomaiCache.FlatHashMemMap
open List BoundedMpscQueue
variable {K V : Type} [DecidableEq K] [Inhabited V]

def Table.clear (t : Table K V) : Table K V := {t with slots := .replicate t.cap (emptySlot t.sentinel), count := 0}

namespace Map

def clear (m : Map K V) : Map K V where
  toTable := m.toTable.clear
  valid := by
    obtain ⟨e,sized⟩ := m.valid.sound.pow
    exact Table.valid_empty _ _ sized

@[simp] lemma find_clear (m : Map K V) (key : K) : m.clear.find key = none := find_empty _ ⟨_,rfl⟩ key

/-- The slot that a `Put` of the key ends at. -/
lemma seek_isSome (m : Map K V) (key : K) : ((if m.count ≥ m.threshold then m.toTable.grow else m.toTable).seek key).isSome := by
  have finds : ∀ {t : Table K V}, t.Valid → (t.seek key).isSome := by
    intro t valid
    by_cases present : ∃ p < t.cap, cell t.sentinel t.slots p = some key
    · obtain ⟨p,inside,atP⟩ := present
      simp [Table.seek_present valid.sound inside atP]
    · push Not at present
      obtain ⟨p,_,sought,_⟩ := Table.seek_absent valid.sound present valid.room
      simp [sought]
  split
  · exact finds (Table.grow_valid m.valid ‹_›).1
  · exact finds m.valid

end Map

inductive Call (V : Type)
  | put (key : UInt64) (value : V)
  | clear

def step (t : Table UInt64 V) : Call V → Table UInt64 V
  | .put key value => (t.put key value).1
  | .clear => t.clear

/-- The constructor, whose capacity is rounded in 64 bits. -/
def construct (hash : UInt64 → UInt64) (initial_cap : UInt64) : Table UInt64 V := create hash (~~~0) initial_cap

/-- What a call does to a finite map. -/
def Call.apply (held : UInt64 → Option V) : Call V → UInt64 → Option V
  | .put key value => Function.update held key (some value)
  | .clear => fun _ => none

def Call.Real : Call V → Prop
  | .put key _ => key ≠ ~~~0
  | .clear => True

structure Refines (t : Table UInt64 V) (held : UInt64 → Option V) : Prop where
  find : ∀ key, t.find key = held key
  size : t.size = {key | (held key).isSome}.ncard
  visits : ∀ key value, (key,value) ∈ t.entries ↔ held key = some value
  once : (t.entries.map Prod.fst).Nodup
  slot : ∀ key, ((if t.count ≥ t.threshold then t.grow else t).seek key).isSome

/-- The invariant of a run: the size is that of the map the calls describe. -/
def Tracks (m : Map UInt64 V) (held : UInt64 → Option V) : Prop :=
  m.sentinel = ~~~0 ∧ (∀ key, m.find key = held key) ∧ m.size = {key | (held key).isSome}.ncard

lemma Tracks.refines {m : Map UInt64 V} (tracks : Tracks m held) : Refines m.toTable held :=
  ⟨tracks.2.1,tracks.2.2,fun key value => by rw [← tracks.2.1]; exact m.mem_entries key value,m.entries_nodup,m.seek_isSome⟩

lemma Tracks.step {m : Map UInt64 V} (tracks : Tracks m held) (c : Call V) (real : c.Real) :
    ∃ after : Map UInt64 V, after.toTable = FlatHashMemMap.step m.toTable c ∧ Tracks after (c.apply held) := by
  obtain ⟨marked,finds,sized⟩ := tracks
  cases c with
  | clear => exact ⟨m.clear,rfl,marked,m.find_clear,by simp [Call.apply,Map.size,Map.clear,Table.size,Table.clear]⟩
  | put key value =>
    refine ⟨m.put key value,rfl,(m.put_sentinel ..).trans marked,fun other => ?_,?_⟩
    · rw [m.find_put,marked,finds]
      by_cases same : other = key
      · subst same
        rw [if_pos ⟨rfl,real⟩]
        simp [Call.apply]
      · rw [if_neg fun both => same both.1]
        simp [Call.apply,same]
    · have keys : {other | ((Call.put key value).apply held other).isSome} = insert key {other | (held other).isSome} := by
        ext other
        by_cases same : other = key <;> simp [Call.apply,same]
      rw [m.size_put,keys,sized,finds]
      by_cases there : key ∈ {other | (held other).isSome}
      · rw [if_pos (show (held key).isSome from there),Set.insert_eq_of_mem there]
        rfl
      · rw [if_neg (show ¬(held key).isSome from there),Set.ncard_insert_of_notMem there (Set.toFinite _)]

lemma Tracks.run {calls : List (Call V)} (real : ∀ c ∈ calls, c.Real) : ∀ {m : Map UInt64 V} {held}, Tracks m held →
    Refines (calls.foldl FlatHashMemMap.step m.toTable) (calls.foldl Call.apply held) := by
  induction calls with
  | nil => exact fun tracks => tracks.refines
  | cons c rest ih =>
    intro m held tracks
    obtain ⟨after,result,tracks⟩ := tracks.step c (real c mem_cons_self)
    rw [foldl_cons,foldl_cons,← result]
    exact ih (fun other member => real other (mem_cons_of_mem _ member)) tracks

/-- The table is the finite map of its calls exactly if the capacity can be rounded up in 64
bits: above `2 ^ 63` the constructor makes a table without a slot. -/
theorem run_refines_iff (hash : UInt64 → UInt64) (initial_cap : UInt64) : (∀ calls : List (Call V), (∀ c ∈ calls, c.Real) →
      Refines (calls.foldl step (construct hash initial_cap)) (calls.foldl Call.apply fun _ => none)) ↔
        initial_cap.toNat ≤ 2 ^ 63 := by
  constructor
  · intro refines
    by_contra above
    have log : (initial_cap.toNat - 1).log2 = 63 :=
      (Nat.log2_eq_iff (by omega)).mpr ⟨by omega,by have := initial_cap.toNat_lt; omega⟩
    have none_ : (roundUpPow2 initial_cap).toNat = 0 := by rw [roundUpPow2_toNat (by omega),log]; rfl
    have positive : initial_cap ≠ 0 := by
      rintro rfl
      exact above (by decide)
    have slot := (refines [] (by simp)).slot 0
    simp [construct,create,positive,none_,Table.threshold,Table.cap,Table.grow,Table.seek,Probing.firstHit] at slot
  · intro fits calls real
    obtain ⟨e,sized⟩ : ∃ e, (if initial_cap = 0 then 64 else roundUpPow2 initial_cap).toNat = 2 ^ e := by
      split
      · exact ⟨6,rfl⟩
      · obtain ⟨k,_,power,_⟩ := roundUpPow2_eq (by omega) fits
        exact ⟨k,power⟩
    let m : Map UInt64 V := ⟨construct hash initial_cap,Table.valid_empty hash _ sized⟩
    exact Tracks.run real (m := m) ⟨rfl,m.find_empty ⟨_,rfl⟩,by simp [m,Map.size,Table.size,construct,create]⟩

/-- The empty table of a capacity above `2 ^ 63` loses what is put. -/
theorem construct_above : ((construct id 0x8000000000000001 : Table UInt64 Nat).put 1 5).1.find 1 = none := by
  decide +kernel

end PomaiCache.FlatHashMemMap
