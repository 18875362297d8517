import PomaiCache.Basic
import PomaiCache.Dict

/-!
Bloom filters. A key sets the bits at the positions that two hashes of it give, and it is asked
for at the same positions.
-/
namespace PomaiCache
open Codec

structure BloomFilter where
  bits : Bytes
  num_bits : UInt64
  num_hashes : UInt64
  num_elements : UInt64
  deriving DecidableEq, Repr

namespace BloomFilter

variable (f : BloomFilter)

def setBit (pos : UInt64) : Option BloomFilter :=
  if (pos / 8).toNat < f.bits.length then
    some {f with bits := f.bits.modify (pos / 8).toNat fun byte => byte ||| 1 <<< (pos % 8).toUInt8}
  else none

def getBit (pos : UInt64) : Option Bool :=
  f.bits[(pos / 8).toNat]?.map fun byte => byte >>> (pos % 8).toUInt8 &&& 1 = 1

/-- FNV-1a, and the same with another seed and a rotation. -/
def hashPair (key : Bytes) : UInt64 × UInt64 :=
  let h1 := key.foldl (fun h c => (h ^^^ c.toUInt64) * 1099511628211) 14695981039346656037
  let h2 := key.foldl (fun h c => (h ^^^ c.toUInt64) * 16777619) 2166136261
  (h1,h2 <<< 33 ||| h2 >>> 31)

def positions (key : Bytes) : List UInt64 :=
  let h := hashPair key
  (List.range f.num_hashes.toNat).map fun i => (h.1 + UInt64.ofNat i * h.2) % f.num_bits

def hasAll (f : BloomFilter) : List UInt64 → Option Bool
  | [] => some true
  | pos :: rest => (f.getBit pos).bind fun set_ => if set_ then hasAll f rest else some false

end BloomFilter

/-- What the constructor computes with doubles from the capacity and the rate. The largest
double below `2 ^ 64` is `2 ^ 64 - 2048`. -/
structure BloomConfig where
  bits : UInt64
  hashes : UInt64
  double : bits.toNat ≤ 2 ^ 64 - 2048

structure BloomEngine where
  bits_per_filter : UInt64
  num_hashes : UInt64
  filters : Dict UInt64 BloomFilter

inductive BloomCall
  | add (filter_id : UInt64) (key : Bytes)
  | drop (filter_id : UInt64)

namespace BloomEngine
open BloomFilter

def created (c : BloomConfig) : BloomEngine :=
  ⟨if c.bits < 64 then 64 else c.bits,if c.hashes < 1 then 1 else if 16 < c.hashes then 16 else c.hashes,∅⟩

variable (e : BloomEngine)

def makeFilter : BloomFilter :=
  ⟨List.replicate ((e.bits_per_filter + 7) / 8).toNat 0,e.bits_per_filter,e.num_hashes,0⟩

def add (filter_id : UInt64) (key : Bytes) : Option BloomEngine :=
  let f := (e.filters.lookup filter_id).getD e.makeFilter
  ((f.positions key).foldlM setBit f).map fun f =>
    {e with filters := e.filters.insert filter_id {f with num_elements := f.num_elements + 1}}

def mightContain (filter_id : UInt64) (key : Bytes) : Option Bool :=
  match e.filters.lookup filter_id with
  | none => some false
  | some f => f.hasAll (f.positions key)

def drop (filter_id : UInt64) : BloomEngine × Status :=
  if (e.filters.lookup filter_id).isNone then (e,.notFound "bloom filter not found")
  else ({e with filters := e.filters.erase filter_id},.Ok)

def call : BloomCall → Option BloomEngine
  | .add filter_id key => e.add filter_id key
  | .drop filter_id => some (e.drop filter_id).1

def run (calls : List BloomCall) : Option BloomEngine := calls.foldlM call e

def keysAfter (filter_id : UInt64) (keys : List Bytes) : BloomCall → List Bytes
  | .add id key => if id = filter_id then key :: keys else keys
  | .drop id => if id = filter_id then [] else keys

end BloomEngine

namespace BloomFilter
variable {f g : BloomFilter}

/-- The same filter but for the bits that are set. -/
structure Extends (f g : BloomFilter) : Prop where
  length : g.bits.length = f.bits.length
  num_bits : g.num_bits = f.num_bits
  num_hashes : g.num_hashes = f.num_hashes
  keeps : ∀ pos, f.getBit pos = some true → g.getBit pos = some true

lemma positions_eq (num_bits : g.num_bits = f.num_bits) (num_hashes : g.num_hashes = f.num_hashes) (key : Bytes) :
    g.positions key = f.positions key := by
  simp [positions,num_bits,num_hashes]

lemma shift_eq_one_iff (byte k : UInt8) : byte >>> k &&& 1 = 1 ↔ byte.toNat.testBit (k.toNat % 8) = true := by
  rw [← UInt8.toNat_inj,UInt8.toNat_and,UInt8.toNat_shiftRight,Nat.testBit,Nat.and_comm]
  have one : (1 : UInt8).toNat = 1 := rfl
  rw [one,Nat.one_and_eq_mod_two]
  rcases Nat.mod_two_eq_zero_or_one (byte.toNat >>> (k.toNat % 8)) with even | odd
  · simp [even]
  · simp [odd]

lemma shift_keeps {byte k : UInt8} (mask : UInt8) (set_ : byte >>> k &&& 1 = 1) : (byte ||| mask) >>> k &&& 1 = 1 := by
  rw [shift_eq_one_iff] at set_ ⊢
  simp [set_]

lemma shift_set (byte k : UInt8) : (byte ||| 1 <<< k) >>> k &&& 1 = 1 := by
  rw [shift_eq_one_iff,UInt8.toNat_or,UInt8.toNat_shiftLeft,Nat.testBit_or,Nat.testBit_mod_two_pow]
  simp [Nat.mod_lt k.toNat (show 0 < 8 by decide)]

lemma setBit_extends {pos : UInt64} (inside : (pos / 8).toNat < f.bits.length) :
    ∃ g, f.setBit pos = some g ∧ Extends f g ∧ g.getBit pos = some true := by
  refine ⟨_,if_pos inside,⟨by simp,rfl,rfl,?_⟩,?_⟩
  · intro other found
    obtain ⟨byte,at_,set_⟩ := Option.map_eq_some_iff.mp found
    have set_ := of_decide_eq_true set_
    simp only [getBit,List.getElem?_modify,at_]
    split
    · simp [shift_keeps _ set_]
    · simp [set_]
  · simp only [getBit,List.getElem?_modify,List.getElem?_eq_getElem inside]
    simp [shift_set]

lemma Extends.trans {h : BloomFilter} (first : Extends f g) (second : Extends g h) : Extends f h :=
  ⟨second.length.trans first.length,second.num_bits.trans first.num_bits,second.num_hashes.trans first.num_hashes,
    fun pos set_ => second.keeps pos (first.keeps pos set_)⟩

lemma foldlM_setBit {ps : List UInt64} (inside : ∀ pos ∈ ps, (pos / 8).toNat < f.bits.length) :
    ∃ g, ps.foldlM setBit f = some g ∧ Extends f g ∧ ∀ pos ∈ ps, g.getBit pos = some true := by
  induction ps generalizing f with
  | nil => exact ⟨f,rfl,⟨rfl,rfl,rfl,fun _ set_ => set_⟩,by simp⟩
  | cons pos rest ih =>
    obtain ⟨g,done,more,here⟩ := setBit_extends (inside pos (.head _))
    obtain ⟨h,others,further,there⟩ := ih (f := g) fun other member => by
      rw [more.length]
      exact inside other (.tail _ member)
    refine ⟨h,by simp [done,others],more.trans further,?_⟩
    rintro other (_ | ⟨_,member⟩)
    · exact further.keeps pos here
    · exact there other member

lemma hasAll_some {ps : List UInt64} (inside : ∀ pos ∈ ps, (pos / 8).toNat < f.bits.length) :
    (f.hasAll ps).isSome ∧ ((∀ pos ∈ ps, f.getBit pos = some true) → f.hasAll ps = some true) := by
  induction ps with
  | nil => simp [hasAll]
  | cons pos rest ih =>
    obtain ⟨some_,all⟩ := ih fun other member => inside other (.tail _ member)
    obtain ⟨set_,here⟩ : ∃ set_, f.getBit pos = some set_ := by
      rw [getBit,List.getElem?_eq_getElem (inside pos (.head _))]
      exact ⟨_,rfl⟩
    cases set_ <;> simp_all [hasAll]

end BloomFilter

namespace BloomEngine
open BloomFilter

structure Sized (bits hashes : UInt64) (f : BloomFilter) : Prop where
  length : f.bits.length = ((bits + 7) / 8).toNat
  num_bits : f.num_bits = bits
  num_hashes : f.num_hashes = hashes

structure Holds (e : BloomEngine) (keys : UInt64 → List Bytes) : Prop where
  low : 64 ≤ e.bits_per_filter.toNat
  high : e.bits_per_filter.toNat ≤ 2 ^ 64 - 2048
  sized : ∀ id f, e.filters.lookup id = some f → Sized e.bits_per_filter e.num_hashes f
  held : ∀ id key, key ∈ keys id → ∃ f, e.filters.lookup id = some f ∧ ∀ pos ∈ f.positions key, f.getBit pos = some true

namespace Holds
variable {e : BloomEngine} {keys : UInt64 → List Bytes}

lemma created (c : BloomConfig) : Holds (created c) fun _ => [] := by
  have double := c.double
  constructor
  · simp only [BloomEngine.created]
    split
    · decide
    · next enough => exact UInt64.le_iff_toNat_le.mp (UInt64.not_lt.mp enough)
  · simp only [BloomEngine.created]
    split
    · decide
    · exact double
  · simp [BloomEngine.created]
  · simp

lemma inside (holds : Holds e keys) {f : BloomFilter} (sized : Sized e.bits_per_filter e.num_hashes f) (key : Bytes) :
    ∀ pos ∈ f.positions key, (pos / 8).toNat < f.bits.length := by
  intro pos member
  obtain ⟨i,-,rfl⟩ := List.mem_map.mp member
  have low := holds.low
  have high := holds.high
  rw [sized.length,sized.num_bits]
  have below := Nat.mod_lt (((hashPair key).1 + UInt64.ofNat i * (hashPair key).2).toNat) (show e.bits_per_filter.toNat > 0 by omega)
  generalize (hashPair key).1 + UInt64.ofNat i * (hashPair key).2 = h at below ⊢
  simp only [UInt64.toNat_div,UInt64.toNat_mod,UInt64.toNat_add,UInt64.reduceToNat]
  omega

lemma write (holds : Holds e keys) {filter_id : UInt64} {value : Option BloomFilter} {after : UInt64 → List Bytes}
    (sized : ∀ f, value = some f → Sized e.bits_per_filter e.num_hashes f)
    (held : ∀ key ∈ after filter_id, ∃ f, value = some f ∧ ∀ pos ∈ f.positions key, f.getBit pos = some true)
    (others : ∀ id, filter_id ≠ id → after id = keys id) :
    Holds {e with filters := e.filters.write (filter_id,value)} after := by
  refine ⟨holds.low,holds.high,fun id f found => ?_,fun id key member => ?_⟩
  · rw [Dict.lookup_write] at found
    split at found
    · exact sized f found
    · exact holds.sized id f found
  · rw [Dict.lookup_write]
    by_cases same : filter_id = id
    · rw [if_pos same]
      exact held key (same ▸ member)
    · rw [if_neg same]
      exact holds.held id key (others id same ▸ member)

lemma add (holds : Holds e keys) (filter_id : UInt64) (key : Bytes) :
    ∃ after, e.add filter_id key = some after ∧ Holds after fun id => keysAfter id (keys id) (.add filter_id key) := by
  have sized : Sized e.bits_per_filter e.num_hashes ((e.filters.lookup filter_id).getD e.makeFilter) := by
    cases found : e.filters.lookup filter_id with
    | none => exact ⟨by simp [makeFilter],rfl,rfl⟩
    | some f => exact holds.sized filter_id f found
  obtain ⟨g,done,more,set_⟩ := foldlM_setBit (holds.inside sized key)
  have next : e.add filter_id key =
      some {e with filters := e.filters.write (filter_id,some {g with num_elements := g.num_elements + 1})} := by
    rw [BloomEngine.add,done]
    rfl
  refine ⟨_,next,holds.write ?_ ?_ ?_⟩
  · rintro f ⟨⟩
    exact ⟨more.length.trans sized.length,more.num_bits.trans sized.num_bits,more.num_hashes.trans sized.num_hashes⟩
  · intro other member
    rw [keysAfter,if_pos rfl] at member
    refine ⟨_,rfl,?_⟩
    rcases List.mem_cons.mp member with rfl | before
    · exact fun pos at_ => set_ pos (positions_eq more.num_bits more.num_hashes other ▸ at_)
    · obtain ⟨f,found,all⟩ := holds.held filter_id other before
      rw [found] at more
      exact fun pos at_ => more.keeps pos (all pos (positions_eq more.num_bits more.num_hashes other ▸ at_))
  · intro id other
    rw [keysAfter,if_neg other]

lemma drop (holds : Holds e keys) (filter_id : UInt64) :
    Holds (e.drop filter_id).1 fun id => keysAfter id (keys id) (.drop filter_id) := by
  have gone : (e.drop filter_id).1 = {e with filters := e.filters.write (filter_id,none)} := by
    unfold BloomEngine.drop
    split
    · next absent => rw [Dict.write,Dict.erase_absent (Option.isNone_iff_eq_none.mp absent)]
    · rfl
  rw [gone]
  exact holds.write (by simp) (by simp [keysAfter]) fun id other => by rw [keysAfter,if_neg other]

lemma run (holds : Holds e keys) (calls : List BloomCall) :
    ∃ after, e.run calls = some after ∧ Holds after fun id => calls.foldl (keysAfter id) (keys id) := by
  induction calls generalizing e keys with
  | nil => exact ⟨e,rfl,holds⟩
  | cons c rest ih =>
    have next : ∃ after, e.call c = some after ∧ Holds after fun id => keysAfter id (keys id) c := by
      cases c with
      | add filter_id key => exact holds.add filter_id key
      | drop filter_id => exact ⟨_,rfl,holds.drop filter_id⟩
    obtain ⟨middle,done,there⟩ := next
    obtain ⟨after,others,end_⟩ := ih there
    exact ⟨after,by simpa [BloomEngine.run,done] using others,end_⟩

end Holds

/-- Every call and every question stays inside the bit arrays, and a key that was added to a
filter since it was last dropped is found. -/
theorem no_false_negatives (c : BloomConfig) (calls : List BloomCall) :
    ∃ e, (created c).run calls = some e ∧ ∀ filter_id key, (e.mightContain filter_id key).isSome ∧
      (key ∈ calls.foldl (keysAfter filter_id) [] → e.mightContain filter_id key = some true) := by
  obtain ⟨e,done,holds⟩ := (Holds.created c).run calls
  refine ⟨e,done,fun filter_id key => ?_⟩
  unfold mightContain
  cases found : e.filters.lookup filter_id with
  | none =>
    refine ⟨rfl,fun member => ?_⟩
    obtain ⟨f,there,_⟩ := holds.held filter_id key member
    simp [found] at there
  | some f =>
    obtain ⟨some_,all⟩ := hasAll_some (holds.inside (holds.sized filter_id f found) key)
    refine ⟨some_,fun member => all ?_⟩
    obtain ⟨g,there,set_⟩ := holds.held filter_id key member
    cases found.symm.trans there
    exact set_

end BloomEngine
end PomaiCache
