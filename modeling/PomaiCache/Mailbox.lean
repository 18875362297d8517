import Mathlib
import PomaiCache.FlatHashMemMap
import PomaiCache.RingBuffer

/-!
The mailbox of a runtime, used by one thread: a ring whose slots carry sequence numbers. With a
single slot, the number that marks it as filled is the one a push waits for.
-/
namespace PomaiCache
open UInt64
open FlatHashMemMap (roundUpPow2)

structure Slot (T : Type) where
  sequence : UInt64
  data : Option T

structure BoundedMpscQueue (T : Type) where
  mask : UInt64
  head : UInt64
  tail : UInt64
  buffer : Nat → Slot T
  closed : Bool

inductive MailboxCall (T : Type)
  | push (v : T)
  | pop

inductive MailboxAnswer (T : Type)
  | pushed (done : Bool)
  | popped (v : Option T)
  deriving DecidableEq

namespace BoundedMpscQueue
variable {T : Type}

def created (capacity : UInt64) : BoundedMpscQueue T where
  mask := roundUpPow2 capacity - 1
  head := 0
  tail := 0
  buffer := fun i => ⟨UInt64.ofNat i,none⟩
  closed := false

/-- `TryPush` with no other thread, so that the exchange succeeds. A positive difference has no
result: the loop reads the same head again. -/
def tryPush (q : BoundedMpscQueue T) (v : T) : Option (Bool × BoundedMpscQueue T) :=
  let i := (q.head &&& q.mask).toNat
  let diff := (q.buffer i).sequence - q.head
  if diff = 0 then
    if q.closed then
      some (false,{q with head := q.head + 1, buffer := Function.update q.buffer i ⟨q.head,(q.buffer i).data⟩})
    else some (true,{q with head := q.head + 1, buffer := Function.update q.buffer i ⟨q.head + 1,some v⟩})
  else if 0x8000000000000000 ≤ diff then some (false,q)
  else none

def tryPop (q : BoundedMpscQueue T) : Option T × BoundedMpscQueue T :=
  let i := (q.tail &&& q.mask).toNat
  if (q.buffer i).sequence - (q.tail + 1) ≠ 0 then (none,q)
  else ((q.buffer i).data,{q with tail := q.tail + 1, buffer := Function.update q.buffer i ⟨q.tail + q.mask + 1,none⟩})

def run (q : BoundedMpscQueue T) : List (MailboxCall T) → Option (List (MailboxAnswer T))
  | [] => some []
  | .push v :: rest => (q.tryPush v).bind fun (done,q) => (q.run rest).map (.pushed done :: ·)
  | .pop :: rest => (q.tryPop.2.run rest).map (.popped q.tryPop.1 :: ·)

/-- A queue of bounded length. -/
def fifo (capacity : Nat) (stored : List T) : List (MailboxCall T) → List (MailboxAnswer T)
  | [] => []
  | .push v :: rest =>
    if stored.length = capacity then .pushed false :: fifo capacity stored rest
    else .pushed true :: fifo capacity (stored ++ [v]) rest
  | .pop :: rest => .popped stored.head? :: fifo capacity stored.tail rest

/-- The bits of `x` are those of `m`, each spread over the `w` places from it downwards. -/
def Spread (m w : Nat) (x : UInt64) : Prop := ∀ j, x.toNat.testBit j = true ↔ ∃ i < w, m.testBit (i + j) = true

lemma Spread.double {m w : Nat} {x : UInt64} (spread : Spread m w x) (shift : UInt64) (small : shift.toNat % 64 = w) :
    Spread m (w + w) (x ||| x >>> shift) := by
  intro j
  rw [UInt64.toNat_or,UInt64.toNat_shiftRight,small,Nat.testBit_or,Nat.testBit_shiftRight,Bool.or_eq_true,spread j,spread (w + j)]
  constructor
  · rintro (⟨i,less,set_⟩ | ⟨i,less,set_⟩)
    · exact ⟨i,by omega,set_⟩
    · exact ⟨w + i,by omega,by rwa [show w + i + j = i + (w + j) by omega]⟩
  · rintro ⟨i,less,set_⟩
    by_cases low : i < w
    · exact .inl ⟨i,low,set_⟩
    · exact .inr ⟨i - w,by omega,by rwa [show i - w + (w + j) = i + j by omega]⟩

lemma Spread.toNat_eq {m : Nat} {x : UInt64} (spread : Spread m 64 x) (some_ : m ≠ 0) (short : m.log2 < 64) :
    x.toNat = 2 ^ (m.log2 + 1) - 1 := by
  refine Nat.eq_of_testBit_eq fun j => ?_
  rw [Bool.eq_iff_iff,spread j,Nat.testBit_two_pow_sub_one,decide_eq_true_eq]
  constructor
  · rintro ⟨i,_,set_⟩
    by_contra high
    have above : m < 2 ^ (i + j) := Nat.lt_of_lt_of_le Nat.lt_log2_self (Nat.pow_le_pow_right (by omega) (by omega))
    rw [Nat.testBit_lt_two_pow above] at set_
    cases set_
  · intro low
    exact ⟨m.log2 - j,by omega,by rw [show m.log2 - j + j = m.log2 by omega]; exact Nat.testBit_log2 some_⟩

lemma log2_lt {m b : Nat} (some_ : m ≠ 0) (short : m < 2 ^ b) : m.log2 < b :=
  (Nat.pow_lt_pow_iff_right (by omega)).mp (Nat.lt_of_le_of_lt (Nat.log2_self_le some_) short)

lemma roundUpPow2_toNat {n : UInt64} (large : 2 ≤ n.toNat) : (roundUpPow2 n).toNat = 2 ^ ((n.toNat - 1).log2 + 1) % 2 ^ 64 := by
  have some_ : n ≠ 0 := by
    rintro rfl
    exact absurd large (by decide)
  have less : (n - 1).toNat = n.toNat - 1 := UInt64.toNat_sub_of_le _ _ (UInt64.le_iff_toNat_le.mpr (by show 1 ≤ n.toNat; omega))
  have start : Spread (n - 1).toNat 1 (n - 1) := fun j => by simp
  have spread := (((((start.double 1 rfl).double 2 rfl).double 4 rfl).double 8 rfl).double 16 rfl).double 32 rfl
  have smeared := spread.toNat_eq (by omega) (log2_lt (by omega) (n - 1).toNat_lt)
  rw [roundUpPow2,if_neg some_,UInt64.toNat_add,smeared,less]
  have positive : 0 < 2 ^ ((n.toNat - 1).log2 + 1) := Nat.two_pow_pos _
  exact congrArg (· % 2 ^ 64) (Nat.sub_add_cancel positive)

lemma roundUpPow2_eq {n : UInt64} {b : Nat} (small : b < 64) (fits : n.toNat ≤ 2 ^ b) :
    ∃ k ≤ b, (roundUpPow2 n).toNat = 2 ^ k ∧ (2 ≤ n.toNat ↔ 1 ≤ k) := by
  by_cases large : 2 ≤ n.toNat
  · have short : (n.toNat - 1).log2 < b := log2_lt (by omega) (by omega)
    refine ⟨_,short,?_,by omega⟩
    rw [roundUpPow2_toNat large]
    exact Nat.mod_eq_of_lt (Nat.pow_lt_pow_right (by omega) (by omega))
  · have cases_ : n = 0 ∨ n = 1 := by
      rcases Nat.lt_succ_iff_lt_or_eq.mp (not_le.mp large) with zero | one
      · exact .inl (UInt64.toNat_inj.mp (Nat.lt_one_iff.mp zero))
      · exact .inr (UInt64.toNat_inj.mp one)
    refine ⟨0,by omega,?_,by omega⟩
    rcases cases_ with rfl | rfl <;> rfl

/-- The ring behind `t` pops. -/
structure Stores (size : Nat) (q : BoundedMpscQueue T) (stored : List T) (t : Nat) : Prop where
  index : ∀ p, (UInt64.ofNat p &&& q.mask).toNat = p % size
  mask : q.mask + 1 = UInt64.ofNat size
  open_ : q.closed = false
  head : q.head = UInt64.ofNat (t + stored.length)
  tail : q.tail = UInt64.ofNat t
  few : stored.length ≤ size
  filled : ∀ i v, stored[i]? = some v → q.buffer ((t + i) % size) = ⟨UInt64.ofNat (t + i + 1),some v⟩
  free : ∀ i, stored.length ≤ i → i < size → (q.buffer ((t + i) % size)).sequence = UInt64.ofNat (t + i)

variable {size t : Nat} {q : BoundedMpscQueue T} {stored : List T}

lemma sub_behind (a d : UInt64) (some_ : d ≠ 0) (small : d.toNat ≤ 2 ^ 57) : a - (a + d) ≠ 0 ∧ 0x8000000000000000 ≤ a - (a + d) := by
  have positive : d.toNat ≠ 0 := fun none_ => some_ (UInt64.toNat_inj.mp none_)
  have bound := a.toNat_lt
  have value : (a - (a + d)).toNat = 2 ^ 64 - d.toNat := by
    rw [UInt64.toNat_sub,UInt64.toNat_add]
    omega
  constructor
  · intro zero
    rw [zero] at value
    have : (0 : UInt64).toNat = 0 := rfl
    omega
  · rw [le_iff_toNat_le,value]
    have : (0x8000000000000000 : UInt64).toNat = 2 ^ 63 := rfl
    omega

lemma update_apart (buffer : Nat → Slot T) (slot : Slot T) {i j : Nat} (ne : i ≠ j) (first : i < size) (second : j < size) :
    Function.update buffer ((t + i) % size) slot ((t + j) % size) = buffer ((t + j) % size) := by
  apply Function.update_of_ne
  rcases Nat.lt_or_gt_of_ne ne with less | less
  · exact (RingBuffer.slot_ne less second).symm
  · exact RingBuffer.slot_ne less first

lemma Stores.push (stores : Stores size q stored t) (two : 2 ≤ size) (small : size ≤ 2 ^ 57) (v : T) :
    ∃ next, q.tryPush v = some (decide (stored.length ≠ size),next) ∧
      Stores size next (if stored.length = size then stored else stored ++ [v]) t := by
  have few := stores.few
  have at_ : (q.head &&& q.mask).toNat = (t + stored.length) % size := by rw [stores.head,stores.index]
  by_cases full : stored.length = size
  · obtain ⟨first,rest,rfl⟩ := List.exists_cons_of_length_pos (show 0 < stored.length by omega)
    have slot := stores.filled 0 first rfl
    have wraps : (t + (first :: rest).length) % size = (t + 0) % size := by rw [full,Nat.add_mod_right,Nat.add_zero]
    have ahead : q.head = UInt64.ofNat (t + 0 + 1) + UInt64.ofNat (size - 1) := by
      rw [stores.head,← ofNat_add,full]
      congr 1
      omega
    have width : (UInt64.ofNat (size - 1)).toNat = size - 1 := toNat_ofNat_of_lt' (show _ < 2 ^ 64 by omega)
    obtain ⟨differs,negative⟩ := sub_behind (UInt64.ofNat (t + 0 + 1)) (UInt64.ofNat (size - 1))
      (by intro zero; rw [zero] at width; have : (0 : UInt64).toNat = 0 := rfl; omega) (by omega)
    rw [← ahead] at differs negative
    refine ⟨q,?_,by rwa [if_pos full]⟩
    simp only [tryPush,at_,wraps,slot,differs,negative,if_false,if_true]
    simp [full]
  · have slot := stores.free _ (Nat.le_refl _) (by omega)
    refine ⟨{q with
      head := q.head + 1
      buffer := Function.update q.buffer ((t + stored.length) % size) ⟨q.head + 1,some v⟩},?_,?_⟩
    · rw [← stores.head] at slot
      simp only [tryPush,at_,slot,stores.open_,UInt64.sub_self,if_true]
      simp [full]
    rw [if_neg full]
    refine ⟨stores.index,stores.mask,stores.open_,?_,stores.tail,by simp; omega,fun i w held => ?_,fun i behind inside => ?_⟩
    · simp [stores.head,UInt64.ofNat_add,UInt64.add_assoc]
    · rcases Nat.lt_trichotomy i stored.length with earlier | rfl | later
      · rw [List.getElem?_append_left earlier] at held
        exact (update_apart _ _ (by omega) (by omega) (by omega)).trans (stores.filled i w held)
      · simp at held
        simp [held,stores.head,ofNat_add]
      · rw [List.getElem?_eq_none (by simp; omega)] at held
        cases held
    · rw [List.length_append,List.length_singleton] at behind
      exact (congrArg Slot.sequence (update_apart _ _ (by omega) (by omega) inside)).trans (stores.free i (by omega) inside)

lemma Stores.pop (stores : Stores size q stored t) (two : 2 ≤ size) :
    q.tryPop.1 = stored.head? ∧ ∃ later, Stores size q.tryPop.2 stored.tail later := by
  have at_ : (q.tail &&& q.mask).toNat = (t + 0) % size := by rw [stores.tail,stores.index,Nat.add_zero]
  have next : q.tail + 1 = UInt64.ofNat (t + 0 + 1) := by simp [stores.tail,ofNat_add]
  cases stored with
  | nil =>
    have slot := stores.free 0 (Nat.le_refl _) (by omega)
    have differs : UInt64.ofNat (t + 0) - UInt64.ofNat (t + 0 + 1) ≠ 0 := by
      rw [ofNat_add (t + 0) 1]
      exact (sub_behind _ _ (by decide) (by decide)).1
    have none_ : q.tryPop = (none,q) := by
      unfold tryPop
      dsimp only
      rw [at_,slot,next,if_pos differs]
    rw [none_]
    exact ⟨rfl,t,stores⟩
  | cons v rest =>
    have slot := stores.filled 0 v rfl
    have popped : q.tryPop = (some v,{q with
        tail := q.tail + 1
        buffer := Function.update q.buffer ((t + 0) % size) ⟨q.tail + q.mask + 1,none⟩}) := by
      unfold tryPop
      dsimp only
      rw [at_,slot,next,if_neg (by simp)]
    rw [popped]
    have few := stores.few
    rw [List.length_cons] at few
    refine ⟨rfl,t + 1,stores.index,stores.mask,stores.open_,?_,next,by simp; omega,fun i w held => ?_,fun i behind inside => ?_⟩
    · rw [stores.head]
      simp [Nat.add_assoc,Nat.add_comm 1]
    · have inside : i < rest.length := (List.getElem?_eq_some_iff.mp held).1
      rw [show t + 1 + i = t + (i + 1) by omega]
      exact (update_apart _ _ (by omega) (by omega) (by omega)).trans (stores.filled (i + 1) w held)
    · rw [show t + 1 + i = t + (i + 1) by omega]
      by_cases last : i + 1 = size
      · rw [last,Nat.add_mod_right]
        simp [UInt64.ofNat_add,← stores.mask,← stores.tail,UInt64.add_assoc]
      · exact (congrArg Slot.sequence (update_apart _ _ (by omega) (by omega) (by omega))).trans
          (stores.free (i + 1) (by simpa using behind) (by omega))

lemma Stores.run (stores : Stores size q stored t) (two : 2 ≤ size) (small : size ≤ 2 ^ 57) (calls : List (MailboxCall T)) :
    q.run calls = some (fifo size stored calls) := by
  induction calls generalizing q stored t with
  | nil => rfl
  | cons c rest ih =>
    cases c with
    | push v =>
      obtain ⟨next,pushed,after⟩ := stores.push two small v
      rw [BoundedMpscQueue.run,pushed,Option.bind_some,fifo]
      by_cases full : stored.length = size
      · rw [if_pos full] at after
        simp [ih after,full]
      · rw [if_neg full] at after
        simp [ih after,full]
    | pop =>
      obtain ⟨first,later,after⟩ := stores.pop two
      rw [BoundedMpscQueue.run,ih after,first,fifo]
      rfl

lemma Stores.created {capacity : UInt64} {k : Nat} (small : k ≤ 57) (power : (roundUpPow2 capacity).toNat = 2 ^ k) :
    Stores (2 ^ k) (created capacity : BoundedMpscQueue T) [] 0 := by
  have bound : 2 ^ k ≤ 2 ^ 57 := Nat.pow_le_pow_right (by omega) small
  have positive := Nat.two_pow_pos k
  have mask : (roundUpPow2 capacity - 1).toNat = 2 ^ k - 1 := by
    rw [UInt64.toNat_sub_of_le _ _ (UInt64.le_iff_toNat_le.mpr (by show 1 ≤ _; omega)),power]
    rfl
  refine ⟨fun p => ?_,?_,rfl,rfl,rfl,Nat.zero_le _,fun i v held => by simp at held,fun i _ inside => ?_⟩
  · rw [UInt64.toNat_and,show (BoundedMpscQueue.created capacity : BoundedMpscQueue T).mask.toNat = _ from mask,
      Nat.and_two_pow_sub_one_eq_mod,toNat_ofNat']
    exact Nat.mod_mod_of_dvd _ (Nat.pow_dvd_pow 2 (by omega))
  · show roundUpPow2 capacity - 1 + 1 = _
    rw [UInt64.sub_add_cancel,← power,UInt64.ofNat_toNat]
  · rw [Nat.zero_add,Nat.mod_eq_of_lt inside]
    rfl

/-- The mailbox is a queue of the rounded capacity exactly if it has more than one slot. A slot
takes a cache line, so that a mailbox of more than `2 ^ 57` slots has no memory. -/
theorem run_fifo_iff [Inhabited T] (capacity : UInt64) (fits : capacity.toNat ≤ 2 ^ 57) :
    (∀ calls : List (MailboxCall T), (created capacity).run calls = some (fifo (roundUpPow2 capacity).toNat [] calls)) ↔
      2 ≤ capacity := by
  obtain ⟨k,small,power,more⟩ := roundUpPow2_eq (by omega) fits
  rw [le_iff_toNat_le,show (2 : UInt64).toNat = 2 from rfl,more,power]
  constructor
  · intro queue
    by_contra one
    obtain rfl : k = 0 := by omega
    have single : roundUpPow2 capacity = 1 := UInt64.toNat_inj.mp power
    have both := queue [.push default,.push default]
    simp [BoundedMpscQueue.run,tryPush,BoundedMpscQueue.created,single,fifo] at both
  · intro two
    have size : 2 ≤ 2 ^ k := Nat.le_self_pow (by omega) 2
    exact (Stores.created small power).run size (Nat.pow_le_pow_right (by omega) small)

theorem run_fifo_three : (3 : UInt64).toNat ≤ 2 ^ 57 ∧ ∀ calls : List (MailboxCall Nat), (created 3).run calls =
    some (fifo (roundUpPow2 3).toNat [] calls) :=
  ⟨by decide,(run_fifo_iff 3 (by decide)).mpr (by decide)⟩

/-- With one slot a second push is taken, and then nothing is ever popped. -/
theorem run_single_slot : (created 1 : BoundedMpscQueue Nat).run [.push 5,.push 6,.pop] =
    some [.pushed true,.pushed true,.popped none] ∧ fifo 1 [] [.push 5,.push 6,.pop] = [.pushed true,.pushed false,.popped (some 5)] := by
  decide

end BoundedMpscQueue
end PomaiCache
