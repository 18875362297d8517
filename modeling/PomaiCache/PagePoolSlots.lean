import Mathlib
import PomaiCache.CarefulRuns
import PomaiCache.PagePoolRuns

/-!
The swap slots of the page pool. Each write takes a new slot, and the slot that the page had is
not used again.
-/
namespace PomaiCache.PagePool
open Function List

structure Swap where
  free : List Nat
  next : Nat
  swapped : UInt64 → Option Nat

namespace Swap

/-- The pages that have been written to the swap file. -/
def flushed (s : Swap) : Set UInt64 := {p | (s.swapped p).isSome}

/-- The slots ever assigned are not more than the pages ever flushed. -/
def Few (s : Swap) : Prop := s.next ≤ s.flushed.ncard

structure Slots (s : Swap) : Prop where
  free : s.free = []
  enough : s.flushed.ncard ≤ s.next

/-- A page is written into the next slot. -/
def put (s : Swap) (p : UInt64) : Swap := ⟨s.free,s.next + 1,update s.swapped p (some s.next)⟩

variable {s : Swap}

lemma flushed_put (s : Swap) (p : UInt64) : (s.put p).flushed = insert p s.flushed := by
  ext q
  by_cases same : q = p <;> simp [flushed,put,same]

lemma Slots.put (slots : s.Slots) (p : UInt64) : (s.put p).Slots := by
  have grown := Set.ncard_insert_le p s.flushed
  rw [← flushed_put] at grown
  exact ⟨slots.free,grown.trans (Nat.succ_le_succ slots.enough)⟩

lemma Slots.puts (slots : s.Slots) (ps : List UInt64) : (ps.foldl Swap.put s).Slots := by
  induction ps generalizing s with
  | nil => exact slots
  | cons p ps ih => exact ih (slots.put p)

lemma puts_free (s : Swap) (ps : List UInt64) : (ps.foldl put s).free = s.free := by
  induction ps generalizing s with
  | nil => rfl
  | cons p ps ih => exact ih (s.put p)

lemma Slots.few_put (slots : s.Slots) (p : UInt64) : (s.put p).Few ↔ s.Few ∧ s.swapped p = none := by
  have enough := slots.enough
  unfold Few
  rw [flushed_put]
  by_cases held : p ∈ s.flushed
  · have some_ : s.swapped p ≠ none := Option.isSome_iff_ne_none.mp held
    rw [Set.insert_eq_of_mem held]
    simp only [some_,and_false,iff_false,Swap.put]
    omega
  · have none_ : s.swapped p = none := Option.not_isSome_iff_eq_none.mp held
    rw [Set.ncard_insert_of_notMem held (Set.toFinite _)]
    simp [none_,Swap.put]

lemma Slots.few_puts (slots : s.Slots) (ps : List UInt64) :
    (ps.foldl Swap.put s).Few ↔ s.Few ∧ ps.Nodup ∧ ∀ p ∈ ps, s.swapped p = none := by
  induction ps generalizing s with
  | nil => simp
  | cons p ps ih =>
    rw [foldl_cons,ih (slots.put p),slots.few_put p]
    have later (q : UInt64) : (s.put p).swapped q = none ↔ q ≠ p ∧ s.swapped q = none := by
      by_cases same : q = p <;> simp [Swap.put,same]
    simp only [later,nodup_cons,mem_cons,forall_eq_or_imp]
    grind

end Swap

variable {σ : Type} {pageSize frames : Nat} {io : SwapCalls σ} {pool : PagePool σ pageSize frames}

def swap (pool : PagePool σ pageSize frames) : Swap := ⟨pool.freeSwapSlots,pool.nextSwapSlot,pool.swapped⟩

/-- The page that the clock comes to: not pinned, and not fetched since the hand was last there. -/
def victim : Nat → Fin frames → (Fin frames → PageMeta) → Option PageMeta
  | 0,_,_ => none
  | passes + 1,hand,pages =>
    if !(pages hand).inUse || (pages hand).pinCount != 0 then victim passes (nextHand hand) pages
    else if (pages hand).refBit then victim passes (nextHand hand) (update pages hand {pages hand with refBit := false})
    else some (pages hand)

def toWrite (m : PageMeta) : List UInt64 := if m.inUse && m.dirty then [m.pageId] else []

/-- The pages that a call writes back to an open swap file: dirty ones that are flushed, and a dirty victim where
a page is fetched and every frame is in use. -/
def written (pool : PagePool σ pageSize frames) (call : Call pageSize frames) : List UInt64 :=
  if pool.swapFd.isNone then []
  else match call with
    | .fetch p _ =>
      if (pool.pageIndex p).isSome ∨ ∃ f, (pool.pages f).inUse = false then []
      else (victim (2 * frames) pool.clockHand pool.pages).toList.flatMap toWrite
    | .flush p => (pool.pageIndex p).toList.flatMap fun f => toWrite (pool.pages f)
    | .flushAll => (finRange frames).flatMap fun f => toWrite (pool.pages f)
    | _ => []

section
variable (writes : ∀ file bytes off, (io.pwrite file bytes off).1 = bytes.length) (free : pool.freeSwapSlots = [])
include writes free

lemma flush_swap (f : Fin frames) : (pool.flushFrameLocked io f).1 = (pool.swapFd.isSome || (toWrite (pool.pages f)).isEmpty) ∧
    (pool.flushFrameLocked io f).2.swapFd.isSome = pool.swapFd.isSome ∧
    (pool.flushFrameLocked io f).2.swap = (if pool.swapFd.isNone then [] else toWrite (pool.pages f)).foldl Swap.put pool.swap ∧
    ∀ g, g ≠ f → (pool.flushFrameLocked io f).2.pages g = pool.pages g := by
  unfold flushFrameLocked writePageToSwap takeSlot toWrite
  rw [free]
  cases inUse : (pool.pages f).inUse <;> cases dirty : (pool.pages f).dirty <;> cases fd : pool.swapFd <;>
    simp +contextual [inUse,dirty,fd,writes,(pool.arena f).2,swap,Swap.put,free,update_of_ne]

lemma flushAll_swap : (pool.flushAllLocked io).2.swap = (pool.written (.flushAll : Call pageSize frames)).foldl Swap.put pool.swap := by
  have each (todo : List (Fin frames)) (distinct : todo.Nodup) (ok : Bool) (mid : PagePool σ pageSize frames)
      (free : mid.freeSwapSlots = []) (fd : mid.swapFd.isSome = pool.swapFd.isSome)
      (same : ∀ f ∈ todo, mid.pages f = pool.pages f) :
      (todo.foldl (fun (st : Bool × PagePool σ pageSize frames) frame =>
        (st.1 && (flushFrameLocked io st.2 frame).1,(flushFrameLocked io st.2 frame).2)) (ok,mid)).2.swap =
        (if pool.swapFd.isNone then [] else todo.flatMap fun f => toWrite (pool.pages f)).foldl Swap.put mid.swap := by
    induction todo generalizing ok mid with
    | nil => simp
    | cons f rest ih =>
      obtain ⟨fresh,distinct⟩ := nodup_cons.mp distinct
      obtain ⟨_,open_,wrote,others⟩ := flush_swap writes free f
      have still : ((mid.flushFrameLocked io f).2.swap).free = [] := by
        rw [wrote]
        exact (Swap.puts_free _ _).trans free
      rw [foldl_cons,ih distinct _ _ still (open_.trans fd) fun g member => (others g (by rintro rfl; exact fresh member)).trans
        (same g (.tail _ member)),wrote,same f (.head _)]
      have closed : mid.swapFd.isNone = pool.swapFd.isNone := by
        rw [← Option.not_isSome,← Option.not_isSome,fd]
      rw [closed]
      split
      · rfl
      · rw [flatMap_cons,foldl_append]
  exact each _ (nodup_finRange _) _ _ free rfl fun _ _ => rfl

end

lemma load_swap (pool : PagePool σ pageSize frames) (f : Fin frames) (p : UInt64) : (pool.load io f p).2.swap = pool.swap := by
  unfold load readPageFromSwap
  dsimp only
  cases swapBytes io _ p <;> rfl

lemma evict_swap (writes : ∀ file bytes off, (io.pwrite file bytes off).1 = bytes.length) (p : UInt64) (passes : Nat)
    (free : pool.freeSwapSlots = []) : (evict io p passes pool).2.swap = (if pool.swapFd.isNone then []
      else (victim passes pool.clockHand pool.pages).toList.flatMap toWrite).foldl Swap.put pool.swap := by
  induction passes generalizing pool with
  | zero => simp [evict,victim]
  | succ passes ih =>
    rw [evict,victim]
    dsimp only
    split
    · exact @ih {pool with clockHand := nextHand pool.clockHand} free
    split
    · exact @ih {pool with clockHand := nextHand pool.clockHand, pages := _} free
    obtain ⟨done,open_,wrote,_⟩ := @flush_swap _ _ _ io {pool with clockHand := nextHand pool.clockHand} writes free pool.clockHand
    cases dirty : (pool.pages pool.clockHand).dirty with
    | false =>
      simp only [Bool.false_eq_true,if_false,load_swap,Option.toList_some,flatMap_singleton,toWrite,dirty,Bool.and_false]
      split <;> rfl
    | true =>
      rw [if_pos rfl]
      generalize flushFrameLocked io {pool with clockHand := nextHand pool.clockHand} pool.clockHand = out at done open_ wrote
      obtain ⟨ok,after⟩ := out
      cases fd : pool.swapFd with
      | none =>
        simp only [fd,Option.isNone_none,if_true,foldl_nil] at wrote open_
        have still : after.freeSwapSlots = [] := (congrArg Swap.free wrote).trans free
        have closed : after.swapFd.isNone = true := by simpa using open_
        cases ok with
        | false =>
          dsimp only
          rw [ih still,closed]
          exact wrote
        | true =>
          simp only [load_swap]
          exact wrote
      | some file =>
        simp only [fd,Option.isSome_some,Bool.true_or] at done
        subst done
        simp only [load_swap,Option.isNone_some,Bool.false_eq_true,if_false,Option.toList_some,flatMap_singleton]
        simp only [fd,Option.isNone_some,Bool.false_eq_true,if_false] at wrote
        exact wrote

lemma step_swap (writes : ∀ file bytes off, (io.pwrite file bytes off).1 = bytes.length) (use : Use σ pageSize frames)
    (free : use.pool.freeSwapSlots = []) (c : Call pageSize frames) :
    (use.step io c).pool.swap = (use.pool.written c).foldl Swap.put use.pool.swap := by
  have idle (same : use.pool.written c = []) (kept : (use.step io c).pool.swap = use.pool.swap) :
      (use.step io c).pool.swap = (use.pool.written c).foldl Swap.put use.pool.swap := by
    rw [kept,same,foldl_nil]
  cases c with
  | fetch p for_write =>
    have fetched : (use.step io (.fetch p for_write)).pool.swap = (use.pool.fetchPage io p for_write).2.swap := by
      rw [Use.step]
      rcases use.pool.fetchPage io p for_write with ⟨_ | _,after⟩ <;> rfl
    rw [fetched,fetchPage]
    cases resident : use.pool.pageIndex p with
    | some f => simp [written,resident,swap]
    | none =>
      have allocated : (use.pool.allocateFrameForPage io p).2.swap = (use.pool.written (.fetch p for_write)).foldl Swap.put use.pool.swap := by
        rw [allocateFrameForPage]
        cases vacant : (finRange frames).find? (fun i => !(use.pool.pages i).inUse) with
        | some f =>
          have unused : ∃ f, (use.pool.pages f).inUse = false := ⟨f,by simpa using List.find?_some vacant⟩
          simp [load_swap,written,unused]
        | none =>
          have full : ¬∃ f, (use.pool.pages f).inUse = false := by
            rintro ⟨f,unused⟩
            simpa [unused] using List.find?_eq_none.mp vacant f (mem_finRange f)
          rw [evict_swap writes p _ free]
          simp [written,resident,full]
      rw [← allocated]
      rcases use.pool.allocateFrameForPage io p with ⟨_ | _,after⟩ <;> rfl
  | unpin p mark_dirty =>
    refine idle (by simp [written]) ?_
    simp only [Use.step,unpinPage]
    split <;> rfl
  | change p f bytes => exact idle (by simp [written]) rfl
  | flush p =>
    simp only [Use.step,flushPage,written]
    cases resident : use.pool.pageIndex p with
    | none => simp
    | some f =>
      obtain ⟨_,_,wrote,_⟩ := flush_swap writes free f
      simpa using wrote
  | flushAll => exact flushAll_swap writes free

/-- With complete writes, the slots are not more than the flushed pages all along a run exactly if each call writes
back only pages that have no slot, and none of them twice. -/
theorem run_few_iff (io : SwapCalls σ) (writes : ∀ file bytes off, (io.pwrite file bytes off).1 = bytes.length) (opts : PagePoolOptions)
    (raw : Fin opts.frames → PageBytes opts.filled.pageSize) (file : Option σ)
    (pool : PagePool σ opts.filled.pageSize opts.frames) (made : create opts raw file = some pool)
    (calls : List (Call opts.filled.pageSize opts.frames)) :
    (∀ n, (Use.run io ⟨pool,Client.fresh _ _⟩ (calls.take n)).pool.swap.Few) ↔
      CarefulRuns.Careful (Use.step io) (fun use c => (use.pool.written c).Nodup ∧ ∀ p ∈ use.pool.written c, use.pool.swapped p = none)
        ⟨pool,Client.fresh _ _⟩ calls := by
  have start : pool.swap = ⟨[],0,fun _ => none⟩ := by
    simp only [create] at made
    split at made
    · cases made
    split at made
    · cases made
    cases made
    rfl
  have keeps (use : Use σ opts.filled.pageSize opts.frames) (c : Call _ _) (slots : use.pool.swap.Slots) :
      (use.step io c).pool.swap.Slots := by
    rw [step_swap writes use slots.free c]
    exact slots.puts _
  apply CarefulRuns.good_iff (fun use => use.pool.swap.Few) keeps
  · intro use c slots few
    rw [step_swap writes use slots.free c,slots.few_puts,and_iff_right few]
    rfl
  · exact start ▸ ⟨rfl,by simp [Swap.flushed]⟩
  · show pool.swap.Few
    rw [start]
    exact Nat.zero_le _

/-- Page 7 is written when it is evicted for 9, and 9 when it is flushed. -/
def swappedOut : List (Call onePage.filled.pageSize onePage.frames) := [.fetch 7 true,.unpin 7 true,.fetch 9 true,.flush 9]

theorem run_few_swapped : create onePage (fun _ => zeroPage _) (some []) = some onePagePool ∧
    (onePageUse.run plainCalls swappedOut).pool.nextSwapSlot = 2 ∧
    ∀ n, (Use.run plainCalls ⟨onePagePool,Client.fresh _ _⟩ (swappedOut.take n)).pool.swap.Few := by
  refine ⟨rfl,rfl,(run_few_iff plainCalls plainCalls_reliable.writes onePage _ _ _ create_onePage swappedOut).mpr ?_⟩
  have one {written : List UInt64} {swapped : UInt64 → Option Nat} {p : UInt64} (only : written = [p]) (none_ : swapped p = none) :
      written.Nodup ∧ ∀ q ∈ written, swapped q = none := by
    simp [only,none_]
  exact ⟨⟨.nil,nofun⟩,⟨.nil,nofun⟩,one (p := 7) rfl rfl,one (p := 9) rfl rfl,trivial⟩

def flushedTwice : Swap := (onePageUse.run plainCalls [.fetch 7 true,.flush 7,.unpin 7 true,.flush 7]).pool.swap

/-- One page is flushed twice, into two slots. -/
theorem flush_twice : flushedTwice.next = 2 ∧ flushedTwice.flushed.ncard ≤ 1 := by
  have pages : flushedTwice.swapped = Function.update (Function.update (fun _ => none) 7 (some 0)) 7 (some 1) := rfl
  refine ⟨rfl,(Set.ncard_le_ncard fun p there => ?_).trans (Set.ncard_singleton (7 : UInt64)).le⟩
  by_contra ne
  simp [Swap.flushed,pages,show p ≠ 7 from ne] at there

end PomaiCache.PagePool
