import PomaiCache.PagePool

/-!
The clock of the page pool. A frame that can be given away is met in the first round at the
latest and taken in the second one.
-/
namespace PomaiCache
namespace PagePool
variable {σ : Type} {pageSize frames : Nat} {io : SwapCalls σ} {pool : PagePool σ pageSize frames}

def turns (hand target : Fin frames) : Nat :=
  if hand.val ≤ target.val then target.val - hand.val else target.val + frames - hand.val

lemma turns_next (hand target : Fin frames) : if hand = target then turns (nextHand hand) target + 1 = frames
    else turns (nextHand hand) target + 1 = turns hand target := by
  have inside := hand.isLt
  have there := target.isLt
  have next : (nextHand hand).val = if hand.val + 1 = frames then 0 else hand.val + 1 := by
    unfold nextHand
    split
    · next last => simp [last]
    · exact Nat.mod_eq_of_lt (by omega)
  unfold turns
  rw [next]
  split
  · next same =>
    subst same
    split <;> split <;> omega
  · next other =>
    have ne : hand.val ≠ target.val := fun same => other (Fin.ext same)
    split <;> split <;> split <;> omega

variable (writes : ∀ file bytes off, (io.pwrite file bytes off).1 = bytes.length)
  (reads : ∀ file off, (io.pread file pageSize off).length = pageSize)

include reads in
lemma load_some {page_id : UInt64} (found : pool.swapFd.isSome ∨ pool.swapped page_id = none) (f : Fin frames) :
    ∃ is_new, (load io pool f page_id).1 = some (f,is_new) := by
  have read : ∃ bytes, swapBytes io {pool with
      pages := Function.update pool.pages f {pageId := page_id, pinCount := 0, dirty := false, refBit := true, inUse := true}}
      page_id = some bytes := by
    cases slot : pool.swapped page_id with
    | none => simp [swapBytes,slot]
    | some place =>
      obtain ⟨file,open_⟩ := Option.isSome_iff_exists.mp (found.resolve_right (by simp [slot]))
      simp [swapBytes,slot,open_,reads]
  obtain ⟨bytes,read⟩ := read
  simp [load,readPageFromSwap,read]

include writes in
lemma flush_some (pool : PagePool σ pageSize frames) (open_ : pool.swapFd.isSome) (f : Fin frames) :
    (pool.flushFrameLocked io f).1 = true ∧ (pool.flushFrameLocked io f).2.swapFd.isSome := by
  obtain ⟨file,open_⟩ := Option.isSome_iff_exists.mp open_
  have same : (takeSlot pool).2.swapFd = pool.swapFd ∧ (takeSlot pool).2.arena = pool.arena := by
    unfold takeSlot
    split <;> exact ⟨rfl,rfl⟩
  unfold flushFrameLocked
  dsimp only
  split
  · simp [open_]
  · simp [writePageToSwap,open_,writes,same,(pool.arena f).2]

/-- A dirty page stays where it is if there is no swap file. -/
lemma flush_closed {pool : PagePool σ pageSize frames} {f : Fin frames} (closed : pool.swapFd = none)
    (used : (pool.pages f).inUse = true) (dirty : (pool.pages f).dirty = true) : pool.flushFrameLocked io f = (false,pool) := by
  simp [flushFrameLocked,writePageToSwap,used,dirty,closed]

include writes reads in
lemma evict_some (passes : Nat) {page_id : UInt64} (found : pool.swapFd.isSome ∨ pool.swapped page_id = none) {target : Fin frames}
    (used : (pool.pages target).inUse = true) (loose : (pool.pages target).pinCount = 0)
    (able : pool.swapFd.isSome ∨ (pool.pages target).dirty = false)
    (enough : turns pool.clockHand target + (if (pool.pages target).refBit then frames else 0) < passes) :
    ∃ f is_new, (evict io page_id passes pool).1 = some (f,is_new) ∧ (pool.pages f).pinCount = 0 := by
  induction passes generalizing pool with
  | zero => omega
  | succ passes ih =>
    have next := turns_next pool.clockHand target
    unfold evict
    dsimp only
    by_cases busy : (!(pool.pages pool.clockHand).inUse || (pool.pages pool.clockHand).pinCount != 0) = true
    · rw [if_pos busy]
      have other : pool.clockHand ≠ target := by
        intro same
        simp [same,used,loose] at busy
      rw [if_neg other] at next
      exact ih found used loose able (by dsimp only; omega)
    rw [if_neg busy]
    obtain ⟨held,free⟩ : (pool.pages pool.clockHand).inUse = true ∧ (pool.pages pool.clockHand).pinCount = 0 := by simpa using busy
    by_cases recent : (pool.pages pool.clockHand).refBit = true
    · rw [if_pos recent]
      have pins (f : Fin frames) : (Function.update pool.pages pool.clockHand
          {pool.pages pool.clockHand with refBit := false} f).pinCount = (pool.pages f).pinCount := by
        by_cases same : f = pool.clockHand
        · simp [same]
        · simp [Function.update_of_ne same]
      have entry (P : PageMeta → Prop) (kept : P (pool.pages target)) (cleared : P {pool.pages target with refBit := false}) :
          P (Function.update pool.pages pool.clockHand {pool.pages pool.clockHand with refBit := false} target) := by
        by_cases same : target = pool.clockHand
        · simpa [same] using same ▸ cleared
        · simpa [Function.update_of_ne same] using kept
      obtain ⟨f,is_new,taken,unpinned⟩ := @ih {pool with
          clockHand := nextHand pool.clockHand
          pages := Function.update pool.pages pool.clockHand {pool.pages pool.clockHand with refBit := false}}
        found (entry (·.inUse = true) used used) ((pins target).trans loose)
        (able.imp_right fun clean => entry (·.dirty = false) clean clean) (by
          dsimp only
          by_cases here : pool.clockHand = target
          · rw [if_pos here] at next
            subst here
            simp [recent] at enough ⊢
            omega
          · rw [if_neg here] at next
            simp only [Function.update_of_ne (Ne.symm here)]
            omega)
      exact ⟨f,is_new,taken,(pins f).symm.trans unpinned⟩
    · rw [if_neg recent]
      have taken {after : PagePool σ pageSize frames} (found : after.swapFd.isSome ∨ after.swapped page_id = none) :
          ∃ f is_new, (load io after pool.clockHand page_id).1 = some (f,is_new) ∧ (pool.pages f).pinCount = 0 := by
        obtain ⟨is_new,loaded⟩ := load_some reads found pool.clockHand
        exact ⟨_,is_new,loaded,free⟩
      by_cases dirty : (pool.pages pool.clockHand).dirty = true
      · rw [if_pos dirty]
        by_cases open_ : pool.swapFd.isSome
        · obtain ⟨done,still⟩ := flush_some writes {pool with clockHand := nextHand pool.clockHand} open_ pool.clockHand
          split
          · next failed => simp [failed] at done
          · next flushed => exact taken (.inl (by rw [flushed] at still; exact still))
        · -- the hand goes on over a page that cannot be written back
          have other : pool.clockHand ≠ target := by
            rintro rfl
            simp [dirty,open_] at able
          rw [if_neg other] at next
          rw [@flush_closed _ _ _ io {pool with clockHand := nextHand pool.clockHand} _ (by simpa using open_) held dirty]
          exact ih found used loose able (by dsimp only; omega)
      · rw [if_neg dirty]
        exact taken found

/-- With a frame that is free or not pinned, and swap calls that succeed, a frame is found, and it
was free or not pinned. Without a swap file it has to be free or clean. -/
theorem allocate_some (io : SwapCalls σ) (pool : PagePool σ pageSize frames) (page_id : UInt64)
    (writes : ∀ file bytes off, (io.pwrite file bytes off).1 = bytes.length)
    (reads : ∀ file off, (io.pread file pageSize off).length = pageSize)
    (found : pool.swapFd.isSome ∨ pool.swapped page_id = none)
    (some_ : ∃ i, (pool.pages i).inUse = false ∨ (pool.pages i).pinCount = 0 ∧ (pool.swapFd.isSome ∨ (pool.pages i).dirty = false)) :
    ∃ f is_new, (pool.allocateFrameForPage io page_id).1 = some (f,is_new) ∧
      ((pool.pages f).inUse = false ∨ (pool.pages f).pinCount = 0) := by
  unfold allocateFrameForPage
  split
  · next f free =>
    obtain ⟨is_new,loaded⟩ := load_some reads found f
    exact ⟨f,is_new,loaded,.inl (by simpa using List.find?_some free)⟩
  · next full =>
    have used (i : Fin frames) : (pool.pages i).inUse = true := by simpa using List.find?_eq_none.mp full i (List.mem_finRange i)
    obtain ⟨target,loose⟩ := some_
    obtain ⟨loose,able⟩ := loose.resolve_left (by simp [used])
    have enough : turns pool.clockHand target + (if (pool.pages target).refBit then frames else 0) < 2 * frames := by
      have here := pool.clockHand.isLt
      have there := target.isLt
      unfold turns
      split <;> split <;> omega
    obtain ⟨f,is_new,taken,unpinned⟩ := evict_some writes reads _ found (used target) loose able enough
    exact ⟨f,is_new,taken,.inr unpinned⟩

def nullCalls : SwapCalls Unit := ⟨fun _ bytes _ => (bytes.length,()),fun _ n _ => List.replicate n 0⟩

def halfPinned : PagePool Unit 1 2 where
  arena := fun _ => zeroPage 1
  swapFd := some ()
  pages := fun f => ⟨f.val.toUInt64,if f = 0 then 1 else 0,true,true,true⟩
  pageIndex := fun _ => none
  swapped := fun _ => none
  freeSwapSlots := []
  nextSwapSlot := 0
  dirtyPages := 2
  clockHand := 0

theorem allocate_some_halfPinned : ∃ f is_new, (halfPinned.allocateFrameForPage nullCalls 9).1 = some (f,is_new) ∧
    ((halfPinned.pages f).inUse = false ∨ (halfPinned.pages f).pinCount = 0) :=
  allocate_some nullCalls halfPinned 9 (fun _ _ _ => rfl) (fun _ _ => List.length_replicate) (.inl rfl) ⟨1,.inr ⟨rfl,.inl rfl⟩⟩

end PagePool
end PomaiCache
