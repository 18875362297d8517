import PomaiCache.CarefulRuns
import PomaiCache.PagePool

/-!
A client of the page pool sees a flat memory. It fetches pages, writes through the pointers it
was given while it holds them, and tells the pool when it gives a changed page back.
-/
namespace PomaiCache
open List Function
namespace PagePool

/-- What a client knows: the pointers of the fetches it has not given back, the bytes it last
left in each page, and the pages it changed since it last gave them back as dirty. -/
structure Client (pageSize frames : Nat) where
  held : UInt64 → List (Fin frames)
  memory : UInt64 → PageBytes pageSize
  changed : UInt64 → Bool

section Frames
variable {σ : Type} {pageSize frames : Nat}

lemma card_dirty_update (pages : Fin frames → PageMeta) (f : Fin frames) (m : PageMeta) :
    (dirtyFrames (Function.update pages f m)).card + (if (pages f).dirty then 1 else 0) =
      (dirtyFrames pages).card + (if m.dirty then 1 else 0) := by
  have others : ∑ i ∈ Finset.univ.erase f, (if (Function.update pages f m i).dirty then 1 else 0) =
      ∑ i ∈ Finset.univ.erase f, if (pages i).dirty then 1 else 0 := by
    refine Finset.sum_congr rfl ?_
    grind
  simp only [dirtyFrames,Finset.card_filter]
  rw [← Finset.add_sum_erase _ _ (Finset.mem_univ f),← Finset.add_sum_erase Finset.univ
    (fun i => if (pages i).dirty then 1 else 0) (Finset.mem_univ f),others,update_self]
  omega

/-- What relates a pool to what its client left. -/
structure Inv (io : SwapCalls σ) (c : Client pageSize frames) (pool : PagePool σ pageSize frames) : Prop where
  index : ∀ p f, pool.pageIndex p = some f ↔ (pool.pages f).inUse = true ∧ (pool.pages f).pageId = p
  pins : ∀ p f, pool.pageIndex p = some f → (pool.pages f).pinCount.toNat = (c.held p).length
  pinned : ∀ p, ∀ f ∈ c.held p, pool.pageIndex p = some f
  bytes : ∀ p f, pool.pageIndex p = some f → pool.arena f = c.memory p
  stored : ∀ p, (∀ f, pool.pageIndex p = some f → (pool.pages f).dirty = false ∧ c.changed p = false) →
    pool.swapBytes io p = some (c.memory p)
  told : ∀ p, c.held p = [] → c.changed p = false
  slots : ∀ p slot, pool.swapped p = some slot → slot < pool.nextSwapSlot
  free : pool.freeSwapSlots = []
  count : pool.dirtyPages = (dirtyFrames pool.pages).card
  used : ∀ f, (pool.pages f).dirty = true → (pool.pages f).inUse = true

variable {io : SwapCalls σ} {c : Client pageSize frames} {pool : PagePool σ pageSize frames}

variable {p : UInt64} {f : Fin frames}

lemma Inv.unheld (inv : Inv io c pool) (absent : pool.pageIndex p = none) : c.held p = [] := by
  by_contra some_
  obtain ⟨f,member⟩ := exists_mem_of_ne_nil _ some_
  have resident := inv.pinned p f member
  simp [absent] at resident

/-- The entry of the frame of one page changes, with what the client holds of that page; the
clock may move. Every other page keeps its entry. -/
lemma Inv.set (inv : Inv io c pool) (resident : pool.pageIndex p = some f)
    (hand : Fin frames) (count : Nat) (held : List (Fin frames)) (changed : Bool)
    (owner : m.inUse = true ∧ m.pageId = p) (pins : m.pinCount.toNat = held.length) (pinned : ∀ g ∈ held, g = f)
    (clean : m.dirty = false → changed = false → (pool.pages f).dirty = false ∧ c.changed p = false)
    (told : held = [] → changed = false)
    (counted : count + (if (pool.pages f).dirty then 1 else 0) = pool.dirtyPages + (if m.dirty then 1 else 0)) :
    Inv io { c with held := Function.update c.held p held, changed := Function.update c.changed p changed }
      { pool with pages := Function.update pool.pages f m, clockHand := hand, dirtyPages := count } := by
  have mine := (inv.index p f).mp resident
  -- A page other than `p` is in another frame.
  have other {q : UInt64} {g : Fin frames} (there : pool.pageIndex q = some g) (ne : q ≠ p) : g ≠ f := by
    rintro rfl
    exact ne (((inv.index q g).mp there).2.symm.trans mine.2)
  constructor
  · intro q g
    by_cases same : g = f
    · grind
    · simp only [update_of_ne same]
      exact inv.index q g
  · intro q g there
    by_cases same : q = p
    · grind
    · simpa [update_of_ne (other there same),update_of_ne same] using inv.pins q g there
  · intro q g member
    by_cases same : q = p
    · grind
    · simp only [update_of_ne same] at member
      exact inv.pinned q g member
  · exact inv.bytes
  · intro q unchanged
    refine inv.stored q ?_
    grind
  · grind [update_self,told,update_of_ne]
  · exact inv.slots
  · exact inv.free
  · have sum := card_dirty_update pool.pages f m
    have before := inv.count
    dsimp only
    omega
  · intro g
    by_cases same : g = f
    · subst same
      simp [owner]
    · simpa only [update_of_ne same] using inv.used g

lemma Inv.touch (inv : Inv io c pool) (used : (pool.pages f).inUse = true) (hand : Fin frames) (bit : Bool) :
    Inv io c { pool with pages := Function.update pool.pages f { pool.pages f with refBit := bit }, clockHand := hand } := by
  have resident := (inv.index (pool.pages f).pageId f).mpr ⟨used,rfl⟩
  have kept := inv.set (m := { pool.pages f with refBit := bit }) resident hand pool.dirtyPages
    (c.held (pool.pages f).pageId) (c.changed (pool.pages f).pageId) ⟨used,rfl⟩
    (inv.pins _ f resident) (fun g member => Option.some.inj ((inv.pinned _ g member).symm.trans resident))
    (fun clean unchanged => ⟨clean,unchanged⟩) (inv.told _) rfl
  simpa using kept

lemma Inv.turn (inv : Inv io c pool) (hand : Fin frames) : Inv io c { pool with clockHand := hand } :=
  ⟨inv.index,inv.pins,inv.pinned,inv.bytes,inv.stored,inv.told,inv.slots,inv.free,inv.count,inv.used⟩

lemma writePageToSwap_eq (reliable : io.Reliable) (free : pool.freeSwapSlots = [])
    (open_ : pool.swapFd = some file) (f : Fin frames) (p : UInt64) : pool.writePageToSwap io f p = (true,{ pool with
      nextSwapSlot := pool.nextSwapSlot + 1
      swapFd := some (io.pwrite file (pool.arena f).1 (pool.nextSwapSlot * pageSize)).2
      swapped := Function.update pool.swapped p (some pool.nextSwapSlot) }) := by
  have whole := reliable.writes file (pool.arena f).1 (pool.nextSwapSlot * pageSize)
  rw [(pool.arena f).2] at whole
  simp [writePageToSwap,takeSlot,open_,free,whole]

lemma swapBytes_write (reliable : io.Reliable) (slots : ∀ p slot, pool.swapped p = some slot → slot < pool.nextSwapSlot)
    (open_ : pool.swapFd = some file) (ne : q ≠ p) (before : pool.swapBytes io q = some found) : swapBytes io { pool with
      nextSwapSlot := pool.nextSwapSlot + 1
      swapFd := some (io.pwrite file (pool.arena f).1 (pool.nextSwapSlot * pageSize)).2
      swapped := Function.update pool.swapped p (some pool.nextSwapSlot) } q = some found := by
  simp only [swapBytes,open_,update_of_ne ne] at before ⊢
  cases swapped : pool.swapped q with
  | none => simpa [swapped] using before
  | some slot =>
    simp only [swapped] at before ⊢
    split at before
    · rename_i whole
      have below : slot * pageSize + pageSize ≤ pool.nextSwapSlot * pageSize := by
        rw [← Nat.succ_mul]
        exact Nat.mul_le_mul_right _ (slots q slot swapped)
      have same := reliable.apart file (pool.arena f).1 (pool.nextSwapSlot * pageSize) pageSize (slot * pageSize) whole (.inl below)
      simpa only [same,whole,dite_true] using before
    · cases before

lemma Inv.flush (reliable : io.Reliable) (inv : Inv io c pool) (f : Fin frames) :
    Inv io c (pool.flushFrameLocked io f).2 ∧ (pool.flushFrameLocked io f).2.pageIndex = pool.pageIndex ∧
      ((pool.flushFrameLocked io f).1 = true → (pool.pages f).inUse = true →
        (pool.flushFrameLocked io f).2.pages f = { pool.pages f with dirty := false }) := by
  by_cases idle : (!(pool.pages f).inUse || !(pool.pages f).dirty) = true
  · simp only [flushFrameLocked,idle,if_true]
    refine ⟨inv,trivial,?_⟩
    intro _ used
    have clean : (pool.pages f).dirty = false := by simpa [used] using idle
    rw [← clean]
  obtain ⟨used,dirty⟩ : (pool.pages f).inUse = true ∧ (pool.pages f).dirty = true := by simpa using idle
  cases open_ : pool.swapFd with
  | none => simp [flushFrameLocked,writePageToSwap,used,dirty,open_,inv]
  | some file =>
    simp only [flushFrameLocked,idle,writePageToSwap_eq reliable inv.free open_,Bool.false_eq_true,if_false]
    have resident := (inv.index (pool.pages f).pageId f).mpr ⟨used,rfl⟩
    have some_ : 0 < (dirtyFrames pool.pages).card := Finset.card_pos.mpr ⟨f,by simp [dirtyFrames,dirty]⟩
    refine ⟨⟨?_,?_,inv.pinned,inv.bytes,?_,inv.told,?_,inv.free,?_,?_⟩,trivial,by simp⟩
    · intro q g
      by_cases same : g = f
      · subst same
        simpa using inv.index q g
      · simpa [update_of_ne same] using inv.index q g
    · intro q g there
      by_cases same : g = f
      · subst same
        simpa using inv.pins q g there
      · simpa [update_of_ne same] using inv.pins q g there
    · intro q unchanged
      by_cases same : q = (pool.pages f).pageId
      · subst same
        -- The page that was written: its slot is new, and the frame held what the client left.
        have whole := reliable.reads file (pool.arena f).1 (pool.nextSwapSlot * pageSize)
        rw [(pool.arena f).2] at whole
        simp only [swapBytes,update_self,whole,(pool.arena f).2,dite_true]
        exact congrArg some (inv.bytes _ f resident)
      · refine swapBytes_write reliable inv.slots open_ same (inv.stored q ?_)
        intro g there
        have ne : g ≠ f := by
          rintro rfl
          exact same ((inv.index q g).mp there).2.symm
        simpa [update_of_ne ne] using unchanged g there
    · intro q slot swapped
      by_cases same : q = (pool.pages f).pageId
      · grind
      · simp only [update_of_ne same] at swapped
        exact Nat.lt_succ_of_lt (inv.slots q slot swapped)
    · have sum := card_dirty_update pool.pages f { pool.pages f with dirty := false }
      have before := inv.count
      grind
    · intro g
      by_cases same : g = f
      · subst same
        simp
      · simpa only [update_of_ne same] using inv.used g

/-- What looking for a frame for a page leaves: nothing but reference bits and clean frames
where there is none, and else a frame that is ready to be entered into the index. -/
def Loaded (io : SwapCalls σ) (c : Client pageSize frames) (p : UInt64) :
    Option (Fin frames × Bool) × PagePool σ pageSize frames → Prop
  | (none,pool) => Inv io c pool
  | (some (f,_),pool) => (pool.pages f).dirty = false ∧
      Inv io c { pool with pageIndex := Function.update pool.pageIndex p (some f) }

/-- A frame that no held page is in is given to a page that is in none. `index` is the index
without the page that was in the frame. -/
lemma Inv.load (inv : Inv io c pool) (absent : pool.pageIndex p = none)
    (clean : (pool.pages f).dirty = false) (loose : ∀ q, pool.pageIndex q = some f → c.held q = [])
    {index : UInt64 → Option (Fin frames)} (vacated : ∀ q g, index q = some g ↔ g ≠ f ∧ pool.pageIndex q = some g) :
    Loaded io c p (PagePool.load io { pool with pageIndex := index } f p) := by
  have nobody := inv.unheld absent
  have backed : pool.swapBytes io p = some (c.memory p) := inv.stored p (by simp [absent])
  have read : swapBytes io { pool with
      pageIndex := index
      pages := Function.update pool.pages f
        { pageId := p, pinCount := 0, dirty := false, refBit := true, inUse := true } } p = some (c.memory p) := backed
  simp only [PagePool.load,readPageFromSwap,read,Option.map_some,Loaded,update_self]
  refine ⟨trivial,?_⟩
  -- Every page but `p` is where it was, and not in `f`.
  have others {q : UInt64} (ne : q ≠ p) {g : Fin frames}
      (there : Function.update index p (some f) q = some g) : g ≠ f ∧ pool.pageIndex q = some g := by
    grind
  constructor
  · intro q g
    by_cases same : q = p
    · subst same
      by_cases here : g = f
      · subst here
        simp
      · have no := (inv.index q g).not.mp (by simp [absent])
        simpa [update_of_ne here,Ne.symm here] using no
    · by_cases here : g = f
      · grind
      · simpa [update_of_ne same,update_of_ne here,vacated,here] using inv.index q g
  · intro q g there
    by_cases same : q = p
    · subst same
      obtain rfl : f = g := by simpa using there
      simp [nobody]
    · obtain ⟨ne,before⟩ := others same there
      simpa [update_of_ne ne] using inv.pins q g before
  · intro q g member
    have before := inv.pinned q g member
    grind
  · intro q g there
    by_cases same : q = p
    · grind
    · obtain ⟨ne,before⟩ := others same there
      simpa [update_of_ne ne] using inv.bytes q g before
  · intro q unchanged
    by_cases same : q = p
    · subst same
      exact backed
    · refine inv.stored q ?_
      intro g before
      by_cases here : g = f
      · subst here
        exact ⟨clean,inv.told q (loose q before)⟩
      · grind
  · exact inv.told
  · exact inv.slots
  · exact inv.free
  · have sum := card_dirty_update pool.pages f
      { pageId := p, pinCount := 0, dirty := false, refBit := true, inUse := true }
    have before := inv.count
    grind
  · intro g
    by_cases here : g = f
    · subst here
      simp
    · simpa only [update_of_ne here] using inv.used g

/-- One turn of the clock that does not evict keeps the invariant and the index; the turn that
evicts takes a page that nobody holds. -/
lemma Inv.evict (reliable : io.Reliable) (passes : Nat) (inv : Inv io c pool)
    (absent : pool.pageIndex p = none) : Loaded io c p (PagePool.evict io p passes pool) := by
  induction passes generalizing pool with
  | zero => exact inv
  | succ passes ih =>
    have turned := inv.turn (nextHand pool.clockHand)
    simp only [PagePool.evict]
    by_cases busy : (!(pool.pages pool.clockHand).inUse || (pool.pages pool.clockHand).pinCount != 0) = true
    · rw [if_pos busy]
      exact ih turned absent
    rw [if_neg busy]
    obtain ⟨used,loose⟩ : (pool.pages pool.clockHand).inUse = true ∧ (pool.pages pool.clockHand).pinCount = 0 := by
      simpa using busy
    by_cases recent : (pool.pages pool.clockHand).refBit = true
    · rw [if_pos recent]
      exact ih (inv.touch used _ false) absent
    rw [if_neg recent]
    -- The victim: written out first if it is dirty, then its page leaves the index.
    have victim := (inv.index (pool.pages pool.clockHand).pageId pool.clockHand).mpr ⟨used,rfl⟩
    have unheld : c.held (pool.pages pool.clockHand).pageId = [] := by
      have pins := inv.pins _ _ victim
      rw [loose] at pins
      exact eq_nil_of_length_eq_zero pins.symm
    have leaves {after : PagePool σ pageSize frames} (kept : Inv io c after) (index : after.pageIndex = pool.pageIndex)
        (clean : (after.pages pool.clockHand).dirty = false) :
        Loaded io c p (PagePool.load io
          { after with pageIndex := Function.update after.pageIndex (pool.pages pool.clockHand).pageId none }
          pool.clockHand p) := by
      rw [index]
      have only {q : UInt64} (there : pool.pageIndex q = some pool.clockHand) : q = (pool.pages pool.clockHand).pageId :=
        ((inv.index q _).mp there).2.symm
      refine kept.load (index ▸ absent) clean ?_ ?_
      · intro q there
        rw [index] at there
        rw [only there]
        exact unheld
      · intro q g
        rw [index]
        grind
    by_cases dirty : (pool.pages pool.clockHand).dirty = true
    · rw [if_pos dirty]
      obtain ⟨kept,index,cleaned⟩ := turned.flush reliable pool.clockHand
      grind
    · grind

lemma Inv.allocate (reliable : io.Reliable) (inv : Inv io c pool) (absent : pool.pageIndex p = none) :
    Loaded io c p (pool.allocateFrameForPage io p) := by
  cases free : (List.finRange frames).find? (fun i => !(pool.pages i).inUse) with
  | none =>
    simp only [allocateFrameForPage,free]
    exact inv.evict reliable _ absent
  | some i =>
    simp only [allocateFrameForPage,free]
    have unused : (pool.pages i).inUse = false := by simpa using List.find?_some free
    have empty (q : UInt64) : pool.pageIndex q ≠ some i := by
      intro there
      have used := ((inv.index q i).mp there).1
      simp [unused] at used
    refine inv.load absent ?_ ?_ ?_
    · by_contra dirty
      grind [used]
    · intro q there
      exact absurd there (empty q)
    · grind

def Client.hold (c : Client pageSize frames) (p : UInt64) (f : Fin frames) : Client pageSize frames :=
  { c with held := Function.update c.held p (f :: c.held p) }

def Client.release (c : Client pageSize frames) (p : UInt64) (mark_dirty : Bool) : Client pageSize frames :=
  { c with
    held := Function.update c.held p (c.held p).tail
    changed := Function.update c.changed p (c.changed p && !mark_dirty) }

def Client.write (c : Client pageSize frames) (p : UInt64) (bytes : PageBytes pageSize) : Client pageSize frames :=
  { c with memory := Function.update c.memory p bytes, changed := Function.update c.changed p true }

/-- A fetch gives the bytes the client last left, and keeps the invariant where the counter of
pins has room. -/
lemma Inv.fetch (reliable : io.Reliable) (inv : Inv io c pool) (p : UInt64) (for_write : Bool) :
    match pool.fetchPage io p for_write with
    | (none,after) => Inv io c after
    | (some (f,_),after) => after.arena f = c.memory p ∧ ((c.held p).length + 1 < 2 ^ 32 → Inv io (c.hold p f) after) := by
  cases resident : pool.pageIndex p with
  | some f =>
    simp only [fetchPage,resident]
    refine ⟨inv.bytes p f resident,?_⟩
    intro room
    have pins := inv.pins p f resident
    have kept := inv.set (m := { pool.pages f with pinCount := (pool.pages f).pinCount + 1, refBit := true })
      resident pool.clockHand pool.dirtyPages (f :: c.held p) (c.changed p)
      ((inv.index p f).mp resident) (by simp [UInt32.toNat_add,pins]; omega)
      (by
        intro g member
        rcases mem_cons.mp member with rfl | member
        · rfl
        · exact Option.some.inj ((inv.pinned p g member).symm.trans resident))
      (fun clean unchanged => ⟨clean,unchanged⟩) (by simp) rfl
    simpa [Client.hold] using kept
  | none =>
    have nobody := inv.unheld resident
    have loaded := inv.allocate reliable resident
    simp only [fetchPage,resident]
    rcases out : pool.allocateFrameForPage io p with ⟨_ | ⟨f,is_new⟩,after⟩
    · rw [out] at loaded
      exact loaded
    · rw [out] at loaded
      obtain ⟨clean,entered⟩ := loaded
      have here : Function.update after.pageIndex p (some f) p = some f := update_self ..
      refine ⟨entered.bytes p f here,?_⟩
      intro _
      have kept := entered.set
        (m := { after.pages f with pinCount := 1, refBit := true, dirty := (after.pages f).dirty || for_write })
        here after.clockHand (if for_write then after.dirtyPages + 1 else after.dirtyPages) [f]
        (c.changed p) ((entered.index p f).mp here) rfl (by simp)
        (fun _ unchanged => ⟨clean,unchanged⟩) (by simp) (by cases for_write <;> simp [clean])
      simpa [Client.hold,nobody] using kept

lemma Inv.unpin (inv : Inv io c pool) (fetched : c.held p ≠ [])
    (told : (c.held p).length = 1 → c.changed p = true → mark_dirty = true) :
    Inv io (c.release p mark_dirty) (pool.unpinPage p mark_dirty) := by
  obtain ⟨f,rest,held⟩ := exists_cons_of_ne_nil fetched
  have resident := inv.pinned p f (by simp [held])
  have pins := inv.pins p f resident
  have positive : 0 < (pool.pages f).pinCount := by
    rw [UInt32.lt_iff_toNat_lt,pins]
    simp [held]
  have less : ((pool.pages f).pinCount - 1).toNat = rest.length := by
    grind [UInt32.le_iff_toNat_le,UInt32.toNat_sub_of_le,pins]
  simp only [unpinPage,resident]
  refine inv.set resident pool.clockHand _ _ _ ((inv.index p f).mp resident) ?_ ?_ ?_ ?_ ?_
  · simp [positive,less,held]
  · intro g member
    exact Option.some.inj ((inv.pinned p g (mem_of_mem_tail member)).symm.trans resident)
  · grind
  · grind
  · cases mark_dirty <;> cases (pool.pages f).dirty <;> simp

lemma Inv.change (inv : Inv io c pool) (held : f ∈ c.held p) (bytes : PageBytes pageSize) :
    Inv io (c.write p bytes) { pool with arena := Function.update pool.arena f bytes } := by
  have resident := inv.pinned p f held
  refine ⟨inv.index,inv.pins,inv.pinned,?_,?_,?_,inv.slots,inv.free,inv.count,inv.used⟩
  · intro q g there
    by_cases same : q = p
    · subst same
      obtain rfl : f = g := Option.some.inj (resident.symm.trans there)
      simp [Client.write]
    · have ne : g ≠ f := by
        rintro rfl
        exact same (((inv.index q g).mp there).2.symm.trans ((inv.index p g).mp resident).2)
      simpa [Client.write,update_of_ne same,update_of_ne ne] using inv.bytes q g there
  · intro q unchanged
    have same : q ≠ p := by
      rintro rfl
      simpa [Client.write] using (unchanged f resident).2
    simp only [Client.write,update_of_ne same] at unchanged ⊢
    exact inv.stored q unchanged
  · intro q none_
    have same : q ≠ p := by
      rintro rfl
      simp [show c.held q = [] from none_] at held
    simpa [Client.write,update_of_ne same] using inv.told q none_

lemma Inv.flushAll (reliable : io.Reliable) (inv : Inv io c pool) : Inv io c (pool.flushAllLocked io).2 := by
  have each (frames_ : List (Fin frames)) (ok : Bool) (pool : PagePool σ pageSize frames) (inv : Inv io c pool) :
      Inv io c (frames_.foldl (fun (st : Bool × PagePool σ pageSize frames) frame =>
        (st.1 && (flushFrameLocked io st.2 frame).1,(flushFrameLocked io st.2 frame).2)) (ok,pool)).2 := by
    induction frames_ generalizing ok pool with
    | nil => exact inv
    | cons f rest ih => exact ih _ _ (inv.flush reliable f).1
  exact each _ _ _ inv

structure Use (σ : Type) (pageSize frames : Nat) where
  pool : PagePool σ pageSize frames
  client : Client pageSize frames

/-- What the client can do: call the pool, or write a page through a pointer. -/
inductive Call (pageSize frames : Nat) where
  | fetch (page_id : UInt64) (for_write : Bool)
  | unpin (page_id : UInt64) (mark_dirty : Bool)
  | change (page_id : UInt64) (frame : Fin frames) (bytes : PageBytes pageSize)
  | flush (page_id : UInt64)
  | flushAll

def Use.step (io : SwapCalls σ) (s : Use σ pageSize frames) : Call pageSize frames → Use σ pageSize frames
  | .fetch page_id for_write =>
    match s.pool.fetchPage io page_id for_write with
    | (none,pool) => ⟨pool,s.client⟩
    | (some (frame,_),pool) => ⟨pool,s.client.hold page_id frame⟩
  | .unpin page_id mark_dirty => ⟨s.pool.unpinPage page_id mark_dirty,s.client.release page_id mark_dirty⟩
  | .change page_id frame bytes =>
    ⟨{ s.pool with arena := Function.update s.pool.arena frame bytes },s.client.write page_id bytes⟩
  | .flush page_id => ⟨(s.pool.flushPage io page_id).2,s.client⟩
  | .flushAll => ⟨(s.pool.flushAllLocked io).2,s.client⟩

def Use.run (io : SwapCalls σ) (s : Use σ pageSize frames) (calls : List (Call pageSize frames)) : Use σ pageSize frames :=
  calls.foldl (Use.step io) s

lemma Use.run_snoc (io : SwapCalls σ) (s : Use σ pageSize frames) (calls : List (Call pageSize frames))
    (call : Call pageSize frames) : s.run io (calls ++ [call]) = (s.run io calls).step io call := by
  simp [Use.run]

/-- The client unpins only what it fetched, changes a page only through a pointer it holds, and
does not give its last pointer back before it said that it changed the page. -/
def Call.Fair (c : Client pageSize frames) : Call pageSize frames → Prop
  | .unpin page_id mark_dirty => c.held page_id ≠ [] ∧ ((c.held page_id).length = 1 → c.changed page_id = true → mark_dirty = true)
  | .change page_id frame _ => frame ∈ c.held page_id
  | _ => True

/-- A page is fetched while fewer than `2 ^ 32 - 1` fetches of it are outstanding. -/
def Call.Counted (c : Client pageSize frames) : Call pageSize frames → Prop
  | .fetch page_id _ => (c.held page_id).length + 1 < 2 ^ 32
  | _ => True

instance Call.decidableFair (c : Client pageSize frames) : DecidablePred (Call.Fair c)
  | .fetch _ _ => .isTrue trivial
  | .unpin page_id mark_dirty => inferInstanceAs (Decidable (c.held page_id ≠ [] ∧
      ((c.held page_id).length = 1 → c.changed page_id = true → mark_dirty = true)))
  | .change page_id frame _ => inferInstanceAs (Decidable (frame ∈ c.held page_id))
  | .flush _ => .isTrue trivial
  | .flushAll => .isTrue trivial

instance Call.decidableCounted (c : Client pageSize frames) : DecidablePred (Call.Counted c)
  | .fetch page_id _ => inferInstanceAs (Decidable ((c.held page_id).length + 1 < 2 ^ 32))
  | .unpin _ _ => .isTrue trivial
  | .change _ _ _ => .isTrue trivial
  | .flush _ => .isTrue trivial
  | .flushAll => .isTrue trivial

/-- A test of the client holds of each call of a run. -/
abbrev Use.Always (io : SwapCalls σ) (test : Client pageSize frames → Call pageSize frames → Prop) (s : Use σ pageSize frames)
    (calls : List (Call pageSize frames)) : Prop :=
  CarefulRuns.Careful (Use.step io) (fun s call => test s.client call) s calls

lemma Inv.step (reliable : io.Reliable) {s : Use σ pageSize frames} (inv : Inv io s.client s.pool)
    {call : Call pageSize frames} (fair : call.Fair s.client) (counted : call.Counted s.client) :
    Inv io (s.step io call).client (s.step io call).pool := by
  cases call with
  | fetch page_id for_write =>
    have fetched := inv.fetch reliable page_id for_write
    simp only [Use.step]
    rcases out : s.pool.fetchPage io page_id for_write with ⟨_ | ⟨f,is_new⟩,after⟩
    · rw [out] at fetched
      exact fetched
    · rw [out] at fetched
      exact fetched.2 counted
  | unpin page_id mark_dirty => exact inv.unpin fair.1 fair.2
  | change page_id frame bytes => exact inv.change fair bytes
  | flush page_id =>
    simp only [Use.step,flushPage]
    split
    · exact inv
    · exact (inv.flush reliable _).1
  | flushAll => exact inv.flushAll reliable

lemma Inv.run (reliable : io.Reliable) (calls : List (Call pageSize frames)) {s : Use σ pageSize frames}
    (inv : Inv io s.client s.pool) (fair : s.Always io (fun c call => call.Fair c) calls)
    (counted : s.Always io (fun c call => call.Counted c) calls) :
    Inv io (s.run io calls).client (s.run io calls).pool := by
  induction calls generalizing s with
  | nil => exact inv
  | cons call rest ih => exact ih (inv.step reliable fair.1 counted.1) fair.2 counted.2

def Client.fresh (pageSize frames : Nat) : Client pageSize frames :=
  { held := fun _ => [], memory := fun _ => zeroPage pageSize, changed := fun _ => false }

lemma Inv.created {opts : PagePoolOptions} {raw : Fin opts.frames → PageBytes opts.filled.pageSize}
    {file : Option σ} {pool : PagePool σ opts.filled.pageSize opts.frames}
    (made : create opts raw file = some pool) : Inv io (Client.fresh _ _) pool := by
  simp only [create] at made
  split at made
  · cases made
  split at made
  · cases made
  cases made
  constructor <;> simp [Client.fresh,swapBytes,dirtyFrames]

/-- The pool is transparent: what is held stays where it is with the bytes last left in it, the
index has exactly the frames in use, and the dirty frames are counted. -/
structure Use.Transparent (s : Use σ pageSize frames) : Prop where
  pinned : ∀ page_id, ∀ frame ∈ s.client.held page_id,
    s.pool.pageIndex page_id = some frame ∧ s.pool.arena frame = s.client.memory page_id
  index : ∀ page_id frame, s.pool.pageIndex page_id = some frame ↔
    (s.pool.pages frame).inUse = true ∧ (s.pool.pages frame).pageId = page_id
  count : s.pool.dirtyPages = (dirtyFrames s.pool.pages).card

/-- Through every run in which no page is held by `2 ^ 32` fetches at once, the pool is a flat
memory: it stays transparent, and whatever page is fetched next has the bytes last left in it. -/
theorem transparent_memory (io : SwapCalls σ) (reliable : io.Reliable) (opts : PagePoolOptions)
    (raw : Fin opts.frames → PageBytes opts.filled.pageSize) (file : Option σ)
    (pool : PagePool σ opts.filled.pageSize opts.frames) (made : create opts raw file = some pool)
    (calls : List (Call opts.filled.pageSize opts.frames))
    (fair : Use.Always io (fun c call => call.Fair c) ⟨pool,Client.fresh _ _⟩ calls)
    (counted : Use.Always io (fun c call => call.Counted c) ⟨pool,Client.fresh _ _⟩ calls) :
    (Use.run io ⟨pool,Client.fresh _ _⟩ calls).Transparent ∧ ∀ page_id for_write frame is_new after,
      (Use.run io ⟨pool,Client.fresh _ _⟩ calls).pool.fetchPage io page_id for_write = (some (frame,is_new),after) →
      after.arena frame = (Use.run io ⟨pool,Client.fresh _ _⟩ calls).client.memory page_id := by
  have inv := Inv.run reliable calls (Inv.created made) fair counted
  refine ⟨⟨?_,inv.index,inv.count⟩,?_⟩
  · intro page_id frame member
    have resident := inv.pinned page_id frame member
    exact ⟨resident,inv.bytes page_id frame resident⟩
  · intro page_id for_write frame is_new after out
    have fetched := inv.fetch reliable page_id for_write
    rw [out] at fetched
    exact fetched.1

end Frames

def plainCalls : SwapCalls (List UInt8) where
  pwrite file bytes off :=
    (bytes.length,(file ++ replicate (off - file.length) 0).take off ++ (bytes ++ file.drop (off + bytes.length)))
  pread file n off := (file.drop off).take n

lemma plainCalls_reliable : plainCalls.Reliable := by
  have reaches (file : List UInt8) (off : Nat) : ((file ++ replicate (off - file.length) 0).take off).length = off := by
    simp
    omega
  refine ⟨fun _ _ _ => rfl,?_,?_⟩
  · simp [plainCalls,reaches]
  · intro file bytes off n start whole place
    simp only [plainCalls,length_take,length_drop] at whole ⊢
    refine ext_getElem? ?_
    intro i
    by_cases inside : i < n
    · simp only [List.getElem?_take,inside,if_true,List.getElem?_drop]
      grind
    · simp [inside]

def onePage : PagePoolOptions := { pageSize := 1, capacityBytes := 1, profile := .small }

def theFrame : Fin onePage.frames := ⟨0,by decide⟩

def onePagePool : PagePool (List UInt8) onePage.filled.pageSize onePage.frames :=
  { arena := fun _ => zeroPage _, swapFd := some [], pages := fun _ => {}, pageIndex := fun _ => none,
    swapped := fun _ => none, freeSwapSlots := [], nextSwapSlot := 0, dirtyPages := 0, clockHand := theFrame }

lemma create_onePage : create onePage (fun _ => zeroPage _) (some []) = some onePagePool := rfl

def onePageUse : Use (List UInt8) onePage.filled.pageSize onePage.frames := ⟨onePagePool,Client.fresh _ _⟩

def pageOut : List (Call onePage.filled.pageSize onePage.frames) :=
  [.fetch 7 true,.change 7 theFrame ⟨[5],rfl⟩,.unpin 7 true,.fetch 9 false,.unpin 9 false]

theorem transparent_memory_paged_out :
    ∃ after, (onePageUse.run plainCalls pageOut).pool.fetchPage plainCalls 7 false = (some (theFrame,false),after) ∧
      after.arena theFrame = ⟨[5],rfl⟩ := by
  have answer : ((onePageUse.run plainCalls pageOut).pool.fetchPage plainCalls 7 false).1 = some (theFrame,false) := by
    decide +kernel
  have back := (transparent_memory plainCalls plainCalls_reliable onePage _ _ onePagePool create_onePage pageOut
    (by decide +kernel) (by decide +kernel)).2 7 false theFrame false _ (Prod.ext answer rfl)
  refine ⟨_,Prod.ext answer rfl,back.trans ?_⟩
  decide +kernel

structure FetchedTimes (k : Nat) (s : Use (List UInt8) onePage.filled.pageSize onePage.frames) : Prop where
  resident : s.pool.pageIndex 7 = some theFrame
  entry : s.pool.pages theFrame =
    { pageId := 7, pinCount := UInt32.ofNat k, dirty := false, refBit := true, inUse := true }
  other : s.pool.pageIndex 9 = none ∧ s.pool.swapped 9 = none
  pointers : (s.client.held 7).length = k

lemma FetchedTimes.step (fetched : FetchedTimes k s) : FetchedTimes (k + 1) (s.step plainCalls (.fetch 7 false)) := by
  obtain ⟨resident,entry,other,pointers⟩ := fetched
  simp only [Use.step,fetchPage,resident]
  refine ⟨resident,?_,other,?_⟩
  · simp [entry,UInt32.ofNat_add]
  · simp [Client.hold,pointers]

lemma FetchedTimes.run (k : Nat) : FetchedTimes (k + 1) (onePageUse.run plainCalls (replicate (k + 1) (.fetch 7 false))) := by
  induction k with
  | zero => exact ⟨by decide +kernel,by decide +kernel,by decide +kernel,by decide +kernel⟩
  | succ k ih =>
    rw [replicate_succ',Use.run_snoc]
    exact ih.step

lemma FetchedTimes.evicted (fetched : FetchedTimes (2 ^ 32) s) : (s.step plainCalls (.fetch 9 false)).pool.pageIndex 7 = none ∧
      (s.step plainCalls (.fetch 9 false)).client.held 7 ≠ [] := by
  obtain ⟨resident,entry,⟨absent,unwritten⟩,pointers⟩ := fetched
  have only : ∀ f : Fin onePage.frames, f = theFrame := by decide
  have full : (List.finRange onePage.frames).find? (fun i => !(s.pool.pages i).inUse) = none := by
    refine List.find?_eq_none.mpr ?_
    intro f _
    simp [only f,entry]
  have wrapped : UInt32.ofNat (2 ^ 32) = 0 := by decide
  have many : s.client.held 7 ≠ [] := by
    intro none_
    simp [none_] at pointers
  have passes : 2 * onePage.frames = 2 := rfl
  -- The first pass clears the reference bit, the second takes the frame.
  simp only [Use.step,fetchPage,absent,allocateFrameForPage,full,passes,PagePool.evict,only s.pool.clockHand,
    only (nextHand theFrame),entry,wrapped,update_self,PagePool.load,readPageFromSwap,swapBytes]
  simp [unwritten,Client.hold,many]

lemma always_fair_fetches {σ : Type} (io : SwapCalls σ) (calls : List (Call pageSize frames))
    (fetches : ∀ call ∈ calls, ∃ page_id for_write, call = .fetch page_id for_write) (s : Use σ pageSize frames) :
    s.Always io (fun c call => call.Fair c) calls := by
  induction calls generalizing s with
  | nil => trivial
  | cons call rest ih =>
    refine ⟨?_,ih (fun other member => fetches other (.tail _ member)) _⟩
    obtain ⟨page_id,for_write,rfl⟩ := fetches call (.head _)
    trivial

/-- After `2 ^ 32` fetches of a page the next fetch of another page takes its frame. -/
theorem pinned_page_evicted : onePageUse.Always plainCalls (fun c call => call.Fair c)
      (replicate (2 ^ 32) (.fetch 7 false) ++ [.fetch 9 false]) ∧
    (onePageUse.run plainCalls (replicate (2 ^ 32) (.fetch 7 false) ++ [.fetch 9 false])).pool.pageIndex 7 = none ∧
    (onePageUse.run plainCalls (replicate (2 ^ 32) (.fetch 7 false) ++ [.fetch 9 false])).client.held 7 ≠ [] := by
  have fetched : FetchedTimes (2 ^ 32) (onePageUse.run plainCalls (replicate (2 ^ 32) (.fetch 7 false))) :=
    FetchedTimes.run (2 ^ 32 - 1)
  refine ⟨always_fair_fetches _ _ ?_ _,?_⟩
  · intro call member
    rcases mem_append.mp member with first | last
    · exact ⟨7,false,(mem_replicate.mp first).2⟩
    · exact ⟨9,false,mem_singleton.mp last⟩
  · rw [Use.run_snoc]
    exact fetched.evicted

end PagePool
end PomaiCache
