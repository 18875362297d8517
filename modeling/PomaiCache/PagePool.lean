import Mathlib

/-!
The page pool of the allocator: a fixed number of frames, a map from page ids to frames, and a
swap file into which dirty pages are written before their frame is given to another page. A
victim is found by a clock over the frames that are not pinned.
-/
namespace PomaiCache

abbrev PageBytes (pageSize : Nat) := { bytes : List UInt8 // bytes.length = pageSize }

def zeroPage (pageSize : Nat) : PageBytes pageSize := ⟨List.replicate pageSize 0,List.length_replicate⟩

/-- `pwrite` with the number of bytes it took, and `pread` with the bytes it got. Offsets are
those the pool asks for: a swap file is never so large that they do not fit an `off_t`. -/
structure SwapCalls (σ : Type) where
  pwrite : σ → List UInt8 → Nat → Nat × σ
  pread : σ → Nat → Nat → List UInt8

/-- Reliable swap I/O: a write takes every byte, they are read back, and what could be read
in full elsewhere stays as it is. -/
structure SwapCalls.Reliable {σ : Type} (io : SwapCalls σ) : Prop where
  writes : ∀ file bytes off, (io.pwrite file bytes off).1 = bytes.length
  reads : ∀ file bytes off, io.pread (io.pwrite file bytes off).2 bytes.length off = bytes
  apart : ∀ file bytes off n start, (io.pread file n start).length = n → start + n ≤ off ∨ off + bytes.length ≤ start →
    io.pread (io.pwrite file bytes off).2 n start = io.pread file n start

def kInvalidPageId : UInt64 := 0xFFFFFFFFFFFFFFFF

structure PageMeta where
  pageId : UInt64 := kInvalidPageId
  pinCount : UInt32 := 0
  dirty : Bool := false
  refBit : Bool := false
  inUse : Bool := false
  deriving DecidableEq

/-- The pool. A frame's pointer is its number, and `pages.size()` and `max_resident_pages` are
both `frames`. Without a swap file there is no descriptor. -/
structure PagePool (σ : Type) (pageSize frames : Nat) where
  arena : Fin frames → PageBytes pageSize
  swapFd : Option σ
  pages : Fin frames → PageMeta
  pageIndex : UInt64 → Option (Fin frames)
  swapped : UInt64 → Option Nat
  freeSwapSlots : List Nat
  nextSwapSlot : Nat
  dirtyPages : Nat
  clockHand : Fin frames

inductive DeviceProfile where
  | small
  | medium
  | large
  deriving DecidableEq

structure PagePoolOptions where
  pageSize : Nat
  capacityBytes : Nat
  profile : DeviceProfile

def PagePoolOptions.filled (opts : PagePoolOptions) : PagePoolOptions :=
  { opts with
    pageSize :=
      if opts.pageSize = 0 then
        match opts.profile with
        | .small => 4 * 1024
        | .medium => 8 * 1024
        | .large => 16 * 1024
      else opts.pageSize
    capacityBytes :=
      if opts.capacityBytes = 0 then
        match opts.profile with
        | .small => 32 * 1024 * 1024
        | .medium => 64 * 1024 * 1024
        | .large => 128 * 1024 * 1024
      else opts.capacityBytes }

def PagePoolOptions.frames (opts : PagePoolOptions) : Nat := opts.filled.capacityBytes / opts.filled.pageSize

namespace PagePool
variable {σ : Type} {pageSize frames : Nat}

/-- `palloc_page_pool_create`: `raw` is what the memory of the arena holds, and `file` is the
swap file where one could be opened. -/
def create (opts : PagePoolOptions) (raw : Fin opts.frames → PageBytes opts.filled.pageSize)
    (file : Option σ) : Option (PagePool σ opts.filled.pageSize opts.frames) :=
  if opts.filled.pageSize = 0 ∨ opts.filled.capacityBytes < opts.filled.pageSize then none
  else if h : opts.frames = 0 then none
  else some {
    arena := raw, swapFd := file, pages := fun _ => {}, pageIndex := fun _ => none,
    swapped := fun _ => none, freeSwapSlots := [], nextSwapSlot := 0, dirtyPages := 0,
    clockHand := ⟨0,Nat.pos_of_ne_zero h⟩ }

variable (pool : PagePool σ pageSize frames)

def takeSlot : Nat × PagePool σ pageSize frames :=
  match pool.freeSwapSlots.getLast? with
  | some slot => (slot,{ pool with freeSwapSlots := pool.freeSwapSlots.dropLast })
  | none => (pool.nextSwapSlot,{ pool with nextSwapSlot := pool.nextSwapSlot + 1 })

variable (io : SwapCalls σ)

variable (pool : PagePool σ pageSize frames)

def writePageToSwap (frame : Fin frames) (page_id : UInt64) : Bool × PagePool σ pageSize frames :=
  match pool.swapFd with
  | none => (false,pool)
  | some file =>
    let (slot,pool) := pool.takeSlot
    let (n,file) := io.pwrite file (pool.arena frame).1 (slot * pageSize)
    let pool := { pool with swapFd := some file }
    -- A slot that was written in part is not used again.
    if n ≠ pageSize then (false,pool)
    else (true,{ pool with swapped := Function.update pool.swapped page_id (some slot) })

/-- The bytes `read_page_from_swap` finds for a page, if it can read them. -/
def swapBytes (page_id : UInt64) : Option (PageBytes pageSize) :=
  match pool.swapped page_id with
  | none => some (zeroPage pageSize)
  | some slot =>
    match pool.swapFd with
    | none => none
    | some file =>
      let bytes := io.pread file pageSize (slot * pageSize)
      if h : bytes.length = pageSize then some ⟨bytes,h⟩ else none

def readPageFromSwap (frame : Fin frames) (page_id : UInt64) : Option (PagePool σ pageSize frames) :=
  (pool.swapBytes io page_id).map fun bytes => { pool with arena := Function.update pool.arena frame bytes }

def flushFrameLocked (frame : Fin frames) : Bool × PagePool σ pageSize frames :=
  let m := pool.pages frame
  if !m.inUse || !m.dirty then (true,pool)
  else
    match pool.writePageToSwap io frame m.pageId with
    | (false,pool) => (false,pool)
    | (true,pool) => (true,{ pool with
        pages := Function.update pool.pages frame { m with dirty := false }
        dirtyPages := pool.dirtyPages - 1 })

def flushAllLocked : Bool × PagePool σ pageSize frames :=
  (List.finRange frames).foldl (fun (ok,pool) frame =>
    let (done,pool) := flushFrameLocked io pool frame
    (ok && done,pool)) (true,pool)

/-- A frame is given to a page and filled: the frame with `is_new`, or nothing when the swap
file could not be read, which leaves the frame unused. -/
def load (frame : Fin frames) (page_id : UInt64) : Option (Fin frames × Bool) × PagePool σ pageSize frames :=
  let m : PageMeta := { pageId := page_id, pinCount := 0, dirty := false, refBit := true, inUse := true }
  let pool := { pool with pages := Function.update pool.pages frame m }
  match pool.readPageFromSwap io frame page_id with
  | some pool => (some (frame,(pool.swapped page_id).isNone),pool)
  | none => (none,{ pool with pages := Function.update pool.pages frame { m with inUse := false } })

def nextHand (hand : Fin frames) : Fin frames := ⟨(hand.val + 1) % frames,Nat.mod_lt _ hand.pos⟩

/-- The eviction loop of `allocate_frame_for_page`, with so many passes to go. -/
def evict (io : SwapCalls σ) (page_id : UInt64) :
    Nat → PagePool σ pageSize frames → Option (Fin frames × Bool) × PagePool σ pageSize frames
  | 0, pool => (none,pool)
  | passes + 1, pool =>
    let idx := pool.clockHand
    let m := pool.pages idx
    let pool := { pool with clockHand := nextHand idx }
    if !m.inUse || m.pinCount != 0 then evict io page_id passes pool
    else if m.refBit then
      evict io page_id passes { pool with pages := Function.update pool.pages idx { m with refBit := false } }
    else
      match (if m.dirty then pool.flushFrameLocked io idx else (true,pool)) with
      | (false,pool) => evict io page_id passes pool
      | (true,pool) =>
        load io { pool with pageIndex := Function.update pool.pageIndex m.pageId none } idx page_id

/-- `allocate_frame_for_page`: a frame and `is_new`, or nothing. -/
def allocateFrameForPage (page_id : UInt64) : Option (Fin frames × Bool) × PagePool σ pageSize frames :=
  match (List.finRange frames).find? (fun i => !(pool.pages i).inUse) with
  | some i => load io pool i page_id
  | none => evict io page_id (2 * frames) pool

/-- `palloc_fetch_page`: the frame whose pointer is returned and `is_new`. The counter of pins
is an unsigned 32-bit number. -/
def fetchPage (page_id : UInt64) (for_write : Bool) : Option (Fin frames × Bool) × PagePool σ pageSize frames :=
  match pool.pageIndex page_id with
  | some frame =>
    let m := pool.pages frame
    (some (frame,false),{ pool with
      pages := Function.update pool.pages frame { m with pinCount := m.pinCount + 1, refBit := true } })
  | none =>
    match pool.allocateFrameForPage io page_id with
    | (none,pool) => (none,pool)
    | (some (frame,is_new),pool) =>
      let m := pool.pages frame
      (some (frame,is_new),{ pool with
        pageIndex := Function.update pool.pageIndex page_id (some frame)
        pages := Function.update pool.pages frame
          { m with pinCount := 1, refBit := true, dirty := m.dirty || for_write }
        dirtyPages := if for_write then pool.dirtyPages + 1 else pool.dirtyPages })

def unpinPage (page_id : UInt64) (mark_dirty : Bool) : PagePool σ pageSize frames :=
  match pool.pageIndex page_id with
  | none => pool
  | some frame =>
    let m := pool.pages frame
    { pool with
      pages := Function.update pool.pages frame { m with
        pinCount := if m.pinCount > 0 then m.pinCount - 1 else m.pinCount
        dirty := m.dirty || mark_dirty }
      dirtyPages := if mark_dirty && !m.dirty then pool.dirtyPages + 1 else pool.dirtyPages }

/-- `palloc_flush_page`, with whether it succeeded. -/
def flushPage (page_id : UInt64) : Bool × PagePool σ pageSize frames :=
  match pool.pageIndex page_id with
  | none => (true,pool)
  | some frame => pool.flushFrameLocked io frame

def dirtyFrames (pages : Fin frames → PageMeta) : Finset (Fin frames) :=
  Finset.univ.filter fun i => (pages i).dirty = true

end PagePool
end PomaiCache
