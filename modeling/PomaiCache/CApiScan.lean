import PomaiCache.CApi
import PomaiCache.IteratorReads

/-!
Scans of the C interface. A start id is reached by moving the iterator on until it stands on an
id that is not smaller.
-/
namespace PomaiCache
open List

lemma dropWhile_eq_filter_iff {α : Type} (p : α → Bool) (items : List α) :
    items.dropWhile (fun a => !p a) = items.filter p ↔ items.Pairwise fun a b => p a = true → p b = true := by
  induction items with
  | nil => simp
  | cons a rest ih =>
    by_cases passes : p a = true
    · simp only [dropWhile_cons,passes,filter_cons,pairwise_cons]
      constructor
      · intro same
        have all : ∀ b ∈ rest, p b = true := filter_eq_self.mp (List.cons.inj same).2.symm
        refine ⟨fun b member _ => all b member,?_⟩
        exact List.Pairwise.imp_of_mem (fun _ inside _ _ => all _ inside) (pairwise_of_forall fun _ _ => trivial)
      · rintro ⟨later,_⟩
        have all : rest.filter p = rest := filter_eq_self.mpr fun b member => later b member trivial
        simp [all]
    · simp only [dropWhile_cons,passes,filter_cons,pairwise_cons]
      simpa using ih

structure ScanOptions where
  struct_size : UInt32 := 24
  start_id : VectorId := 0
  has_start_id : Bool := false
  deadline_ms : UInt32 := 0

def minScanOptionsStructSize : UInt32 := 17

def deadlineExceeded (deadline_ms : UInt32) (now_ms : Nat) : Bool :=
  if deadline_ms = 0 then false else now_ms ≥ deadline_ms.toNat

namespace VectorIterator
variable (snap : IteratorSnapshot)

lemma next_shrinks {it : VectorIterator} (valid : it.valid = true) :
    ((it.next snap).pending snap).length < (it.pending snap).length := by
  have some_ : it.pending snap ≠ [] := (valid_iff_pending snap it).mp valid
  rw [next_pending,length_tail]
  exact Nat.sub_lt (length_pos_iff.mpr some_) Nat.one_pos

/-- `while (iter->Valid() && iter->id() < start_id) iter->Next()`. -/
def skipTo (start_id : VectorId) (it : VectorIterator) : VectorIterator :=
  if _valid : it.valid = true then
    if it.current_id < start_id then skipTo start_id (it.next snap) else it
  else it
termination_by (it.pending snap).length
decreasing_by exact next_shrinks snap _valid

/-- The records a caller reads with `pomai_iter_get_record` and `pomai_iter_next` until the
iterator is no longer valid. -/
def iterate (it : VectorIterator) : List (VectorId × Vec) :=
  if _valid : it.valid = true then (it.current_id,it.current_vec) :: iterate (it.next snap) else []
termination_by (it.pending snap).length
decreasing_by exact next_shrinks snap _valid

lemma iterate_eq (it : VectorIterator) : it.iterate snap = it.pending snap := by
  induction it using iterate.induct snap with
  | case1 it valid ih =>
    rw [iterate,dif_pos valid,ih,next_pending,pending,if_pos valid]
    rfl
  | case2 it ended => rw [iterate,dif_neg ended,pending,if_neg ended]

lemma skipTo_pending (start_id : VectorId) (it : VectorIterator) :
    (it.skipTo snap start_id).pending snap = (it.pending snap).dropWhile fun r => !decide (start_id ≤ r.1) := by
  induction it using skipTo.induct snap start_id with
  | case1 it valid small ih =>
    have below : ¬ start_id ≤ it.current_id := by simpa using small
    rw [skipTo,dif_pos valid,if_pos small,ih,next_pending,pending,if_pos valid,tail_cons,dropWhile_cons]
    simp [below]
  | case2 it valid reached =>
    have above : start_id ≤ it.current_id := by simpa using reached
    rw [skipTo,dif_pos valid,if_neg reached,pending,if_pos valid,dropWhile_cons]
    simp [above]
  | case3 it ended =>
    rw [skipTo,dif_neg ended,pending,if_neg ended]
    rfl

end VectorIterator

/-- `pomai_scan` on a snapshot of a store with this expiry. The iterator reads the clock as
`now_sec`; the deadline is compared with the clock before and after the start is looked for. -/
def pomaiScan (snap : IteratorSnapshot) (ttl_sec : UInt32) (now_sec : UInt64) (opts : Option ScanOptions)
    (before after : Nat) : Except CStatus VectorIterator :=
  let iter := VectorIterator.create snap ttl_sec now_sec
  match opts with
  | none => .ok iter
  | some opts =>
    if opts.struct_size < minScanOptionsStructSize then
      .error ⟨.POMAI_STATUS_INVALID_ARGUMENT,"scan_options.struct_size is too small"⟩
    else if deadlineExceeded opts.deadline_ms before then
      .error ⟨.POMAI_STATUS_DEADLINE_EXCEEDED,"deadline exceeded before scan"⟩
    else
      let iter := if opts.has_start_id then iter.skipTo snap opts.start_id else iter
      if deadlineExceeded opts.deadline_ms after then
        .error ⟨.POMAI_STATUS_DEADLINE_EXCEEDED,"deadline exceeded during scan initialization"⟩
      else .ok iter

lemma pomaiScan_some (snap : IteratorSnapshot) (ttl_sec : UInt32) (now_sec : UInt64) (opts : ScanOptions)
    (before after : Nat) (it : VectorIterator) : pomaiScan snap ttl_sec now_sec (some opts) before after = .ok it ↔
      (minScanOptionsStructSize ≤ opts.struct_size ∧ deadlineExceeded opts.deadline_ms before = false ∧
        deadlineExceeded opts.deadline_ms after = false) ∧
      it = if opts.has_start_id then (VectorIterator.create snap ttl_sec now_sec).skipTo snap opts.start_id
        else VectorIterator.create snap ttl_sec now_sec := by
  rw [pomaiScan]
  grind

/-- A scan from an id on yields the records of the whole scan with at least that id exactly if
the whole scan has no smaller id behind one of those. -/
theorem scan_from_iff (snap : IteratorSnapshot) (ttl_sec : UInt32) (now_sec : UInt64) (opts : ScanOptions)
    (before after : Nat) (whole it : VectorIterator) (starts : opts.has_start_id = true)
    (unrestricted : pomaiScan snap ttl_sec now_sec none before after = .ok whole)
    (scanned : pomaiScan snap ttl_sec now_sec (some opts) before after = .ok it) :
    it.iterate snap = (whole.iterate snap).filter (fun r => decide (opts.start_id ≤ r.1)) ↔
      (whole.iterate snap).Pairwise fun a b => opts.start_id ≤ a.1 → opts.start_id ≤ b.1 := by
  obtain rfl : VectorIterator.create snap ttl_sec now_sec = whole := Except.ok.inj unrestricted
  obtain ⟨_,rfl⟩ := (pomaiScan_some ..).mp scanned
  rw [if_pos starts,VectorIterator.iterate_eq,VectorIterator.iterate_eq,VectorIterator.skipTo_pending]
  simpa using dropWhile_eq_filter_iff (fun r : VectorId × Vec => decide (opts.start_id ≤ r.1)) _

def frozenInTurn (ids : List VectorId) : IteratorSnapshot :=
  ⟨(ids.foldl (fun rt id => ((rt.put [] id [7] {}).1.freeze (replicate 20 0)).1) VectorRuntime.openedStore).current_snapshot,
    none⟩

theorem scan_from_three : ∃ it, pomaiScan (frozenInTurn [5,1]) 0 0 (some {start_id := 3, has_start_id := true}) 0 0 = .ok it ∧
    it.iterate (frozenInTurn [5,1]) = [(5,[7])] := by
  have all : (VectorIterator.create (frozenInTurn [5,1]) 0 0).iterate (frozenInTurn [5,1]) = [(1,[7]),(5,[7])] := by
    decide +kernel
  refine ⟨_,rfl,?_⟩
  refine ((scan_from_iff (frozenInTurn [5,1]) 0 0 {start_id := 3, has_start_id := true} 0 0 _ _ rfl rfl rfl).mpr ?_).trans ?_
  · rw [all]
    decide
  · rw [all]
    decide

/-- It shows 5 and then 1, and from 3 on it shows the same. -/
theorem scan_from_shows_smaller : ∃ whole it, pomaiScan (frozenInTurn [1,5]) 0 0 none 0 0 = .ok whole ∧
    pomaiScan (frozenInTurn [1,5]) 0 0 (some {start_id := 3, has_start_id := true}) 0 0 = .ok it ∧
    whole.iterate (frozenInTurn [1,5]) = [(5,[7]),(1,[7])] ∧ it.iterate (frozenInTurn [1,5]) = [(5,[7]),(1,[7])] := by
  refine ⟨_,_,rfl,rfl,by decide +kernel,by decide +kernel⟩

end PomaiCache
