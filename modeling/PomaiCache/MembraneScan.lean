import Mathlib
import PomaiCache.Options
import PomaiCache.Spatial
import PomaiCache.Text
import PomaiCache.TimeSeries

/-!
Scans over the records of a membrane. The contents of a container come in the order in which it
is walked, which is up to its hashes.
-/
namespace PomaiCache
open Codec Options Text List

/-- `std::sort` by a key. Elements with one key may come in any order. -/
structure StdSort where
  sort : {α κ : Type} → [LinearOrder κ] → (α → κ) → List α → List α
  perm : ∀ {α κ : Type} [LinearOrder κ] (key : α → κ) (items : List α), (sort key items).Perm items
  sorted : ∀ {α κ : Type} [LinearOrder κ] (key : α → κ) (items : List α), (sort key items).Pairwise fun a b => key a ≤ key b

namespace StdSort

def insertion : StdSort where
  sort key items := items.insertionSort fun a b => key a ≤ key b
  perm key items := perm_insertionSort _ items
  sorted key items := by
    have total : Std.Total fun a b => key a ≤ key b := ⟨fun a b => le_total (key a) (key b)⟩
    have trans_ : IsTrans _ fun a b => key a ≤ key b := ⟨fun _ _ _ first second => le_trans first second⟩
    exact pairwise_insertionSort _ items

variable (std : StdSort) {α κ : Type} [LinearOrder κ] {key : α → κ}

/-- A sort that takes the element at a place first, in lists of one length. -/
def taking (length place : Nat) : StdSort where
  sort key items := insertion.sort key
    (if inside : items.length = length ∧ place < items.length then items[place] :: items.eraseIdx place else items)
  perm key items := by
    refine (insertion.perm key _).trans ?_
    split
    · next inside => exact getElem_cons_eraseIdx_perm inside.2
    · exact .refl _
  sorted key items := insertion.sorted key _

lemma find?_insertion (key : α → κ) (a : α) (items : List α) :
    (insertion.sort key (a :: items)).find? (fun b => key b = key a) = some a := by
  show ((items.insertionSort fun a b => key a ≤ key b).orderedInsert (fun a b => key a ≤ key b) a).find? _ = _
  induction items.insertionSort fun a b => key a ≤ key b with
  | nil => simp
  | cons b rest ih =>
    rw [orderedInsert]
    split
    · simp
    · next later => rw [List.find?_cons_of_neg (by simpa using (not_le.mp later).ne),ih]

/-- The first elements are the least ones, and what has the key of one of them is the same. -/
def Least (key : α → κ) (items : List α) (n : Nat) : Prop :=
  items.length ≤ n ∨ ∀ a ∈ items.take n, (∀ b ∈ items.drop n, key a ≤ key b) ∧ ∀ b ∈ items, key a = key b → a = b

omit [LinearOrder κ] in
lemma eq_of_keys {xs ys : List α} (same : xs.map key = ys.map key) (apart : ∀ a ∈ xs, ∀ b ∈ ys, key a = key b → a = b) : xs = ys := by
  induction xs generalizing ys with
  | nil => exact (map_eq_nil_iff.mp same.symm).symm
  | cons x xs ih =>
    cases ys with
    | nil => cases same
    | cons y ys =>
      rw [map_cons,map_cons,List.cons.injEq] at same
      rw [apart x (.head _) y (.head _) same.1,ih same.2 fun a first b second => apart a (.tail _ first) b (.tail _ second)]

lemma sort_take {items : List α} {n : Nat} (least : Least key items n) : std.sort key (items.take n) = (std.sort key items).take n := by
  by_cases short : items.length ≤ n
  · rw [take_of_length_le short,take_of_length_le ((std.perm key items).length_eq.trans_le short)]
  replace least := least.resolve_left short
  have joined : (std.sort key (items.take n) ++ std.sort key (items.drop n)).Perm (std.sort key items) := by
    have both := (std.perm key (items.take n)).append (std.perm key (items.drop n))
    rw [take_append_drop] at both
    exact both.trans (std.perm key items).symm
  have ordered : (std.sort key (items.take n) ++ std.sort key (items.drop n)).Pairwise fun a b => key a ≤ key b := by
    refine pairwise_append.mpr ⟨std.sorted key _,std.sorted key _,?_⟩
    intro a front b back
    exact (least a ((std.perm key _).mem_iff.mp front)).1 b ((std.perm key _).mem_iff.mp back)
  have keys : (std.sort key (items.take n) ++ std.sort key (items.drop n)).map key = (std.sort key items).map key :=
    (joined.map key).eq_of_pairwise (fun _ _ _ _ => le_antisymm) (pairwise_map.mpr ordered) (pairwise_map.mpr (std.sorted key items))
  refine @eq_of_keys _ _ key _ _ ?_ fun a front b back same => ?_
  · have length : ((std.sort key (items.take n)).map key).length = n := by
      rw [length_map,(std.perm key _).length_eq,length_take]
      omega
    rw [map_take,← keys,map_append]
    exact (take_left' length).symm
  · exact (least a ((std.perm key _).mem_iff.mp front)).2 b ((std.perm key _).mem_iff.mp (mem_of_mem_take back)) same

/-- Every sort of the first elements is the beginning of the sort of all exactly if they are the least ones. -/
lemma sort_take_iff (items : List α) (n : Nat) :
    (∀ std : StdSort, std.sort key (items.take n) = (std.sort key items).take n) ↔ Least key items n := by
  refine ⟨fun same => ?_,fun least std => std.sort_take least⟩
  by_cases short : items.length ≤ n
  · exact .inl short
  refine .inr fun a front => ⟨fun b back => ?_,fun b inside equal => ?_⟩
  · have whole : ((insertion.sort key items).take n ++ (insertion.sort key items).drop n).Pairwise fun a b => key a ≤ key b := by
      rw [take_append_drop]
      exact insertion.sorted key items
    have parts : ((insertion.sort key items).take n ++ (insertion.sort key items).drop n).Perm (items.take n ++ items.drop n) := by
      rw [take_append_drop,take_append_drop]
      exact insertion.perm key items
    have first : ((insertion.sort key items).take n).Perm (items.take n) := by
      rw [← same insertion]
      exact insertion.perm key _
    have rest : ((insertion.sort key items).drop n).Perm (items.drop n) :=
      (perm_append_left_iff _).mp (parts.trans (first.symm.append_right _))
    exact (pairwise_append.mp whole).2.2 a (first.mem_iff.mpr front) b (rest.mem_iff.mpr back)
  · -- the first element with the key, in the order of the limited sort, is whichever the full sort takes first
    have found (c : α) (member : c ∈ items) (keyed : key c = key a) :
        (insertion.sort key (items.take n)).find? (fun b => key b = key a) = some c := by
      obtain ⟨place,inside,rfl⟩ := getElem_of_mem member
      have taken := same (taking items.length place)
      have other : (items.take n).length ≠ items.length := by
        rw [length_take]
        omega
      simp only [taking,other,false_and,dite_false,inside,and_self,dite_true] at taken
      have there := (insertion.perm key _).mem_iff.mpr front
      rw [taken] at there ⊢
      have first := find?_insertion key items[place] (items.eraseIdx place)
      rw [keyed,← take_append_drop n (insertion.sort key _),find?_append] at first
      obtain ⟨x,found⟩ := Option.isSome_iff_exists.mp (find?_isSome.mpr ⟨a,there,by simp⟩ :
        (((insertion.sort key (items[place] :: items.eraseIdx place)).take n).find? fun b => key b = key a).isSome)
      rw [found,Option.some_or] at first
      rw [found,first]
    have left := found a (mem_of_mem_take front) rfl
    rw [found b inside equal.symm] at left
    exact (Option.some.inj left).symm

end StdSort

structure MembraneScanOptions where
  max_records : UInt64 := 1000000
  max_materialized_keys : UInt64 := 5000000
  deadline_ms : UInt32 := 0
  max_field_bytes : Nat := 4 * 1024 * 1024

/-- A row of a scan. Rows of these kinds have no vector. -/
structure MembraneRecord where
  kind : MembraneKind
  id : UInt64 := 0
  key : Bytes := []
  value : Bytes := []
  deriving DecidableEq, Repr

def truncateField (s : Bytes) (max_bytes : Nat) : Bytes :=
  if max_bytes = 0 ∨ s.length ≤ max_bytes then s else s.take max_bytes ++ ascii "..."

def previewText (t : Bytes) (max_n : Nat) : Bytes :=
  (t.take max_n).map (fun c => if c = 10 ∨ c = 13 ∨ c = 9 then 32 else c) ++ if t.length > max_n then ascii "..." else []

/-- The kinds whose rows are an id and a count. -/
inductive CountedKind
  | kMesh | kSparse | kBitset | kGraph
  deriving DecidableEq, Repr

def CountedKind.kind : CountedKind → MembraneKind
  | .kMesh => MembraneKind.kMesh
  | .kSparse => MembraneKind.kSparse
  | .kBitset => MembraneKind.kBitset
  | .kGraph => MembraneKind.kGraph

def CountedKind.label : CountedKind → Bytes
  | .kMesh => ascii "base_xyz_floats="
  | .kSparse => ascii "nnz="
  | .kBitset => ascii "bytes="
  | .kGraph => ascii "out_degree="

structure RagExport where
  chunk_id : UInt64
  doc_id : UInt64
  text : Bytes
  tokens : Nat
  has_embedding : Bool

/-- What a membrane that is not a vector membrane holds, in the order of the walk through its
container. A key-value entry comes with what `Get` returns for its key. -/
inductive MembraneContents
  | rag (chunks : List RagExport)
  | keyValue (is_meta : Bool) (entries : List (Bytes × Option Bytes))
  | text (docs : List (UInt64 × Bytes))
  | sketch (counts : List (Bytes × UInt64))
  | timeSeries (ttl_sec : UInt32) (samples : List (UInt64 × TimeSeriesPoint))
  | blob (blobs : List (UInt64 × Nat))
  | spatial (points : List SpatialPoint)
  | counted (kind : CountedKind) (items : List (UInt64 × Nat))
  | other

/-- What the scan calls: sorting, hashes of keys, doubles as texts, the clock for expired
samples, and whether the deadline has passed at each check. -/
structure ScanLibrary where
  std : StdSort
  hashKey : Bytes → UInt64
  showDouble : UInt64 → Bytes
  now_ms : UInt64
  late : Nat → Bool

section
variable (lib : ScanLibrary) (opts : MembraneScanOptions)

/-- The row for a chunk id: of the chunks with it, the first counts. -/
def ragRow (chunks : List RagExport) (id : UInt64) : MembraneRecord :=
  match chunks.find? fun c => c.chunk_id = id with
  | none => {kind := .kRag}
  | some c =>
    { kind := .kRag
      id := id
      key := truncateField (ascii "doc_id=" ++ decimal c.doc_id.toNat) opts.max_field_bytes
      value := truncateField (ascii "tokens=" ++ (decimal c.tokens ++ (ascii " embedding=" ++
        ((if c.has_embedding then ascii "yes" else ascii "no") ++ (ascii " text=" ++ previewText c.text 480))))) opts.max_field_bytes }

def kvRow (is_meta : Bool) (entry : Bytes × Option Bytes) : MembraneRecord :=
  let kind := if is_meta then MembraneKind.kMeta else MembraneKind.kKeyValue
  match entry.2 with
  | none => {kind := kind, id := lib.hashKey entry.1, key := entry.1}
  | some value =>
    { kind := kind
      id := lib.hashKey entry.1
      key := truncateField entry.1 opts.max_field_bytes
      value := truncateField value opts.max_field_bytes }

def textRow (doc : UInt64 × Bytes) : MembraneRecord :=
  {kind := .kText, id := doc.1, value := truncateField (previewText doc.2 480) opts.max_field_bytes}

def sketchRow (count : Bytes × UInt64) : MembraneRecord :=
  { kind := .kSketch
    id := lib.hashKey count.1
    key := truncateField count.1 opts.max_field_bytes
    value := truncateField (ascii "count=" ++ decimal count.2.toNat) opts.max_field_bytes }

def timeSeriesRow (sample : UInt64 × TimeSeriesPoint) : MembraneRecord :=
  { kind := .kTimeSeries
    id := sample.2.timestamp
    key := truncateField (ascii "series_id=" ++ decimal sample.1.toNat) opts.max_field_bytes
    value := truncateField (ascii "ts=" ++ (decimal sample.2.timestamp.toNat ++ (ascii " value=" ++ lib.showDouble sample.2.value)))
      opts.max_field_bytes }

def timeSeriesSampleExpired (ttl_sec : UInt32) (sample_ts : UInt64) : Bool :=
  if ttl_sec = 0 || sample_ts = 0 then false
  else decide (lib.now_ms ≥ sample_ts) && decide (lib.now_ms - sample_ts ≥ ttl_sec.toUInt64 * 1000)

def shownSamples (ttl_sec : UInt32) (samples : List (UInt64 × TimeSeriesPoint)) : List (UInt64 × TimeSeriesPoint) :=
  samples.filter fun s => !timeSeriesSampleExpired lib ttl_sec s.2.timestamp

def blobRow (blob : UInt64 × Nat) : MembraneRecord :=
  {kind := .kBlob, id := blob.1, value := ascii "bytes=" ++ decimal blob.2}

def spatialRow (p : SpatialPoint) : MembraneRecord :=
  { kind := .kSpatial
    id := p.id
    value := truncateField (ascii "lat=" ++ (lib.showDouble p.latitude ++ (ascii " lon=" ++ lib.showDouble p.longitude)))
      opts.max_field_bytes }

def countedRow (kind : CountedKind) (item : UInt64 × Nat) : MembraneRecord :=
  {kind := kind.kind, id := item.1, value := kind.label ++ decimal item.2}

structure ScanRows where
  rows : List MembraneRecord
  truncated : Bool
  deriving DecidableEq, Repr

def scanDeadlineExceeded (i : Nat) : Bool := decide (opts.deadline_ms ≠ 0) && lib.late i

def gather {α : Type} (what : String) (items : List α) : Except Status (List α) :=
  if (List.range (items.length + 1)).any (scanDeadlineExceeded lib opts) then .error (.aborted "membrane scan deadline exceeded")
  else if opts.max_materialized_keys > 0 ∧ items.length > opts.max_materialized_keys.toNat then
    .error (.resourceExhausted ("membrane scan " ++ what ++ " materialization cap exceeded"))
  else .ok items

def cutSorted {α : Type} (row : α → MembraneRecord) (sorted : List α) : ScanRows :=
  let truncated := decide (opts.max_records > 0) && decide (sorted.length > opts.max_records.toNat)
  ⟨(if truncated then sorted.take opts.max_records.toNat else sorted).map row,truncated⟩

/-- The loop that makes rows until the limit, and the sort behind it. A row that comes when
the deadline has passed is left out, and the check behind the loop then fails. -/
def cutThenSort {α κ : Type} [LinearOrder κ] (row : α → MembraneRecord) (key : MembraneRecord → κ) (items : List α) :
    Except Status ScanRows :=
  let done := items.zipIdx.foldl (fun (done : ScanRows) item =>
    if scanDeadlineExceeded lib opts item.2 then done
    else if opts.max_records > 0 ∧ done.rows.length ≥ opts.max_records.toNat then {done with truncated := true}
    else {done with rows := done.rows ++ [row item.1]}) ⟨[],false⟩
  if scanDeadlineExceeded lib opts items.length then .error (.aborted "membrane scan deadline exceeded")
  else .ok {done with rows := lib.std.sort key done.rows}

def stringKey (s : Bytes) : List Nat := s.map UInt8.toNat

def idKey (r : MembraneRecord) : Nat := r.id.toNat

def seriesKey (r : MembraneRecord) : Lex (List Nat × Nat) := toLex (stringKey r.key,r.id.toNat)

/-- `NewMembraneRecordIterator` on a membrane of another kind than vector. -/
def newMembraneRecordIterator : MembraneContents → Except Status ScanRows
  | .rag chunks => (gather lib opts "chunk id" (chunks.map RagExport.chunk_id)).map fun ids =>
      cutSorted opts (ragRow opts chunks) (lib.std.sort UInt64.toNat ids).eraseReps
  | .keyValue is_meta entries => (gather lib opts "key" entries).map fun entries =>
      cutSorted opts (kvRow lib opts is_meta) (lib.std.sort (fun e => stringKey e.1) entries)
  | .text docs => (gather lib opts "doc id" docs).map fun docs =>
      cutSorted opts (textRow opts) (lib.std.sort (fun d => d.1.toNat) docs)
  | .sketch counts => (gather lib opts "key" counts).bind fun counts =>
      let done := cutSorted opts (sketchRow lib opts) (lib.std.sort (fun c => stringKey c.1) counts)
      -- the clock is read again for each row
      if (List.range done.rows.length).any fun i => scanDeadlineExceeded lib opts (counts.length + 1 + i) then
        .error (.aborted "membrane scan deadline exceeded")
      else .ok done
  | .timeSeries ttl_sec samples =>
      cutThenSort lib opts (timeSeriesRow lib opts) seriesKey (shownSamples lib ttl_sec samples)
  | .blob blobs => (gather lib opts "id" blobs).map fun blobs =>
      cutSorted opts blobRow (lib.std.sort (fun b => b.1.toNat) blobs)
  | .spatial points => cutThenSort lib opts (spatialRow lib opts) idKey points
  | .counted kind items => cutThenSort lib opts (countedRow kind) idKey items
  | .other => .ok ⟨[],false⟩

def MembraneScanOptions.limited (opts : MembraneScanOptions) (n : UInt64) : MembraneScanOptions := {opts with max_records := n}

/-- A limited scan shows the first rows of the full one, and says whether it left any out. -/
def PrefixOf (n : Nat) (limited full : ScanRows) : Prop :=
  limited.rows = full.rows.take n ∧ (limited.truncated = true ↔ full.rows.length > n)

variable {lib} {opts}

lemma scanDeadlineExceeded_never (untimed : opts.deadline_ms = 0) (n : UInt64) :
    scanDeadlineExceeded lib (opts.limited n) = fun _ => false := by
  funext i
  simp [scanDeadlineExceeded,MembraneScanOptions.limited,untimed]

lemma gather_ok {α : Type} (untimed : opts.deadline_ms = 0) (uncapped : opts.max_materialized_keys = 0) (what : String)
    (items : List α) (n : UInt64) : gather lib (opts.limited n) what items = .ok items := by
  have free : ¬ ((opts.limited n).max_materialized_keys > 0 ∧ items.length > (opts.limited n).max_materialized_keys.toNat) := by
    simp [MembraneScanOptions.limited,uncapped]
  rw [gather,scanDeadlineExceeded_never untimed,if_neg (by simp),if_neg free]

lemma cutSorted_taken {α : Type} (row : α → MembraneRecord) (sorted : List α) {n : UInt64} (positive : n > 0) :
    PrefixOf n.toNat (cutSorted (opts.limited n) row sorted) (cutSorted (opts.limited 0) row sorted) := by
  grind [PrefixOf,cutSorted,MembraneScanOptions.limited,map_take,take_of_length_le]

lemma gathered_taken {α β : Type} (untimed : opts.deadline_ms = 0) (uncapped : opts.max_materialized_keys = 0) (what : String)
    (items : List α) (row : β → MembraneRecord) (sort : List α → List β) {n : UInt64} (positive : n > 0) :
    ∃ full limited,
      ((gather lib (opts.limited 0) what items).map fun items => cutSorted (opts.limited 0) row (sort items)) = .ok full ∧
      ((gather lib (opts.limited n) what items).map fun items => cutSorted (opts.limited n) row (sort items)) = .ok limited ∧
      PrefixOf n.toNat limited full := by
  rw [gather_ok untimed uncapped,gather_ok untimed uncapped]
  exact ⟨_,_,rfl,rfl,cutSorted_taken row (sort items) positive⟩

lemma foldl_rows {α : Type} (row : α → MembraneRecord) (limit : UInt64) (items : List α) (k : Nat) (done : ScanRows)
    (room : limit > 0 → done.rows.length ≤ limit.toNat) : (items.zipIdx k).foldl (fun (done : ScanRows) item =>
      if limit > 0 ∧ done.rows.length ≥ limit.toNat then {done with truncated := true}
      else {done with rows := done.rows ++ [row item.1]}) done =
      ⟨if limit > 0 then (done.rows ++ items.map row).take limit.toNat else done.rows ++ items.map row,
        done.truncated || decide (limit > 0) && decide (done.rows.length + items.length > limit.toNat)⟩ := by
  induction items generalizing k done with
  | nil =>
    by_cases some_ : limit > 0
    · have all : done.rows.take limit.toNat = done.rows := take_of_length_le (room some_)
      have fits : ¬ limit.toNat < done.rows.length := Nat.not_lt.mpr (room some_)
      simp [some_,all,fits]
    · simp [some_]
  | cons item rest ih =>
    rw [zipIdx_cons,foldl_cons]
    by_cases some_ : limit > 0
    · by_cases full : done.rows.length ≥ limit.toNat
      · rw [if_pos ⟨some_,full⟩,ih (k + 1) {done with truncated := true} room]
        have cut : ∀ more, (done.rows ++ more).take limit.toNat = done.rows.take limit.toNat :=
          fun more => take_append_of_le_length full
        have over_ : limit.toNat < done.rows.length + (rest.length + 1) := by omega
        simp [some_,cut,over_]
      · rw [if_neg fun both => full both.2,ih]
        · simp [some_,Nat.add_assoc,Nat.add_comm 1]
        · grind
    · grind

lemma cutThenSort_eq {α κ : Type} [LinearOrder κ] (untimed : opts.deadline_ms = 0) (row : α → MembraneRecord)
    (key : MembraneRecord → κ) (items : List α) (n : UInt64) : cutThenSort lib (opts.limited n) row key items =
      .ok ⟨lib.std.sort key (if n > 0 then (items.map row).take n.toNat else items.map row),
        decide (n > 0) && decide (items.length > n.toNat)⟩ := by
  have made := foldl_rows row n items 0 ⟨[],false⟩ (by simp)
  simp [cutThenSort,scanDeadlineExceeded_never untimed,show (opts.limited n).max_records = n from rfl,made]

lemma cutThenSort_prefix_iff {α κ : Type} [LinearOrder κ] (lib : ScanLibrary) (untimed : opts.deadline_ms = 0) (row : α → MembraneRecord)
    (key : MembraneRecord → κ) (items : List α) {n : UInt64} (positive : n > 0) :
    (∀ std, ∃ full limited, cutThenSort {lib with std} (opts.limited 0) row key items = .ok full ∧
      cutThenSort {lib with std} (opts.limited n) row key items = .ok limited ∧ PrefixOf n.toNat limited full) ↔
      StdSort.Least key (items.map row) n.toNat := by
  rw [← StdSort.sort_take_iff]
  refine forall_congr' fun std => ?_
  have length : (std.sort key (items.map row)).length = items.length := by
    rw [(std.perm key _).length_eq,length_map]
  simp [cutThenSort_eq untimed,PrefixOf,positive,length]

namespace MembraneContents
variable (lib) (opts)

/-- For the kinds that stop at the limit: the walk comes to the smallest keys first, and rows that the sort
does not tell apart are the same. -/
def LeastFirst (n : Nat) : MembraneContents → Prop
  | .timeSeries ttl_sec samples => StdSort.Least seriesKey ((shownSamples lib ttl_sec samples).map (timeSeriesRow lib opts)) n
  | .spatial points => StdSort.Least idKey (points.map (spatialRow lib opts)) n
  | .counted kind items => StdSort.Least idKey (items.map (countedRow kind)) n
  | _ => True

end MembraneContents

/-- Whatever `std::sort` does with equal keys, a limited scan is the beginning of the full one exactly if its kind
sorts before it cuts or the walk comes to the least rows first. -/
theorem limited_scan_iff (lib : ScanLibrary) (opts : MembraneScanOptions) (untimed : opts.deadline_ms = 0)
    (uncapped : opts.max_materialized_keys = 0) (contents : MembraneContents) (n : UInt64) (positive : n > 0) :
    (∀ std, ∃ full limited, newMembraneRecordIterator {lib with std} (opts.limited 0) contents = .ok full ∧
      newMembraneRecordIterator {lib with std} (opts.limited n) contents = .ok limited ∧ PrefixOf n.toNat limited full) ↔
      contents.LeastFirst lib opts n.toNat := by
  cases contents with
  | rag chunks => exact iff_of_true (fun _ => gathered_taken untimed uncapped _ _ _ _ positive) trivial
  | keyValue is_meta entries => exact iff_of_true (fun _ => gathered_taken untimed uncapped _ _ _ _ positive) trivial
  | text docs => exact iff_of_true (fun _ => gathered_taken untimed uncapped _ _ _ _ positive) trivial
  | sketch counts =>
    have never : ∀ rows : List MembraneRecord, ((List.range rows.length).any fun _ => false) = false := by simp
    simp only [newMembraneRecordIterator,gather_ok untimed uncapped,Except.bind,scanDeadlineExceeded_never untimed,never,
      Bool.false_eq_true,if_false,MembraneContents.LeastFirst,iff_true]
    exact fun _ => ⟨_,_,rfl,rfl,cutSorted_taken _ _ positive⟩
  | timeSeries ttl_sec samples => exact cutThenSort_prefix_iff lib untimed (timeSeriesRow lib opts) seriesKey (shownSamples lib ttl_sec samples) positive
  | blob blobs => exact iff_of_true (fun _ => gathered_taken untimed uncapped _ _ _ _ positive) trivial
  | spatial points => exact cutThenSort_prefix_iff lib untimed (spatialRow lib opts) idKey _ positive
  | counted kind items => exact cutThenSort_prefix_iff lib untimed (countedRow kind) idKey _ positive
  | other =>
    simp [newMembraneRecordIterator,MembraneContents.LeastFirst,PrefixOf]

end

def plainScan : ScanLibrary where
  std := .insertion
  hashKey _ := 0
  showDouble bits := decimal bits.toNat
  now_ms := 0
  late _ := false

def unlimitedScan : MembraneScanOptions := {max_records := 0, max_materialized_keys := 0}

theorem limited_scan_two_vertices : (1 : UInt64) > 0 ∧ ∀ std, ∃ full limited,
    newMembraneRecordIterator {plainScan with std} (unlimitedScan.limited 0) (.counted .kGraph [(1,0),(2,3)]) = .ok full ∧
    newMembraneRecordIterator {plainScan with std} (unlimitedScan.limited 1) (.counted .kGraph [(1,0),(2,3)]) = .ok limited ∧
    PrefixOf 1 limited full := by
  refine ⟨by decide,(limited_scan_iff plainScan unlimitedScan rfl rfl (.counted .kGraph [(1,0),(2,3)]) 1 (by decide)).mpr (.inr ?_)⟩
  decide

/-- The walk comes to vertex 2 first: the limited scan shows it, and the full scan begins with 1. -/
theorem limited_scan_other_vertex :
    (newMembraneRecordIterator plainScan (unlimitedScan.limited 0) (.counted .kGraph [(2,3),(1,0)])).map ScanRows.rows =
      .ok [⟨.kGraph,1,[],ascii "out_degree=0"⟩,⟨.kGraph,2,[],ascii "out_degree=3"⟩] ∧
    newMembraneRecordIterator plainScan (unlimitedScan.limited 1) (.counted .kGraph [(2,3),(1,0)]) =
      .ok ⟨[⟨.kGraph,2,[],ascii "out_degree=3"⟩],true⟩ := by
  refine ⟨by decide +kernel,by decide +kernel⟩

end PomaiCache
