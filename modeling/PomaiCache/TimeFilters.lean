import PomaiCache.Search

/-!
Filters on the timestamp. A bound of zero means that there is none, but the ranges of the
indices take it for a bound: an upper bound of zero selects nothing, and the loops run past the
end of the index if there is a time between the bounds in the wrong order.
-/
namespace PomaiCache
open Text FlatHashMemMap List

section
variable {α : Type} {time : α → UInt64} {items : List α}

lemma takeWhile_sorted (sorted : items.Pairwise fun a b => time a ≤ time b) (last : UInt64) :
    items.takeWhile (fun a => time a ≤ last) = items.filter fun a => time a ≤ last := by
  induction items with
  | nil => rfl
  | cons a rest ih =>
    obtain ⟨first,later⟩ := pairwise_cons.mp sorted
    by_cases inside : time a ≤ last
    · simp [*]
    · have none_ : rest.filter (fun a => time a ≤ last) = [] := by
        refine filter_eq_nil_iff.mpr ?_
        grind
      simp [*]

lemma dropWhile_sorted (sorted : items.Pairwise fun a b => time a ≤ time b) (last : UInt64) :
    ∀ a ∈ items.dropWhile (fun a => time a ≤ last), last < time a := by
  induction items with
  | nil => simp
  | cons a rest ih =>
    obtain ⟨first,later⟩ := pairwise_cons.mp sorted
    grind [dropWhile_cons_of_pos,dropWhile_cons_of_neg]

/-- The range of a sorted index has the times between the bounds; it is not defined if a time is
between bounds in the wrong order. -/
lemma timeRange_sorted (sorted : items.Pairwise fun a b => time a ≤ time b) (first last : UInt64) :
    timeRange time items first last = if ∃ a ∈ items, last < time a ∧ time a < first then none
      else some (items.filter fun a => decide (first ≤ time a) && decide (time a ≤ last)) := by
  induction items with
  | nil => simp [timeRange]
  | cons a rest ih =>
    obtain ⟨least,later⟩ := pairwise_cons.mp sorted
    by_cases early : time a < first
    · by_cases inside : time a ≤ last
      · -- both bounds move on
        have step : timeRange time (a :: rest) first last = timeRange time rest first last := by
          simp only [timeRange,takeWhile_cons,early,inside,decide_true,if_true,length_cons,drop_succ_cons,
            Nat.add_le_add_iff_right,Nat.add_sub_add_right]
        have same : (∃ b ∈ a :: rest, last < time b ∧ time b < first) ↔ ∃ b ∈ rest, last < time b ∧ time b < first := by
          simp [not_lt.mpr inside]
        rw [step,ih later]
        simp only [same]
        rw [filter_cons_of_neg (by simp [not_le.mpr early])]
      · have outside : last < time a := not_le.mp inside
        rw [if_pos ⟨a,.head _,outside,early⟩]
        simp only [timeRange,takeWhile_cons,early,inside,decide_true,decide_false,if_true,Bool.false_eq_true,if_false,
          length_cons,length_nil,Nat.le_zero_eq,Nat.add_eq_zero_iff,Nat.one_ne_zero,and_false]
    · have late : ∀ b ∈ a :: rest, first ≤ time b := by
        grind
      rw [if_neg (by
        rintro ⟨b,member,_,before⟩
        exact absurd before (not_lt.mpr (late b member)))]
      have start : ((a :: rest).takeWhile fun a => time a < first) = [] := by
        rw [takeWhile_cons_of_neg (by simpa using early)]
      have cut := prefix_iff_eq_take.mp ( takeWhile_prefix (fun a => decide (time a ≤ last)) (l := a :: rest))
      rw [timeRange,start]
      simp only [length_nil,Nat.zero_le,if_true,drop_zero,Nat.sub_zero]
      rw [← cut,takeWhile_sorted sorted]
      congr 1
      refine filter_congr ?_
      intro b member
      simp [late b member]

end
/-- The index has the timestamps of the metadata, each once and in order. -/
structure Indexed (times : List (UInt64 × VectorId)) (metadata : VectorId → Option Metadata) : Prop where
  sorted : times.Pairwise fun a b => a.1 ≤ b.1
  distinct : times.Nodup
  has : ∀ ts id, (ts,id) ∈ times ↔ 0 < ts ∧ ∃ md, metadata id = some md ∧ md.timestamp = ts

lemma Indexed.drop {m : MemTable} (here : Indexed m.temporal_index m.metadata) (id : VectorId)
    {metadata : VectorId → Option Metadata} (others : ∀ other, other ≠ id → metadata other = m.metadata other)
    (untimed : ∀ md, metadata id = some md → md.timestamp = 0) : Indexed (m.dropTimestamp id).temporal_index metadata := by
  -- The pairs of other ids stay, and that of `id` goes.
  have kept : (m.dropTimestamp id).temporal_index.Sublist m.temporal_index ∧
      ∀ ts other, (ts,other) ∈ (m.dropTimestamp id).temporal_index ↔ (ts,other) ∈ m.temporal_index ∧ other ≠ id := by
    have alone : ∀ ts, (ts,id) ∈ m.temporal_index → ∃ old, m.metadata id = some old ∧ old.timestamp = ts ∧ 0 < ts := by
      intro ts member
      obtain ⟨timed,old,found,same⟩ := (here.has ts id).mp member
      exact ⟨old,found,same,timed⟩
    unfold MemTable.dropTimestamp
    split
    · rename_i old found
      split
      · refine ⟨erase_sublist,?_⟩
        intro ts other
        rw [here.distinct.mem_erase_iff]
        grind
      · grind
    · grind
  refine ⟨here.sorted.sublist kept.1,here.distinct.sublist kept.1,?_⟩
  intro ts other
  rw [kept.2,here.has]
  grind

lemma Indexed.insert {m : MemTable} {metadata : VectorId → Option Metadata} (here : Indexed m.temporal_index metadata)
    {id : VectorId} (absent : metadata id = none) {md : Metadata} (timed : 0 < md.timestamp) :
    Indexed (m.insertTimestamp md.timestamp id).temporal_index fun other => if other = id then some md else metadata other := by
  have perm : (m.insertTimestamp md.timestamp id).temporal_index.Perm ((md.timestamp,id) :: m.temporal_index) := by
    refine perm_middle.trans (List.Perm.of_eq ?_)
    rw [takeWhile_append_dropWhile]
  have fresh : (md.timestamp,id) ∉ m.temporal_index := by
    intro member
    obtain ⟨_,old,held,_⟩ := (here.has _ _).mp member
    rw [absent] at held
    cases held
  refine ⟨?_,perm.nodup_iff.mpr (nodup_cons.mpr ⟨fresh,here.distinct⟩),?_⟩
  · have before : ∀ a ∈ m.temporal_index.takeWhile (·.1 ≤ md.timestamp), a.1 ≤ md.timestamp := by
      intro a member
      simpa using mem_takeWhile_imp member
    have after := dropWhile_sorted here.sorted md.timestamp
    refine pairwise_append.mpr ⟨here.sorted.sublist (takeWhile_sublist _),pairwise_cons.mpr
      ⟨fun a member => (after a member).le,here.sorted.sublist (dropWhile_sublist _)⟩,?_⟩
    grind
  · intro ts other
    rw [perm.mem_iff,mem_cons,here.has]
    grind

namespace MemTable

/-- The index of times is right, and metadata belongs to what is stored, but for the key that
marks empty slots. -/
structure Timed (m : MemTable) : Prop where
  times : Indexed m.temporal_index m.metadata
  live : ∀ id md, m.metadata id = some md → id ≠ kEmpty → ∃ p, m.map.find id = some (some p)

lemma timed_create (platform : Platform) (dim : UInt32) (quantize_inmem : Bool) : (create platform dim quantize_inmem).Timed :=
  ⟨⟨.nil,.nil,by simp [create]⟩,by simp [create]⟩

variable {m result : MemTable} {id : VectorId}

lemma Writes.keeps_live {value : Option Payload} {md : Option Metadata} (timed : m.Timed) (writes : Writes m result id value md)
    (stored : md ≠ none → value ≠ none) :
    ∀ other found, result.metadata other = some found → other ≠ kEmpty → ∃ p, result.map.find other = some (some p) := by
  intro other found held real
  rw [writes.metadata] at held
  rw [writes.map,Map.find_put,m.marked]
  by_cases same : other = id
  · subst same
    rw [if_pos rfl] at held
    obtain ⟨p,some_⟩ := Option.ne_none_iff_exists'.mp (stored (by simp [held]))
    exact ⟨p,by rw [if_pos ⟨rfl,real⟩,some_]⟩
  · rw [if_neg same] at held
    rw [if_neg (fun both => same both.1)]
    exact timed.live other found held real

lemma Timed.putMeta (timed : m.Timed) (id : VectorId) (vec : Vec) (md : Metadata) : (m.putMeta id vec md).1.Timed := by
  by_cases sized : vec.length = m.dim.toNat
  swap
  · rw [putMeta_mismatch m id md sized]
    exact timed
  have writes := (putMeta_ok m id md sized).2
  refine ⟨?_,writes.keeps_live timed (by simp)⟩
  -- the table once the old timestamp is gone
  have dropped : ∀ metadata : VectorId → Option Metadata, (∀ other, other ≠ id → metadata other = m.metadata other) →
      (∀ md, metadata id = some md → md.timestamp = 0) → ∀ fits,
        Indexed ((m.store id (some (m.allocate vec)) fits).dropTimestamp id).temporal_index metadata :=
    fun metadata others untimed fits => Indexed.drop (m := m.store id (some (m.allocate vec)) fits) timed.times id others untimed
  have others : ∀ value : Option Metadata, ∀ other, other ≠ id → (if other = id then value else m.metadata other) = m.metadata other :=
    fun value other differ => if_neg differ
  simp only [MemTable.putMeta,dif_pos sized]
  by_cases keeps : keepsMetadata md
  · by_cases late : md.timestamp > 0
    · simp only [keeps,late,if_true]
      have before := dropped (fun other => if other = id then none else m.metadata other) (others none) (by simp) (fun p same => by
        cases same
        exact m.allocate_fits sized)
      have after := before.insert (if_pos rfl) late
      have same : (fun other => if other = id then some md else if other = id then none else m.metadata other) =
          fun other => if other = id then some md else m.metadata other := by
        funext other
        split <;> rfl
      rw [same] at after
      simpa [insertTimestamp,setMetadata,store] using after
    · simp only [keeps,late,if_true,if_false]
      have after := dropped (fun other => if other = id then some md else m.metadata other) (others _) (by
        intro found held
        rw [if_pos rfl] at held
        cases held
        simpa using late) (fun p same => by
        cases same
        exact m.allocate_fits sized)
      simpa [setMetadata,store] using after
  · simp only [keeps]
    have after := dropped (fun other => if other = id then none else m.metadata other) (others none) (by simp) (fun p same => by
      cases same
      exact m.allocate_fits sized)
    simpa [setMetadata,store] using after

lemma Timed.storeRaw (timed : m.Timed) (id : VectorId) (vec : Vec) : (m.storeRaw id vec).Timed := by
  by_cases sized : vec.length = m.dim.toNat
  · have writes := storeRaw_writes m id sized
    refine ⟨?_,writes.keeps_live timed (by simp)⟩
    simpa [MemTable.storeRaw,sized,store] using timed.times
  · simpa [MemTable.storeRaw,sized] using timed

lemma Timed.putBatch (timed : m.Timed) (ids : List VectorId) (vectors : List Vec) : (m.putBatch ids vectors).1.Timed :=
  putBatch_keeps (fun _ id vec kept => kept.storeRaw id vec) timed ids vectors

lemma Timed.delete (timed : m.Timed) (id : VectorId) : (m.delete id).1.Timed := by
  refine ⟨?_,(delete_writes m id).2.keeps_live timed (by simp)⟩
  have after : Indexed ((m.store id none fun _ same => by cases same).dropTimestamp id).temporal_index
      fun other => if other = id then none else m.metadata other :=
    Indexed.drop (m := m.store id none fun _ same => by cases same) timed.times id (fun other differ => if_neg differ) (by simp)
  simpa [MemTable.delete,setMetadata,store] using after

inductive Call
  | putMeta (id : VectorId) (vec : Vec) (md : Metadata)
  | putBatch (ids : List VectorId) (vectors : List Vec)
  | delete (id : VectorId)

def call (m : MemTable) : Call → MemTable
  | .putMeta id vec md => (m.putMeta id vec md).1
  | .putBatch ids vectors => (m.putBatch ids vectors).1
  | .delete id => (m.delete id).1

lemma Timed.run (calls : List Call) : ∀ {m : MemTable}, m.Timed → (calls.foldl call m).Timed := by
  induction calls with
  | nil => exact fun timed => timed
  | cons c rest ih =>
    intro m timed
    refine ih ?_
    cases c with
    | putMeta id vec md => exact timed.putMeta id vec md
    | putBatch ids vectors => exact timed.putBatch ids vectors
    | delete id => exact timed.delete id

def getByTimeRange (m : MemTable) (start_ts end_ts : UInt64) : Option (List VectorId) :=
  (timeRange Prod.fst m.temporal_index start_ts end_ts).map fun found => found.map Prod.snd

end MemTable
def Filter.InTime (f : Filter) (ts : UInt64) : Prop := (f.min_ts = 0 ∨ f.min_ts ≤ ts) ∧ (f.max_ts = 0 ∨ ts ≤ f.max_ts)

def Filter.InRange (f : Filter) (ts : UInt64) : Prop := f.min_ts ≤ ts ∧ ts ≤ f.max_ts

def Filter.Between (f : Filter) (ts : UInt64) : Prop := f.max_ts < ts ∧ ts < f.min_ts

lemma Filter.matches_timestamp {f : Filter} (timestamp : f.field = ascii "timestamp") (farther : Farther) (md : Metadata) :
    f.matches_ farther md = true ↔ f.InTime md.timestamp := by
  have tenant : ascii "timestamp" ≠ ascii "tenant" := by decide
  have device : ascii "timestamp" ≠ ascii "device_id" := by decide
  have location : ascii "timestamp" ≠ ascii "location_id" := by decide
  have zero : ∀ n : UInt64, ¬0 < n ↔ n = 0 := by
    simp
  simp only [matches_,timestamp,if_neg tenant,if_neg device,if_neg location,if_true,Bool.and_eq_true,Bool.not_eq_true',
    Bool.and_eq_false_iff,decide_eq_false_iff_not,InTime,gt_iff_lt,zero,not_lt]

lemma Filter.InRange.inTime {f : Filter} {ts : UInt64} (inside : f.InRange ts) : f.InTime ts := ⟨.inr inside.1,.inr inside.2⟩

lemma Filter.inRange_of_inTime_iff (f : Filter) (ts : UInt64) :
    (f.InTime ts → f.InRange ts) ↔ (f.max_ts = 0 → ts = 0 ∨ ts < f.min_ts) := by
  grind [InTime,InRange,UInt64.le_iff_toNat_le,UInt64.lt_iff_toNat_lt,UInt64.toNat_zero]

lemma Filter.timed_of_inTime_iff (f : Filter) (ts : UInt64) :
    (f.InTime ts → 0 < ts ∧ f.InRange ts) ↔ (f.max_ts = 0 → ts = 0 ∨ ts < f.min_ts) ∧ (f.min_ts = 0 → ts ≠ 0) := by
  simp only [InTime,InRange,UInt64.le_iff_toNat_le,UInt64.lt_iff_toNat_lt,← UInt64.toNat_inj,UInt64.toNat_zero,ne_eq]
  omega

/-- What is kept of the range of a sorted index is what is wanted exactly if no time is between the
bounds, what is kept of the range is wanted, and what is wanted is kept, in the index and in the range. -/
lemma timeRange_exact_iff {α β : Type} {time : α → UInt64} {items : List α} (sorted : items.Pairwise fun a b => time a ≤ time b)
    (f : Filter) (key : α → β) (keep : β → Bool) (wanted : β → Prop) :
    (∃ found, (timeRange time items f.min_ts f.max_ts).map (fun found => (found.map key).filter keep) = some found ∧
      ∀ b, b ∈ found ↔ wanted b) ↔
        (∀ a ∈ items, ¬f.Between (time a)) ∧ (∀ a ∈ items, f.InRange (time a) → keep (key a) = true → wanted (key a)) ∧
          ∀ b, wanted b → keep b = true ∧ ∃ a ∈ items, key a = b ∧ f.InRange (time a) := by
  rw [timeRange_sorted sorted]
  have member : ∀ b, b ∈ ((items.filter fun a => decide (f.min_ts ≤ time a) && decide (time a ≤ f.max_ts)).map key).filter keep ↔
      keep b = true ∧ ∃ a ∈ items, key a = b ∧ f.InRange (time a) := by
    intro b
    simp only [mem_filter,mem_map,Bool.and_eq_true,decide_eq_true_eq,Filter.InRange]
    grind
  by_cases between : ∃ a ∈ items, f.max_ts < time a ∧ time a < f.min_ts
  · rw [if_pos between]
    constructor
    · rintro ⟨found,none_,_⟩
      cases none_
    · rintro ⟨apart,_⟩
      obtain ⟨a,inside,here⟩ := between
      exact absurd here (apart a inside)
  · rw [if_neg between]
    simp only [Option.map_some,Option.some.injEq,exists_eq_left',member]
    constructor
    · intro exact_
      refine ⟨fun a inside here => between ⟨a,inside,here⟩,?_,fun b => (exact_ b).mpr⟩
      grind
    · grind

variable (readings : List Reading)

lemma segmentTimes_sorted : (segmentTimes readings).Pairwise fun a b => a.1 ≤ b.1 := by
  have total : Std.Total fun a b : UInt64 × Nat => a.1 ≤ b.1 := ⟨fun a b => le_total a.1 b.1⟩
  have trans_ : IsTrans (UInt64 × Nat) fun a b => a.1 ≤ b.1 := ⟨fun _ _ _ first second => le_trans first second⟩
  exact pairwise_insertionSort _ _

lemma mem_segmentTimes (ts : UInt64) (i : Nat) :
    (ts,i) ∈ segmentTimes readings ↔ ∃ r, readings[i]? = some r ∧ (r.md.getD {}).timestamp = ts := by
  rw [segmentTimes,(perm_insertionSort _ _).mem_iff,mk_mem_zipIdx_iff_getElem?,getElem?_map,Option.map_eq_some_iff]

section
variable {S : Type} [LinearOrder S] (env : Searcher S) (m : MemTable) (seg : Segment) (f : Filter)

def LiveMatch (id : VectorId) : Prop := ∃ p md, m.get id = .ok (p,md) ∧ f.matches_ env.farther md = true

def EntryMatch (i : Nat) : Prop :=
  ∃ r, seg.readings[i]? = some r ∧ r.is_deleted = false ∧ f.matches_ env.farther (r.md.getD {}) = true

/-- All three ways to select by a filter on the timestamp select the live entries that match. -/
structure SelectsMatching : Prop where
  table : ∃ ids, m.getByTimeRange f.min_ts f.max_ts = some ids ∧ ∀ id, id ∈ ids ↔ LiveMatch env m f id
  segment : ∃ indices, searchTemporal seg.readings f.min_ts f.max_ts = some indices ∧ ∀ i, i ∈ indices ↔ EntryMatch env seg f i
  mask : ∃ mask, env.buildFromSegment {filters := [f]} seg.readings = some mask ∧ ∀ i, i ∈ mask ↔ EntryMatch env seg f i

/-- The bounds and times for which the ranges of the indices are what the filter means. -/
structure TimesCovered : Prop where
  /-- Without an upper bound no live entry is late enough. -/
  bounded : f.max_ts = 0 → (∀ id p md, m.get id = .ok (p,md) → md.timestamp = 0 ∨ md.timestamp < f.min_ts) ∧
    ∀ r ∈ seg.readings, r.is_deleted = false → (r.md.getD {}).timestamp = 0 ∨ (r.md.getD {}).timestamp < f.min_ts
  /-- Without a lower bound all live entries of the table have a timestamp. -/
  untimed : f.min_ts = 0 → ∀ id p md, m.get id = .ok (p,md) → md.timestamp ≠ 0
  /-- No time is between bounds in the wrong order. -/
  ordered : (∀ id md, m.metadata id = some md → ¬f.Between md.timestamp) ∧ ∀ r ∈ seg.readings, ¬f.Between (r.md.getD {}).timestamp
  /-- No tombstone is in the range. -/
  buried : ∀ r ∈ seg.readings, r.is_deleted = true → ¬f.InRange (r.md.getD {}).timestamp
  /-- No metadata of the key that marks empty slots is in the range. -/
  marker : ∀ md, m.metadata kEmpty = some md → 0 < md.timestamp → ¬f.InRange md.timestamp

variable {m seg f}

lemma MemTable.Timed.selects_iff (timed : m.Timed) (timestamp : f.field = ascii "timestamp") :
    (∃ ids, m.getByTimeRange f.min_ts f.max_ts = some ids ∧ ∀ id, id ∈ ids ↔ LiveMatch env m f id) ↔
      (∀ id md, m.metadata id = some md → ¬f.Between md.timestamp) ∧
        (∀ md, m.metadata kEmpty = some md → 0 < md.timestamp → ¬f.InRange md.timestamp) ∧
        ∀ id p md, m.get id = .ok (p,md) → f.InTime md.timestamp → 0 < md.timestamp ∧ f.InRange md.timestamp := by
  have whole : m.getByTimeRange f.min_ts f.max_ts = (timeRange Prod.fst m.temporal_index f.min_ts f.max_ts).map fun found =>
      (found.map Prod.snd).filter fun _ => true := by simp [MemTable.getByTimeRange]
  rw [whole,timeRange_exact_iff timed.times.sorted f Prod.snd (fun _ => true) (LiveMatch env m f)]
  constructor
  · rintro ⟨apart,sound,complete⟩
    refine ⟨?_,?_,?_⟩
    · intro id md held between
      refine apart (md.timestamp,id) ((timed.times.has _ _).mpr ⟨lt_of_le_of_lt (UInt64.zero_le) between.1,md,held,rfl⟩) between
    · intro md held late range
      obtain ⟨p,other,found,_⟩ := sound (md.timestamp,kEmpty) ((timed.times.has _ _).mpr ⟨late,md,held,rfl⟩) range rfl
      rw [MemTable.get,← m.marked,Map.find_sentinel] at found
      cases found
    · intro id p md found inTime
      obtain ⟨_,⟨ts,other⟩,inside,rfl,range⟩ := complete id ⟨p,md,found,(Filter.matches_timestamp timestamp env.farther md).mpr inTime⟩
      obtain ⟨late,held,some_,rfl⟩ := (timed.times.has _ _).mp inside
      have same : md = held := by rw [← (MemTable.get_eq_ok_iff.mp found).2,some_,Option.getD_some]
      rw [same]
      exact ⟨late,range⟩
  · rintro ⟨apart,marker,complete⟩
    refine ⟨?_,?_,?_⟩
    · rintro ⟨ts,id⟩ inside
      obtain ⟨_,md,held,rfl⟩ := (timed.times.has _ _).mp inside
      exact apart id md held
    · rintro ⟨ts,id⟩ inside range _
      obtain ⟨late,md,held,rfl⟩ := (timed.times.has _ _).mp inside
      have real : id ≠ kEmpty := by
        rintro rfl
        exact marker md held late range
      obtain ⟨p,stored⟩ := timed.live id md held real
      refine ⟨p,md,MemTable.get_eq_ok_iff.mpr ⟨stored,by rw [held,Option.getD_some]⟩,?_⟩
      exact (Filter.matches_timestamp timestamp env.farther md).mpr range.inTime
    · rintro id ⟨p,md,found,match_⟩
      obtain ⟨late,range⟩ := complete id p md found ((Filter.matches_timestamp timestamp env.farther md).mp match_)
      refine ⟨rfl,(md.timestamp,id),(timed.times.has _ _).mpr ⟨late,md,?_,rfl⟩,rfl,range⟩
      obtain ⟨_,rfl⟩ := MemTable.get_eq_ok_iff.mp found
      cases held : m.metadata id with
      | some md => rfl
      | none =>
        rw [held] at late
        exact absurd late (lt_irrefl _)

variable (seg) in
lemma segment_selects_iff (timestamp : f.field = ascii "timestamp") (keep : Nat → Bool)
    (kept : ∀ i, EntryMatch env seg f i → keep i = true) :
    (∃ found, (timeRange Prod.fst (segmentTimes seg.readings) f.min_ts f.max_ts).map
        (fun found => (found.map Prod.snd).filter keep) = some found ∧ ∀ i, i ∈ found ↔ EntryMatch env seg f i) ↔
      (∀ r ∈ seg.readings, ¬f.Between (r.md.getD {}).timestamp) ∧
        (∀ i r, seg.readings[i]? = some r → keep i = true → f.InRange (r.md.getD {}).timestamp → r.is_deleted = false) ∧
        ∀ r ∈ seg.readings, r.is_deleted = false → f.InTime (r.md.getD {}).timestamp → f.InRange (r.md.getD {}).timestamp := by
  rw [timeRange_exact_iff (segmentTimes_sorted seg.readings) f Prod.snd keep (EntryMatch env seg f)]
  constructor
  · rintro ⟨apart,sound,complete⟩
    refine ⟨?_,?_,?_⟩
    · intro r member
      obtain ⟨i,at_⟩ := List.getElem?_of_mem member
      exact apart (_,i) ((mem_segmentTimes _ _ _).mpr ⟨r,at_,rfl⟩)
    · intro i r at_ keeps range
      obtain ⟨other,there,live,_⟩ := sound (_,i) ((mem_segmentTimes _ _ _).mpr ⟨r,at_,rfl⟩) range keeps
      rw [at_] at there
      cases there
      exact live
    · intro r member live inTime
      obtain ⟨i,at_⟩ := List.getElem?_of_mem member
      have match_ := (Filter.matches_timestamp timestamp env.farther (r.md.getD {})).mpr inTime
      obtain ⟨_,⟨ts,j⟩,inside,rfl,range⟩ := complete i ⟨r,at_,live,match_⟩
      grind [mem_segmentTimes]
  · rintro ⟨apart,sound,complete⟩
    refine ⟨?_,?_,?_⟩
    · grind [mem_segmentTimes,mem_of_getElem]
    · rintro ⟨ts,i⟩ inside range keeps
      obtain ⟨r,at_,rfl⟩ := (mem_segmentTimes _ _ _).mp inside
      exact ⟨r,at_,sound i r at_ keeps range,(Filter.matches_timestamp timestamp env.farther _).mpr range.inTime⟩
    · rintro i ⟨r,at_,live,match_⟩
      have range := complete r (mem_of_getElem? at_) live ((Filter.matches_timestamp timestamp env.farther _).mp match_)
      exact ⟨kept i ⟨r,at_,live,match_⟩,(_,i),(mem_segmentTimes _ _ _).mpr ⟨r,at_,rfl⟩,rfl,range⟩

lemma mask_eq (timestamp : f.field = ascii "timestamp") (readings : List Reading) : env.buildFromSegment {filters := [f]} readings =
      (timeRange Prod.fst (segmentTimes readings) f.min_ts f.max_ts).map fun found => (found.map Prod.snd).filter fun i =>
        (readings[i]?).any fun r => !r.is_deleted && f.matches_ env.farther (r.md.getD {}) := by
  have range : SearchOptions.temporal {filters := [f]} = some (f.min_ts,f.max_ts) := by
    simp [SearchOptions.temporal,timestamp]
  have same : ∀ md, SearchOptions.matches_ env.farther {filters := [f]} md = f.matches_ env.farther md := by
    intro md
    simp [SearchOptions.matches_]
  simp only [Searcher.buildFromSegment,range,same,searchTemporal,Option.map_map]
  rfl

/-- A table that was filled by any calls and a segment of any entries are selected from by what a
filter on the timestamp means exactly if the times are covered. -/
theorem time_filter_iff (platform : Platform) (dim : UInt32) (quantize_inmem : Bool) (calls : List MemTable.Call) (seg : Segment)
    (f : Filter) (timestamp : f.field = ascii "timestamp") :
    SelectsMatching env (calls.foldl MemTable.call (.create platform dim quantize_inmem)) seg f ↔
      TimesCovered (calls.foldl MemTable.call (.create platform dim quantize_inmem)) seg f := by
  have timed := MemTable.Timed.run calls (MemTable.timed_create platform dim quantize_inmem)
  generalize calls.foldl MemTable.call (.create platform dim quantize_inmem) = m at timed ⊢
  have table := timed.selects_iff env timestamp
  have segment := segment_selects_iff env seg timestamp (fun _ => true) (fun _ _ => rfl)
  have whole : searchTemporal seg.readings f.min_ts f.max_ts = (timeRange Prod.fst (segmentTimes seg.readings) f.min_ts f.max_ts).map
      fun found => (found.map Prod.snd).filter fun _ => true := by simp [searchTemporal]
  have mask := segment_selects_iff env seg timestamp
    (fun i => (seg.readings[i]?).any fun r => !r.is_deleted && f.matches_ env.farther (r.md.getD {})) (by
      rintro i ⟨r,at_,live,match_⟩
      simp [at_,live,match_])
  constructor
  · rintro ⟨first,second,third⟩
    rw [whole] at second
    obtain ⟨apart,marker,complete⟩ := table.mp first
    obtain ⟨others,buried,entries⟩ := segment.mp second
    refine ⟨?_,?_,⟨apart,others⟩,?_,marker⟩
    · intro open_
      refine ⟨fun id p md found => ?_,fun r member live => ?_⟩
      · exact ((f.timed_of_inTime_iff md.timestamp).mp (complete id p md found)).1 open_
      · exact (f.inRange_of_inTime_iff _).mp (entries r member live) open_
    · intro open_ id p md found
      exact ((f.timed_of_inTime_iff md.timestamp).mp (complete id p md found)).2 open_
    · intro r member deleted range
      obtain ⟨i,at_⟩ := List.getElem?_of_mem member
      grind
  · rintro ⟨bounded,untimed,⟨apart,others⟩,buried,marker⟩
    have entries : ∀ r ∈ seg.readings, r.is_deleted = false → f.InTime (r.md.getD {}).timestamp → f.InRange (r.md.getD {}).timestamp :=
      fun r member live => (f.inRange_of_inTime_iff _).mpr fun open_ => (bounded open_).2 r member live
    refine ⟨table.mpr ⟨apart,marker,?_⟩,?_,?_⟩
    · intro id p md found
      exact (f.timed_of_inTime_iff md.timestamp).mpr
        ⟨fun open_ => (bounded open_).1 id p md found,fun open_ => untimed open_ id p md found⟩
    · grind
    · rw [mask_eq env timestamp]
      grind

end

theorem time_filter_bounded : SelectsMatching plainSearcher
    ([.putMeta 1 [7] {timestamp := 5},.putMeta 2 [8] {timestamp := 9}].foldl MemTable.call (.create .plain 1 false))
    ⟨1,[⟨1,[7],false,{timestamp := 5}⟩,⟨2,[],true,{}⟩],by simp⟩ {field := ascii "timestamp",min_ts := 3,max_ts := 6} := by
  refine (time_filter_iff plainSearcher .plain 1 false [.putMeta 1 [7] {timestamp := 5},.putMeta 2 [8] {timestamp := 9}]
    ⟨1,[⟨1,[7],false,{timestamp := 5}⟩,⟨2,[],true,{}⟩],by simp⟩ {field := ascii "timestamp",min_ts := 3,max_ts := 6} rfl).mpr ?_
  refine ⟨by simp,by simp,⟨?_,?_⟩,?_,?_⟩
  · intro id md _ between
    exact absurd (between.1.trans between.2) (by decide)
  · intro r _ between
    exact absurd (between.1.trans between.2) (by decide)
  · intro r member deleted range
    rcases mem_pair.mp member with rfl | rfl
    · cases deleted
    · exact absurd range.1 (by decide)
  · intro md held
    have none_ : ([MemTable.Call.putMeta 1 [7] {timestamp := 5},.putMeta 2 [8] {timestamp := 9}].foldl MemTable.call
      (.create .plain 1 false)).metadata kEmpty = none := by decide +kernel
    rw [none_] at held
    cases held

/-- Without an upper bound nothing is selected in any of the three ways, though the entry matches;
with a lower bound above the time of the entry the loops run past the end. -/
theorem time_filter_unbounded :
    let m := [MemTable.Call.putMeta 1 [7] {timestamp := 5}].foldl MemTable.call (.create .plain 1 false)
    let seg : Segment := ⟨1,[⟨1,[7],false,{timestamp := 5}⟩],by simp⟩
    Filter.matches_ plainSearcher.farther {field := ascii "timestamp"} {timestamp := 5} = true ∧
      m.getByTimeRange 0 0 = some [] ∧ searchTemporal seg.readings 0 0 = some [] ∧
      plainSearcher.buildFromSegment {filters := [{field := ascii "timestamp"}]} seg.readings = some [] ∧
      m.getByTimeRange 9 0 = none ∧ searchTemporal seg.readings 9 0 = none := by
  refine ⟨?_,?_,?_,?_,?_,?_⟩
  · decide
  · decide +kernel
  · decide +kernel
  · decide +kernel
  · decide +kernel
  · decide +kernel

end PomaiCache
