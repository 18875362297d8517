import PomaiCache.SearchVisible

/-!
Searches and lookups. A search shows what lookups find exactly if no id the visibility table
does not have has another version to show than the one a lookup finds.
-/
namespace PomaiCache
open Options List UInt64

namespace VectorRuntime
variable {rt : VectorRuntime}

/-- A version that is not deleted and passes the tests of a search without filters. -/
def offered (now_sec : UInt64) (opts : SearchOptions) (w : Nat × Reading) : Bool :=
  !w.2.is_deleted && rt.passes (fun _ _ _ _ _ => false) now_sec opts w

lemma shown_eq {opts : SearchOptions} (unfiltered : opts.filters = []) (v : Visibility) (farther : Farther) (now_sec : UInt64)
    (w : Nat × Reading) : rt.shown v farther now_sec opts w =
      (v.shows rt.useVisibility w.1 w.2.id w.2.is_deleted && rt.offered now_sec opts w) := by
  grind [SearchOptions.matches_,shown,offered,passes,Visibility.shows]

lemma shown_unrecorded {opts : SearchOptions} (unfiltered : opts.filters = []) {v : Visibility} (farther : Farther) (now_sec : UInt64)
    {w : Nat × Reading} (unrecorded : v.find w.2.id = none) : rt.shown v farther now_sec opts w = rt.offered now_sec opts w := by
  simp [shown_eq unfiltered,Visibility.shows,unrecorded,offered]

variable (rt) in
/-- Of an id the table of visibility does not have, no version is offered but the one a lookup finds. -/
def Unshadowed (clock : SearchClock) (opts : SearchOptions) : Prop :=
  rt.useVisibility = true → ∀ w ∈ rt.versions, (rt.visibility clock.batch).find w.2.id = none →
    rt.offered (clock.query 0) opts w = true → ((rt.lookup w.2.id).state = .kFound ∧ (rt.lookup w.2.id).vec = w.2.vec) ∧
        ∀ other ∈ rt.versions, other.2.id = w.2.id → rt.offered (clock.query 0) opts other = true → other = w

variable (rt) in
/-- Every search returns distinct ids that lookups find, scored by the vectors they find. -/
def SearchesNewest (clock : SearchClock) (opts : SearchOptions) : Prop :=
  ∀ (S : Type) [LinearOrder S] (env : Searcher S), (∀ i, env.aids i = {}) → ∀ (topk : UInt32) (query : Vec),
    query.length = rt.dim.toNat → ∃ hits, runtimeSearch env rt clock topk opts query = some (.Ok,hits) ∧
      (hits.map SearchHit.id).Nodup ∧ ∀ hit ∈ hits, (rt.lookup hit.id).state = .kFound ∧
        hit.score = env.scoreOf query (rt.lookup hit.id).vec

variable {clock : SearchClock} {opts : SearchOptions}

lemma Unquantized.shown_once (plain : rt.Unquantized) (unfiltered : opts.filters = []) (unshadowed : rt.Unshadowed clock opts)
    (farther : Farther) {w : Nat × Reading} (member : w ∈ rt.versions)
    (shown : rt.shown (rt.visibility clock.batch) farther (clock.query 0) opts w = true) :
    ((rt.lookup w.2.id).state = .kFound ∧ (rt.lookup w.2.id).vec = w.2.vec) ∧ ∀ other ∈ rt.versions, other.2.id = w.2.id →
        rt.shown (rt.visibility clock.batch) farther (clock.query 0) opts other = true → other = w := by
  by_cases unrecorded : rt.useVisibility = true ∧ (rt.visibility clock.batch).find w.2.id = none
  · rw [shown_unrecorded unfiltered farther _ unrecorded.2] at shown
    obtain ⟨found,once⟩ := unshadowed unrecorded.1 w member unrecorded.2 shown
    grind [shown_unrecorded]
  · have recorded : rt.useVisibility = true → (rt.visibility clock.batch).find w.2.id ≠ none :=
      fun used absent => unrecorded ⟨used,absent⟩
    have visible := (Bool.and_eq_true_iff.mp shown).1
    have live : w.2.is_deleted = false := by simpa using (Bool.and_eq_true_iff.mp visible).1
    have newest := newest_of_shown plain.segments member visible recorded
    refine ⟨by simp [plain.lookup_newest live newest],?_⟩
    intro other there id again
    have first := newest_of_shown plain.segments there (Bool.and_eq_true_iff.mp again).1 (id ▸ recorded)
    rw [id,newest] at first
    exact (Option.some.inj first).symm

lemma Unquantized.searches_newest (plain : rt.Unquantized) (unfiltered : opts.filters = [])
    (unshadowed : rt.Unshadowed clock opts) : rt.SearchesNewest clock opts := by
  intro S _ env unaided topk query sized
  have timeless : opts.temporal = none := by simp [SearchOptions.temporal,unfiltered]
  obtain ⟨hits,search,part,_⟩ := search_hits rt env unaided clock topk timeless sized
  refine ⟨hits,search,?_,?_⟩
  · -- no two versions that are shown have one id
    have versions : rt.versions.Nodup := (versions_distinct plain.segments).of_map _
    have ids : (((rt.versions.filter (rt.shown (rt.visibility clock.batch) env.farther (clock.query 0) opts)).map
        (env.hitOf query)).map SearchHit.id).Nodup := by
      rw [map_map]
      refine List.Nodup.map_on ?_ (versions.filter _)
      intro w inW other inOther id
      obtain ⟨member,shown⟩ := mem_filter.mp inW
      obtain ⟨there,again⟩ := mem_filter.mp inOther
      exact ((plain.shown_once unfiltered unshadowed env.farther member shown).2 other there id.symm again).symm
    obtain ⟨some_,perm,sub⟩ := part
    grind
  · intro hit member
    obtain ⟨w,inside,rfl⟩ := mem_map.mp (part.subset member)
    obtain ⟨there,shown⟩ := mem_filter.mp inside
    obtain ⟨⟨found,vec⟩,_⟩ := plain.shown_once unfiltered unshadowed env.farther there shown
    refine ⟨found,?_⟩
    rw [show (env.hitOf query w).id = w.2.id from rfl,vec]
    rfl

def telling (target : Vec) : Searcher Int := {plainSearcher with dot := fun _ vec => if vec = target then 1 else 0}

lemma unshadowed_of_searches_newest (unfiltered : opts.filters = []) (few : rt.versions.length < 2 ^ 32)
    (newest : rt.SearchesNewest clock opts) : rt.Unshadowed clock opts := by
  intro used w member unrecorded offered
  have timeless : opts.temporal = none := by simp [SearchOptions.temporal,unfiltered]
  have sized : (replicate rt.dim.toNat (0 : UInt32)).length = rt.dim.toNat := length_replicate
  obtain ⟨hits,search,distinct,each⟩ := newest Int (telling w.2.vec) (fun _ => rfl) 4294967295 _ sized
  obtain ⟨same,again,_,all⟩ := search_hits rt (telling w.2.vec) (fun _ => rfl) clock 4294967295 timeless sized
  rw [search] at again
  cases again
  -- all versions that are shown are among the hits
  have perm := all (by
    have less := length_filter_le (rt.shown (rt.visibility clock.batch) (telling w.2.vec).farther (clock.query 0) opts) rt.versions
    have most : (4294967295 : UInt32).toNat = 2 ^ 32 - 1 := rfl
    rw [length_map,most]
    omega)
  have shown : ∀ other ∈ rt.versions, other.2.id = w.2.id → rt.offered (clock.query 0) opts other = true →
      other ∈ rt.versions.filter (rt.shown (rt.visibility clock.batch) (telling w.2.vec).farther (clock.query 0) opts) := by
    intro other there id passes
    refine mem_filter.mpr ⟨there,?_⟩
    rw [shown_unrecorded unfiltered _ _ (id ▸ unrecorded)]
    exact passes
  have here := shown w member rfl offered
  obtain ⟨found,score⟩ := each _ (perm.mem_iff.mpr (mem_map_of_mem here))
  refine ⟨⟨found,?_⟩,?_⟩
  · by_contra other
    simp [Searcher.hitOf,Searcher.scoreOf,telling,plainSearcher,other] at score
  · intro other there id passes
    have ids := ((perm.map SearchHit.id).nodup_iff).mp distinct
    rw [map_map] at ids
    exact inj_on_of_nodup_map ids (shown other there id passes) here id

/-- Searches without filters return what lookups find if no version is shadowed, and only then
while all versions can be asked for. -/
theorem search_unshadowed_iff (plain : rt.Unquantized) (unfiltered : opts.filters = []) :
    (rt.Unshadowed clock opts → rt.SearchesNewest clock opts) ∧
      (rt.versions.length < 2 ^ 32 → rt.SearchesNewest clock opts → rt.Unshadowed clock opts) :=
  ⟨plain.searches_newest unfiltered,unshadowed_of_searches_newest unfiltered⟩

lemma unshadowed_of_few (few : rt.versions.length < kVisibilityLimit) : rt.Unshadowed clock opts := by
  have grows : ∀ (versions : List (Nat × Reading)) (v : Visibility),
      (versions.foldl (fun v w => v.insert w.2.id (rt.entryOf clock.batch w)) v).length ≤ v.length + versions.length := by
    intro versions
    induction versions with
    | nil => simp
    | cons w rest ih =>
      grind [length_cons,Visibility.insert]
  intro used w member unrecorded _
  have length : (rt.visibility clock.batch).length ≤ 0 + rt.versions.length := by
    rw [visibility,if_pos used]
    exact grows rt.versions []
  exact absurd unrecorded ((visibility_covers used clock.batch).room (by omega) w member)

def layered : VectorRuntime := {openedStore with
  current_snapshot := ⟨[],[⟨1,[⟨1,[8],false,{}⟩,⟨2,[],true,{}⟩],by simp⟩,⟨1,[⟨1,[7],false,{}⟩,⟨2,[9],false,{}⟩],by simp⟩]⟩}

theorem search_unshadowed_layered : layered.SearchesNewest ⟨0,fun _ => 0⟩ {} := by
  have plain : layered.Unquantized := by
    refine ⟨?_,?_⟩
    · intro m member
      rw [show layered.searchTables = [openedStore.mem] from rfl,mem_singleton] at member
      rw [member]
      rfl
    · intro s member
      rcases mem_pair.mp member with rfl | rfl <;> simp [Segment.Strict]
  have four : layered.versions.length = 4 := by decide +kernel
  refine (search_unshadowed_iff plain rfl).1 (unshadowed_of_few ?_)
  rw [four,kVisibilityLimit]
  omega

/-! A store where more ids come first than the table takes. -/

lemma ofNat_lt {a b : Nat} (less : a < b) (small : b < 2 ^ 64) : UInt64.ofNat a < UInt64.ofNat b := by
  grind [lt_iff_toNat_lt,toNat_ofNat']

variable {first count : Nat}

lemma row_ascending (small : first + count ≤ 2 ^ 64) :
    ((List.range count).map fun j => (⟨.ofNat (first + j),[0],false,{}⟩ : SegmentEntry)).Pairwise fun a b => a.id < b.id := by
  refine pairwise_map.mpr (pairwise_lt_range.imp_of_mem ?_)
  grind [ofNat_lt]

def block (first count : Nat) (small : first + count ≤ 2 ^ 64) : Segment where
  dim := 1
  entries := (List.range count).map fun j => ⟨.ofNat (first + j),[0],false,{}⟩
  sorted := (row_ascending small).imp fun less => le_of_lt less

lemma block_strict (small : first + count ≤ 2 ^ 64) : (block first count small).Strict := row_ascending small

lemma mem_block (small : first + count ≤ 2 ^ 64) (id : VectorId) :
    (∃ r ∈ (block first count small).readings, r.id = id) ↔ ∃ j < count, UInt64.ofNat (first + j) = id := by
  simp [Segment.readings,block]

def blocks : List Segment := (List.finRange 20).map fun i : Fin 20 => block (5000 * i) 5000 (by omega)

def crowded : VectorRuntime := {openedStore with
  current_snapshot := ⟨[],blocks ++ [⟨1,[⟨100000,[],true,{}⟩],by simp⟩,⟨1,[⟨100000,[7],false,{}⟩],by simp⟩]⟩}

def blockVersions : List (Nat × Reading) := blocks.zipIdx.flatMap fun s => s.1.readings.map fun r => (1 + s.2,r)

lemma crowded_versions : crowded.versions = blockVersions ++ [(21,⟨100000,[],true,some {}⟩),(22,⟨100000,[7],false,some {}⟩)] := by
  have idle : openedStore.mem.iterateWithMetadata = [] := by decide +kernel
  have tables : crowded.searchTables = [openedStore.mem] := rfl
  have length : blocks.length = 20 := by simp [blocks]
  rw [versions_eq,tables,blockVersions]
  simp [idle,crowded,zipIdx_append,length,Segment.readings]

lemma crowded_plain : crowded.Unquantized := by
  refine ⟨?_,?_⟩
  · intro m member
    rw [show crowded.searchTables = [openedStore.mem] from rfl,mem_singleton] at member
    rw [member]
    rfl
  · intro s member
    rcases mem_append.mp member with inBlocks | last
    · obtain ⟨i,_,rfl⟩ := mem_map.mp inBlocks
      exact block_strict _
    · rcases mem_pair.mp last with rfl | rfl <;> simp [Segment.Strict]

lemma blockVersions_ids (id : VectorId) : (∃ w ∈ blockVersions, w.2.id = id) ↔ id.toNat < 100000 := by
  have ids : (∃ w ∈ blockVersions, w.2.id = id) ↔ ∃ s ∈ blocks, ∃ r ∈ s.readings, r.id = id := by
    conv_rhs => rw [← zipIdx_map_fst 0 blocks]
    simp only [blockVersions,mem_flatMap,mem_map]
    constructor
    · grind
    · rintro ⟨_,⟨s,at_,rfl⟩,r,inside,rfl⟩
      exact ⟨_,⟨s,at_,r,inside,rfl⟩,rfl⟩
  rw [ids,blocks]
  constructor
  · rintro ⟨s,member,here⟩
    obtain ⟨i,_,rfl⟩ := mem_map.mp member
    obtain ⟨j,below,rfl⟩ := (mem_block _ _).mp here
    rw [toNat_ofNat',Nat.mod_eq_of_lt (by omega)]
    omega
  · intro small
    refine ⟨_,mem_map.mpr ⟨⟨id.toNat / 5000,by omega⟩,mem_finRange _,rfl⟩,?_⟩
    refine (mem_block _ _).mpr ⟨id.toNat % 5000,Nat.mod_lt _ (by omega),?_⟩
    rw [Nat.div_add_mod,UInt64.ofNat_toNat]

lemma crowded_unrecorded (now_sec : UInt64) : (crowded.visibility now_sec).find 100000 = none := by
  have start : Visibility.Covers (crowded.entryOf now_sec) [] [] := ⟨fun id e found => by simp [Visibility.find] at found,by simp⟩
  have covers := Visibility.covers_foldl blockVersions start
  rw [nil_append] at covers
  have full := covers.full ((List.range 100000).map UInt64.ofNat) (by
      refine List.Nodup.map_on ?_ nodup_range
      intro a inA b inB same
      rw [mem_range] at inA inB
      have numbers := congrArg UInt64.toNat same
      rwa [toNat_ofNat',toNat_ofNat',Nat.mod_eq_of_lt (by omega),Nat.mod_eq_of_lt (by omega)] at numbers) (by
      intro id member
      obtain ⟨n,below,rfl⟩ := mem_map.mp member
      rw [mem_range] at below
      refine (blockVersions_ids _).mpr ?_
      rwa [toNat_ofNat',Nat.mod_eq_of_lt (by omega)]) (by
      rw [length_map,length_range,kVisibilityLimit]
      omega)
  have table : crowded.visibility now_sec = blockVersions.foldl (fun (v : Visibility) w => v.insert w.2.id (crowded.entryOf now_sec w)) [] := by
    unfold visibility
    rw [if_pos (show crowded.useVisibility = true by simp [useVisibility,crowded]),crowded_versions,foldl_append]
    exact Visibility.foldl_insert_full full _
  rw [table]
  refine Option.eq_none_iff_forall_ne_some.mpr ?_
  intro e found
  obtain ⟨w,first,_⟩ := covers.first _ _ found
  have below := (blockVersions_ids 100000).mp ⟨w,mem_of_find?_eq_some first,by simpa using List.find?_some first⟩
  exact absurd below (by decide)

lemma crowded_lookup : (crowded.lookup 100000).state = .kTombstone := by
  have absent : blockVersions.find? (fun w => w.2.id = 100000) = none := by
    refine List.find?_eq_none.mpr ?_
    intro w member
    have below := (blockVersions_ids w.2.id).mp ⟨w,member,rfl⟩
    by_contra same
    simp only [decide_eq_true_eq] at same
    rw [same] at below
    exact absurd below (by decide)
  rw [crowded_plain.lookup,crowded_versions,List.find?_append,absent]
  rfl

lemma crowded_length : crowded.versions.length = 100002 := by
  have each : ∀ s ∈ blocks.zipIdx, s.1.readings.length = 5000 := by
    intro s at_
    obtain ⟨i,_,same⟩ := mem_map.mp (fst_mem_of_mem_zipIdx at_)
    rw [← same]
    simp [block,Segment.readings]
  have lengths : (blocks.zipIdx.map fun s => (s.1.readings.map fun r => (1 + s.2,r)).length) = replicate 20 5000 := by
    refine eq_replicate_iff.mpr ⟨by simp [blocks],?_⟩
    grind
  rw [crowded_versions,length_append,blockVersions,length_flatMap,lengths,sum_replicate]
  rfl

/-- The deleted id is found by a search with its old vector. -/
theorem search_finds_deleted : crowded.Unquantized ∧ (crowded.lookup 100000).state = .kTombstone ∧
    ∃ hits, runtimeSearch plainSearcher crowded ⟨0,fun _ => 0⟩ 4294967295 {} [1] = some (.Ok,hits) ∧ ⟨100000,7⟩ ∈ hits := by
  refine ⟨crowded_plain,crowded_lookup,?_⟩
  have timeless : ({} : SearchOptions).temporal = none := rfl
  have unfiltered : ({} : SearchOptions).filters = [] := rfl
  have sized : ([1] : Vec).length = crowded.dim.toNat := rfl
  obtain ⟨hits,search,_,all⟩ := search_hits crowded plainSearcher (fun _ => rfl) ⟨0,fun _ => 0⟩ 4294967295 timeless sized
  refine ⟨hits,search,?_⟩
  have less := length_filter_le (crowded.shown (crowded.visibility 0) plainSearcher.farther 0 {}) crowded.versions
  rw [crowded_length] at less
  have perm := all (by
    rw [length_map]
    exact less.trans (by decide))
  have shown : crowded.shown (crowded.visibility 0) plainSearcher.farther 0 {} (22,⟨100000,[7],false,some {}⟩) = true := by
    have unrecorded := crowded_unrecorded 0
    have offered : crowded.offered 0 {} (22,⟨100000,[7],false,some {}⟩) = true := by
      simp [offered,passes,SearchOptions.hasFilters,show crowded.searchTables = [openedStore.mem] from rfl]
    grind [shown_unrecorded,offered]
  exact perm.mem_iff.mpr (mem_map.mpr ⟨_,mem_filter.mpr ⟨by simp [crowded_versions],shown⟩,rfl⟩)

end VectorRuntime
end PomaiCache
