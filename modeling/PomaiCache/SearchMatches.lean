import PomaiCache.SearchVisible

/-!
Searches and their options. The options are tested on every entry of a memtable, but on the
entries of a segment only if the search has filters.
-/
namespace PomaiCache
open Layers Options Text List

lemma mem_of_mapM {α β : Type} {f : α → Option β} {items : List α} {found : List β} (all : items.mapM f = some found) {b : β}
    (member : b ∈ found) : ∃ a ∈ items, f a = some b := by
  induction items generalizing found with
  | nil =>
    cases all
    cases member
  | cons a rest ih =>
    rw [mapM_cons] at all
    obtain ⟨first,here,more⟩ := Option.bind_eq_some_iff.mp all
    obtain ⟨others,there,same⟩ := Option.bind_eq_some_iff.mp more
    grind

lemma MemTable.reading_of_get {m : MemTable} {id : VectorId} {p : Payload} {md : Metadata} (got : m.get id = .ok (p,md)) :
    ∃ r ∈ m.iterateWithMetadata, r.id = id ∧ r.is_deleted = false ∧ r.md.getD {} = md := by
  have held := get_eq_ok_iff.mp got
  have entry : (id,some p) ∈ m.map.entries := (m.map.mem_entries id (some p)).mpr held.1
  have made : (m.reading (id,some p)).is_deleted = false ∧ (m.reading (id,some p)).md = m.metadata id := by
    grind [reading]
  exact ⟨m.reading (id,some p),mem_map_of_mem entry,m.reading_id _,made.1,by rw [made.2,held.2]⟩

namespace Searcher
variable {S : Type} [LinearOrder S] (env : Searcher S) (ttl_sec : UInt32) (now_sec : UInt64) (query : Vec) (topk : UInt32)
  (opts : SearchOptions) (use_visibility : Bool)

variable {items : List (Visit S)} {x : Visit S} {source : Nat}

lemma memtable_visit {m : MemTable}
    (all : env.memtableVisits ttl_sec now_sec query opts source m = some items) (member : x ∈ items) :
    x.source = source ∧ ∃ r ∈ m.iterateWithMetadata, r.id = x.id ∧ r.is_deleted = x.is_deleted ∧
      (x.pass = true → (!VectorRuntime.vectorMetaExpired ttl_sec now_sec (r.md.getD {}) &&
        opts.matches_ env.farther (r.md.getD {})) = true) := by
  unfold memtableVisits at all
  split at all
  · obtain ⟨found,_,rfl⟩ := Option.map_eq_some_iff.mp all
    grind [unexpired,MemTable.reading_of_get]
  · cases all
    obtain ⟨r,inside,rfl⟩ := mem_map.mp member
    exact ⟨rfl,r,inside,rfl,rfl,id⟩

lemma entry_visit {aids : SegmentAids S} {readings : List Reading} {mask : Option (List Nat)}
    (member : x ∈ env.entryVisits query opts source aids readings mask) :
    ∃ i s, visitAt source readings mask s i = some x := by
  grind [entryVisits]

lemma mem_buildFromSegment (built : env.buildFromSegment opts readings = some mask)
    (member : i ∈ mask) (at_ : readings[i]? = some r) : r.is_deleted = false ∧ opts.matches_ env.farther (r.md.getD {}) = true := by
  have passes : ((readings[i]?).any fun r => !r.is_deleted && opts.matches_ env.farther (r.md.getD {})) = true := by
    unfold buildFromSegment at built
    split at built
    · obtain ⟨found,_,rfl⟩ := Option.map_eq_some_iff.mp built
      exact (mem_filter.mp member).2
    · cases built
      exact (mem_filter.mp member).2
  rw [at_] at passes
  simpa using passes

def GraphsLive (rt : VectorRuntime) : Prop :=
  ∀ s ∈ rt.current_snapshot.segments.zipIdx, ∀ search, (env.aids s.2).hnsw = some search → ∀ query topk ef found,
    search query topk ef = some found → ∀ hit ∈ found, ∃ r ∈ s.1.readings, r.id = hit.1 ∧ r.is_deleted = false

lemma segment_visit {aids : SegmentAids S} {seg : Segment}
    (live : use_visibility = false → ∀ search, aids.hnsw = some search → ∀ query topk ef found, search query topk ef = some found →
      ∀ hit ∈ found, ∃ r ∈ seg.readings, r.id = hit.1 ∧ r.is_deleted = false)
    (all : env.segmentVisits query topk opts use_visibility source aids seg = some items) (member : x ∈ items) :
    x.source = source ∧ ∃ r ∈ seg.readings, r.id = x.id ∧ r.is_deleted = x.is_deleted ∧
      (x.pass = true → (!opts.hasFilters || opts.matches_ env.farther (r.md.getD {})) = true) := by
  -- An entry that is visited by its index.
  have entry : ∀ {mask : Option (List Nat)} {i s}, visitAt source seg.readings mask s i = some x → x.source = source ∧
      ∃ r ∈ seg.readings, r.id = x.id ∧ r.is_deleted = x.is_deleted ∧ seg.readings[i]? = some r ∧
        x.pass = mask.all fun m => m.contains i := by
    intro mask i s made
    obtain ⟨r,at_,rfl⟩ := Option.map_eq_some_iff.mp made
    exact ⟨rfl,r,mem_of_getElem? at_,rfl,rfl,at_,rfl⟩
  unfold segmentVisits at all
  split at all
  · obtain ⟨mask,built,rfl⟩ := Option.map_eq_some_iff.mp all
    obtain ⟨i,s,made⟩ := env.entry_visit query opts member
    obtain ⟨source_,r,inside,id,deleted,at_,pass⟩ := entry made
    refine ⟨source_,r,inside,id,deleted,?_⟩
    intro passed
    rw [pass,Option.all_some,contains_iff_mem] at passed
    rw [(env.mem_buildFromSegment opts built passed at_).2,Bool.or_true]
  rename_i unfiltered
  have free : ∀ r : Reading, (!opts.hasFilters || opts.matches_ env.farther (r.md.getD {})) = true := by
    intro r
    simp [unfiltered]
  have entries : x ∈ env.entryVisits query opts source aids seg.readings none → x.source = source ∧ ∃ r ∈ seg.readings, r.id = x.id ∧
      r.is_deleted = x.is_deleted ∧ (x.pass = true → (!opts.hasFilters || opts.matches_ env.farther (r.md.getD {})) = true) := by
    intro here
    obtain ⟨i,s,made⟩ := env.entry_visit query opts here
    grind
  split at all
  · cases all
    exact entries member
  rename_i unused
  split at all
  · rename_i found graph
    cases all
    obtain ⟨hit,inside,rfl⟩ := mem_map.mp member
    rw [graphHits] at graph
    split at graph
    · obtain ⟨search,aid,more⟩ := Option.bind_eq_some_iff.mp graph
      obtain ⟨hits,got,kept⟩ := Option.bind_eq_some_iff.mp more
      split at kept
      · cases kept
      · cases kept
        obtain ⟨r,there,id,undeleted⟩ := live (by simpa using unused) search aid _ _ _ _ got hit inside
        exact ⟨rfl,r,there,id,undeleted,fun _ => free r⟩
    · cases graph
  split at all
  · obtain ⟨i,_,made⟩ := mem_of_mapM all member
    obtain ⟨source_,r,inside,id,deleted,_⟩ := entry made
    exact ⟨source_,r,inside,id,deleted,fun _ => free r⟩
  · cases all
    exact entries member

lemma visit_of_version {rt : VectorRuntime} (live : use_visibility = false → env.GraphsLive rt)
    (all : env.visits now_sec query topk opts use_visibility rt = some items) (member : x ∈ items) :
    ∃ w ∈ rt.versions, w.1 = x.source ∧ w.2.id = x.id ∧ w.2.is_deleted = x.is_deleted ∧
      (x.pass = true → rt.passes env.farther now_sec opts w = true) := by
  obtain ⟨above,tables,more⟩ := Option.bind_eq_some_iff.mp all
  obtain ⟨below,segments,rfl⟩ := Option.map_eq_some_iff.mp more
  rw [rt.versions_eq]
  rcases mem_append.mp member with inTable | inSegment
  · obtain ⟨part,inside,here⟩ := mem_flatten.mp inTable
    obtain ⟨m,at_,made⟩ := mem_of_mapM tables inside
    have less : m.2 < rt.searchTables.length := by simpa [VectorRuntime.searchTables] using snd_lt_of_mem_zipIdx at_
    obtain ⟨source,r,found,id,deleted,pass⟩ := env.memtable_visit _ _ _ _ made here
    refine ⟨(m.2,r),mem_append_left _ (mem_flatMap.mpr ⟨m,at_,mem_map_of_mem found⟩),source.symm,id,deleted,?_⟩
    intro passed
    rw [VectorRuntime.passes,if_pos less]
    exact pass passed
  · obtain ⟨part,inside,here⟩ := mem_flatten.mp inSegment
    obtain ⟨s,at_,made⟩ := mem_of_mapM segments inside
    obtain ⟨source,r,found,id,deleted,pass⟩ := env.segment_visit _ _ _ _ (fun unused => live unused s at_) made here
    refine ⟨(rt.searchTables.length + s.2,r),mem_append_right _ (mem_flatMap.mpr ⟨s,at_,mem_map_of_mem found⟩),
      source.symm,id,deleted,?_⟩
    intro passed
    rw [VectorRuntime.passes,if_neg (by simp)]
    exact pass passed

end Searcher
def metadataOf (layer : Layer VectorId Found) : Layer VectorId Metadata := fun id => (layer id).map (Option.map Prod.snd)

lemma answer_metadataOf (layers : List (Layer VectorId Found)) (id : VectorId) :
    answer (layers.map metadataOf) id = (answer layers id).map (Option.map Prod.snd) := by
  induction layers with
  | nil => rfl
  | cons layer rest ih =>
    rw [map_cons,answer_cons,answer_cons,ih,metadataOf]
    cases layer id <;> rfl

lemma MemTable.readings_metadata (m : MemTable) : metadataOf (Reading.layer m.iterateWithMetadata) = metadataOf m.layer := by
  funext id
  have same : (fun r : Reading => decide (r.id = id)) ∘ m.reading = fun slot => decide (slot.1 = id) := by
    funext slot
    simp
  rw [metadataOf,metadataOf,Reading.layer,iterateWithMetadata,List.find?_map,same,MemTable.layer,version,← m.map.find?_entries]
  cases found : m.map.entries.find? fun slot => decide (slot.1 = id) with
  | none => rfl
  | some slot =>
    grind [reading,Reading.value]

namespace VectorRuntime
variable {rt : VectorRuntime}

lemma lookup_metadata (strict : ∀ s ∈ rt.current_snapshot.segments, s.Strict) (id : VectorId) :
    (rt.lookup id).md = (((rt.versions.find? fun w => w.2.id = id).bind fun w => w.2.value).map Prod.snd).getD {} := by
  have result : ∀ told : Option (Option Found), (LookupResult.ofAnswer told).md = ((told.map (Option.map Prod.snd)).join).getD {} := by
    intro told
    rcases told with _ | _ | found <;> rfl
  have layers : (readLayers rt.mem rt.current_snapshot).map metadataOf =
      (rt.searchTables.map fun m => metadataOf (Reading.layer m.iterateWithMetadata)) ++
        rt.current_snapshot.segments.map fun s => metadataOf (Reading.layer s.readings) := by
    have segs : (rt.current_snapshot.segments.map fun s => metadataOf (Reading.layer s.readings)) =
        rt.current_snapshot.segments.map fun s => metadataOf s.layer := by
      refine map_congr_left ?_
      intro s member
      rw [s.readings_layer]
      funext other
      rw [metadataOf,metadataOf,Segment.layer_firstLayer (strict s member)]
    have tables : (rt.searchTables.map fun m => metadataOf (Reading.layer m.iterateWithMetadata)) =
        rt.searchTables.map fun m => metadataOf m.layer := map_congr_left fun m _ => m.readings_metadata
    rw [segs,tables]
    simp [readLayers,searchTables,Function.comp_def]
  have told : answer ((readLayers rt.mem rt.current_snapshot).map metadataOf) id =
      (Reading.layer (rt.versions.map Prod.snd) id).map (Option.map Prod.snd) := by
    rw [layers,versions_readings,Reading.layer_append,Reading.layer_flatMap,Reading.layer_flatMap,answer_append,
      ← Function.comp_def metadataOf,← Function.comp_def metadataOf,← map_map,← map_map,answer_metadataOf,answer_metadataOf]
    grind
  rw [lookup,lookupById_eq,result,← answer_metadataOf,told,Reading.layer,List.find?_map,Option.map_map]
  simp only [Function.comp_def]
  cases rt.versions.find? fun w => decide (w.2.id = id) with
  | none => rfl
  | some w => cases w.2.value <;> rfl

variable {w : Nat × Reading}

lemma lookup_metadata_newest (strict : ∀ s ∈ rt.current_snapshot.segments, s.Strict)
    (live : w.2.is_deleted = false) (newest : rt.versions.find? (fun x => x.2.id = w.2.id) = some w) :
    (rt.lookup w.2.id).md = w.2.md.getD {} := by
  rw [lookup_metadata strict,newest]
  simp [Reading.value,live]

lemma hit_of_version {S : Type} [LinearOrder S] {env : Searcher S} (live : env.GraphsLive rt) {clock : SearchClock} {topk : UInt32}
    {opts : SearchOptions} {query : Vec} {status : Status} {hits : List (SearchHit S)}
    (search : runtimeSearch env rt clock topk opts query = some (status,hits)) {hit : SearchHit S} (member : hit ∈ hits) :
    ∃ w ∈ rt.versions, w.2.id = hit.id ∧ rt.shown (rt.visibility clock.batch) env.farther (clock.query 0) opts w = true := by
  by_cases sized : query.length = rt.dim.toNat
  swap
  · rw [runtimeSearch,if_pos sized] at search
    cases search
    cases member
  by_cases wanted : topk = 0
  · grind [runtimeSearch]
  rw [runtimeSearch_eq env rt clock topk opts sized wanted,env.searchLocalInternal_visits,Option.map_map] at search
  obtain ⟨items,all,result⟩ := Option.map_eq_some_iff.mp search
  have closed : ∀ x ∈ items, rt.useVisibility = true → (rt.visibility clock.batch).Closed x.id := by
    intro x inside
    obtain ⟨w,there,_,id,_⟩ := env.visit_of_version _ _ _ _ _ (fun _ => live) all inside
    rw [← id]
    exact visibility_closed clock.batch w there
  rw [Function.comp_apply,foldl_visit_closed items closed,nil_append] at result
  cases result
  obtain ⟨x,inside,rfl⟩ := mem_map.mp ((env.finalize_subperm topk _).subset member)
  obtain ⟨visited,shown⟩ := mem_filter.mp inside
  obtain ⟨visible,pass⟩ := Bool.and_eq_true_iff.mp shown
  obtain ⟨w,there,source,id,deleted,passes⟩ := env.visit_of_version _ _ _ _ _ (fun _ => live) all visited
  refine ⟨w,there,id,?_⟩
  rw [VectorRuntime.shown,source,id,deleted,visible,passes pass]
  rfl

variable (rt) in
/-- The newest entries in segments match where nothing tests them, and so do the ids the table of
visibility does not have. -/
structure Restricted (clock : SearchClock) (farther : Farther) (opts : SearchOptions) : Prop where
  segments : opts.filters = [] → ∀ w ∈ rt.versions, rt.searchTables.length ≤ w.1 →
    rt.versions.find? (fun x => x.2.id = w.2.id) = some w → w.2.is_deleted = false →
      vectorMetaExpired rt.ttl_sec clock.batch (w.2.md.getD {}) = false → opts.matches_ farther (w.2.md.getD {}) = true
  unrecorded : rt.useVisibility = true → ∀ w ∈ rt.versions, (rt.visibility clock.batch).find w.2.id = none →
    w.2.is_deleted = false → rt.passes farther (clock.query 0) opts w = true → opts.matches_ farther (rt.lookup w.2.id).md = true

variable (rt) in
def SearchesMatching (clock : SearchClock) (farther : Farther) (opts : SearchOptions) : Prop :=
  ∀ (S : Type) [LinearOrder S] (env : Searcher S), env.farther = farther → env.GraphsLive rt →
    ∀ (topk : UInt32) (query : Vec) (status : Status) (hits : List (SearchHit S)),
      runtimeSearch env rt clock topk opts query = some (status,hits) →
        ∀ hit ∈ hits, opts.matches_ farther (rt.lookup hit.id).md = true

variable {clock : SearchClock} {farther : Farther} {opts : SearchOptions}

lemma unexpired_of_shows (newest : rt.versions.find? (fun x => x.2.id = w.2.id) = some w)
    (shows : (rt.visibility clock.batch).shows rt.useVisibility w.1 w.2.id w.2.is_deleted = true)
    (recorded : rt.useVisibility = true → (rt.visibility clock.batch).find w.2.id ≠ none) :
    vectorMetaExpired rt.ttl_sec clock.batch (w.2.md.getD {}) = false := by
  cases used : rt.useVisibility with
  | false =>
    simp only [useVisibility,Bool.or_eq_false_iff,decide_eq_false_iff_not] at used
    simp [vectorMetaExpired,used.2]
  | true =>
    obtain ⟨e,found⟩ := Option.ne_none_iff_exists'.mp (recorded used)
    obtain ⟨first,same,rfl⟩ := (visibility_covers used clock.batch).first _ _ found
    rw [newest] at same
    cases same
    simp only [Visibility.shows,used,found,entryOf,Bool.and_eq_true,Bool.not_true,Bool.false_or,Option.all_some,Bool.not_eq_true',
      Bool.or_eq_false_iff] at shows
    exact shows.2.2.2

lemma Restricted.matches_shown (strict : ∀ s ∈ rt.current_snapshot.segments, s.Strict) (restricted : rt.Restricted clock farther opts)
    (member : w ∈ rt.versions) (shown : rt.shown (rt.visibility clock.batch) farther (clock.query 0) opts w = true) :
    opts.matches_ farther (rt.lookup w.2.id).md = true := by
  obtain ⟨visible,pass⟩ := Bool.and_eq_true_iff.mp shown
  have live : w.2.is_deleted = false := by simpa using (Bool.and_eq_true_iff.mp visible).1
  by_cases missing : rt.useVisibility = true ∧ (rt.visibility clock.batch).find w.2.id = none
  · exact restricted.unrecorded missing.1 w member missing.2 live pass
  have recorded : rt.useVisibility = true → (rt.visibility clock.batch).find w.2.id ≠ none := fun used absent => missing ⟨used,absent⟩
  have newest := newest_of_shown strict member visible recorded
  rw [lookup_metadata_newest strict live newest]
  by_cases table : w.1 < rt.searchTables.length
  · rw [passes,if_pos table,Bool.and_eq_true] at pass
    exact pass.2
  by_cases filtered : opts.filters = []
  · exact restricted.segments filtered w member (Nat.le_of_not_lt table) newest live (unexpired_of_shows newest visible recorded)
  · simpa [passes,table,SearchOptions.hasFilters,filtered] using pass

lemma restricted_of_shown (strict : ∀ s ∈ rt.current_snapshot.segments, s.Strict)
    (each : ∀ w ∈ rt.versions, rt.shown (rt.visibility clock.batch) farther (clock.query 0) opts w = true →
      opts.matches_ farther (rt.lookup w.2.id).md = true) : rt.Restricted clock farther opts where
  segments := by
    intro unfiltered w member segment newest live unexpired
    rw [← lookup_metadata_newest strict live newest]
    refine each w member ?_
    have pass : rt.passes farther (clock.query 0) opts w = true := by
      simp [passes,Nat.not_lt.mpr segment,SearchOptions.hasFilters,unfiltered]
    rw [shown,pass,Bool.and_true,Visibility.shows,live]
    cases used : rt.useVisibility with
    | false => rfl
    | true =>
      cases found : (rt.visibility clock.batch).find w.2.id with
      | none => rfl
      | some e =>
        obtain ⟨first,same,rfl⟩ := (visibility_covers used clock.batch).first _ _ found
        rw [newest] at same
        cases same
        simp [entryOf,live,unexpired]
  unrecorded := by
    intro used w member absent live pass
    simp [*,shown,Visibility.shows]

def measuring (farther : Farther) : Searcher Int := {plainSearcher with farther}

/-- The newest metadata of all hits matches if the store is restricted, and only then while all
versions can be asked for. -/
theorem search_matches_iff (strict : ∀ s ∈ rt.current_snapshot.segments, s.Strict) :
    (rt.Restricted clock farther opts → rt.SearchesMatching clock farther opts) ∧
      (opts.temporal = none → rt.versions.length < 2 ^ 32 → rt.SearchesMatching clock farther opts →
        rt.Restricted clock farther opts) := by
  constructor
  · rintro restricted S _ env rfl live topk query status hits search hit member
    obtain ⟨w,there,id,shown⟩ := hit_of_version live search member
    rw [← id]
    exact restricted.matches_shown strict there shown
  · intro timeless few matching
    refine restricted_of_shown strict ?_
    intro w member shown
    have sized : (replicate rt.dim.toNat (0 : UInt32)).length = rt.dim.toNat := length_replicate
    obtain ⟨hits,search,_,all⟩ := search_hits rt (measuring farther) (fun _ => rfl) clock 4294967295 timeless sized
    have perm := all (by
      have less := length_filter_le (rt.shown (rt.visibility clock.batch) farther (clock.query 0) opts) rt.versions
      have most : (4294967295 : UInt32).toNat = 2 ^ 32 - 1 := rfl
      rw [length_map,most]
      change (rt.versions.filter (rt.shown (rt.visibility clock.batch) farther (clock.query 0) opts)).length ≤ _
      omega)
    have graphs : (measuring farther).GraphsLive rt := by
      intro s _ graph absent
      cases absent
    have inside := perm.mem_iff.mpr (mem_map_of_mem (mem_filter.mpr ⟨member,shown⟩))
    have matched := matching Int (measuring farther) rfl graphs 4294967295 _ .Ok hits search _ inside
    rwa [show ((measuring farther).hitOf _ w).id = w.2.id from rfl] at matched

def partitioned : VectorRuntime := {openedStore with
  current_snapshot := ⟨[],[⟨1,[⟨1,[7],false,{device_id := ascii "a"}⟩,⟨2,[],true,{}⟩],by simp⟩]⟩}

theorem search_matches_partitioned :
    partitioned.SearchesMatching ⟨0,fun _ => 0⟩ (fun _ _ _ _ _ => false) {partition_device_id := ascii "a"} := by
  have strict : ∀ s ∈ partitioned.current_snapshot.segments, s.Strict := by
    intro s member
    rw [mem_singleton.mp member]
    simp [Segment.Strict]
  refine (search_matches_iff strict).1 ⟨?_,?_⟩
  · intro _ w member _ _ live _
    have versions : partitioned.versions = [(1,⟨1,[7],false,some {device_id := ascii "a"}⟩),(1,⟨2,[],true,some {}⟩)] := by rfl
    rw [versions] at member
    rcases mem_pair.mp member with rfl | rfl
    · rfl
    · cases live
  · intro used
    cases used

def otherDevice : VectorRuntime := (openedStore.put [] 1 [7] {tenant := ascii "t",device_id := ascii "b"}).1

/-- A search leaves the entry out, until it is frozen. -/
theorem freezing_shows_other_device :
    runtimeSearch plainSearcher otherDevice ⟨0,fun _ => 0⟩ 1 {partition_device_id := ascii "a"} [2] = some (.Ok,[]) ∧
    runtimeSearch plainSearcher (otherDevice.freeze (replicate 20 0)).1 ⟨0,fun _ => 0⟩ 1 {partition_device_id := ascii "a"} [2] =
      some (.Ok,[⟨1,14⟩]) ∧ SearchOptions.matches_ (fun _ _ _ _ _ => false) {partition_device_id := ascii "a"}
      ((otherDevice.freeze (replicate 20 0)).1.lookup 1).md = false := by
  refine ⟨?_,?_,?_⟩
  · decide +kernel
  · decide +kernel
  · decide +kernel

end VectorRuntime
end PomaiCache
