import PomaiCache.IteratorReads
import PomaiCache.Options
import PomaiCache.Ranking
import PomaiCache.Text

/-!
Search in a vector membrane. All versions are walked, the newest layer first.
-/
namespace PomaiCache
open Codec Options Ranking Text

structure Filter where
  field : Bytes := []
  value : Bytes := []
  min_ts : UInt64 := 0
  max_ts : UInt64 := 0
  spatial_lat : UInt64 := 0
  spatial_lon : UInt64 := 0
  spatial_radius : UInt64 := 0
  is_radius_query : Bool := false
  deriving DecidableEq, Repr

/-- `farther lat lon spatial_lat spatial_lon spatial_radius` is the test of the distance in doubles. -/
abbrev Farther := UInt64 → UInt64 → UInt64 → UInt64 → UInt64 → Bool

/-- `Filter::Matches`. A field of another name is not tested. -/
def Filter.matches_ (farther : Farther) (f : Filter) (md : Metadata) : Bool :=
  if f.field = ascii "tenant" then md.tenant == f.value
  else if f.field = ascii "device_id" then md.device_id == f.value
  else if f.field = ascii "location_id" then md.location_id == f.value
  else if f.field = ascii "timestamp" then
    !(decide (f.min_ts > 0) && decide (md.timestamp < f.min_ts)) && !(decide (f.max_ts > 0) && decide (md.timestamp > f.max_ts))
  else if f.field = ascii "spatial" && f.is_radius_query then
    !farther md.lat md.lon f.spatial_lat f.spatial_lon f.spatial_radius
  else true

/-- The options that decide on hits. -/
structure SearchOptions where
  filters : List Filter := []
  as_of_ts : UInt64 := 0
  as_of_lsn : UInt64 := 0
  partition_device_id : Bytes := []
  partition_location_id : Bytes := []
  deriving DecidableEq, Repr

namespace SearchOptions

/-- `SearchOptions::Matches`, which `FilterEvaluator::Matches` calls. -/
def matches_ (farther : Farther) (opts : SearchOptions) (md : Metadata) : Bool :=
  !(decide (opts.as_of_ts > 0) && decide (md.timestamp > opts.as_of_ts)) &&
    !(decide (opts.as_of_lsn > 0) && decide (md.lsn > opts.as_of_lsn)) &&
    (opts.partition_device_id.isEmpty || md.device_id == opts.partition_device_id) &&
    (opts.partition_location_id.isEmpty || md.location_id == opts.partition_location_id) &&
    opts.filters.all fun f => f.matches_ farther md

def hasFilters (opts : SearchOptions) : Bool := !opts.filters.isEmpty

def temporal (opts : SearchOptions) : Option (UInt64 × UInt64) :=
  (opts.filters.find? fun f => f.field = ascii "timestamp").map fun f => (f.min_ts,f.max_ts)

end SearchOptions

structure VisibilityEntry where
  is_tombstone : Bool
  source : Nat
  deriving DecidableEq, Repr

/-- `size_ >= cap * 0.7` for the capacity 131072 holds from this size on. -/
def kVisibilityLimit : Nat := 91751

/-- `SearchMergePolicy` over a `FixedHashTable`: the ids in the order of their insertion.
Nothing is removed and the load stays below the capacity, so probing finds what was put. -/
abbrev Visibility := List (VectorId × VisibilityEntry)

namespace Visibility

def find (v : Visibility) (id : VectorId) : Option VisibilityEntry := (List.find? (fun n => n.1 = id) v).map Prod.snd

def insert (v : Visibility) (id : VectorId) (e : VisibilityEntry) : Visibility :=
  if v.length ≥ kVisibilityLimit then v else if (v.find id).isSome then v else v ++ [(id,e)]

def checkAndAdd (v : Visibility) (id : VectorId) (source : Nat) (is_tombstone : Bool) : Visibility × Bool :=
  match v.find id with
  | some entry => (v,decide (entry.source = source) && !entry.is_tombstone)
  | none => (v.insert id ⟨ is_tombstone,source⟩,!is_tombstone)

end Visibility

structure SearchHit (S : Type) where
  id : VectorId
  score : S
  deriving DecidableEq

/-- What a segment has besides its entries. Where it is quantized, scores come from its codes;
the paths with and without the visibility table compute them differently. -/
structure SegmentAids (S : Type) where
  hnsw : Option (Vec → UInt32 → UInt32 → Option (List (VectorId × S))) := none
  index : Option (Vec → UInt32 → Option (List Nat)) := none
  fastCodes : Option (Vec → Nat → S) := none
  codes : Option (Vec → Nat → S) := none

/-- The settings of a runtime that search uses, the arithmetic of scores, and `std::sort` of
the final hits, which may leave hits of one score in any order. -/
structure Searcher (S : Type) [LinearOrder S] where
  metric : MetricType
  params : Options.IndexParams
  dot : Vec → Vec → S
  l2sq : Vec → Vec → S
  neg : S → S
  farther : Farther
  aids : Nat → SegmentAids S
  sort : List (SearchHit S) → List (SearchHit S)
  sort_perm : ∀ hits, (sort hits).Perm hits
  sort_descending : ∀ hits, Descending SearchHit.score (sort hits)

section
variable {S : Type} [LinearOrder S]

def isBetterHit (a b : SearchHit S) : Bool := if a.score ≠ b.score then decide (a.score > b.score) else decide (a.id < b.id)

def worseHit (a b : SearchHit S) : Bool := if a.score ≠ b.score then decide (a.score > b.score) else decide (a.id > b.id)

/-- `VectorHitSink::Push` on a heap in the order of its pops, with a hit on top that is below no other. -/
def pushHit (k : Nat) (heap : List (SearchHit S)) (hit : SearchHit S) : List (SearchHit S) :=
  if k = 0 then heap
  else if heap.length < k then heap.orderedInsert (fun a b => ¬worseHit a b = true) hit
  else
    match heap with
    | [] => []
    | top :: rest => if isBetterHit hit top then rest.orderedInsert (fun a b => ¬worseHit a b = true) hit else heap

def Searcher.finalize (env : Searcher S) (topk : UInt32) (pushed : List (SearchHit S)) : List (SearchHit S) :=
  env.sort (pushed.foldl (pushHit topk.toNat) [])

/-- `GetByTimeRange`: from the first time that is not before `start` to the last one that is
not after `end`. If the second comes before the first, the loop runs past the end. -/
def timeRange {α : Type} (time : α → UInt64) (items : List α) (start_ts end_ts : UInt64) : Option (List α) :=
  let first := (items.takeWhile fun a => time a < start_ts).length
  let last := (items.takeWhile fun a => time a ≤ end_ts).length
  if first ≤ last then some ((items.drop first).take (last - first)) else none

abbrev Scan (S : Type) := Visibility × List (SearchHit S)

/-- The body shared by the loops: the visibility test, the tombstone, a further test, the push. -/
def Scan.score (use_visibility : Bool) (source : Nat) (st : Scan S) (id : VectorId) (is_deleted pass : Bool) (s : S) : Scan S :=
  let checked := if use_visibility then st.1.checkAndAdd id source is_deleted else (st.1,true)
  (checked.1,if checked.2 && !is_deleted && pass then st.2 ++ [⟨id,s⟩] else st.2)

/-- The temporal index of a segment file: the indices in the order of their times. -/
def segmentTimes (readings : List Reading) : List (UInt64 × Nat) :=
  ((readings.map fun r => (r.md.getD {}).timestamp).zipIdx).insertionSort fun a b => a.1 ≤ b.1

def searchTemporal (readings : List Reading) (start_ts end_ts : UInt64) : Option (List Nat) :=
  (timeRange Prod.fst (segmentTimes readings) start_ts end_ts).map fun found => found.map Prod.snd

namespace Searcher
variable (env : Searcher S) (ttl_sec : UInt32) (now_sec : UInt64) (query : Vec) (topk : UInt32) (opts : SearchOptions)
  (use_visibility : Bool)

def scoreOf (vec : Vec) : S :=
  match env.metric with
  | .kL2 => env.neg (env.l2sq query vec)
  | _ => env.dot query vec

def isInnerProduct : Bool := env.metric = .kInnerProduct || env.metric = .kCosine

variable (source : Nat)

def scoreMemtable (mem : MemTable) (st : Scan S) : Option (Scan S) :=
  match opts.temporal with
  | some (min_ts,max_ts) => (timeRange Prod.fst mem.temporal_index min_ts max_ts).map fun found =>
      found.foldl (fun st pair =>
        match mem.get pair.2 with
        | .error _ => st
        | .ok (p,md) =>
          if VectorRuntime.vectorMetaExpired ttl_sec now_sec md then st
          else st.score use_visibility source pair.2 false (opts.matches_ env.farther md) (env.scoreOf query p.floats)) st
  | none => some (mem.iterateWithMetadata.foldl (fun st r =>
      let md := r.md.getD {}
      st.score use_visibility source r.id r.is_deleted
        (!VectorRuntime.vectorMetaExpired ttl_sec now_sec md && opts.matches_ env.farther md) (env.scoreOf query r.vec)) st)

/-- `BitsetMask::BuildFromSegment` with filters: the indices whose entries pass. -/
def buildFromSegment (readings : List Reading) : Option (List Nat) :=
  let passes : Nat → Bool := fun i => (readings[i]?).any fun r => !r.is_deleted && opts.matches_ env.farther (r.md.getD {})
  match opts.temporal with
  | some (min_ts,max_ts) => (searchTemporal readings min_ts max_ts).map (·.filter passes)
  | none => some ((List.range readings.length).filter passes)

def effectiveNprobe : UInt32 :=
  let nprobe := if env.params.nprobe = 0 then 1 else env.params.nprobe
  if opts.hasFilters && decide (nprobe < 8) then min 32 (nprobe * 8) else nprobe

variable (aids : SegmentAids S)

/-- The hits of the graph, where the segment is large enough and has one that finds any. -/
def graphHits (count : Nat) : Option (List (VectorId × S)) :=
  if count ≥ env.params.adaptive_threshold.toNat then
    aids.hnsw.bind fun search =>
      (search query topk (max env.params.hnsw_ef_search (topk * 2))).bind fun found => if found.isEmpty then none else some found
  else none

def candidates : Option (List Nat) :=
  match aids.index with
  | none => some []
  | some search => search query (env.effectiveNprobe opts)

def scoreAt (readings : List Reading) (mask : Option (List Nat)) (s : Reading → Nat → S) (st : Scan S) (i : Nat) :
    Option (Scan S) :=
  (readings[i]?).map fun r => st.score use_visibility source r.id r.is_deleted (mask.all fun m => m.contains i) (s r i)

/-- The candidates of the index in order, where the segment is large enough to use them. -/
def sortedCandidates (count : Nat) : List Nat :=
  if count ≥ env.params.adaptive_threshold.toNat && aids.index.isSome then
    (((env.candidates query opts aids).getD []).insertionSort (· ≤ ·)).dedup
  else []

/-- The path behind the fast ones: the candidates of the index or, without any, all entries. -/
def scoreEntries (aids : SegmentAids S) (readings : List Reading) (mask : Option (List Nat)) (st : Scan S) : Scan S :=
  let found := env.sortedCandidates query opts aids readings.length
  if found.isEmpty then
    (List.range readings.length).foldl (fun st i =>
      (scoreAt use_visibility source readings mask (fun r _ => env.scoreOf query r.vec) st i).getD st) st
  else
    -- entries outside the segment are skipped here
    found.foldl (fun st i => (scoreAt use_visibility source readings mask (fun r i =>
      match aids.codes with
      | some code => code query i
      | none => env.scoreOf query r.vec) st i).getD st) st

def scoreSegment (aids : SegmentAids S) (seg : Segment) (st : Scan S) : Option (Scan S) :=
  let readings := seg.readings
  if opts.hasFilters then
    (env.buildFromSegment opts readings).map fun mask =>
      env.scoreEntries query opts use_visibility source aids readings (some mask) st
  else if use_visibility then some (env.scoreEntries query opts use_visibility source aids readings none st)
  else
    match env.graphHits query topk aids readings.length with
    | some found => some (found.foldl (fun st hit =>
        st.score use_visibility source hit.1 false true (if env.isInnerProduct then hit.2 else env.neg hit.2)) st)
    | none =>
      match aids.fastCodes, env.candidates query opts aids with
      | some code, some found => found.foldlM (scoreAt use_visibility source readings none fun _ i => code query i) st
      | _, _ => some (env.scoreEntries query opts use_visibility source aids readings none st)

/-- `SearchLocalInternal`: the active table, the frozen ones with the newest first, the segments.
A source is known by its place in this order. -/
def searchLocalInternal (rt : VectorRuntime) (st : Scan S) : Option (Scan S) :=
  let tables := rt.mem :: rt.current_snapshot.frozen_memtables.reverse
  let segments := rt.current_snapshot.segments
  (tables.zipIdx.foldlM (fun st m => env.scoreMemtable rt.ttl_sec now_sec query opts use_visibility m.2 m.1 st) st).bind fun st =>
    segments.zipIdx.foldlM (fun st s =>
      env.scoreSegment query topk opts use_visibility (tables.length + s.2) (env.aids s.2) s.1 st) st

end Searcher
end

namespace VectorRuntime
variable (rt : VectorRuntime)

def useVisibility : Bool :=
  decide (rt.mem.getCount > 0) || !rt.current_snapshot.frozen_memtables.isEmpty || decide (rt.current_snapshot.segments.length > 1) ||
    decide (rt.ttl_sec > 0)

def versions : List (Nat × Reading) :=
  (((rt.mem :: rt.current_snapshot.frozen_memtables.reverse).map MemTable.iterateWithMetadata ++
    rt.current_snapshot.segments.map Segment.readings).zipIdx).flatMap fun layer => layer.1.map fun r => (layer.2,r)

/-- The table of the newest versions. An expired version counts as a tombstone. -/
def visibility (now_sec : UInt64) : Visibility :=
  if rt.useVisibility then
    rt.versions.foldl (fun v version => v.insert version.2.id
      ⟨version.2.is_deleted || vectorMetaExpired rt.ttl_sec now_sec (version.2.md.getD {}),version.1⟩) []
  else []

end VectorRuntime

structure SearchClock where
  batch : UInt64
  query : Nat → UInt64

section
variable {S : Type} [LinearOrder S] (env : Searcher S) (rt : VectorRuntime) (clock : SearchClock) (topk : UInt32) (opts : SearchOptions)

variable (queries : Vec)

def queryAt (i : Nat) : Vec := (queries.drop (i * rt.dim.toNat)).take rt.dim.toNat

/-- The loop over the queries. The result of a query is written to its place, which has to be there. -/
def searchQueries (queries : Vec) : List Nat → Visibility → List (List (SearchHit S)) → Option (List (List (SearchHit S)))
  | [],_,results => some results
  | i :: rest,policy,results =>
    if i < results.length then
      (env.searchLocalInternal (clock.query i) (queryAt rt queries i) topk opts rt.useVisibility rt (policy,[])).bind fun st =>
        searchQueries queries rest st.1 (results.set i (env.finalize topk st.2))
    else none

def searchBatchLocal (indices : List Nat) (results : List (List (SearchHit S))) : Option (Status × List (List (SearchHit S))) :=
  if indices.isEmpty then some (.Ok,results)
  else if queries.length % rt.dim.toNat ≠ 0 then some (.invalidArgument "dim mismatch",results)
  else (searchQueries env rt clock topk opts queries indices (rt.visibility clock.batch) results).map fun results => (.Ok,results)

def runtimeSearch (query : Vec) : Option (Status × List (SearchHit S)) :=
  if query.length ≠ rt.dim.toNat then some (.invalidArgument "dim mismatch",[])
  else if topk = 0 then some (.Ok,[])
  else
    (searchBatchLocal env rt clock topk opts query [0] [[]]).map fun done =>
      if done.1.ok then (done.1,done.2.headD []) else (done.1,[])

def engineSearch (query : Vec) : Option (Status × List (SearchHit S)) :=
  if query.length ≠ rt.dim.toNat then some (.invalidArgument "vector_engine dim mismatch",[])
  else if topk = 0 then some (.Ok,[])
  else runtimeSearch env rt clock topk opts query

/-- `VectorEngine::SearchBatch`: the hits of its results. The vector handed to
`SearchBatchLocal` was made without a size. -/
def engineSearchBatch (num_queries : UInt32) : Option (Status × List (List (SearchHit S))) :=
  if queries.length ≠ num_queries.toNat * rt.dim.toNat then
    some (.invalidArgument "vector_engine queries dimension mismatch for batch search",[])
  else
    let out := List.replicate num_queries.toNat []
    if num_queries = 0 || topk = 0 then some (.Ok,out)
    else
      (searchBatchLocal env rt clock topk opts queries (List.range num_queries.toNat) []).bind fun done =>
        if done.1.ok then
          -- `per_query[i]` for every query
          ((List.range num_queries.toNat).mapM fun i => done.2[i]?).map fun hits => (done.1,hits)
        else some (done.1,out)

lemma searchBatchLocal_unsized {queries : Vec} {indices : List Nat} (some_ : indices ≠ [])
    (whole : queries.length % rt.dim.toNat = 0) :
    searchBatchLocal env rt clock topk opts queries indices [] = none := by
  cases indices with
  | nil => exact absurd rfl some_
  | cons i rest => simp [searchBatchLocal,whole,searchQueries]

/-- A batch has the results of its queries, and no access goes outside, exactly if no hits are wanted. -/
theorem search_batch_same_iff (queries : Vec) (num_queries : UInt32) (some_ : 1 ≤ num_queries.toNat)
    (sized : queries.length = num_queries.toNat * rt.dim.toNat) :
    (∃ results, engineSearchBatch env rt clock topk opts queries num_queries = some (.Ok,results) ∧
      results.length = num_queries.toNat ∧ ∀ i hits, results[i]? = some hits →
        engineSearch env rt ⟨clock.batch,fun _ => clock.query i⟩ topk opts (queryAt rt queries i) = some (.Ok,hits)) ↔
      topk = 0 := by
  have nonzero : num_queries ≠ 0 := by
    rintro rfl
    simp at some_
  constructor
  · rintro ⟨results,batch,_⟩
    by_contra wanted
    have whole : queries.length % rt.dim.toNat = 0 := by rw [sized,Nat.mul_mod_left]
    have indices : List.range num_queries.toNat ≠ [] := by
      rw [Ne,List.range_eq_nil]
      omega
    grind [searchBatchLocal_unsized,engineSearchBatch]
  · rintro rfl
    refine ⟨List.replicate num_queries.toNat [],?_,by simp,?_⟩
    · simp [engineSearchBatch,sized]
    · intro i hits at_
      obtain ⟨inside,rfl⟩ := List.getElem?_eq_some_iff.mp at_
      have below : i < num_queries.toNat := by simpa using inside
      have length : (queryAt rt queries i).length = rt.dim.toNat := by
        have more : (i + 1) * rt.dim.toNat ≤ num_queries.toNat * rt.dim.toNat := Nat.mul_le_mul_right _ below
        rw [Nat.add_mul,Nat.one_mul] at more
        rw [queryAt,List.length_take,List.length_drop,sized]
        omega
      simp [engineSearch,length]

end

def plainSearcher : Searcher Int where
  metric := .kInnerProduct
  params := {}
  dot q v := (q.zip v).foldl (fun sum pair => sum + pair.1.toNat * pair.2.toNat) 0
  l2sq q v := (q.zip v).foldl (fun sum pair => sum + ((pair.1.toNat : Int) - pair.2.toNat) ^ 2) 0
  neg := Int.neg
  farther _ _ _ _ _ := false
  aids _ := {}
  sort hits := hits.insertionSort fun a b => b.score ≤ a.score
  sort_perm _ := List.perm_insertionSort _ _
  sort_descending hits := descending_insertionSort SearchHit.score hits

theorem search_batch_same_none : ∃ results, engineSearchBatch plainSearcher .openedStore ⟨0,fun _ => 0⟩ 0 {} [7,8] 2 =
    some (.Ok,results) ∧ results.length = 2 := by
  obtain ⟨results,batch,length,_⟩ := (search_batch_same_iff plainSearcher .openedStore ⟨0,fun _ => 0⟩ 0 {} [7,8] 2
    (by decide) (by decide)).mpr rfl
  exact ⟨results,batch,length⟩

/-- The query finds the vector by itself; the batch of this one query writes outside. -/
theorem search_batch_outside :
    engineSearch plainSearcher (VectorRuntime.openedStore.put [] 1 [7] {}).1 ⟨0,fun _ => 0⟩ 1 {} [2] = some (.Ok,[⟨1,14⟩]) ∧
    engineSearchBatch plainSearcher (VectorRuntime.openedStore.put [] 1 [7] {}).1 ⟨0,fun _ => 0⟩ 1 {} [2] 1 = none := by
  refine ⟨by decide +kernel,by decide +kernel⟩

end PomaiCache
