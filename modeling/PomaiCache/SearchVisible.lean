import PomaiCache.HitSinks

/-!
Which versions a search shows. The visibility table is filled with the newest version of each
id before the queries run, but takes no further ids when it is loaded to its limit; an id it
has no entry for is shown in every version that is not deleted.
-/
namespace PomaiCache
open Layers Options Text List

namespace Visibility

lemma find_append (v : Visibility) {id : VectorId} (e : VisibilityEntry) (absent : v.find id = none) (other : VectorId) :
    find (v ++ [(id,e)]) other = if other = id then some e else v.find other := by
  have none_ : List.find? (fun n => decide (n.1 = id)) v = none := by simpa [find] using absent
  by_cases same : other = id
  · subst same
    simp [find,List.find?_append,none_]
  · simp [find,List.find?_append,same,Ne.symm same]

/-- The table after some versions came by: what it has is the first version of its id, and while
it has room it has every id. -/
structure Covers (entry : Nat × Reading → VisibilityEntry) (done : List (Nat × Reading)) (v : Visibility) : Prop where
  first : ∀ id e, v.find id = some e → ∃ w, done.find? (fun w => w.2.id = id) = some w ∧ e = entry w
  room : v.length < kVisibilityLimit → ∀ w ∈ done, v.find w.2.id ≠ none

variable {entry : Nat × Reading → VisibilityEntry} {done : List (Nat × Reading)} {v : Visibility}

lemma Covers.insert (covers : Covers entry done v) (w : Nat × Reading) :
    Covers entry (done ++ [w]) (v.insert w.2.id (entry w)) := by
  -- What was first stays first.
  have kept : ∀ id e, v.find id = some e → ∃ x, (done ++ [w]).find? (fun w => w.2.id = id) = some x ∧ e = entry x := by
    grind [first]
  by_cases full : v.length ≥ kVisibilityLimit
  · rw [Visibility.insert,if_pos full]
    exact ⟨kept,fun less => absurd less (Nat.not_lt.mpr full)⟩
  rw [Visibility.insert,if_neg full]
  have known := covers.room (Nat.lt_of_not_le full)
  by_cases old : (v.find w.2.id).isSome
  · rw [if_pos old]
    refine ⟨kept,fun _ x member => ?_⟩
    grind
  rw [if_neg old]
  have absent : v.find w.2.id = none := by simpa using old
  refine ⟨?_,?_⟩
  · intro id e found
    rw [find_append v _ absent] at found
    grind
  · intro _ x member
    rw [find_append v _ absent]
    grind

lemma covers_foldl (versions : List (Nat × Reading)) : ∀ {done : List (Nat × Reading)} {v : Visibility}, Covers entry done v →
      Covers entry (done ++ versions) (versions.foldl (fun v w => v.insert w.2.id (entry w)) v) := by
  induction versions with
  | nil =>
    intro done v covers
    simpa using covers
  | cons w rest ih =>
    intro done v covers
    have more := ih (covers.insert w)
    simpa using more

/-- The id has an entry, or the table takes none any more. -/
def Closed (v : Visibility) (id : VectorId) : Prop := v.find id ≠ none ∨ v.length ≥ kVisibilityLimit

lemma Covers.closed (covers : Covers entry done v) {w : Nat × Reading} (member : w ∈ done) : v.Closed w.2.id := by
  by_cases full : v.length ≥ kVisibilityLimit
  · exact .inr full
  · exact .inl (covers.room (Nat.lt_of_not_le full) w member)

lemma Covers.full (covers : Covers entry done v) (ids : List VectorId) (distinct : ids.Nodup)
    (known : ∀ id ∈ ids, ∃ w ∈ done, w.2.id = id) (many : kVisibilityLimit ≤ ids.length) : kVisibilityLimit ≤ v.length := by
  by_contra room
  have inside : ids ⊆ v.map Prod.fst := by
    intro id member
    obtain ⟨w,seen,rfl⟩ := known id member
    obtain ⟨e,found⟩ := Option.ne_none_iff_exists'.mp (covers.room (Nat.lt_of_not_le room) w seen)
    obtain ⟨n,at_,_⟩ := Option.map_eq_some_iff.mp found
    grind
  have less := (subperm_of_subset distinct inside).length_le
  rw [length_map] at less
  omega

lemma foldl_insert_full (full : kVisibilityLimit ≤ v.length) (versions : List (Nat × Reading)) :
    versions.foldl (fun v w => v.insert w.2.id (entry w)) v = v := by
  induction versions with
  | nil => rfl
  | cons w rest ih => rw [foldl_cons,Visibility.insert,if_pos full,ih]

def shows (v : Visibility) (use_visibility : Bool) (source : Nat) (id : VectorId) (is_deleted : Bool) : Bool :=
  !is_deleted && (!use_visibility || (v.find id).all fun e => decide (e.source = source) && !e.is_tombstone)

end Visibility

section Scans
variable {S : Type}

variable {v : Visibility}

lemma Visibility.checkAndAdd_closed {id : VectorId} (closed : v.Closed id) (source : Nat) (is_tombstone : Bool) :
    v.checkAndAdd id source is_tombstone =
      (v,(v.find id).elim (!is_tombstone) fun e => decide (e.source = source) && !e.is_tombstone) := by
  simp only [checkAndAdd]
  split
  · rename_i e found
    rw [found]
    rfl
  · rename_i found
    have full : v.length ≥ kVisibilityLimit := closed.resolve_left (not_not.mpr found)
    rw [Visibility.insert,if_pos full,found]
    rfl

lemma Scan.score_closed {id : VectorId}
    (closed : use_visibility = true → v.Closed id) (source : Nat) (hits : List (SearchHit S)) (is_deleted pass : Bool) (s : S) :
    Scan.score use_visibility source (v,hits) id is_deleted pass s =
      (v,hits ++ if v.shows use_visibility source id is_deleted && pass then [⟨id,s⟩] else []) := by
  cases use_visibility with
  | false => cases is_deleted <;> cases pass <;> simp [Scan.score,Visibility.shows]
  | true =>
    rw [Scan.score,if_pos rfl,Visibility.checkAndAdd_closed (closed rfl)]
    rcases Option.eq_none_or_eq_some (v.find id) with found | ⟨e,found⟩
    · cases is_deleted <;> cases pass <;> simp [Visibility.shows,found]
    · grind [Visibility.shows]

structure Visit (S : Type) where
  source : Nat
  id : VectorId
  is_deleted : Bool
  pass : Bool
  score : S

def Visit.hit (x : Visit S) : SearchHit S := ⟨x.id,x.score⟩

def Visit.shown (v : Visibility) (use_visibility : Bool) (x : Visit S) : Bool :=
  v.shows use_visibility x.source x.id x.is_deleted && x.pass

def Scan.visit (use_visibility : Bool) (st : Scan S) (x : Visit S) : Scan S :=
  st.score use_visibility x.source x.id x.is_deleted x.pass x.score

lemma foldl_visit_closed (items : List (Visit S))
    (closed : ∀ x ∈ items, use_visibility = true → v.Closed x.id) (hits : List (SearchHit S)) :
    items.foldl (Scan.visit use_visibility) (v,hits) = (v,hits ++ (items.filter (Visit.shown v use_visibility)).map Visit.hit) := by
  induction items generalizing hits with
  | nil => simp
  | cons x rest ih =>
    grind [Scan.visit,Scan.score_closed,Visit.shown,Visit.hit]

lemma foldlM_map_eq {α β σ : Type} (f : α → Option β) (g : σ → β → σ) (items : List α) (start : σ) :
    items.foldlM (fun st a => (f a).map (g st)) start = (items.mapM f).map fun found => found.foldl g start := by
  induction items generalizing start with
  | nil => rfl
  | cons a rest ih =>
    rw [foldlM_cons,mapM_cons]
    cases f a with
    | none => rfl
    | some b =>
      have more := ih (g start b)
      simp only [Option.map_some,Option.bind_eq_bind,Option.bind_some,more,Option.pure_def]
      cases rest.mapM f <;> rfl

lemma mapM_eq_some {α β : Type} {f : α → Option β} {g : α → β} {items : List α} (each : ∀ a ∈ items, f a = some (g a)) :
    items.mapM f = some (items.map g) := by
  induction items with
  | nil => rfl
  | cons a rest ih =>
    rw [mapM_cons,each a (.head _),ih fun b member => each b (.tail _ member)]
    rfl

end Scans

namespace Searcher
variable {S : Type} [LinearOrder S] (env : Searcher S) (ttl_sec : UInt32) (now_sec : UInt64) (query : Vec) (topk : UInt32)
  (opts : SearchOptions) (use_visibility : Bool)

def memtableVisits (source : Nat) (mem : MemTable) : Option (List (Visit S)) :=
  match opts.temporal with
  | some (min_ts,max_ts) => (timeRange Prod.fst mem.temporal_index min_ts max_ts).map fun found =>
      found.filterMap fun pair =>
        match mem.get pair.2 with
        | .error _ => none
        | .ok (p,md) =>
          if VectorRuntime.vectorMetaExpired ttl_sec now_sec md then none
          else some ⟨source,pair.2,false,opts.matches_ env.farther md,env.scoreOf query p.floats⟩
  | none => some (mem.iterateWithMetadata.map fun r =>
      ⟨source,r.id,r.is_deleted,!VectorRuntime.vectorMetaExpired ttl_sec now_sec (r.md.getD {}) &&
        opts.matches_ env.farther (r.md.getD {}),env.scoreOf query r.vec⟩)

def visitAt (source : Nat) (readings : List Reading) (mask : Option (List Nat)) (s : Reading → Nat → S) (i : Nat) :
    Option (Visit S) :=
  (readings[i]?).map fun r => ⟨source,r.id,r.is_deleted,mask.all fun m => m.contains i,s r i⟩

def entryVisits (source : Nat) (aids : SegmentAids S) (readings : List Reading) (mask : Option (List Nat)) : List (Visit S) :=
  let found := env.sortedCandidates query opts aids readings.length
  if found.isEmpty then
    (List.range readings.length).filterMap (visitAt source readings mask fun r _ => env.scoreOf query r.vec)
  else
    found.filterMap (visitAt source readings mask fun r i =>
      match aids.codes with
      | some code => code query i
      | none => env.scoreOf query r.vec)

def segmentVisits (source : Nat) (aids : SegmentAids S) (seg : Segment) : Option (List (Visit S)) :=
  if opts.hasFilters then
    (env.buildFromSegment opts seg.readings).map fun mask => env.entryVisits query opts source aids seg.readings (some mask)
  else if use_visibility then some (env.entryVisits query opts source aids seg.readings none)
  else
    match env.graphHits query topk aids seg.readings.length with
    | some found => some (found.map fun hit => ⟨source,hit.1,false,true,if env.isInnerProduct then hit.2 else env.neg hit.2⟩)
    | none =>
      match aids.fastCodes, env.candidates query opts aids with
      | some code, some found => found.mapM (visitAt source seg.readings none fun _ i => code query i)
      | _, _ => some (env.entryVisits query opts source aids seg.readings none)

def visits (rt : VectorRuntime) : Option (List (Visit S)) :=
  let tables := rt.mem :: rt.current_snapshot.frozen_memtables.reverse
  (tables.zipIdx.mapM fun m => env.memtableVisits rt.ttl_sec now_sec query opts m.2 m.1).bind fun above =>
    (rt.current_snapshot.segments.zipIdx.mapM fun s =>
      env.segmentVisits query topk opts use_visibility (tables.length + s.2) (env.aids s.2) s.1).map fun below =>
        above.flatten ++ below.flatten

variable (source : Nat)

lemma scoreMemtable_visits (mem : MemTable) (st : Scan S) :
    env.scoreMemtable ttl_sec now_sec query opts use_visibility source mem st =
      (env.memtableVisits ttl_sec now_sec query opts source mem).map fun items => items.foldl (Scan.visit use_visibility) st := by
  rw [scoreMemtable,memtableVisits]
  cases opts.temporal with
  | none => simp [foldl_map,Scan.visit]
  | some range =>
    simp only [Option.map_map]
    congr 1
    funext found
    rw [Function.comp_apply,foldl_filterMap]
    refine foldl_ext _ _ _ ?_
    grind [VectorRuntime.vectorMetaExpired,Scan.visit]

omit [LinearOrder S] in
lemma scoreAt_visit (readings : List Reading) (mask : Option (List Nat)) (s : Reading → Nat → S) (st : Scan S) (i : Nat) :
    scoreAt use_visibility source readings mask s st i = (visitAt source readings mask s i).map (Scan.visit use_visibility st) := by
  rw [scoreAt,visitAt,Option.map_map]
  rfl

lemma scoreEntries_visits (aids : SegmentAids S) (readings : List Reading) (mask : Option (List Nat)) (st : Scan S) :
    env.scoreEntries query opts use_visibility source aids readings mask st =
      (env.entryVisits query opts source aids readings mask).foldl (Scan.visit use_visibility) st := by
  have walk : ∀ (indices : List Nat) (s : Reading → Nat → S),
      indices.foldl (fun st i => (scoreAt use_visibility source readings mask s st i).getD st) st =
        (indices.filterMap (visitAt source readings mask s)).foldl (Scan.visit use_visibility) st := by
    grind [foldl_filterMap,scoreAt_visit]
  rw [scoreEntries,entryVisits]
  split
  · exact walk _ _
  · exact walk _ _

lemma scoreSegment_visits (aids : SegmentAids S) (seg : Segment) (st : Scan S) :
    env.scoreSegment query topk opts use_visibility source aids seg st =
      (env.segmentVisits query topk opts use_visibility source aids seg).map fun items =>
        items.foldl (Scan.visit use_visibility) st := by
  rw [scoreSegment,segmentVisits]
  split
  · rw [Option.map_map]
    congr 1
    funext mask
    exact scoreEntries_visits env query opts use_visibility source aids seg.readings (some mask) st
  split
  · rw [scoreEntries_visits,Option.map_some]
  have entries := scoreEntries_visits env query opts use_visibility source aids seg.readings none st
  cases env.graphHits query topk aids seg.readings.length with
  | some found =>
    simp only [Option.map_some,foldl_map]
    rfl
  | none =>
    cases aids.fastCodes with
    | none => simp [entries]
    | some code =>
      cases env.candidates query opts aids with
      | none => simp [entries]
      | some found =>
        simp only [← foldlM_map_eq]
        congr 1
        grind [scoreAt_visit]

lemma searchLocalInternal_visits (rt : VectorRuntime) (st : Scan S) :
    env.searchLocalInternal now_sec query topk opts use_visibility rt st =
      (env.visits now_sec query topk opts use_visibility rt).map fun items => items.foldl (Scan.visit use_visibility) st := by
  rw [searchLocalInternal,visits]
  simp only [scoreMemtable_visits,scoreSegment_visits,foldlM_map_eq]
  rcases List.mapM _ _ with _ | above
  · rfl
  rcases List.mapM _ _ with _ | below
  · rfl
  · simp [foldl_flatten]

end Searcher

namespace VectorRuntime
variable (rt : VectorRuntime)

def searchTables : List MemTable := rt.mem :: rt.current_snapshot.frozen_memtables.reverse

lemma versions_eq : rt.versions = (rt.searchTables.zipIdx.flatMap fun m => m.1.iterateWithMetadata.map fun r => (m.2,r)) ++
      rt.current_snapshot.segments.zipIdx.flatMap fun s => s.1.readings.map fun r => (rt.searchTables.length + s.2,r) := by
  have offset : rt.current_snapshot.segments.zipIdx rt.searchTables.length =
      rt.current_snapshot.segments.zipIdx.map (Prod.map id (· + rt.searchTables.length)) := by
    rw [map_snd_add_zipIdx_eq_zipIdx,Nat.add_zero]
  have below : (rt.current_snapshot.segments.map Segment.readings).zipIdx (rt.searchTables.map MemTable.iterateWithMetadata).length =
      rt.current_snapshot.segments.zipIdx.map fun s => (s.1.readings,rt.searchTables.length + s.2) := by
    simp [length_map,zipIdx_map,offset,map_map,Prod.map,Nat.add_comm]
  rw [versions,zipIdx_append,flatMap_append]
  congr 1
  · rw [zipIdx_map,flatMap_map]
    rfl
  · rw [Nat.zero_add]
    exact (congrArg (flatMap fun layer : List Reading × Nat => layer.1.map fun r => (layer.2,r)) below).trans (by
      rw [flatMap_map])

def passes (farther : Farther) (now_sec : UInt64) (opts : SearchOptions) (version : Nat × Reading) : Bool :=
  let md := version.2.md.getD {}
  if version.1 < rt.searchTables.length then !vectorMetaExpired rt.ttl_sec now_sec md && opts.matches_ farther md
  else !opts.hasFilters || opts.matches_ farther md

def shown (v : Visibility) (farther : Farther) (now_sec : UInt64) (opts : SearchOptions) (version : Nat × Reading) : Bool :=
  v.shows rt.useVisibility version.1 version.2.id version.2.is_deleted && rt.passes farther now_sec opts version

end VectorRuntime

namespace Searcher
variable {S : Type} [LinearOrder S] (env : Searcher S) (query : Vec) (topk : UInt32) (opts : SearchOptions) (rt : VectorRuntime)

def hitOf (version : Nat × Reading) : SearchHit S := ⟨version.2.id,env.scoreOf query version.2.vec⟩

/-- The mask of a segment leaves out deleted entries. -/
def visitOf (now_sec : UInt64) (version : Nat × Reading) : Visit S :=
  ⟨version.1,version.2.id,version.2.is_deleted,rt.passes env.farther now_sec opts version &&
    (decide (version.1 < rt.searchTables.length) || !opts.hasFilters || !version.2.is_deleted),env.scoreOf query version.2.vec⟩

lemma shown_visitOf (v : Visibility) (now_sec : UInt64) (w : Nat × Reading) :
    Visit.shown v rt.useVisibility (env.visitOf query opts rt now_sec w) = rt.shown v env.farther now_sec opts w := by
  cases deleted : w.2.is_deleted <;> simp [Visit.shown,visitOf,VectorRuntime.shown,Visibility.shows,deleted]

lemma filterMap_range_getElem? {α β : Type} (items : List α) (f : α → β) :
    (List.range items.length).filterMap (fun i => (items[i]?).map f) = items.map f := by
  induction items using List.reverseRecOn with
  | nil => rfl
  | append_singleton rest last ih =>
    have same : (List.range rest.length).filterMap (fun i => ((rest ++ [last])[i]?).map f) =
        (List.range rest.length).filterMap fun i => (rest[i]?).map f := by
      grind [filterMap_congr]
    rw [length_append,length_singleton,range_succ,filterMap_append,same,ih]
    simp

lemma entryVisits_unaided (source : Nat) (readings : List Reading) (mask : Option (List Nat)) (pass : Reading → Bool)
    (masked : ∀ i r, readings[i]? = some r → (mask.all fun m => m.contains i) = pass r) :
    env.entryVisits query opts source {} readings mask =
      readings.map fun r => ⟨source,r.id,r.is_deleted,pass r,env.scoreOf query r.vec⟩ := by
  have none_ : env.sortedCandidates query opts ({} : SegmentAids S) readings.length = [] := by simp [sortedCandidates]
  rw [entryVisits,none_,if_pos (by rfl),← filterMap_range_getElem?]
  grind [filterMap_congr,visitAt]

lemma segmentVisits_unaided (timeless : opts.temporal = none) (use_visibility : Bool) (source : Nat) (seg : Segment) :
    env.segmentVisits query topk opts use_visibility source {} seg =
      some (seg.readings.map fun r => ⟨source,r.id,r.is_deleted,!opts.hasFilters ||
        (!r.is_deleted && opts.matches_ env.farther (r.md.getD {})),env.scoreOf query r.vec⟩) := by
  rw [segmentVisits]
  cases filtered : opts.hasFilters with
  | true =>
    simp only [buildFromSegment,timeless,if_true,Option.map_some]
    rw [entryVisits_unaided env query opts source seg.readings _ fun r => !r.is_deleted && opts.matches_ env.farther (r.md.getD {})]
    · simp
    · grind
  | false =>
    have plain := entryVisits_unaided env query opts source seg.readings none (fun _ => true) (by simp)
    have graph : env.graphHits query topk ({} : SegmentAids S) seg.readings.length = none := by simp [graphHits]
    simp only [graph,plain,Bool.false_eq_true,if_false,ite_self,Bool.not_false,Bool.true_or]

lemma visits_unaided (timeless : opts.temporal = none) (unaided : ∀ i, env.aids i = {}) (now_sec : UInt64) (use_visibility : Bool) :
    env.visits now_sec query topk opts use_visibility rt = some (rt.versions.map (env.visitOf query opts rt now_sec)) := by
  have table : ∀ m ∈ rt.searchTables.zipIdx, env.memtableVisits rt.ttl_sec now_sec query opts m.2 m.1 =
      some ((m.1.iterateWithMetadata.map fun r => (m.2,r)).map (env.visitOf query opts rt now_sec)) := by
    intro m member
    have below : m.2 < rt.searchTables.length := by simpa using snd_lt_of_mem_zipIdx member
    rw [memtableVisits,timeless,map_map]
    simp [visitOf,VectorRuntime.passes,below]
  have segment : ∀ s ∈ rt.current_snapshot.segments.zipIdx,
      env.segmentVisits query topk opts use_visibility (rt.searchTables.length + s.2) (env.aids s.2) s.1 =
        some ((s.1.readings.map fun r => (rt.searchTables.length + s.2,r)).map (env.visitOf query opts rt now_sec)) := by
    intro s _
    rw [unaided,segmentVisits_unaided env query topk opts timeless,map_map]
    congr 2
    grind [visitOf,VectorRuntime.passes]
  calc env.visits now_sec query topk opts use_visibility rt
      = (rt.searchTables.zipIdx.mapM fun m => env.memtableVisits rt.ttl_sec now_sec query opts m.2 m.1).bind fun above =>
          (rt.current_snapshot.segments.zipIdx.mapM fun s => env.segmentVisits query topk opts use_visibility
            (rt.searchTables.length + s.2) (env.aids s.2) s.1).map fun below => above.flatten ++ below.flatten := rfl
    _ = _ := by
      rw [mapM_eq_some table,mapM_eq_some segment,rt.versions_eq]
      grind [map_flatMap]

end Searcher

section Heap
variable {S : Type} [LinearOrder S] (env : Searcher S)

lemma runtimeSearch_eq (rt : VectorRuntime) (clock : SearchClock) (topk : UInt32) (opts : SearchOptions)
    (sized : query.length = rt.dim.toNat) (wanted : topk ≠ 0) : runtimeSearch env rt clock topk opts query =
      (env.searchLocalInternal (clock.query 0) query topk opts rt.useVisibility rt (rt.visibility clock.batch,[])).map fun st =>
        (.Ok,env.finalize topk st.2) := by
  have whole : queryAt rt query 0 = query := by simp [queryAt,← sized]
  rw [runtimeSearch,if_neg (not_not.mpr sized),if_neg wanted,searchBatchLocal]
  simp only [isEmpty_cons,Bool.false_eq_true,if_false,sized,Nat.mod_self,searchQueries,whole,length_singleton,
    Nat.zero_lt_one,if_true,ne_eq,not_true_eq_false]
  cases env.searchLocalInternal (clock.query 0) query topk opts rt.useVisibility rt (rt.visibility clock.batch,[]) with
  | none => rfl
  | some st => rfl

end Heap

namespace VectorRuntime
variable {rt : VectorRuntime}

/-- The tables are not quantized and the segments are sorted by their ids. -/
structure Unquantized (rt : VectorRuntime) : Prop where
  tables : ∀ m ∈ rt.searchTables, m.quantize_inmem = false
  segments : ∀ s ∈ rt.current_snapshot.segments, s.Strict

lemma versions_readings : rt.versions.map Prod.snd =
    rt.searchTables.flatMap MemTable.iterateWithMetadata ++ rt.current_snapshot.segments.flatMap Segment.readings := by
  rw [versions_eq,map_append,map_flatMap,map_flatMap]
  simp only [map_map,Function.comp_def,map_id']
  conv_rhs => rw [← zipIdx_map_fst 0 rt.searchTables,← zipIdx_map_fst 0 rt.current_snapshot.segments]
  rw [flatMap_map,flatMap_map]

lemma Unquantized.lookup (plain : rt.Unquantized) (id : VectorId) :
    rt.lookup id = .ofAnswer ((rt.versions.find? fun w => w.2.id = id).map fun w => w.2.value) := by
  have tables : (rt.searchTables.map fun m => Reading.layer m.iterateWithMetadata) = rt.searchTables.map MemTable.layer :=
    map_congr_left fun m member => MemTable.readings_layer (plain.tables m member)
  have segs : (rt.current_snapshot.segments.map fun s => Reading.layer s.readings) =
      rt.current_snapshot.segments.map Segment.layer := by
    refine map_congr_left ?_
    intro s member
    rw [s.readings_layer]
    funext other
    exact (Segment.layer_firstLayer (plain.segments s member) other).symm
  have layer : Reading.layer (rt.versions.map Prod.snd) id = (rt.versions.find? fun w => w.2.id = id).map fun w => w.2.value := by
    rw [Reading.layer,List.find?_map,Option.map_map]
    rfl
  rw [← layer,versions_readings,Reading.layer_append,Reading.layer_flatMap,Reading.layer_flatMap,tables,segs,← answer_append,
    VectorRuntime.lookup,lookupById_eq]
  rfl

lemma zipIdx_flatMap_nodup {α κ : Type} (key : α → κ) (layers : List (List α)) (each : ∀ l ∈ layers, (l.map key).Nodup) :
    ((layers.zipIdx.flatMap fun layer => layer.1.map fun r => (layer.2,r)).map fun w => (w.1,key w.2)).Nodup := by
  rw [map_flatMap,nodup_flatMap]
  refine ⟨?_,?_⟩
  · intro layer member
    have distinct := (each layer.1 (fst_mem_of_mem_zipIdx member)).map (Prod.mk_right_injective layer.2)
    simpa [Function.comp_def] using distinct
  · have apart : layers.zipIdx.Pairwise fun a b => a.2 ≠ b.2 := by
      have places : (layers.zipIdx.map Prod.snd).Nodup := by
        rw [zipIdx_map_snd]
        exact nodup_range'
      exact pairwise_map.mp places
    refine apart.imp ?_
    intro a b differ w inA inB
    grind

lemma versions_distinct (strict : ∀ s ∈ rt.current_snapshot.segments, s.Strict) :
    (rt.versions.map fun w => (w.1,w.2.id)).Nodup := by
  refine zipIdx_flatMap_nodup Reading.id _ ?_
  intro l member
  rcases mem_append.mp member with table | segment
  · obtain ⟨m,_,rfl⟩ := mem_map.mp table
    have ids : m.iterateWithMetadata.map Reading.id = m.map.entries.map Prod.fst := by
      simp [MemTable.iterateWithMetadata,map_map]
    rw [ids]
    exact m.map.entries_nodup
  · obtain ⟨s,inside,rfl⟩ := mem_map.mp segment
    have ids : s.readings.map Reading.id = s.entries.map SegmentEntry.id := by
      rw [Segment.readings,map_map]
      rfl
    rw [ids]
    exact pairwise_map.mpr ((strict s inside).imp fun less => UInt64.ne_of_lt less)

lemma versions_same (strict : ∀ s ∈ rt.current_snapshot.segments, s.Strict) (member : w ∈ rt.versions)
    (there : other ∈ rt.versions) (source : w.1 = other.1) (id : w.2.id = other.2.id) : w = other :=
  inj_on_of_nodup_map (versions_distinct strict) member there (by rw [source,id])

variable {w : Nat × Reading}

lemma source_of_unused (unused : rt.useVisibility = false) (member : w ∈ rt.versions) : w.1 = 1 := by
  simp only [useVisibility,Bool.or_eq_false_iff,decide_eq_false_iff_not,Bool.not_eq_false'] at unused
  obtain ⟨⟨⟨idle,frozen⟩,single⟩,_⟩ := unused
  have tables : rt.searchTables = [rt.mem] := by rw [searchTables,isEmpty_iff.mp frozen,reverse_nil]
  rw [versions_eq,tables] at member
  rcases mem_append.mp member with inTable | inSegment
  · have empty : rt.mem.iterateWithMetadata = [] := by
      have bound := rt.mem.map.entries_length_le
      grind [MemTable.getCount,MemTable.iterateWithMetadata]
    simp [empty] at inTable
  · grind

def entryOf (now_sec : UInt64) (w : Nat × Reading) : VisibilityEntry :=
  ⟨w.2.is_deleted || vectorMetaExpired rt.ttl_sec now_sec (w.2.md.getD {}),w.1⟩

lemma visibility_covers (used : rt.useVisibility = true) (now_sec : UInt64) :
    Visibility.Covers (rt.entryOf now_sec) rt.versions (rt.visibility now_sec) := by
  have start : Visibility.Covers (rt.entryOf now_sec) [] [] := ⟨fun id e found => by simp [Visibility.find] at found,by simp⟩
  have all := Visibility.covers_foldl rt.versions start
  rw [nil_append] at all
  rw [visibility,if_pos used]
  exact all

lemma visibility_closed (now_sec : UInt64) : ∀ w ∈ rt.versions, rt.useVisibility = true → (rt.visibility now_sec).Closed w.2.id :=
  fun _ member used => (visibility_covers used now_sec).closed member

lemma newest_of_shown (strict : ∀ s ∈ rt.current_snapshot.segments, s.Strict) (member : w ∈ rt.versions)
    (shown : (rt.visibility now_sec).shows rt.useVisibility w.1 w.2.id w.2.is_deleted = true)
    (recorded : rt.useVisibility = true → (rt.visibility now_sec).find w.2.id ≠ none) :
    rt.versions.find? (fun x => x.2.id = w.2.id) = some w := by
  obtain ⟨x,first⟩ : ∃ x, rt.versions.find? (fun x => x.2.id = w.2.id) = some x :=
    Option.isSome_iff_exists.mp (List.find?_isSome.mpr ⟨w,member,by simp⟩)
  have there := mem_of_find?_eq_some first
  have id : x.2.id = w.2.id := by simpa using List.find?_some first
  have source : x.1 = w.1 := by
    cases used : rt.useVisibility with
    | false => rw [source_of_unused used there,source_of_unused used member]
    | true =>
      obtain ⟨e,found⟩ := Option.ne_none_iff_exists'.mp (recorded used)
      obtain ⟨y,same,rfl⟩ := (visibility_covers used now_sec).first _ _ found
      rw [first] at same
      cases same
      simp only [Visibility.shows,used,found,Bool.and_eq_true,Bool.not_true,Bool.false_or,Option.all_some,decide_eq_true_eq] at shown
      exact shown.2.1
  rw [first,versions_same strict there member source id]

lemma Unquantized.lookup_newest (plain : rt.Unquantized) (live : w.2.is_deleted = false)
    (newest : rt.versions.find? (fun x => x.2.id = w.2.id) = some w) :
    rt.lookup w.2.id = ⟨.kFound,w.2.vec,w.2.md.getD {}⟩ := by
  rw [plain.lookup,newest]
  simp [Reading.value,live,LookupResult.ofAnswer]

variable (rt) in
lemma search_hits {S : Type} [LinearOrder S] (env : Searcher S) (unaided : ∀ i, env.aids i = {}) (clock : SearchClock)
    (topk : UInt32) (timeless : opts.temporal = none) (sized : query.length = rt.dim.toNat) :
    ∃ hits, runtimeSearch env rt clock topk opts query = some (.Ok,hits) ∧
      let pushed := (rt.versions.filter (rt.shown (rt.visibility clock.batch) env.farther (clock.query 0) opts)).map (env.hitOf query)
      hits.Subperm pushed ∧ (pushed.length ≤ topk.toNat → hits.Perm pushed) := by
  by_cases wanted : topk = 0
  · subst wanted
    refine ⟨[],by simp [runtimeSearch,sized],nil_subperm,?_⟩
    simp
  · have walk : env.searchLocalInternal (clock.query 0) query topk opts rt.useVisibility rt (rt.visibility clock.batch,[]) =
        some (rt.visibility clock.batch,(rt.versions.filter
          (rt.shown (rt.visibility clock.batch) env.farther (clock.query 0) opts)).map (env.hitOf query)) := by
      rw [env.searchLocalInternal_visits,env.visits_unaided query topk opts rt timeless unaided,Option.map_some,
        foldl_visit_closed,filter_map,map_map,nil_append]
      · congr 4
        funext w
        exact env.shown_visitOf query opts rt _ _ w
      · intro x member
        obtain ⟨w,inside,rfl⟩ := mem_map.mp member
        exact visibility_closed clock.batch w inside
    exact ⟨_,by rw [runtimeSearch_eq env rt clock topk opts sized wanted,walk,Option.map_some],
      env.finalize_subperm topk _,env.finalize_perm⟩

end VectorRuntime
end PomaiCache
