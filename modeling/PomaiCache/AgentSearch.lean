import PomaiCache.AgentMemory
import PomaiCache.Search

/-!
Semantic search in the agent memory. The database is asked for four times as many hits as are
wanted, 1024 at most, and those of other agents are dropped afterwards.
-/
namespace PomaiCache
open Codec Ranking Options List

structure AgentMemoryQuery where
  agent_id : Bytes := []
  session_id : Bytes := []
  has_session_filter : Bool := false
  kind : AgentMemoryKind := .kMessage
  has_kind_filter : Bool := false
  min_ts : Int64 := Int64.minValue
  max_ts : Int64 := Int64.maxValue
  embedding : Vec := []
  topk : UInt32 := 10

/-- The arithmetic of scores. A score is a float that is not NaN, so scores are in order. -/
structure ScoreOps (S : Type) where
  ofFloat : UInt32 → S
  add : S → S → S
  sub : S → S → S
  mul : S → S → S
  div : S → S → S
  sqrt : S → S
  neg : S → S
  lowest : S

structure AgentMemoryHit (S : Type) where
  record : AgentMemoryRecord
  score : S
  deriving DecidableEq

/-- What the agent memory asks of its database: the vector and metadata of an id, and a search. -/
structure AgentStore (S : Type) where
  get : VectorId → Option (Vec × Metadata)
  search : Vec → UInt32 → Except Status (List (SearchHit S))

structure AgentMemory (S : Type) where
  opened : Bool
  dim : UInt32
  metric : MetricType
  next_id : VectorId
  db : AgentStore S

/-- `std::sort` of the hits with the best first; hits of one score may come in any order. -/
structure HitSorter (S : Type) [LinearOrder S] where
  sort : List (AgentMemoryHit S) → List (AgentMemoryHit S)
  perm : ∀ hits, (sort hits).Perm hits
  sorted : ∀ hits, Descending AgentMemoryHit.score (sort hits)

namespace AgentMemory
variable {S : Type} [LinearOrder S] [Zero S]

structure Sums (S : Type) where
  dot : S
  l2 : S
  qn : S
  cn : S

def addTo (ops : ScoreOps S) (sums : Sums S) (q c : UInt32) : Sums S :=
  let qv := ops.ofFloat q
  let cv := ops.ofFloat c
  let d := ops.sub qv cv
  { dot := ops.add sums.dot (ops.mul qv cv)
    l2 := ops.add sums.l2 (ops.mul d d)
    qn := ops.add sums.qn (ops.mul qv qv)
    cn := ops.add sums.cn (ops.mul cv cv) }

def computeFallbackScore (ops : ScoreOps S) (query candidate : Vec) (metric : MetricType) : S :=
  if query.length ≠ candidate.length then ops.lowest
  else
    let sums := (query.zip candidate).foldl (fun sums pair => addTo ops sums pair.1 pair.2) ⟨0,0,0,0⟩
    match metric with
    | .kInnerProduct => sums.dot
    | .kCosine =>
      let denom := ops.mul (ops.sqrt sums.qn) (ops.sqrt sums.cn)
      if denom ≤ 0 then ops.lowest else ops.div sums.dot denom
    | .kL2 => ops.neg sums.l2

def selects (query : AgentMemoryQuery) (rec_ : AgentMemoryRecord) : Bool :=
  rec_.agent_id == query.agent_id && (!query.has_session_filter || rec_.session_id == query.session_id) &&
    (!query.has_kind_filter || rec_.kind == query.kind) && !(rec_.logical_ts < query.min_ts || rec_.logical_ts > query.max_ts)

def select (query : AgentMemoryQuery) (md : Metadata) (score : S) : Option (AgentMemoryHit S) :=
  (decodeMetadata md.tenant).bind fun rec_ => if selects query rec_ then some ⟨rec_,score⟩ else none

variable (ops : ScoreOps S) (sorter : HitSorter S) (am : AgentMemory S) (query : AgentMemoryQuery)

def hitOf (h : SearchHit S) : Option (AgentMemoryHit S) :=
  (am.db.get h.id).bind fun (vec,md) =>
    select query md (if h.score ≠ 0 then h.score else computeFallbackScore ops query.embedding vec am.metric)

def internalTopk (topk : UInt32) : UInt32 := min ((if topk = 0 then 1 else topk) * 4) 1024

def probedIds : List VectorId :=
  ((List.range' 1 (am.next_id.toNat - 1)).map UInt64.ofNat).filter fun id => (am.db.get id).isSome

/-- The hits to look through: those of the database or, if it has none, all known ids. -/
def candidates (raw : List (SearchHit S)) : List (SearchHit S) :=
  if raw.isEmpty then am.probedIds.map (⟨·,0⟩) else raw

def searchAndFilter : Except Status (List (AgentMemoryHit S)) :=
  if query.embedding.length ≠ am.dim.toNat then .error (.invalidArgument "query.embedding dimension mismatch")
  else (am.db.search query.embedding (internalTopk query.topk)).map fun raw =>
    let hits := sorter.sort ((am.candidates raw).filterMap (am.hitOf ops query))
    let hits := if hits.length > query.topk.toNat then hits.take query.topk.toNat else hits
    if query.topk = 0 then [] else hits

def semanticSearch : Except Status (List (AgentMemoryHit S)) :=
  if am.opened then am.searchAndFilter ops sorter query else .error ⟨.kFailedPrecondition,"AgentMemory is not open"⟩

/-! ### A database that searches exactly -/

structure StoredEntry where
  id : VectorId
  vec : Vec
  md : Metadata

/-- The database holds these entries, and its search returns a choice of the best of them by a
score that is never zero. -/
structure Exact (db : AgentStore S) (stored : List StoredEntry) (score : Vec → StoredEntry → S) : Prop where
  distinct : (stored.map StoredEntry.id).Nodup
  get : ∀ id, db.get id = (stored.find? (·.id = id)).map fun e => (e.vec,e.md)
  search : ∀ q k, ∃ found, Best (score q) k.toNat stored found ∧ db.search q k = .ok (found.map fun e => ⟨e.id,score q e⟩)
  nonzero : ∀ q, ∀ e ∈ stored, score q e ≠ 0

def rating (score : Vec → StoredEntry → S) (e : StoredEntry) : S :=
  if internalTopk query.topk = 0 then computeFallbackScore ops query.embedding e.vec am.metric else score query.embedding e

def rated (score : Vec → StoredEntry → S) (e : StoredEntry) : Option (AgentMemoryHit S) :=
  select query e.md (am.rating ops query score e)

def fetched : List (SearchHit S) :=
  match am.db.search query.embedding (internalTopk query.topk) with
  | .ok raw => am.candidates raw
  | .error _ => []

/-- The search returns the best records that match. -/
def Complete (stored : List StoredEntry) (score : Vec → StoredEntry → S) : Prop :=
  ∃ out, am.semanticSearch ops sorter query = .ok out ∧
    Best AgentMemoryHit.score query.topk.toNat (stored.filterMap (am.rated ops query score)) out

def matchesQuery (e : StoredEntry) : Bool := (decodeMetadata e.md.tenant).any (selects query)

/-- How many hits the database is asked for. -/
def reach (topk : UInt32) : Nat := min (4 * max 1 topk.toNat % 2 ^ 32) 1024

/-- The number of matching records to be returned. -/
def wanted (stored : List StoredEntry) : Nat := min query.topk.toNat (stored.countP (matchesQuery query))

/-- As many matching records as are wanted are among the best of the store that the database is asked for, also
if records with the same score come first. Where it is asked for none, the matching ids are below `next_id`. -/
def Reached (stored : List StoredEntry) (score : StoredEntry → S) : Prop :=
  if reach query.topk = 0 then ∀ e ∈ stored, matchesQuery query e → 1 ≤ e.id.toNat ∧ e.id.toNat < am.next_id.toNat
  else wanted query stored ≤ stored.countP fun e => matchesQuery query e && decide (stored.countP (score e ≤ score ·) ≤ reach query.topk)

section Parts
variable {ops sorter am query} {stored : List StoredEntry} {score : Vec → StoredEntry → S}

variable {e : StoredEntry}

lemma Exact.get_mem {db : AgentStore S} (exact : Exact db stored score) (member : e ∈ stored) :
    db.get e.id = some (e.vec,e.md) := by
  have found : stored.find? (·.id = e.id) = some e := by
    have distinct := exact.distinct
    clear exact
    induction stored with
    | nil => cases member
    | cons first rest ih =>
      grind
  rw [exact.get,found]
  rfl

lemma hitOf_found (exact : Exact am.db stored score) (over_ : internalTopk query.topk ≠ 0) (member : e ∈ stored) :
    am.hitOf ops query ⟨e.id,score query.embedding e⟩ = am.rated ops query score e := by
  rw [hitOf,exact.get_mem member]
  simp [rated,rating,if_neg over_,exact.nonzero _ e member]

lemma hitOf_probed (exact : Exact am.db stored score) (none_ : internalTopk query.topk = 0) (member : e ∈ stored) :
    am.hitOf ops query ⟨e.id,0⟩ = am.rated ops query score e := by
  rw [hitOf,exact.get_mem member]
  simp [rated,rating,if_pos none_]

lemma mem_probedIds (exact : Exact am.db stored score) {id : VectorId} :
    id ∈ am.probedIds ↔ (1 ≤ id.toNat ∧ id.toNat < am.next_id.toNat) ∧ ∃ e ∈ stored, e.id = id := by
  have there : (am.db.get id).isSome = true ↔ ∃ e ∈ stored, e.id = id := by
    rw [exact.get,Option.isSome_map,List.find?_isSome]
    simp
  have low := am.next_id.toNat_lt
  rw [probedIds,mem_filter,there,mem_map]
  refine and_congr_left fun _ => ?_
  grind [UInt64.toNat_ofNat_of_lt',UInt64.ofNat_toNat]

omit [LinearOrder S] [Zero S] in
lemma probedIds_nodup (am : AgentMemory S) : am.probedIds.Nodup := by
  have low := am.next_id.toNat_lt
  refine List.Nodup.filter _ ?_
  refine List.Nodup.map_on ?_ nodup_range'
  intro a first b second same
  rw [mem_range'_1] at first second
  have equal := congrArg UInt64.toNat same
  grind [UInt64.toNat_ofNat_of_lt']

lemma reach_eq (topk : UInt32) : (internalTopk topk).toNat = reach topk := by
  have four : ((if topk = 0 then 1 else topk) * 4).toNat = 4 * max 1 topk.toNat % 2 ^ 32 := by
    by_cases zero : topk = 0
    · simp [zero]
    · have positive : topk.toNat ≠ 0 := fun same => zero (UInt32.toNat_inj.mp same)
      rw [if_neg zero,UInt32.toNat_mul,Nat.mul_comm,max_eq_right (by omega)]
      rfl
  have cap (a : UInt32) : (min a 1024).toNat = min a.toNat 1024 := by
    show (if a ≤ 1024 then a else 1024 : UInt32).toNat = _
    split
    · next low => exact (min_eq_left (UInt32.le_iff_toNat_le.mp low)).symm
    · next high => exact (min_eq_right (Nat.le_of_not_le fun low => high (UInt32.le_iff_toNat_le.mpr low))).symm
  rw [internalTopk,reach,← four,cap]

lemma rated_isSome (e : StoredEntry) : (am.rated ops query score e).isSome = matchesQuery query e := by
  rw [rated,select,matchesQuery]
  cases decodeMetadata e.md.tenant with
  | none => rfl
  | some rec_ => cases fits : selects query rec_ <;> simp [fits]

/-- What the search goes through: the best of the store, or the known ids. -/
lemma Exact.fetched_parts (exact : Exact am.db stored score) (ops : ScoreOps S) (query : AgentMemoryQuery) : ∃ cands rest, stored.Perm (cands ++ rest) ∧
    ((am.fetched query).map SearchHit.id).Perm (cands.map StoredEntry.id) ∧
    ((am.fetched query).filterMap (am.hitOf ops query)).Perm (cands.filterMap (am.rated ops query score)) ∧
    if reach query.topk = 0 then ∀ e ∈ rest, ¬(1 ≤ e.id.toNat ∧ e.id.toNat < am.next_id.toNat)
    else (∀ a ∈ cands, ∀ b ∈ rest, score query.embedding b ≤ score query.embedding a) ∧
      cands.length = min (reach query.topk) stored.length := by
  obtain ⟨found,best,run⟩ := exact.search query.embedding (internalTopk query.topk)
  obtain ⟨rest,parts,above⟩ := best.split
  have length := best.length
  rw [reach_eq] at length
  have zero_iff : internalTopk query.topk = 0 ↔ reach query.topk = 0 := by
    rw [← reach_eq,← UInt32.toNat_inj]
    rfl
  rw [fetched,run]
  dsimp only
  by_cases zero : reach query.topk = 0
  · have none_ : found = [] := by simpa [zero] using length
    subst none_
    let known (e : StoredEntry) : Bool := decide (1 ≤ e.id.toNat ∧ e.id.toNat < am.next_id.toNat)
    have ids : am.probedIds.Perm ((stored.filter known).map StoredEntry.id) := by
      refine (perm_ext_iff_of_nodup am.probedIds_nodup ?_).mpr fun id => ?_
      · exact (filter_sublist.map StoredEntry.id).nodup exact.distinct
      · rw [mem_probedIds exact,mem_map]
        grind
    refine ⟨stored.filter known,stored.filter fun e => !known e,(filter_append_perm known stored).symm,?_,?_,?_⟩
    · simp only [candidates,map_nil,isEmpty_nil,if_true,map_map]
      simpa [Function.comp_def] using ids
    · have hits := ids.filterMap fun id => am.hitOf ops query ⟨id,0⟩
      simp only [candidates,map_nil,isEmpty_nil,if_true,filterMap_map]
      refine hits.trans (.of_eq ?_)
      rw [filterMap_map]
      exact filterMap_congr fun e member => hitOf_probed exact (zero_iff.mpr zero) (mem_of_mem_filter member)
    · rw [if_pos zero]
      intro e member
      have unknown : known e = false := by simpa using (mem_filter.mp member).2
      exact of_decide_eq_false unknown
  · have over_ : internalTopk query.topk ≠ 0 := fun same => zero (zero_iff.mp same)
    by_cases none_ : found = []
    · have empty : stored = [] := by
        rw [none_,length_nil] at length
        exact length_eq_zero_iff.mp (by omega)
      subst empty
      have nowhere : am.probedIds = [] := eq_nil_iff_forall_not_mem.mpr fun id member => by
        obtain ⟨_,e,inside,_⟩ := (mem_probedIds exact).mp member
        cases inside
      exact ⟨[],[],.refl _,by simp [candidates,none_,nowhere],by simp [candidates,none_,nowhere],by simp [zero]⟩
    refine ⟨found,rest,parts,?_,?_,by rw [if_neg zero]; exact ⟨above,length⟩⟩
    · rw [candidates,if_neg (by simpa using none_),map_map]
      exact .of_eq rfl
    · rw [candidates,if_neg (by simpa using none_),filterMap_map]
      refine .of_eq (filterMap_congr fun e member => hitOf_found exact over_ ?_)
      exact parts.mem_iff.mpr (mem_append_left _ member)

omit [Zero S] in
/-- The best of a list in counts: an element with few others at least as high is among them, and few are higher
than one of them. -/
lemma countP_best {stored cands rest : List StoredEntry} {score : StoredEntry → S} {n : Nat} (p : StoredEntry → Bool)
    (parts : stored.Perm (cands ++ rest)) (above : ∀ a ∈ cands, ∀ b ∈ rest, score b ≤ score a) (length : cands.length = min n stored.length) :
    (stored.countP fun e => p e && decide (stored.countP (score e ≤ score ·) ≤ n)) ≤ cands.countP p ∧
      cands.countP p ≤ stored.countP fun e => p e && decide (stored.countP (score e < score ·) < n) := by
  have sizes := parts.length_eq
  rw [length_append] at sizes
  constructor
  · rw [parts.countP_eq,countP_append]
    have none_ : (rest.countP fun e => p e && decide (stored.countP (score e ≤ score ·) ≤ n)) = 0 := by
      refine countP_eq_zero.mpr fun e member => ?_
      have front : cands.countP (score e ≤ score ·) = cands.length := countP_eq_length.mpr fun a inside => by simpa using above a inside e member
      have back : 0 < rest.countP (score e ≤ score ·) := countP_pos_iff.mpr ⟨e,member,by simp⟩
      have left := length_pos_of_mem member
      rw [parts.countP_eq,countP_append,front]
      simp only [Bool.and_eq_true,decide_eq_true_eq,not_and]
      omega
    rw [none_,Nat.add_zero]
    exact countP_mono_left fun e _ both => (Bool.and_eq_true _ _ ▸ both).1
  · rw [parts.countP_eq,countP_append]
    refine Nat.le_add_right_of_le (countP_mono_left fun a member fits => ?_)
    have back : rest.countP (score a < score ·) = 0 := countP_eq_zero.mpr fun b inside => by simpa using above a member b inside
    have front : cands.countP (score a < score ·) < cands.length := countP_lt_length_iff.mpr ⟨a,member,by simp⟩
    rw [parts.countP_eq,countP_append,back]
    simp only [fits,Bool.true_and,decide_eq_true_eq]
    omega

lemma semanticSearch_ok_iff (exact : Exact am.db stored score) {out : List (AgentMemoryHit S)} :
    am.semanticSearch ops sorter query = .ok out ↔ am.opened = true ∧ query.embedding.length = am.dim.toNat ∧
      (sorter.sort ((am.fetched query).filterMap (am.hitOf ops query))).take query.topk.toNat = out := by
  obtain ⟨found,-,run⟩ := exact.search query.embedding (internalTopk query.topk)
  have cut (hits : List (AgentMemoryHit S)) (n : Nat) : (if n < hits.length then hits.take n else hits) = hits.take n := by simp
  rw [semanticSearch,searchAndFilter,fetched,run]
  by_cases opened : am.opened = true
  · by_cases dim : query.embedding.length = am.dim.toNat
    · by_cases zero : query.topk = 0 <;> simp [opened,dim,zero,Except.map,cut]
    · simp [opened,dim]
  · simp [opened]

end Parts

/-- A search is complete if enough matching records are among the best of the store that the database is asked for,
and if it is complete they are, but for records of the same score as the last of these. -/
theorem semanticSearch_complete_bounds {stored : List StoredEntry} {score : Vec → StoredEntry → S} (exact : Exact am.db stored score) :
    (am.opened = true → query.embedding.length = am.dim.toNat → am.Reached query stored (score query.embedding) →
      am.Complete ops sorter query stored score) ∧
    (am.Complete ops sorter query stored score → am.opened = true ∧ query.embedding.length = am.dim.toNat ∧
      (reach query.topk ≠ 0 → wanted query stored ≤ stored.countP fun e => matchesQuery query e &&
        decide (stored.countP (score query.embedding e < score query.embedding ·) < reach query.topk))) := by
  obtain ⟨cands,rest,parts,ids,hits,picked⟩ := exact.fetched_parts ops query
  have sizes (es : List StoredEntry) : (es.filterMap (am.rated ops query score)).length = es.countP (matchesQuery query) := by
    rw [length_filterMap_eq_countP]
    simp only [rated_isSome]
  constructor
  · intro opened dim reached
    have all := parts.filterMap (am.rated ops query score)
    rw [filterMap_append] at all
    refine ⟨_,(semanticSearch_ok_iff exact).mpr ⟨opened,dim,rfl⟩,(best_take_iff (all.trans (hits.symm.append_right _)) (sorter.perm _)
      (sorter.sorted _) _).mpr fun hit made => ?_⟩
    obtain ⟨e,member,made⟩ := mem_filterMap.mp made
    have fits : matchesQuery query e = true := by
      have some_ := congrArg Option.isSome made
      rwa [rated_isSome] at some_
    rw [Reached] at reached
    by_cases zero : reach query.topk = 0
    · rw [if_pos zero] at reached picked
      exact absurd (reached e (parts.mem_iff.mpr (mem_append_right _ member)) fits) (picked e member)
    rw [if_neg zero] at reached picked
    have enough := reached.trans (countP_best (matchesQuery query) parts picked.1 picked.2).1
    have more : 0 < rest.countP (matchesQuery query) := countP_pos_iff.mpr ⟨e,member,fits⟩
    rw [wanted,parts.countP_eq,countP_append] at enough
    have over_ : internalTopk query.topk ≠ 0 := fun same => zero (by rw [← reach_eq,same]; rfl)
    have high : (cands.filterMap (am.rated ops query score)).filter (hit.score ≤ ·.score) = cands.filterMap (am.rated ops query score) := by
      refine filter_eq_self.mpr fun other found => ?_
      obtain ⟨a,inside,same⟩ := mem_filterMap.mp found
      have scored {x : StoredEntry} {h : AgentMemoryHit S} (made : am.rated ops query score x = some h) : h.score = score query.embedding x := by
        rw [rated,select,Option.bind_eq_some_iff] at made
        obtain ⟨rec_,_,made⟩ := made
        split at made
        · cases made
          exact if_neg over_
        · cases made
      rw [scored made,scored same]
      simpa using picked.1 a inside e member
    rw [(hits.filter _).length_eq,high,sizes]
    omega
  · rintro ⟨out,run,best⟩
    obtain ⟨opened,dim,rfl⟩ := (semanticSearch_ok_iff exact).mp run
    refine ⟨opened,dim,fun some_ => ?_⟩
    rw [if_neg some_] at picked
    refine le_trans ?_ (countP_best (matchesQuery query) parts picked.1 picked.2).2
    have length := best.length
    rw [sizes,length_take,(sorter.perm _).length_eq,hits.length_eq,sizes] at length
    rw [wanted,← length]
    exact Nat.min_le_right _ _

/-! ### A memory with integer scores -/

/-- A database that sorts all its entries for each search. -/
def sortingStore (stored : List StoredEntry) (score : Vec → StoredEntry → Int) : AgentStore Int where
  get id := (stored.find? (·.id = id)).map fun e => (e.vec,e.md)
  search q k := .ok (((stored.insertionSort fun a b => score q b ≤ score q a).take k.toNat).map fun e => ⟨e.id,score q e⟩)

lemma sortingStore_exact {stored : List StoredEntry} {score : Vec → StoredEntry → Int} (distinct : (stored.map StoredEntry.id).Nodup)
    (nonzero : ∀ q, ∀ e ∈ stored, score q e ≠ 0) : Exact (sortingStore stored score) stored score where
  distinct := distinct
  get _ := rfl
  nonzero := nonzero
  search q k := ⟨_,best_insertionSort (score q) stored k.toNat,rfl⟩

def insertionSorter : HitSorter Int where
  sort hits := hits.insertionSort fun a b => b.score ≤ a.score
  perm _ := perm_insertionSort _ _
  sorted := descending_insertionSort AgentMemoryHit.score

def wholeScores : ScoreOps Int := ⟨fun bits => bits.toNat,(· + ·),(· - ·),(· * ·),(· / ·),id,(- ·),-1⟩

def message (id : VectorId) (agent : Bytes) : StoredEntry := ⟨id,[],{tenant := encodeMetadata {agent_id := agent}}⟩

/-- The memory with these entries, of which those with smaller ids have higher scores. -/
def memoryOf (stored : List StoredEntry) : AgentMemory Int where
  opened := true
  dim := 0
  metric := .kL2
  next_id := 9
  db := sortingStore stored fun _ e => 100 - e.id.toNat

lemma memoryOf_exact {stored : List StoredEntry} (distinct : (stored.map StoredEntry.id).Nodup)
    (small : ∀ e ∈ stored, e.id.toNat < 100) : Exact (memoryOf stored).db stored fun _ e => 100 - (e.id.toNat : Int) :=
  sortingStore_exact distinct fun _ e member => by
    have := small e member
    omega

def twoAgents : List StoredEntry := [message 1 [98],message 2 [97],message 3 [98],message 4 [97]]

theorem semanticSearch_complete_two_agents :
    (memoryOf twoAgents).Complete wholeScores insertionSorter {agent_id := [97], topk := 1} twoAgents fun _ e => 100 - (e.id.toNat : Int) :=
  (semanticSearch_complete_bounds wholeScores insertionSorter (memoryOf twoAgents) {agent_id := [97], topk := 1}
    (memoryOf_exact (by decide) (by decide))).1 rfl rfl (by rw [Reached,if_neg (by decide)]; decide +kernel)

def crowded : List StoredEntry := [message 1 [98],message 2 [98],message 3 [98],message 4 [98],message 5 [97]]

theorem semanticSearch_crowded_out : Exact (memoryOf crowded).db crowded (fun _ e => 100 - (e.id.toNat : Int)) ∧
      (memoryOf crowded).semanticSearch wholeScores insertionSorter {agent_id := [97], topk := 1} = .ok [] ∧
      (crowded.filterMap ((memoryOf crowded).rated wholeScores {agent_id := [97], topk := 1} fun _ e => 100 - (e.id.toNat : Int))).map
        AgentMemoryHit.score = [95] := by
  have exact : Exact (memoryOf crowded).db crowded fun _ e => 100 - (e.id.toNat : Int) := memoryOf_exact (by decide) (by decide)
  refine ⟨exact,?_,by decide +kernel⟩
  rw [(semanticSearch_ok_iff exact).mpr ⟨rfl,rfl,rfl⟩]
  exact congrArg Except.ok (by decide +kernel)

end AgentMemory
end PomaiCache
