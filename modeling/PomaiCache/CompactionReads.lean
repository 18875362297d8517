import PomaiCache.CompactionJob

/-!
What a compaction leaves of its inputs. It is lossless when the segments it writes hold the
newest version of each id, if that is live, and nothing else; it is when fewer than 20000 ids
have a live newest version.
-/
namespace PomaiCache
open Layers Merge List

def newestIn (segs : List Segment) (id : VectorId) : Option SegmentEntry :=
  segs.findSome? fun s => s.entries.find? fun e => e.id = id

/-- The newest version of an id, unless it is a tombstone. -/
def newestLive (segs : List Segment) (id : VectorId) : Option SegmentEntry := (newestIn segs id).filter SegmentEntry.live

/-- The outputs hold the newest version of each id whose newest version is live, once,
and nothing else. -/
def Lossless (inputs outputs : List Segment) : Prop :=
  ∀ id, (outputs.flatMap Segment.entries).filter (fun e => e.id = id) = (newestLive inputs id).toList

/-- The ids whose newest version is live. -/
def liveIds (segs : List Segment) : Set VectorId := {id | (newestLive segs id).isSome}

def newestEntries (segs : List Segment) : List SegmentEntry := emit SegmentEntry.id SegmentEntry.live none (merged segs)

def CompactProgress.isComplete : CompactProgress → Bool
  | .running _ _ _ => false
  | .complete _ _ => true

lemma segments_seen {segs : List Segment} (strict : ∀ s ∈ segs, s.Strict) (id : VectorId) :
    seen (segs.map Segment.layer) id = (newestLive segs id).map fun e => (e.vec,e.md) := by
  have same : answer (segs.map Segment.layer) id =
      (newestIn segs id).map fun e => if e.is_deleted then none else some (e.vec,e.md) := by
    induction segs with
    | nil => rfl
    | cons s segs ih =>
      grind [answer_cons,Segment.layer_firstLayer,Segment.firstLayer,newestIn]
  rw [seen,same,newestLive]
  cases newestIn segs id with
  | none => rfl
  | some e => cases deleted : e.is_deleted <;> simp [SegmentEntry.live,deleted,Option.filter]

lemma Lossless.newestLive {inputs outputs : List Segment} (lossless : Lossless inputs outputs) (id : VectorId) :
    newestLive outputs id = PomaiCache.newestLive inputs id := by
  have first : newestIn outputs id = PomaiCache.newestLive inputs id := by
    rw [newestIn,← List.find?_flatMap,← List.head?_filter,lossless id]
    cases PomaiCache.newestLive inputs id <;> rfl
  rw [PomaiCache.newestLive,first,PomaiCache.newestLive]
  simp

section
variable {segs : List Segment} (strict : ∀ s ∈ segs, s.Strict)
include strict

lemma newestEntries_filter (id : VectorId) : (newestEntries segs).filter (fun e => e.id = id) = (newestLive segs id).toList := by
  have sorted := stream_pairwise (merged_ascending strict)
  have found := stream_find (merged_ascending strict) id
  rw [List.findSome?_map] at found
  rw [newestEntries,merged,emit_filter sorted (From.none _),if_neg (Option.some_ne_none _).symm,found]
  rfl

lemma newestEntries_sorted : (newestEntries segs).Pairwise fun a b => a.id < b.id :=
  (emit_pairwise (stream_pairwise (merged_ascending strict)) (From.none _)).1

lemma liveIds_ncard : (liveIds segs).ncard = (newestEntries segs).length := by
  have distinct : ((newestEntries segs).map SegmentEntry.id).Nodup := by
    rw [Nodup,pairwise_map]
    exact (newestEntries_sorted strict).imp fun less => UInt64.ne_of_lt less
  have ids : liveIds segs = ((newestEntries segs).map SegmentEntry.id).toFinset := by
    ext id
    have here := newestEntries_filter strict id
    simp only [liveIds,Set.mem_ofPred_eq,coe_toFinset,mem_map]
    constructor
    · intro live
      obtain ⟨e,found⟩ := Option.isSome_iff_exists.mp live
      have member : e ∈ (newestEntries segs).filter fun e => e.id = id := by simp [here,found]
      exact ⟨e,(mem_filter.mp member).1,by simpa using (mem_filter.mp member).2⟩
    · rintro ⟨e,member,rfl⟩
      have kept : e ∈ (newestLive segs e.id).toList := here ▸ mem_filter.mpr ⟨member,by simp⟩
      rw [Option.mem_toList.mp kept]
      rfl
  rw [ids,Set.ncard_coe_finset,toFinset_card_of_nodup distinct,length_map]

end

namespace VectorRuntime
variable {rt : VectorRuntime}

lemma compactedSegment_entries {es : List SegmentEntry} (alive : ∀ e ∈ es, e.live)
    (sorted : es.Pairwise fun a b => a.id < b.id) : (rt.compactedSegment es).entries = es := by
  have order : (es.map SegmentEntry.kept).Pairwise fun x y => x.id ≤ y.id := by
    rw [pairwise_map]
    exact sorted.imp le_of_lt
  rw [compactedSegment,SegmentBuilder.finish]
  simp only [order.insertionSort_eq,map_map]
  have same : ∀ e ∈ es, ((fun b => BuilderEntry.write b [] rt.dim) ∘ SegmentEntry.kept) e = e := by
    intro e member
    have kept : e.is_deleted = false := by simpa [SegmentEntry.live] using alive e member
    cases e
    simp_all [BuilderEntry.write,SegmentEntry.kept,View.floats]
  rw [map_congr_left same,map_id']

section
variable (strict : ∀ s ∈ rt.segments, s.Strict) {ps : List (List SegmentEntry)} (written : rt.compactParts = some ps)
include strict written

lemma compacted_entries {es : List SegmentEntry} (member : es ∈ ps) : (rt.compactedSegment es).entries = es := by
  obtain ⟨members,_,each⟩ := parts_pairwise (by decide) (stream_pairwise (merged_ascending strict)) written
  exact compactedSegment_entries (fun e inside => (members e (mem_flatten.mpr ⟨es,member,inside⟩)).1) (each es member)

lemma compacted_strict : ∀ s ∈ (rt.compacted ps).segments, s.Strict := by
  intro s member
  obtain ⟨es,inside,rfl⟩ := mem_map.mp (mem_reverse.mp member)
  obtain ⟨_,_,each⟩ := parts_pairwise (by decide) (stream_pairwise (merged_ascending strict)) written
  rw [Segment.Strict,compacted_entries strict written inside]
  exact each es inside

lemma compacted_filter (id : VectorId) : (((rt.compacted ps).segments.flatMap Segment.entries).filter fun e => e.id = id).Perm
      (ps.flatten.filter fun e => e.id = id) := by
  have entries : (rt.compacted ps).segments.flatMap Segment.entries = ps.reverse.flatten := by
    have each : ps.reverse.map (Segment.entries ∘ rt.compactedSegment) = ps.reverse := by
      have same : ∀ es ∈ ps.reverse, (Segment.entries ∘ rt.compactedSegment) es = es := fun es member =>
        compacted_entries strict written (mem_reverse.mp member)
      rw [map_congr_left same,map_id']
    show ((ps.map rt.compactedSegment).reverse).flatMap Segment.entries = _
    rw [← map_reverse,flatMap_def,map_map,each]
  rw [entries]
  exact ((reverse_perm ps).flatten).filter _

lemma lossless_of (same : ps.flatten = newestEntries rt.segments) :
    Lossless rt.segments (rt.compacted ps).segments := by
  intro id
  have perm := compacted_filter strict written id
  rw [same,newestEntries_filter strict] at perm
  cases newest : newestLive rt.segments id with
  | none =>
    rw [newest] at perm
    exact perm_nil.mp perm
  | some e =>
    rw [newest] at perm
    exact perm_singleton.mp perm

end

/-- A compaction of fewer than 20000 ids with a live newest version that has completed is
lossless, and every read returns what it returned before. -/
theorem compact_lossless_few (rt : VectorRuntime) (strict : ∀ s ∈ rt.segments, s.Strict)
    (dims : ∀ s ∈ rt.segments, s.dim = rt.dim) (forever : rt.ttl_sec = 0)
    (few : (liveIds rt.segments).ncard < kMaxSegmentEntries) (ticks : List Tick) (after : VectorRuntime)
    (result : Status) (completed : rt.runCompact rt.beginCompact .start ticks = .complete after result) :
    result = .Ok ∧ Lossless rt.segments after.segments ∧
      (rt.Synced → ∀ now_sec id, (after.get now_sec id).toOption = (rt.get now_sec id).toOption) := by
  obtain ⟨ok,ps,written,rfl⟩ := runCompact_complete strict dims forever completed
  rw [liveIds_ncard strict] at few
  have lossless := lossless_of strict written (flatten_of_short few written)
  refine ⟨ok,lossless,fun synced now_sec id => ?_⟩
  have outputs := segments_seen (compacted_strict strict written) id
  rw [lossless.newestLive,← segments_seen strict] at outputs
  rw [get_toOption forever,@get_toOption (rt.compacted ps) forever,synced]
  exact seen_append_congr (rt.mem.layer :: rt.frozen_mem.reverse.map MemTable.layer) outputs

def holding (dim : UInt32) (segs : List Segment) : VectorRuntime where
  platform := .plain
  dim := dim
  quantize_inmem := false
  ttl_sec := 0
  wal := ⟨[],1000,0,none,0,0,0⟩
  wal_epoch := 0
  mem := MemTable.create .plain dim false
  frozen_mem := []
  segments := segs
  current_snapshot := ⟨[],segs⟩
  manifest := segs

def overwritten : VectorRuntime :=
  holding 1 [⟨1,[⟨1,[9],false,{}⟩,⟨3,[0],true,{}⟩],by decide⟩,⟨1,[⟨1,[8],false,{}⟩,⟨2,[7],false,{}⟩,⟨3,[6],false,{}⟩],by decide⟩]

theorem compact_lossless_overwritten : ∃ after,
    overwritten.runCompact overwritten.beginCompact .start (replicate 14 ⟨true,0⟩) = .complete after .Ok ∧
      Lossless overwritten.segments after.segments ∧
      ∀ now_sec id, (after.get now_sec id).toOption = (overwritten.get now_sec id).toOption := by
  have strict : ∀ s ∈ overwritten.segments, s.Strict := by
    unfold Segment.Strict
    decide
  have dims : ∀ s ∈ overwritten.segments, s.dim = overwritten.dim := by decide
  cases completed : overwritten.runCompact overwritten.beginCompact .start (replicate 14 ⟨true,0⟩) with
  | running after st pump =>
    have ended : (overwritten.runCompact overwritten.beginCompact .start (replicate 14 ⟨true,0⟩)).isComplete := by
      decide +kernel
    rw [completed] at ended
    cases ended
  | complete after result =>
    have few : (liveIds overwritten.segments).ncard < kMaxSegmentEntries := by
      rw [liveIds_ncard strict]
      decide
    obtain ⟨rfl,lossless,reads⟩ := compact_lossless_few overwritten strict dims rfl few _ _ _ completed
    exact ⟨after,rfl,lossless,reads rfl⟩

lemma segments_get {rt : VectorRuntime} {dim : UInt32} {segs : List Segment} (forever : rt.ttl_sec = 0)
    (empty : rt.mem = MemTable.create .plain dim false) (published : rt.current_snapshot = ⟨[],segs⟩)
    (strict : ∀ s ∈ segs, s.Strict) (now_sec : UInt64) (id : VectorId) :
    (rt.get now_sec id).toOption = (newestLive segs id).map fun e => (e.vec,e.md) := by
  rw [get_toOption forever,← segments_seen strict,seen,readLayers,answer_cons,empty,layer_create,Option.none_or,published]
  rfl

end VectorRuntime

def numbered (k : Nat) : SegmentEntry := ⟨UInt64.ofNat k,[7],false,{}⟩

lemma numbered_pairwise {from_ n : Nat} (bound : from_ + n ≤ 2 ^ 64) :
    ((List.range' from_ n).map numbered).Pairwise fun a b => a.id < b.id := by
  rw [pairwise_map]
  refine List.Pairwise.imp_of_mem ?_ pairwise_lt_range'
  grind [numbered,UInt64.lt_iff_toNat_lt,UInt64.toNat_ofNat']

def counted (from_ n : Nat) (bound : from_ + n ≤ 2 ^ 64) : Segment :=
  ⟨1,(List.range' from_ n).map numbered,(numbered_pairwise bound).imp le_of_lt⟩

lemma numbered_absent {from_ n k : Nat} (small : from_ + n ≤ k) (bound : k < 2 ^ 64) :
    (((List.range' from_ n).map numbered).find? fun e => e.id = UInt64.ofNat k) = none := by
  grind [numbered,UInt64.toNat_ofNat']

lemma newestLive_counted (n : Nat) (first : 0 + n ≤ 2 ^ 64) (second : n + 2 ≤ 2 ^ 64) :
    newestLive [counted 0 n first,counted n 2 second] (UInt64.ofNat (n + 1)) = some (numbered (n + 1)) := by
  have above : ((counted 0 n first).entries.find? fun e => e.id = UInt64.ofNat (n + 1)) = none :=
    numbered_absent (by omega) (by omega)
  have differ : ¬ UInt64.ofNat n = UInt64.ofNat (n + 1) := by
    simp
  have here : ((counted n 2 second).entries.find? fun e => e.id = UInt64.ofNat (n + 1)) = some (numbered (n + 1)) := by
    simp [counted,List.range',numbered]
  rw [newestLive,newestIn,List.findSome?_cons,above,List.findSome?_cons,here]
  rfl

lemma merged_counted (n : Nat) (first : 0 + n ≤ 2 ^ 64) (second : n + 2 ≤ 2 ^ 64) : merged [counted 0 n first,counted n 2 second] =
      ((List.range' 0 n).map numbered).map (fun e => (0,e)) ++ (1,numbered n) :: [(1,numbered (n + 1))] := by
  have listed : tagged [(counted 0 n first).entries,(counted n 2 second).entries] =
      ((List.range' 0 n).map numbered).map (fun e => (0,e)) ++ (1,numbered n) :: [(1,numbered (n + 1))] := by
    simp [tagged,counted,List.range']
  have ids : (tagged [(counted 0 n first).entries,(counted n 2 second).entries]).map Prod.snd =
      (List.range' 0 (n + 2)).map numbered := by
    have split_ : List.range' 0 (n + 2) = List.range' 0 n ++ [n,n + 1] := by
      have both := @List.range'_append_1 0 n 2
      rw [Nat.zero_add] at both
      exact both.symm
    rw [listed,split_]
    simp
  have order : (tagged [(counted 0 n first).entries,(counted n 2 second).entries]).Pairwise (Before SegmentEntry.id) := by
    have ascending := @numbered_pairwise 0 (n + 2) (by omega)
    rw [← ids,pairwise_map] at ascending
    exact ascending.imp .inl
  rw [merged,stream]
  exact order.insertionSort_eq.trans listed

lemma parts_counted (n : Nat) (bound : n + 2 ≤ 2 ^ 64) : parts SegmentEntry.id SegmentEntry.live (n + 1)
      (((List.range' 0 n).map numbered).map (fun e => (0,e)) ++ (1,numbered n) :: [(1,numbered (n + 1))]) =
        some [(List.range' 0 (n + 1)).map numbered] := by
  let us : List (Nat × SegmentEntry) := ((List.range' 0 n).map numbered).map fun e => (0,e)
  have split_ : List.range' 0 (n + 1) = List.range' 0 n ++ [n] := by rw [List.range'_1_concat,Nat.zero_add]
  have ids : (us ++ [(1,numbered n)]).map Prod.snd = (List.range' 0 (n + 1)).map numbered := by
    rw [split_]
    simp [us]
  have ascending : (us ++ [(1,numbered n)]).Pairwise fun (a b : Nat × SegmentEntry) => a.2.id < b.2.id := by
    grind [numbered_pairwise]
  have alive : ∀ u ∈ us ++ [(1,numbered n)], u.2.live = true := by
    intro u member
    have inside := mem_map_of_mem (f := Prod.snd) member
    rw [ids] at inside
    obtain ⟨k,_,same⟩ := mem_map.mp inside
    rw [← same]
    rfl
  have full : ([] : List SegmentEntry).length + us.length + 1 = n + 1 := by simp [us]
  rw [parts_eq (by simp),partsFrom_fills alive ascending (fun _ _ => (Option.some_ne_none _).symm) full]
  rw [filter_cons_of_neg (by simp),filter_nil,parts_nil,split_]
  simp [us]

namespace VectorRuntime

def brimming : VectorRuntime := holding 1 [counted 0 19999 (by decide),counted 19999 2 (by decide)]

lemma brimming_strict : ∀ s ∈ brimming.segments, s.Strict := by
  intro s member
  rcases mem_pair.mp member with rfl | rfl
  · exact numbered_pairwise (by decide)
  · exact numbered_pairwise (by decide)

lemma brimming_parts : brimming.compactParts = some [(List.range' 0 20000).map numbered] := by
  have size : kMaxSegmentEntries = 19999 + 1 := rfl
  have segs : brimming.segments = [counted 0 19999 (by decide),counted 19999 2 (by decide)] := rfl
  grind [compactParts,merged_counted,parts_counted]

lemma brimming_newest : newestLive brimming.segments 20000 = some (numbered 20000) :=
  newestLive_counted 19999 (by decide) (by decide)

/-- The job leaves its loop at the id 19999 and forgets the id behind it. -/
theorem compact_loses_vector : ∃ ticks, (∀ s ∈ brimming.segments, s.Strict) ∧ (brimming.compact ticks).2 = .Ok ∧
      ¬ Lossless brimming.segments (brimming.compact ticks).1.segments ∧
      (brimming.get 0 20000).toOption = some ([7],{}) ∧ ((brimming.compact ticks).1.get 0 20000).toOption = none := by
  have dims : ∀ s ∈ brimming.segments, s.dim = brimming.dim := by decide
  have ends : brimming.compactParts ≠ none := by rw [brimming_parts]; exact Option.some_ne_none _
  obtain ⟨ticks,after,completed⟩ := compact_completes brimming_strict dims rfl ends
  obtain ⟨_,ps,written,rfl⟩ := runCompact_complete brimming_strict dims rfl completed
  have done : brimming.compact ticks = (brimming.compacted ps,.Ok) := by
    rw [compact,completed]
    rfl
  have entries : (brimming.compacted ps).segments.flatMap Segment.entries = (List.range' 0 20000).map numbered := by
    have only := written
    rw [brimming_parts] at only
    cases only
    have same := compacted_entries brimming_strict written (.head _)
    exact (append_nil _).trans same
  have gone : newestLive (brimming.compacted ps).segments 20000 = none := by
    rw [newestLive,newestIn,← List.find?_flatMap,entries]
    exact congrArg (Option.filter _) (numbered_absent (by decide) (by decide))
  refine ⟨ticks,brimming_strict,by rw [done],?_,?_,?_⟩
  · intro lossless
    rw [done] at lossless
    have same := lossless.newestLive 20000
    rw [brimming_newest,gone] at same
    cases same
  · rw [segments_get rfl rfl rfl brimming_strict,brimming_newest]
    rfl
  · rw [done,segments_get rfl rfl rfl (compacted_strict brimming_strict written),gone]
    rfl

end VectorRuntime
end PomaiCache
