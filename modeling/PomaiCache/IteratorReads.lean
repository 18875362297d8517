import PomaiCache.Iterator

/-!
Scans and lookups. A scan shows what the layers say in the order of the iterator, where the
frozen memtables come oldest first; a lookup asks them newest first.
-/
namespace PomaiCache
open Layers FirstSeen List

def Reading.value (r : Reading) : Option Found := if r.is_deleted then none else some (r.vec,r.md.getD {})

def Reading.layer (rs : List Reading) : Layer VectorId Found := fun id =>
  (rs.find? fun r => r.id = id).map Reading.value

lemma Reading.layer_append (first second : List Reading) (id : VectorId) :
    layer (first ++ second) id = (layer first id).or (layer second id) := by
  grind [layer]

lemma Reading.layer_flatMap {α : Type} (readings : α → List Reading) (sources : List α) (id : VectorId) :
    layer (sources.flatMap readings) id = answer (sources.map fun s => layer (readings s)) id := by
  induction sources with
  | nil => rfl
  | cons s sources ih => rw [flatMap_cons,layer_append,ih,map_cons,answer_cons]

/-- What a walk over the table shows of an id: a quantized vector is decoded, which a
lookup does not do. -/
def MemTable.shownLayer (m : MemTable) : Layer VectorId Found := fun id =>
  (m.map.find id).map fun value => value.map fun p =>
    (if m.quantize_inmem then p.decode m.platform m.dim.toNat else p.floats,(m.metadata id).getD {})

lemma MemTable.readings_shown (m : MemTable) : Reading.layer m.iterateWithMetadata = m.shownLayer := by
  funext id
  have same : (fun r : Reading => decide (r.id = id)) ∘ m.reading = fun slot => decide (slot.1 = id) := by
    funext slot
    simp
  rw [Reading.layer,iterateWithMetadata,List.find?_map,same,shownLayer,← m.map.find?_entries]
  cases found : m.map.entries.find? fun slot => decide (slot.1 = id) with
  | none => rfl
  | some slot =>
    grind [reading,Reading.value]

lemma MemTable.shown_plain {m : MemTable} (plain : m.quantize_inmem = false) : m.shownLayer = m.layer := by
  funext id
  rw [shownLayer,MemTable.layer,version,Option.map_map]
  congr 1
  funext value
  cases value <;> simp [plain]

lemma MemTable.readings_layer {m : MemTable} (plain : m.quantize_inmem = false) : Reading.layer m.iterateWithMetadata = m.layer :=
  m.readings_shown.trans (shown_plain plain)

lemma MemTable.layer_sized {m : MemTable} (plain : m.quantize_inmem = false) {id : VectorId} {found : Found}
    (held : m.layer id = some (some found)) : found.1.length = m.dim.toNat := by
  rw [MemTable.layer,version,Option.map_map,Option.map_eq_some_iff] at held
  obtain ⟨value,stored,same⟩ := held
  cases value with
  | none => cases same
  | some p =>
    obtain ⟨sized,raw⟩ := m.stored id p stored
    cases p with
    | raw vec =>
      cases same
      exact sized
    | sq8 vmin inv_scale codes => cases raw plain

lemma Segment.readings_layer (s : Segment) : Reading.layer s.readings = s.firstLayer := by
  funext id
  have same : (fun r : Reading => decide (r.id = id)) ∘ (fun e : SegmentEntry =>
      (⟨e.id,e.vec,e.is_deleted,some e.md⟩ : Reading)) = fun e => decide (e.id = id) := rfl
  rw [Reading.layer,readings,List.find?_map,same,firstLayer]
  cases s.entries.find? fun e => decide (e.id = id) <;> rfl

namespace IteratorSnapshot
variable (snap : IteratorSnapshot)

/-- The live memtable, the frozen ones from the oldest to the newest, and the segments. -/
def scanOrder : List (Layer VectorId Found) :=
  (snap.live_memtable.toList ++ snap.frozen_memtables).map MemTable.shownLayer ++ snap.segments.map Segment.firstLayer

/-- The live memtable, the frozen ones from the newest to the oldest, and the segments. -/
def lookupOrder : List (Layer VectorId Found) :=
  (snap.live_memtable.toList ++ snap.frozen_memtables.reverse).map MemTable.layer ++ snap.segments.map Segment.layer

def lookup (id : VectorId) : LookupResult := lookupById snap.live_memtable (some snap.toVectorSnapshot) id

lemma lookup_eq (id : VectorId) : snap.lookup id = .ofAnswer (answer snap.lookupOrder id) := by
  rw [lookup,lookupById,lookupOrder,map_append,answer_append,answer_append]
  simp only [findSome?_lookup MemTable.lookup_eq,findSome?_lookup Segment.lookup_eq]
  have top : (snap.live_memtable.bind fun m => m.lookup id) =
      (answer (snap.live_memtable.toList.map MemTable.layer) id).map fun value => LookupResult.ofAnswer (some value) := by
    cases snap.live_memtable with
    | none => rfl
    | some m =>
      rw [Option.bind_some,MemTable.lookup_eq,Option.toList_some,map_singleton,answer_cons,answer_nil,Option.or_none]
  rw [top]
  cases answer (snap.live_memtable.toList.map MemTable.layer) id with
  | some value => rfl
  | none =>
    cases answer (snap.frozen_memtables.reverse.map MemTable.layer) id with
    | some value => rfl
    | none => cases answer (snap.segments.map Segment.layer) id <;> rfl

lemma readings_layer : Reading.layer snap.readings = answer snap.scanOrder := by
  funext id
  have tables : (snap.memtables.map fun m => Reading.layer m.iterateWithMetadata) = snap.memtables.map MemTable.shownLayer :=
    map_congr_left fun m _ => m.readings_shown
  have segs : (snap.segments.map fun s => Reading.layer s.readings) = snap.segments.map Segment.firstLayer :=
    map_congr_left fun s _ => s.readings_layer
  rw [readings,Reading.layer_append,Reading.layer_flatMap,Reading.layer_flatMap,tables,segs,← answer_append]
  rfl

end IteratorSnapshot

def unexpired (ttl_sec : UInt32) (now_sec : UInt64) (found : Option Found) : Option Vec :=
  (found.filter fun found => !VectorRuntime.vectorMetaExpired ttl_sec now_sec found.2).map Prod.fst

lemma unexpired_zero (now_sec : UInt64) (found : Option Found) : unexpired 0 now_sec found = found.map Prod.fst := by
  cases found <;> simp [unexpired,VectorRuntime.vectorMetaExpired]

namespace VectorIterator

variable (it : VectorIterator)

lemma isExpired_eq (md : Metadata) : it.isExpired md = VectorRuntime.vectorMetaExpired it.ttl_sec it.now_sec md := by
  unfold isExpired VectorRuntime.vectorMetaExpired
  grind

lemma shown_eq (r : Reading) : it.shown r = (unexpired it.ttl_sec it.now_sec r.value).getD [] := by
  have never : VectorRuntime.vectorMetaExpired it.ttl_sec it.now_sec {} = false := by
    simp [VectorRuntime.vectorMetaExpired]
  have expired : r.md.any it.isExpired = VectorRuntime.vectorMetaExpired it.ttl_sec it.now_sec (r.md.getD {}) := by
    cases r.md with
    | none => exact never.symm
    | some md => exact it.isExpired_eq md
  grind [shown,Reading.value,VectorRuntime.vectorMetaExpired,unexpired,Option.filter]

lemma mem_visible (rs : List Reading) (id : VectorId) (vec : Vec) : (id,vec) ∈ it.visible [] rs ↔
      (unexpired it.ttl_sec it.now_sec (Reading.layer rs id).join).filter (fun vec => !vec.isEmpty) = some vec := by
  have filtered : ∀ found : Option Vec, found.filter (fun vec => !vec.isEmpty) = some vec ↔ vec ≠ [] ∧ found.getD [] = vec := by
    intro found
    cases found with
    | none => simp [eq_comm]
    | some other =>
      rw [Option.filter_eq_some_iff]
      simp [and_comm]
  rw [visible,mem_map,filtered,Reading.layer]
  constructor
  · rintro ⟨r,member,same⟩
    obtain ⟨taken,live⟩ := mem_filter.mp member
    obtain ⟨rfl,rfl⟩ := Prod.mk.inj same
    refine ⟨by simpa using live,?_⟩
    rw [((mem_firsts _ _ _).mp taken).2,it.shown_eq]
    rfl
  · rintro ⟨some_,said⟩
    cases first : rs.find? fun r => r.id = id with
    | none =>
      rw [first] at said
      exact absurd said.symm some_
    | some r =>
      have same : r.id = id := by simpa using List.find?_some first
      subst same
      rw [first] at said
      have vec_ : it.shown r = vec := (it.shown_eq r).trans said
      grind [mem_firsts]

lemma visible_nodup (rs : List Reading) : ((it.visible [] rs).map Prod.fst).Nodup := by
  rw [visible,map_map]
  exact (firsts_nodup [] rs).sublist (filter_sublist.map _)

end VectorIterator

namespace IteratorSnapshot
variable (snap : IteratorSnapshot)

/-- The pairs of a scan are those of the ids that lookups find. -/
def Agrees (pairs : List (VectorId × Vec)) : Prop :=
  (pairs.map Prod.fst).Nodup ∧ ∀ id vec, (id,vec) ∈ pairs ↔ (snap.lookup id).visible = some vec

/-- For each id the oldest frozen table that holds it, below the live one, shows the vector, or
the absence, that the newest one gives to a lookup; and that vector has components. -/
def Consistent : Prop :=
  ∀ id, ((seen snap.scanOrder id).map Prod.fst).filter (fun vec => !vec.isEmpty) = (seen snap.lookupOrder id).map Prod.fst

lemma create_pairs (ttl_sec : UInt32) (now_sec : UInt64) :
    (((VectorIterator.create snap ttl_sec now_sec).pending snap).map Prod.fst).Nodup ∧
      ∀ id vec, (id,vec) ∈ (VectorIterator.create snap ttl_sec now_sec).pending snap ↔
        (unexpired ttl_sec now_sec (seen snap.scanOrder id)).filter (fun vec => !vec.isEmpty) = some vec := by
  rw [VectorIterator.create_pending]
  refine ⟨VectorIterator.visible_nodup _ _,fun id vec => ?_⟩
  rw [VectorIterator.mem_visible,snap.readings_layer]
  rfl

lemma consistent_of_single (plain : ∀ m ∈ snap.live_memtable.toList ++ snap.frozen_memtables, m.quantize_inmem = false)
    (single : snap.frozen_memtables.length ≤ 1) (strict : ∀ s ∈ snap.segments, s.Strict)
    (sized : ∀ id found, seen snap.lookupOrder id = some found → found.1 ≠ []) : snap.Consistent := by
  have tables : snap.frozen_memtables.reverse = snap.frozen_memtables := by
    match snap.frozen_memtables,single with
    | [],_ => rfl
    | [m],_ => rfl
  have segs : snap.segments.map Segment.layer = snap.segments.map Segment.firstLayer :=
    map_congr_left fun s member => funext fun id => Segment.layer_firstLayer (strict s member) id
  have same : snap.lookupOrder = snap.scanOrder := by
    rw [lookupOrder,tables,segs,scanOrder,map_congr_left fun m member => MemTable.shown_plain (plain m member)]
  intro id
  rw [← same]
  cases found : seen snap.lookupOrder id with
  | none => rfl
  | some value => simpa using sized id value found

end IteratorSnapshot
end PomaiCache
