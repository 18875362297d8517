import Mathlib
import PomaiCache.Lexical
import PomaiCache.MapRuns
import PomaiCache.TimeFilters

/-!
What a table tells of the calls it went through. The ids that were written are counted and
shown by an iteration, but for the id that marks empty slots: it is counted each time and never
stored.
-/
namespace PomaiCache
open Codec FlatHashMemMap Layers List

namespace MemTable
variable {m result : MemTable} {id : VectorId}

def run (m : MemTable) (calls : List Call) : MemTable := calls.foldl call m

def Call.written (dim : UInt32) : Call → List VectorId
  | putMeta id vec _ => if vec.length = dim.toNat then [id] else []
  | putBatch ids vectors => if ids.length = vectors.length ∧ ∀ vec ∈ vectors, vec.length = dim.toNat then ids else []
  | delete id => [id]

@[simp] lemma find_kEmpty (m : MemTable) : m.map.find kEmpty = none := by rw [← m.marked,Map.find_sentinel]

inductive WritesAll : MemTable → List VectorId → MemTable → Prop
  | nil (m : MemTable) : WritesAll m [] m
  | cons {m next result : MemTable} {id : VectorId} {ids : List VectorId} {value : Option Payload} {md : Option Metadata}
      (first : Writes m next id value md) (rest : WritesAll next ids result) : WritesAll m (id :: ids) result

variable {ids : List VectorId} {md : Option Metadata}

lemma WritesAll.one (writes : Writes m result id value md) : WritesAll m [id] result := .cons writes (.nil result)

lemma WritesAll.append {ids more : List VectorId} {next : MemTable} (first : WritesAll m ids next) (second : WritesAll next more result) :
    WritesAll m (ids ++ more) result := by
  induction first with
  | nil => exact second
  | cons writes rest ih => exact .cons writes (ih second)

lemma WritesAll.sameShape (writes : WritesAll m ids result) : SameShape m result := by
  induction writes with
  | nil => exact .refl _
  | cons first rest ih => exact first.sameShape.trans ih

lemma foldl_storeRaw_writes (items : List (VectorId × Vec)) : ∀ {m : MemTable}, (∀ item ∈ items, item.2.length = m.dim.toNat) →
    WritesAll m (items.map Prod.fst) (items.foldl (fun m item => m.storeRaw item.1 item.2) m) := by
  induction items with
  | nil => exact fun _ => .nil _
  | cons item rest ih =>
    intro m sized
    have first := storeRaw_writes m item.1 (sized item (.head _))
    exact .cons first (ih fun other member => by rw [first.dim]; exact sized other (.tail _ member))

lemma call_writes (m : MemTable) (c : Call) : WritesAll m (c.written m.dim) (m.call c) := by
  cases c with
  | putMeta id vec md =>
    by_cases sized : vec.length = m.dim.toNat
    · simpa [Call.written,sized,call] using .one (putMeta_ok m id md sized).2
    · simpa [Call.written,sized,call,putMeta_mismatch m id md sized] using WritesAll.nil m
  | putBatch ids vectors =>
    obtain ⟨fits,done⟩ | ⟨refused,st,_,done⟩ := putBatch_cases m ids vectors
    · have all := foldl_storeRaw_writes (ids.zip vectors) fun item member => fits.2 _ (of_mem_zip member).2
      rw [map_fst_zip fits.1.le] at all
      simpa only [Call.written,if_pos fits,call,done] using all
    · simpa only [Call.written,if_neg refused,call,done] using WritesAll.nil m
  | delete id => exact .one (delete_writes m id).2

lemma run_writes (calls : List Call) : ∀ m : MemTable, WritesAll m (calls.flatMap (Call.written m.dim)) (m.run calls) := by
  induction calls with
  | nil => exact fun m => .nil m
  | cons c rest ih =>
    intro m
    have first := m.call_writes c
    have later := ih (m.call c)
    rw [first.sameShape.dim] at later
    exact first.append later

/-- The table holds these ids, but for the marker, and counts each writing of the marker. -/
structure Counts (m : MemTable) (ids : List VectorId) : Prop where
  holds : ∀ id, (m.version id).isSome = true ↔ id ∈ ids ∧ id ≠ kEmpty
  count : m.getCount = (ids.toFinset.erase kEmpty).card + ids.count kEmpty

lemma Counts.write (counts : Counts m ids) {value : Option Payload}
    (writes : Writes m result id value md) : Counts result (ids ++ [id]) := by
  constructor
  · intro other
    rw [writes.version]
    by_cases here : other = id ∧ id ≠ kEmpty
    · simp [here]
    · grind [counts.holds,mem_singleton]
  · rw [writes.getCount,counts.count,toFinset_append,count_append,Finset.union_comm]
    simp only [toFinset_cons,toFinset_nil,insert_empty_eq,← Finset.insert_eq]
    by_cases marker : id = kEmpty
    · simp [marker]
      omega
    · have zero : [id].count kEmpty = 0 := by simp [marker]
      rw [Finset.erase_insert_of_ne marker,zero]
      by_cases held : (m.version id).isSome = true
      · have inside : id ∈ ids.toFinset.erase kEmpty := by simpa [marker] using ((counts.holds id).mp held).1
        rw [if_pos held,Finset.insert_eq_of_mem inside]
        omega
      · have outside : id ∉ ids.toFinset.erase kEmpty := by
          simpa [marker] using fun member => held ((counts.holds id).mpr ⟨member,marker⟩)
        grind

lemma Counts.writeAll (writes : WritesAll m more result) (counts : Counts m ids) : Counts result (ids ++ more) := by
  induction writes generalizing ids with
  | nil => simpa using counts
  | cons first rest ih => simpa using ih (counts.write first)

lemma counts_create (platform : Platform) (dim : UInt32) (quantize_inmem : Bool) : Counts (create platform dim quantize_inmem) [] :=
  ⟨by simp,rfl⟩

lemma Counts.distinct_iff (counts : Counts m ids) : m.getCount = ids.toFinset.card ↔ ids.count kEmpty ≤ 1 := by
  rw [counts.count]
  by_cases member : kEmpty ∈ ids
  · have one := count_pos_iff.mpr member
    have card := Finset.card_erase_add_one (mem_toFinset.mpr member)
    omega
  · rw [Finset.erase_eq_of_notMem (by simpa using member),count_eq_zero_of_not_mem member]
    omega

lemma count_visited (m : MemTable) (id : VectorId) :
    (m.map.entries.map Prod.fst).count id = if (m.version id).isSome then 1 else 0 := by
  have shown : id ∈ m.map.entries.map Prod.fst ↔ (m.version id).isSome = true := by
    simp [mem_map,m.map.mem_entries,version,Option.isSome_iff_exists]
  rw [m.map.entries_nodup.count]
  simp only [shown]

/-- The floats `Get` shows are those of the vector: without quantization always, and else they are
the least component and the scale of the codes. -/
def Legible (m : MemTable) (vec : Vec) : Prop :=
  m.quantize_inmem = false ∨ match vec with
    | [] | [_] => True
    | [a,b] =>
      let fl := m.platform.floats
      let range := fl.sub (if fl.lt a b then b else a) a
      (fl.lt b a → b = a) ∧ b = if fl.lt float0 range then fl.div float255 range else float0
    | _ => False

lemma legible_iff (m : MemTable) (sized : vec.length = m.dim.toNat) :
    (m.allocate vec).floats.take m.dim.toNat = vec ↔ m.Legible vec := by
  rw [← sized]
  unfold allocate Legible
  cases m.quantize_inmem with
  | false => simp [Payload.floats]
  | true =>
    have positive : decide (m.dim > 0) = decide (0 < vec.length) := by
      rw [sized]
      exact decide_eq_decide.mpr UInt32.lt_iff_toNat_lt
    rw [positive]
    match vec with
    | [] => simp [Payload.floats]
    | [x] => simp [Payload.quantize,Payload.extremes,Payload.floats]
    | [a,b] =>
      generalize m.platform.floats = fl
      have header : (Payload.quantize fl [a,b]).floats = [if fl.lt b a then b else a,
        if fl.lt float0 (fl.sub (if fl.lt a b then b else a) (if fl.lt b a then b else a))
        then fl.div float255 (fl.sub (if fl.lt a b then b else a) (if fl.lt b a then b else a)) else float0] := rfl
      grind
    | a :: b :: c :: rest => simp [Payload.quantize,Payload.floats]

/-- After a put the vector is read through the pointer of `Get`, the count is that of the distinct ids,
and an iteration visits the id once. -/
structure Usable (m : MemTable) (id : VectorId) (vec : Vec) (ids : List VectorId) : Prop where
  get : ∃ p md, m.get id = .ok (p,md) ∧ p.floats.take m.dim.toNat = vec
  count : m.getCount = ids.toFinset.card
  visited : (m.map.entries.map Prod.fst).count id = 1

/-- An id can be used exactly if it is not the marker, the marker was written at most once, and the
vector is legible. -/
theorem put_usable_iff (platform : Platform) (dim : UInt32) (quantize_inmem : Bool) (calls : List Call) (id : VectorId) (vec : Vec) :
    let m := (create platform dim quantize_inmem).run calls
    let ids := calls.flatMap (Call.written dim)
    ((m.put id vec).2.ok = false ∨ Usable (m.put id vec).1 id vec (ids ++ [id])) ↔
      vec.length ≠ dim.toNat ∨ id ≠ kEmpty ∧ ids.count kEmpty ≤ 1 ∧ m.Legible vec := by
  intro m ids
  have reached : WritesAll (create platform dim quantize_inmem) ids m := run_writes calls _
  have sizes : m.dim = dim := reached.sameShape.dim
  have counts : Counts m ids := by simpa using (counts_create platform dim quantize_inmem).writeAll reached
  by_cases sized : vec.length = dim.toNat
  swap
  · refine iff_of_true (.inl ?_) (.inl sized)
    rw [put,putMeta_mismatch m id {} (by rwa [sizes])]
    rfl
  have fits : vec.length = m.dim.toNat := by rw [sized,sizes]
  obtain ⟨ok,writes⟩ : (m.put id vec).2 = .Ok ∧ Writes m (m.put id vec).1 id (some (m.allocate vec)) none := putMeta_ok m id {} fits
  have after : Counts (m.put id vec).1 (ids ++ [id]) := counts.write writes
  simp only [ok,Status.ok_Ok,Bool.true_eq_false,false_or,sized,ne_eq,not_true_eq_false]
  by_cases marker : id = kEmpty
  · subst marker
    simp only [not_true_eq_false,false_and,iff_false]
    intro usable
    have once := usable.visited
    rw [count_visited] at once
    simp at once
  have same : (ids ++ [id]).count kEmpty = ids.count kEmpty := by simp [marker]
  have found : (m.put id vec).1.map.find id = some (some (m.allocate vec)) := by
    rw [writes.map,Map.find_put,m.marked,if_pos ⟨rfl,marker⟩]
  rw [← same,← after.distinct_iff,← legible_iff m fits,← writes.dim]
  constructor
  · rintro ⟨⟨p,md,get,floats⟩,count,_⟩
    grind [MemTable.get]
  · rintro ⟨_,count,floats⟩
    refine ⟨⟨_,_,by rw [MemTable.get,found],floats⟩,count,?_⟩
    rw [count_visited,if_pos ((after.holds id).mpr ⟨by simp,marker⟩)]

/-- Putting the largest id is reported as done, but it cannot be read or visited. -/
theorem put_marker_lost :
    let m := ((create Platform.plain 1 false).put kEmpty [float1]).1
    ((create Platform.plain 1 false).put kEmpty [float1]).2 = .Ok ∧
      m.get kEmpty = .error (.notFound "vector not found") ∧ m.getCount = 1 ∧ m.map.entries = [] := by
  decide +kernel

lemma WritesAll.version_other (writes : WritesAll m ids result) (apart : id ∉ ids) : result.version id = m.version id := by
  induction writes with
  | nil => rfl
  | cons first rest ih =>
    grind [first.version]

def built : Progress → List BuilderEntry
  | .running _ st => (st.builder.map SegmentBuilder.entries).getD []
  | .complete .. => []

/-- `Get` returns the metadata, and the entry a freeze builds when its cursor is at the id has it too. -/
structure ReadsBack (m : MemTable) (id : VectorId) (md : Metadata) : Prop where
  get : ∃ p, m.get id = .ok (p,md)
  frozen : ∃ value slots, (id,value) :: slots <:+ m.createCursor.snap ∧
    ∀ (rt : VectorRuntime) (st : FreezeState) (now_sec : UInt64) (buf : Vec), st.memtables[st.mem_index]? = some m →
      st.cursor.getD m.createCursor = ⟨m,(id,value) :: slots,buf⟩ → (st.builder.getD (.create rt.dim)).dim = m.dim →
      ∃ e, built (rt.freezeBuild st now_sec) = (st.builder.getD (.create rt.dim)).entries ++ [e] ∧ e.id = id ∧ e.md = md

lemma freezeBuild_adds {rt : VectorRuntime} {st : FreezeState} {p : Payload} {slots : List (VectorId × Option Payload)} {buf : Vec}
    (now_sec : UInt64) (current : st.memtables[st.mem_index]? = some m)
    (cursor : st.cursor.getD m.createCursor = ⟨m,(id,some p) :: slots,buf⟩) (fits : (st.builder.getD (.create rt.dim)).dim = m.dim) :
    ∃ e, built (rt.freezeBuild st now_sec) = (st.builder.getD (.create rt.dim)).entries ++ [e] ∧ e.id = id ∧
      e.md = (m.metadata id).getD {} := by
  have taken : ∃ vec cursor, Cursor.next ⟨m,(id,some p) :: slots,buf⟩ = some (⟨id,vec,false,m.metadata id⟩,cursor) := by
    by_cases quantized : m.quantize_inmem <;> simp [Cursor.next,quantized]
  obtain ⟨vec,later,taken⟩ := taken
  simp only [VectorRuntime.freezeBuild,current,cursor,taken]
  by_cases expired : VectorRuntime.vectorMetaExpired rt.ttl_sec now_sec ((m.metadata id).getD {}) = true
  · simp only [expired,SegmentBuilder.add,Bool.not_false,Bool.and_self,Bool.or_true,if_true,Status.ok_Ok]
    split <;> exact ⟨_,rfl,rfl,rfl⟩
  · simp only [expired,SegmentBuilder.add,fits,Bool.and_false,Bool.or_false,Bool.false_eq_true,if_false,ne_eq,not_true_eq_false,
      Status.ok_Ok,if_true]
    split <;> exact ⟨_,rfl,rfl,rfl⟩

lemma readsBack_iff {p : Payload} {kept md : Metadata} (held : m.version id = some (some (p,kept))) :
    m.ReadsBack id md ↔ kept = md := by
  obtain ⟨value,found,same⟩ := Option.map_eq_some_iff.mp held
  obtain ⟨q,rfl,both⟩ := Option.map_eq_some_iff.mp same
  cases both
  constructor
  · rintro ⟨⟨p,get⟩,_⟩
    rw [MemTable.get,found] at get
    cases get
    rfl
  · rintro rfl
    obtain ⟨before,slots,split⟩ := append_of_mem ((m.map.mem_entries id (some p)).mpr found)
    refine ⟨⟨p,by rw [MemTable.get,found]⟩,some p,slots,⟨before,split.symm⟩,?_⟩
    intro rt st now_sec buf current cursor fits
    exact freezeBuild_adds now_sec current cursor fits

/-- Metadata reads back exactly if one of the four fields is set that `Put` asks for, or none at all. -/
theorem metadata_readsBack_iff (platform : Platform) (dim : UInt32) (quantize_inmem : Bool) (before later : List Call) (id : VectorId)
    (vec : Vec) (md : Metadata) (sized : vec.length = dim.toNat) (unwritten : ∀ c ∈ later, id ∉ c.written dim) :
    ((create platform dim quantize_inmem).run (before ++ .putMeta id vec md :: later)).ReadsBack id md ↔
      id ≠ kEmpty ∧ (keepsMetadata md = true ∨ md = {}) := by
  have first := run_writes before (create platform dim quantize_inmem)
  set m := (create platform dim quantize_inmem).run before
  have sizes : m.dim = dim := first.sameShape.dim
  have writes := (putMeta_ok m id md (show vec.length = m.dim.toNat by rw [sizes,sized])).2
  have rest := run_writes later (m.putMeta id vec md).1
  rw [writes.dim,sizes] at rest
  have split : (create platform dim quantize_inmem).run (before ++ .putMeta id vec md :: later) = (m.putMeta id vec md).1.run later := by
    simp [run,m,call]
  have version := rest.version_other (show id ∉ _ by simpa using unwritten)
  rw [split]
  rw [writes.version] at version
  by_cases marker : id = kEmpty
  · subst marker
    simp only [ne_eq,not_true_eq_false,false_and,iff_false]
    rintro ⟨⟨p,get⟩,_⟩
    rw [MemTable.get,find_kEmpty] at get
    cases get
  · rw [if_pos ⟨rfl,marker⟩] at version
    rw [readsBack_iff version]
    grind

/-- Of metadata with a device and nothing else nothing is left. -/
theorem metadata_lost : ((create Platform.plain 1 false).run [.putMeta 7 [float1] {device_id := [1]}]).get 7 = .ok (.raw [float1],{}) := by
  decide +kernel

theorem metadata_readsBack_seven : ((create Platform.plain 1 false).run ([] ++ .putMeta 7 [float1] {text := [1]} :: [.delete 8])).ReadsBack 7
    {text := [1]} :=
  (metadata_readsBack_iff Platform.plain 1 false [] [.delete 8] 7 [float1] {text := [1]} rfl (by simp [Call.written])).mpr
    ⟨by decide,.inl rfl⟩

/-- What a reader finds behind the pointer to a vector: header and codes, or floats. -/
def behind (m : MemTable) (p : Payload) : (UInt32 × UInt32 × Bytes) ⊕ Vec :=
  if m.quantize_inmem then .inl (if m.dim = 0 then (0,0,[]) else p.layout m.platform.arena m.dim.toNat) else .inr p.floats

/-- The table with other words in the arena behind its vectors. -/
def withArena (m : MemTable) (arena : Nat → UInt32) : MemTable := {m with platform := {m.platform with arena := arena}}

/-- A vector stored as floats is at least as long as header and codes. -/
def Wide (m : MemTable) : Prop := m.quantize_inmem = true → m.dim = 0 ∨ 3 ≤ m.dim.toNat

variable {p q : Payload}

lemma decode_empty (m : MemTable) (empty : m.dim = 0) (sized : p.dim = m.dim.toNat) : p.decode m.platform m.dim.toNat = [] :=
  length_eq_zero_iff.mp ((Payload.decode_length m.platform _ p sized).trans (by rw [empty]; rfl))

lemma reading_eq (m : MemTable) (id : VectorId) (first : p.dim = m.dim.toNat) (second : q.dim = m.dim.toNat)
    (same : m.behind p = m.behind q) : m.reading (id,some p) = m.reading (id,some q) := by
  unfold behind at same
  by_cases quantized : m.quantize_inmem
  · by_cases empty : m.dim = 0
    · simp [reading,quantized,m.decode_empty empty first,m.decode_empty empty second]
    · simp only [quantized,if_true,empty,if_false,Sum.inl.injEq] at same
      simp [reading,quantized,Payload.decode,same]
  · simp only [quantized,Bool.false_eq_true,if_false,Sum.inr.injEq] at same
    simp [reading,quantized,same]

lemma layout_wide {n : Nat} (wide : 3 ≤ n) (sized : p.dim = n) (first second : Nat → UInt32) : p.layout first n = p.layout second n := by
  cases p with
  | sq8 vmin inv_scale codes => rfl
  | raw vec =>
    have word : ∀ i < n, vec.getD i (first i) = vec.getD i (second i) := by
      intro i less
      have inside : i < vec.length := by rw [← sized] at less; exact less
      simp [inside]
    have codes : ∀ i ∈ List.range n, (le 4 (vec.getD (2 + i / 4) (first (2 + i / 4))).toNat).getD (i % 4) 0 =
        (le 4 (vec.getD (2 + i / 4) (second (2 + i / 4))).toNat).getD (i % 4) 0 := by
      intro i member
      rw [word _ (by rw [mem_range] at member; omega)]
    simp only [Payload.layout,word 0 (by omega),word 1 (by omega),map_congr_left codes]

section
variable (wide : m.Wide) (sized : p.dim = m.dim.toNat) (arena : Nat → UInt32)
include wide sized

lemma behind_withArena : (m.withArena arena).behind p = m.behind p := by
  by_cases quantized : m.quantize_inmem
  · rcases wide quantized with empty | large
    · simp [behind,withArena,quantized,empty]
    · simp [behind,withArena,quantized,layout_wide large sized arena m.platform.arena]
  · simp [behind,withArena,quantized]

lemma reading_withArena (id : VectorId) : (m.withArena arena).reading (id,some p) = m.reading (id,some p) := by
  by_cases quantized : m.quantize_inmem
  · rcases wide quantized with empty | large
    · have none_ := (m.withArena arena).decode_empty empty sized
      simp only [withArena] at none_
      simp [reading,withArena,quantized,m.decode_empty empty sized,none_]
    · simp [reading,withArena,quantized,Payload.decode,layout_wide large sized arena m.platform.arena]
  · simp [reading,withArena,quantized]

end

lemma reading_md (m : MemTable) (id : VectorId) (value : Option Payload) :
    (m.reading (id,value)).md = if value.isSome then m.metadata id else none := by
  grind [reading]

lemma SameShape.behind (shape : SameShape m result) (p : Payload) : result.behind p = m.behind p := by
  simp only [MemTable.behind,shape.quantize_inmem,shape.dim,shape.platform]

lemma SameShape.wide (shape : SameShape m result) (wide : m.Wide) : result.Wide := by
  rw [Wide,shape.quantize_inmem,shape.dim]
  exact wide

/-- The items are stored in order, each filled in one way: the keys stand where they do for any
values, and the last vector of an id is found. -/
structure Stores (m result : MemTable) (fill : Vec → Payload) (items : List (VectorId × Vec)) : Prop where
  shape : SameShape m result
  keys : result.map.shape = items.foldl (fun t item => (t.put item.1 ()).1) m.map.shape
  find : ∀ id, id ≠ kEmpty → result.map.find id = ((lastWrite items id).map fun vec => some (fill vec)).or (m.map.find id)

lemma Stores.nil (m : MemTable) (fill : Vec → Payload) : Stores m m fill [] := ⟨.refl m,rfl,fun _ _ => rfl⟩

lemma Stores.write {next : MemTable} {fill : Vec → Payload} {items : List (VectorId × Vec)} (stores : Stores m next fill items) {vec : Vec}
    (writes : Writes next result id (some (fill vec)) md) : Stores m result fill (items ++ [(id,vec)]) := by
  refine ⟨stores.shape.trans writes.sameShape,?_,?_⟩
  · rw [foldl_append,← stores.keys,writes.map]
    exact Table.put_shape next.map.toTable id (some (fill vec))
  · intro other real
    rw [writes.map,Map.find_put,next.marked,stores.find other real,lastWrite_append,lastWrite_singleton]
    grind

lemma stores_storeRaw (items : List (VectorId × Vec)) (sized : ∀ item ∈ items, item.2.length = m.dim.toNat) :
    let result := items.foldl (fun m item => m.storeRaw item.1 item.2) m
    Stores m result .raw items ∧ result.metadata = m.metadata ∧ result.temporal_index = m.temporal_index := by
  induction items using List.reverseRecOn with
  | nil => exact ⟨.nil m _,rfl,rfl⟩
  | append_singleton items item ih =>
    obtain ⟨stores,metadata,times⟩ := ih fun other member => sized other (mem_append_left _ member)
    rw [foldl_append]
    have fits : item.2.length = (items.foldl (fun m item => m.storeRaw item.1 item.2) m).dim.toNat := by
      rw [stores.shape.dim]
      exact sized item (by simp)
    refine ⟨stores.write (storeRaw_writes _ item.1 fits),?_,?_⟩
    · simpa [storeRaw,fits,store] using metadata
    · simpa [storeRaw,fits,store] using times

lemma put_times (m : MemTable) (id : VectorId) (vec : Vec) (untimed : ∀ md, m.metadata id = some md → md.timestamp = 0) :
    (m.put id vec).1.temporal_index = m.temporal_index := by
  by_cases sized : vec.length = m.dim.toNat
  · have drop : ∀ value fits, ((m.store id value fits).dropTimestamp id).temporal_index = m.temporal_index := by
      intro value fits
      unfold dropTimestamp
      split
      · next old found => rw [if_neg (by simp [untimed old found])]; rfl
      · rfl
    simpa [put,putMeta,sized,keepsMetadata,setMetadata] using drop _ _
  · rw [put,putMeta_mismatch m id {} sized]

def putAll (m : MemTable) (items : List (VectorId × Vec)) : MemTable := items.foldl (fun m item => (m.put item.1 item.2).1) m

lemma stores_putAll (items : List (VectorId × Vec)) (sized : ∀ item ∈ items, item.2.length = m.dim.toNat) :
    Stores m (m.putAll items) m.allocate items ∧
      (∀ id, (m.putAll items).metadata id = if id ∈ items.map Prod.fst then none else m.metadata id) ∧
      ((∀ item ∈ items, ∀ md, m.metadata item.1 = some md → md.timestamp = 0) → (m.putAll items).temporal_index = m.temporal_index) := by
  unfold putAll
  induction items using List.reverseRecOn with
  | nil => exact ⟨.nil m _,by simp,fun _ => rfl⟩
  | append_singleton items item ih =>
    obtain ⟨stores,metadata,times⟩ := ih fun other member => sized other (mem_append_left _ member)
    rw [foldl_append]
    generalize items.foldl (fun m item => (m.put item.1 item.2).1) m = next at stores metadata times
    have writes : Writes next (next.put item.1 item.2).1 item.1 (some (m.allocate item.2)) none := by
      have same : next.allocate item.2 = m.allocate item.2 := by
        simp only [allocate,stores.shape.dim,stores.shape.quantize_inmem,stores.shape.platform]
      rw [← same]
      exact (putMeta_ok next item.1 {} (by rw [stores.shape.dim]; exact sized item (by simp))).2
    refine ⟨stores.write writes,?_,?_⟩
    · intro id
      rw [foldl_cons,foldl_nil,writes.metadata,metadata]
      grind
    · intro untimed
      rw [foldl_cons,foldl_nil,put_times,times fun other member => untimed other (mem_append_left _ member)]
      grind

/-- Two tables give the same answers to reads by id, by iteration and by time. -/
structure AnswersAlike (a b : MemTable) : Prop where
  get : ∀ id, (a.get id).map (fun found => (a.behind found.1,found.2)) = (b.get id).map fun found => (b.behind found.1,found.2)
  iterate : a.iterateWithMetadata = b.iterateWithMetadata
  times : ∀ start_ts end_ts, a.getByTimeRange start_ts end_ts = b.getByTimeRange start_ts end_ts

/-- What an id of a batch must be like: without metadata, and if the table is quantized then the floats
of its last vector are the bytes of its quantization. Under the marker only a timestamp shows. -/
def BatchFits (m : MemTable) (items : List (VectorId × Vec)) (id : VectorId) : Prop :=
  if id = kEmpty then ∀ md, m.metadata id = some md → md.timestamp = 0
  else m.metadata id = none ∧ ∀ vec, lastWrite items id = some vec → m.quantize_inmem = true → m.dim > 0 →
    (Payload.quantize m.platform.floats vec).layout m.platform.arena m.dim.toNat =
      (Payload.raw vec).layout m.platform.arena m.dim.toNat

lemma behind_allocate_iff (m : MemTable) (vec : Vec) : m.behind (m.allocate vec) = m.behind (.raw vec) ↔
    (m.quantize_inmem = true → m.dim > 0 → (Payload.quantize m.platform.floats vec).layout m.platform.arena m.dim.toNat =
      (Payload.raw vec).layout m.platform.arena m.dim.toNat) := by
  unfold behind allocate
  grind

lemma alike_withArena (first : a.Wide) (second : b.Wide) (arena arena' : Nat → UInt32) :
    AnswersAlike (a.withArena arena) (b.withArena arena') ↔ AnswersAlike a b := by
  have gets {m : MemTable} (wide : m.Wide) (arena : Nat → UInt32) (id : VectorId) :
      ((m.withArena arena).get id).map (fun found => ((m.withArena arena).behind found.1,found.2)) =
        (m.get id).map fun found => (m.behind found.1,found.2) := by
    show (m.get id).map (fun found => ((m.withArena arena).behind found.1,found.2)) = _
    cases here : m.get id with
    | error status => rfl
    | ok found =>
      have sized := (m.stored id found.1 (get_eq_ok_iff.mp here).1).1
      simp [Except.map,behind_withArena wide sized]
  have walks {m : MemTable} (wide : m.Wide) (arena : Nat → UInt32) : (m.withArena arena).iterateWithMetadata = m.iterateWithMetadata := by
    refine map_congr_left fun slot member => ?_
    obtain ⟨id,_ | p⟩ := slot
    · rfl
    · exact reading_withArena wide (m.stored id p ((m.map.mem_entries id _).mp member)).1 arena id
  constructor <;>
  · rintro ⟨get,iterate,times⟩
    exact ⟨fun id => by simpa only [gets first,gets second] using get id,by simpa only [walks first,walks second] using iterate,times⟩

lemma getByTimeRange_all (indexed : Indexed m.temporal_index times) :
    m.getByTimeRange 0 (UInt64.ofNat (2 ^ 64 - 1)) = some (m.temporal_index.map Prod.snd) := by
  have top : ∀ ts : UInt64, ts ≤ UInt64.ofNat (2 ^ 64 - 1) := fun ts => by
    rw [UInt64.le_iff_toNat_le]
    exact Nat.le_sub_one_of_lt ts.toNat_lt
  rw [getByTimeRange,timeRange_sorted indexed.sorted,if_neg (by
    rintro ⟨pair,_,beyond,_⟩
    exact absurd (top pair.1) (not_le.mpr beyond))]
  simp only [top,decide_true,Bool.and_true,UInt64.zero_le,filter_true,Option.map_some]

lemma answers_alike (shape : SameShape a b) (metadata : b.metadata id = a.metadata id)
    (seen : (a.map.find id).map (Option.map a.behind) = (b.map.find id).map (Option.map a.behind)) :
    (a.get id).map (fun found => (a.behind found.1,found.2)) = (b.get id).map (fun found => (b.behind found.1,found.2)) ∧
      (a.map.find id).map (fun value => a.reading (id,value)) = (b.map.find id).map fun value => b.reading (id,value) := by
  have reads : ∀ value, b.reading (id,value) = a.reading (id,value) := by
    intro value
    simp only [reading,metadata,shape.quantize_inmem,shape.platform,shape.dim]
  simp only [MemTable.get,metadata,shape.behind,reads]
  have left := a.stored id
  have right := b.stored id
  generalize a.map.find id = x at seen left
  generalize b.map.find id = y at seen right
  rcases x with _ | _ | p <;> rcases y with _ | _ | q <;> simp at seen
  · exact ⟨rfl,rfl⟩
  · exact ⟨rfl,rfl⟩
  · have sized := (right q rfl).1
    rw [shape.dim] at sized
    simp [Except.map,seen,reading_eq a id (left p rfl).1 sized seen]

lemma batch_alike_iff (timed : m.Timed) (items : List (VectorId × Vec)) (sized : ∀ item ∈ items, item.2.length = m.dim.toNat) :
    AnswersAlike (items.foldl (fun m item => m.storeRaw item.1 item.2) m) (m.putAll items) ↔ ∀ id ∈ items.map Prod.fst, m.BatchFits items id := by
  obtain ⟨raw,rawMetadata,rawTimes⟩ := stores_storeRaw items sized
  obtain ⟨single,metadata,times⟩ := stores_putAll items sized
  have timedSingle : (m.putAll items).Timed := List.foldlRecOn items _ timed fun _ kept item _ => kept.putMeta item.1 item.2 {}
  generalize items.foldl (fun m item => m.storeRaw item.1 item.2) m = a at raw rawMetadata rawTimes
  generalize m.putAll items = b at single metadata times timedSingle
  have shape : SameShape a b :=
    ⟨single.shape.dim.trans raw.shape.dim.symm,single.shape.quantize_inmem.trans raw.shape.quantize_inmem.symm,
      single.shape.platform.trans raw.shape.platform.symm⟩
  have unwritten {id : VectorId} (none_ : lastWrite items id = none) : id ∉ items.map Prod.fst := fun member => by
    obtain ⟨item,inside,rfl⟩ := mem_map.mp member
    exact lastWrite_eq_none.mp none_ item inside rfl
  constructor
  · intro alike id member
    unfold BatchFits
    split
    · next marker =>
      -- the widest range of the batch shows the id, that of the puts does not
      subst marker
      intro md found
      by_contra set
      have indexed : Indexed a.temporal_index m.metadata := rawTimes ▸ timed.times
      have inside : (md.timestamp,kEmpty) ∈ a.temporal_index :=
        (indexed.has _ _).mpr ⟨UInt64.pos_iff_ne_zero.mpr set,md,found,rfl⟩
      have ranges := alike.times 0 (UInt64.ofNat (2 ^ 64 - 1))
      rw [getByTimeRange_all indexed,getByTimeRange_all timedSingle.times,Option.some.injEq] at ranges
      have shown : kEmpty ∈ b.temporal_index.map Prod.snd := ranges ▸ mem_map_of_mem inside
      obtain ⟨⟨ts,_⟩,listed,rfl⟩ := mem_map.mp shown
      obtain ⟨_,old,held,_⟩ := (timedSingle.times.has _ _).mp listed
      rw [metadata,if_pos member] at held
      cases held
    · next real =>
      obtain ⟨vec,written⟩ := Option.ne_none_iff_exists'.mp fun none_ => unwritten none_ member
      have there : a.map.find id = some (some (.raw vec)) := by simp [raw.find id real,written]
      have here : b.map.find id = some (some (m.allocate vec)) := by simp [single.find id real,written]
      refine ⟨?_,?_⟩
      · -- the iteration shows the metadata of the id
        have shown : a.reading (id,some (.raw vec)) ∈ b.iterateWithMetadata := by
          rw [← alike.iterate]
          exact mem_map_of_mem ((a.map.mem_entries _ _).mpr there)
        obtain ⟨⟨other,value⟩,_,same⟩ := mem_map.mp shown
        have ids := congrArg Reading.id same
        simp only [reading_id] at ids
        subst ids
        have md := congrArg Reading.md same
        rw [reading_md,reading_md,metadata,if_pos member,rawMetadata] at md
        simpa using md.symm
      · intro other same
        rw [written,Option.some.injEq] at same
        subst same
        refine (behind_allocate_iff m vec).mp ?_
        have seen := alike.get id
        simp only [MemTable.get,there,here,Except.map,raw.shape.behind,single.shape.behind] at seen
        grind
  · intro fits
    have alike : ∀ id, id ≠ kEmpty → b.metadata id = a.metadata id ∧
        (a.map.find id).map (Option.map a.behind) = (b.map.find id).map (Option.map a.behind) := by
      intro id real
      rw [metadata,rawMetadata,raw.find id real,single.find id real]
      cases written : lastWrite items id with
      | none =>
        exact ⟨if_neg (unwritten written),rfl⟩
      | some vec =>
        have member : id ∈ items.map Prod.fst := mem_map_of_mem (mem_of_lastWrite written)
        have fine := fits id member
        rw [BatchFits,if_neg real] at fine
        have same := (behind_allocate_iff m vec).mpr (fine.2 vec written)
        refine ⟨by rw [if_pos member,fine.1],?_⟩
        simp [raw.shape.behind,same]
    have answers : ∀ id, (a.get id).map (fun found => (a.behind found.1,found.2)) = (b.get id).map (fun found => (b.behind found.1,found.2)) ∧
        (a.map.find id).map (fun value => a.reading (id,value)) = (b.map.find id).map fun value => b.reading (id,value) := by
      intro id
      by_cases marker : id = kEmpty
      · subst marker
        simp [MemTable.get,Except.map]
      · exact answers_alike shape (alike id marker).1 (alike id marker).2
    refine ⟨fun id => (answers id).1,?_,?_⟩
    · have keys : a.map.entries.map Prod.fst = b.map.entries.map Prod.fst := by
        have first : a.map.entries.map Prod.fst = _ := a.map.toTable.entries_shape
        rw [first,raw.keys,← single.keys]
        exact b.map.toTable.entries_shape.symm
      rw [iterateWithMetadata,iterateWithMetadata,a.map.entries_eq,b.map.entries_eq,map_filterMap,map_filterMap,keys]
      refine filterMap_congr fun id _ => ?_
      rw [Option.map_map,Option.map_map]
      exact (answers id).2
    · intro start_ts end_ts
      rw [getByTimeRange,getByTimeRange,rawTimes,times ?_]
      intro item member md found
      have fine := fits item.1 (mem_map_of_mem member)
      unfold BatchFits at fine
      split at fine
      · exact fine md found
      · rw [fine.1] at found
        cases found

/-! ### Runs with `Clear` -/

def clear (m : MemTable) : MemTable where
  platform := m.platform
  dim := m.dim
  quantize_inmem := m.quantize_inmem
  map := m.map.clear
  metadata := fun _ => none
  temporal_index := []
  marked := m.marked
  stored := by simp

inductive Step
  | call (c : Call)
  | clear

def step (m : MemTable) : Step → MemTable
  | .call c => m.call c
  | .clear => m.clear

/-- The index of times is right, and all metadata is of live ids. -/
structure Mirrored (m : MemTable) : Prop where
  times : Indexed m.temporal_index m.metadata
  live : ∀ id md, m.metadata id = some md → ∃ p, m.map.find id = some (some p)

/-- The step keeps no metadata under the key that marks empty slots. -/
def Step.Apart : Step → Prop
  | .call (.putMeta id _ md) => id = kEmpty → keepsMetadata md = false
  | _ => True

lemma step_unmarked (none_ : m.metadata kEmpty = none) {s : Step} (apart : s.Apart) : (m.step s).metadata kEmpty = none := by
  rcases s with (⟨id,vec,md⟩ | ⟨ids,vectors⟩ | id) | _
  · by_cases sized : vec.length = m.dim.toNat
    · rw [step,call,(putMeta_ok m id md sized).2.metadata]
      split
      · next marker => simp [apart marker.symm]
      · exact none_
    · rw [step,call,putMeta_mismatch m id md sized]
      exact none_
  · refine putBatch_keeps (P := fun m => m.metadata kEmpty = none) (fun m id vec none_ => ?_) none_ ids vectors
    rw [storeRaw]
    split
    · exact none_
    · exact none_
  · rw [step,call,(delete_writes m id).2.metadata,none_,ite_self]
  · rfl

lemma Timed.step (timed : m.Timed) (s : Step) : (m.step s).Timed := by
  cases s with
  | call c => exact timed.run [c]
  | clear => exact ⟨⟨.nil,.nil,by simp [MemTable.step,clear]⟩,by simp [MemTable.step,clear]⟩

/-- The key that marks empty slots is never live in the map, so metadata put under it would belong
to no live id. -/
theorem steps_mirrored (platform : Platform) (dim : UInt32) (quantize_inmem : Bool) (steps : List Step) (apart : ∀ s ∈ steps, s.Apart) :
    (steps.foldl step (create platform dim quantize_inmem)).Mirrored := by
  obtain ⟨timed,none_⟩ := List.foldlRecOn (motive := fun m : MemTable => m.Timed ∧ m.metadata kEmpty = none) steps step
    (b := create platform dim quantize_inmem) ⟨timed_create ..,rfl⟩ fun m kept s member =>
      ⟨kept.1.step s,step_unmarked kept.2 (apart s member)⟩
  refine ⟨timed.times,fun id md held => timed.live id md held ?_⟩
  rintro rfl
  rw [none_] at held
  cases held

theorem steps_mirrored_seven : ([.call (.putMeta 8 [float1] {timestamp := 5}),.clear,.call (.delete kEmpty),
    .call (.putMeta 7 [float1] {timestamp := 6})].foldl step (create Platform.plain 1 false)).Mirrored :=
  steps_mirrored _ _ _ _ (by simp [Step.Apart,kEmpty])

theorem marker_not_live : ¬([.call (.putMeta kEmpty [float1] {timestamp := 5})].foldl step (create Platform.plain 1 false)).Mirrored := by
  intro mirrored
  obtain ⟨p,found⟩ := mirrored.live kEmpty {timestamp := 5} (by decide)
  have none_ := Map.find_sentinel (MemTable.map ([.call (.putMeta kEmpty [float1] {timestamp := 5})].foldl step
    (create Platform.plain 1 false)))
  rw [MemTable.marked,found] at none_
  cases none_

end MemTable

structure LexicalTable (D : Type) where
  table : MemTable
  lexical_index : LexicalIndex D

namespace LexicalTable
open MemTable
variable {D F : Type} (ops : Bm25Ops D F)

def create (platform : Platform) (dim : UInt32) (quantize_inmem : Bool) : LexicalTable D :=
  ⟨.create platform dim quantize_inmem,.create ops⟩

/-- Only texts that come with a vector are added to the index, and only a deletion takes one out. -/
def call (t : LexicalTable D) (c : Call) : LexicalTable D where
  table := t.table.call c
  lexical_index := match c with
    | .putMeta id vec md =>
      if vec.length = t.table.dim.toNat ∧ md.text ≠ [] then t.lexical_index.add ops id md.text else t.lexical_index
    | .putBatch _ _ => t.lexical_index
    | .delete id => t.lexical_index.remove ops id

def putAll (t : LexicalTable D) (items : List (VectorId × Vec)) : LexicalTable D :=
  items.foldl (fun t item => t.call ops (.putMeta item.1 item.2 {})) t

lemma putAll_eq (items : List (VectorId × Vec)) : ∀ t : LexicalTable D, t.putAll ops items = ⟨t.table.putAll items,t.lexical_index⟩ := by
  induction items with
  | nil => exact fun _ => rfl
  | cons item rest ih =>
    intro t
    have first : t.call ops (.putMeta item.1 item.2 {}) = ⟨(t.table.put item.1 item.2).1,t.lexical_index⟩ := by
      simp [call,MemTable.call,put]
    rw [putAll,foldl_cons,first]
    exact ih _

lemma foldl_table (calls : List Call) : ∀ t : LexicalTable D, (calls.foldl (call ops) t).table = t.table.run calls := by
  induction calls with
  | nil => exact fun _ => rfl
  | cons c rest ih => exact fun t => ih (t.call ops c)

/-- A batch leaves the answers of single puts exactly if its ids have no metadata and the floats of their
last vectors read as their quantization, whatever the arena holds behind them. In a quantized table of
dimension 1 or 2 header and codes are longer than the floats. -/
theorem putBatch_alike_iff (sort : PartialSort F) (platform : Platform) (dim : UInt32) (quantize_inmem : Bool) (calls : List Call)
    (ids : List VectorId) (vectors : List Vec) (paired : ids.length = vectors.length) (sized : ∀ vec ∈ vectors, vec.length = dim.toNat)
    (wide : quantize_inmem = true → dim = 0 ∨ 3 ≤ dim.toNat) (arena arena' : Nat → UInt32) :
    let t := calls.foldl (call ops) (create ops platform dim quantize_inmem)
    let batch := t.call ops (.putBatch ids vectors)
    let single := t.putAll ops (ids.zip vectors)
    (AnswersAlike (batch.table.withArena arena) (single.table.withArena arena') ∧
      ∀ query topk out, batch.lexical_index.search ops sort query topk out = single.lexical_index.search ops sort query topk out) ↔
      ∀ id ∈ ids, t.table.BatchFits (ids.zip vectors) id := by
  intro t batch single
  have reached : t.table = (MemTable.create platform dim quantize_inmem).run calls := foldl_table ops calls _
  have sizes : t.table.dim = dim := reached ▸ (run_writes calls _).sameShape.dim
  have timed : t.table.Timed := reached ▸ Timed.run calls (timed_create platform dim quantize_inmem)
  have stored : batch.table = (ids.zip vectors).foldl (fun m item => m.storeRaw item.1 item.2) t.table := by
    obtain ⟨_,done⟩ | ⟨wrong,_⟩ := t.table.putBatch_cases ids vectors
    · exact congrArg Prod.fst done
    · exact absurd ⟨paired,by rwa [sizes]⟩ wrong
  have singles : single = ⟨t.table.putAll (ids.zip vectors),t.lexical_index⟩ := putAll_eq ops _ t
  have sizedAll : ∀ item ∈ ids.zip vectors, item.2.length = t.table.dim.toNat := by
    intro item member
    rw [sizes]
    exact sized _ (of_mem_zip member).2
  have alike := batch_alike_iff timed (ids.zip vectors) sizedAll
  rw [map_fst_zip paired.le] at alike
  have narrow : t.table.Wide := by
    rw [Wide,sizes,reached,(run_writes calls _).sameShape.quantize_inmem]
    exact wide
  obtain ⟨raw,_,_⟩ := stores_storeRaw (ids.zip vectors) sizedAll
  obtain ⟨put_,_,_⟩ := stores_putAll (ids.zip vectors) sizedAll
  rw [stored,singles,alike_withArena (raw.shape.wide narrow) (put_.shape.wide narrow),← alike]
  exact and_iff_left fun _ _ _ => rfl

theorem putBatch_alike_two :
    let t := [MemTable.Call.putMeta 3 [float1] {timestamp := 5}].foldl (call LexicalIndex.wholeOps) (create LexicalIndex.wholeOps Platform.plain 1 false)
    AnswersAlike ((t.call LexicalIndex.wholeOps (.putBatch [7,7] [[float0],[float1]])).table.withArena fun _ => 3)
      ((t.putAll LexicalIndex.wholeOps [(7,[float0]),(7,[float1])]).table.withArena fun _ => 4) :=
  ((putBatch_alike_iff LexicalIndex.wholeOps (.full fun _ _ => true) Platform.plain 1 false [.putMeta 3 [float1] {timestamp := 5}] [7,7]
    [[float0],[float1]] rfl (by simp) (by simp) _ _).mpr (by
      intro id member
      obtain rfl : id = 7 := by simpa using member
      rw [BatchFits,if_neg (by decide)]
      exact ⟨rfl,fun _ _ quantized => absurd quantized (by decide)⟩)).1

/-- The metadata and the timestamp of an older vector stay with the vector of a batch. -/
theorem putBatch_keeps_stale :
    let m := ((MemTable.create Platform.plain 1 false).putMeta 7 [float1] {timestamp := 5}).1
    (m.putBatch [7] [[float0]]).1.get 7 = .ok (.raw [float0],{timestamp := 5}) ∧ (m.put 7 [float0]).1.get 7 = .ok (.raw [float0],{}) ∧
      (m.putBatch [7] [[float0]]).1.getByTimeRange 0 9 = some [7] ∧ (m.put 7 [float0]).1.getByTimeRange 0 9 = some [] := by
  decide +kernel

end LexicalTable
end PomaiCache
