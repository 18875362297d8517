import PomaiCache.Blocks
import PomaiCache.Freeze

/-!
What the segments say that the freeze makes of a table. They are the table's entries in blocks
of the maximal segment size, each written with what the cursor's decode buffer holds at that
time.
-/
namespace PomaiCache
open Layers Blocks List

lemma SegmentBuilder.finish_owned {b : SegmentBuilder} (owned : ∀ e ∈ b.entries, e.vec ≠ .decodeBuf)
    (buf other : Vec) : b.finish buf = b.finish other := by
  simp only [finish,Segment.mk.injEq,true_and]
  refine map_congr_left fun e member => ?_
  have own := owned e ((perm_insertionSort _ _).mem_iff.mp member)
  rw [BuilderEntry.write,BuilderEntry.write]
  cases view : e.vec with
  | null => rfl
  | arena vec => rfl
  | decodeBuf => exact absurd view own

namespace MemTable
variable (m : MemTable)

@[simp] lemma builderEntry_id (slot : VectorId × Option Payload) : (m.builderEntry slot).id = slot.1 := by
  obtain ⟨id,value⟩ := slot
  cases value <;> rfl

lemma builderEntry_ids (slots : List (VectorId × Option Payload)) :
    (slots.map m.builderEntry).map BuilderEntry.id = slots.map Prod.fst := by
  simp

def parts : List (List (VectorId × Option Payload)) := blocks kMaxSegmentEntries m.map.entries

/-- What the decode buffer holds when a part is finished: the last vector that was
decoded, or whatever is left of a buffer that is gone. -/
def bufferAt (freed : Vec) (part : List (VectorId × Option Payload)) : Vec :=
  if part.length ≥ kMaxSegmentEntries then part.foldl m.decodeInto [] else freed

variable (dim : UInt32)

def partSegment (freed : Vec) (part : List (VectorId × Option Payload)) : Segment :=
  SegmentBuilder.finish ⟨dim,part.map m.builderEntry⟩ (m.bufferAt freed part)

/-- Either some vector of the part is decoded, and it is what the buffer holds at the
end, or no span of the part points into the buffer. -/
lemma decoded_or_owned (part : List (VectorId × Option Payload)) :
    (∃ id p, (id,some p) ∈ part ∧ ∀ buf, part.foldl m.decodeInto buf = p.decode m.platform m.dim.toNat) ∨
      ∀ e ∈ part.map m.builderEntry, e.vec ≠ .decodeBuf := by
  induction part with
  | nil =>
    right
    intro e member
    cases member
  | cons slot part ih =>
    rcases ih with ⟨id,p,member,last⟩ | owned
    · grind
    · -- no later slot is decoded, so this one decides
      have keeps : ∀ buf, part.foldl m.decodeInto buf = buf := by
        intro buf
        induction part with
        | nil => rfl
        | cons slot part ih =>
          rw [map_cons] at owned
          have first := owned _ (.head _)
          have kept : m.decodeInto buf slot = buf := by
            obtain ⟨id,value⟩ := slot
            cases value with
            | none => rfl
            | some p => cases quantized : m.quantize_inmem <;> simp [builderEntry,decodeInto,quantized] at first ⊢
          grind
      obtain ⟨id,value⟩ := slot
      by_cases decoded : value.isSome ∧ m.quantize_inmem = true
      · obtain ⟨p,rfl⟩ := Option.isSome_iff_exists.mp decoded.1
        refine .inl ⟨id,p,.head _,fun buf => ?_⟩
        rw [foldl_cons,keeps,decodeInto,if_pos decoded.2]
      · refine .inr fun e member => ?_
        rw [map_cons] at member
        rcases mem_cons.mp member with rfl | later
        · cases value with
          | none => simp [builderEntry]
          | some p => simp [builderEntry,Bool.eq_false_iff.mpr fun q => decoded ⟨rfl,q⟩]
        · exact owned e later

lemma segmentsFrom_eq (freed : Vec) (slots part : List (VectorId × Option Payload)) (buf : Vec)
    (short : part.length < kMaxSegmentEntries) :
    m.segmentsFrom dim freed (part.map m.builderEntry) (part.foldl m.decodeInto buf) slots =
      (blocksFrom kMaxSegmentEntries part slots).map (m.partSegment dim freed) := by
  induction slots generalizing part buf with
  | nil =>
    grind [segmentsFrom,blocksFrom,isEmpty_map,map_singleton,partSegment,bufferAt]
  | cons slot slots ih =>
    have entries : part.map m.builderEntry ++ [m.builderEntry slot] = (part ++ [slot]).map m.builderEntry := by simp
    have decoded : m.decodeInto (part.foldl m.decodeInto buf) slot = (part ++ [slot]).foldl m.decodeInto buf := by simp
    rw [segmentsFrom,blocksFrom,entries,decoded,length_map]
    by_cases full : (part ++ [slot]).length ≥ kMaxSegmentEntries
    · have rest := ih [] ((part ++ [slot]).foldl m.decodeInto buf) (by decide)
      rw [map_nil,foldl_nil] at rest
      rw [if_pos full,if_pos full,map_cons,rest,partSegment,bufferAt,if_pos full]
      congr 1
      rcases m.decoded_or_owned (part ++ [slot]) with ⟨id,p,_,last⟩ | owned
      · rw [last,last]
      · exact SegmentBuilder.finish_owned owned _ _
    · grind

lemma segmentsOf_eq (freed : Vec) : m.segmentsOf dim freed = m.parts.map (m.partSegment dim freed) :=
  m.segmentsFrom_eq dim freed m.map.entries [] [] (by decide)

variable {part : List (VectorId × Option Payload)} {id : VectorId} {value : Option Payload} {dim : UInt32} {p : Payload}

lemma partSegment_layer (distinct : (part.map Prod.fst).Nodup) (dim : UInt32) (freed : Vec) (id : VectorId) :
    (m.partSegment dim freed part).layer id = BuilderEntry.held (part.map m.builderEntry) (m.bufferAt freed part) dim id :=
  SegmentBuilder.finish_layer (by rw [m.builderEntry_ids]; exact distinct) _ id

lemma answer_parts {blocks : List (List (VectorId × Option Payload))}
    (distinct : (blocks.flatten.map Prod.fst).Nodup) (here : part ∈ blocks)
    (member : (id,value) ∈ part) (dim : UInt32) (freed : Vec) :
    answer ((blocks.map (m.partSegment dim freed)).map Segment.layer) id =
      some ((m.builderEntry (id,value)).value (m.bufferAt freed part) dim) := by
  induction blocks with
  | nil => cases here
  | cons first blocks ih =>
    rw [flatten_cons,map_append,nodup_append] at distinct
    obtain ⟨own,others,apart⟩ := distinct
    rw [map_cons,map_cons,answer_cons,m.partSegment_layer own]
    rcases mem_cons.mp here with rfl | later
    · have held := BuilderEntry.held_eq_some (by rw [m.builderEntry_ids]; exact own)
        (mem_map_of_mem member) (m.bufferAt freed part) dim
      rw [builderEntry_id] at held
      rw [held]
      rfl
    · have absent : id ∉ first.map Prod.fst := by
        intro inside
        have there : id ∈ blocks.flatten.map Prod.fst :=
          mem_map.mpr ⟨_,mem_flatten.mpr ⟨part,later,member⟩,rfl⟩
        exact apart id inside id there rfl
      rw [BuilderEntry.held_eq_none (by rw [m.builderEntry_ids]; exact absent),ih others later]
      rfl

lemma segmentsOf_answer_some (here : part ∈ m.parts) (member : (id,value) ∈ part) (dim : UInt32) (freed : Vec) :
    answer ((m.segmentsOf dim freed).map Segment.layer) id =
      some ((m.builderEntry (id,value)).value (m.bufferAt freed part) dim) := by
  rw [segmentsOf_eq]
  exact m.answer_parts (by rw [parts,blocks_flatten]; exact m.map.entries_nodup) here member dim freed

lemma segmentsOf_answer_none (absent : m.map.find id = none) (dim : UInt32) (freed : Vec) :
    answer ((m.segmentsOf dim freed).map Segment.layer) id = none := by
  rw [segmentsOf_eq,answer_eq_none]
  intro layer member
  obtain ⟨s,inside,rfl⟩ := mem_map.mp member
  obtain ⟨part,here,rfl⟩ := mem_map.mp inside
  have within : part.Sublist m.map.entries := by
    rw [← blocks_flatten kMaxSegmentEntries m.map.entries]
    exact sublist_flatten_of_mem here
  rw [m.partSegment_layer (m.map.entries_nodup.sublist (within.map _)),BuilderEntry.held_eq_none]
  rw [m.builderEntry_ids]
  intro listed
  obtain ⟨⟨_,value⟩,slot,rfl⟩ := mem_map.mp listed
  rw [(m.map.mem_entries _ value).mp (within.subset slot)] at absent
  cases absent

lemma segmentsOf_answer (plain : m.quantize_inmem = false) (dim : UInt32) (freed : Vec) (id : VectorId) :
    answer ((m.segmentsOf dim freed).map Segment.layer) id = m.layer id := by
  rw [layer,version]
  cases held : m.map.find id with
  | none => exact m.segmentsOf_answer_none held dim freed
  | some value =>
    obtain ⟨part,here,member⟩ := exists_block kMaxSegmentEntries ((m.map.mem_entries id value).mpr held)
    rw [m.segmentsOf_answer_some here member]
    cases value with
    | none => rfl
    | some p => simp [BuilderEntry.value,builderEntry,plain,View.floats]

def decoded (p : Payload) : Vec := p.decode m.platform m.dim.toNat

/-- For each live id the segments hold the vector the cursor decodes for it. -/
def StoredIn (segments : List Segment) : Prop :=
  ∀ id p, m.map.find id = some (some p) →
    (answer (segments.map Segment.layer) id).map (Option.map Prod.fst) = some (some (m.decoded p))

/-- Each part with a live entry is full, and its live entries decode to one vector. -/
def Uniform : Prop :=
  ∀ part ∈ m.parts, ∀ id p, (id,some p) ∈ part → part.length ≥ kMaxSegmentEntries ∧
    ∀ other q, (other,some q) ∈ part → m.decoded q = m.decoded p

lemma find_of_part (here : part ∈ m.parts) (member : (id,value) ∈ part) : m.map.find id = some value := by
  rw [← m.map.mem_entries,← blocks_flatten kMaxSegmentEntries m.map.entries]
  exact mem_flatten.mpr ⟨part,here,member⟩

lemma decoded_length (held : m.map.find id = some (some p)) : (m.decoded p).length = m.dim.toNat :=
  Payload.decode_length _ _ p (m.stored id p held).1

lemma floats_decodeBuf (sized : buf.length = dim.toNat) : View.decodeBuf.floats buf dim = buf := by
  rw [View.floats,← sized]
  refine ext_getElem (by simp) fun i _ inside => ?_
  simp [inside]

variable {m} (quantized : m.quantize_inmem = true)
include quantized

lemma stored_part (here : part ∈ m.parts) (member : (id,some p) ∈ part) (freed : Vec) :
    (answer ((m.segmentsOf m.dim freed).map Segment.layer) id).map (Option.map Prod.fst) = some (some (m.decoded p)) ↔
      View.decodeBuf.floats (m.bufferAt freed part) m.dim = m.decoded p := by
  rw [m.segmentsOf_answer_some here member]
  simp [BuilderEntry.value,builderEntry,quantized]

lemma bufferAt_full (full : part.length ≥ kMaxSegmentEntries) (member : (id,some p) ∈ part) (freed : Vec) :
    ∃ other q, (other,some q) ∈ part ∧ m.bufferAt freed part = m.decoded q := by
  rw [bufferAt,if_pos full]
  rcases m.decoded_or_owned part with ⟨other,q,inside,last⟩ | owned
  · exact ⟨other,q,inside,last []⟩
  · have own := owned _ (mem_map_of_mem member)
    simp [builderEntry,quantized] at own

/-- The segments of a quantized table hold the decoded vectors, whatever is left of a
freed buffer, exactly when its parts are uniform. -/
lemma storedIn_iff_uniform (positive : m.dim ≠ 0) : (∀ freed, m.StoredIn (m.segmentsOf m.dim freed)) ↔ m.Uniform := by
  constructor
  · intro stored part here id p member
    have held := m.find_of_part here member
    have same : ∀ freed other q, (other,some q) ∈ part → View.decodeBuf.floats (m.bufferAt freed part) m.dim = m.decoded q := by
      intro freed other q inside
      exact (stored_part quantized here inside freed).mp (stored freed other q (m.find_of_part here inside))
    constructor
    · -- a freed buffer that differs in its first float shows up in the segment
      by_contra short
      have wrong := same [(m.decoded p).getD 0 0 + 1] id p member
      rw [bufferAt,if_neg short] at wrong
      have first := congrArg (fun vec : Vec => vec.getD 0 0) wrong
      have some_ : 0 < m.dim.toNat := Nat.pos_of_ne_zero fun zero => positive (UInt32.toNat_inj.mp zero)
      simp [View.floats,some_] at first
    · intro other q inside
      rw [← same [] other q inside,same [] id p member]
  · intro uniform freed id p held
    obtain ⟨part,here,member⟩ := exists_block kMaxSegmentEntries ((m.map.mem_entries id _).mpr held)
    obtain ⟨full,alike⟩ := uniform part here id p member
    obtain ⟨other,q,inside,last⟩ := bufferAt_full quantized full member freed
    rw [stored_part quantized here member,last,
      floats_decodeBuf (m.decoded_length (m.find_of_part here inside)),alike other q inside]

lemma not_storedIn (here : part ∈ m.parts) {id other : VectorId}
    (first : (id,some p) ∈ part) (second : (other,some q) ∈ part) (differ : m.decoded p ≠ m.decoded q)
    (freed : Vec) : ¬ m.StoredIn (m.segmentsOf m.dim freed) := by
  intro stored
  apply differ
  rw [← (stored_part quantized here first freed).mp (stored id p (m.find_of_part here first)),
    (stored_part quantized here second freed).mp (stored other q (m.find_of_part here second))]

lemma storedIn_zero (empty : m.dim = 0) (freed : Vec) : m.StoredIn (m.segmentsOf m.dim freed) := by
  intro id p held
  obtain ⟨part,here,member⟩ := exists_block kMaxSegmentEntries ((m.map.mem_entries id _).mpr held)
  have none_ : m.decoded p = [] := eq_nil_of_length_eq_zero (by rw [m.decoded_length held,empty]; rfl)
  rw [stored_part quantized here member,none_,empty]
  rfl

omit quantized

variable (platform : Platform)

def ofPuts (dim : UInt32) (puts : List (VectorId × Vec × Metadata)) : MemTable :=
  puts.foldl (fun m item => (m.putMeta item.1 item.2.1 item.2.2).1) (create platform dim true)

lemma ofPuts_sameShape (dim : UInt32) (puts : List (VectorId × Vec × Metadata)) :
    SameShape (create platform dim true) (ofPuts platform dim puts) := by
  have from_ : ∀ m : MemTable, SameShape m (puts.foldl (fun m item => (m.putMeta item.1 item.2.1 item.2.2).1) m) := by
    induction puts with
    | nil => exact SameShape.refl
    | cons item puts ih => exact fun m => (m.putMeta_sameShape item.1 item.2.1 item.2.2).trans (ih _)
  exact from_ _

lemma ofPuts_find (sized : vec.length = dim.toNat) (alike : ∀ item ∈ puts, item.2.1 = vec ∧ item.1 ≠ kEmpty) (id : VectorId) :
    (ofPuts platform dim puts).map.find id =
      if id ∈ puts.map Prod.fst then some (some ((create platform dim true).allocate vec)) else none := by
  have from_ : ∀ m : MemTable, SameShape (create platform dim true) m →
      (puts.foldl (fun m item => (m.putMeta item.1 item.2.1 item.2.2).1) m).map.find id =
        if id ∈ puts.map Prod.fst then some (some ((create platform dim true).allocate vec)) else m.map.find id := by
    induction puts with
    | nil =>
      intro m _
      rfl
    | cons item puts ih =>
      intro m shape
      obtain ⟨same,real⟩ := alike item (.head _)
      have fits : item.2.1.length = m.dim.toNat := by
        rw [same,sized,shape.dim]
        rfl
      have writes := (m.putMeta_ok item.1 item.2.2 fits).2
      rw [foldl_cons,ih (fun other member => alike other (.tail _ member)) _
        (shape.trans writes.sameShape),writes.map,FlatHashMemMap.Map.find_put,m.marked,same]
      have alloc : m.allocate vec = (create platform dim true).allocate vec := by
        rw [allocate,allocate,shape.quantize_inmem,shape.dim,shape.platform]
      grind
  rw [ofPuts,from_ _ (SameShape.refl _),create,FlatHashMemMap.Map.find_create]

lemma ofPuts_uniform (sized : vec.length = dim.toNat) (alike : ∀ item ∈ puts, item.2.1 = vec ∧ item.1 ≠ kEmpty)
    (distinct : (puts.map Prod.fst).Nodup) (count : puts.length = kMaxSegmentEntries) :
    (ofPuts platform dim puts).map.entries.length = kMaxSegmentEntries ∧ (ofPuts platform dim puts).Uniform := by
  have found := ofPuts_find platform sized alike
  generalize ofPuts platform dim puts = m at found
  have ids : (m.map.entries.map Prod.fst).Perm (puts.map Prod.fst) := by
    rw [perm_ext_iff_of_nodup m.map.entries_nodup distinct]
    intro id
    constructor
    · intro member
      obtain ⟨⟨_,value⟩,inside,rfl⟩ := mem_map.mp member
      by_contra absent
      have held := (m.map.mem_entries _ value).mp inside
      rw [found,if_neg absent] at held
      cases held
    · intro member
      have held := found id
      rw [if_pos member,← m.map.mem_entries] at held
      exact mem_map.mpr ⟨_,held,rfl⟩
  have full : m.map.entries.length = kMaxSegmentEntries := by simpa [count] using ids.length_eq
  refine ⟨full,?_⟩
  intro part here id p member
  have whole : part = m.map.entries := by
    rw [parts,blocks_single full.le (by intro none_; rw [none_] at full; cases full)] at here
    exact mem_singleton.mp here
  rw [whole] at member ⊢
  have same : ∀ other q, (other,some q) ∈ m.map.entries → q = (create platform dim true).allocate vec := by
    intro other q inside
    have held := (m.map.mem_entries _ _).mp inside
    grind
  grind

end MemTable

namespace VectorRuntime

def awaiting (m : MemTable) (freed : Vec) (wal : Wal) : VectorRuntime where
  platform := {m.platform with freed := freed}
  dim := m.dim
  quantize_inmem := m.quantize_inmem
  ttl_sec := 0
  wal := wal
  wal_epoch := 0
  mem := MemTable.create m.platform m.dim m.quantize_inmem
  frozen_mem := [m]
  segments := []
  current_snapshot := ⟨[m],[]⟩
  manifest := []

lemma awaiting_freeze (freed : Vec) (wal : Wal)
    (enough : iterations [m] + 6 ≤ clock.length) : ((awaiting m freed wal).freeze clock).2 = .Ok ∧
      ((awaiting m freed wal).freeze clock).1.segments = m.segmentsOf m.dim freed := by
  have idle : (awaiting m freed wal).rotateMemTable = awaiting m freed wal := by
    rw [rotateMemTable,if_pos]
    rfl
  have fits : (awaiting m freed wal).Freezable := by
    intro other member
    rw [mem_singleton.mp member]
    exact ⟨rfl,m.unexpiring_zero⟩
  have completes := freeze_completes (by rw [idle]; exact fits) (by rw [idle]; exact enough)
  refine ⟨completes,?_⟩
  rcases freeze_spec (by rw [idle]; exact fits) clock with ⟨nothing,_⟩ | ⟨_,same⟩ | ⟨left,cut,st,_,same,_⟩
  · rw [idle] at nothing
    cases nothing
  · rw [same,idle]
    simp [frozen,walReset,installed,publishSnapshot,frozenSegments,awaiting]
  · rw [same] at completes
    cases completes

/-- The freeze of a quantized table stores for each live id the vector the cursor
decoded for it, whatever is left of a freed buffer, exactly when the table's
parts are uniform. -/
theorem freeze_stores_decoded (platform : Platform) (dim : UInt32) (puts : List (VectorId × Vec × Metadata))
    (wal : Wal) (clock : List UInt64) (enough : iterations [MemTable.ofPuts platform dim puts] + 6 ≤ clock.length) :
    (∀ freed, ((awaiting (MemTable.ofPuts platform dim puts) freed wal).freeze clock).2 = .Ok ∧
      (MemTable.ofPuts platform dim puts).StoredIn
        ((awaiting (MemTable.ofPuts platform dim puts) freed wal).freeze clock).1.segments) ↔
      dim = 0 ∨ (MemTable.ofPuts platform dim puts).Uniform := by
  have shape := MemTable.ofPuts_sameShape platform dim puts
  have quantized : (MemTable.ofPuts platform dim puts).quantize_inmem = true := shape.quantize_inmem
  have same : (MemTable.ofPuts platform dim puts).dim = dim := shape.dim
  have frozen := fun freed => awaiting_freeze freed wal enough
  by_cases empty : dim = 0
  · refine iff_of_true (fun freed => ⟨(frozen freed).1,?_⟩) (.inl empty)
    rw [(frozen freed).2]
    exact MemTable.storedIn_zero quantized (same.trans empty) freed
  · rw [← MemTable.storedIn_iff_uniform quantized (by rw [same]; exact empty)]
    simp [*]

theorem freeze_stores_decoded_alike :
    ∃ puts, puts = (List.range kMaxSegmentEntries).map (fun i => (UInt64.ofNat i,[7],({} : Metadata))) ∧
      ∀ freed, ((awaiting (MemTable.ofPuts .plain 1 puts) freed ⟨[],1000,0,none,0,0,0⟩).freeze (replicate 50000 0)).2 = .Ok ∧
        (MemTable.ofPuts .plain 1 puts).StoredIn ((awaiting (MemTable.ofPuts .plain 1 puts) freed ⟨[],1000,0,none,0,0,0⟩).freeze
            (replicate 50000 0)).1.segments := by
  let puts := (List.range kMaxSegmentEntries).map fun i => (UInt64.ofNat i,([7] : Vec),({} : Metadata))
  have small : ∀ i ∈ List.range kMaxSegmentEntries, i < 2 ^ 32 := by
    intro i member
    have := mem_range.mp member
    rw [kMaxSegmentEntries] at this
    omega
  have distinct : (puts.map Prod.fst).Nodup := by
    rw [map_map]
    refine List.Nodup.map_on ?_ nodup_range
    intro i first j second same
    have := congrArg UInt64.toNat same
    have := small i first
    have := small j second
    simp only [Function.comp_apply,UInt64.toNat_ofNat'] at *
    omega
  have alike : ∀ item ∈ puts, item.2.1 = [7] ∧ item.1 ≠ kEmpty := by
    intro item member
    obtain ⟨i,inside,rfl⟩ := mem_map.mp member
    refine ⟨rfl,fun same => ?_⟩
    have := congrArg UInt64.toNat same
    have := small i inside
    simp only [kEmpty,UInt64.toNat_ofNat'] at *
    omega
  have count : puts.length = kMaxSegmentEntries := by rw [length_map,length_range]
  have sized : List.length ([7] : Vec) = (1 : UInt32).toNat := rfl
  obtain ⟨length,uniform⟩ := MemTable.ofPuts_uniform .plain sized alike distinct count
  have enough : iterations [MemTable.ofPuts .plain 1 puts] + 6 ≤ (replicate 50000 (0 : UInt64)).length := by
    rw [length_replicate,iterations,map_singleton,sum_singleton,length]
    decide
  exact ⟨puts,rfl,(freeze_stores_decoded .plain 1 puts _ _ enough).mpr (.inr uniform)⟩

/-- Two puts of different vectors: whatever is left of the freed buffer, one of the
two is stored wrong. -/
theorem freeze_mixes_decoded : ∃ m, m = MemTable.ofPuts .plain 1 [(1,[0],{}),(2,[1],{})] ∧
    ∀ freed, ((awaiting m freed ⟨[],1000,0,none,0,0,0⟩).freeze (replicate 20 0)).2 = .Ok ∧
      ¬ m.StoredIn ((awaiting m freed ⟨[],1000,0,none,0,0,0⟩).freeze (replicate 20 0)).1.segments := by
  let m := MemTable.ofPuts .plain 1 [(1,[0],{}),(2,[1],{})]
  refine ⟨m,rfl,fun freed => ?_⟩
  have enough : iterations [m] + 6 ≤ (replicate 20 (0 : UInt64)).length := by decide +kernel
  have run := awaiting_freeze freed ⟨[],1000,0,none,0,0,0⟩ enough
  have short : m.map.entries.length ≤ kMaxSegmentEntries := by decide +kernel
  have some_ : m.map.entries ≠ [] := by decide +kernel
  have here : m.map.entries ∈ m.parts := by
    rw [MemTable.parts,blocks_single short some_]
    exact mem_singleton_self _
  have first : (1,some (.sq8 0 0 [0])) ∈ m.map.entries := by decide +kernel
  have second : (2,some (.sq8 1 0 [0])) ∈ m.map.entries := by decide +kernel
  have differ : m.decoded (.sq8 0 0 [0]) ≠ m.decoded (.sq8 1 0 [0]) := by decide +kernel
  refine ⟨run.1,?_⟩
  rw [run.2]
  exact MemTable.not_storedIn (by decide +kernel) here first second differ freed

end VectorRuntime
end PomaiCache
