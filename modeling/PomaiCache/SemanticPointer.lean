import PomaiCache.SegmentFile

/-!
Pointers into the segments. `GetSemanticPointer` asks only the segments, and goes on behind a
tombstone, so that it returns a version that a lookup does not: one that a memtable or a newer
segment has replaced or deleted.
-/
namespace PomaiCache

/-- A pointer into a segment, which is named by the number of the older ones, and what the payload
is decoded with. -/
structure SemanticPointer where
  raw_data_ptr : Nat × Nat
  dim : Nat
  quant_min : UInt32
  quant_inv_scale : UInt32
  quant_type : QuantizationType
  session_id : UInt64
  deriving DecidableEq, Repr

namespace SegmentReader
variable {id : VectorId}

/-- The range of the scalar quantizer, or the values that stand for none. -/
def quantRange (r : SegmentReader) : UInt32 × UInt32 :=
  match r.quant_type,r.quantizer with
  | .kSq8,some (.sq8 q) => (q.global_min,q.global_inv_scale)
  | _,_ => (float0,float1)

/-- The loop of `GetSemanticPointer`. -/
def pointerIn (id : VectorId) : List SegmentReader → Except Status SemanticPointer
  | [] => .error (.notFound "vector not in segments (might be in memtable or deleted)")
  | seg :: older =>
    match seg.findRaw id with
    | (.kFound,start,_) => .ok ⟨(older.length,start),seg.dim,seg.quantRange.1,seg.quantRange.2,seg.quant_type,0⟩
    | _ => pointerIn id older

def getSemanticPointer (snap : Option (List SegmentReader)) (id : VectorId) : Except Status SemanticPointer :=
  match snap with
  | none => .error (.invalidArgument "snapshot null")
  | some segments => pointerIn id segments

/-- The slice the loop of `LookupById` pins, which is that of the version it finds. -/
def pinnedIn (id : VectorId) : List SegmentReader → Option (Nat × Nat)
  | [] => none
  | seg :: older =>
    match seg.get id with
    | .ok (start,_,_) => some (older.length,start)
    | .error st => if st.code = .kNotFound ∧ st.message = "tombstone" then none else pinnedIn id older

/-- The slice `LookupById` pins; there is none for a version in a memtable. -/
def pinned (active : Option MemTable) (frozen_memtables : List MemTable) (segments : List SegmentReader) (id : VectorId) :
    Option (Nat × Nat) :=
  match (active.toList ++ frozen_memtables.reverse).findSome? fun m => m.lookup id with
  | some _ => none
  | none => pinnedIn id segments

def newest (id : VectorId) (segments : List SegmentReader) : Option SegmentReader :=
  segments.find? fun seg => (seg.findRaw id).1 ≠ .kNotFound

lemma get_cases (seg : SegmentReader) (id : VectorId) :
    (∃ start bytes md, seg.findRaw id = (.kFound,start,md) ∧ seg.get id = .ok (start,bytes,md)) ∨
    (seg.findRaw id).1 = .kFoundTombstone ∧ seg.get id = .error (.notFound "tombstone") ∨
    (seg.findRaw id).1 = .kNotFound ∧ seg.get id = .error (.notFound "id not found in segment") := by
  grind [get]

lemma pointerIn_skip {seg : SegmentReader} (other : (seg.findRaw id).1 ≠ .kFound) (older : List SegmentReader) :
    pointerIn id (seg :: older) = pointerIn id older := by
  grind [pointerIn]

variable {segments : List SegmentReader}

lemma pointerIn_ok_iff : (∃ ptr, pointerIn id segments = .ok ptr) ↔ ∃ seg ∈ segments, (seg.findRaw id).1 = .kFound := by
  induction segments with
  | nil => simp [pointerIn]
  | cons seg older ih =>
    by_cases live : (seg.findRaw id).1 = .kFound
    · obtain ⟨start,_,md,found,_⟩ | ⟨found,_⟩ | ⟨found,_⟩ := seg.get_cases id
      · simp [pointerIn,found]
      all_goals
        rw [found] at live
        cases live
    · rw [pointerIn_skip live,ih]
      simp [live]

/-- Where the newest version is live, the pointer and the pinned slice are one, and the vector is found
unless its quantizer is missing. -/
lemma newest_live {seg : SegmentReader} (first : newest id segments = some seg)
    (live : (seg.findRaw id).1 = .kFound) (dim : UInt32) : ∃ ptr, pointerIn id segments = .ok ptr ∧
      pinnedIn id segments = some ptr.raw_data_ptr ∧
      ((∃ vec md, lookupSegments dim id segments = some ⟨.kFound,vec,md⟩) ↔ (seg.quant_type = .kNone ∨ seg.quantizer ≠ none)) := by
  induction segments with
  | nil => cases first
  | cons other older ih =>
    rw [newest,List.find?_cons] at first
    obtain ⟨start,bytes,md,found,got⟩ | ⟨found,_⟩ | ⟨found,got⟩ := other.get_cases id
    · simp only [found,ne_eq,reduceCtorEq,not_false_eq_true,decide_true,Option.some.injEq] at first
      subst first
      refine ⟨_,by rw [pointerIn,found],by rw [pinnedIn,got],?_⟩
      rw [lookupSegments,got]
      by_cases plain : other.quant_type = .kNone
      · simp [plain]
      · cases other.quantizer <;> simp [plain]
    · grind
    · simp only [found,ne_eq,not_true_eq_false,decide_false] at first
      rw [pointerIn_skip (by simp [found]),pinnedIn,lookupSegments,got]
      exact ih first

lemma newest_of_pinned {place : Nat × Nat} (pin : pinnedIn id segments = some place) :
    ∃ seg, newest id segments = some seg ∧ (seg.findRaw id).1 = .kFound := by
  induction segments with
  | nil => cases pin
  | cons other older ih =>
    rw [pinnedIn] at pin
    rw [newest,List.find?_cons]
    obtain ⟨start,bytes,md,found,got⟩ | ⟨_,got⟩ | ⟨found,got⟩ := other.get_cases id
    · simp [found]
    · rw [got] at pin
      cases pin
    · rw [got] at pin
      simp only [found,ne_eq,not_true_eq_false,decide_false]
      exact ih pin

lemma openFile_decodes (fl : FloatOps) (file : SegmentFile) :
    ((openFile fl file).quant_type = .kNone ∨ (openFile fl file).quantizer ≠ none) ↔ (openFile fl file).quant_type ≠ .kPq8 := by
  cases type : file.quant_type <;> simp [openFile,type]

/-- A pointer is current exactly if no segment has a live version of the id, or no memtable has a version
of it and the newest segment that has one has a live one that can be decoded. -/
theorem semanticPointer_current_iff (fl : FloatOps) (active : Option MemTable) (frozen_memtables : List MemTable)
    (files : List SegmentFile) (id : VectorId) (dim : UInt32) :
    let segments := files.map (openFile fl)
    ((∀ ptr, getSemanticPointer (some segments) id = .ok ptr →
        (∃ vec md, lookupById active frozen_memtables segments id dim = some ⟨.kFound,vec,md⟩) ∧
          pinned active frozen_memtables segments id = some ptr.raw_data_ptr) ∧
      (lookupById active frozen_memtables segments id dim = some .tombstone → ∀ ptr, getSemanticPointer (some segments) id ≠ .ok ptr)) ↔
    (∀ seg ∈ segments, (seg.findRaw id).1 ≠ .kFound) ∨ (∀ m ∈ active.toList ++ frozen_memtables, m.version id = none) ∧
        ∃ seg, newest id segments = some seg ∧ (seg.findRaw id).1 = .kFound ∧ seg.quant_type ≠ .kPq8 := by
  intro segments
  have opened : ∀ {seg}, newest id segments = some seg →
      ((seg.quant_type = .kNone ∨ seg.quantizer ≠ none) ↔ seg.quant_type ≠ .kPq8) := by
    intro seg first
    obtain ⟨file,_,rfl⟩ := List.mem_map.mp (List.mem_of_find?_eq_some first)
    exact openFile_decodes fl file
  have silent : ((active.toList ++ frozen_memtables.reverse).findSome? fun m => m.lookup id) = none ↔
      ∀ m ∈ active.toList ++ frozen_memtables, m.version id = none := by
    simp [MemTable.lookup_eq,MemTable.layer,or_imp,forall_and]
  rw [← silent,pinned,lookupById,getSemanticPointer]
  constructor
  · rintro ⟨current,_⟩
    by_cases live : ∃ seg ∈ segments, (seg.findRaw id).1 = .kFound
    · obtain ⟨ptr,ok⟩ := pointerIn_ok_iff.mpr live
      obtain ⟨looked,pin⟩ := current ptr ok
      cases tables : (active.toList ++ frozen_memtables.reverse).findSome? fun m => m.lookup id with
      | some result =>
        rw [tables] at pin
        cases pin
      | none =>
        rw [tables] at pin looked
        obtain ⟨seg,first,found⟩ := newest_of_pinned pin
        obtain ⟨_,_,_,decodes⟩ := newest_live first found dim
        grind
    · exact .inl fun seg member found => live ⟨seg,member,found⟩
  · rintro (none_ | ⟨tables,seg,first,found,type⟩)
    · have missing : ∀ ptr, pointerIn id segments ≠ .ok ptr := fun ptr ok => by
        obtain ⟨seg,member,found⟩ := pointerIn_ok_iff.mp ⟨ptr,ok⟩
        exact none_ seg member found
      grind
    · obtain ⟨ptr,ok,pin,decodes⟩ := newest_live first found dim
      obtain ⟨vec,md,looked⟩ := decodes.mpr ((opened first).mpr type)
      rw [tables]
      refine ⟨?_,?_⟩
      · simp [*]
      · intro deleted
        rw [looked] at deleted
        cases deleted

/-- An id that is deleted in the active memtable has a pointer to its old vector. -/
theorem semanticPointer_of_deleted :
    let deleted := ((MemTable.create Platform.plain 2 false).delete 5).1
    ((halfBuilder.finishFile Platform.plain.floats {quant_type := .kFp16} (fun _ _ => []) []).toOption.map fun file =>
      (lookupById (some deleted) [] [openFile Platform.plain.floats file] 5 2,
        (getSemanticPointer (some [openFile Platform.plain.floats file]) 5).toOption)) =
      some (some .tombstone,some ⟨(0,76),2,float0,float1,.kFp16,0⟩) := by
  decide +kernel

end SegmentReader
end PomaiCache
