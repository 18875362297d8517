import PomaiCache.Basic

/-!
The segment manifest: a text file of segment names with a checksum, replaced by
two renames. `manifest.current` is moved to `manifest.prev` before the new file
takes its place.
-/
namespace PomaiCache.Manifest
open Codec List

/-- The three manifest files of a data directory. -/
structure Dir where
  tmp : Option Bytes
  current : Option Bytes
  prev : Option Bytes
  deriving DecidableEq, Repr

def newline : UInt8 := 0x0A

/-- `"pomai.manifest.v2"` in ASCII. -/
def kManifestHeader : Bytes :=
  [0x70,0x6F,0x6D,0x61,0x69,0x2E,0x6D,0x61,0x6E,0x69,0x66,0x65,0x73,0x74,0x2E,0x76,0x32]

/-- `"pomai.shard_manifest.v2"` in ASCII. -/
def kManifestHeaderAlt : Bytes :=
  [0x70,0x6F,0x6D,0x61,0x69,0x2E,0x73,0x68,0x61,0x72,0x64,0x5F,0x6D,0x61,0x6E,0x69,0x66,0x65,0x73,0x74,0x2E,0x76,0x32]

/-- The line loop, with the bytes of the line it is in. A line without a newline
at its end is dropped. -/
def parseLines (line : Bytes) : Bytes → List Bytes
  | [] => []
  | byte :: rest =>
    if byte = newline then
      if line.isEmpty then parseLines [] rest else line :: parseLines [] rest
    else parseLines (line ++ [byte]) rest

def parseSegmentLines (payload : Bytes) : List Bytes := parseLines [] payload

def startsWith (content header : Bytes) : Bool := content.take header.length == header

def tryLoadOne (raw : Bytes) : Except Status (List Bytes) :=
  if raw.isEmpty then .ok []
  else if raw.length < 4 ∨ (!startsWith raw kManifestHeader && !startsWith raw kManifestHeaderAlt) then
    .ok (parseSegmentLines raw)
  else
    let content_part := raw.take (raw.length - 4)
    let stored_crc := leNat (raw.drop (raw.length - 4))
    if (crc32c content_part 0).toNat ≠ stored_crc then .error (.corruption "segment manifest CRC mismatch")
    else
      match content_part.dropWhile (· ≠ newline) with
      | [] => .error (.corruption "segment manifest truncated")
      | _ :: payload => .ok (parseSegmentLines payload)

variable (dir : Dir)

def load : Except Status (List Bytes) :=
  match dir.current with
  | none => .ok []
  | some raw =>
    match tryLoadOne raw with
    | .ok segments => .ok segments
    | .error st =>
      match dir.prev with
      | some raw => tryLoadOne raw
      | none => .error st

variable (segments : List Bytes)

def linesOf : Bytes := segments.flatMap fun s => s ++ [newline]

def contentOf : Bytes := kManifestHeader ++ [newline] ++ linesOf segments

def bufferOf : Bytes :=
  contentOf segments ++ le 4 (crc32c (contentOf segments) 0).toNat

/-- Where a commit is cut off: before the file is synced, which leaves anything in
`manifest.tmp`, or after one of the later steps. -/
inductive Cut
  | unsynced (tmp : Option Bytes)
  | synced
  | movedCurrent
  | done
  deriving DecidableEq, Repr

def commitCut (segments : List Bytes) : Cut → Dir
  | .unsynced tmp => {dir with tmp := tmp}
  | .synced => {dir with tmp := some (bufferOf segments)}
  | .movedCurrent =>
    match dir.current with
    | some current => ⟨some (bufferOf segments),none,some current⟩
    | none => {dir with tmp := some (bufferOf segments)}
  | .done =>
    match dir.current with
    | some current => ⟨none,some (bufferOf segments),some current⟩
    | none => ⟨none,some (bufferOf segments),dir.prev⟩

def commit (segments : List Bytes) : Dir := commitCut dir segments .done

def Named : Prop := ∀ name ∈ segments, name ≠ [] ∧ newline ∉ name

instance (segments : List Bytes) : Decidable (Named segments) :=
  inferInstanceAs (Decidable (∀ name ∈ segments, name ≠ [] ∧ newline ∉ name))

lemma parseLines_name (line name rest : Bytes) (plain : newline ∉ name) : parseLines line (name ++ newline :: rest) =
      if (line ++ name).isEmpty then parseLines [] rest else (line ++ name) :: parseLines [] rest := by
  induction name generalizing line with
  | nil => simp [parseLines]
  | cons byte name ih =>
    have different : byte ≠ newline := fun same => plain (by simp [same])
    rw [cons_append,parseLines,if_neg different,ih _ (fun member => plain (.tail _ member))]
    simp

lemma parseLines_named (line text : Bytes) (plain : newline ∉ line) : Named (parseLines line text) := by
  induction text generalizing line with
  | nil => simp [parseLines,Named]
  | cons byte rest ih =>
    rw [parseLines]
    by_cases ends : byte = newline
    · rw [if_pos ends]
      by_cases blank : line.isEmpty
      · rw [if_pos blank]
        exact ih [] (by simp)
      · rw [if_neg blank]
        intro name member
        rcases mem_cons.mp member with same | later
        · subst same
          exact ⟨by simpa using blank,plain⟩
        · exact ih [] (by simp) name later
    · grind

lemma parseSegmentLines_linesOf {segments : List Bytes} (named : Named segments) :
    parseSegmentLines (linesOf segments) = segments := by
  induction segments with
  | nil => rfl
  | cons name rest ih =>
    obtain ⟨nonempty,plain⟩ := named name (by simp)
    have others := ih fun other member => named other (.tail _ member)
    rw [parseSegmentLines,linesOf] at others ⊢
    simp only [flatMap_cons,append_assoc,singleton_append]
    rw [parseLines_name [] name _ plain,nil_append,if_neg (by simpa using nonempty),others]

lemma parseSegmentLines_linesOf_iff : parseSegmentLines (linesOf segments) = segments ↔ Named segments := by
  constructor
  · intro same
    rw [← same]
    exact parseLines_named [] _ (by simp)
  · exact parseSegmentLines_linesOf

/-! ### What is committed is loaded -/

lemma dropWhile_contentOf : (contentOf segments).dropWhile (· ≠ newline) = newline :: linesOf segments := by
  simp [contentOf,kManifestHeader,newline]

lemma tryLoadOne_bufferOf : tryLoadOne (bufferOf segments) = .ok (parseSegmentLines (linesOf segments)) := by
  have length : (bufferOf segments).length = (contentOf segments).length + 4 := by simp [bufferOf]
  have front : (bufferOf segments).take ((contentOf segments).length + 4 - 4) = contentOf segments :=
    take_left' (by omega)
  have back : (bufferOf segments).drop ((contentOf segments).length + 4 - 4) =
      le 4 (crc32c (contentOf segments) 0).toNat := drop_left' (by omega)
  have header : startsWith (bufferOf segments) kManifestHeader = true := by
    simp [startsWith,bufferOf,contentOf,kManifestHeader]
  have nonempty : (bufferOf segments).isEmpty = false := by
    simp [bufferOf,contentOf,kManifestHeader]
  rw [tryLoadOne,nonempty,length,if_neg (by simp),if_neg (by simp [header]),front,back,leNat_u32,if_neg (by simp),dropWhile_contentOf]

def Committed (segments : List Bytes) : Prop := dir.current = some (bufferOf segments)

lemma load_committed {dir : Dir} {segments : List Bytes} (committed : Committed dir segments) :
    load dir = .ok (parseSegmentLines (linesOf segments)) := by
  rw [load,committed]
  simp only [tryLoadOne_bufferOf]

lemma commit_committed (segments : List Bytes) : Committed (commit dir segments) segments := by
  unfold Committed commit commitCut
  cases dir.current <;> rfl

/-- A completed commit is loaded with the same names in the same order, whatever the
directory held before. -/
theorem load_commit (dir : Dir) (segments : List Bytes) (named : Named segments) : load (commit dir segments) = .ok segments := by
  rw [load_committed (commit_committed dir segments),parseSegmentLines_linesOf named]

theorem load_commit_two : Named [[0x62],[0x61]] ∧
    load (commit (commit ⟨none,none,none⟩ [[0x61]]) [[0x62],[0x61]]) = .ok [[0x62],[0x61]] :=
  ⟨by decide,load_commit _ _ (by decide)⟩

/-- What a crashed commit leaves to load: the old list before the first rename,
the new one after the second, and between them no list at all. -/
lemma load_commitCut {dir : Dir} {old : List Bytes} (committed : Committed dir old) (new : List Bytes)
    (cut : Cut) : load (commitCut dir new cut) = .ok (match cut with
        | .unsynced _ | .synced => parseSegmentLines (linesOf old)
        | .movedCurrent => []
        | .done => parseSegmentLines (linesOf new)) := by
  cases cut with
  | unsynced tmp => exact load_committed committed
  | synced => exact load_committed committed
  | movedCurrent =>
    have moved : commitCut dir new .movedCurrent = ⟨some (bufferOf new),none,some (bufferOf old)⟩ := by
      rw [commitCut,committed]
    rw [moved]
    rfl
  | done => exact load_committed (commit_committed dir new)

/-- When a crashed commit loads one of its two lists. Between the renames only the
empty list is ever loaded; elsewhere the names of the list in force have to be
names, unless their lines happen to spell the other list. -/
theorem load_commitCut_atomic (dir : Dir) (old new : List Bytes) (cut : Cut) (committed : Committed dir old) :
    (load (commitCut dir new cut) = .ok old ∨ load (commitCut dir new cut) = .ok new) ↔ match cut with
      | .unsynced _ | .synced => Named old ∨ parseSegmentLines (linesOf old) = new
      | .movedCurrent => old = [] ∨ new = []
      | .done => parseSegmentLines (linesOf new) = old ∨ Named new := by
  grind [load_commitCut,parseSegmentLines_linesOf_iff]

theorem load_commitCut_atomic_added : Committed (commit ⟨none,none,none⟩ [[0x61]]) [[0x61]] ∧ ∀ cut, cut ≠ .movedCurrent →
        load (commitCut (commit ⟨none,none,none⟩ [[0x61]]) [[0x62],[0x61]] cut) = .ok [[0x61]] ∨
        load (commitCut (commit ⟨none,none,none⟩ [[0x61]]) [[0x62],[0x61]] cut) = .ok [[0x62],[0x61]] := by
  refine ⟨commit_committed _ _,?_⟩
  intro cut between
  refine (load_commitCut_atomic _ _ _ cut (commit_committed _ _)).mpr ?_
  cases cut with
  | unsynced tmp => exact Or.inl (by decide)
  | synced => exact Or.inl (by decide)
  | movedCurrent => exact absurd rfl between
  | done => exact Or.inr (by decide)

/-- Cut off between its renames, the same commit leaves a directory that loads no
segment, although both lists hold `a` and `manifest.prev` still names it. -/
theorem load_commitCut_empty : load (commitCut (commit ⟨none,none,none⟩ [[0x61]]) [[0x62],[0x61]] .movedCurrent) = .ok [] ∧
      (commitCut (commit ⟨none,none,none⟩ [[0x61]]) [[0x62],[0x61]] .movedCurrent).prev = some (bufferOf [[0x61]]) := by
  exact ⟨rfl,rfl⟩

end PomaiCache.Manifest
