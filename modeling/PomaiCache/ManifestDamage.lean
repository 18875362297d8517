import Mathlib
import PomaiCache.Manifest

/-!
Damage to `manifest.current`. The checksum is looked at only where the file still begins with a
header; anything else is read as a list of names without header and checksum.
-/
namespace PomaiCache.Manifest
open Codec List

/-- What happens to the file: it is cut off, or its first 17 bytes are overwritten. -/
inductive Damage
  | truncated (length : Nat)
  | overwritten (header : Bytes)
  deriving DecidableEq, Repr

namespace Damage

def apply (raw : Bytes) : Damage → Bytes
  | truncated length => raw.take length
  | overwritten header => header ++ raw.drop kManifestHeader.length

/-- The file gets shorter, or as many bytes are written as the header has. -/
def Applies (raw : Bytes) : Damage → Prop
  | truncated length => length < raw.length
  | overwritten header => header.length = kManifestHeader.length

lemma applies_truncated {raw : Bytes} {length : Nat} (shorter : length < raw.length) : (truncated length).Applies raw := shorter

end Damage

/-! ### Lines of texts in two parts -/

lemma parseLines_append (line before after : Bytes) : parseLines line (before ++ newline :: after) =
      parseLines line (before ++ [newline]) ++ parseSegmentLines after := by
  induction before generalizing line with
  | nil => by_cases blank : line.isEmpty <;> simp [parseLines,parseSegmentLines,blank]
  | cons byte before ih =>
    grind [newline,parseLines]

lemma parseLines_plain {text line : Bytes} (plain : newline ∉ text) : parseLines line text = [] := by
  induction text generalizing line with
  | nil => rfl
  | cons byte rest ih =>
    have different : byte ≠ newline := fun same => plain (by simp [same])
    rw [parseLines,if_neg different,ih fun member => plain (.tail _ member)]

lemma parseSegmentLines_append (before after : Bytes) :
    parseSegmentLines (before ++ newline :: after) = parseSegmentLines (before ++ [newline]) ++ parseSegmentLines after :=
  parseLines_append [] before after

variable (segments : List Bytes)

lemma parseSegmentLines_behind (after : Bytes) : parseSegmentLines (linesOf segments ++ after) =
      parseSegmentLines (linesOf segments) ++ parseSegmentLines after := by
  induction segments with
  | nil => rfl
  | cons name rest ih =>
    have split_ (more : Bytes) : linesOf (name :: rest) ++ more = name ++ newline :: (linesOf rest ++ more) := by
      simp [linesOf]
    grind [parseSegmentLines_append,linesOf,append_assoc]

/-! ### What a damaged file loads as -/

def crcBytes (segments : List Bytes) : Bytes := le 4 (crc32c (contentOf segments) 0).toNat

lemma bufferOf_eq : bufferOf segments = kManifestHeader ++ newline :: (linesOf segments ++ crcBytes segments) := by
  simp [bufferOf,contentOf,crcBytes]

lemma startsWith_short (short : raw.length < header.length) : startsWith raw header = false := by
  grind [startsWith,beq_eq_false_iff_ne]

lemma tryLoadOne_plain (current : startsWith raw kManifestHeader = false)
    (alternative : startsWith raw kManifestHeaderAlt = false) : tryLoadOne raw = .ok (parseSegmentLines raw) := by
  cases raw with
  | nil => rfl
  | cons byte rest => simp [tryLoadOne,current,alternative]

lemma tryLoadOne_cut_header {length : Nat} (short : length < kManifestHeader.length) :
    tryLoadOne ((bufferOf segments).take length) = .ok [] := by
  have front : (bufferOf segments).take length = kManifestHeader.take length := by
    rw [bufferOf_eq,take_append_of_le_length (Nat.le_of_lt short)]
  have size : (kManifestHeader.take length).length < kManifestHeader.length := by simpa using short
  have plain : newline ∉ kManifestHeader.take length := fun member =>
    absurd (mem_of_mem_take member) (by decide)
  have below : kManifestHeader.length < kManifestHeaderAlt.length := by decide
  rw [front,tryLoadOne_plain (startsWith_short size) (startsWith_short (Nat.lt_trans size below)),
    parseSegmentLines,parseLines_plain plain]

/-- The checksum does not notice the cut: the last four bytes that are left are the checksum of those
before them, among which is the whole first line. -/
def Unnoticed (segments : List Bytes) (length : Nat) : Prop :=
  (crc32c ((bufferOf segments).take (length - 4)) 0).toNat = leNat (slice (bufferOf segments) (length - 4) 4) ∧
    kManifestHeader.length + 1 + 4 ≤ length

instance (segments : List Bytes) (length : Nat) : Decidable (Unnoticed segments length) :=
  inferInstanceAs (Decidable (_ ∧ _))

def keptNames (segments : List Bytes) (length : Nat) : List Bytes :=
  parseSegmentLines ((linesOf segments).take (length - (kManifestHeader.length + 1 + 4)))

lemma tryLoadOne_take {length : Nat} (header : kManifestHeader.length ≤ length) (shorter : length < (bufferOf segments).length) :
    tryLoadOne ((bufferOf segments).take length) =
      if (crc32c ((bufferOf segments).take (length - 4)) 0).toNat ≠ leNat (slice (bufferOf segments) (length - 4) 4) then
        .error (.corruption "segment manifest CRC mismatch")
      else
        match ((bufferOf segments).take (length - 4)).dropWhile (· ≠ newline) with
        | [] => .error (.corruption "segment manifest truncated")
        | _ :: payload => .ok (parseSegmentLines payload) := by
  have seventeen : kManifestHeader.length = 17 := rfl
  have size : ((bufferOf segments).take length).length = length := by simp; omega
  have begins : startsWith ((bufferOf segments).take length) kManifestHeader = true := by
    rw [startsWith,take_take,Nat.min_eq_left header,bufferOf_eq,take_left]
    exact beq_self_eq_true _
  have nonempty : ((bufferOf segments).take length).isEmpty = false := by
    grind
  have content : ((bufferOf segments).take length).take (length - 4) = (bufferOf segments).take (length - 4) := by
    rw [take_take,Nat.min_eq_left (Nat.sub_le _ _)]
  have stored : ((bufferOf segments).take length).drop (length - 4) = slice (bufferOf segments) (length - 4) 4 := by
    rw [drop_take,slice]
    congr 1
    omega
  have loaded := tryLoadOne.eq_1 ((bufferOf segments).take length)
  rw [nonempty,size,if_neg (by simp),if_neg (by simp [begins]; omega),content,stored] at loaded
  exact loaded

lemma tryLoadOne_cut_behind {length : Nat} (header : kManifestHeader.length ≤ length)
    (shorter : length < (bufferOf segments).length) :
    if Unnoticed segments length then tryLoadOne ((bufferOf segments).take length) = .ok (keptNames segments length)
    else ∃ st, tryLoadOne ((bufferOf segments).take length) = .error st := by
  have seventeen : kManifestHeader.length = 17 := rfl
  rw [tryLoadOne_take segments header shorter]
  have skip (rest : Bytes) : (kManifestHeader ++ rest).dropWhile (· ≠ newline) = rest.dropWhile (· ≠ newline) :=
    dropWhile_append_of_pos (all_eq_true.mp (by decide))
  by_cases whole : kManifestHeader.length + 1 + 4 ≤ length
  · have inside : length - (kManifestHeader.length + 1 + 4) ≤ (linesOf segments).length := by
      simp only [bufferOf_eq,crcBytes,length_append,length_cons,le_length] at shorter
      omega
    have count : length - 4 = kManifestHeader.length + (length - (kManifestHeader.length + 1 + 4) + 1) := by omega
    have lines : ((bufferOf segments).take (length - 4)).dropWhile (· ≠ newline) =
        newline :: (linesOf segments).take (length - (kManifestHeader.length + 1 + 4)) := by
      rw [count,bufferOf_eq,take_length_add_append,take_succ_cons,take_append_of_le_length inside,skip]
      simp
    rw [lines]
    by_cases same : (crc32c ((bufferOf segments).take (length - 4)) 0).toNat = leNat (slice (bufferOf segments) (length - 4) 4)
    · rw [if_pos ⟨same,whole⟩,if_neg (not_not.mpr same)]
      rfl
    · rw [if_neg fun both => same both.1,if_pos same]
      exact ⟨_,rfl⟩
  · have plain : ((bufferOf segments).take (length - 4)).dropWhile (· ≠ newline) = [] := by
      have front : (bufferOf segments).take (length - 4) = kManifestHeader.take (length - 4) := by
        rw [bufferOf_eq,take_append_of_le_length (by omega)]
      rw [front,dropWhile_eq_nil_iff]
      intro byte member
      have listed := mem_of_mem_take member
      exact all_eq_true.mp (show kManifestHeader.all (· ≠ newline) = true by decide) byte listed
    rw [if_neg fun both => whole both.2,plain]
    split
    · exact ⟨_,rfl⟩
    · exact ⟨_,rfl⟩

/-- With another header the file is a list of names without a checksum: the lines of what stands in the
place of the header, the names, and what the checksum spells. -/
lemma tryLoadOne_overwritten {header : Bytes} (sized : header.length = kManifestHeader.length)
    (other : header ≠ kManifestHeader) : tryLoadOne (header ++ (bufferOf segments).drop kManifestHeader.length) =
      .ok (parseSegmentLines (header ++ [newline]) ++
        (parseSegmentLines (linesOf segments) ++ parseSegmentLines (crcBytes segments))) := by
  have rest : (bufferOf segments).drop kManifestHeader.length = newline :: (linesOf segments ++ crcBytes segments) := by
    rw [bufferOf_eq,drop_left]
  have current : startsWith (header ++ newline :: (linesOf segments ++ crcBytes segments)) kManifestHeader = false := by
    rw [startsWith,← sized,take_left,beq_eq_false_iff_ne]
    exact other
  -- the byte behind the header is a newline, and the longer header has none
  have alternative : startsWith (header ++ newline :: (linesOf segments ++ crcBytes segments)) kManifestHeaderAlt = false := by
    rw [startsWith,beq_eq_false_iff_ne]
    intro same
    have behind : newline ∈ kManifestHeaderAlt := by
      rw [← same]
      refine mem_take_iff_getElem.mpr ⟨header.length,?_,?_⟩
      · rw [sized]
        simp [kManifestHeader,kManifestHeaderAlt,sized]
      · simp
    exact absurd behind (by decide)
  rw [rest,tryLoadOne_plain current alternative,parseSegmentLines_append,parseSegmentLines_behind]

/-! ### When no segment is invented -/

/-- When a damaged `manifest.current` still loads as one of the two lists, or not at all. -/
def Harmless (current prev : List Bytes) : Damage → Prop
  | .truncated length =>
    if length < kManifestHeader.length then current = [] ∨ prev = []
    else if Unnoticed current length then keptNames current length = current ∨ keptNames current length = prev
    else Named prev ∨ parseSegmentLines (linesOf prev) = current
  | .overwritten header =>
    if header = kManifestHeader then Named current ∨ parseSegmentLines (linesOf current) = prev
    else
      parseSegmentLines (header ++ [newline]) ++
          (parseSegmentLines (linesOf current) ++ parseSegmentLines (crcBytes current)) = current ∨
        parseSegmentLines (header ++ [newline]) ++
          (parseSegmentLines (linesOf current) ++ parseSegmentLines (crcBytes current)) = prev

section
variable {tmp : Option Bytes} {raw : Bytes} {current prev : List Bytes}

lemma load_of_ok {names : List Bytes} (loaded : tryLoadOne raw = .ok names) :
    load ⟨tmp,some raw,some (bufferOf prev)⟩ = .ok names := by simp [load,loaded]

lemma load_of_error (failed : ∃ st, tryLoadOne raw = .error st) :
    load ⟨tmp,some raw,some (bufferOf prev)⟩ = .ok (parseSegmentLines (linesOf prev)) := by
  obtain ⟨st,failed⟩ := failed
  simp [load,failed,tryLoadOne_bufferOf]

lemma invents_nothing_iff {result : Except Status (List Bytes)} {names : List Bytes} (loaded : result = .ok names) :
    ((∃ st, result = .error st) ∨ result = .ok current ∨ result = .ok prev) ↔ names = current ∨ names = prev := by
  simp [loaded]

end

/-- A damaged manifest invents no segment exactly under the condition on the damage. -/
theorem load_damaged_iff (tmp : Option Bytes) (current prev : List Bytes) (damage : Damage)
    (applies : damage.Applies (bufferOf current)) :
    ((∃ st, load ⟨tmp,some (damage.apply (bufferOf current)),some (bufferOf prev)⟩ = .error st) ∨
      load ⟨tmp,some (damage.apply (bufferOf current)),some (bufferOf prev)⟩ = .ok current ∨
      load ⟨tmp,some (damage.apply (bufferOf current)),some (bufferOf prev)⟩ = .ok prev) ↔
      Harmless current prev damage := by
  cases damage with
  | truncated length =>
    simp only [Damage.apply,Harmless]
    by_cases header : length < kManifestHeader.length
    · rw [invents_nothing_iff (load_of_ok (tryLoadOne_cut_header current header)),if_pos header]
      simp
    · have cut := tryLoadOne_cut_behind current (Nat.le_of_not_lt header) applies
      rw [if_neg header]
      by_cases unnoticed : Unnoticed current length
      · rw [if_pos unnoticed] at cut ⊢
        rw [invents_nothing_iff (load_of_ok cut)]
      · rw [if_neg unnoticed] at cut ⊢
        rw [invents_nothing_iff (load_of_error cut),← parseSegmentLines_linesOf_iff prev,or_comm]
  | overwritten header =>
    simp only [Damage.apply,Harmless]
    by_cases same : header = kManifestHeader
    · have whole : header ++ (bufferOf current).drop kManifestHeader.length = bufferOf current := by
        rw [same,bufferOf_eq,drop_left]
      rw [whole,invents_nothing_iff (load_of_ok (tryLoadOne_bufferOf current)),if_pos same,← parseSegmentLines_linesOf_iff current]
    · rw [invents_nothing_iff (load_of_ok (tryLoadOne_overwritten current applies same)),if_neg same]

theorem load_damaged_behind : 21 < (bufferOf [[0x62],[0x61]]).length ∧
    ((∃ st, load ⟨none,some ((Damage.truncated 21).apply (bufferOf [[0x62],[0x61]])),some (bufferOf [[0x61]])⟩ = .error st) ∨
      load ⟨none,some ((Damage.truncated 21).apply (bufferOf [[0x62],[0x61]])),some (bufferOf [[0x61]])⟩ = .ok [[0x62],[0x61]] ∨
      load ⟨none,some ((Damage.truncated 21).apply (bufferOf [[0x62],[0x61]])),some (bufferOf [[0x61]])⟩ = .ok [[0x61]]) := by
  have shorter : 21 < (bufferOf [[0x62],[0x61]]).length := by decide
  refine ⟨shorter,?_⟩
  rw [load_damaged_iff none [[0x62],[0x61]] [[0x61]] (.truncated 21) (Damage.applies_truncated shorter)]
  simp only [Harmless]
  rw [if_neg (by decide),if_neg fun unnoticed => absurd unnoticed.2 (by decide)]
  exact .inl (by decide)

/-- An empty file loads as a list that was never committed, and so does a file whose first byte has
changed. -/
theorem load_damaged_invents : load ⟨none,some ((Damage.truncated 0).apply (bufferOf [[0x61]])),some (bufferOf [[0x62]])⟩ = .ok [] ∧
    load ⟨none,some ((Damage.overwritten (0x71 :: kManifestHeader.drop 1)).apply (bufferOf [[0x61]])),some (bufferOf [[0x62]])⟩ =
      .ok [0x71 :: kManifestHeader.drop 1,[0x61]] := by
  exact ⟨rfl,by decide +kernel⟩

end PomaiCache.Manifest
