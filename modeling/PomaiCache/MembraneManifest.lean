import Mathlib
import PomaiCache.Options
import PomaiCache.Text
import PomaiCache.Dict

/-!
The manifests of the membranes: a root file with the names, and for each membrane a file
with a line for each setting. A setting that has no line, and a kind that has no word, is
not written; what is read for it is what the caller passed in, or a vector membrane.
-/
namespace PomaiCache
open Codec RecordLog Text Options

/-- A database directory: the root manifest, and the manifest in the directory of each
membrane. -/
structure MembraneDir where
  root : Option Bytes := none
  membranes : Dict Bytes Bytes := ∅

/-- Which calls to the file system fail, and the texts of the errors of `AtomicWriteFile`. -/
structure ManifestFaults where
  createRoot : Bool := false
  createMembranes : Bool := false
  writeInitial : Option String := none
  createMembrane : Bool := false
  writeMembrane : Option String := none
  writeRoot : Option String := none

namespace MembraneManifest

def isNameByte (c : UInt8) : Bool :=
  97 ≤ c && c ≤ 122 || 65 ≤ c && c ≤ 90 || 48 ≤ c && c ≤ 57 || c == 95 || c == 45 || c == 46

def isValidName (s : Bytes) : Bool :=
  !(s.isEmpty || 64 < s.length) && !(s == ascii "." || s == ascii "..") && s.all isNameByte

variable (content : Bytes)

def written : Bytes := content ++ le 4 (crc32c content 0).toNat

def readAll (file : Option Bytes) : Except Status Bytes :=
  match file with
  | none => .error (.ioError "read failed: open")
  | some buf =>
    if buf.length < 4 then .error (.aborted "file too short for CRC")
    else
      let content_len := buf.length - 4
      if (crc32c (buf.take content_len) 0).toNat ≠ leNat (slice buf content_len 4) then .error (.aborted "CRC mismatch")
      else .ok (buf.take content_len)

variable (tok : Bytes)

/-- The digits of a number of 32 bits; anything else leaves the field as it is. -/
def parseU32 : Option UInt32 :=
  if tok = [] then none
  else if !tok.all isDigit then none
  else if digitsValue tok ≤ 0xFFFFFFFF then some (UInt32.ofNat (digitsValue tok)) else none

def isWs (b : UInt8) : Bool := b == 32 || b == 9 || b == 13

variable (line : Bytes)

def splitWs : List Bytes := (words isWs).all line

def headerOf : Bytes := content.takeWhile (· ≠ 10)
def linesOf : List Bytes := (lines 10).all ((content.dropWhile (· ≠ 10)).drop 1)

/-- The name a line of the root manifest carries, if it carries one. -/
def rootEntry : Except Status (Option Bytes) :=
  match splitWs line with
  | [] => .ok none
  | tok :: rest =>
    if tok = ascii "version" then .ok none
    else if tok = ascii "membrane" then
      match rest with
      | [] => .error (.corruption "bad membrane line")
      | name :: _ => if isValidName name then .ok (some name) else .error (.corruption "invalid membrane name")
    else .ok none

def rootEntries : List Bytes → Except Status (List Bytes)
  | [] => .ok []
  | line :: rest => (rootEntry line).bind fun entry => (rootEntries rest).map fun more => entry.toList ++ more

/-- The names in order. Equal names cannot be told apart, so `std::sort` has one result. -/
def sortNames (names : List Bytes) : List Bytes := names.insertionSort fun a b => ¬b < a

def loadRoot (dir : MembraneDir) : Except Status (List Bytes) :=
  (readAll dir.root).bind fun content =>
    if headerOf content ≠ ascii "pomai.manifest.v3" then .error (.aborted "bad manifest header: expected v3")
    else (rootEntries (linesOf content)).map sortNames

def serializeRoot (entries : List Bytes) : Bytes :=
  ascii "pomai.manifest.v3\n" ++ (ascii "version 1\n" ++ entries.flatMap fun name => ascii "membrane " ++ (name ++ [10]))

/-! ### The manifest of a membrane -/

def membraneKindToString : MembraneKind → Bytes
  | .kVector => ascii "VECTOR"
  | .kRag => ascii "RAG"
  | .kGraph => ascii "GRAPH"
  | .kText => ascii "TEXT"
  | .kTimeSeries => ascii "TIMESERIES"
  | .kKeyValue => ascii "KEYVALUE"
  | .kMeta => ascii "META"
  | .kSketch => ascii "SKETCH"
  | .kBlob => ascii "BLOB"
  | .kSpatial => ascii "SPATIAL"
  | .kMesh => ascii "MESH"
  | .kSparse => ascii "SPARSE"
  | .kBitset => ascii "BITSET"
  | _ => ascii "VECTOR"

def kindNames : List (Bytes × MembraneKind) :=
  [(ascii "RAG",.kRag),(ascii "GRAPH",.kGraph),(ascii "TEXT",.kText),(ascii "TIMESERIES",.kTimeSeries),
    (ascii "KEYVALUE",.kKeyValue),(ascii "META",.kMeta),(ascii "SKETCH",.kSketch),(ascii "BLOB",.kBlob),
    (ascii "SPATIAL",.kSpatial),(ascii "MESH",.kMesh),(ascii "SPARSE",.kSparse),(ascii "BITSET",.kBitset)]

def parseMembraneKind : MembraneKind :=
  match kindNames.find? (·.1 = tok) with
  | some (_,kind) => kind
  | none => .kVector

def metricToString : MetricType → Bytes
  | .kL2 => ascii "L2"
  | .kInnerProduct => ascii "IP"
  | .kCosine => ascii "COS"

def parseMetric : MetricType :=
  if tok = ascii "IP" then .kInnerProduct else if tok = ascii "COS" then .kCosine else .kL2

def typeValue : IndexType → Nat
  | .kIvfFlat => 0
  | .kHnsw => 1

variable (spec : MembraneSpec)

/-- The lines of `WriteMembraneManifest`, each as its key and its values. -/
def specLines : List (Bytes × List Bytes) :=
  let params := spec.index_params
  [(ascii "name",[spec.name]),(ascii "shards",[decimal spec.shard_count.toNat]),(ascii "dim",[decimal spec.dim.toNat]),
    (ascii "kind",[membraneKindToString spec.kind]),(ascii "metric",[metricToString spec.metric]),
    (ascii "index_params",[decimal (typeValue params.type),decimal params.nlist.toNat,decimal params.nprobe.toNat,
      decimal params.hnsw_m.toNat,decimal params.hnsw_ef_construction.toNat,decimal params.hnsw_ef_search.toNat]),
    (ascii "sync_lsn",[decimal spec.sync_lsn.toNat]),(ascii "ttl_sec",[decimal spec.ttl_sec.toNat]),
    (ascii "retention_max_count",[decimal spec.retention_max_count.toNat]),
    (ascii "retention_max_bytes",[decimal spec.retention_max_bytes.toNat])]

def lineText (line : Bytes × List Bytes) : Bytes := line.1 ++ line.2.flatMap (32 :: ·)

def specText : Bytes :=
  ascii "pomai.membrane.v3\n" ++ (specLines spec).flatMap fun line => lineText line ++ [10]

def writeMembraneManifest (dir : MembraneDir) (spec : MembraneSpec) : MembraneDir :=
  {dir with membranes := dir.membranes.insert spec.name (written (specText spec))}

def setU32 (set : UInt32 → MembraneSpec) (spec : MembraneSpec) (toks : List Bytes) : MembraneSpec :=
  (toks.head?.bind parseU32).elim spec set

/-- `std::stoull` of the first word; the exceptions are dropped. A number that does not fit
makes it throw, so `strtoull` alone is not enough. -/
def stoull : Option UInt64 :=
  let text := tok.dropWhile isSpace
  let digits := (if text.head? == some 45 || text.head? == some 43 then text.drop 1 else text).takeWhile isDigit
  if digitsValue digits < 2 ^ 64 then strtoull tok else none

def setU64 (set : UInt64 → MembraneSpec) (spec : MembraneSpec) (toks : List Bytes) : MembraneSpec :=
  (toks.head?.bind stoull).elim spec set

def setIndexParams : List Bytes → MembraneSpec
  | [nlist,nprobe] =>
    let params := {spec.index_params with type := IndexType.kIvfFlat}
    {spec with index_params :=
      {params with nlist := (parseU32 nlist).getD params.nlist, nprobe := (parseU32 nprobe).getD params.nprobe}}
  | type :: nlist :: nprobe :: m :: construction :: search :: _ =>
    let params := spec.index_params
    {spec with index_params := {params with
      type := if (parseU32 type).getD 0 = 1 then .kHnsw else .kIvfFlat
      nlist := (parseU32 nlist).getD params.nlist
      nprobe := (parseU32 nprobe).getD params.nprobe
      hnsw_m := (parseU32 m).getD params.hnsw_m
      hnsw_ef_construction := (parseU32 construction).getD params.hnsw_ef_construction
      hnsw_ef_search := (parseU32 search).getD params.hnsw_ef_search}}
  | _ => spec

def setters : List (Bytes × (MembraneSpec → List Bytes → MembraneSpec)) :=
  [(ascii "name",fun spec _ => spec),(ascii "shards",fun spec => setU32 (fun n => {spec with shard_count := n}) spec),
    (ascii "dim",fun spec => setU32 (fun n => {spec with dim := n}) spec),
    (ascii "metric",fun spec toks => toks.head?.elim spec fun tok => {spec with metric := parseMetric tok}),
    (ascii "kind",fun spec toks => toks.head?.elim spec fun tok => {spec with kind := parseMembraneKind tok}),
    (ascii "index_params",setIndexParams),
    (ascii "sync_lsn",fun spec => setU64 (fun n => {spec with sync_lsn := n}) spec),
    (ascii "ttl_sec",fun spec => setU32 (fun n => {spec with ttl_sec := n}) spec),
    (ascii "retention_max_count",fun spec => setU32 (fun n => {spec with retention_max_count := n}) spec),
    (ascii "retention_max_bytes",fun spec => setU64 (fun n => {spec with retention_max_bytes := n}) spec)]

/-- What a line with these words sets; other keys are passed over. -/
def setWords : List Bytes → MembraneSpec
  | [] => spec
  | key :: toks =>
    match setters.find? (·.1 = key) with
    | some (_,set) => set spec toks
    | none => spec

/-- `LoadMembraneManifest` into a spec, which keeps its index parameters and `sync_lsn` where
the file has none. -/
def loadMembraneManifest (dir : MembraneDir) (name : Bytes) (out : MembraneSpec) : Except Status MembraneSpec :=
  (readAll (dir.membranes.lookup name)).bind fun content =>
    let header := headerOf content
    if header ≠ ascii "pomai.membrane.v2" ∧ header ≠ ascii "pomai.membrane.v3" then
      .error (.corruption "bad membrane manifest header: expected v2/v3")
    else
      let spec := {out with
        name := name, shard_count := 0, dim := 0, metric := .kL2, kind := .kVector
        ttl_sec := 0, retention_max_count := 0, retention_max_bytes := 0}
      .ok ((linesOf content).foldl (fun spec line => setWords spec (splitWs line)) spec)

variable (faults : ManifestFaults)

def ensureInitialized (dir : MembraneDir) : MembraneDir × Status :=
  if faults.createRoot then (dir,.ioError "create_directories root failed")
  else if faults.createMembranes then (dir,.ioError "create_directories membranes failed")
  else if dir.root.isSome then (dir,.Ok)
  else
    match faults.writeInitial with
    | some m => (dir,.ioError m)
    | none => ({dir with root := some (written (ascii "pomai.manifest.v3\nversion 1\n"))},.Ok)

def dimRequired : MembraneKind → Bool
  | .kVector | .kRag | .kGraph | .kText => true
  | _ => false

/-- The end of `CreateMembrane`, once the names of the root are known. -/
def addMembrane (dir : MembraneDir) (spec : MembraneSpec) (entries : List Bytes) : MembraneDir × Status :=
  if spec.name ∈ entries then (dir,⟨.kAlreadyExists,"membrane already exists"⟩)
  else if faults.createMembrane then (dir,.ioError "create_directories membrane failed")
  else
    match faults.writeMembrane with
    | some m => (dir,.ioError m)
    | none =>
      let dir := writeMembraneManifest dir spec
      match faults.writeRoot with
      | some m => (dir,.ioError m)
      | none => ({dir with root := some (written (serializeRoot (sortNames (entries ++ [spec.name]))))},.Ok)

def createMembrane (dir : MembraneDir) (spec : MembraneSpec) : MembraneDir × Status :=
  if !isValidName spec.name then (dir,.invalidArgument "invalid membrane name")
  else if dimRequired spec.kind ∧ spec.dim = 0 then (dir,.invalidArgument "dim must be > 0")
  else if spec.shard_count = 0 then (dir,.invalidArgument "shard_count must be > 0")
  else
    let (dir,st) := ensureInitialized faults dir
    if st.ok then
      match loadRoot dir with
      | .error st => (dir,st)
      | .ok entries => addMembrane faults dir spec entries
    else (dir,st)

def getMembrane (dir : MembraneDir) (name : Bytes) (out : MembraneSpec) : Except Status MembraneSpec :=
  if !isValidName name then .error (.invalidArgument "invalid membrane name")
  else (loadRoot dir).bind fun entries =>
    if name ∈ entries then loadMembraneManifest dir name out else .error (.notFound "membrane not found in root")

lemma readAll_written : readAll (some (written content)) = .ok content := by
  have size : (written content).length = content.length + 4 := by simp [written]
  have front : (written content).take content.length = content := List.take_left
  have stored : leNat (slice (written content) content.length 4) = (crc32c content 0).toNat := by
    simp [written,slice_behind,slice_all]
  simp only [readAll,size,Nat.add_sub_cancel,front,stored]
  rw [if_neg (by omega),if_neg (by simp)]

def Plain (w : Bytes) : Prop := w ≠ [] ∧ ∀ b ∈ w, isWs b = false ∧ b ≠ 10

instance (w : Bytes) : Decidable (Plain w) := @instDecidableAnd _ _ inferInstance (List.decidableBAll _ _)

lemma plain_decimal (n : Nat) : Plain (decimal n) := by
  refine ⟨decimal_ne_nil n,fun b member => ?_⟩
  have digit := isDigit_decimal n b member
  constructor
  · by_contra blank
    simp only [isWs,Bool.not_eq_false,Bool.or_eq_true,beq_iff_eq] at blank
    rcases blank with (rfl | rfl) | rfl <;> exact absurd digit (by decide)
  · rintro rfl
    exact absurd digit (by decide)

variable {spec : MembraneSpec} {names : List Bytes} {faults : ManifestFaults} {dir next : MembraneDir} {name : Bytes}

lemma plain_name (valid : isValidName name = true) : Plain name := by
  simp only [isValidName,Bool.and_eq_true,Bool.not_eq_true',Bool.or_eq_false_iff,List.isEmpty_eq_false_iff,List.all_eq_true] at valid
  refine ⟨valid.1.1.1,fun b member => ?_⟩
  have allowed := valid.2 b member
  constructor
  · by_contra blank
    simp only [isWs,Bool.not_eq_false,Bool.or_eq_true,beq_iff_eq] at blank
    rcases blank with (rfl | rfl) | rfl <;> exact absurd allowed (by decide)
  · rintro rfl
    exact absurd allowed (by decide)

lemma splitWs_lineText (plain : Plain key) (all : ∀ v ∈ vals, Plain v) : splitWs (lineText (key,vals)) = key :: vals := by
  induction vals generalizing key with
  | nil =>
    rw [lineText,List.flatMap_nil,List.append_nil]
    exact words_last (fun b member => (plain.2 b member).1) plain.1
  | cons v vals ih =>
    have more := ih (all v (.head _)) fun w member => all w (.tail _ member)
    have split_ : lineText (key,v :: vals) = key ++ 32 :: lineText (v,vals) := by simp [lineText]
    rw [split_,splitWs,words_word (fun b member => (plain.2 b member).1) plain.1 (by decide)]
    exact congrArg _ more

lemma newline_not_mem_lineText (plain : Plain key) (all : ∀ v ∈ vals, Plain v) : 10 ∉ lineText (key,vals) := by
  intro member
  rcases List.mem_append.mp member with inside | inside
  · exact (plain.2 10 inside).2 rfl
  · obtain ⟨v,here,inside⟩ := List.mem_flatMap.mp inside
    rcases List.mem_cons.mp inside with same | inside
    · exact absurd same (by decide)
    · exact ((all v here).2 10 inside).2 rfl

lemma linesOf_text (plain : 10 ∉ header) (all : ∀ t ∈ texts, 10 ∉ t) :
    headerOf (header ++ 10 :: texts.flatMap (· ++ [10])) = header ∧
      linesOf (header ++ 10 :: texts.flatMap (· ++ [10])) = texts := by
  have before : ∀ b ∈ header, decide (b ≠ 10) = true := fun b member => by
    simpa using fun same : b = 10 => plain (same ▸ member)
  have read : (lines 10).all (texts.flatMap (· ++ [10])) = texts := by
    refine (lines 10).all_file rfl fun t member rest => ?_
    rw [List.append_assoc]
    exact getline_mark (all t member) rest
  constructor
  · rw [headerOf,List.takeWhile_append_of_pos before]
    simp
  · rw [linesOf,List.dropWhile_append_of_pos before]
    simpa using read

lemma rootEntry_membrane (valid : isValidName name = true) : rootEntry (lineText (ascii "membrane",[name])) = .ok (some name) := by
  have split_ : splitWs (lineText (ascii "membrane",[name])) = [ascii "membrane",name] :=
    splitWs_lineText (by decide) (by simpa using plain_name valid)
  rw [rootEntry,split_]
  simp only []
  rw [if_neg (by decide),if_pos trivial,if_pos valid]

lemma rootEntries_membranes (valid : ∀ name ∈ names, isValidName name = true) :
    rootEntries (names.map fun name => lineText (ascii "membrane",[name])) = .ok names := by
  induction names with
  | nil => rfl
  | cons name names ih =>
    rw [List.map_cons,rootEntries,rootEntry_membrane (valid name (.head _)),ih fun other member => valid other (.tail _ member)]
    rfl

lemma loadRoot_written (root : dir.root = some (written (serializeRoot names)))
    (valid : ∀ name ∈ names, isValidName name = true) : loadRoot dir = .ok (sortNames names) := by
  have text : serializeRoot names = ascii "pomai.manifest.v3" ++
      10 :: (ascii "version 1" :: names.map fun name => lineText (ascii "membrane",[name])).flatMap (· ++ [10]) := by
    have first : ascii "pomai.manifest.v3\n" = ascii "pomai.manifest.v3" ++ [10] := by decide
    have second : ascii "version 1\n" = ascii "version 1" ++ [10] := by decide
    have third : ascii "membrane " = ascii "membrane" ++ [32] := by decide
    rw [serializeRoot,first,second,third]
    simp [lineText,List.flatMap_map,List.append_assoc]
  have plain : ∀ t ∈ ascii "version 1" :: names.map fun name => lineText (ascii "membrane",[name]), 10 ∉ t := by
    intro t member
    rcases List.mem_cons.mp member with rfl | inside
    · decide
    · obtain ⟨name,here,rfl⟩ := List.mem_map.mp inside
      exact newline_not_mem_lineText (by decide) (by simpa using plain_name (valid name here))
  obtain ⟨header,lines_⟩ := linesOf_text (show 10 ∉ ascii "pomai.manifest.v3" by decide) plain
  have version : rootEntry (ascii "version 1") = .ok none := by decide +kernel
  rw [loadRoot,root,readAll_written]
  simp only [Except.bind]
  rw [text,header,if_neg (by simp),lines_,rootEntries,version,rootEntries_membranes valid]
  rfl

lemma rootEntry_valid {line name : Bytes} (found : rootEntry line = .ok (some name)) : isValidName name = true := by
  grind [rootEntry]

lemma rootEntries_valid {texts names : List Bytes} (found : rootEntries texts = .ok names) : ∀ name ∈ names, isValidName name = true := by
  induction texts generalizing names with
  | nil =>
    cases found
    simp
  | cons line texts ih =>
    obtain ⟨entry,first,found⟩ := bind_eq_ok found
    cases rest : rootEntries texts with
    | error st =>
      rw [rest] at found
      cases found
    | ok more =>
      rw [rest] at found
      cases found
      intro name member
      rcases List.mem_append.mp member with here | later
      · rw [Option.mem_toList] at here
        exact rootEntry_valid (first.trans (congrArg _ here))
      · exact ih rest name later

lemma mem_sortNames : name ∈ sortNames names ↔ name ∈ names :=
  (List.perm_insertionSort _ names).mem_iff

lemma loadRoot_valid (found : loadRoot dir = .ok names) : ∀ name ∈ names, isValidName name = true := by
  obtain ⟨content,-,found⟩ := bind_eq_ok found
  split at found
  · cases found
  · cases rest : rootEntries (linesOf content) with
    | error st =>
      rw [rest] at found
      cases found
    | ok more =>
      rw [rest] at found
      cases found
      intro name member
      exact rootEntries_valid rest name (mem_sortNames.mp member)

lemma parseU32_decimal (n : UInt32) : parseU32 (decimal n.toNat) = some n := by
  have digits : (decimal n.toNat).all isDigit = true := List.all_eq_true.mpr (isDigit_decimal n.toNat)
  have fits : n.toNat ≤ 0xFFFFFFFF := by have := n.toNat_lt; omega
  rw [parseU32,if_neg (decimal_ne_nil _),digits,digitsValue_decimal,if_neg (by simp),if_pos fits,UInt32.ofNat_toNat]

lemma stoull_decimal (n : UInt64) : stoull (decimal n.toNat) = some n := by
  obtain ⟨drop,sign,whole⟩ := decimal_front n.toNat
  simp [stoull,strtoull_decimal,drop,sign 45 (by decide),sign 43 (by decide),whole,digitsValue_decimal,n.toNat_lt]

lemma specLines_plain (valid : isValidName spec.name = true) : ∀ line ∈ specLines spec, Plain line.1 ∧ ∀ v ∈ line.2, Plain v := by
  have kind (k : MembraneKind) : Plain (membraneKindToString k) := by cases k <;> decide
  have metric (m : MetricType) : Plain (metricToString m) := by cases m <;> decide
  have keys : Plain (ascii "name") ∧ Plain (ascii "shards") ∧ Plain (ascii "dim") ∧ Plain (ascii "kind") ∧ Plain (ascii "metric") ∧
      Plain (ascii "index_params") ∧ Plain (ascii "sync_lsn") ∧ Plain (ascii "ttl_sec") ∧ Plain (ascii "retention_max_count") ∧
      Plain (ascii "retention_max_bytes") := by decide
  have name := plain_name valid
  simp [specLines,plain_decimal,kind,metric,name,keys]

lemma parseMetric_metricToString (metric : MetricType) : parseMetric (metricToString metric) = metric := by
  cases metric <;> decide

lemma parse_typeValue (type : IndexType) :
    (if (parseU32 (decimal (typeValue type))).getD 0 = 1 then IndexType.kHnsw else .kIvfFlat) = type := by
  cases type with
  | kIvfFlat =>
    rfl
  | kHnsw =>
    rfl

def readBack (spec out : MembraneSpec) : MembraneSpec :=
  let params := spec.index_params
  {spec with
    kind := parseMembraneKind (membraneKindToString spec.kind)
    index_params := {out.index_params with
      type := params.type, nlist := params.nlist, nprobe := params.nprobe, hnsw_m := params.hnsw_m
      hnsw_ef_construction := params.hnsw_ef_construction, hnsw_ef_search := params.hnsw_ef_search}}

lemma loadMembraneManifest_written (valid : isValidName spec.name = true)
    (stored : dir.membranes.lookup spec.name = some (written (specText spec))) (out : MembraneSpec) :
    loadMembraneManifest dir spec.name out = .ok (readBack spec out) := by
  have plain := specLines_plain valid
  have text : specText spec = ascii "pomai.membrane.v3" ++ 10 :: ((specLines spec).map lineText).flatMap (· ++ [10]) := by
    rfl
  have noBreak : ∀ t ∈ (specLines spec).map lineText, 10 ∉ t := by
    intro t member
    obtain ⟨line,here,rfl⟩ := List.mem_map.mp member
    exact newline_not_mem_lineText (plain line here).1 (plain line here).2
  obtain ⟨header,lines_⟩ := linesOf_text (show 10 ∉ ascii "pomai.membrane.v3" by decide) noBreak
  have words_ (start : MembraneSpec) : ((specLines spec).map lineText).foldl (fun spec line => setWords spec (splitWs line)) start =
        (specLines spec).foldl (fun spec line => setWords spec (line.1 :: line.2)) start := by
    rw [List.foldl_map]
    refine List.foldl_ext _ _ _ fun spec line member => ?_
    rw [splitWs_lineText (plain line member).1 (plain line member).2]
  rw [loadMembraneManifest,stored,readAll_written]
  simp only [Except.bind]
  rw [text,header,if_neg (by simp),lines_,words_]
  -- Each key finds its own setter; the values it gets read back.
  simp +decide [specLines,setWords,setters,setU32,setU64,setIndexParams,parseU32_decimal,stoull_decimal,
    parseMetric_metricToString,parse_typeValue,readBack]

def Fails {α : Type} (x : Except Status α) : Prop := ∀ st, x = .error st → st ≠ .Ok

lemma Fails.bind {α β : Type} {x : Except Status α} {f : α → Except Status β} (first : Fails x) (rest : ∀ a, Fails (f a)) :
    Fails (x.bind f) := by
  intro st failed
  cases x with
  | error other =>
    cases failed
    exact first _ rfl
  | ok a => exact rest a st failed

lemma Fails.map {α β : Type} {x : Except Status α} (first : Fails x) (f : α → β) : Fails (x.map f) := by
  intro st failed
  cases x with
  | error other =>
    cases failed
    exact first _ rfl
  | ok a => cases failed

lemma rootEntry_fails : Fails (rootEntry line) := by
  intro st failed
  unfold rootEntry at failed
  split at failed
  · cases failed
  · split at failed
    · cases failed
    · split at failed
      · split at failed
        · cases failed
          decide
        · split at failed
          · cases failed
          · cases failed
            decide
      · cases failed

lemma rootEntries_fails (texts : List Bytes) : Fails (rootEntries texts) := by
  induction texts with
  | nil =>
    intro st failed
    cases failed
  | cons line texts ih => exact (rootEntry_fails line).bind fun entry => ih.map _

lemma loadRoot_fails (dir : MembraneDir) : Fails (loadRoot dir) := by
  refine Fails.bind ?_ fun content => ?_
  · intro st failed
    unfold readAll at failed
    split at failed
    · cases failed
      decide
    · split at failed
      · cases failed
        decide
      · dsimp only at failed
        split at failed
        · cases failed
          decide
        · cases failed
  · split
    · intro st failed
      cases failed
      decide
    · exact (rootEntries_fails _).map _

lemma addMembrane_ok (added : addMembrane faults dir spec entries = (next,.Ok)) :
    next = {writeMembraneManifest dir spec with root := some (written (serializeRoot (sortNames (entries ++ [spec.name]))))} := by
  unfold addMembrane at added
  split at added
  · cases added
  · split at added
    · cases added
    · split at added
      · cases added
      · dsimp only at added
        split at added
        · cases added
        · cases added
          rfl

lemma createMembrane_ok (created : createMembrane faults dir spec = (next,.Ok)) : isValidName spec.name = true ∧ ∃ dir entries,
      loadRoot dir = .ok entries ∧ addMembrane faults dir spec entries = (next,.Ok) := by
  unfold createMembrane at created
  split at created
  · cases created
  · next valid =>
    split at created
    · cases created
    · split at created
      · cases created
      · dsimp only at created
        split at created
        · split at created
          · next st failed =>
            rw [Prod.mk.injEq] at created
            exact absurd created.2 (loadRoot_fails _ st failed)
          · next entries found => exact ⟨by simpa using valid,_,entries,found,created⟩
        · next failed =>
          simp_all

lemma getMembrane_created (created : createMembrane faults dir spec = (next,.Ok)) (out : MembraneSpec) :
    getMembrane next spec.name out = .ok (readBack spec out) := by
  obtain ⟨valid,before,entries,found,added⟩ := createMembrane_ok created
  have all : ∀ name ∈ sortNames (entries ++ [spec.name]), isValidName name = true := by
    intro name member
    rcases List.mem_append.mp (mem_sortNames.mp member) with earlier | here
    · exact loadRoot_valid found name earlier
    · rw [List.mem_singleton.mp here]
      exact valid
  have root : loadRoot next = .ok (sortNames (sortNames (entries ++ [spec.name]))) := by
    rw [addMembrane_ok added]
    exact loadRoot_written rfl all
  have inside : spec.name ∈ sortNames (sortNames (entries ++ [spec.name])) := by
    rw [mem_sortNames,mem_sortNames]
    simp
  have stored : next.membranes.lookup spec.name = some (written (specText spec)) := by
    rw [addMembrane_ok added]
    exact AList.lookup_insert _
  rw [getMembrane,valid,root]
  simp only [Except.bind,Bool.not_true,Bool.false_eq_true,if_false,if_pos inside]
  exact loadMembraneManifest_written valid stored out

lemma parseMembraneKind_eq_iff (kind : MembraneKind) :
    parseMembraneKind (membraneKindToString kind) = kind ↔ kind ≠ .kAudio ∧ kind ≠ .kBloom ∧ kind ≠ .kDocument := by
  cases kind <;> decide

/-- A created membrane is read back with its settings exactly if its kind is not one of the
three without a word of their own, and the index parameters that are not written are those
of the spec that is read into. -/
theorem created_same_iff {faults : ManifestFaults} {dir next : MembraneDir} {spec : MembraneSpec}
    (created : createMembrane faults dir spec = (next,.Ok)) (out : MembraneSpec) :
    (∃ got, getMembrane next spec.name out = .ok got ∧ got.kind = spec.kind ∧ got.dim = spec.dim ∧
      got.shard_count = spec.shard_count ∧ got.metric = spec.metric ∧ got.index_params = spec.index_params ∧
      got.ttl_sec = spec.ttl_sec ∧ got.retention_max_count = spec.retention_max_count ∧
      got.retention_max_bytes = spec.retention_max_bytes) ↔
      (spec.kind ≠ .kAudio ∧ spec.kind ≠ .kBloom ∧ spec.kind ≠ .kDocument) ∧
        spec.index_params.adaptive_threshold = out.index_params.adaptive_threshold ∧
        spec.index_params.quant_type = out.index_params.quant_type ∧ spec.index_params.pq_m = out.index_params.pq_m ∧
        spec.index_params.hnsw_no_vector_pool = out.index_params.hnsw_no_vector_pool := by
  rw [getMembrane_created created out,← parseMembraneKind_eq_iff]
  constructor
  · grind [readBack,Options.IndexParams.mk.injEq]
  · rintro ⟨kind,threshold,quant,pq,pool⟩
    refine ⟨_,rfl,kind,rfl,rfl,rfl,?_,rfl,rfl,rfl⟩
    simp only [readBack,← threshold,← quant,← pq,← pool]

def grown : MembraneDir := (createMembrane {} {} {name := ascii "a", shard_count := 1, dim := 3}).1
def policy : MembraneSpec :=
  {name := ascii "g-1", shard_count := 2, dim := 8, kind := .kGraph, metric := .kCosine, ttl_sec := 60, retention_max_bytes := 2 ^ 40}

theorem created_same_graph : ∃ got, getMembrane (createMembrane {} grown policy).1 policy.name {} = .ok got ∧
    got.kind = .kGraph ∧ got.retention_max_bytes = policy.retention_max_bytes := by
  have ok : (createMembrane {} grown policy).2 = .Ok := by decide +kernel
  have created : createMembrane {} grown policy = ((createMembrane {} grown policy).1,.Ok) :=
    Prod.mk.eta.symm.trans (congrArg (Prod.mk _) ok)
  obtain ⟨got,found,kind,_,_,_,_,_,_,bytes⟩ :=
    (created_same_iff created {}).mpr ⟨by decide,rfl,rfl,rfl,rfl⟩
  exact ⟨got,found,kind,bytes⟩

/-- A document membrane is read back as a vector membrane, and a product quantization is lost. -/
theorem created_changed : (createMembrane {} {} {name := ascii "d", shard_count := 1, kind := .kDocument}).2 = .Ok ∧
      (getMembrane (createMembrane {} {} {name := ascii "d", shard_count := 1, kind := .kDocument}).1 (ascii "d") {}).toOption.map
        MembraneSpec.kind = some .kVector ∧
      (getMembrane (createMembrane {} {} {name := ascii "v", shard_count := 1, dim := 8, index_params := {quant_type := .kPq8}}).1
        (ascii "v") {}).toOption.map (fun got => got.index_params.quant_type) = some .kNone := by
  decide +kernel

end MembraneManifest
end PomaiCache
