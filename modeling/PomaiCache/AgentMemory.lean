import PomaiCache.Basic
import PomaiCache.Escape
import PomaiCache.Text

/-!
The records of the agent memory. A record is kept as the tenant of a vector: its fields in a
text with separators, in which separators and backslashes are escaped.
-/
namespace PomaiCache
open Codec Text Escape List Option

inductive AgentMemoryKind
  | kMessage | kSummary | kKnowledge
  deriving DecidableEq, Repr

structure AgentMemoryRecord where
  agent_id : Bytes := []
  session_id : Bytes := []
  kind : AgentMemoryKind := .kMessage
  logical_ts : Int64 := 0
  text : Bytes := []
  embedding : Vec := []
  deriving DecidableEq, Repr

namespace AgentMemory

def backslash : UInt8 := 92
def bar : UInt8 := 124

def escapeField (s : Bytes) : Bytes := escape backslash bar s
def unescapeField (s : Bytes) : Option Bytes := unescape backslash false s

def encodeKind : AgentMemoryKind → Bytes
  | .kMessage => ascii "message"
  | .kSummary => ascii "summary"
  | .kKnowledge => ascii "knowledge"

def toString (n : Int) : Bytes := if n < 0 then 45 :: decimal n.natAbs else decimal n.natAbs

/-- `std::from_chars` into a signed number of 64 bits: the digits the text starts with, unless
there are none or the number does not fit. -/
def fromChars (text : Bytes) : Option Int64 :=
  let negative := text.head? == some 45
  let digits := (if negative then text.drop 1 else text).takeWhile isDigit
  let n : Int := if negative then -digitsValue digits else digitsValue digits
  if digits = [] then none else if -2 ^ 63 ≤ n ∧ n < 2 ^ 63 then some (Int64.ofInt n) else none

def encodeMetadata (record : AgentMemoryRecord) : Bytes :=
  ascii "am|" ++ (ascii "agent=" ++ (escapeField record.agent_id ++ bar ::
    (ascii "session=" ++ (escapeField record.session_id ++ bar :: (ascii "kind=" ++ (encodeKind record.kind ++ bar ::
        (ascii "ts=" ++ (toString record.logical_ts.toInt ++ bar :: (ascii "text=" ++ escapeField record.text)))))))))

/-- What a key and its value set. Other keys, kinds and times are passed over. -/
def setField (record : AgentMemoryRecord) (key value : Bytes) : AgentMemoryRecord :=
  if key = ascii "agent" then {record with agent_id := value}
  else if key = ascii "session" then {record with session_id := value}
  else if key = ascii "kind" then
    if value = ascii "message" then {record with kind := .kMessage}
    else if value = ascii "summary" then {record with kind := .kSummary}
    else if value = ascii "knowledge" then {record with kind := .kKnowledge}
    else record
  else if key = ascii "ts" then {record with logical_ts := (fromChars value).getD record.logical_ts}
  else if key = ascii "text" then {record with text := value}
  else record

/-- `flush_field`, which refuses a field without an equals sign, and one whose key or value
ends in a backslash. -/
def flushField (record : AgentMemoryRecord) (field : Bytes) : Option AgentMemoryRecord :=
  if field = [] then some record
  else (cut (ascii "=") field).bind fun (k,v) =>
    (unescapeField k).bind fun key =>
      (unescapeField v).map fun value => setField record key value

def parseEncodedMetadata (encoded : Bytes) : Option AgentMemoryRecord :=
  if ascii "am|" <+: encoded then scan backslash bar flushField false [] {} (encoded.drop 3) else none

def decodeMetadata (encoded : Bytes) : Option AgentMemoryRecord := parseEncodedMetadata encoded

lemma toString_digits (n : Int) : ∀ b ∈ toString n, b = 45 ∨ isDigit b = true := by
  grind [toString,isDigit_decimal]

lemma fromChars_toString (ts : Int64) : fromChars (toString ts.toInt) = some ts := by
  have low := ts.le_toInt
  have high := ts.toInt_lt
  have whole (n : Nat) : (decimal n).takeWhile isDigit = decimal n := takeWhile_eq_self_iff.mpr (isDigit_decimal n)
  by_cases negative : ts.toInt < 0
  · have value : -(ts.toInt.natAbs : Int) = ts.toInt := by omega
    rw [toString,if_pos negative]
    simp only [fromChars,List.head?_cons,beq_self_eq_true,if_true,drop_one,tail_cons,whole,digitsValue_decimal,
      decimal_ne_nil,if_false,value]
    rw [if_pos ⟨low,high⟩,Int64.ofInt_toInt]
  · have value : (ts.toInt.natAbs : Int) = ts.toInt := by omega
    have sign : ((decimal ts.toInt.natAbs).head? == some 45) = false := by
      cases first : (decimal ts.toInt.natAbs).head? with
      | none => rfl
      | some b =>
        have digit := isDigit_decimal _ b (mem_of_head? first)
        by_contra same
        simp only [Bool.not_eq_false,beq_iff_eq,some_inj] at same
        subst same
        exact absurd digit (by decide)
    rw [toString,if_neg negative]
    simp only [fromChars,sign,Bool.false_eq_true,if_false,whole,digitsValue_decimal,decimal_ne_nil,value]
    rw [if_pos ⟨low,high⟩,Int64.ofInt_toInt]

lemma flushField_field {key : Bytes} (plain : 61 ∉ key ∧ backslash ∉ key) (record : AgentMemoryRecord) (v : Bytes) :
    flushField record (key ++ 61 :: v) = (unescapeField v).map fun value => setField record key value := by
  have apart : cut (ascii "=") (key ++ 61 :: v) = some (key,v) := cut_mark plain.1 v
  have key_ : unescapeField key = some key := unescape_plain plain.2
  rw [flushField,if_neg (by simp),apart]
  simp [key_]

section Fields
variable (record : AgentMemoryRecord) (v rest : Bytes)

lemma scan_written {key : Bytes} (plain : 61 ∉ key ∧ backslash ∉ key ∧ bar ∉ key) :
    scan backslash bar flushField false [] record (key ++ 61 :: (escapeField v ++ bar :: rest)) =
      ((unescapeField v).map fun value => setField record key value).bind fun record =>
        scan backslash bar flushField false [] record rest := by
  have name : escape backslash bar (key ++ [61]) = key ++ [61] := escape_plain (by simp [plain]; decide)
  have written : key ++ 61 :: (escapeField v ++ bar :: rest) = escape backslash bar (key ++ 61 :: v) ++ bar :: rest := by
    have whole : key ++ 61 :: v = (key ++ [61]) ++ v := by simp
    rw [whole,escape_append,name,escapeField]
    simp
  rw [written,scan_field (by decide),flushField_field ⟨plain.1,plain.2.1⟩]

lemma scan_written_last {key : Bytes} (plain : 61 ∉ key ∧ backslash ∉ key ∧ bar ∉ key) :
    scan backslash bar flushField false [] record (key ++ 61 :: escapeField v) =
      (unescapeField v).map fun value => setField record key value := by
  have name : escape backslash bar (key ++ [61]) = key ++ [61] := escape_plain (by simp [plain]; decide)
  have written : key ++ 61 :: escapeField v = escape backslash bar (key ++ 61 :: v) := by
    have whole : key ++ 61 :: v = (key ++ [61]) ++ v := by simp
    rw [whole,escape_append,name,escapeField]
    simp
  rw [written,scan_last _ _ (by simp),flushField_field ⟨plain.1,plain.2.1⟩]

end Fields

lemma plain_kind (kind : AgentMemoryKind) : backslash ∉ encodeKind kind ∧ bar ∉ encodeKind kind := by
  cases kind <;> decide

lemma plain_toString (n : Int) : backslash ∉ toString n ∧ bar ∉ toString n := by
  constructor <;> intro member <;> rcases toString_digits n _ member with same | digit
  · exact absurd same (by decide)
  · exact absurd digit (by decide)
  · exact absurd same (by decide)
  · exact absurd digit (by decide)

section Keys
variable (record : AgentMemoryRecord) (v : Bytes)

lemma setField_agent : setField record (ascii "agent") v = {record with agent_id := v} := if_pos rfl

lemma setField_session : setField record (ascii "session") v = {record with session_id := v} := by
  rw [setField,if_neg (by decide),if_pos rfl]

lemma setField_kind (kind : AgentMemoryKind) : setField record (ascii "kind") (encodeKind kind) = {record with kind := kind} := by
  rw [setField,if_neg (by decide),if_neg (by decide),if_pos rfl]
  cases kind with
  | kMessage => exact if_pos rfl
  | kSummary => exact (if_neg (by decide)).trans (if_pos rfl)
  | kKnowledge => exact (if_neg (by decide)).trans ((if_neg (by decide)).trans (if_pos rfl))

lemma setField_ts (ts : Int64) : setField record (ascii "ts") (toString ts.toInt) = {record with logical_ts := ts} := by
  rw [setField,if_neg (by decide),if_neg (by decide),if_neg (by decide),if_pos rfl,fromChars_toString,getD_some]

lemma setField_text : setField record (ascii "text") v = {record with text := v} := by
  rfl

end Keys

lemma names : ascii "agent=" = ascii "agent" ++ [61] ∧ ascii "session=" = ascii "session" ++ [61] ∧
    ascii "kind=" = ascii "kind" ++ [61] ∧ ascii "ts=" = ascii "ts" ++ [61] ∧ ascii "text=" = ascii "text" ++ [61] := by decide

lemma decode_encode (r : AgentMemoryRecord) : decodeMetadata (encodeMetadata r) =
    (unescapeField r.agent_id).bind fun agent => (unescapeField r.session_id).bind fun session =>
      (unescapeField r.text).map fun text =>
        {agent_id := agent, session_id := session, kind := r.kind, logical_ts := r.logical_ts, text := text} := by
  have kind : escapeField (encodeKind r.kind) = encodeKind r.kind := escape_plain (plain_kind _)
  have ts : escapeField (toString r.logical_ts.toInt) = toString r.logical_ts.toInt := escape_plain (plain_toString _)
  have kind_ : unescapeField (encodeKind r.kind) = some (encodeKind r.kind) := unescape_plain (plain_kind _).1
  have ts_ : unescapeField (toString r.logical_ts.toInt) = some (toString r.logical_ts.toInt) := unescape_plain (plain_toString _).1
  obtain ⟨agent,session,kindName,tsName,text⟩ := names
  rw [decodeMetadata,parseEncodedMetadata,encodeMetadata,if_pos (prefix_append ..),drop_left' (by decide),← kind,← ts,
    agent,session,kindName,tsName,text]
  simp only [append_assoc,singleton_append]
  rw [scan_written _ _ _ (by decide),bind_map]
  congr 1
  funext a
  simp only [Function.comp_apply,setField_agent]
  rw [scan_written _ _ _ (by decide),bind_map]
  congr 1
  funext b
  simp only [Function.comp_apply,setField_session]
  rw [scan_written _ _ _ (by decide),kind_,map_some,bind_some,setField_kind,scan_written _ _ _ (by decide),ts_,
    map_some,bind_some,setField_ts,scan_written_last _ _ (by decide)]
  simp only [setField_text]

/-- A record is read back as it was written exactly if its texts have no backslash. -/
theorem decode_encode_same_iff (r : AgentMemoryRecord) :
    (∃ out, decodeMetadata (encodeMetadata r) = some out ∧ out.agent_id = r.agent_id ∧ out.session_id = r.session_id ∧
      out.kind = r.kind ∧ out.logical_ts = r.logical_ts ∧ out.text = r.text) ↔
      backslash ∉ r.agent_id ∧ backslash ∉ r.session_id ∧ backslash ∉ r.text := by
  have same (s : Bytes) : unescapeField s = some s ↔ backslash ∉ s := unescape_eq_self_iff
  rw [decode_encode,← same,← same,← same]
  constructor
  · rintro ⟨out,decoded,agent,session,-,-,text⟩
    obtain ⟨a,first,decoded⟩ := bind_eq_some_iff.mp decoded
    obtain ⟨b,second,decoded⟩ := bind_eq_some_iff.mp decoded
    obtain ⟨c,third,rfl⟩ := map_eq_some_iff.mp decoded
    grind
  · grind

/-- A backslash in a text is lost, and one at the end makes the record unreadable. -/
theorem decode_encode_loses :
    (decodeMetadata (encodeMetadata {agent_id := ascii "a", text := [67,58,92,116]})).map AgentMemoryRecord.text = some [67,58,116] ∧
      decodeMetadata (encodeMetadata {agent_id := ascii "a", text := [67,58,92]}) = none := by
  decide +kernel

end AgentMemory
end PomaiCache
