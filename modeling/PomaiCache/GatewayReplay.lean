import PomaiCache.GatewayRequests
import PomaiCache.Json
import PomaiCache.KeyValue

/-!
Events for a replica. An accepted write is sent upstream as a JSON object, and a replica that
gets it makes the write again.
-/
namespace PomaiCache
open Codec RecordLog Text Json List

variable (b : UInt8)

def escapeByte : Bytes :=
  if b = 34 then [92,34]
  else if b = 92 then [92,92]
  else if b = 10 then [92,110]
  else if b = 13 then []
  else if b < 32 then [32]
  else [b]

variable (s : Bytes)

def jsonEscapeMembraneField : Bytes := s.flatMap escapeByte

variable (ev : SyncEvent)

/-- The object that `ProcessSync` builds of an event. -/
def SyncEvent.payload : Bytes :=
  ascii "\x7b\"schema_version\":1,\"seq\":" ++ decimal ev.seq.toNat ++
  ascii ",\"type\":\"" ++ jsonEscapeMembraneField ev.type ++
  ascii "\",\"membrane\":\"" ++ jsonEscapeMembraneField ev.membrane ++
  ascii "\",\"id\":" ++ decimal ev.id.toNat ++
  ascii ",\"id2\":" ++ decimal ev.id2.toNat ++
  ascii ",\"u32_a\":" ++ decimal ev.u32_a.toNat ++
  ascii ",\"u32_b\":" ++ decimal ev.u32_b.toNat ++
  ascii ",\"aux_k\":\"" ++ jsonEscapeMembraneField ev.aux_k ++
  ascii "\",\"aux_v\":\"" ++ jsonEscapeMembraneField ev.aux_v ++
  ascii "\"\x7d"

def cleanByte : Bytes :=
  if b = 13 then [] else if b < 32 ∧ b ≠ 10 then [32] else [b]

def clean : Bytes := s.flatMap cleanByte

def Printable : Prop := ∀ b ∈ s, 32 ≤ b ∨ b = 10

instance (s : Bytes) : Decidable (Printable s) := List.decidableBAll (fun b => 32 ≤ b ∨ b = 10) s

lemma clean_cons (s : Bytes) : clean (b :: s) = cleanByte b ++ clean s := rfl

lemma cleanByte_short : ∀ b : UInt8, (cleanByte b).length ≤ 1 := by
  intro b
  unfold cleanByte
  split_ifs <;> simp

lemma length_clean_le : (clean s).length ≤ s.length := by
  induction s with
  | nil => exact Nat.le_refl _
  | cons b s ih =>
    have one := cleanByte_short b
    rw [clean_cons,length_append,length_cons]
    omega

lemma cleanByte_eq_iff : cleanByte b = [b] ↔ 32 ≤ b ∨ b = 10 := by
  unfold cleanByte
  grind

lemma clean_eq_iff : clean s = s ↔ Printable s := by
  induction s with
  | nil => simp [clean,Printable]
  | cons b s ih =>
    have shape : Printable (b :: s) ↔ (32 ≤ b ∨ b = 10) ∧ Printable s := by simp [Printable]
    rw [shape,clean_cons,← ih,← cleanByte_eq_iff]
    constructor
    · intro same
      have one := cleanByte_short b
      have rest := length_clean_le s
      have total := congrArg List.length same
      grind [length_append,length_cons,cleanByte]
    · rintro ⟨first,rest⟩
      rw [first,rest]
      rfl

lemma readString_escapeByte (text : Bytes) :
    readString (escapeByte b ++ text) = (readString text).map fun p => (cleanByte b ++ p.1,p.2) := by
  unfold escapeByte cleanByte
  by_cases quote : b = 34
  · subst quote
    exact readString_escape rfl text
  by_cases slash : b = 92
  · subst slash
    exact readString_escape rfl text
  by_cases feed : b = 10
  · subst feed
    exact readString_escape rfl text
  by_cases return_ : b = 13
  · subst return_
    simp
  by_cases low : b < 32
  · simp only [quote,slash,feed,return_,low,if_false,if_true,ne_eq,not_false_eq_true,and_self]
    exact readString_visible (by decide) (by decide) (by decide) text
  · simp only [quote,slash,feed,return_,low,if_false,false_and]
    exact readString_visible quote slash (UInt8.not_lt.mp low) text

lemma readString_jsonEscapeMembraneField (s rest : Bytes) :
    readString (jsonEscapeMembraneField s ++ 34 :: rest) = some (clean s,rest) := by
  induction s with
  | nil => exact readString_quote rest
  | cons b s ih =>
    grind [jsonEscapeMembraneField,escapeByte,readString_escapeByte,clean_cons]

def numberMember (name : Bytes) (plain : Plain name) (n : Nat) : Member := ⟨name,decimal n,.num n,plain,spells_decimal n⟩

def stringMember (name : Bytes) (plain : Plain name) (s : Bytes) : Member :=
  ⟨name,34 :: (jsonEscapeMembraneField s ++ [34]),.str (clean s),plain,spells_string (readString_jsonEscapeMembraneField s)⟩

def SyncEvent.members : List Member :=
  [numberMember (ascii "schema_version") (by decide +kernel) 1,numberMember (ascii "seq") (by decide +kernel) ev.seq.toNat,
    stringMember (ascii "type") (by decide +kernel) ev.type,stringMember (ascii "membrane") (by decide +kernel) ev.membrane,
    numberMember (ascii "id") (by decide +kernel) ev.id.toNat,numberMember (ascii "id2") (by decide +kernel) ev.id2.toNat,
    numberMember (ascii "u32_a") (by decide +kernel) ev.u32_a.toNat,numberMember (ascii "u32_b") (by decide +kernel) ev.u32_b.toNat,
    stringMember (ascii "aux_k") (by decide +kernel) ev.aux_k,stringMember (ascii "aux_v") (by decide +kernel) ev.aux_v]

lemma payload_eq : ev.payload = 123 :: Member.printAll ev.members := by
  have first : ascii "\x7b\"schema_version\":1,\"seq\":" =
      123 :: 34 :: (ascii "schema_version" ++ 34 :: 58 :: (decimal 1 ++ 44 :: 34 :: (ascii "seq" ++ [34,58]))) := by decide +kernel
  have type : ascii ",\"type\":\"" = 44 :: 34 :: (ascii "type" ++ [34,58,34]) := by decide +kernel
  have membrane : ascii "\",\"membrane\":\"" = 34 :: 44 :: 34 :: (ascii "membrane" ++ [34,58,34]) := by decide +kernel
  have id : ascii "\",\"id\":" = 34 :: 44 :: 34 :: (ascii "id" ++ [34,58]) := by decide +kernel
  have id2 : ascii ",\"id2\":" = 44 :: 34 :: (ascii "id2" ++ [34,58]) := by decide +kernel
  have u32_a : ascii ",\"u32_a\":" = 44 :: 34 :: (ascii "u32_a" ++ [34,58]) := by decide +kernel
  have u32_b : ascii ",\"u32_b\":" = 44 :: 34 :: (ascii "u32_b" ++ [34,58]) := by decide +kernel
  have aux_k : ascii ",\"aux_k\":\"" = 44 :: 34 :: (ascii "aux_k" ++ [34,58,34]) := by decide +kernel
  have aux_v : ascii "\",\"aux_v\":\"" = 34 :: 44 :: 34 :: (ascii "aux_v" ++ [34,58,34]) := by decide +kernel
  have last : ascii "\"\x7d" = [34,125] := by decide +kernel
  delta SyncEvent.payload
  simp [first,type,membrane,id,id2,u32_a,u32_b,aux_k,aux_v,last,SyncEvent.members,Member.printAll,Member.print,numberMember,stringMember]

variable (fields : List (Bytes × JsonValue))

def stringField (name : Bytes) : Option Bytes :=
  match fields.lookup name with
  | some (.str s) => some s
  | _ => none

def numberField (name : Bytes) : Option Nat :=
  match fields.lookup name with
  | some (.num n) => some n
  | _ => none

def decodeEvent (text : Bytes) : Option SyncEvent := do
  let fields ← decode text
  let seq ← numberField fields (ascii "seq")
  let type ← stringField fields (ascii "type")
  let membrane ← stringField fields (ascii "membrane")
  let id ← numberField fields (ascii "id")
  let id2 ← numberField fields (ascii "id2")
  let u32_a ← numberField fields (ascii "u32_a")
  let u32_b ← numberField fields (ascii "u32_b")
  let aux_k ← stringField fields (ascii "aux_k")
  let aux_v ← stringField fields (ascii "aux_v")
  return ⟨UInt64.ofNat seq,type,membrane,UInt64.ofNat id,UInt64.ofNat id2,UInt32.ofNat u32_a,UInt32.ofNat u32_b,aux_k,aux_v⟩

def SyncEvent.cleaned : SyncEvent :=
  {ev with type := clean ev.type, membrane := clean ev.membrane, aux_k := clean ev.aux_k, aux_v := clean ev.aux_v}

lemma decodeEvent_payload : decodeEvent ev.payload = some ev.cleaned := by
  have fields : decode ev.payload = some (ev.members.map fun m => (m.name,m.value)) := by
    rw [payload_eq]
    exact Member.decode_printAll (by simp [SyncEvent.members])
  have arrived : decodeEvent ev.payload = some ⟨UInt64.ofNat ev.seq.toNat,clean ev.type,clean ev.membrane,UInt64.ofNat ev.id.toNat,
      UInt64.ofNat ev.id2.toNat,UInt32.ofNat ev.u32_a.toNat,UInt32.ofNat ev.u32_b.toNat,clean ev.aux_k,clean ev.aux_v⟩ := by
    rw [decodeEvent,fields]
    rfl
  rw [arrived]
  simp [SyncEvent.cleaned]

/-- `ParseCsvFloatsReplay` and `ParseCsvUint32Replay`: tokens are trimmed, and one that is
blank spoils the whole list. -/
def parseCsvReplay {α : Type} (value : Bytes → α) (s : Bytes) : Option (List α) :=
  let toks := ((lines 44).all s).map trim
  if toks = [] ∨ [] ∈ toks then none else some (toks.map value)

def Libc.uint32 (tok : Bytes) : UInt32 := (strtoul32 tok).getD 0

def replayCsv {α : Type} (value : Bytes → α) (refusal : String) (call : List α → ManagerCall) (s : Bytes) : Except Status ManagerCall :=
  match parseCsvReplay value s with
  | none => .error (.invalidArgument refusal)
  | some v => .ok (call v)

/-- `ReplayGatewaySyncEvent`, up to the call it makes. -/
def replayGatewaySyncEvent (libc : Libc) (ev : SyncEvent) : Except Status ManagerCall :=
  if ev.type = ascii "meta_put" then .ok (.metaPut ev.membrane ev.aux_k ev.aux_v)
  else if ev.type = ascii "kv_put" then .ok (.kvPut ev.membrane ev.aux_k ev.aux_v)
  else if ev.type = ascii "document_put" then .ok (.documentPut ev.membrane ev.id ev.aux_v)
  else if ev.type = ascii "graph_vertex_put" then .ok (.addVertex ev.membrane ev.id ev.u32_a)
  else if ev.type = ascii "graph_edge_put" then .ok (.addEdge ev.membrane ev.id ev.id2 ev.u32_a ev.u32_b)
  else if ev.type = ascii "timeseries_put" then
    match libc.strtod ev.aux_v with
    | none => .error (.invalidArgument "timeseries replay: bad value")
    | some v => .ok (.tsPut ev.membrane ev.id ev.id2 v)
  else if ev.type = ascii "vector_put" then
    replayCsv libc.float "vector replay: empty vector" (.putVector ev.membrane ev.id) ev.aux_v
  else if ev.type = ascii "mesh_put" then
    replayCsv libc.float "mesh replay: bad vertices" (.meshPut ev.membrane ev.id) ev.aux_v
  else if ev.type = ascii "audio_put" then
    replayCsv libc.float "audio replay: bad embedding" (.audioPut ev.membrane ev.id ev.id2) ev.aux_v
  else if ev.type = ascii "rag_chunk_put" then
    replayCsv Libc.uint32 "rag replay: bad tokens" (.putChunk ev.membrane ev.id ev.id2) ev.aux_v
  else .error (.invalidArgument ("replay: unknown type " ++ String.ofList (ev.type.map fun b => .ofNat b.toNat)))

/-- A replica decodes the payload and makes the call; a payload that is no event changes nothing. -/
def Manager.replay {σ : Type} (mgr : Manager σ) (libc : Libc) (s : σ) (text : Bytes) : σ × Status :=
  match decodeEvent text with
  | none => (s,.invalidArgument "not an event")
  | some ev =>
    match replayGatewaySyncEvent libc ev with
    | .error st => (s,st)
    | .ok call => mgr.call s call

lemma clean_append (left right : Bytes) : clean (left ++ right) = clean left ++ clean right := flatMap_append ..

lemma comma_not_mem_clean {s : Bytes} (plain : (44 : UInt8) ∉ s) : (44 : UInt8) ∉ clean s := by
  intro member
  obtain ⟨b,inside,made⟩ := mem_flatMap.mp member
  grind [cleanByte]

/-- The escapes keep the commas, so they act on each token. Only a last token can vanish, and
then it is not empty to begin with. -/
lemma lines_clean (text : Bytes) : (lines 44).all (clean text) = ((lines 44).all text).map clean ∨
      ∃ toks last, (lines 44).all text = toks ++ [last] ∧ last ≠ [] ∧ clean last = [] ∧
        (lines 44).all (clean text) = toks.map clean := by
  induction size : text.length using Nat.strong_induction_on generalizing text with
  | _ size ih =>
    by_cases broken : (44 : UInt8) ∈ text
    · obtain ⟨tok,rest,rfl,plain⟩ := eq_append_cons_of_mem broken
      have raw : (lines 44).all (tok ++ 44 :: rest) = tok :: (lines 44).all rest := (lines 44).all_next (getline_mark plain rest)
      have cleaned : (lines 44).all (clean (tok ++ 44 :: rest)) = clean tok :: (lines 44).all (clean rest) := by
        rw [clean_append]
        exact (lines 44).all_next (getline_mark (comma_not_mem_clean plain) (clean rest))
      rcases ih rest.length (by rw [← size]; simp; omega) rest rfl with same | ⟨toks,last,split_,some_,gone,same⟩
      · exact .inl (by rw [raw,cleaned,same]; rfl)
      · exact .inr ⟨tok :: toks,last,by rw [raw,split_]; rfl,some_,gone,by rw [cleaned,same]; rfl⟩
    · by_cases empty : text = []
      · subst empty
        exact .inl rfl
      · have raw : (lines 44).all text = [text] := by
          rw [(lines 44).all_next (getline_last broken empty),Reader.all_nil]
        by_cases gone : clean text = []
        · exact .inr ⟨[],text,raw,empty,gone,by rw [gone]; rfl⟩
        · have cleaned : (lines 44).all (clean text) = [clean text] := by
            rw [(lines 44).all_next (getline_last (comma_not_mem_clean broken) gone),Reader.all_nil]
          exact .inl (by rw [raw,cleaned]; rfl)

/-- Every token, cleaned and trimmed, is there and is read as the token is. -/
def Spelled {α : Type} (value : Bytes → α) (body : Bytes) : Prop :=
  ∀ tok ∈ (lines 44).all body, trim (clean tok) ≠ [] ∧ value (trim (clean tok)) = value tok

instance {α : Type} [DecidableEq α] (value : Bytes → α) (body : Bytes) : Decidable (Spelled value body) :=
  inferInstanceAs (Decidable (∀ tok ∈ (lines 44).all body, _))

lemma parseCsvReplay_clean_iff {α : Type} {value : Bytes → α} {body : Bytes} {v : List α}
    (some_ : (lines 44).all body ≠ []) (agrees : (∀ tok ∈ (lines 44).all body, tok ≠ []) → v = ((lines 44).all body).map value) :
    parseCsvReplay value (clean body) = some v ↔ Spelled value body := by
  have blank : trim (clean []) = [] := rfl
  constructor
  · intro parsed
    unfold parseCsvReplay at parsed
    dsimp only at parsed
    split at parsed
    · cases parsed
    · next good =>
      rw [not_or] at good
      have list := Option.some_inj.mp parsed
      rcases lines_clean body with same | ⟨toks,last,split_,present,_,same⟩
      · rw [same,map_map] at good list
        have there : ∀ tok ∈ (lines 44).all body, trim (clean tok) ≠ [] := fun tok member gone =>
          good.2 (mem_map.mpr ⟨tok,member,gone⟩)
        have raw : ∀ tok ∈ (lines 44).all body, tok ≠ [] := fun tok member empty => there tok member (by rw [empty]; exact blank)
        rw [agrees raw,map_map] at list
        intro tok member
        exact ⟨there tok member,map_inj_left.mp list tok member⟩
      · -- a token that vanished makes the list of the replica shorter
        rw [same,map_map] at good list
        have raw : ∀ tok ∈ (lines 44).all body, tok ≠ [] := by
          grind
        have length := congrArg List.length list
        rw [agrees raw,split_] at length
        simp at length
  · intro spelled
    have raw : ∀ tok ∈ (lines 44).all body, tok ≠ [] := fun tok member empty =>
      (spelled tok member).1 (by rw [empty]; exact blank)
    have same : (lines 44).all (clean body) = ((lines 44).all body).map clean := by
      rcases lines_clean body with same | ⟨toks,last,split_,_,gone,_⟩
      · exact same
      · exact absurd (by rw [gone]; rfl) (spelled last (by rw [split_]; simp)).1
    have good : ¬((((lines 44).all body).map clean).map trim = [] ∨ [] ∈ (((lines 44).all body).map clean).map trim) := by
      rintro (none_ | vanished)
      · exact some_ (by simpa using none_)
      · obtain ⟨tok,member,gone⟩ := mem_map.mp (by rwa [map_map] at vanished)
        exact (spelled tok member).1 gone
    rw [parseCsvReplay,same,if_neg good,agrees raw,map_map,map_map]
    exact congrArg some (map_congr_left fun tok member => (spelled tok member).2)

/-! ### Which writes are reproduced -/

/-- The write comes through: its names and its text have no control bytes except line feeds,
and its list of numbers is spelled. -/
def Carried (libc : Libc) (body : Bytes) : ManagerCall → Prop
  | .metaPut membrane gid _ => Printable membrane ∧ Printable gid ∧ Printable body
  | .kvPut membrane key _ => Printable membrane ∧ Printable key ∧ Printable body
  | .documentPut membrane _ _ => Printable membrane ∧ Printable body
  | .putVector membrane _ _ => Printable membrane ∧ Spelled libc.float body
  | .meshPut membrane _ _ => Printable membrane ∧ Spelled libc.float body
  | .audioPut membrane _ _ _ => Printable membrane ∧ Spelled libc.float body
  | .putChunk membrane _ _ _ => Printable membrane ∧ Spelled Libc.uint32 body
  | .tsPut membrane _ _ _ => Printable membrane ∧ libc.strtod (clean body) = libc.strtod body
  | .addVertex membrane _ _ => Printable membrane
  | .addEdge membrane _ _ _ _ => Printable membrane

lemma mapM_values {α : Type} {convert : Bytes → Option α} {value : Bytes → α} (converts : ∀ {tok x}, convert tok = some x → value tok = x)
    {toks : List Bytes} {v : List α} (all : toks.mapM convert = some v) : toks.map value = v := by
  induction toks generalizing v with
  | nil =>
    cases all
    rfl
  | cons tok toks ih =>
    rw [mapM_cons] at all
    obtain ⟨x,first,rest⟩ := Option.bind_eq_some_iff.mp all
    obtain ⟨xs,later,same⟩ := Option.bind_eq_some_iff.mp rest
    cases same
    rw [map_cons,converts first,ih later]

lemma parseCsv_agrees {α : Type} {convert : Bytes → Option α} {value : Bytes → α} {body : Bytes} {v : List α}
    (converts : ∀ {tok x}, convert tok = some x → value tok = x) (parsed : parseCsv convert body = some v) :
    (lines 44).all body ≠ [] ∧ ((∀ tok ∈ (lines 44).all body, tok ≠ []) → v = ((lines 44).all body).map value) := by
  unfold parseCsv at parsed
  split at parsed
  · next first rest all =>
    cases parsed
    constructor
    · intro none_
      rw [none_] at all
      cases all
    · intro raw
      have kept : ((lines 44).all body).filter (!·.isEmpty) = (lines 44).all body := by
        apply filter_eq_self.mpr
        intro tok member
        simpa using raw tok member
      rw [kept] at all
      exact (mapM_values converts all).symm
  · cases parsed

lemma replayCsv_iff {α : Type} {value : Bytes → α} {body membrane : Bytes} {v : List α} {refusal : String}
    (call : Bytes → List α → ManagerCall) (inj : ∀ {m m' x x'}, call m x = call m' x' ↔ m = m' ∧ x = x')
    (list : (lines 44).all body ≠ [] ∧ ((∀ tok ∈ (lines 44).all body, tok ≠ []) → v = ((lines 44).all body).map value)) :
    replayCsv value refusal (call (clean membrane)) (clean body) = .ok (call membrane v) ↔ Printable membrane ∧ Spelled value body := by
  rw [← parseCsvReplay_clean_iff list.1 list.2,← clean_eq_iff,replayCsv]
  grind

lemma float_agrees {libc : Libc} {body : Bytes} {v : Vec} (parsed : parseCsvFloats libc body = some v) :
    (lines 44).all body ≠ [] ∧ ((∀ tok ∈ (lines 44).all body, tok ≠ []) → v = ((lines 44).all body).map libc.float) := by
  apply parseCsv_agrees ?_ parsed
  intro tok x converted
  obtain ⟨d,read,rfl⟩ := Option.map_eq_some_iff.mp converted
  rw [Libc.float,read]
  rfl

lemma uint32_agrees {body : Bytes} {v : List UInt32} (parsed : parseCsvUint32 body = some v) :
    (lines 44).all body ≠ [] ∧ ((∀ tok ∈ (lines 44).all body, tok ≠ []) → v = ((lines 44).all body).map Libc.uint32) := by
  apply parseCsv_agrees ?_ parsed
  intro tok x converted
  rw [Libc.uint32,converted]
  rfl

/-- The call that the replica makes is the call of the gateway exactly when the write comes
through. -/
lemma replayGatewaySyncEvent_iff {libc : Libc} {body : Bytes} {ingest : Ingest} (formed : ingest.Formed libc body) (seq : UInt64) :
    replayGatewaySyncEvent libc ({ingest.event with seq := seq} : SyncEvent).cleaned = .ok ingest.call ↔
      Carried libc body ingest.call := by
  -- the type of each event is compared with the literals of the source
  cases formed with
  | meta_ membrane gid =>
    show Except.ok (ManagerCall.metaPut (clean membrane) (clean gid) (clean body)) = .ok _ ↔ _
    simp [Carried,← clean_eq_iff]
  | vector membrane id some_ =>
    show replayCsv libc.float "vector replay: empty vector" (.putVector (clean membrane) id) (clean body) = _ ↔ _
    have list : vectorTokens libc body = ((lines 44).all body).map libc.float := rfl
    exact replayCsv_iff (fun m v => .putVector m id v) (by simp) ⟨by simpa [list] using some_,fun _ => list⟩
  | graphVertex membrane vid tag =>
    show Except.ok (ManagerCall.addVertex (clean membrane) vid tag) = .ok _ ↔ _
    simp [Carried,← clean_eq_iff]
  | graphEdge membrane src dst type rank =>
    show Except.ok (ManagerCall.addEdge (clean membrane) src dst type rank) = .ok _ ↔ _
    simp [Carried,← clean_eq_iff]
  | mesh membrane mesh_id xyz parsed =>
    show replayCsv libc.float "mesh replay: bad vertices" (.meshPut (clean membrane) mesh_id) (clean body) = _ ↔ _
    exact replayCsv_iff (fun m v => .meshPut m mesh_id v) (by simp) (float_agrees parsed)
  | audio membrane clip_id ts_ms embedding parsed =>
    show replayCsv libc.float "audio replay: bad embedding" (.audioPut (clean membrane) clip_id ts_ms) (clean body) = _ ↔ _
    exact replayCsv_iff (fun m v => .audioPut m clip_id ts_ms v) (by simp) (float_agrees parsed)
  | timeseries membrane series_id ts_ms val parsed =>
    have call : replayGatewaySyncEvent libc
        ({seq := seq, type := ascii "timeseries_put", membrane := membrane, id := series_id, id2 := ts_ms,
          aux_v := body} : SyncEvent).cleaned =
          match libc.strtod (clean body) with
          | none => .error (.invalidArgument "timeseries replay: bad value")
          | some v => .ok (.tsPut (clean membrane) series_id ts_ms v) := rfl
    grind [Carried,clean_eq_iff,clean]
  | keyvalue membrane key =>
    show Except.ok (ManagerCall.kvPut (clean membrane) (clean key) (clean body)) = .ok _ ↔ _
    simp [Carried,← clean_eq_iff]
  | document membrane doc_id =>
    show Except.ok (ManagerCall.documentPut (clean membrane) doc_id (clean body)) = .ok _ ↔ _
    simp [Carried,← clean_eq_iff]
  | ragChunk membrane chunk_id doc_id tokens parsed =>
    show replayCsv Libc.uint32 "rag replay: bad tokens" (.putChunk (clean membrane) chunk_id doc_id) (clean body) = _ ↔ _
    exact replayCsv_iff (fun m v => .putChunk m chunk_id doc_id v) (by simp) (uint32_agrees parsed)

lemma payload_replayed {σ : Type} (mgr : Manager σ) (libc : Libc) (s : σ) (ev : SyncEvent) : mgr.replay libc s ev.payload =
      match replayGatewaySyncEvent libc ev.cleaned with
      | .error st => (s,st)
      | .ok call => mgr.call s call := by
  rw [Manager.replay,decodeEvent_payload]

/-- Every accepted request is queued as an event, and a replica that replays the payload of the
event on the store the gateway had accepts the call and gets the store the gateway got. -/
def Reproduces (opt : GatewayOptions) (libc : Libc) (req : Bytes) : Prop :=
  ∀ (σ : Type) (mgr : Manager σ) (env : GatewayEnv) (g : EdgeGateway) (files : GatewayFiles) (s : σ) (call : ManagerCall),
    (ingestHttp opt libc mgr env g files s req).executed = some call →
    (ingestHttp opt libc mgr env g files s req).reply.accepts = true →
    ∃ ev, (ingestHttp opt libc mgr env g files s req).gateway.sync_queue.getLast? = some ev ∧
      (mgr.replay libc s ev.payload).2.ok = true ∧ (mgr.replay libc s ev.payload).1 = (mgr.call s call).1

section Accepted
variable {σ : Type} {opt : GatewayOptions} {libc : Libc} {mgr : Manager σ} {env : GatewayEnv} {g : EdgeGateway}
  {files : GatewayFiles} {s : σ} {req : Bytes} {call : ManagerCall} {ingest : Ingest}

lemma ingestHttp_accepted (made : (ingestHttp opt libc mgr env g files s req).executed = some call)
    (accepts : (ingestHttp opt libc mgr env g files s req).reply.accepts = true) : (mgr.call s call).2.ok = true := by
  simp only [ingestHttp] at made accepts
  split at made
  · cases made
  · next unseen =>
    rw [if_neg unseen] at accepts
    cases asked : httpIngest libc req with
    | none => simp [asked] at made
    | some answer =>
      cases answer with
      | error refusal => simp [asked] at made
      | ok ingest =>
        simp only [asked] at made accepts
        split at made
        · next ok =>
          rw [← Option.some_inj.mp made]
          exact ok
        · next failed =>
          rw [if_neg failed] at accepts
          cases accepts

lemma enqueueSyncEvent_last (enabled : opt.gateway_upstream_sync_enabled = true) (url : opt.gateway_upstream_sync_url ≠ [])
    (g : EdgeGateway) (event : SyncEvent) : (g.enqueueSyncEvent opt event).sync_queue.getLast? = some event := by
  have off : ¬(!opt.gateway_upstream_sync_enabled || opt.gateway_upstream_sync_url.isEmpty) = true := by simp [enabled,url]
  rw [EdgeGateway.enqueueSyncEvent,if_neg off]
  simp

lemma acceptHttp_queued (enabled : opt.gateway_upstream_sync_enabled = true) (url : opt.gateway_upstream_sync_url ≠ [])
    (key : Bytes) (event : SyncEvent) :
    ∃ seq, (acceptHttp opt env g files key event).1.sync_queue.getLast? = some {event with seq := seq} :=
  ⟨_,enqueueSyncEvent_last enabled url _ _⟩

lemma ingestHttp_recorded (asked : httpIngest libc req = some (.ok ingest)) :
    (ingestHttp opt libc recorder env {} {} [] req).executed = some ingest.call ∧
      (ingestHttp opt libc recorder env {} {} [] req).reply.accepts = true := by
  have unseen : (({} : EdgeGateway).hasIdempotencyKey env.seen (idempotencyKey req)).2 = false := by
    unfold EdgeGateway.hasIdempotencyKey
    split
    · rfl
    · rfl
  simp only [ingestHttp,unseen,asked,Bool.false_eq_true,if_false]
  exact ⟨rfl,rfl⟩

end Accepted

/-- A replica reproduces every accepted write of a request exactly when the write comes through
the payload. -/
theorem reproduces_iff (opt : GatewayOptions) (enabled : opt.gateway_upstream_sync_enabled = true)
    (url : opt.gateway_upstream_sync_url ≠ []) (libc : Libc) (req : Bytes) (ingest : Ingest)
    (asked : httpIngest libc req = some (.ok ingest)) :
    Reproduces opt libc req ↔ Carried libc (requestBody req) ingest.call := by
  have formed := httpIngest_formed asked
  have queued {σ : Type} {mgr : Manager σ} {env : GatewayEnv} {g : EdgeGateway} {files : GatewayFiles} {s : σ} {call : ManagerCall}
      (made : (ingestHttp opt libc mgr env g files s req).executed = some call)
      (accepts : (ingestHttp opt libc mgr env g files s req).reply.accepts = true) :
      call = ingest.call ∧ ∃ seq, (ingestHttp opt libc mgr env g files s req).gateway.sync_queue.getLast? =
        some {ingest.event with seq := seq} := by
    rcases ingestHttp_cases opt libc mgr env g files s req with ⟨nothing,_⟩ | ⟨_,other,same,done,⟨refused,_⟩ | both⟩
    · rw [nothing] at made
      cases made
    · rw [refused] at accepts
      cases accepts
    · rw [asked,Option.some_inj,Except.ok.injEq] at same
      subst same
      rw [done] at made
      obtain ⟨gateway,_⟩ := Prod.mk.inj both
      rw [gateway]
      exact ⟨(Option.some_inj.mp made).symm,acceptHttp_queued enabled url _ _⟩
  constructor
  · intro reproduces
    have shown : (ingestHttp opt libc recorder secondHundred {} {} [] req).executed = some ingest.call ∧
        (ingestHttp opt libc recorder secondHundred {} {} [] req).reply.accepts = true := ingestHttp_recorded asked
    obtain ⟨made,accepts⟩ := shown
    obtain ⟨ev,last,_,store⟩ := reproduces _ recorder secondHundred {} {} [] ingest.call made accepts
    obtain ⟨_,seq,event⟩ := queued made accepts
    rw [event] at last
    rw [← replayGatewaySyncEvent_iff formed seq]
    rw [← Option.some_inj.mp last,payload_replayed] at store
    cases replayed : replayGatewaySyncEvent libc ({ingest.event with seq := seq} : SyncEvent).cleaned with
    | error st =>
      rw [replayed] at store
      cases store
    | ok call =>
      rw [replayed] at store
      have one : [call] = [ingest.call] := store
      rw [singleton_inj.mp one]
  · intro carried σ mgr env g files s call made accepts
    grind [replayGatewaySyncEvent_iff,payload_replayed,ingestHttp_accepted]

def synced : GatewayOptions := {gateway_upstream_sync_enabled := true, gateway_upstream_sync_url := ascii "http://up/"}

theorem reproduces_plain : Reproduces synced wholeNumbers (ascii "POST /ingest/vector/m/1 HTTP/1.1\r\n\r\n5, 6") := by
  have asked : httpIngest wholeNumbers (ascii "POST /ingest/vector/m/1 HTTP/1.1\r\n\r\n5, 6") =
      some (.ok ⟨.putVector (ascii "m") 1 [5,6],
        {type := ascii "vector_put", membrane := ascii "m", id := 1, aux_v := ascii "5, 6"},"vector_ingested"⟩) := by
    decide +kernel
  rw [reproduces_iff synced rfl (by decide) wholeNumbers _ _ asked]
  show Printable (ascii "m") ∧ Spelled wholeNumbers.float (requestBody (ascii "POST /ingest/vector/m/1 HTTP/1.1\r\n\r\n5, 6"))
  decide +kernel

/-- The membrane of a call, and what is said when it is of another kind. -/
def ManagerCall.membrane : ManagerCall → Bytes × String
  | .metaPut membrane _ _ => (membrane,"META membrane required")
  | .kvPut membrane _ _ => (membrane,"KEYVALUE membrane required")
  | .documentPut membrane _ _ => (membrane,"DOCUMENT membrane required")
  | .putVector membrane _ _ => (membrane,"VECTOR membrane required for PutVector")
  | .meshPut membrane _ _ => (membrane,"MESH membrane required")
  | .audioPut membrane _ _ _ => (membrane,"AUDIO membrane required")
  | .putChunk membrane _ _ _ => (membrane,"RAG membrane required for PutChunk")
  | .tsPut membrane _ _ _ => (membrane,"TIMESERIES membrane required")
  | .addVertex membrane _ _ => (membrane,"Graph membrane required")
  | .addEdge membrane _ _ _ _ => (membrane,"Graph membrane required")

/-- The manager of a database in which every membrane is a key-value membrane. -/
def keyValueManager (now : UInt64) : Manager (Dict Bytes KeyValueEngine) where
  call membranes call :=
    match membranes.lookup call.membrane.1 with
    | none => (membranes,.notFound "membrane not found")
    | some engine =>
      match call with
      | .kvPut membrane key value =>
        let put := engine.put .plain now now key value
        (membranes.insert membrane put.1,put.2)
      | _ => (membranes,.invalidArgument call.membrane.2)
  flushAll membranes := (membranes,.Ok)

def keyValueGet (now : UInt64) (membranes : Dict Bytes KeyValueEngine) (membrane key : Bytes) : Option (Except Status Bytes) :=
  (membranes.lookup membrane).map fun engine => engine.get now key

/-- A tabulator in the value of a key arrives as a blank, and an empty token in a vector that
was accepted makes the replica refuse it. -/
theorem reproduces_altered :
    let membranes : Dict Bytes KeyValueEngine := AList.insert (ascii "kv") (.created 0 {} []) ∅
    let served := ingestHttp synced wholeNumbers (keyValueManager 100) secondHundred {} {} membranes
      (ascii "POST /ingest/keyvalue/kv/k HTTP/1.1\r\n\r\na\tb")
    let replica := served.gateway.sync_queue.getLast?.map fun ev =>
      (keyValueManager 100).replay wholeNumbers membranes ev.payload
    let vector := ingestHttp synced wholeNumbers recorder secondHundred {} {} []
      (ascii "POST /ingest/vector/m/1 HTTP/1.1\r\n\r\n5,,6")
    (served.reply.accepts = true ∧ keyValueGet 100 served.store (ascii "kv") (ascii "k") = some (.ok (ascii "a\tb")) ∧
      replica.map (fun r => (r.2.ok,keyValueGet 100 r.1 (ascii "kv") (ascii "k"))) = some (true,some (.ok (ascii "a b")))) ∧
    vector.reply.accepts = true ∧
      vector.gateway.sync_queue.getLast?.map (fun ev => (recorder.replay wholeNumbers [] ev.payload).2) =
        some (.invalidArgument "vector replay: empty vector") := by
  decide +kernel

end PomaiCache
