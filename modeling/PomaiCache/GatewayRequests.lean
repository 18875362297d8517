import PomaiCache.Gateway

/-!
What a single request can make the gateway do. A write is made for an HTTP request that passed
the check of its token, or for a line; a line is checked against the token the gateway was
started with and against nothing else.
-/
namespace PomaiCache
open Codec RecordLog Text List

variable {σ : Type} {opt : GatewayOptions} {libc : Libc} {mgr : Manager σ} {env : GatewayEnv}
  {g : EdgeGateway} {files : GatewayFiles} {s : σ} {req line peeked pending : Bytes} {call : ManagerCall}

/-- The key a request carries. -/
def requestKey (libc : Libc) (auth_token data : Bytes) : Bytes :=
  if looksLikeHttpRequest data then idempotencyKey data
  else
    match lineRequest libc auth_token data with
    | .put _ _ _ idem_key _ => idem_key
    | _ => []

def requestToken (auth_token data : Bytes) : Option Bytes :=
  if looksLikeHttpRequest data then bearerToken data else lineToken auth_token data

def Reply.accepts : Reply → Bool
  | .json code _ status _ _ => code == 200 && status == "ok"
  | .line text => (ascii "ACK|accepted").isPrefixOf text || (ascii "ACK|durable_ack").isPrefixOf text
  | _ => false

lemma ingestHttp_cases (opt : GatewayOptions) (libc : Libc) (mgr : Manager σ) (env : GatewayEnv) (g : EdgeGateway)
    (files : GatewayFiles) (s : σ) (req : Bytes) :
    let served := ingestHttp opt libc mgr env g files s req
    let seen := g.hasIdempotencyKey env.seen (idempotencyKey req)
    (served.executed = none ∧ served.gateway = seen.1 ∧ served.files = files) ∨
    (seen.2 = false ∧ ∃ ingest, httpIngest libc req = some (.ok ingest) ∧ served.executed = some ingest.call ∧
      ((served.reply.accepts = false ∧ served.gateway = seen.1 ∧ served.files = files) ∨
        (served.gateway,served.files) = acceptHttp opt env seen.1 files (idempotencyKey req) ingest.event)) := by
  simp only [ingestHttp]
  split
  · exact .inl ⟨rfl,rfl,rfl⟩
  · next unseen =>
    cases asked : httpIngest libc req with
    | none => exact .inl ⟨rfl,rfl,rfl⟩
    | some answer =>
      cases answer with
      | error refusal => exact .inl ⟨rfl,rfl,rfl⟩
      | ok ingest =>
        refine .inr ⟨by simpa using unseen,ingest,rfl,?_⟩
        dsimp only
        split
        · exact ⟨rfl,.inr rfl⟩
        · exact ⟨rfl,.inl ⟨rfl,rfl,rfl⟩⟩

lemma ingestLine_cases (opt : GatewayOptions) (libc : Libc) (mgr : Manager σ) (env : GatewayEnv) (g : EdgeGateway)
    (files : GatewayFiles) (s : σ) (membrane : Bytes) (id : UInt64) (vec_s idem_key durability : Bytes) :
    let served := ingestLine opt libc mgr env g files s membrane id vec_s idem_key durability
    let seen := g.hasIdempotencyKey env.seen idem_key
    (served.executed = none ∧ served.gateway = seen.1 ∧ served.files = files) ∨
    (seen.2 = false ∧ served.executed = some (.putVector membrane id (vectorTokens libc vec_s)) ∧
      ((served.reply.accepts = false ∧ served.gateway = seen.1 ∧ served.files = files) ∨
        ∃ event, (served.gateway,served.files) = acceptLine opt env seen.1 files idem_key event)) := by
  simp only [ingestLine]
  split
  · exact .inl ⟨rfl,rfl,rfl⟩
  · next unseen =>
    refine .inr ⟨by simpa using unseen,?_⟩
    split
    · exact ⟨rfl,.inr ⟨_,rfl⟩⟩
    · exact ⟨rfl,.inl ⟨rfl,rfl,rfl⟩⟩

lemma serveHttpConnection_made (made : (serveHttpConnection opt libc mgr env g files s req).executed = some call) :
    (g.isAuthorizedForScope env req (ascii "ingest:write")).2 = true ∧ serveHttpConnection opt libc mgr env g files s req =
        ingestHttp opt libc mgr env (g.isAuthorizedForScope env req (ascii "ingest:write")).1 files s req := by
  unfold serveHttpConnection at made ⊢
  split at made
  · cases made
  next health =>
  split at made
  · cases made
  next healthz =>
  split at made
  · cases made
  next metrics =>
  split at made
  · cases made
  next records =>
  grind

lemma ingestHttp_made (made : (ingestHttp opt libc mgr env g files s req).executed = some call) :
    ∃ ingest, httpIngest libc req = some (.ok ingest) ∧ ingest.call = call := by
  grind [ingestHttp_cases]

lemma serveIngestConnection_made (made : (serveIngestConnection opt libc mgr env g files s line).executed = some call) :
    ∃ membrane id vec_s idem_key durability, lineRequest libc g.auth_token line = .put membrane id vec_s idem_key durability ∧
      serveIngestConnection opt libc mgr env g files s line =
        ingestLine opt libc mgr env g files s membrane id vec_s idem_key durability := by
  grind [serveIngestConnection]

lemma ingestLine_made {membrane vec_s idem_key durability : Bytes} {id : UInt64}
    (made : (ingestLine opt libc mgr env g files s membrane id vec_s idem_key durability).executed = some call) :
    call = .putVector membrane id (vectorTokens libc vec_s) := by
  grind [ingestLine_cases]

lemma allowRequest_eq (g : EdgeGateway) (now : UInt64) :
    ∃ window count, (g.allowRequest now).1 = {g with rate_window_sec := window, rate_window_count := count} := by
  unfold EdgeGateway.allowRequest
  split <;> exact ⟨_,_,rfl⟩

lemma processAcceptedClient_made (made : (processAcceptedClient opt libc mgr env g files s peeked pending).executed = some call) :
    let counted := (g.allowRequest env.rate).1
    let data := pending.take recv_capacity
    processAcceptedClient opt libc mgr env g files s peeked pending =
      if looksLikeHttpRequest data then serveHttpConnection opt libc mgr env counted files s data
      else serveIngestConnection opt libc mgr env counted files s data := by
  grind [processAcceptedClient]

/-! ### What the endpoints ask for -/

/-- The writes that requests with the body `body` can ask for. -/
inductive Ingest.Formed (libc : Libc) (body : Bytes) : Ingest → Prop
  | meta_ (membrane gid : Bytes) : Formed libc body ⟨.metaPut membrane gid body,
      {type := ascii "meta_put", membrane := membrane, aux_k := gid, aux_v := body},"meta_ingested"⟩
  | vector (membrane : Bytes) (id : UInt64) (some_ : vectorTokens libc body ≠ []) :
      Formed libc body ⟨.putVector membrane id (vectorTokens libc body),
        {type := ascii "vector_put", membrane := membrane, id := id, aux_v := body},"vector_ingested"⟩
  | graphVertex (membrane : Bytes) (vid : UInt64) (tag : UInt32) : Formed libc body ⟨.addVertex membrane vid tag,
      {type := ascii "graph_vertex_put", membrane := membrane, id := vid, u32_a := tag},"graph_vertex_ingested"⟩
  | graphEdge (membrane : Bytes) (src dst : UInt64) (type rank : UInt32) : Formed libc body ⟨.addEdge membrane src dst type rank,
      {type := ascii "graph_edge_put", membrane := membrane, id := src, id2 := dst, u32_a := type, u32_b := rank},
      "graph_edge_ingested"⟩
  | mesh (membrane : Bytes) (mesh_id : UInt64) (xyz : Vec) (parsed : parseCsvFloats libc body = some xyz) :
      Formed libc body ⟨.meshPut membrane mesh_id xyz,
        {type := ascii "mesh_put", membrane := membrane, id := mesh_id, aux_v := body},"mesh_ingested"⟩
  | audio (membrane : Bytes) (clip_id ts_ms : UInt64) (embedding : Vec) (parsed : parseCsvFloats libc body = some embedding) :
      Formed libc body ⟨.audioPut membrane clip_id ts_ms embedding,
        {type := ascii "audio_put", membrane := membrane, id := clip_id, id2 := ts_ms, aux_v := body},"audio_ingested"⟩
  | timeseries (membrane : Bytes) (series_id ts_ms val : UInt64) (parsed : libc.strtod body = some val) :
      Formed libc body ⟨.tsPut membrane series_id ts_ms val,
        {type := ascii "timeseries_put", membrane := membrane, id := series_id, id2 := ts_ms, aux_v := body},"timeseries_ingested"⟩
  | keyvalue (membrane key : Bytes) : Formed libc body ⟨.kvPut membrane key body,
      {type := ascii "kv_put", membrane := membrane, id := stableHashU64 key, aux_k := key, aux_v := body},"keyvalue_ingested"⟩
  | document (membrane : Bytes) (doc_id : UInt64) : Formed libc body ⟨.documentPut membrane doc_id body,
      {type := ascii "document_put", membrane := membrane, id := doc_id, aux_v := body},"document_ingested"⟩
  | ragChunk (membrane : Bytes) (chunk_id doc_id : UInt64) (tokens : List UInt32) (parsed : parseCsvUint32 body = some tokens) :
      Formed libc body ⟨.putChunk membrane chunk_id doc_id tokens,
        {type := ascii "rag_chunk_put", membrane := membrane, id := chunk_id, id2 := doc_id, aux_v := body},"rag_chunk_ingested"⟩

variable {ingest : Ingest}

lemma metaIngest_formed (asked : metaIngest req = .ok ingest) : ingest.Formed libc (requestBody req) := by
  unfold metaIngest at asked
  split at asked
  · cases asked
  · cases asked
    exact .meta_ ..

lemma vectorIngest_formed (asked : vectorIngest libc req = .ok ingest) : ingest.Formed libc (requestBody req) := by
  unfold vectorIngest at asked
  split at asked
  · cases asked
  · dsimp only at asked
    split at asked
    · cases asked
    · next some_ =>
      cases asked
      exact .vector _ _ (by simpa using some_)

lemma graphVertexIngest_formed (asked : graphVertexIngest req = .ok ingest) : ingest.Formed libc (requestBody req) := by
  unfold graphVertexIngest at asked
  split at asked
  · cases asked
    exact .graphVertex ..
  · cases asked

lemma graphEdgeIngest_formed (asked : graphEdgeIngest req = .ok ingest) : ingest.Formed libc (requestBody req) := by
  unfold graphEdgeIngest at asked
  split at asked
  · cases asked
    exact .graphEdge ..
  · cases asked

lemma meshIngest_formed (asked : meshIngest libc req = .ok ingest) : ingest.Formed libc (requestBody req) := by
  unfold meshIngest at asked
  split at asked
  · dsimp only at asked
    split at asked
    · cases asked
    · next parsed =>
      cases asked
      exact .mesh _ _ _ parsed
  · cases asked

lemma audioIngest_formed (asked : audioIngest libc req = .ok ingest) : ingest.Formed libc (requestBody req) := by
  unfold audioIngest at asked
  split at asked
  · dsimp only at asked
    split at asked
    · cases asked
    · next parsed =>
      cases asked
      exact .audio _ _ _ _ parsed
  · cases asked

lemma timeseriesIngest_formed (asked : timeseriesIngest libc req = .ok ingest) : ingest.Formed libc (requestBody req) := by
  unfold timeseriesIngest at asked
  split at asked
  · dsimp only at asked
    split at asked
    · cases asked
    · next parsed =>
      cases asked
      exact .timeseries _ _ _ _ parsed
  · cases asked

lemma keyvalueIngest_formed (asked : keyvalueIngest req = .ok ingest) : ingest.Formed libc (requestBody req) := by
  unfold keyvalueIngest at asked
  split at asked
  · cases asked
    exact .keyvalue ..
  · cases asked

lemma documentIngest_formed (asked : documentIngest req = .ok ingest) : ingest.Formed libc (requestBody req) := by
  unfold documentIngest at asked
  split at asked
  · cases asked
    exact .document ..
  · cases asked

lemma ragChunkIngest_formed (asked : ragChunkIngest req = .ok ingest) : ingest.Formed libc (requestBody req) := by
  unfold ragChunkIngest at asked
  split at asked
  · dsimp only at asked
    split at asked
    · cases asked
    · next parsed =>
      cases asked
      exact .ragChunk _ _ _ _ parsed
  · cases asked

lemma httpIngest_formed (asked : httpIngest libc req = some (.ok ingest)) : ingest.Formed libc (requestBody req) := by
  obtain ⟨endpoint,found,made⟩ := Option.map_eq_some_iff.mp asked
  have member := mem_of_find?_eq_some found
  simp only [endpoints,mem_cons,not_mem_nil,or_false] at member
  rcases member with rfl | rfl | rfl | rfl | rfl | rfl | rfl | rfl | rfl | rfl
  · exact metaIngest_formed made
  · exact vectorIngest_formed made
  · exact graphVertexIngest_formed made
  · exact graphEdgeIngest_formed made
  · exact meshIngest_formed made
  · exact audioIngest_formed made
  · exact timeseriesIngest_formed made
  · exact keyvalueIngest_formed made
  · exact documentIngest_formed made
  · exact ragChunkIngest_formed made

def wholeNumbers : Libc := ⟨strtoull,UInt64.toUInt32⟩

def recorder : Manager (List ManagerCall) := ⟨fun s call => (s ++ [call],.Ok),fun s => (s,.Ok)⟩

def secondHundred : GatewayEnv := {rate := 100, reload := 100, token := 100, seen := 100, remembered := 100, compacted := 100}

namespace EdgeGateway

/-- The request carries a token that is accepted for ingest when it is handled. -/
def Authorized (g : EdgeGateway) (env : GatewayEnv) (data : Bytes) : Prop :=
  ∃ token, requestToken g.auth_token data = some token ∧
    (g.reloadTokensIfNeeded env).tokenAllowsScope env.token token (ascii "ingest:write") = true

lemma reloadTokensIfNeeded_eq (g : EdgeGateway) (env : GatewayEnv) : ∃ store mtime last, g.reloadTokensIfNeeded env =
    {g with token_store := store, token_file_mtime_sec := mtime, token_last_reload_sec := last} := by
  unfold reloadTokensIfNeeded
  split
  · exact ⟨_,_,_,rfl⟩
  split
  · exact ⟨_,_,_,rfl⟩
  cases env.token_file with
  | none => exact ⟨_,_,_,rfl⟩
  | some file =>
    dsimp only
    split
    · exact ⟨_,_,_,rfl⟩
    cases file.2 with
    | none => exact ⟨_,_,_,rfl⟩
    | some text => exact ⟨_,_,_,rfl⟩

lemma reloadTokensIfNeeded_auth_token (g : EdgeGateway) (env : GatewayEnv) :
    (g.reloadTokensIfNeeded env).auth_token = g.auth_token := by
  obtain ⟨store,mtime,last,same⟩ := reloadTokensIfNeeded_eq g env
  rw [same]

lemma reloadTokensIfNeeded_counted (g : EdgeGateway) (env : GatewayEnv) (window : UInt64) (count : UInt32) :
    ({g with rate_window_sec := window, rate_window_count := count}).reloadTokensIfNeeded env =
      {g.reloadTokensIfNeeded env with rate_window_sec := window, rate_window_count := count} := by
  unfold reloadTokensIfNeeded
  dsimp only
  split
  · rfl
  grind

lemma isAuthorizedForScope_token {g : EdgeGateway} {env : GatewayEnv} {req scope : Bytes}
    (allowed : (g.isAuthorizedForScope env req scope).2 = true) (guarded : g.auth_token ≠ [] ∨ g.token_file_path ≠ []) :
    ∃ token, bearerToken req = some token ∧ (g.reloadTokensIfNeeded env).tokenAllowsScope env.token token scope = true := by
  have not_open : ¬(g.auth_token = [] ∧ g.token_file_path = []) := by
    grind
  rw [isAuthorizedForScope,if_neg not_open] at allowed
  grind

lemma lineToken_of_put {libc : Libc} {auth_token line membrane vec_s idem_key durability : Bytes} {id : UInt64}
    (some_ : auth_token ≠ []) (asked : lineRequest libc auth_token line = .put membrane id vec_s idem_key durability) :
    lineToken auth_token line = some auth_token := by
  unfold lineRequest at asked
  rw [lineToken,if_neg some_]
  grind

/-- A gateway with a token or a token file makes a write only for a request with an accepted
token if, and only if, the request came by HTTP or the gateway has a token of its own: a
line is never checked against the token file. -/
theorem write_authorized_iff (opt : GatewayOptions) (libc : Libc) (mgr : Manager σ) (env : GatewayEnv) (g : EdgeGateway)
    (files : GatewayFiles) (s : σ) (peeked pending : Bytes) (call : ManagerCall)
    (guarded : g.auth_token ≠ [] ∨ g.token_file_path ≠ [])
    (made : (processAcceptedClient opt libc mgr env g files s peeked pending).executed = some call) :
    g.Authorized env (pending.take recv_capacity) ↔
      looksLikeHttpRequest (pending.take recv_capacity) = true ∨ g.auth_token ≠ [] := by
  have served := processAcceptedClient_made made
  obtain ⟨window,count,counted⟩ := allowRequest_eq g env.rate
  dsimp only at served
  rw [served,counted] at made
  generalize pending.take recv_capacity = data at made ⊢
  by_cases http : looksLikeHttpRequest data = true
  · rw [if_pos http] at made
    obtain ⟨allowed,_⟩ := serveHttpConnection_made made
    obtain ⟨token,carried,accepted⟩ := isAuthorizedForScope_token allowed guarded
    rw [reloadTokensIfNeeded_counted] at accepted
    have authorized : g.Authorized env data := ⟨token,by rw [requestToken,if_pos http]; exact carried,accepted⟩
    simp [http,authorized]
  · rw [if_neg http] at made
    obtain ⟨membrane,id,vec_s,idem_key,durability,asked,_⟩ := serveIngestConnection_made made
    simp only [Authorized,requestToken,http,Bool.false_eq_true,if_false,false_or]
    by_cases own : g.auth_token = []
    · simp [own,lineToken]
    · have carried := lineToken_of_put own asked
      simp [*,tokenAllowsScope,reloadTokensIfNeeded_auth_token]

theorem write_authorized_own_token :
    let g : EdgeGateway := {running := true, auth_token := ascii "t1"}
    let line := ascii "WS|t1|m|1|5"
    (processAcceptedClient {} wholeNumbers recorder secondHundred g {} [] line line).executed = some (.putVector (ascii "m") 1 [5]) ∧
      g.Authorized secondHundred (line.take recv_capacity) := by
  have made : (processAcceptedClient {} wholeNumbers recorder secondHundred {running := true, auth_token := ascii "t1"} {} []
      (ascii "WS|t1|m|1|5") (ascii "WS|t1|m|1|5")).executed = some (.putVector (ascii "m") 1 [5]) := by decide +kernel
  exact ⟨made,(write_authorized_iff _ _ _ _ _ _ _ _ _ _ (.inl (by decide)) made).mpr (.inr (by decide))⟩

/-- With a token file alone, a line without any token writes. -/
theorem line_write_unauthorized :
    let g : EdgeGateway := {running := true, token_file_path := ascii "tokens"}
    let line := ascii "MQTT|m|1|5"
    (processAcceptedClient {} wholeNumbers recorder secondHundred g {} [] line line).executed = some (.putVector (ascii "m") 1 [5]) ∧
      ¬g.Authorized secondHundred (line.take recv_capacity) := by
  refine ⟨by decide +kernel,?_⟩
  rintro ⟨token,carried,_⟩
  have none_ : requestToken [] ((ascii "MQTT|m|1|5").take recv_capacity) = none := by decide +kernel
  rw [none_] at carried
  cases carried

end EdgeGateway

def ManagerCall.stored : ManagerCall → Option Bytes
  | .metaPut _ _ value => some value
  | .kvPut _ _ value => some value
  | .documentPut _ _ json_content => some json_content
  | _ => none

/-- An HTTP message with a body of the length it declares. -/
structure HttpMessage where
  head : Bytes
  body : Bytes
  first_blank : cut blankLine (head ++ blankLine) = some (head,[])
  declared : httpHeaderValue (head ++ blankLine) (ascii "Content-Length:") = decimal body.length

def HttpMessage.bytes (m : HttpMessage) : Bytes := m.head ++ (blankLine ++ m.body)

lemma Ingest.Formed.stored {body value : Bytes} (formed : ingest.Formed libc body)
    (stores : ingest.call.stored = some value) : value = body := by
  cases formed with
  | meta_ membrane gid => exact (Option.some_inj.mp stores).symm
  | keyvalue membrane key => exact (Option.some_inj.mp stores).symm
  | document membrane doc_id => exact (Option.some_inj.mp stores).symm
  | _ => cases stores

lemma requestBody_arrived (m : HttpMessage) (later : Bytes) (n : Nat) :
    requestBody ((m.bytes ++ later).take n) = (m.body ++ later).take (n - (m.head.length + 4)) := by
  have whole : cut blankLine (m.bytes ++ later) = some (m.head,m.body ++ later) := by
    have split_ : m.bytes ++ later = m.head ++ blankLine ++ (m.body ++ later) := by simp [HttpMessage.bytes]
    rw [split_]
    exact cut_append (by decide) m.first_blank _
  have long : blankLine.length = 4 := rfl
  rw [requestBody,cut_take (by decide),whole,Option.bind_some,long]
  split
  · rfl
  · next short => simp [Nat.sub_eq_zero_of_le (Nat.le_of_not_le short)]

lemma take_eq_body_iff (body later : Bytes) (n : Nat) :
    (body ++ later).take n = body ↔ min n (body ++ later).length = body.length := by
  grind [length_take,take_eq_take_min,take_left]

/-- The value that an accepted request stores is the body it declares if, and only if, the
one piece that was received ends where the body ends. -/
theorem stored_body_iff (opt : GatewayOptions) (libc : Libc) (mgr : Manager σ) (env : GatewayEnv) (g : EdgeGateway)
    (files : GatewayFiles) (s : σ) (peeked : Bytes) (m : HttpMessage) (later : Bytes) (arrived : Nat)
    (call : ManagerCall) (value : Bytes)
    (made : (processAcceptedClient opt libc mgr env g files s peeked ((m.bytes ++ later).take arrived)).executed = some call)
    (stores : call.stored = some value) : value = m.body ↔
      (((m.bytes ++ later).take arrived).take recv_capacity).length - (m.head.length + 4) = m.body.length := by
  have served := processAcceptedClient_made made
  dsimp only at served
  rw [served] at made
  rw [take_take] at made ⊢
  generalize min recv_capacity arrived = n at made ⊢
  by_cases http : looksLikeHttpRequest ((m.bytes ++ later).take n) = true
  · rw [if_pos http] at made
    obtain ⟨_,let_through⟩ := serveHttpConnection_made made
    rw [let_through] at made
    obtain ⟨ingest,asked,same⟩ := ingestHttp_made made
    have text := (httpIngest_formed asked).stored (by rw [same]; exact stores)
    have size : (m.bytes ++ later).length = m.head.length + 4 + (m.body ++ later).length := by
      have long : blankLine.length = 4 := rfl
      simp only [HttpMessage.bytes,length_append,long]
      omega
    rw [text,requestBody_arrived,take_eq_body_iff,length_take,size]
    omega
  · rw [if_neg http] at made
    obtain ⟨_,_,_,_,_,_,complete⟩ := serveIngestConnection_made made
    rw [complete] at made
    rw [ingestLine_made made] at stores
    cases stores

def fourBytes : HttpMessage where
  head := ascii "POST /ingest/keyvalue/kv/k HTTP/1.1\r\nContent-Length: 4"
  body := ascii "abcd"
  first_blank := by decide +kernel
  declared := by decide +kernel

theorem stored_body_whole :
    let served := processAcceptedClient {} wholeNumbers recorder secondHundred {running := true} {} [] fourBytes.bytes (fourBytes.bytes.take 62)
    served.executed = some (.kvPut (ascii "kv") (ascii "k") (ascii "abcd")) ∧ ascii "abcd" = fourBytes.body := by
  have made : (processAcceptedClient {} wholeNumbers recorder secondHundred {running := true} {} [] fourBytes.bytes
      ((fourBytes.bytes ++ []).take 62)).executed = some (.kvPut (ascii "kv") (ascii "k") (ascii "abcd")) := by decide +kernel
  exact ⟨made,(stored_body_iff _ _ _ _ _ _ _ _ fourBytes [] 62 _ _ made rfl).mpr (by decide +kernel)⟩

/-- When half of the body has arrived, half of it is stored and acknowledged. -/
theorem stored_body_short :
    let served := processAcceptedClient {} wholeNumbers recorder secondHundred {running := true} {} [] fourBytes.bytes (fourBytes.bytes.take 60)
    served.executed = some (.kvPut (ascii "kv") (ascii "k") (ascii "ab")) ∧ served.reply.accepts = true ∧
      fourBytes.body = ascii "abcd" := by
  decide +kernel

end PomaiCache
