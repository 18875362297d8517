import PomaiCache.Basic
import PomaiCache.Dict
import PomaiCache.Text

/-!
The edge gateway: it takes HTTP requests and lines of the MQTT/WS ingest protocol from one
socket, checks tokens and idempotency keys, and passes the writes on to the membrane
manager. The manager is a parameter, so a request is followed up to the call it makes.
-/
namespace PomaiCache
open Codec RecordLog Text

/-- The calls by which the gateway writes into the membranes. Floats and doubles stand by
their bit patterns. -/
inductive ManagerCall
  | metaPut (membrane gid value : Bytes)
  | kvPut (membrane key value : Bytes)
  | documentPut (membrane : Bytes) (doc_id : UInt64) (json_content : Bytes)
  | putVector (membrane : Bytes) (id : UInt64) (vec : Vec)
  | meshPut (membrane : Bytes) (mesh_id : UInt64) (vertices_xyz : Vec)
  | audioPut (membrane : Bytes) (clip_id timestamp_ms : UInt64) (embedding : Vec)
  | putChunk (membrane : Bytes) (chunk_id doc_id : UInt64) (tokens : List UInt32)
  | tsPut (membrane : Bytes) (series_id timestamp value : UInt64)
  | addVertex (membrane : Bytes) (id : UInt64) (tag : UInt32)
  | addEdge (membrane : Bytes) (src dst : UInt64) (type rank : UInt32)
  deriving DecidableEq, Repr

structure Manager (σ : Type) where
  call : σ → ManagerCall → σ × Status
  flushAll : σ → σ × Status

/-- The functions of the C library that are not modelled: `strtod`, with nothing for a text
that does not begin with a number, and the conversion from double to float. -/
structure Libc where
  strtod : Bytes → Option UInt64
  toFloat : UInt64 → UInt32

variable (libc : Libc)

/-- `static_cast<float>(strtod(tok.c_str(), nullptr))` -/
def Libc.float (tok : Bytes) : UInt32 := libc.toFloat ((libc.strtod tok).getD 0)

/-- What is reported upstream about an accepted write. -/
structure SyncEvent where
  seq : UInt64 := 0
  type : Bytes
  membrane : Bytes
  id : UInt64 := 0
  id2 : UInt64 := 0
  u32_a : UInt32 := 0
  u32_b : UInt32 := 0
  aux_k : Bytes := []
  aux_v : Bytes := []
  deriving DecidableEq, Repr

structure TokenRecord where
  exp_unix : UInt64
  scopes : List Bytes
  deriving DecidableEq, Repr

structure GatewayOptions where
  gateway_token_file : Bytes := []
  gateway_rate_limit_per_sec : UInt32 := 2000
  gateway_idempotency_ttl_sec : UInt32 := 300
  gateway_upstream_sync_url : Bytes := []
  gateway_upstream_sync_enabled : Bool := false
  gateway_require_mtls_proxy_header : Bool := false
  gateway_mtls_proxy_header : Bytes := ascii "X-Client-Cert-Verified: 1"

structure GatewayFiles where
  idempotency_log : Bytes := []
  ingest_seq : Option Bytes := none
  deriving DecidableEq, Repr

structure EdgeGateway where
  running : Bool := false
  auth_token : Bytes := []
  token_file_path : Bytes := []
  token_store : Dict Bytes TokenRecord := ∅
  token_file_mtime_sec : UInt64 := 0
  token_last_reload_sec : UInt64 := 0
  rate_window_sec : UInt64 := 0
  rate_window_count : UInt32 := 0
  rate_limit_per_sec : UInt32 := 2000
  idempotency_ttl_sec : UInt64 := 300
  seen_idempotency_keys : Dict Bytes UInt64 := ∅
  idempotency_append_count : Nat := 0
  ingest_seq : UInt64 := 0
  sync_queue : List SyncEvent := []

/-- What the gateway reads from outside while it handles one request: the clock, which each
function reads for itself, and the token file, with its modification time and its text
where it can be opened. -/
structure GatewayEnv where
  rate : UInt64
  reload : UInt64
  token : UInt64
  seen : UInt64
  remembered : UInt64
  compacted : UInt64
  token_file : Option (UInt64 × Option Bytes) := none
  walk : Dict.Walk Bytes UInt64 := .plain

/-- What the client gets. The pages that report on the state are named and not spelt out. -/
inductive Reply
  | json (code : Nat) (reason status message err_code : String)
  | healthz
  | metrics
  | records (membrane : Bytes) (limit : UInt64)
  | line (text : Bytes)
  | closed
  deriving DecidableEq, Repr

def crlf : Bytes := ascii "\r\n"
def blankLine : Bytes := ascii "\r\n\r\n"

variable (s : Bytes)

def looksLikeHttpRequest : Bool :=
  let s := s.dropWhile fun b => b == 32 || b == 9 || b == 13 || b == 10
  [ascii "GET ",ascii "POST ",ascii "HEAD ",ascii "PUT ",ascii "DELETE ",ascii "OPTIONS ",ascii "PATCH ",
    ascii "CONNECT ",ascii "TRACE "].any fun word => word.isPrefixOf s

def httpHeaderValue (req header_name : Bytes) : Bytes :=
  match cut header_name req with
  | none => []
  | some (_,behind) =>
    match cut crlf behind with
    | none => []
    | some (value,_) => value.dropWhile isBlank

def httpQueryParam (query key : Bytes) : Bytes :=
  ((((lines 38).all query).filterMap (cut [61])).find? fun part => part.1 == key).elim [] (·.2)

def splitPathSegments : List Bytes := ((lines 47).all s).filter (!·.isEmpty)

variable (req : Bytes)

def requestPath : Bytes := ((req.dropWhile (· ≠ 32)).drop 1).takeWhile (· ≠ 32)

def requestBody : Bytes := (cut blankLine req).elim [] (·.2)

def pathRest (endpoint req : Bytes) : Bytes :=
  let path := requestPath req
  let versioned := ascii "/v1" ++ endpoint
  path.drop (if versioned.isPrefixOf path then versioned.length else endpoint.length)

def posts (endpoint req : Bytes) : Bool :=
  (ascii "POST " ++ endpoint).isPrefixOf req || (ascii "POST /v1" ++ endpoint).isPrefixOf req

def bearerToken : Option Bytes :=
  (cut (ascii "Authorization: Bearer ") req).bind fun header => (cut crlf header.2).map (·.1)

def idempotencyKey : Bytes :=
  match (cut (ascii "X-Idempotency-Key:") req).bind fun header => cut crlf header.2 with
  | none => []
  | some (value,_) => value.dropWhile isBlank

/-- `ParseCsvFloats` and `ParseCsvUint32`: empty tokens are skipped, and a token that is not
a number spoils the whole list. -/
def parseCsv {α : Type} (convert : Bytes → Option α) (body : Bytes) : Option (List α) :=
  match (((lines 44).all body).filter (!·.isEmpty)).mapM convert with
  | some (v :: vs) => some (v :: vs)
  | _ => none

variable (body : Bytes)

def parseCsvFloats : Option Vec :=
  parseCsv (fun tok => (libc.strtod tok).map libc.toFloat) body

def strtoul32 (tok : Bytes) : Option UInt32 := (strtoull tok).map UInt64.toUInt32

def parseCsvUint32 : Option (List UInt32) := parseCsv strtoul32 body

/-- The vector of a vector request: every token counts, and one that is not a number is 0. -/
def vectorTokens : Vec := ((lines 44).all body).map libc.float

def stableHashU64 : UInt64 :=
  s.foldl (fun h c => (h ^^^ c.toUInt64) * 1099511628211) 14695981039346656037

def number : UInt64 := (strtoull s).getD 0

/-- A write that an endpoint asks for, the event that reports it and the message that
acknowledges it. -/
structure Ingest where
  call : ManagerCall
  event : SyncEvent
  message : String
  deriving DecidableEq, Repr

structure Refusal where
  message : String
  err_code : String
  deriving DecidableEq, Repr

def invalidPath (message : String) : Refusal := ⟨message,"invalid_path"⟩

def metaIngest : Except Refusal Ingest :=
  match cut [47] (pathRest (ascii "/ingest/meta/") req) with
  | none => .error (invalidPath "invalid_meta_path")
  | some (membrane,gid) =>
    let body := requestBody req
    .ok ⟨.metaPut membrane gid body,
      {type := ascii "meta_put", membrane := membrane, aux_k := gid, aux_v := body},"meta_ingested"⟩

variable (req : Bytes)

def vectorIngest : Except Refusal Ingest :=
  match cut [47] (pathRest (ascii "/ingest/vector/") req) with
  | none => .error (invalidPath "invalid_vector_path")
  | some (membrane,id_s) =>
    let body := requestBody req
    let v := vectorTokens libc body
    if v.isEmpty then .error ⟨"empty_vector","bad_vector"⟩
    else .ok ⟨.putVector membrane (number id_s) v,
      {type := ascii "vector_put", membrane := membrane, id := number id_s, aux_v := body},"vector_ingested"⟩

def graphVertexIngest : Except Refusal Ingest :=
  match splitPathSegments (pathRest (ascii "/ingest/graph/vertex/") req) with
  | [membrane,vid,tag] =>
    .ok ⟨.addVertex membrane (number vid) (number tag).toUInt32,
      {type := ascii "graph_vertex_put", membrane := membrane, id := number vid, u32_a := (number tag).toUInt32},
      "graph_vertex_ingested"⟩
  | _ => .error (invalidPath "invalid_graph_vertex_path")

def graphEdgeIngest : Except Refusal Ingest :=
  match splitPathSegments (pathRest (ascii "/ingest/graph/edge/") req) with
  | [membrane,src,dst,type,rank] =>
    .ok ⟨.addEdge membrane (number src) (number dst) (number type).toUInt32 (number rank).toUInt32,
      {type := ascii "graph_edge_put", membrane := membrane, id := number src, id2 := number dst,
        u32_a := (number type).toUInt32, u32_b := (number rank).toUInt32},"graph_edge_ingested"⟩
  | _ => .error (invalidPath "invalid_graph_edge_path")

def meshIngest : Except Refusal Ingest :=
  match splitPathSegments (pathRest (ascii "/ingest/mesh/") req) with
  | [membrane,mesh_id] =>
    let body := requestBody req
    match parseCsvFloats libc body with
    | none => .error ⟨"invalid_mesh_xyz","bad_vector"⟩
    | some xyz => .ok ⟨.meshPut membrane (number mesh_id) xyz,
        {type := ascii "mesh_put", membrane := membrane, id := number mesh_id, aux_v := body},"mesh_ingested"⟩
  | _ => .error (invalidPath "invalid_mesh_path")

def audioIngest : Except Refusal Ingest :=
  match splitPathSegments (pathRest (ascii "/ingest/audio/") req) with
  | [membrane,clip_id,ts_ms] =>
    let body := requestBody req
    match parseCsvFloats libc body with
    | none => .error ⟨"invalid_audio_embedding","bad_vector"⟩
    | some embedding => .ok ⟨.audioPut membrane (number clip_id) (number ts_ms) embedding,
        {type := ascii "audio_put", membrane := membrane, id := number clip_id, id2 := number ts_ms, aux_v := body},
        "audio_ingested"⟩
  | _ => .error (invalidPath "invalid_audio_path")

def timeseriesIngest : Except Refusal Ingest :=
  match splitPathSegments (pathRest (ascii "/ingest/timeseries/") req) with
  | [membrane,series_id,ts_ms] =>
    let body := requestBody req
    match libc.strtod body with
    | none => .error ⟨"invalid_timeseries_value","bad_value"⟩
    | some val => .ok ⟨.tsPut membrane (number series_id) (number ts_ms) val,
        {type := ascii "timeseries_put", membrane := membrane, id := number series_id, id2 := number ts_ms, aux_v := body},
        "timeseries_ingested"⟩
  | _ => .error (invalidPath "invalid_timeseries_path")

def keyvalueIngest : Except Refusal Ingest :=
  match splitPathSegments (pathRest (ascii "/ingest/keyvalue/") req) with
  | [membrane,key] =>
    let body := requestBody req
    .ok ⟨.kvPut membrane key body,
      {type := ascii "kv_put", membrane := membrane, id := stableHashU64 key, aux_k := key, aux_v := body},
      "keyvalue_ingested"⟩
  | _ => .error (invalidPath "invalid_keyvalue_path")

def documentIngest : Except Refusal Ingest :=
  match splitPathSegments (pathRest (ascii "/ingest/document/") req) with
  | [membrane,doc_id] =>
    let body := requestBody req
    .ok ⟨.documentPut membrane (number doc_id) body,
      {type := ascii "document_put", membrane := membrane, id := number doc_id, aux_v := body},"document_ingested"⟩
  | _ => .error (invalidPath "invalid_document_path")

def ragChunkIngest : Except Refusal Ingest :=
  match splitPathSegments (pathRest (ascii "/ingest/rag/") req) with
  | [membrane,chunk_id,doc_id] =>
    let body := requestBody req
    match parseCsvUint32 body with
    | none => .error ⟨"invalid_rag_tokens","bad_tokens"⟩
    | some tokens => .ok ⟨.putChunk membrane (number chunk_id) (number doc_id) tokens,
        {type := ascii "rag_chunk_put", membrane := membrane, id := number chunk_id, id2 := number doc_id, aux_v := body},
        "rag_chunk_ingested"⟩
  | _ => .error (invalidPath "invalid_rag_path")

/-- The endpoints, in the order in which they are tried. -/
def endpoints : List (Bytes × (Bytes → Except Refusal Ingest)) :=
  [(ascii "/ingest/meta/",metaIngest),(ascii "/ingest/vector/",vectorIngest libc),
    (ascii "/ingest/graph/vertex/",graphVertexIngest),(ascii "/ingest/graph/edge/",graphEdgeIngest),
    (ascii "/ingest/mesh/",meshIngest libc),(ascii "/ingest/audio/",audioIngest libc),
    (ascii "/ingest/timeseries/",timeseriesIngest libc),(ascii "/ingest/keyvalue/",keyvalueIngest),
    (ascii "/ingest/document/",documentIngest),(ascii "/ingest/rag/",ragChunkIngest)]

def httpIngest : Option (Except Refusal Ingest) :=
  ((endpoints libc).find? fun endpoint => posts endpoint.1 req).map fun endpoint => endpoint.2 req

inductive LineRequest
  | incomplete
  | unauthorized
  | badProtocol
  | badVector
  | put (membrane : Bytes) (id : UInt64) (vec_s idem_key durability : Bytes)
  deriving DecidableEq, Repr

def lastField (line : Bytes) : Bytes × Bytes := (getline 124 line).getD ([],[])

def lineFields (proto line : Bytes) : LineRequest :=
  match getline 124 line with
  | none => .incomplete
  | some (membrane,line) =>
    match getline 124 line with
    | none => .incomplete
    | some (id_s,line) =>
      match getline 124 line with
      | none => .incomplete
      | some (vec_s,line) =>
        if (proto = ascii "MQTT" ∨ proto = ascii "WS") ∧ membrane ≠ [] ∧ id_s ≠ [] then
          if (vectorTokens libc vec_s).isEmpty then .badVector
          else
            let idem_key := lastField line
            .put membrane (number id_s) vec_s idem_key.1 (lastField idem_key.2).1
        else .badProtocol

/-- The token of a line: the second field, when the gateway has a token to compare it with. -/
def lineToken (auth_token line : Bytes) : Option Bytes :=
  if auth_token = [] then none
  else (getline 124 line).bind fun proto => (getline 124 proto.2).map (·.1)

def lineRequest (auth_token line : Bytes) : LineRequest :=
  match getline 124 line with
  | none => .incomplete
  | some (proto,line) =>
    if auth_token = [] then lineFields libc proto line
    else
      match getline 124 line with
      | none => .incomplete
      | some (token,line) => if token = auth_token then lineFields libc proto line else .unauthorized

namespace EdgeGateway

def token_reload_every_sec : UInt64 := 5
def idempotency_compact_every : Nat := 1000
def sync_max_queue : Nat := 10000

/-- One line of the token file: the token, the time it expires and its scopes. -/
def addToken (store : Dict Bytes TokenRecord) (line : Bytes) : Dict Bytes TokenRecord :=
  match cut [124] line with
  | none => store
  | some (token,rest) =>
    match cut [124] rest with
    | none => store
    | some (exp,scopes_raw) =>
      if token = [] then store
      else store.insert token ⟨number exp,((lines 44).all scopes_raw).filter (!·.isEmpty)⟩

def parseTokens (text : Bytes) : Dict Bytes TokenRecord := ((lines 10).all text).foldl addToken ∅

variable (g : EdgeGateway)

variable (env : GatewayEnv)

def reloadTokensIfNeeded : EdgeGateway :=
  if g.token_file_path = [] then g
  else if env.reload < g.token_last_reload_sec + token_reload_every_sec then g
  else
    let g := {g with token_last_reload_sec := env.reload}
    match env.token_file with
    | none => g
    | some (mtime,content) =>
      if mtime = g.token_file_mtime_sec then g
      else
        let g := {g with token_file_mtime_sec := mtime}
        match content with
        | none => g
        | some text => {g with token_store := parseTokens text}

variable (now : UInt64)

def tokenAllowsScope (token scope : Bytes) : Bool :=
  if g.auth_token ≠ [] ∧ token = g.auth_token then true
  else
    match g.token_store.lookup token with
    | none => false
    | some rec_ =>
      if rec_.exp_unix ≠ 0 ∧ now > rec_.exp_unix then false
      else rec_.scopes.contains scope || rec_.scopes.contains (ascii "*")

def isAuthorizedForScope (req scope : Bytes) : EdgeGateway × Bool :=
  if g.auth_token = [] ∧ g.token_file_path = [] then (g,true)
  else
    let g := g.reloadTokensIfNeeded env
    match bearerToken req with
    | none => (g,false)
    | some token => (g,g.tokenAllowsScope env.token token scope)

def allowRequest (now_sec : UInt64) : EdgeGateway × Bool :=
  let g := if g.rate_window_sec ≠ now_sec then {g with rate_window_sec := now_sec, rate_window_count := 0} else g
  let g := {g with rate_window_count := g.rate_window_count + 1}
  (g,g.rate_window_count ≤ g.rate_limit_per_sec)

def unexpiredKeys (keys : Dict Bytes UInt64) : Dict Bytes UInt64 := keys.keep fun _ expiry => now < expiry

def hasIdempotencyKey (key : Bytes) : EdgeGateway × Bool :=
  if key = [] then (g,false)
  else
    let g := {g with seen_idempotency_keys := unexpiredKeys now g.seen_idempotency_keys}
    (g,(g.seen_idempotency_keys.lookup key).isSome)

def keyLine (key : Bytes) : Bytes := key ++ [10]

def compactIdempotencyLogIfNeeded (files : GatewayFiles) : EdgeGateway × GatewayFiles :=
  if g.idempotency_append_count < idempotency_compact_every then (g,files)
  else
    let kept := unexpiredKeys env.compacted g.seen_idempotency_keys
    ({g with seen_idempotency_keys := kept, idempotency_append_count := 0},
      {files with idempotency_log := (env.walk.order kept).flatMap fun e => keyLine e.1})

def rememberIdempotencyKey (files : GatewayFiles) (key : Bytes) : EdgeGateway × GatewayFiles :=
  if key = [] then (g,files)
  else
    let inserted := (g.seen_idempotency_keys.lookup key).isNone
    let g := {g with seen_idempotency_keys := g.seen_idempotency_keys.insert key (env.remembered + g.idempotency_ttl_sec)}
    if inserted then
      compactIdempotencyLogIfNeeded {g with idempotency_append_count := g.idempotency_append_count + 1} env
        {files with idempotency_log := files.idempotency_log ++ keyLine key}
    else (g,files)

def saneKey (line : Bytes) : Bool := line ≠ [] && line.length ≤ 256 && !line.contains 10 && !line.contains 13

def loadIdempotencyLog (files : GatewayFiles) : EdgeGateway :=
  let keys := ((lines 10).all files.idempotency_log).filter saneKey
  {g with seen_idempotency_keys :=
    keys.foldl (fun seen key => seen.insert key (now + g.idempotency_ttl_sec)) g.seen_idempotency_keys}

def loadSeqState (files : GatewayFiles) : EdgeGateway :=
  match files.ingest_seq with
  | none => g
  | some text => {g with ingest_seq := number text}

def nextSeq (files : GatewayFiles) : EdgeGateway × GatewayFiles :=
  let seq := g.ingest_seq + 1
  ({g with ingest_seq := seq},{files with ingest_seq := some (decimal seq.toNat)})

variable (opt : GatewayOptions)

def enqueueSyncEvent (ev : SyncEvent) : EdgeGateway :=
  if !opt.gateway_upstream_sync_enabled || opt.gateway_upstream_sync_url.isEmpty then g
  else
    let queue := if g.sync_queue.length ≥ sync_max_queue then g.sync_queue.drop 1 else g.sync_queue
    {g with sync_queue := queue ++ [ev]}

/-- The settings of a start; an option that is 0 leaves the value the gateway has. -/
def configured (auth_token : Bytes) : EdgeGateway :=
  {g with
    running := true
    auth_token := auth_token
    token_file_path := opt.gateway_token_file
    rate_limit_per_sec := if opt.gateway_rate_limit_per_sec > 0 then opt.gateway_rate_limit_per_sec else g.rate_limit_per_sec
    idempotency_ttl_sec :=
      if opt.gateway_idempotency_ttl_sec > 0 then opt.gateway_idempotency_ttl_sec.toUInt64 else g.idempotency_ttl_sec}

/-- `Start`; the log of keys is read at `now`. Sockets are left out. -/
def start (auth_token : Bytes) (now : UInt64) (env : GatewayEnv) (files : GatewayFiles) : EdgeGateway × Status :=
  if g.running then (g,⟨.kAlreadyExists,"edge gateway already running"⟩)
  else ((((g.configured opt auth_token).loadIdempotencyLog now files).loadSeqState files).reloadTokensIfNeeded env,.Ok)

def stop : EdgeGateway := {g with running := false}

end EdgeGateway

/-- What a request leaves: the gateway, its files and the store behind it, the call that was
made, whether or not it succeeded, and the reply. -/
structure Served (σ : Type) where
  gateway : EdgeGateway
  files : GatewayFiles
  store : σ
  executed : Option ManagerCall
  reply : Reply

section Serve
variable {σ : Type} (opt : GatewayOptions) (libc : Libc) (mgr : Manager σ) (env : GatewayEnv)

def gets (page req : Bytes) : Bool := (ascii "GET " ++ page).isPrefixOf req || (ascii "GET /v1" ++ page).isPrefixOf req

variable (g : EdgeGateway)

variable (files : GatewayFiles)

/-- An accepted write: the key is remembered, then the event is numbered and queued. -/
def acceptHttp (key : Bytes) (event : SyncEvent) : EdgeGateway × GatewayFiles :=
  let kept := g.rememberIdempotencyKey env files key
  let numbered := kept.1.nextSeq kept.2
  (numbered.1.enqueueSyncEvent opt {event with seq := numbered.1.ingest_seq},numbered.2)

def ingestHttp (s : σ) (req : Bytes) : Served σ :=
  let key := idempotencyKey req
  let durable := httpHeaderValue req (ascii "X-Durability:") == ascii "D"
  let seen := g.hasIdempotencyKey env.seen key
  let g := seen.1
  if seen.2 then ⟨g,files,s,none,.json 200 "OK" "duplicate" "idempotency_key_seen" "ok"⟩
  else
    match httpIngest libc req with
    | none => ⟨g,files,s,none,.json 404 "Not Found" "error" "endpoint_not_found" "not_found"⟩
    | some (.error refusal) => ⟨g,files,s,none,.json 400 "Bad Request" "error" refusal.message refusal.err_code⟩
    | some (.ok ingest) =>
      let called := mgr.call s ingest.call
      if called.2.ok then
        let kept := acceptHttp opt env g files key ingest.event
        let s := if durable then (mgr.flushAll called.1).1 else called.1
        ⟨kept.1,kept.2,s,some ingest.call,.json 200 "OK" "ok" ingest.message (if durable then "durable_ack" else "accepted")⟩
      else ⟨g,files,called.1,some ingest.call,.json 400 "Bad Request" "error" called.2.message "write_failed"⟩

def recordsReply (req : Bytes) : Reply :=
  let line := (cut crlf req).elim req (·.1)
  let query := (cut [63] line).elim [] (·.2)
  let membrane := httpQueryParam query (ascii "membrane")
  let asked := httpQueryParam query (ascii "limit")
  let limit := if asked = [] then 10000 else number asked
  let limit := if limit = 0 then 10000 else limit
  if membrane = [] then .json 400 "Bad Request" "error" "membrane query parameter required" "bad_request"
  else .records membrane (if limit > 50000 then 50000 else limit)

def adminPage (s : σ) (req : Bytes) (page : Reply) : Served σ :=
  let checked := g.isAuthorizedForScope env req (ascii "admin:ops")
  ⟨checked.1,files,s,none,if checked.2 then page else .json 401 "Unauthorized" "error" "missing admin scope" "auth_scope_denied"⟩

def serveHttpConnection (s : σ) (req : Bytes) : Served σ :=
  if gets (ascii "/health ") req then ⟨g,files,s,none,.json 200 "OK" "ok" "healthy" "ok"⟩
  else if gets (ascii "/healthz ") req then ⟨g,files,s,none,.healthz⟩
  else if gets (ascii "/metrics ") req then adminPage env g files s req .metrics
  else if gets (ascii "/membrane/records") req then adminPage env g files s req (recordsReply req)
  else if opt.gateway_require_mtls_proxy_header ∧ cut opt.gateway_mtls_proxy_header req = none then
    ⟨g,files,s,none,.json 401 "Unauthorized" "error" "mtls proxy header missing" "mtls_required"⟩
  else
    let checked := g.isAuthorizedForScope env req (ascii "ingest:write")
    if checked.2 then ingestHttp opt libc mgr env checked.1 files s req
    else ⟨checked.1,files,s,none,.json 401 "Unauthorized" "error" "missing ingest scope" "auth_scope_denied"⟩

/-- The put of a line. With durability `D` it is done once everything is flushed. -/
def putLine (s : σ) (call : ManagerCall) (durability : Bytes) : σ × Status :=
  let called := mgr.call s call
  if called.2.ok ∧ durability = ascii "D" then mgr.flushAll called.1 else called

/-- An accepted line: it is numbered, then the key is remembered and the event queued. -/
def acceptLine (key : Bytes) (event : SyncEvent) : EdgeGateway × GatewayFiles :=
  let numbered := g.nextSeq files
  let kept := numbered.1.rememberIdempotencyKey env numbered.2 key
  (kept.1.enqueueSyncEvent opt {event with seq := numbered.1.ingest_seq},kept.2)

def ingestLine (s : σ) (membrane : Bytes) (id : UInt64) (vec_s idem_key durability : Bytes) : Served σ :=
  let seen := g.hasIdempotencyKey env.seen idem_key
  let g := seen.1
  if seen.2 then ⟨g,files,s,none,.line (ascii "ACK|duplicate\n")⟩
  else
    let call := .putVector membrane id (vectorTokens libc vec_s)
    let called := putLine mgr s call durability
    if called.2.ok then
      let kept := acceptLine opt env g files idem_key {type := ascii "vector_put", membrane := membrane, id := id, aux_v := vec_s}
      let ack := if durability = ascii "D" then ascii "ACK|durable_ack|seq=" else ascii "ACK|accepted|seq="
      ⟨kept.1,kept.2,called.1,some call,.line (ack ++ decimal kept.1.ingest_seq.toNat ++ ascii "\n")⟩
    else ⟨g,files,called.1,some call,.line (ascii "ERR|write_failed\n")⟩

def serveIngestConnection (s : σ) (line : Bytes) : Served σ :=
  match lineRequest libc g.auth_token line with
  | .incomplete | .unauthorized => ⟨g,files,s,none,.closed⟩
  | .badProtocol => ⟨g,files,s,none,.line (ascii "ERR|bad_protocol\n")⟩
  | .badVector => ⟨g,files,s,none,.line (ascii "ERR|bad_vector\n")⟩
  | .put membrane id vec_s idem_key durability =>
    ingestLine opt libc mgr env g files s membrane id vec_s idem_key durability

def recv_capacity : Nat := 16383

/-- `ProcessAcceptedClient`: of the bytes that are there when the gateway looks, at most 16
are peeked at and at most 16383 are taken, once. -/
def processAcceptedClient (s : σ) (peeked pending : Bytes) : Served σ :=
  if peeked = [] then ⟨g,files,s,none,.closed⟩
  else
    let allowed := g.allowRequest env.rate
    let g := allowed.1
    if !allowed.2 then
      ⟨g,files,s,none,if looksLikeHttpRequest (peeked.take 16)
        then .json 429 "Too Many Requests" "error" "rate_limited" "ok" else .line (ascii "ERR|rate_limited\n")⟩
    else
      let data := pending.take recv_capacity
      if data = [] then ⟨g,files,s,none,.closed⟩
      else if looksLikeHttpRequest data then serveHttpConnection opt libc mgr env g files s data
      else serveIngestConnection opt libc mgr env g files s data

end Serve

end PomaiCache
