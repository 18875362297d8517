import PomaiCache.GatewayRequests

/-!
Idempotency keys over whole runs of the gateway. A key is remembered in a map, with the time at
which it is forgotten, and as a line of a log from which a new process fills its map.
-/
namespace PomaiCache
open Codec RecordLog Text List UInt64

lemma lines_append_mark (mark : UInt8) (line rest : Bytes) :
    (lines mark).all (line ++ mark :: rest) = (lines mark).all (line ++ [mark]) ++ (lines mark).all rest := by
  induction size : line.length using Nat.strong_induction_on generalizing line with
  | _ size ih =>
    have one {front : Bytes} (plain : mark ∉ front) (tail : Bytes) :
        (lines mark).all (front ++ mark :: tail) = front :: (lines mark).all tail :=
      (lines mark).all_next (getline_mark plain tail)
    by_cases broken : mark ∈ line
    · obtain ⟨front,tail,rfl,plain⟩ := eq_append_cons_of_mem broken
      rw [append_assoc,cons_append,one plain,append_assoc,cons_append,one plain,cons_append,
        ih tail.length (by rw [← size]; simp; omega) tail rfl]
    · rw [one broken,one broken,Reader.all_nil]
      rfl

namespace EdgeGateway

lemma mem_lines_log {keys : List Bytes} {key : Bytes} (written : key ∈ keys) (plain : (10 : UInt8) ∉ key) :
    key ∈ (lines 10).all (keys.flatMap keyLine) := by
  induction keys with
  | nil => cases written
  | cons first keys ih =>
    have split_ : (first :: keys).flatMap keyLine = first ++ 10 :: keys.flatMap keyLine := by simp [keyLine]
    rw [split_,lines_append_mark]
    rcases mem_cons.mp written with rfl | later
    · have own : (lines 10).all (key ++ [10]) = key :: (lines 10).all [] := (lines 10).all_next (getline_mark plain [])
      simp [own]
    · exact mem_append_right _ (ih later)

def Seen (key : Bytes) (limit : Nat) (g : EdgeGateway) : Prop :=
  ∃ expiry, g.seen_idempotency_keys.lookup key = some expiry ∧ limit ≤ expiry.toNat

/-- The log is made of keys, one a line, and the key is among them if it can be read back. -/
def Logged (key : Bytes) (files : GatewayFiles) : Prop :=
  ∃ keys : List Bytes, files.idempotency_log = keys.flatMap keyLine ∧ (saneKey key = true → key ∈ keys)

/-! ### What the operations on keys do -/

variable {g : EdgeGateway} {env : GatewayEnv} {files : GatewayFiles} {key other : Bytes} {limit : Nat} {now : UInt64}

lemma Seen.unexpired (seen : g.Seen key limit) (early : now.toNat < limit) :
    ∃ expiry, (unexpiredKeys now g.seen_idempotency_keys).lookup key = some expiry ∧ limit ≤ expiry.toNat := by
  obtain ⟨expiry,held,long⟩ := seen
  refine ⟨expiry,?_,long⟩
  have alive : now < expiry := lt_iff_toNat_lt.mpr (by omega)
  rw [unexpiredKeys,Dict.lookup_keep,held]
  simp [alive]

lemma Seen.swept (seen : g.Seen key limit) (early : now.toNat < limit) : (g.hasIdempotencyKey now other).1.Seen key limit := by
  unfold hasIdempotencyKey
  split
  · exact seen
  · exact seen.unexpired early

lemma Seen.found (seen : g.Seen key limit) (some_ : key ≠ []) (early : now.toNat < limit) :
    (g.hasIdempotencyKey now key).2 = true := by
  obtain ⟨expiry,held,_⟩ := seen.unexpired early
  rw [hasIdempotencyKey,if_neg some_]
  simp [held]

lemma Seen.compacted (seen : g.Seen key limit) (early : env.compacted.toNat < limit) :
    (g.compactIdempotencyLogIfNeeded env files).1.Seen key limit := by
  unfold compactIdempotencyLogIfNeeded
  split
  · exact seen
  · exact seen.unexpired early

lemma Logged.compacted (logged : Logged key files) (seen : g.Seen key limit) (early : env.compacted.toNat < limit) :
    Logged key (g.compactIdempotencyLogIfNeeded env files).2 := by
  unfold compactIdempotencyLogIfNeeded
  split
  · exact logged
  · refine ⟨(env.walk.order (unexpiredKeys env.compacted g.seen_idempotency_keys)).map (·.1),?_,fun _ => ?_⟩
    · rw [flatMap_map]
    · obtain ⟨expiry,held,_⟩ := seen.unexpired early
      have entry := ((env.walk.perm _).mem_iff).mpr (Dict.mem_entries.mpr held)
      exact mem_map.mpr ⟨_,entry,rfl⟩

lemma complete_compacted (complete : Logged [] files) : Logged [] (g.compactIdempotencyLogIfNeeded env files).2 := by
  unfold compactIdempotencyLogIfNeeded
  split
  · exact complete
  · exact ⟨_,(flatMap_map ..).symm,fun sane => absurd sane (by decide)⟩

lemma Logged.append (logged : Logged key files) :
    Logged key {files with idempotency_log := files.idempotency_log ++ keyLine other} := by
  obtain ⟨keys,text,among⟩ := logged
  refine ⟨keys ++ [other],?_,fun sane => mem_append_left _ (among sane)⟩
  simp [text]

lemma seen_inserted {expiry : UInt64} (later : limit ≤ expiry.toNat) (count : Nat) :
    ({g with seen_idempotency_keys := g.seen_idempotency_keys.insert key expiry, idempotency_append_count := count} :
      EdgeGateway).Seen key limit :=
  ⟨_,AList.lookup_insert _,later⟩

lemma Seen.inserted (seen : g.Seen key limit) (later : limit ≤ expiry.toNat) (count : Nat) :
    ({g with seen_idempotency_keys := g.seen_idempotency_keys.insert other expiry, idempotency_append_count := count} :
      EdgeGateway).Seen key limit := by
  by_cases same : key = other
  · subst same
    exact seen_inserted later count
  · obtain ⟨held_,held,long⟩ := seen
    exact ⟨held_,by rw [AList.lookup_insert_ne same]; exact held,long⟩

lemma Seen.remembered (seen : g.Seen key limit) (early : env.compacted.toNat < limit)
    (later : limit ≤ (env.remembered + g.idempotency_ttl_sec).toNat) :
    (g.rememberIdempotencyKey env files other).1.Seen key limit := by
  unfold rememberIdempotencyKey
  split
  · exact seen
  · dsimp only
    split
    · exact (seen.inserted later _).compacted early
    · exact seen.inserted later _

lemma Logged.remembered (logged : Logged key files) (seen : g.Seen key limit) (early : env.compacted.toNat < limit)
    (later : limit ≤ (env.remembered + g.idempotency_ttl_sec).toNat) :
    Logged key (g.rememberIdempotencyKey env files other).2 := by
  unfold rememberIdempotencyKey
  split
  · exact logged
  · dsimp only
    split
    · exact logged.append.compacted (seen.inserted later _) early
    · exact logged

lemma seen_rememberIdempotencyKey (some_ : key ≠ []) (early : env.compacted.toNat < limit)
    (later : limit ≤ (env.remembered + g.idempotency_ttl_sec).toNat) :
    (g.rememberIdempotencyKey env files key).1.Seen key limit := by
  rw [rememberIdempotencyKey,if_neg some_]
  dsimp only
  split
  · exact (seen_inserted later _).compacted early
  · exact seen_inserted later _

lemma logged_rememberIdempotencyKey (complete : Logged [] files) (new : g.seen_idempotency_keys.lookup key = none)
    (some_ : key ≠ []) (early : env.compacted.toNat < limit) (later : limit ≤ (env.remembered + g.idempotency_ttl_sec).toNat) :
    Logged key (g.rememberIdempotencyKey env files key).2 := by
  obtain ⟨keys,text,_⟩ := complete
  have line : Logged key {files with idempotency_log := files.idempotency_log ++ keyLine key} :=
    ⟨keys ++ [key],by simp [text],fun _ => by simp⟩
  rw [rememberIdempotencyKey,if_neg some_,new]
  exact line.compacted (seen_inserted later _) early

lemma complete_rememberIdempotencyKey (complete : Logged [] files) : Logged [] (g.rememberIdempotencyKey env files key).2 := by
  unfold rememberIdempotencyKey
  split
  · exact complete
  · dsimp only
    split
    · exact complete_compacted complete.append
    · exact complete

end EdgeGateway

section Requests
variable {σ : Type} {opt : GatewayOptions} {libc : Libc} {mgr : Manager σ} {env : GatewayEnv} {g : EdgeGateway}
  {files : GatewayFiles} {s : σ} {peeked pending key : Bytes} {P : EdgeGateway → GatewayFiles → Prop}

/-- The gateway and the files that a request leaves have the property. -/
def Served.Leaves (served : Served σ) (P : EdgeGateway → GatewayFiles → Prop) : Prop := P served.gateway served.files

/-- A property that is kept up to the point where the key is looked up. -/
structure Screened (env : GatewayEnv) (P : EdgeGateway → GatewayFiles → Prop) : Prop where
  counted : ∀ {g files}, P g files → P (g.allowRequest env.rate).1 files
  checked : ∀ {g files} (req scope), P g files → P (g.isAuthorizedForScope env req scope).1 files

/-- A property that every part of the handling of a request keeps. -/
structure ClosedUnder (opt : GatewayOptions) (env : GatewayEnv) (P : EdgeGateway → GatewayFiles → Prop) : Prop extends
    Screened env P where
  swept : ∀ {g files} (key), P g files → P (g.hasIdempotencyKey env.seen key).1 files
  numbered : ∀ {g files}, P g files → P (g.nextSeq files).1 (g.nextSeq files).2
  remembered : ∀ {g files} (key), P g files →
    P (g.rememberIdempotencyKey env files key).1 (g.rememberIdempotencyKey env files key).2
  queued : ∀ {g files} (event), P g files → P (g.enqueueSyncEvent opt event) files

namespace ClosedUnder

lemma ingestHttp (closed : ClosedUnder opt env P) (holds : P g files) (req : Bytes) :
    (ingestHttp opt libc mgr env g files s req).Leaves P := by
  unfold Served.Leaves
  have swept := closed.swept (idempotencyKey req) holds
  rcases ingestHttp_cases opt libc mgr env g files s req with ⟨_,gateway,kept⟩ | ⟨_,ingest,_,_,⟨_,gateway,kept⟩ | both⟩
  · rw [gateway,kept]
    exact swept
  · rw [gateway,kept]
    exact swept
  · obtain ⟨gateway,kept⟩ := Prod.mk.inj both
    rw [gateway,kept]
    exact closed.queued _ (closed.numbered (closed.remembered _ swept))

lemma ingestLine (closed : ClosedUnder opt env P) (holds : P g files) (membrane : Bytes) (id : UInt64)
    (vec_s idem_key durability : Bytes) :
    (ingestLine opt libc mgr env g files s membrane id vec_s idem_key durability).Leaves P := by
  unfold Served.Leaves
  have swept := closed.swept idem_key holds
  rcases ingestLine_cases opt libc mgr env g files s membrane id vec_s idem_key durability with
    ⟨_,gateway,kept⟩ | ⟨_,_,⟨_,gateway,kept⟩ | ⟨event,both⟩⟩
  · rw [gateway,kept]
    exact swept
  · rw [gateway,kept]
    exact swept
  · obtain ⟨gateway,kept⟩ := Prod.mk.inj both
    rw [gateway,kept]
    exact closed.queued _ (closed.remembered _ (closed.numbered swept))

lemma adminPage (closed : ClosedUnder opt env P) (holds : P g files) (req : Bytes) (page : Reply) :
    (adminPage env g files s req page).Leaves P :=
  closed.checked req _ holds

lemma serveHttpConnection (closed : ClosedUnder opt env P) (holds : P g files) (req : Bytes) :
    (serveHttpConnection opt libc mgr env g files s req).Leaves P := by
  unfold PomaiCache.serveHttpConnection
  split
  · exact holds
  split
  · exact holds
  split
  · exact closed.adminPage holds req _
  split
  · exact closed.adminPage holds req _
  split
  · exact holds
  dsimp only
  split
  · exact closed.ingestHttp (closed.checked req _ holds) req
  · exact closed.checked req _ holds

lemma serveIngestConnection (closed : ClosedUnder opt env P) (holds : P g files) (line : Bytes) :
    (serveIngestConnection opt libc mgr env g files s line).Leaves P := by
  unfold PomaiCache.serveIngestConnection
  split
  · exact holds
  · exact holds
  · exact holds
  · exact holds
  · exact closed.ingestLine holds ..

lemma processAcceptedClient (closed : ClosedUnder opt env P) (holds : P g files) (peeked pending : Bytes) :
    (processAcceptedClient opt libc mgr env g files s peeked pending).Leaves P := by
  unfold PomaiCache.processAcceptedClient
  split
  · exact holds
  dsimp only
  split
  · exact closed.counted holds
  split
  · exact closed.counted holds
  split
  · exact closed.serveHttpConnection (closed.counted holds) _
  · exact closed.serveIngestConnection (closed.counted holds) _

end ClosedUnder

/-- A request that makes a write found its key unseen; if the write is accepted, the key is
remembered. -/
lemma Screened.made (screened : Screened env P) (holds : P g files)
    (made : (processAcceptedClient opt libc mgr env g files s peeked pending).executed = some call) :
    let served := processAcceptedClient opt libc mgr env g files s peeked pending
    let key := requestKey libc g.auth_token (pending.take recv_capacity)
    ∃ at_, P at_ files ∧ (at_.hasIdempotencyKey env.seen key).2 = false ∧ (served.reply.accepts = true → ∃ event,
        (served.gateway,served.files) = acceptHttp opt env (at_.hasIdempotencyKey env.seen key).1 files key event ∨
        (served.gateway,served.files) = acceptLine opt env (at_.hasIdempotencyKey env.seen key).1 files key event) := by
  have served := processAcceptedClient_made made
  have counted := screened.counted holds
  obtain ⟨window,count,same⟩ := allowRequest_eq g env.rate
  have token : (g.allowRequest env.rate).1.auth_token = g.auth_token := by rw [same]
  dsimp only at served ⊢
  rw [served] at made ⊢
  clear served same
  generalize (g.allowRequest env.rate).1 = at_ at *
  generalize pending.take recv_capacity = data at *
  by_cases http : looksLikeHttpRequest data = true
  · rw [if_pos http] at made ⊢
    obtain ⟨_,let_through⟩ := serveHttpConnection_made made
    rw [let_through] at made ⊢
    rw [requestKey,if_pos http]
    have checked := screened.checked data (ascii "ingest:write") counted
    rcases ingestHttp_cases opt libc mgr env (at_.isAuthorizedForScope env data (ascii "ingest:write")).1 files s data with
      ⟨nothing,_⟩ | ⟨unseen,ingest,_,_,⟨refused,_⟩ | both⟩
    · rw [nothing] at made
      cases made
    · grind
    · exact ⟨_,checked,unseen,fun _ => ⟨_,.inl both⟩⟩
  · rw [if_neg http] at made ⊢
    obtain ⟨membrane,id,vec_s,idem_key,durability,asked,complete⟩ := serveIngestConnection_made made
    rw [complete] at made ⊢
    rw [requestKey,if_neg http,← token,asked]
    rcases ingestLine_cases opt libc mgr env at_ files s membrane id vec_s idem_key durability with
      ⟨nothing,_⟩ | ⟨unseen,_,⟨refused,_⟩ | ⟨event,both⟩⟩
    · rw [nothing] at made
      cases made
    · grind
    · exact ⟨_,counted,unseen,fun _ => ⟨event,.inr both⟩⟩

end Requests
namespace EdgeGateway
variable {opt : GatewayOptions} {g : EdgeGateway} {env : GatewayEnv} {files : GatewayFiles} {key token : Bytes} {limit : Nat} {now : UInt64}

def ttl (opt : GatewayOptions) : UInt64 :=
  if opt.gateway_idempotency_ttl_sec > 0 then opt.gateway_idempotency_ttl_sec.toUInt64 else 300

structure Timed (opt : GatewayOptions) (g : EdgeGateway) : Prop where
  either : g.idempotency_ttl_sec = 300 ∨ g.idempotency_ttl_sec = ttl opt
  running : g.running = true → g.idempotency_ttl_sec = ttl opt

lemma lookup_foldl_insert (keys : List Bytes) (expiry : UInt64) (seen : Dict Bytes UInt64) (key : Bytes) :
    (keys.foldl (fun seen key => seen.insert key expiry) seen).lookup key =
      if key ∈ keys then some expiry else seen.lookup key := by
  induction keys generalizing seen with
  | nil => simp
  | cons first keys ih =>
    rw [foldl_cons,ih]
    by_cases later : key ∈ keys
    · simp [later]
    · by_cases same : key = first
      · subst same
        simp [later]
      · simp [same,later]

lemma loadSeqState_eq (g : EdgeGateway) (files : GatewayFiles) : ∃ seq, g.loadSeqState files = {g with ingest_seq := seq} := by
  unfold loadSeqState
  cases files.ingest_seq with
  | none => exact ⟨_,rfl⟩
  | some text => exact ⟨_,rfl⟩

/-- What a start leaves of the keys: the ones it had, and the sane lines of the log for the
whole time from now on. -/
lemma start_stopped (timed : g.Timed opt) (stopped : g.running = false) (token : Bytes) (now : UInt64) (env : GatewayEnv)
    (files : GatewayFiles) :
    (g.start opt token now env files).1.running = true ∧ (g.start opt token now env files).1.idempotency_ttl_sec = ttl opt ∧
      ∀ key, (g.start opt token now env files).1.seen_idempotency_keys.lookup key =
        if key ∈ ((lines 10).all files.idempotency_log).filter saneKey then some (now + ttl opt)
        else g.seen_idempotency_keys.lookup key := by
  have time : (g.configured opt token).idempotency_ttl_sec = ttl opt := by
    by_cases chosen : opt.gateway_idempotency_ttl_sec > 0
    · simp only [configured,ttl,chosen,if_true]
    · rcases timed.either with default_ | set_
      · simp only [configured,ttl,chosen,if_false,default_]
      · simp only [configured,chosen,if_false,set_]
  obtain ⟨seq,numbered⟩ := loadSeqState_eq ((g.configured opt token).loadIdempotencyLog now files) files
  obtain ⟨store,mtime,last,reloaded⟩ :=
    reloadTokensIfNeeded_eq (((g.configured opt token).loadIdempotencyLog now files).loadSeqState files) env
  rw [start,stopped,if_neg Bool.false_ne_true,reloaded,numbered]
  refine ⟨rfl,time,fun key => ?_⟩
  dsimp only [loadIdempotencyLog]
  rw [lookup_foldl_insert,time]
  rfl

lemma timed_new (opt : GatewayOptions) : Timed opt {} := ⟨.inl rfl,fun running => by cases running⟩

lemma Timed.started (timed : g.Timed opt) : (g.start opt token now env files).1.Timed opt := by
  cases stopped : g.running with
  | true =>
    rw [start,stopped,if_pos rfl]
    exact timed
  | false =>
    obtain ⟨_,time,_⟩ := start_stopped timed stopped token now env files
    exact ⟨.inr time,fun _ => time⟩

lemma Seen.started (timed : g.Timed opt) (logged : Logged key files)
    (seen : g.Seen key limit ∨ (saneKey key = true ∧ g.running = false)) (later : limit ≤ (now + ttl opt).toNat) :
    (g.start opt token now env files).1.Seen key limit := by
  cases stopped : g.running with
  | true =>
    rw [start,stopped,if_pos rfl]
    grind
  | false =>
    obtain ⟨_,_,lookup⟩ := start_stopped timed stopped token now env files
    by_cases line : key ∈ ((lines 10).all files.idempotency_log).filter saneKey
    · exact ⟨_,by rw [lookup,if_pos line],later⟩
    · rcases seen with ⟨expiry,held,long⟩ | ⟨sane,_⟩
      · exact ⟨expiry,by rw [lookup,if_neg line]; exact held,long⟩
      · obtain ⟨keys,text,among⟩ := logged
        have plain : (10 : UInt8) ∉ key := by
          simp only [saneKey,Bool.and_eq_true,Bool.not_eq_true',contains_eq_mem,decide_eq_false_iff_not] at sane
          exact sane.1.2
        grind [absurd,mem_lines_log]

structure Ready (opt : GatewayOptions) (g : EdgeGateway) (files : GatewayFiles) : Prop where
  running : g.running = true
  time : g.idempotency_ttl_sec = ttl opt
  complete : Logged [] files

structure Keeps (opt : GatewayOptions) (key : Bytes) (limit : Nat) (g : EdgeGateway) (files : GatewayFiles) : Prop extends
    Ready opt g files where
  seen : g.Seen key limit
  logged : Logged key files

lemma hasIdempotencyKey_eq (g : EdgeGateway) (now : UInt64) (key : Bytes) :
    ∃ keys, (g.hasIdempotencyKey now key).1 = {g with seen_idempotency_keys := keys} := by
  unfold hasIdempotencyKey
  split
  · exact ⟨_,rfl⟩
  · exact ⟨_,rfl⟩

lemma rememberIdempotencyKey_eq (g : EdgeGateway) (env : GatewayEnv) (files : GatewayFiles) (key : Bytes) :
    ∃ keys count, (g.rememberIdempotencyKey env files key).1 =
      {g with seen_idempotency_keys := keys, idempotency_append_count := count} := by
  unfold rememberIdempotencyKey compactIdempotencyLogIfNeeded
  dsimp only
  split
  · exact ⟨_,_,rfl⟩
  split
  · split
    · exact ⟨_,_,rfl⟩
    · exact ⟨_,_,rfl⟩
  · exact ⟨_,_,rfl⟩

lemma enqueueSyncEvent_eq (g : EdgeGateway) (opt : GatewayOptions) (event : SyncEvent) :
    ∃ queue, g.enqueueSyncEvent opt event = {g with sync_queue := queue} := by
  unfold enqueueSyncEvent
  split
  · exact ⟨_,rfl⟩
  · exact ⟨_,rfl⟩

lemma isAuthorizedForScope_eq (g : EdgeGateway) (env : GatewayEnv) (req scope : Bytes) :
    ∃ store mtime last, (g.isAuthorizedForScope env req scope).1 =
      {g with token_store := store, token_file_mtime_sec := mtime, token_last_reload_sec := last} := by
  unfold isAuthorizedForScope
  split
  · exact ⟨_,_,_,rfl⟩
  · cases bearerToken req with
    | none => exact reloadTokensIfNeeded_eq g env
    | some token => exact reloadTokensIfNeeded_eq g env

lemma ready_closed (opt : GatewayOptions) (env : GatewayEnv) : ClosedUnder opt env (Ready opt) where
  counted ready := by
    obtain ⟨window,count,same⟩ := allowRequest_eq _ env.rate
    rw [same]
    exact ⟨ready.running,ready.time,ready.complete⟩
  checked req scope ready := by
    obtain ⟨store,mtime,last,same⟩ := isAuthorizedForScope_eq _ env req scope
    rw [same]
    exact ⟨ready.running,ready.time,ready.complete⟩
  swept key ready := by
    obtain ⟨keys,same⟩ := hasIdempotencyKey_eq _ env.seen key
    rw [same]
    exact ⟨ready.running,ready.time,ready.complete⟩
  numbered ready := ⟨ready.running,ready.time,ready.complete⟩
  remembered {g files} key ready := by
    have complete : Logged [] (g.rememberIdempotencyKey env files key).2 := complete_rememberIdempotencyKey ready.complete
    obtain ⟨keys,count,same⟩ := rememberIdempotencyKey_eq g env files key
    rw [same]
    exact ⟨ready.running,ready.time,complete⟩
  queued event ready := by
    obtain ⟨queue,same⟩ := enqueueSyncEvent_eq _ opt event
    rw [same]
    exact ⟨ready.running,ready.time,ready.complete⟩

lemma Seen.counted (seen : g.Seen key limit) : (g.allowRequest now).1.Seen key limit := by
  obtain ⟨window,count,same⟩ := allowRequest_eq g now
  rw [same]
  exact seen

lemma Seen.checked (seen : g.Seen key limit) : (g.isAuthorizedForScope env req scope).1.Seen key limit := by
  obtain ⟨store,mtime,last,same⟩ := isAuthorizedForScope_eq g env req scope
  rw [same]
  exact seen

lemma seen_screened (env : GatewayEnv) : Screened env fun g _ => g.Seen key limit := ⟨Seen.counted,fun _ _ seen => seen.checked⟩

lemma keeps_closed (soon : env.seen.toNat < limit)
    (early : env.compacted.toNat < limit) (later : limit ≤ (env.remembered + ttl opt).toNat) :
    ClosedUnder opt env (Keeps opt key limit) where
  counted keeps := ⟨(ready_closed opt env).counted keeps.toReady,keeps.seen.counted,keeps.logged⟩
  checked req scope keeps :=
    ⟨(ready_closed opt env).checked req scope keeps.toReady,keeps.seen.checked,keeps.logged⟩
  swept other keeps := ⟨(ready_closed opt env).swept other keeps.toReady,keeps.seen.swept soon,keeps.logged⟩
  numbered keeps := ⟨(ready_closed opt env).numbered keeps.toReady,keeps.seen,keeps.logged⟩
  remembered other keeps := by
    have later := later
    rw [← keeps.time] at later
    exact ⟨(ready_closed opt env).remembered other keeps.toReady,keeps.seen.remembered early later,
      keeps.logged.remembered keeps.seen early later⟩
  queued {g files} event keeps := by
    refine ⟨(ready_closed opt env).queued event keeps.toReady,?_,keeps.logged⟩
    obtain ⟨queue,same⟩ := enqueueSyncEvent_eq g opt event
    rw [same]
    exact keeps.seen

lemma lookup_unseen (some_ : key ≠ []) (unseen : (g.hasIdempotencyKey now key).2 = false) :
    (g.hasIdempotencyKey now key).1.seen_idempotency_keys.lookup key = none := by
  rw [hasIdempotencyKey,if_neg some_] at unseen ⊢
  simpa using unseen

lemma keeps_remembered (ready : Ready opt g files) (new : g.seen_idempotency_keys.lookup key = none) (some_ : key ≠ [])
    (early : env.compacted.toNat < limit) (later : limit ≤ (env.remembered + ttl opt).toNat) :
    Keeps opt key limit (g.rememberIdempotencyKey env files key).1 (g.rememberIdempotencyKey env files key).2 := by
  rw [← ready.time] at later
  exact ⟨(ready_closed opt env).remembered key ready,seen_rememberIdempotencyKey some_ early later,
    logged_rememberIdempotencyKey ready.complete new some_ early later⟩

section Accepted
variable {σ : Type} {libc : Libc} {mgr : Manager σ} {s : σ} {peeked pending : Bytes} {call : ManagerCall}

lemma keeps_accepted (ready : Ready opt g files) (named : requestKey libc g.auth_token (pending.take recv_capacity) = key)
    (some_ : key ≠ []) (made : (processAcceptedClient opt libc mgr env g files s peeked pending).executed = some call)
    (accepts : (processAcceptedClient opt libc mgr env g files s peeked pending).reply.accepts = true)
    (soon : env.seen.toNat < limit) (early : env.compacted.toNat < limit) (later : limit ≤ (env.remembered + ttl opt).toNat) :
    (processAcceptedClient opt libc mgr env g files s peeked pending).Leaves (Keeps opt key limit) := by
  unfold Served.Leaves
  obtain ⟨at_,there,unseen,remembers⟩ := (ready_closed opt env).toScreened.made ready made
  rw [named] at unseen remembers
  have swept := (ready_closed opt env).swept key there
  have new := lookup_unseen some_ unseen
  have closed : ClosedUnder opt env (Keeps opt key limit) := keeps_closed soon early later
  obtain ⟨event,http | line⟩ := remembers accepts
  · obtain ⟨gateway,kept⟩ := Prod.mk.inj http
    rw [gateway,kept]
    exact closed.queued _ (closed.numbered (keeps_remembered swept new some_ early later))
  · obtain ⟨gateway,kept⟩ := Prod.mk.inj line
    rw [gateway,kept]
    exact closed.queued _ (keeps_remembered ((ready_closed opt env).numbered swept) new some_ early later)

lemma Seen.silent (seen : g.Seen key limit) (some_ : key ≠ [])
    (named : requestKey libc g.auth_token (pending.take recv_capacity) = key) (soon : env.seen.toNat < limit) :
    (processAcceptedClient opt libc mgr env g files s peeked pending).executed = none := by
  cases made : (processAcceptedClient opt libc mgr env g files s peeked pending).executed with
  | none => rfl
  | some call =>
    obtain ⟨at_,there,unseen,_⟩ := (seen_screened env).made seen made
    rw [named,there.found some_ soon] at unseen
    cases unseen

end Accepted
end EdgeGateway
structure GatewayState (σ : Type) where
  gateway : EdgeGateway := {}
  files : GatewayFiles := {}
  store : σ

/-- What happens to a gateway. A new process finds the files, and a store of which nothing is
assumed. -/
inductive GatewayStep (σ : Type)
  | request (env : GatewayEnv) (peeked pending : Bytes)
  | start (auth_token : Bytes) (now : UInt64) (env : GatewayEnv)
  | stop
  | newProcess (store : σ)

def GatewayStep.times {σ : Type} : GatewayStep σ → List UInt64
  | request env _ _ => [env.rate,env.reload,env.token,env.seen,env.remembered,env.compacted]
  | start _ now env => [now,env.reload]
  | stop => []
  | newProcess _ => []

namespace GatewayState
variable {σ : Type} (opt : GatewayOptions) (libc : Libc) (mgr : Manager σ)

variable (st : GatewayState σ)

def answer (env : GatewayEnv) (peeked pending : Bytes) : Option (Served σ) :=
  if st.gateway.running then some (processAcceptedClient opt libc mgr env st.gateway st.files st.store peeked pending) else none

def step : GatewayStep σ → GatewayState σ
  | .request env peeked pending =>
    match st.answer opt libc mgr env peeked pending with
    | some served => ⟨served.gateway,served.files,served.store⟩
    | none => st
  | .start auth_token now env => {st with gateway := (st.gateway.start opt auth_token now env st.files).1}
  | .stop => {st with gateway := st.gateway.stop}
  | .newProcess store => ⟨{},st.files,store⟩

def runAll (steps : List (GatewayStep σ)) : GatewayState σ := steps.foldl (step opt libc mgr) st

open EdgeGateway

structure Sound (opt : GatewayOptions) (st : GatewayState σ) : Prop where
  timed : st.gateway.Timed opt
  complete : Logged [] st.files

/-- A key that was accepted and whose time is not over: the gateway has it, or a new process
will read it from the log. -/
structure Remembers (opt : GatewayOptions) (key : Bytes) (limit : Nat) (st : GatewayState σ) : Prop extends Sound opt st where
  seen : st.gateway.Seen key limit ∨ (saneKey key = true ∧ st.gateway.running = false)
  logged : Logged key st.files

variable {opt libc mgr} {st : GatewayState σ} {key : Bytes} {limit : Nat}

lemma Sound.step (sound : st.Sound opt) (next : GatewayStep σ) : (st.step opt libc mgr next).Sound opt := by
  cases next with
  | request env peeked pending =>
    simp only [GatewayState.step,answer]
    cases running : st.gateway.running with
    | false => exact sound
    | true =>
      have ready : Ready opt st.gateway st.files := ⟨running,sound.timed.running running,sound.complete⟩
      have kept : (processAcceptedClient opt libc mgr env st.gateway st.files st.store peeked pending).Leaves (Ready opt) :=
        (ready_closed opt env).processAcceptedClient ready peeked pending
      exact ⟨⟨.inr kept.time,fun _ => kept.time⟩,kept.complete⟩
  | start auth_token now env => exact ⟨sound.timed.started,sound.complete⟩
  | stop => exact ⟨⟨sound.timed.either,fun running => by cases running⟩,sound.complete⟩
  | newProcess store => exact ⟨timed_new opt,sound.complete⟩

lemma Sound.runAll (sound : st.Sound opt) (steps : List (GatewayStep σ)) : (st.runAll opt libc mgr steps).Sound opt := by
  induction steps generalizing st with
  | nil => exact sound
  | cons first steps ih => exact ih (sound.step first)

/-- A step before the time is over keeps the key, except that a new process loses one that the
log does not give back. -/
lemma Remembers.step (remembers : st.Remembers opt key limit) (next : GatewayStep σ)
    (inside : ∀ t ∈ next.times, t.toNat < limit ∧ limit ≤ (t + ttl opt).toNat)
    (safe : saneKey key = true ∨ ∀ store, next ≠ .newProcess store) : (st.step opt libc mgr next).Remembers opt key limit := by
  have sound : (st.step opt libc mgr next).Sound opt := remembers.toSound.step next
  cases next with
  | request env peeked pending =>
    simp only [GatewayState.step,answer] at sound ⊢
    cases running : st.gateway.running with
    | false => exact remembers
    | true =>
      have seen : st.gateway.Seen key limit := remembers.seen.resolve_right fun both => by
        rw [running] at both
        cases both.2
      have ready : Ready opt st.gateway st.files := ⟨running,remembers.timed.running running,remembers.complete⟩
      have closed : ClosedUnder opt env (Keeps opt key limit) :=
        keeps_closed (inside env.seen (by simp [GatewayStep.times])).1 (inside env.compacted (by simp [GatewayStep.times])).1
          (inside env.remembered (by simp [GatewayStep.times])).2
      have kept : (processAcceptedClient opt libc mgr env st.gateway st.files st.store peeked pending).Leaves (Keeps opt key limit) :=
        closed.processAcceptedClient ⟨ready,seen,remembers.logged⟩ peeked pending
      exact ⟨⟨⟨.inr kept.time,fun _ => kept.time⟩,kept.complete⟩,.inl kept.seen,kept.logged⟩
  | start auth_token now env =>
    have later := (inside now (by simp [GatewayStep.times])).2
    exact ⟨sound,.inl (Seen.started remembers.timed remembers.logged remembers.seen later),remembers.logged⟩
  | stop => exact ⟨sound,remembers.seen.imp id fun both => ⟨both.1,rfl⟩,remembers.logged⟩
  | newProcess store =>
    have sane := safe.resolve_right fun none_ => none_ store rfl
    exact ⟨sound,.inr ⟨sane,rfl⟩,remembers.logged⟩

lemma Remembers.runAll (remembers : st.Remembers opt key limit) (steps : List (GatewayStep σ))
    (inside : ∀ t ∈ steps.flatMap GatewayStep.times, t.toNat < limit ∧ limit ≤ (t + ttl opt).toNat)
    (safe : saneKey key = true ∨ ∀ store, GatewayStep.newProcess store ∉ steps) :
    (st.runAll opt libc mgr steps).Remembers opt key limit := by
  induction steps generalizing st with
  | nil => exact remembers
  | cons first steps ih =>
    rw [flatMap_cons] at inside
    apply ih
    · apply remembers.step first
      · exact fun t member => inside t (mem_append_left _ member)
      · grind
    · grind
    · grind

def Accepts (opt : GatewayOptions) (libc : Libc) (mgr : Manager σ) (st : GatewayState σ) (env : GatewayEnv)
    (peeked pending key : Bytes) : Prop :=
  ∃ served, st.answer opt libc mgr env peeked pending = some served ∧ served.executed.isSome = true ∧
    served.reply.accepts = true ∧ requestKey libc st.gateway.auth_token (pending.take recv_capacity) = key

/-- The clock does not run backwards, and shows a time of 63 bits. -/
structure Clocked (steps : List (GatewayStep σ)) : Prop where
  forwards : (steps.flatMap GatewayStep.times).Pairwise (· ≤ ·)
  dated : ∀ t ∈ steps.flatMap GatewayStep.times, t.toNat < 2 ^ 63

lemma ttl_inside (after : first ≤ t) (before : t ≤ last)
    (dated : t.toNat < 2 ^ 63) (soon : last.toNat < first.toNat + (ttl opt).toNat) :
    t.toNat < first.toNat + (ttl opt).toNat ∧ first.toNat + (ttl opt).toNat ≤ (t + ttl opt).toNat := by
  have small : (ttl opt).toNat < 2 ^ 32 := by
    unfold ttl
    split
    · rw [UInt32.toNat_toUInt64]
      exact UInt32.toNat_lt _
    · decide
  have after_ := le_iff_toNat_le.mp after
  have before_ := le_iff_toNat_le.mp before
  rw [UInt64.toNat_add]
  omega

section Clock
variable {before between : List (GatewayStep σ)} {env₁ env₂ : GatewayEnv} {peeked₁ pending₁ peeked₂ pending₂ : Bytes}

/-- Every reading of the clock, from the one that dates the key to the one of the second
request, is inside the time of the key. -/
lemma Clocked.inside
    (clocked : Clocked (before ++ GatewayStep.request env₁ peeked₁ pending₁ :: (between ++ [GatewayStep.request env₂ peeked₂ pending₂])))
    (soon : env₂.seen.toNat < env₁.remembered.toNat + (ttl opt).toNat) :
    ∀ t ∈ env₁.remembered :: env₁.compacted :: between.flatMap GatewayStep.times,
      t.toNat < env₁.remembered.toNat + (ttl opt).toNat ∧ env₁.remembered.toNat + (ttl opt).toNat ≤ (t + ttl opt).toNat := by
  obtain ⟨forwards,dated⟩ := clocked
  simp only [flatMap_append,flatMap_cons,flatMap_nil,append_nil] at forwards dated
  obtain ⟨own,rest,across⟩ := pairwise_append.mp (pairwise_append.mp forwards).2.1
  obtain ⟨_,_,into⟩ := pairwise_append.mp rest
  simp only [GatewayStep.times,pairwise_cons,mem_cons,not_mem_nil,or_false] at own
  have end_ : env₂.seen ∈ (GatewayStep.request env₂ peeked₂ pending₂ : GatewayStep σ).times := by simp [GatewayStep.times]
  have start_ : env₁.remembered ∈ (GatewayStep.request env₁ peeked₁ pending₁ : GatewayStep σ).times := by simp [GatewayStep.times]
  have compacted : env₁.compacted ∈ (GatewayStep.request env₁ peeked₁ pending₁ : GatewayStep σ).times := by simp [GatewayStep.times]
  intro t member
  rcases mem_cons.mp member with rfl | member
  · exact ttl_inside (UInt64.le_refl _) (across _ start_ _ (mem_append_right _ end_)) (dated _ (by simp [start_])) soon
  rcases mem_cons.mp member with rfl | member
  · exact ttl_inside (own.2.2.2.2.1 _ rfl) (across _ compacted _ (mem_append_right _ end_)) (dated _ (by simp [compacted])) soon
  · exact ttl_inside (across _ start_ t (mem_append_left _ member)) (into t member _ end_)
      (dated t (mem_append_right _ (mem_append_right _ (mem_append_left _ member)))) soon

lemma Clocked.ordered
    (clocked : Clocked (before ++ GatewayStep.request env₁ peeked₁ pending₁ :: between)) : env₁.seen ≤ env₁.remembered := by
  have forwards := clocked.forwards
  rw [flatMap_append,flatMap_cons] at forwards
  have own := (pairwise_append.mp (pairwise_append.mp forwards).2.1).1
  simp only [GatewayStep.times,pairwise_cons,mem_cons,not_mem_nil,or_false] at own
  exact own.2.2.2.1 _ (.inl rfl)

end Clock

/-- After a request with a key was accepted, no request with that key makes a write before the
time of the key is over, whatever happens in between, if the log gives the key back or the
process stays the same. -/
theorem accepted_once (opt : GatewayOptions) (libc : Libc) (mgr : Manager σ) (store : σ) (before between : List (GatewayStep σ))
    (env₁ env₂ : GatewayEnv) (peeked₁ pending₁ peeked₂ pending₂ key : Bytes)
    (clocked : Clocked (before ++ GatewayStep.request env₁ peeked₁ pending₁ ::
      (between ++ [GatewayStep.request env₂ peeked₂ pending₂]))) (some_ : key ≠ [])
    (accepted : Accepts opt libc mgr (runAll opt libc mgr {store := store} before) env₁ peeked₁ pending₁ key)
    (soon : env₂.seen.toNat < env₁.remembered.toNat + (ttl opt).toNat)
    (safe : saneKey key = true ∨ ∀ store, GatewayStep.newProcess store ∉ between)
    (named : requestKey libc (runAll opt libc mgr {store := store}
      (before ++ GatewayStep.request env₁ peeked₁ pending₁ :: between)).gateway.auth_token (pending₂.take recv_capacity) = key)
    (served : Served σ)
    (answered : (runAll opt libc mgr {store := store} (before ++ GatewayStep.request env₁ peeked₁ pending₁ :: between)).answer
      opt libc mgr env₂ peeked₂ pending₂ = some served) : served.executed = none := by
  have inside := clocked.inside soon
  have dated := inside env₁.remembered (by simp)
  have early := (inside env₁.compacted (by simp)).1
  have seen : env₁.seen.toNat < env₁.remembered.toNat + (ttl opt).toNat :=
    Nat.lt_of_le_of_lt (le_iff_toNat_le.mp clocked.ordered) dated.1
  have split_ : runAll opt libc mgr {store := store} (before ++ GatewayStep.request env₁ peeked₁ pending₁ :: between) =
      runAll opt libc mgr ((runAll opt libc mgr {store := store} before).step opt libc mgr
        (.request env₁ peeked₁ pending₁)) between := by
    simp [runAll]
  rw [split_] at named answered
  have sound : Sound opt (runAll opt libc mgr {store := store} before) :=
    Sound.runAll ⟨timed_new opt,⟨[],rfl,fun sane => by cases sane⟩⟩ before
  obtain ⟨served₁,answered₁,made,accepts,named₁⟩ := accepted
  obtain ⟨call,made⟩ := Option.isSome_iff_exists.mp made
  generalize runAll opt libc mgr {store := store} before = st at *
  have remembers : (st.step opt libc mgr (.request env₁ peeked₁ pending₁)).Remembers opt key
      (env₁.remembered.toNat + (ttl opt).toNat) := by
    unfold answer at answered₁
    split at answered₁
    · next running =>
      cases answered₁
      have kept := keeps_accepted ⟨running,sound.timed.running running,sound.complete⟩ named₁ some_ made accepts seen early dated.2
      rw [GatewayState.step,answer,if_pos running]
      exact ⟨⟨⟨.inr kept.time,fun _ => kept.time⟩,kept.complete⟩,.inl kept.seen,kept.logged⟩
    · cases answered₁
  have kept : (runAll opt libc mgr (st.step opt libc mgr (.request env₁ peeked₁ pending₁)) between).Remembers opt key
      (env₁.remembered.toNat + (ttl opt).toNat) :=
    remembers.runAll between (fun t member => inside t (by simp [member])) safe
  generalize runAll opt libc mgr (st.step opt libc mgr (.request env₁ peeked₁ pending₁)) between = last at *
  unfold answer at answered
  split at answered
  · next running =>
    cases answered
    have seen := kept.seen.resolve_right fun both => by
      rw [running] at both
      cases both.2
    exact seen.silent some_ named soon
  · cases answered

def startedOnce : List (GatewayStep (List ManagerCall)) := [.start [] 100 secondHundred]
def startedAgain : List (GatewayStep (List ManagerCall)) := [.newProcess [],.start [] 100 secondHundred]

theorem accepted_once_restarted :
    let line := ascii "MQTT|m|1|5|k"
    ((runAll {} wholeNumbers recorder {store := []} (startedOnce ++ .request secondHundred line line :: startedAgain)).answer
      {} wholeNumbers recorder secondHundred line line).map (·.executed) = some none := by
  have there : ((runAll {} wholeNumbers recorder {store := []}
      (startedOnce ++ .request secondHundred (ascii "MQTT|m|1|5|k") (ascii "MQTT|m|1|5|k") :: startedAgain)).answer
        {} wholeNumbers recorder secondHundred (ascii "MQTT|m|1|5|k") (ascii "MQTT|m|1|5|k")).isSome = true := by decide +kernel
  obtain ⟨served,answered⟩ := Option.isSome_iff_exists.mp there
  -- as a Boolean: the quantifier would be decided by counting through all of UInt64
  have dated : ((startedOnce ++ GatewayStep.request secondHundred (ascii "MQTT|m|1|5|k") (ascii "MQTT|m|1|5|k") :: (startedAgain ++
      [GatewayStep.request secondHundred (ascii "MQTT|m|1|5|k") (ascii "MQTT|m|1|5|k")])).flatMap GatewayStep.times).all (·.toNat < 2 ^ 63) := by
    decide +kernel
  dsimp only
  rw [answered]
  refine congrArg some (accepted_once {} wholeNumbers recorder [] startedOnce startedAgain secondHundred secondHundred
    (ascii "MQTT|m|1|5|k") (ascii "MQTT|m|1|5|k") (ascii "MQTT|m|1|5|k") (ascii "MQTT|m|1|5|k") (ascii "k")
    ⟨by decide +kernel,fun t member => of_decide_eq_true (all_eq_true.mp dated t member)⟩ (by decide) ?_ (by decide) (.inl (by decide)) (by decide +kernel) served answered)
  have first : ((runAll {} wholeNumbers recorder {store := []} startedOnce).answer {} wholeNumbers recorder secondHundred
      (ascii "MQTT|m|1|5|k") (ascii "MQTT|m|1|5|k")).isSome = true := by decide +kernel
  obtain ⟨served,answered⟩ := Option.isSome_iff_exists.mp first
  have parts : ((runAll {} wholeNumbers recorder {store := []} startedOnce).answer {} wholeNumbers recorder secondHundred
      (ascii "MQTT|m|1|5|k") (ascii "MQTT|m|1|5|k")).map (fun served => (served.executed.isSome,served.reply.accepts)) =
        some (true,true) := by decide +kernel
  rw [answered,Option.map_some,Option.some_inj,Prod.mk.injEq] at parts
  exact ⟨served,answered,parts.1,parts.2,by decide +kernel⟩

/-- A key that ends in a line break is accepted, lost by the log, and accepted again. -/
theorem accepted_twice :
    let line := ascii "MQTT|m|1|5|k\n"
    let first := runAll {} wholeNumbers recorder {store := []} startedOnce
    let later := runAll {} wholeNumbers recorder {store := []} (startedOnce ++ .request secondHundred line line :: startedAgain)
    requestKey wholeNumbers [] (line.take recv_capacity) = ascii "k\n" ∧
      (first.answer {} wholeNumbers recorder secondHundred line line).map (fun served => (served.executed.isSome,served.reply)) =
        some (true,.line (ascii "ACK|accepted|seq=1\n")) ∧
      (later.answer {} wholeNumbers recorder secondHundred line line).map (fun served => (served.executed.isSome,served.reply)) =
        some (true,.line (ascii "ACK|accepted|seq=2\n")) := by
  decide +kernel

end GatewayState
end PomaiCache
