import PomaiCache.WalReplay
import PomaiCache.Dict

/-!
The graph membrane. Vertices and edges are written as raw keys to the log, deletions as
tombstone keys, and the adjacency lists are rebuilt by applying the keys of the log in order.
-/
namespace PomaiCache
open Codec List

structure Neighbor where
  id : UInt64
  type : UInt32
  rank : UInt32
  deriving DecidableEq, Repr

/-- What a key of the log stands for. -/
inductive GraphEntry
  | vertex (id : UInt64) (tag : UInt32)
  | edge (src : UInt64) (type rank : UInt32) (dst : UInt64)
  | vertexGone (id : UInt64)
  | edgeGone (src : UInt64) (type : UInt32) (dst : UInt64)
  deriving DecidableEq, Repr

namespace GraphKey

def kVertex : UInt8 := 0x56
def kEdge : UInt8 := 0x45
def kVertexGone : UInt8 := 0x54
def kEdgeGone : UInt8 := 0x58

def be (width n : Nat) : Bytes := (le width n).reverse

def beNat (bytes : Bytes) : Nat := leNat bytes.reverse

@[simp] lemma be_length (width n : Nat) : (be width n).length = width := by simp [be]

@[simp] lemma ofNat_beNat_u64 (x : UInt64) : UInt64.ofNat (beNat (be 8 x.toNat)) = x := by simp [be,beNat]

@[simp] lemma ofNat_beNat_u32 (x : UInt32) : UInt32.ofNat (beNat (be 4 x.toNat)) = x := by simp [be,beNat]

end GraphKey

open GraphKey

namespace GraphEntry

/-- `EncodeVertex`, `EncodeEdge` and the two tombstone keys. -/
def key : GraphEntry → Bytes
  | vertex id tag => [kVertex] ++ (be 8 id.toNat ++ be 4 tag.toNat)
  | edge src type rank dst => [kEdge] ++ (be 8 src.toNat ++ (be 4 type.toNat ++ (be 4 rank.toNat ++ be 8 dst.toNat)))
  | vertexGone id => [kVertexGone] ++ be 8 id.toNat
  | edgeGone src type dst => [kEdgeGone] ++ (be 8 src.toNat ++ (be 4 type.toNat ++ (be 4 0 ++ be 8 dst.toNat)))

/-- The entry a key is read as in `ReplayEntry`. -/
def ofKey (key : Bytes) : Option GraphEntry :=
  let id := UInt64.ofNat (beNat (slice key 1 8))
  let type := UInt32.ofNat (beNat (slice key 9 4))
  let dst := UInt64.ofNat (beNat (slice key 17 8))
  match key.head? with
  | none => none
  | some first =>
    if first = kVertex ∧ key.length ≥ 13 then some (.vertex id type)
    else if first = kEdge ∧ key.length ≥ 25 then some (.edge id type (UInt32.ofNat (beNat (slice key 13 4))) dst)
    else if first = kVertexGone ∧ key.length ≥ 9 then some (.vertexGone id)
    else if first = kEdgeGone ∧ key.length ≥ 25 then some (.edgeGone id type dst)
    else none

lemma key_length_le (entry : GraphEntry) : entry.key.length ≤ 25 := by
  cases entry <;> simp [key]

lemma ofKey_key (entry : GraphEntry) : ofKey entry.key = some entry := by
  have prefixes : kVertex ≠ kEdge ∧ kVertex ≠ kVertexGone ∧ kVertex ≠ kEdgeGone ∧ kEdge ≠ kVertexGone ∧
      kEdge ≠ kEdgeGone ∧ kVertexGone ≠ kEdgeGone := by decide
  obtain ⟨ve,vt,vx,et,ex,tx⟩ := prefixes
  cases entry with
  | vertex id tag => simp [ofKey,key,slice_cons,slice_front,slice_behind,slice_all]
  | edge src type rank dst => simp [ofKey,key,slice_cons,slice_front,slice_behind,slice_all,ve.symm]
  | vertexGone id => simp [ofKey,key,slice_cons,slice_all,vt.symm,et.symm]
  | edgeGone src type dst => simp [ofKey,key,slice_cons,slice_front,slice_behind,slice_all,vx.symm,ex.symm,tx.symm]

def owner : GraphEntry → UInt64
  | vertex id _ => id
  | edge src _ _ _ => src
  | vertexGone id => id
  | edgeGone src _ _ => src

def change : GraphEntry → Option (List Neighbor) → Option (List Neighbor)
  | vertex _ _,list => some (list.getD [])
  | edge _ type rank dst,list => some (list.getD [] ++ [⟨dst,type,rank⟩])
  | vertexGone _,_ => none
  | edgeGone _ type dst,list => list.map fun v => v.filter fun n => !(n.id == dst && n.type == type)

end GraphEntry

abbrev AdjLists := Dict UInt64 (List Neighbor)

def AdjLists.apply (adj : AdjLists) (entry : GraphEntry) : AdjLists := Dict.alter adj entry.owner entry.change

structure GraphMembraneImpl where
  wal : Wal
  adj_lists : AdjLists

namespace GraphMembraneImpl

/-- `AddVertex`, `AddEdge`, `DeleteVertex` and `DeleteEdge`: log the key, and then change the
list. The value is the tenant for the first two and empty for the deletions. -/
def write (g : GraphMembraneImpl) (outs : List Outcome) (entry : GraphEntry) (value : Bytes) : GraphMembraneImpl × Status :=
  let (wal,_,st) := g.wal.appendRawKV outs Op.kRawKV entry.key value
  if st.ok then (⟨wal,g.adj_lists.apply entry⟩,.Ok) else ({g with wal := wal},st)

def addVertex (g : GraphMembraneImpl) (outs : List Outcome) (id : UInt64) (tag : UInt32) (tenant : Bytes) :=
  g.write outs (.vertex id tag) tenant

def addEdge (g : GraphMembraneImpl) (outs : List Outcome) (src dst : UInt64) (type rank : UInt32) (tenant : Bytes) :=
  g.write outs (.edge src type rank dst) tenant

def deleteVertex (g : GraphMembraneImpl) (outs : List Outcome) (id : UInt64) := g.write outs (.vertexGone id) []

def deleteEdge (g : GraphMembraneImpl) (outs : List Outcome) (src dst : UInt64) (type : UInt32) :=
  g.write outs (.edgeGone src type dst) []

def getNeighbors (g : GraphMembraneImpl) (src : UInt64) : List Neighbor := (g.adj_lists.lookup src).getD []

def getNeighborsOfType (g : GraphMembraneImpl) (src : UInt64) (type : UInt32) : List Neighbor :=
  (g.getNeighbors src).filter fun n => n.type == type

def replayEntry (adj : AdjLists) (key : Bytes) : AdjLists :=
  match GraphEntry.ofKey key with
  | none => adj
  | some entry => adj.apply entry

/-- The key of a raw record, when the record is long enough to hold it. -/
def rawKey (payload : Bytes) : Option Bytes :=
  let klen := leNat (slice payload 21 4)
  if UInt8.ofNat (leNat (slice payload 8 1)) = Op.kRawKV ∧ payload.length ≥ 21 + 4 + 4 ∧ payload.length ≥ 21 + 4 + 4 + klen then
    some (slice payload (21 + 4 + 4) klen)
  else none

/-- What `ReplayGraphInto` does with the body of a frame. Bodies that are too short are passed
over; a wrong checksum ends the replay. -/
def replayBody (cipher : Option Cipher) (state : AdjLists × UInt64) (body : Bytes) : (AdjLists × UInt64) × Status :=
  if body.length < 21 + 4 then (state,.Ok)
  else if leNat (slice body (body.length - 4) 4) ≠ (crc32c (body.take (body.length - 4)) 0).toNat then
    (state,.corruption "wal crc mismatch")
  else if cipher.isSome ∧ body.length - 4 < 12 + 16 then (state,.Ok)
  else
    match Wal.decryptBody cipher (body.take (body.length - 4)) with
    | .error st => (state,st)
    | .ok payload =>
      if payload.length < 21 then (state,.Ok)
      else (((rawKey payload).elim state.1 (replayEntry state.1),Wal.laterSeq state.2 payload),.Ok)

def replayBodies (cipher : Option Cipher) (state : AdjLists × UInt64) : List Bytes → (AdjLists × UInt64) × Status
  | [] => (state,.Ok)
  | body :: rest =>
    let (state,st) := replayBody cipher state body
    if st.ok then replayBodies cipher state rest else (state,st)

def replayFile (cipher : Option Cipher) (state : AdjLists × UInt64) (file : Bytes) : (AdjLists × UInt64) × Status :=
  match Wal.framesOffset file with
  | .error st => (state,st)
  | .ok off => replayBodies cipher state (Wal.bodies file.length (file.drop off))

/-- The loop over the generations, which ends at the first missing file. -/
def replayDir (cipher : Option Cipher) (state : AdjLists × UInt64) : WalDir → (AdjLists × UInt64) × Status
  | some file :: rest =>
    let (state,st) := replayFile cipher state file
    if st.ok then replayDir cipher state rest else (state,st)
  | _ => (state,.Ok)

def warmUp (g : GraphMembraneImpl) : GraphMembraneImpl × Status :=
  let ((adj_lists,seq),st) := replayDir g.wal.cipher (g.adj_lists,g.wal.seq) g.wal.dir
  (⟨{g.wal with seq := seq},adj_lists⟩,st)

def created (segment_bytes : Nat) (shard_id : UInt32) (cipher : Option Cipher) : GraphMembraneImpl :=
  ⟨Wal.fresh segment_bytes shard_id cipher,∅⟩

def reopened (g : GraphMembraneImpl) : GraphMembraneImpl := (warmUp ⟨g.wal.reopen.1,∅⟩).1

/-- A write, or a restart of the process. -/
inductive Step
  | addVertex (id : UInt64) (tag : UInt32) (tenant : Bytes)
  | addEdge (src dst : UInt64) (type rank : UInt32) (tenant : Bytes)
  | deleteVertex (id : UInt64)
  | deleteEdge (src dst : UInt64) (type : UInt32)
  | restart

def step (g : GraphMembraneImpl) : Step → GraphMembraneImpl
  | .addVertex id tag tenant => (g.addVertex [] id tag tenant).1
  | .addEdge src dst type rank tenant => (g.addEdge [] src dst type rank tenant).1
  | .deleteVertex id => (g.deleteVertex [] id).1
  | .deleteEdge src dst type => (g.deleteEdge [] src dst type).1
  | .restart => g.reopened

def runAll (g : GraphMembraneImpl) (steps : List Step) : GraphMembraneImpl := steps.foldl step g

/-- The frame of a record of this step fits its length field. -/
def Step.Fits : Step → Prop
  | addVertex _ _ tenant => tenant.length + 100 < 2 ^ 32
  | addEdge _ _ _ _ tenant => tenant.length + 100 < 2 ^ 32
  | deleteVertex _ => True
  | deleteEdge _ _ _ => True
  | restart => True

end GraphMembraneImpl

namespace Wal

lemma At.unique (first : At w p) (second : At w q) : p = q := by
  have split := first.dir.symm.trans second.dir
  obtain ⟨older,rest⟩ := append_inj split (first.gen.symm.trans second.gen)
  obtain ⟨content,rest⟩ := List.cons.inj rest
  cases p
  cases q
  simp_all

def Logs (w : Wal) (rs : List Record) : Prop :=
  ∃ p, At w p ∧ Held w.cipher 0 p rs [] ∧ ∀ limit, Vacant limit p

lemma logs_fresh (segment_bytes : Nat) (shard_id : UInt32) (cipher : Option Cipher) :
    Logs (fresh segment_bytes shard_id cipher) [] :=
  ⟨_,fresh_at ..,fresh_held ..,fun limit => vacant_of_empty limit rfl⟩

namespace Logs
variable {w : Wal} {rs : List Record}

lemma call (logs : Logs w rs) (replayable : c.Replayable w.cipher 0) :
    Logs (w.call [] c).1 (rs ++ c.records w.seq) ∧ (w.call [] c).1.cipher = w.cipher := by
  obtain ⟨p,here,held,vacant⟩ := logs
  have after (extra : Nat) := call_held here held (vacant ((w.call [] c).1.gen + 1 + extra)) replayable (by omega)
  obtain ⟨q,there,heldQ,_,cipher⟩ := after 0
  refine ⟨⟨q,there,by rw [cipher]; exact heldQ,fun limit => ?_⟩,cipher⟩
  obtain ⟨other,there',_,vacant',_⟩ := after limit
  rw [there.unique there']
  intro i below
  exact vacant' i (by omega)

lemma gap (logs : Logs w rs) : ∃ p, At w p ∧ Held w.cipher 0 p rs [] ∧ (∀ limit, Vacant limit p) ∧ p.rest.firstMissing = 0 := by
  obtain ⟨p,here,held,vacant⟩ := logs
  exact ⟨p,here,held,vacant,(vacant (p.older.length + 2)).firstMissing (by omega)⟩

lemma reopen (logs : Logs w rs) : Logs w.reopen.1 rs ∧ w.reopen.1.cipher = w.cipher := by
  obtain ⟨p,here,held,vacant,gap⟩ := logs.gap
  obtain ⟨_,there,heldQ,cipher,_⟩ := reopen_held here held gap
  refine ⟨⟨_,there,by rw [cipher]; exact heldQ,fun limit => ?_⟩,cipher⟩
  exact (vacant limit).next

lemma setSeq (logs : Logs w rs) (seq : UInt64) : Logs {w with seq := seq} rs := by
  obtain ⟨p,here,held,vacant⟩ := logs
  exact ⟨p,⟨here.dir,here.gen⟩,held,vacant⟩

lemma files (logs : Logs w rs) : ∃ recss files rest, List.Forall₂ (Closed w.cipher 0) recss files ∧
    w.dir = files.map some ++ rest ∧ rest.firstMissing = 0 ∧ rs = recss.flatten := by
  obtain ⟨p,here,held,_,gap⟩ := logs.gap
  obtain ⟨recss,files,closed,dir,_,same⟩ := held.files
  exact ⟨recss,files,p.rest,closed,here.dir.trans dir,gap,same⟩

end Logs
end Wal

/-! ### Replay of a log that holds keys -/

namespace GraphMembraneImpl
open Wal (Record Sealed Frames Closed Logs)

def entryOf : Record → Option GraphEntry
  | .rawKV _ _ key _ => GraphEntry.ofKey key
  | _ => none

def Keyed (r : Record) : Prop := ∃ (seq : UInt64) (entry : GraphEntry) (value : Bytes), r = .rawKV seq Op.kRawKV entry.key value

def replayed (state : AdjLists × UInt64) (rs : List Record) : AdjLists × UInt64 :=
  ((rs.filterMap entryOf).foldl AdjLists.apply state.1,rs.foldl (fun seq r => r.later seq) state.2)

lemma replayed_append (state : AdjLists × UInt64) (rs more : List Record) :
    replayed state (rs ++ more) = replayed (replayed state rs) more := by
  simp [replayed]

lemma rawKey_payload (seq : UInt64) (short : key.length < 2 ^ 32) (value : Bytes) :
    rawKey (Record.rawKV seq Op.kRawKV key value).payload = some key := by
  have klen : (UInt32.ofNat key.length).toNat = key.length := UInt32.toNat_ofNat_of_lt' short
  have whole : (Record.rawKV seq Op.kRawKV key value).payload = Wal.recordPrefix seq Op.kRawKV 0 0 ++
      (le 4 key.length ++ (le 4 (UInt32.ofNat value.length).toNat ++ (key ++ value.take (UInt32.ofNat value.length).toNat))) := by
    simp [Record.payload,Wal.rawKVPlain,klen]
  have vlen := le_length 4 (UInt32.ofNat value.length).toNat
  generalize le 4 (UInt32.ofNat value.length).toNat = second at whole vlen
  generalize value.take (UInt32.ofNat value.length).toNat = after at whole
  have op := Wal.read_op seq Op.kRawKV 0 0 (le 4 key.length ++ (second ++ (key ++ after)))
  have length : leNat (le 4 key.length) = key.length := leNat_le_of_lt short
  rw [rawKey,whole,op]
  simp [slice_behind,slice_front,length,vlen]
  omega

variable {cipher : Option Cipher} {rs : List Record} {dim : UInt32}

lemma replayBody_record (keyed : Keyed r) (carries : Sealed cipher r body) (state : AdjLists × UInt64) :
    replayBody cipher state (body ++ le 4 (crc32c body 0).toNat) = (replayed state [r],.Ok) := by
  have enough := carries.long
  have record := r.payload_length
  -- a body that decrypts is not too short to hold nonce and tag
  have sealed_ : ¬(cipher.isSome ∧ body.length < 12 + 16) := by
    rintro ⟨encrypted,short⟩
    obtain ⟨c,rfl⟩ := Option.isSome_iff_exists.mp encrypted
    have opens := carries.opens
    rw [Wal.decryptBody,if_pos (by omega)] at opens
    cases opens
  rw [replayBody,length_append,le_length,if_neg (by omega),Wal.stored_crc,Nat.add_sub_cancel,take_left,if_neg (by simp),if_neg sealed_,carries.opens]
  simp only []
  rw [if_neg (by omega),Wal.laterSeq_payload]
  obtain ⟨seq,entry,value,rfl⟩ := keyed
  have short : entry.key.length < 2 ^ 32 := Nat.lt_of_le_of_lt entry.key_length_le (by decide)
  rw [rawKey_payload seq short]
  simp [replayed,entryOf,replayEntry,GraphEntry.ofKey_key]

lemma replayBodies_frames {bytes tail : Bytes}
    (frames : Frames cipher dim rs bytes) (keyed : ∀ r ∈ rs, Keyed r) (torn : Wal.nextBody tail = none) {fuel : Nat}
    (enough : rs.length ≤ fuel) (state : AdjLists × UInt64) :
    replayBodies cipher state (Wal.bodies fuel (bytes ++ tail)) = (replayed state rs,.Ok) := by
  induction frames generalizing state fuel with
  | nil =>
    cases fuel with
    | zero => rfl
    | succ fuel =>
      rw [Wal.bodies,nil_append,torn]
      rfl
  | cons fits carries more ih =>
    rename_i r body rs bytes
    cases fuel with
    | zero => simp at enough
    | succ fuel =>
      rw [append_assoc,Wal.bodies,Wal.nextBody_frame _ carries.short]
      simp only [replayBodies,Wal.drop_frame,replayBody_record (keyed r (.head _)) carries,Status.ok_Ok,if_true]
      rw [ih (fun other member => keyed other (.tail _ member)) (by simpa using enough),← replayed_append]
      rfl

lemma replayFile_closed {file : Bytes}
    (closed : Closed cipher dim rs file) (keyed : ∀ r ∈ rs, Keyed r) (state : AdjLists × UInt64) :
    replayFile cipher state file = (replayed state rs,.Ok) := by
  obtain ⟨bytes,tail,frames,torn,rfl⟩ := closed
  rw [replayFile,Wal.framesOffset_header]
  simp only []
  rw [drop_left' Wal.walFileHeader_length]
  refine replayBodies_frames frames keyed torn ?_ state
  have := frames.length_le
  simp only [length_append]
  omega

lemma replayDir_files (closed : List.Forall₂ (Closed cipher dim) recss files) (gap : rest.firstMissing = 0)
    (keyed : ∀ r ∈ recss.flatten, Keyed r) (state : AdjLists × UInt64) :
    replayDir cipher state (files.map some ++ rest) = (replayed state recss.flatten,.Ok) := by
  induction closed generalizing state with
  | nil => rcases WalDir.cases_of_gap gap with rfl | ⟨_,rfl⟩ <;> rfl
  | cons here more ih =>
    rename_i rs file recss files
    have first := replayFile_closed here (fun r member => keyed r (by simp [member])) state
    simp only [map_cons,cons_append,replayDir,first,Status.ok_Ok,if_true]
    grind [flatten_cons,replayed_append]

/-- The log holds the keys of these entries, and the lists are what the entries give. -/
structure Logged (g : GraphMembraneImpl) (entries : List GraphEntry) : Prop where
  log : ∃ rs, Logs g.wal rs ∧ (∀ r ∈ rs, Keyed r) ∧ rs.filterMap entryOf = entries
  held : ∀ v, g.adj_lists.lookup v = (entries.filter fun e => e.owner = v).foldl (fun list e => e.change list) none

lemma lookup_foldl_apply (entries : List GraphEntry) (adj : AdjLists) (v : UInt64) : (entries.foldl AdjLists.apply adj).lookup v =
      (entries.filter fun e => e.owner = v).foldl (fun list e => e.change list) (adj.lookup v) :=
  Dict.lookup_foldl_alter GraphEntry.owner GraphEntry.change entries adj v

lemma warmUp_eq {g : GraphMembraneImpl} (logs : Logs g.wal rs) (keyed : ∀ r ∈ rs, Keyed r) :
    ∃ seq, g.warmUp = (⟨{g.wal with seq := seq},(rs.filterMap entryOf).foldl AdjLists.apply g.adj_lists⟩,.Ok) := by
  obtain ⟨recss,files,rest,closed,dir,gap,rfl⟩ := logs.files
  have run := replayDir_files closed gap keyed (g.adj_lists,g.wal.seq)
  simp [*,warmUp,replayed]

lemma rawKV_payload_length (seq : UInt64) (entry : GraphEntry) (value : Bytes) :
    (Record.rawKV seq Op.kRawKV entry.key value).payload.length = 29 + entry.key.length + (UInt32.ofNat value.length).toNat := by
  have klen : (UInt32.ofNat entry.key.length).toNat = entry.key.length :=
    UInt32.toNat_ofNat_of_lt' (Nat.lt_of_le_of_lt entry.key_length_le (by decide))
  grind [UInt32.ofNat,UInt32.toNat_ofNat',Nat.mod_le,Record.payload,Wal.rawKVPlain,length_append,Wal.recordPrefix_length,le_length,length_take]

lemma framed_of_short (cipher : Option Cipher) (entry : GraphEntry) (short : value.length + 100 < 2 ^ 32) :
    Wal.Framed cipher (.rawKV 0 Op.kRawKV entry.key value) := by
  have key := entry.key_length_le
  have vlen : (UInt32.ofNat value.length).toNat = value.length :=
    UInt32.toNat_ofNat_of_lt' (Nat.lt_of_le_of_lt (Nat.le_add_right ..) short)
  grind [Wal.overhead,Wal.Framed,rawKV_payload_length]

namespace Logged
variable {g : GraphMembraneImpl} {entries : List GraphEntry}

lemma created (segment_bytes : Nat) (shard_id : UInt32) (cipher : Option Cipher) :
    Logged (created segment_bytes shard_id cipher) [] := by
  constructor
  · exact ⟨[],Wal.logs_fresh ..,by simp,rfl⟩
  · intro v
    rfl

lemma write (logged : Logged g entries) (framed : Wal.Framed g.wal.cipher (.rawKV 0 Op.kRawKV entry.key value)) :
    Logged (g.write [] entry value).1 (entries ++ [entry]) := by
  obtain ⟨⟨rs,logs,keyed,same⟩,held⟩ := logged
  have replayable : (Wal.Call.rawKV Op.kRawKV entry.key value).Replayable g.wal.cipher 0 := ⟨.inl rfl,framed⟩
  obtain ⟨after,_⟩ := logs.call replayable
  have clean := (g.wal.call_clean replayable).1
  simp only [Wal.call,Wal.Call.records] at after clean
  have written : (g.write [] entry value).1 = ⟨(g.wal.appendRawKV [] Op.kRawKV entry.key value).1,g.adj_lists.apply entry⟩ := by
    simp [GraphMembraneImpl.write,clean]
  rw [written]
  constructor
  · refine ⟨_,after,?_,?_⟩
    · intro r member
      rcases mem_append.mp member with earlier | here
      · exact keyed r earlier
      · exact ⟨_,entry,value,mem_singleton.mp here⟩
    · simp [filterMap_append,same,entryOf,GraphEntry.ofKey_key]
  · grind [AdjLists.apply,Dict.lookup_alter,held]

lemma reopened (logged : Logged g entries) : Logged g.reopened entries := by
  obtain ⟨⟨rs,logs,keyed,same⟩,held⟩ := logged
  obtain ⟨logs',_⟩ := logs.reopen
  obtain ⟨seq,run⟩ := warmUp_eq (g := ⟨g.wal.reopen.1,∅⟩) logs' keyed
  rw [GraphMembraneImpl.reopened,run,same]
  exact ⟨⟨rs,logs'.setSeq seq,keyed,same⟩,fun v => lookup_foldl_apply entries ∅ v⟩

end Logged

def Step.entries : Step → List GraphEntry
  | addVertex id tag _ => [.vertex id tag]
  | addEdge src dst type rank _ => [.edge src type rank dst]
  | deleteVertex id => [.vertexGone id]
  | deleteEdge src dst type => [.edgeGone src type dst]
  | restart => []

lemma Logged.runAll (logged : Logged g entries)
    (fits : ∀ s ∈ steps, s.Fits) : Logged (g.runAll steps) (entries ++ steps.flatMap Step.entries) := by
  induction steps generalizing g entries with
  | nil => simpa [GraphMembraneImpl.runAll] using logged
  | cons s rest ih =>
    have next : Logged (g.step s) (entries ++ s.entries) := by
      have fit := fits s (.head _)
      cases s with
      | addVertex id tag tenant => exact logged.write (framed_of_short _ (.vertex id tag) fit)
      | addEdge src dst type rank tenant => exact logged.write (framed_of_short _ (.edge src type rank dst) fit)
      | deleteVertex id => exact logged.write (framed_of_short _ (.vertexGone id) (by decide))
      | deleteEdge src dst type => exact logged.write (framed_of_short _ (.edgeGone src type dst) (by decide))
      | restart =>
        rw [Step.entries,append_nil]
        exact logged.reopened
    have all := ih next fun other member => fits other (.tail _ member)
    rw [append_assoc] at all
    exact all

/-! ### The entries of one vertex, applied twice -/

def Removed (ops : List GraphEntry) (n : Neighbor) : Prop := ∃ src, .edgeGone src n.type n.id ∈ ops

lemma foldl_vertexGone {ops : List GraphEntry} {id : UInt64} (gone : .vertexGone id ∈ ops) (left right : Option (List Neighbor)) :
    ops.foldl (fun list e => e.change list) left = ops.foldl (fun list e => e.change list) right := by
  induction ops generalizing left right with
  | nil => cases gone
  | cons e rest ih =>
    rcases mem_cons.mp gone with rfl | later
    · rfl
    · exact ih later _ _

lemma foldl_kept {ops : List GraphEntry} (kept : ∀ id, .vertexGone id ∉ ops) (before : List Neighbor)
    (list : Option (List Neighbor)) : ∃ left : List Neighbor,
      ops.foldl (fun list e => e.change list) (some (before ++ list.getD [])) =
        some (left ++ (ops.foldl (fun list e => e.change list) list).getD []) ∧
      ∀ n, n ∈ left ↔ n ∈ before ∧ ¬Removed ops n := by
  induction ops generalizing before list with
  | nil => exact ⟨before,rfl,fun n => by simp [Removed]⟩
  | cons e rest ih =>
    have kept' : ∀ id, .vertexGone id ∉ rest := fun id member => kept id (.tail _ member)
    cases e with
    | vertex id tag =>
      obtain ⟨left,folded,members⟩ := ih kept' before (some (list.getD []))
      exact ⟨left,folded,fun n => by simpa [Removed] using members n⟩
    | edge src type rank dst =>
      obtain ⟨left,folded,members⟩ := ih kept' before (some (list.getD [] ++ [⟨dst,type,rank⟩]))
      grind [Removed,GraphEntry.change]
    | vertexGone id => exact absurd (.head _) (kept id)
    | edgeGone src type dst =>
      obtain ⟨left,folded,members⟩ := ih kept' (before.filter fun n => !(n.id == dst && n.type == type))
        (list.map fun v => v.filter fun n => !(n.id == dst && n.type == type))
      refine ⟨left,?_,fun n => ?_⟩
      · rw [foldl_cons,foldl_cons]
        have filtered : (list.map fun v => v.filter fun n : Neighbor => !(n.id == dst && n.type == type)).getD [] =
            (list.getD []).filter fun n => !(n.id == dst && n.type == type) := by
          cases list <;> rfl
        rw [filtered] at folded
        simpa [GraphEntry.change] using folded
      · rw [members,mem_filter]
        simp only [Removed,mem_cons,GraphEntry.edgeGone.injEq]
        grind

lemma foldl_twice_iff (ops : List GraphEntry) :
    ((ops.foldl (fun list e => e.change list) (ops.foldl (fun list e => e.change list) none)).getD [] =
        (ops.foldl (fun list e => e.change list) none).getD []) ↔
      (ops.foldl (fun list e => e.change list) none).getD [] = [] ∨ (∃ id, .vertexGone id ∈ ops) ∨
        ∀ n ∈ (ops.foldl (fun list e => e.change list) none).getD [], Removed ops n := by
  by_cases gone : ∃ id, .vertexGone id ∈ ops
  · obtain ⟨id,member⟩ := gone
    rw [foldl_vertexGone member (ops.foldl (fun list e => e.change list) none) none]
    exact iff_of_true rfl (.inr (.inl ⟨id,member⟩))
  · have kept : ∀ id, .vertexGone id ∉ ops := fun id member => gone ⟨id,member⟩
    cases once : ops.foldl (fun list e => e.change list) none with
    | none => rw [once]; simp
    | some list =>
      obtain ⟨left,folded,members⟩ := foldl_kept kept list none
      rw [Option.getD_none,append_nil,once] at folded
      rw [folded,Option.getD_some,Option.getD_some,append_left_eq_self]
      constructor
      · grind
      · rintro (rfl | some_ | all)
        · exact eq_nil_iff_forall_not_mem.mpr fun n member => by simpa using ((members n).mp member).1
        · exact absurd some_ gone
        · exact eq_nil_iff_forall_not_mem.mpr fun n member => ((members n).mp member).2 (all n ((members n).mp member).1)

lemma mem_entries {s : List Step} {v : UInt64} : (.vertexGone v ∈ s.flatMap Step.entries ↔ .deleteVertex v ∈ s) ∧
    ∀ type dst, (.edgeGone v type dst ∈ s.flatMap Step.entries ↔ .deleteEdge v dst type ∈ s) := by
  constructor
  · rw [mem_flatMap]
    constructor
    · rintro ⟨s,member,written⟩
      cases s <;> simp [Step.entries] at written
      exact written ▸ member
    · intro member
      exact ⟨_,member,by simp [Step.entries]⟩
  · intro type dst
    rw [mem_flatMap]
    constructor
    · rintro ⟨s,member,written⟩
      cases s <;> simp [Step.entries] at written
      obtain ⟨rfl,rfl,rfl⟩ := written
      exact member
    · intro member
      exact ⟨_,member,by simp [Step.entries]⟩

/-- Warming up a membrane that is warm: the neighbours stay as they are exactly for the
vertices that have none, were deleted at some time, or whose edges all were. -/
lemma warmUp_same_iff (segment_bytes : Nat) (shard_id : UInt32) (cipher : Option Cipher) {steps : List Step}
    (fits : ∀ s ∈ steps, s.Fits) (v : UInt64) :
    let g := (created segment_bytes shard_id cipher).runAll steps
    g.warmUp.1.getNeighbors v = g.getNeighbors v ↔
      g.getNeighbors v = [] ∨ .deleteVertex v ∈ steps ∨ ∀ n ∈ g.getNeighbors v, .deleteEdge v n.id n.type ∈ steps := by
  intro g
  have logged := (Logged.created segment_bytes shard_id cipher).runAll fits
  rw [nil_append] at logged
  obtain ⟨⟨rs,logs,keyed,same⟩,held⟩ := logged
  obtain ⟨seq,run⟩ := warmUp_eq logs keyed
  have after : g.warmUp.1.adj_lists.lookup v = ((steps.flatMap Step.entries).filter fun e => e.owner = v).foldl
      (fun list e => e.change list) (g.adj_lists.lookup v) := by
    rw [run,same]
    exact lookup_foldl_apply ..
  have own : (∃ id, .vertexGone id ∈ (steps.flatMap Step.entries).filter fun e => e.owner = v) ↔ .deleteVertex v ∈ steps := by
    rw [← mem_entries.1]
    constructor
    · rintro ⟨id,member⟩
      obtain ⟨inside,same⟩ := mem_filter.mp member
      have equal : id = v := of_decide_eq_true same
      exact equal ▸ inside
    · intro inside
      exact ⟨v,mem_filter.mpr ⟨inside,decide_eq_true rfl⟩⟩
  have removed (n : Neighbor) : Removed ((steps.flatMap Step.entries).filter fun e => e.owner = v) n ↔
      .deleteEdge v n.id n.type ∈ steps := by
    rw [← mem_entries.2]
    constructor
    · rintro ⟨src,member⟩
      obtain ⟨inside,same⟩ := mem_filter.mp member
      have equal : src = v := of_decide_eq_true same
      exact equal ▸ inside
    · intro inside
      exact ⟨v,mem_filter.mpr ⟨inside,decide_eq_true rfl⟩⟩
  grind [getNeighbors,foldl_twice_iff]

end GraphMembraneImpl
end PomaiCache
