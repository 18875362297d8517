import PomaiCache.NewestWrite

/-!
Write coalescing. Puts are collected in a buffer and reach the log and the memtable together,
when a later put finds the buffer old or full.
-/
namespace PomaiCache
open Layers

namespace VectorRuntime

structure SameConfig (rt other : VectorRuntime) : Prop where
  platform : other.platform = rt.platform
  dim : other.dim = rt.dim
  quantize_inmem : other.quantize_inmem = rt.quantize_inmem
  ttl_sec : other.ttl_sec = rt.ttl_sec

def Shaped (rt : VectorRuntime) : Prop := MemTable.SameShape rt.newMemTable rt.mem

namespace SameConfig
variable {a b c : VectorRuntime}

lemma refl (rt : VectorRuntime) : SameConfig rt rt := ⟨rfl,rfl,rfl,rfl⟩

lemma trans (first : SameConfig a b) (second : SameConfig b c) : SameConfig a c where
  platform := second.platform.trans first.platform
  dim := second.dim.trans first.dim
  quantize_inmem := second.quantize_inmem.trans first.quantize_inmem
  ttl_sec := second.ttl_sec.trans first.ttl_sec

lemma symm (same : SameConfig a b) : SameConfig b a :=
  ⟨same.platform.symm,same.dim.symm,same.quantize_inmem.symm,same.ttl_sec.symm⟩

lemma newMemTable (same : SameConfig a b) : b.newMemTable = a.newMemTable := by
  rw [VectorRuntime.newMemTable,VectorRuntime.newMemTable,same.platform,same.dim,same.quantize_inmem]

lemma shaped (same : SameConfig a b) (shape : MemTable.SameShape a.mem b.mem) (shaped : a.Shaped) : b.Shaped := by
  rw [Shaped,same.newMemTable]
  exact shaped.trans shape

end SameConfig

variable {rt next : VectorRuntime}

lemma rotateMemTable_config (shaped : rt.Shaped) : SameConfig rt rt.rotateMemTable ∧ rt.rotateMemTable.Shaped := by
  unfold rotateMemTable
  split
  · exact ⟨.refl rt,shaped⟩
  · exact ⟨⟨rfl,rfl,rfl,rfl⟩,.refl _⟩

lemma rotateWhenFull_config (shaped : rt.Shaped) : SameConfig rt rt.rotateWhenFull ∧ rt.rotateWhenFull.Shaped := by
  unfold rotateWhenFull
  split
  · exact rotateMemTable_config shaped
  · exact ⟨.refl rt,shaped⟩

lemma Written.config (wrote : Written rt next) (shaped : rt.Shaped) : SameConfig rt next ∧ next.Shaped := by
  cases wrote with
  | kept => exact ⟨.refl rt,shaped⟩
  | logged wal => exact ⟨⟨rfl,rfl,rfl,rfl⟩,shaped⟩
  | stored wal mem shape => exact ⟨⟨rfl,rfl,rfl,rfl⟩,shaped.trans shape⟩
  | rotated wal mem shape =>
    have stored : Shaped {rt with wal := wal, wal_epoch := rt.wal_epoch + 1, mem := mem} := shaped.trans shape
    obtain ⟨same,turned⟩ := rotateWhenFull_config stored
    exact ⟨⟨same.platform,same.dim,same.quantize_inmem,same.ttl_sec⟩,turned⟩

end VectorRuntime

structure CoalesceEntry where
  id : VectorId
  vec : Vec
  md : Metadata
  deriving DecidableEq, Repr

/-- A runtime with its coalesce buffer; the clock counts nanoseconds. -/
structure Coalescing where
  rt : VectorRuntime
  coalesce_buffer : List CoalesceEntry
  coalesce_start : Nat
  coalesce_window_us : UInt32
  coalesce_batch_size : UInt32

namespace Coalescing

def applyEntries (lsn : UInt64) (m : MemTable) (entries : List CoalesceEntry) : MemTable :=
  entries.foldl (fun m e => (m.putMeta e.id e.vec {e.md with lsn := lsn}).1) m

def applied (rt : VectorRuntime) (wal : Wal) (entries : List CoalesceEntry) : VectorRuntime :=
  VectorRuntime.rotateWhenFull
    {rt with
      wal := wal
      wal_epoch := rt.wal_epoch + 1
      mem := applyEntries wal.seq rt.mem entries}

variable (c : Coalescing)

def flushCoalesceBuffer (outs : List Outcome) : Coalescing × Status :=
  if c.coalesce_buffer.isEmpty then (c,.Ok)
  else
    let (wal,_,st) := c.rt.wal.appendBatch outs (c.coalesce_buffer.map CoalesceEntry.id) (c.coalesce_buffer.map CoalesceEntry.vec)
    if st.ok then ({c with rt := applied c.rt wal c.coalesce_buffer, coalesce_buffer := []},.Ok)
    else ({c with rt := {c.rt with wal := wal}, coalesce_buffer := []},st)

def due (now : Nat) : Bool :=
  !c.coalesce_buffer.isEmpty && (decide (UInt32.ofNat ((now - c.coalesce_start) / 1000) ≥ c.coalesce_window_us) ||
      decide (c.coalesce_buffer.length ≥ c.coalesce_batch_size.toNat))

def buffered (now : Nat) (e : CoalesceEntry) : Coalescing :=
  {c with
    coalesce_start := if c.coalesce_buffer.isEmpty then now else c.coalesce_start
    coalesce_buffer := c.coalesce_buffer ++ [e]}

def put (c : Coalescing) (outs : List Outcome) (now : Nat) (id : VectorId) (vec : Vec) (md : Metadata) : Coalescing × Status :=
  if vec.length ≠ c.rt.dim.toNat then (c,.invalidArgument "dim mismatch")
  else if c.rt.backpressure then (c,.resourceExhausted "too many frozen memtables; backpressure")
  else if c.coalesce_window_us > 0 then
    if c.due now then
      let flushed := c.flushCoalesceBuffer outs
      if flushed.2.ok then (flushed.1.buffered now ⟨id,vec,md⟩,.Ok) else flushed
    else (c.buffered now ⟨id,vec,md⟩,.Ok)
  else
    let done := c.rt.put outs id vec md
    ({c with rt := done.1},done.2)

def delete (c : Coalescing) (outs : List Outcome) (id : VectorId) : Coalescing × Status :=
  let done := c.rt.delete outs id
  ({c with rt := done.1},done.2)

def freeze (c : Coalescing) (clock : List UInt64) : Coalescing × Status :=
  let done := c.rt.freeze clock
  ({c with rt := done.1},done.2)

inductive CoalesceOp
  | put (now : Nat) (id : VectorId) (vec : Vec) (md : Metadata)
  | delete (id : VectorId)
  | get (now_sec : UInt64) (id : VectorId)
  | flush
  | freeze (clock : List UInt64)

/-- The runtime after an operation, where no write to a file fails. -/
def step : CoalesceOp → Coalescing
  | .put now id vec md => (c.put [] now id vec md).1
  | .delete id => (c.delete [] id).1
  | .get _ _ => c
  | .flush => c
  | .freeze clock => (c.freeze clock).1

def reads : Coalescing → List CoalesceOp → List (Except Status Found)
  | _,[] => []
  | c,op :: ops =>
    match op with
    | .get now_sec id => c.rt.get now_sec id :: reads c ops
    | _ => reads (c.step op) ops

/-- The log and the manifest after the last flush or freeze, from which the store is rebuilt. -/
def saved : Coalescing → Option (Wal × List Segment) → List CoalesceOp → Option (Wal × List Segment)
  | _,last,[] => last
  | c,last,op :: ops =>
    match op with
    | .flush => saved c (some (c.rt.wal,c.rt.manifest)) ops
    | .freeze clock => saved (c.step (.freeze clock)) (some ((c.step (.freeze clock)).rt.wal,(c.step (.freeze clock)).rt.manifest)) ops
    | _ => saved (c.step op) last ops

/-- What a read finds after the store was rebuilt from what was saved last. -/
def recovered (c : Coalescing) (ops : List CoalesceOp) (id : VectorId) : Option (Except Status LookupResult) :=
  (saved c none ops).map fun files =>
    (VectorRuntime.openLocked c.rt.platform c.rt.dim c.rt.quantize_inmem c.rt.ttl_sec files.1 files.2).map fun rt => rt.lookup id

def off : Coalescing := {c with coalesce_window_us := 0}

/-! ### What a runtime without coalescing is ahead by -/

section
variable (norm : Metadata → Metadata)

/-- A read of a vector and its metadata, as far as `norm` lets the metadata be seen. -/
def look (found : Found) : Found := (found.1,norm found.2)

/-- `norm` hides the sequence number under which metadata was stored. -/
def Blind (md : Metadata) : Prop := ∀ lsn, norm (MemTable.kept {md with lsn := lsn}) = norm (MemTable.kept md)

/-- The write of a put to a runtime with these options; the key that marks empty slots is
not written. -/
def putWrites (rt : VectorRuntime) (id : VectorId) (vec : Vec) (md : Metadata) : List (VectorId × Option Found) :=
  if id = kEmpty then [] else [(id,some ((rt.newMemTable.allocate vec).floats,norm (MemTable.kept md)))]

def bufferWrites (rt : VectorRuntime) (entries : List CoalesceEntry) : List (VectorId × Option Found) :=
  entries.flatMap fun e => putWrites norm rt e.id e.vec e.md

end

section
variable {norm : Metadata → Metadata} {rt : VectorRuntime}

lemma allocate_of_sameShape (shape : MemTable.SameShape m m') (vec : Vec) : m'.allocate vec = m.allocate vec := by
  rw [MemTable.allocate,MemTable.allocate,shape.quantize_inmem,shape.dim,shape.platform]

variable {md : Metadata}

lemma putMeta_overlays (shape : MemTable.SameShape rt.newMemTable m) (id : VectorId)
    (sized : vec.length = rt.dim.toNat) (blind : Blind norm md) (lsn : UInt64) :
    Overlays (look norm) m.layer (m.putMeta id vec {md with lsn := lsn}).1.layer (putWrites norm rt id vec md) := by
  have fits : vec.length = m.dim.toNat := by
    rw [shape.dim]
    exact sized
  have kept : (if MemTable.keepsMetadata {md with lsn := lsn} then some {md with lsn := lsn} else none : Option Metadata).getD {} =
      MemTable.kept {md with lsn := lsn} := by
    unfold MemTable.kept
    split <;> rfl
  have written := (m.putMeta_ok id {md with lsn := lsn} fits).2.overlays_look (look norm)
  rw [Option.map_some,look,kept,blind lsn,allocate_of_sameShape shape] at written
  exact written

lemma applyEntries_overlays (shape : MemTable.SameShape rt.newMemTable m) (entries : List CoalesceEntry)
    (sized : ∀ e ∈ entries, e.vec.length = rt.dim.toNat) (blind : ∀ e ∈ entries, Blind norm e.md) (lsn : UInt64) :
    Overlays (look norm) m.layer (applyEntries lsn m entries).layer (bufferWrites norm rt entries) := by
  induction entries generalizing m with
  | nil => exact .refl _ _
  | cons e entries ih =>
    have here := putMeta_overlays shape e.id (sized e (.head _)) (blind e (.head _)) lsn
    have later := ih (shape.trans (m.putMeta_sameShape e.id e.vec {e.md with lsn := lsn}))
      (fun e member => sized e (.tail _ member)) fun e member => blind e (.tail _ member)
    exact here.trans later

lemma applyEntries_sameShape (lsn : UInt64) (m : MemTable) (entries : List CoalesceEntry) :
    MemTable.SameShape m (applyEntries lsn m entries) := by
  induction entries generalizing m with
  | nil => exact .refl m
  | cons e entries ih => exact (m.putMeta_sameShape ..).trans (ih _)

/-! ### Puts and deletions of a runtime, as reads see them -/

lemma put_clean (shaped : rt.Shaped) {id : VectorId}
    (sized : vec.length = rt.dim.toNat) (free : rt.backpressure = false) : (rt.put [] id vec md).2 = .Ok := by
  have fits : vec.length = rt.mem.dim.toNat := by
    rw [shaped.dim]
    exact sized
  have stored := fun lsn => (rt.mem.putMeta_ok id {md with lsn := lsn} fits).1
  simp [VectorRuntime.put,sized,free,Wal.appendPut,Wal.appendRecord_clean,stored]

lemma put_overlays (synced : rt.Synced) (shaped : rt.Shaped) (id : VectorId) {vec : Vec}
    (sized : vec.length = rt.dim.toNat) (free : rt.backpressure = false) (blind : Blind norm md) :
    Overlays (look norm) rt.view (rt.put [] id vec md).1.view (putWrites norm rt id vec md) := by
  have ok : (rt.put [] id vec md).2.ok := by rw [put_clean shaped sized free]; rfl
  obtain ⟨_,wal,same⟩ := VectorRuntime.put_ok ok
  rw [same]
  exact VectorRuntime.rotated_overlays synced _ (putMeta_overlays shaped id sized blind wal.seq)

lemma delete_clean (rt : VectorRuntime) (id : VectorId) : (rt.delete [] id).2 = .Ok := by
  simp only [VectorRuntime.delete,Wal.appendDelete,Wal.appendRecord_clean,Status.ok_Ok,if_true]
  exact (rt.mem.delete_writes id).1

lemma delete_overlays (rt : VectorRuntime) (id : VectorId) :
    Overlays (look norm) rt.view (rt.delete [] id).1.view (if id = kEmpty then [] else [(id,none)]) := by
  have ok : (rt.delete [] id).2.ok := by rw [delete_clean]; rfl
  obtain ⟨wal,same⟩ := VectorRuntime.delete_ok ok
  rw [same]
  exact VectorRuntime.stored_overlays _ ((rt.mem.delete_writes id).2.overlays_look (look norm))

end

/-! ### Two runtimes side by side -/

/-- A runtime with coalescing and one without, after the same operations: the second is
ahead by the buffered puts. -/
structure Behind (norm : Metadata → Metadata) (c p : Coalescing) : Prop where
  synced : c.rt.Synced
  synced' : p.rt.Synced
  shaped : c.rt.Shaped
  shaped' : p.rt.Shaped
  config : VectorRuntime.SameConfig c.rt p.rt
  plain : p.coalesce_window_us = 0
  sized : ∀ e ∈ c.coalesce_buffer, e.vec.length = c.rt.dim.toNat
  blind : ∀ e ∈ c.coalesce_buffer, Blind norm e.md
  ahead : Ahead (look norm) c.rt.view p.rt.view (bufferWrites norm c.rt c.coalesce_buffer)

structure Level (c p : Coalescing) : Prop where
  same : c.coalesce_buffer = [] → c.rt = p.rt
  idle : c.coalesce_window_us = 0 → c.coalesce_buffer = []

section
variable {norm : Metadata → Metadata} {c p : Coalescing}

lemma putWrites_config {rt other : VectorRuntime} (same : VectorRuntime.SameConfig rt other) (id : VectorId) (vec : Vec)
    (md : Metadata) : putWrites norm other id vec md = putWrites norm rt id vec md := by
  rw [putWrites,putWrites,same.newMemTable]

lemma Behind.refl (synced : c.rt.Synced) (shaped : c.rt.Shaped) (empty : c.coalesce_buffer = []) (same : c.rt = p.rt)
    (plain : p.coalesce_window_us = 0) : Behind norm c p where
  synced := synced
  synced' := same ▸ synced
  shaped := shaped
  shaped' := same ▸ shaped
  config := same ▸ .refl c.rt
  plain := plain
  sized := by simp [empty]
  blind := by simp [empty]
  ahead := by
    rw [same,empty]
    exact .refl _ _

lemma unbuffered {id : VectorId} (absent : ∀ e ∈ c.coalesce_buffer, e.id ≠ id) :
    lastWrite (bufferWrites norm c.rt c.coalesce_buffer) id = none := by
  rw [lastWrite_eq_none]
  intro w member
  obtain ⟨e,held,written⟩ := List.mem_flatMap.mp member
  grind [putWrites]

/-- What is returned depends on the version only as far as it is looked at. -/
lemma get_looked (timed : ∀ md, (norm md).timestamp = md.timestamp) (now_sec : UInt64) (id : VectorId)
    (rt : VectorRuntime) : (rt.get now_sec id).map (look norm) = match (rt.view id).map fun found => found.map (look norm) with
      | some (some found) =>
        if VectorRuntime.vectorMetaExpired rt.ttl_sec now_sec found.2 then .error (.notFound "vector expired") else .ok found
      | some none => .error (.notFound "tombstone")
      | none => .error (.notFound "vector not found") := by
  have late : ∀ ttl_sec md, VectorRuntime.vectorMetaExpired ttl_sec now_sec (norm md) =
      VectorRuntime.vectorMetaExpired ttl_sec now_sec md := by
    intro ttl_sec md
    rw [VectorRuntime.vectorMetaExpired,timed]
    rfl
  rw [VectorRuntime.get_view_expiring]
  cases rt.view id with
  | none => rfl
  | some value =>
    cases value with
    | none => rfl
    | some found =>
      simp only [Option.map_some,look,late]
      split <;> rfl

namespace Behind
variable (behind : Behind norm c p)
include behind

lemma flushed (wal : Wal) : Behind norm {c with rt := applied c.rt wal c.coalesce_buffer, coalesce_buffer := []} p := by
  have wrote : VectorRuntime.Written c.rt (applied c.rt wal c.coalesce_buffer) :=
    .rotated wal _ (applyEntries_sameShape ..)
  obtain ⟨same,shaped⟩ := wrote.config behind.shaped
  have written := applyEntries_overlays behind.shaped c.coalesce_buffer behind.sized behind.blind wal.seq
  exact
    { synced := behind.synced.written wrote
      synced' := behind.synced'
      shaped := shaped
      shaped' := behind.shaped'
      config := same.symm.trans behind.config
      plain := behind.plain
      sized := by simp
      blind := by simp
      ahead := behind.ahead.caught (VectorRuntime.rotated_overlays behind.synced wal written) }

lemma buffered (now : Nat) (e : CoalesceEntry) (sized : e.vec.length = c.rt.dim.toNat) (blind : Blind norm e.md)
    (free : p.rt.backpressure = false) :
    Behind norm (c.buffered now e) {p with rt := (p.rt.put [] e.id e.vec e.md).1} := by
  have wrote := VectorRuntime.put_written p.rt [] e.id e.vec e.md
  obtain ⟨same,shaped⟩ := wrote.config behind.shaped'
  have there : e.vec.length = p.rt.dim.toNat := by rw [behind.config.dim,sized]
  have written := put_overlays behind.synced' behind.shaped' e.id there free blind
  rw [putWrites_config behind.config] at written
  have member : ∀ {other : CoalesceEntry}, other ∈ (c.buffered now e).coalesce_buffer →
      other ∈ c.coalesce_buffer ∨ other = e := by simp [Coalescing.buffered]
  exact
    { synced := behind.synced
      synced' := behind.synced'.written wrote
      shaped := behind.shaped
      shaped' := shaped
      config := behind.config.trans same
      plain := behind.plain
      sized := by
        intro other held
        rcases member held with before | rfl
        · exact behind.sized other before
        · exact sized
      blind := by
        grind [blind]
      ahead := by
        have further := behind.ahead.further written
        simpa [bufferWrites,Coalescing.buffered] using further }

lemma wrote {next next' : VectorRuntime} {more : List (VectorId × Option Found)} (wrote : VectorRuntime.Written c.rt next)
    (wrote' : VectorRuntime.Written p.rt next')
    (apart : ∀ key, lastWrite (bufferWrites norm c.rt c.coalesce_buffer) key = none ∨ lastWrite more key = none)
    (lower : Overlays (look norm) c.rt.view next.view more) (upper : Overlays (look norm) p.rt.view next'.view more) :
    Behind norm {c with rt := next} {p with rt := next'} := by
  obtain ⟨same,shaped⟩ := wrote.config behind.shaped
  obtain ⟨same',shaped'⟩ := wrote'.config behind.shaped'
  exact
    { synced := behind.synced.written wrote
      synced' := behind.synced'.written wrote'
      shaped := shaped
      shaped' := shaped'
      config := same.symm.trans (behind.config.trans same')
      plain := behind.plain
      sized := by
        rw [same.dim]
        exact behind.sized
      blind := behind.blind
      ahead := by
        have buffer : bufferWrites norm next c.coalesce_buffer = bufferWrites norm c.rt c.coalesce_buffer := by
          simp only [bufferWrites,putWrites_config same]
        rw [buffer]
        exact behind.ahead.both apart lower upper }

lemma delete {id : VectorId} (absent : ∀ e ∈ c.coalesce_buffer, e.id ≠ id) :
    Behind norm {c with rt := (c.rt.delete [] id).1} {p with rt := (p.rt.delete [] id).1} := by
  have apart : ∀ key, lastWrite (bufferWrites norm c.rt c.coalesce_buffer) key = none ∨
      lastWrite (if id = kEmpty then [] else [(id,(none : Option Found))]) key = none := by
    intro key
    by_cases here : id = key
    · rw [← here]
      exact .inl (unbuffered absent)
    · right
      split
      · rfl
      · rw [lastWrite_singleton,if_neg here]
  exact behind.wrote (VectorRuntime.delete_written c.rt [] id) (VectorRuntime.delete_written p.rt [] id) apart
    (delete_overlays c.rt id) (delete_overlays p.rt id)

lemma get (timed : ∀ md, (norm md).timestamp = md.timestamp) (now_sec : UInt64) {id : VectorId}
    (absent : ∀ e ∈ c.coalesce_buffer, e.id ≠ id) :
    (c.rt.get now_sec id).map (look norm) = (p.rt.get now_sec id).map (look norm) := by
  have seen := behind.ahead id
  rw [unbuffered absent,Option.none_or] at seen
  rw [get_looked timed,get_looked timed,seen,behind.config.ttl_sec]

end Behind

/-! ### Operations that do not meet the buffer -/

/-- The operation does not touch what is in the buffer, and a put is refused by both
runtimes or by none. A freeze is not cut off between installing and publishing. -/
def ClearStep (c p : Coalescing) : CoalesceOp → Prop
  | .put _ _ vec _ => vec.length = c.rt.dim.toNat → c.rt.backpressure = p.rt.backpressure
  | .delete id => ∀ e ∈ c.coalesce_buffer, e.id ≠ id
  | .get _ id => ∀ e ∈ c.coalesce_buffer, e.id ≠ id
  | .flush => c.coalesce_buffer = []
  | .freeze clock => c.coalesce_buffer = [] ∧ (c.rt.freeze clock).1.Synced

def Clear : Coalescing → Coalescing → List CoalesceOp → Prop
  | _,_,[] => True
  | c,p,op :: ops => ClearStep c p op ∧ Clear (c.step op) (p.step op) ops

/-- `norm` hides the sequence number of the metadata that the operation stores. -/
def CoalesceOp.Blind (norm : Metadata → Metadata) : CoalesceOp → Prop
  | .put _ _ _ md => Coalescing.Blind norm md
  | _ => True

/-! The ends a put can come to on a disk that does not fail. -/

section
variable {now : Nat} {id : VectorId} {vec : Vec} {md : Metadata}

lemma put_refused (refused : vec.length ≠ c.rt.dim.toNat ∨ c.rt.backpressure = true) : (c.put [] now id vec md).1 = c := by
  grind [put]

variable (sized : vec.length = c.rt.dim.toNat) (free : c.rt.backpressure = false)
include sized free

end

lemma Level.moved (level : Level c p) (same : c.rt = p.rt → next = next') : Level {c with rt := next} {p with rt := next'} :=
  ⟨fun empty => same (level.same empty),level.idle⟩

lemma Level.buffered (on : c.coalesce_window_us ≠ 0) (now : Nat) (e : CoalesceEntry) (p : Coalescing) :
    Level (c.buffered now e) p where
  same := by simp [Coalescing.buffered]
  idle := fun off => absurd off on

end

def CoalesceOp.Bare : CoalesceOp → Prop
  | .put _ _ _ md => MemTable.keepsMetadata md = false
  | _ => True

end Coalescing
end PomaiCache
