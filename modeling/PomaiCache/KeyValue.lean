import PomaiCache.Basic
import PomaiCache.CarefulRuns
import PomaiCache.RecordLog
import PomaiCache.Dict

/-!
The key-value engine. Its map is rebuilt from two files: the log of an older format, whose
entries count as created when the file is loaded, and the log of timed records.
-/
namespace PomaiCache
open Codec RecordLog Layers Option

structure KvEntry where
  value : Bytes
  created_at_sec : UInt64
  deriving DecidableEq, Repr

def KvEntry.restamp (now : UInt64) (entry : KvEntry) : KvEntry := {entry with created_at_sec := now}

structure RetentionPolicy where
  ttl_sec : UInt32 := 0
  max_count : UInt32 := 0
  max_bytes : UInt64 := 0
  deriving DecidableEq, Repr

namespace RetentionPolicy

def isExpired (r : RetentionPolicy) (entry : KvEntry) (now_sec : UInt64) : Bool :=
  r.ttl_sec > 0 && entry.created_at_sec > 0 && now_sec > entry.created_at_sec && now_sec - entry.created_at_sec ≥ r.ttl_sec.toUInt64

lemma isExpired_later {r : RetentionPolicy} {entry : KvEntry} {now later : UInt64} (le : now ≤ later)
    (expired : r.isExpired entry now = true) : r.isExpired entry later = true := by
  simp only [isExpired,Bool.and_eq_true,decide_eq_true_eq,gt_iff_lt,ge_iff_le,UInt64.lt_iff_toNat_lt,
    UInt64.le_iff_toNat_le] at expired le ⊢
  obtain ⟨⟨⟨ttl,created⟩,behind⟩,age⟩ := expired
  have before : entry.created_at_sec ≤ now := UInt64.le_iff_toNat_le.mpr (by omega)
  have before' : entry.created_at_sec ≤ later := UInt64.le_iff_toNat_le.mpr (by omega)
  grind [UInt64.toNat_sub_of_le]

lemma isExpired_created (r : RetentionPolicy) (value : Bytes) (now : UInt64) : r.isExpired ⟨value,now⟩ now = false := by
  simp [isExpired]

end RetentionPolicy

/-- A record of `kv.log`. -/
structure LegacyRecord where
  op : UInt8
  key : Bytes
  value : Bytes
  deriving DecidableEq, Repr

/-- A record of `kv_timed.log`. -/
structure TimedRecord where
  op : UInt8
  ts : UInt64
  key : Bytes
  value : Bytes
  deriving DecidableEq, Repr

namespace LegacyRecord

def next (bytes : Bytes) : Option (LegacyRecord × Bytes) :=
  (read 1 bytes).bind fun op =>
  (read 4 op.2).bind fun ksz =>
  (read 4 ksz.2).bind fun vsz =>
  (read (leNat ksz.1) vsz.2).bind fun key =>
  (read (leNat vsz.1) key.2).map fun value =>
    (⟨UInt8.ofNat (leNat op.1),key.1,value.1⟩,value.2)

lemma next_shrinks {bytes rest : Bytes} {r : LegacyRecord} (found : next bytes = some (r,rest)) : rest.length < bytes.length := by
  obtain ⟨op,first,found⟩ := read_bind found
  obtain ⟨ksz,second,found⟩ := read_bind found
  obtain ⟨vsz,third,found⟩ := read_bind found
  obtain ⟨key,fourth,found⟩ := read_bind found
  obtain ⟨value,fifth,found⟩ := read_map found
  cases found
  omega

def reader : Reader LegacyRecord := ⟨next,next_shrinks⟩

lemma next_lengths (found : next bytes = some (r,rest)) : r.key.length < 2 ^ 32 ∧ r.value.length < 2 ^ 32 := by
  obtain ⟨op,first,found⟩ := bind_eq_some_iff.mp found
  obtain ⟨ksz,second,found⟩ := bind_eq_some_iff.mp found
  obtain ⟨vsz,third,found⟩ := bind_eq_some_iff.mp found
  obtain ⟨key,fourth,found⟩ := bind_eq_some_iff.mp found
  obtain ⟨value,fifth,found⟩ := map_eq_some_iff.mp found
  cases found
  have ksize := leNat_lt ksz.1
  have vsize := leNat_lt vsz.1
  grind [read_piece]

def writes (now : UInt64) (r : LegacyRecord) : List (Bytes × Option KvEntry) :=
  if r.op = 1 then [(r.key,some ⟨r.value,now⟩)] else if r.op = 2 then [(r.key,none)] else []

lemma writes_restamp (now : UInt64) (r : LegacyRecord) :
    r.writes now = (r.writes 0).map fun w => (w.1,w.2.map (KvEntry.restamp now)) := by
  unfold writes
  split
  · rfl
  · split <;> rfl

end LegacyRecord

namespace TimedRecord

variable (r : TimedRecord)

def encode : Bytes :=
  le 1 r.op.toNat ++ (le 4 (UInt32.ofNat r.key.length).toNat ++ (le 4 (UInt32.ofNat r.value.length).toNat ++
    (le 8 r.ts.toNat ++ (r.key ++ r.value))))

def next (bytes : Bytes) : Option (TimedRecord × Bytes) :=
  (read 1 bytes).bind fun op =>
  (read 4 op.2).bind fun ksz =>
  (read 4 ksz.2).bind fun vsz =>
  (read 8 vsz.2).bind fun ts =>
  (read (leNat ksz.1) ts.2).bind fun key =>
  (read (leNat vsz.1) key.2).map fun value =>
    (⟨UInt8.ofNat (leNat op.1),UInt64.ofNat (leNat ts.1),key.1,value.1⟩,value.2)

lemma next_shrinks {bytes rest : Bytes} {r : TimedRecord} (found : next bytes = some (r,rest)) : rest.length < bytes.length := by
  obtain ⟨op,first,found⟩ := read_bind found
  obtain ⟨ksz,second,found⟩ := read_bind found
  obtain ⟨vsz,third,found⟩ := read_bind found
  obtain ⟨ts,fourth,found⟩ := read_bind found
  obtain ⟨key,fifth,found⟩ := read_bind found
  obtain ⟨value,sixth,found⟩ := read_map found
  cases found
  omega

def reader : Reader TimedRecord := ⟨next,next_shrinks⟩

def Fits : Prop := r.key.length < 2 ^ 32 ∧ r.value.length < 2 ^ 32

lemma next_encode {r : TimedRecord} (fits : r.Fits) (rest : Bytes) : next (r.encode ++ rest) = some (r,rest) := by
  simp only [next,encode,List.append_assoc]
  rw [read_append (le_length 1 _),bind_some,read_append (le_length 4 _),bind_some,
    read_append (le_length 4 _),bind_some,read_append (le_length 8 _),bind_some,leNat_length fits.1,
    read_append rfl,bind_some,leNat_length fits.2,read_append rfl,map_some]
  simp

def writes : List (Bytes × Option KvEntry) :=
  if r.op = 1 then [(r.key,some ⟨r.value,r.ts⟩)] else if r.op = 2 then [(r.key,none)] else []

end TimedRecord

abbrev KvMap := Dict Bytes KvEntry

namespace KvMap

def approxBytesUsed (kv : KvMap) : Nat := (kv.entries.map fun e => e.1.length + e.2.value.length).sum

variable (walk : Dict.Walk Bytes KvEntry)

/-- `erase(begin())`; which entry stands first is up to the map. -/
def eraseFirst (kv : KvMap) : KvMap :=
  match (walk.order kv).head? with
  | none => kv
  | some first => kv.erase first.1

/-- The first entry, in the order of the walk, with the least creation time. -/
def oldest (best : Option (Σ _ : Bytes, KvEntry)) : List (Σ _ : Bytes, KvEntry) → Option (Σ _ : Bytes, KvEntry)
  | [] => best
  | e :: rest =>
    match best with
    | none => oldest (some e) rest
    | some b => if e.2.created_at_sec < b.2.created_at_sec then oldest (some e) rest else oldest (some b) rest

def pruneOldest (kv : KvMap) : KvMap :=
  match oldest none (walk.order kv) with
  | none => kv
  | some e => kv.erase e.1

/-- The pruning loops. Each round removes an entry, so the size is enough fuel. -/
def pruneWhile (walk : Dict.Walk Bytes KvEntry) (over_ : KvMap → Bool) : Nat → KvMap → KvMap
  | 0,kv => kv
  | fuel + 1,kv => if over_ kv then pruneWhile walk over_ fuel (pruneOldest walk kv) else kv

end KvMap

structure KeyValueEngine where
  max_entries : Nat
  retention : RetentionPolicy
  kv : KvMap
  /-- The file `kv.log`, empty when there is none. -/
  kv_log : Bytes
  /-- The file `kv_timed.log`, empty when there is none. -/
  kv_timed_log : Bytes

namespace KeyValueEngine
open KvMap

def unexpired (r : RetentionPolicy) (now : UInt64) (kv : KvMap) : KvMap := kv.keep fun _ entry => !r.isExpired entry now

def overCount (r : RetentionPolicy) (kv : KvMap) : Bool := r.max_count > 0 && kv.size > r.max_count.toNat

def overBytes (r : RetentionPolicy) (kv : KvMap) : Bool :=
  r.max_bytes > 0 && kv.approxBytesUsed > r.max_bytes.toNat && kv.size != 0

variable (walk : Dict.Walk Bytes KvEntry)

def enforceRetention (now : UInt64) (e : KeyValueEngine) : KeyValueEngine :=
  let kv := if e.retention.ttl_sec > 0 then unexpired e.retention now e.kv else e.kv
  let kv := pruneWhile walk (overCount e.retention) kv.size kv
  let kv := pruneWhile walk (overBytes e.retention) kv.size kv
  {e with kv := kv}

variable (max_entries : Nat)

def loadLegacy (now : UInt64) (kv : KvMap) (r : LegacyRecord) : KvMap :=
  let kv := kv.writeAll (r.writes now)
  if max_entries > 0 ∧ kv.size > max_entries then eraseFirst walk kv else kv

/-- `Open`, which reads the clock for the entries of `kv.log` and again to enforce retention. -/
def openEngine (now later : UInt64) (e : KeyValueEngine) : KeyValueEngine :=
  let kv := (LegacyRecord.reader.all e.kv_log).foldl (loadLegacy walk e.max_entries now) e.kv
  let kv := (TimedRecord.reader.all e.kv_timed_log).foldl (fun kv r => kv.writeAll r.writes) kv
  enforceRetention walk later {e with kv := kv}

def put (now later : UInt64) (e : KeyValueEngine) (key value : Bytes) : KeyValueEngine × Status :=
  if key.isEmpty then (e,.invalidArgument "kv key empty")
  else
    let kv := if e.max_entries > 0 ∧ e.kv.size ≥ e.max_entries ∧ e.kv.lookup key = none then eraseFirst walk e.kv else e.kv
    let e := enforceRetention walk later {e with kv := kv.insert key ⟨value,now⟩}
    ({e with kv_timed_log := e.kv_timed_log ++ TimedRecord.encode ⟨1,now,key,value⟩},.Ok)

def get (now : UInt64) (e : KeyValueEngine) (key : Bytes) : Except Status Bytes :=
  match e.kv.lookup key with
  | none => .error (.notFound "kv not found")
  | some entry => if e.retention.isExpired entry now then .error (.notFound "kv expired") else .ok entry.value

def delete (now : UInt64) (e : KeyValueEngine) (key : Bytes) : KeyValueEngine :=
  {e with kv := e.kv.erase key, kv_timed_log := e.kv_timed_log ++ TimedRecord.encode ⟨2,now,key,[]⟩}

def liveRecords (kv : KvMap) : List TimedRecord :=
  (walk.order kv).map fun e => ⟨1,e.2.created_at_sec,e.1,e.2.value⟩

def compact (now : UInt64) (e : KeyValueEngine) : KeyValueEngine :=
  let e := enforceRetention walk now e
  {e with kv_timed_log := (liveRecords walk e.kv).flatMap TimedRecord.encode}

def setRetentionPolicy (now later : UInt64) (e : KeyValueEngine) (retention : RetentionPolicy) : KeyValueEngine :=
  compact walk later (enforceRetention walk now {e with retention := retention})

/-- A call, with the clock readings it makes and the orders in which the map is walked. -/
inductive KvCall
  | put (walk : Dict.Walk Bytes KvEntry) (now later : UInt64) (key value : Bytes)
  | delete (now : UInt64) (key : Bytes)
  | compact (walk : Dict.Walk Bytes KvEntry) (now : UInt64)
  | setRetentionPolicy (walk : Dict.Walk Bytes KvEntry) (now later : UInt64) (retention : RetentionPolicy)

/-- The first and the last reading of the clock. -/
def KvCall.begins : KvCall → UInt64
  | put _ now _ _ _ => now
  | delete now _ => now
  | compact _ now => now
  | setRetentionPolicy _ now _ _ => now

def KvCall.ends : KvCall → UInt64
  | put _ _ later _ _ => later
  | delete now _ => now
  | compact _ now => now
  | setRetentionPolicy _ _ later _ => later

/-- The clock does not run backwards between `now` and the time `last` behind the calls. -/
def Clock (now : UInt64) (last : UInt64) : List KvCall → Prop
  | [] => now ≤ last
  | c :: rest => now ≤ c.begins ∧ c.begins ≤ c.ends ∧ Clock c.ends last rest

variable (e : KeyValueEngine)

def call : KvCall → KeyValueEngine
  | .put walk now later key value => (e.put walk now later key value).1
  | .delete now key => e.delete now key
  | .compact walk now => e.compact walk now
  | .setRetentionPolicy walk now later retention => e.setRetentionPolicy walk now later retention

def runAll (calls : List KvCall) : KeyValueEngine := calls.foldl call e

def created (retention : RetentionPolicy) (kv_log : Bytes) : KeyValueEngine :=
  ⟨max_entries,retention,∅,kv_log,[]⟩

def reopened (now : UInt64) (e : KeyValueEngine) : KeyValueEngine :=
  openEngine walk now now {e with kv := ∅}

def loaded (now : UInt64) (rs : List LegacyRecord) : KvMap := Dict.writeAll ∅ (rs.flatMap (LegacyRecord.writes now))

def legacy (now : UInt64) (kv_log : Bytes) : KvMap := loaded now (LegacyRecord.reader.all kv_log)

def timedWrites : List (Bytes × Option KvEntry) :=
  (TimedRecord.reader.all e.kv_timed_log).flatMap TimedRecord.writes

def Roomy (r : RetentionPolicy) (kv : KvMap) : Prop :=
  (r.max_count = 0 ∨ kv.size ≤ r.max_count.toNat) ∧ (r.max_bytes = 0 ∨ kv.approxBytesUsed ≤ r.max_bytes.toNat)

/-- Loading `kv.log` never goes over the limit of the engine. -/
def LoadsAll (kv_log : Bytes) : Prop :=
  max_entries = 0 ∨ ∀ n ≤ (LegacyRecord.reader.all kv_log).length,
    (loaded 0 ((LegacyRecord.reader.all kv_log).take n)).size ≤ max_entries

/-- The call evicts nothing, and what it logs can be read back. -/
def Spares : KvCall → Prop
  | .put _ now later key value => key = [] ∨ key.length < 2 ^ 32 ∧ value.length < 2 ^ 32 ∧
      (e.max_entries = 0 ∨ e.kv.size < e.max_entries ∨ (e.kv.lookup key).isSome) ∧
      Roomy e.retention (unexpired e.retention later (e.kv.insert key ⟨value,now⟩))
  | .delete _ key => key.length < 2 ^ 32
  | .compact _ now => Roomy e.retention (unexpired e.retention now e.kv)
  | .setRetentionPolicy _ now _ retention => Roomy retention (unexpired retention now e.kv)

abbrev SparesAll (e : KeyValueEngine) (calls : List KvCall) : Prop := CarefulRuns.Careful call Spares e calls

instance (r : RetentionPolicy) (kv : KvMap) : Decidable (Roomy r kv) := inferInstanceAs (Decidable ((_ ∨ _) ∧ (_ ∨ _)))

instance (max_entries : Nat) (kv_log : Bytes) : Decidable (LoadsAll max_entries kv_log) :=
  inferInstanceAs (Decidable (_ ∨ ∀ n ≤ _, _))

instance decidableSpares (e : KeyValueEngine) : (c : KvCall) → Decidable (e.Spares c)
  | .put .. => inferInstanceAs (Decidable (_ ∨ _ ∧ _ ∧ _ ∧ _))
  | .delete .. => inferInstanceAs (Decidable (_ < _))
  | .compact .. => inferInstanceAs (Decidable (Roomy _ _))
  | .setRetentionPolicy .. => inferInstanceAs (Decidable (Roomy _ _))

instance decidableClock : (now last : UInt64) → (calls : List KvCall) → Decidable (Clock now last calls)
  | now,last,[] => inferInstanceAs (Decidable (now ≤ last))
  | now,last,c :: rest =>
    @instDecidableAnd (now ≤ c.begins) _ _ (@instDecidableAnd (c.begins ≤ c.ends) _ _ (decidableClock c.ends last rest))

/-- The keys that `kv.log` leaves and that the timed log does not mention are held and not
expired. -/
def LegacyAlive (now : UInt64) : Prop :=
  ∀ key, lastWrite e.timedWrites key = none → ((legacy 0 e.kv_log).lookup key).isSome →
    ∃ entry, e.kv.lookup key = some entry ∧ e.retention.isExpired entry now = false

lemma lookup_unexpired (r : RetentionPolicy) (now : UInt64) (kv : KvMap) (key : Bytes) :
    (unexpired r now kv).lookup key = (kv.lookup key).filter fun entry => !r.isExpired entry now :=
  Dict.lookup_keep ..

variable {r : RetentionPolicy} {kv : KvMap}

lemma pruneWhile_fits {walk : Dict.Walk Bytes KvEntry} {over_ : KvMap → Bool} (fits : over_ kv = false)
    (fuel : Nat) : pruneWhile walk over_ fuel kv = kv := by
  cases fuel with
  | zero => rfl
  | succ fuel => simp [pruneWhile,fits]

lemma Roomy.fits (roomy : Roomy r kv) : overCount r kv = false ∧ overBytes r kv = false := by
  obtain ⟨count,bytes⟩ := roomy
  grind [overCount,overBytes]

lemma unexpired_of_ttl (r : RetentionPolicy) (now : UInt64) (kv : KvMap) :
    (if r.ttl_sec > 0 then unexpired r now kv else kv) = unexpired r now kv := by
  split
  · rfl
  · next off => exact (Dict.keep_eq_self fun entry _ => by simp [RetentionPolicy.isExpired,off]).symm

lemma enforceRetention_roomy {e : KeyValueEngine} {now : UInt64} (roomy : Roomy e.retention (unexpired e.retention now e.kv))
    (walk : Dict.Walk Bytes KvEntry) : enforceRetention walk now e = {e with kv := unexpired e.retention now e.kv} := by
  obtain ⟨count,bytes⟩ := roomy.fits
  simp only [enforceRetention,unexpired_of_ttl,pruneWhile_fits count,pruneWhile_fits bytes]

lemma Roomy.of_le (roomy : Roomy r large) (inside : ∀ key entry, small.lookup key = some entry →
      ∃ other, large.lookup key = some other ∧ entry.value = other.value) : Roomy r small := by
  have size : small.size ≤ large.size := Dict.size_le fun key some_ => by
    obtain ⟨entry,held⟩ := isSome_iff_exists.mp some_
    grind
  have bytes : small.approxBytesUsed ≤ large.approxBytesUsed := by
    apply Dict.measure_le
    grind
  exact ⟨roomy.1.imp_right (Nat.le_trans size),roomy.2.imp_right (Nat.le_trans bytes)⟩

lemma lookup_unexpired_some (held : (unexpired r now kv).lookup key = some entry) : kv.lookup key = some entry := by
  rw [lookup_unexpired,filter_eq_some_iff] at held
  exact held.1

lemma Roomy.unexpired (roomy : Roomy r kv) (now : UInt64) : Roomy r (unexpired r now kv) :=
  roomy.of_le fun _ entry held => ⟨entry,lookup_unexpired_some held,rfl⟩

end KeyValueEngine
end PomaiCache
