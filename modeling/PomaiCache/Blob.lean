import PomaiCache.Basic
import PomaiCache.RecordLog
import PomaiCache.Dict

/-!
The blob engine. Its log has one record for each put and each deletion, and opening applies the
records to the map as it is.
-/
namespace PomaiCache
open Codec RecordLog Layers Option UInt64

inductive BlobRecord
  | put (id : UInt64) (data : Bytes)
  | delete (id : UInt64)
  deriving DecidableEq, Repr

namespace BlobRecord

def encode : BlobRecord → Bytes
  | put id data => le 1 1 ++ (le 8 id.toNat ++ (le 4 (UInt32.ofNat data.length).toNat ++ data))
  | delete id => le 1 2 ++ (le 8 id.toNat ++ le 4 0)

/-- The reads of one round of the loop in `Open`, which an unknown operation ends. -/
def next (bytes : Bytes) : Option (BlobRecord × Bytes) :=
  (read 1 bytes).bind fun op =>
  (read 8 op.2).bind fun id =>
  (read 4 id.2).bind fun sz =>
    if leNat op.1 = 1 then (read (leNat sz.1) sz.2).map fun data => (.put (UInt64.ofNat (leNat id.1)) data.1,data.2)
    else if leNat op.1 = 2 then some (.delete (UInt64.ofNat (leNat id.1)),sz.2)
    else none

lemma next_shrinks {bytes rest : Bytes} {r : BlobRecord} (found : next bytes = some (r,rest)) : rest.length < bytes.length := by
  obtain ⟨op,first,found⟩ := read_bind found
  grind [read_bind,read_map]

def reader : Reader BlobRecord := ⟨next,next_shrinks⟩

def Fits : BlobRecord → Prop
  | put _ data => data.length < 2 ^ 32
  | delete _ => True

lemma next_encode {r : BlobRecord} (fits : r.Fits) (rest : Bytes) : next (r.encode ++ rest) = some (r,rest) := by
  have one : leNat (le 1 1) = 1 := by decide
  have two : leNat (le 1 2) = 2 := by decide
  cases r with
  | put id data =>
    have size := leNat_length (show data.length < 2 ^ 32 from fits)
    simp only [next,encode,List.append_assoc]
    rw [read_append (le_length 1 _),bind_some,read_append (le_length 8 _),bind_some,
      read_append (le_length 4 _),bind_some,if_pos one,size,read_append rfl,map_some]
    simp
  | delete id =>
    simp only [next,encode,List.append_assoc]
    rw [read_append (le_length 1 _),bind_some,read_append (le_length 8 _),bind_some,
      read_append (le_length 4 _),bind_some,two,if_neg (by decide),if_pos rfl]
    simp

def write : BlobRecord → UInt64 × Option Bytes
  | put id data => (id,some data)
  | delete id => (id,none)

end BlobRecord

structure BlobEngine where
  max_blob_bytes : UInt64
  blobs : Dict UInt64 Bytes
  current_bytes : UInt64
  /-- The file `blob.log`. -/
  log : Bytes

namespace BlobEngine

variable (e : BlobEngine)

def blobSize (id : UInt64) : UInt64 := (e.blobs.lookup id).elim 0 fun data => UInt64.ofNat data.length

def load : BlobRecord → BlobEngine
  | .put id b => {e with
      blobs := e.blobs.insert id b
      current_bytes := e.current_bytes - e.blobSize id + UInt64.ofNat b.length}
  | .delete id => {e with blobs := e.blobs.erase id, current_bytes := e.current_bytes - e.blobSize id}

def openEngine : BlobEngine := (BlobRecord.reader.all e.log).foldl load e

def put (e : BlobEngine) (id : UInt64) (data : Bytes) : BlobEngine × Status :=
  let incoming := UInt64.ofNat data.length
  let old := e.blobSize id
  if e.max_blob_bytes > 0 ∧ e.current_bytes - old + incoming > e.max_blob_bytes then
    (e,.resourceExhausted "blob memory cap exceeded")
  else
    ({e with
      blobs := e.blobs.insert id data
      current_bytes := e.current_bytes - old + incoming
      log := e.log ++ (BlobRecord.put id data).encode},.Ok)

def get (id : UInt64) : Except Status Bytes :=
  match e.blobs.lookup id with
  | none => .error (.notFound "blob not found")
  | some data => .ok data

def delete (e : BlobEngine) (id : UInt64) : BlobEngine :=
  {e with
    blobs := e.blobs.erase id
    current_bytes := e.current_bytes - e.blobSize id
    log := e.log ++ (BlobRecord.delete id).encode}

def created (max_blob_bytes : UInt64) : BlobEngine := ⟨max_blob_bytes,∅,0,[]⟩

def reopened : BlobEngine := openEngine {e with blobs := ∅, current_bytes := 0}

inductive Step
  | put (id : UInt64) (data : Bytes)
  | delete (id : UInt64)
  | restart

def step : Step → BlobEngine
  | .put id data => (e.put id data).1
  | .delete id => e.delete id
  | .restart => e.reopened

def runAll (steps : List Step) : BlobEngine := steps.foldl step e

def Step.Fits : Step → Prop
  | put _ data => data.length < 2 ^ 32
  | delete _ => True
  | restart => True

/-- The log holds these records, and the map shows the last one of each id. -/
structure Logged (e : BlobEngine) (rs : List BlobRecord) : Prop where
  file : e.log = rs.flatMap BlobRecord.encode
  fits : ∀ r ∈ rs, r.Fits
  held : ∀ id, e.blobs.lookup id = (lastWrite (rs.map BlobRecord.write) id).getD none

lemma load_blobs (e : BlobEngine) (r : BlobRecord) : (e.load r).blobs = e.blobs.write r.write ∧ (e.load r).log = e.log := by
  cases r <;> exact ⟨rfl,rfl⟩

lemma foldl_load (rs : List BlobRecord) (e : BlobEngine) :
    (rs.foldl load e).blobs = e.blobs.writeAll (rs.map BlobRecord.write) ∧ (rs.foldl load e).log = e.log := by
  induction rs generalizing e with
  | nil => exact ⟨rfl,rfl⟩
  | cons r rs ih =>
    obtain ⟨blobs,log⟩ := ih (e.load r)
    rw [List.foldl_cons,blobs,log,(e.load_blobs r).1,(e.load_blobs r).2]
    exact ⟨rfl,rfl⟩

namespace Logged
variable {e : BlobEngine} {rs : List BlobRecord}

lemma created (max_blob_bytes : UInt64) : Logged (created max_blob_bytes) [] := by
  constructor
  · rfl
  · intro r member
    cases member
  · intro id
    rfl

lemma records (logged : Logged e rs) : BlobRecord.reader.all e.log = rs :=
  BlobRecord.reader.all_file logged.file fun r member => BlobRecord.next_encode (logged.fits r member)

lemma append (logged : Logged e rs) {r : BlobRecord} (fits : r.Fits) (current_bytes : UInt64) :
    Logged {e with blobs := e.blobs.write r.write, current_bytes := current_bytes, log := e.log ++ r.encode} (rs ++ [r]) := by
  constructor
  · simp [logged.file]
  · grind [fits]
  · intro id
    rw [List.map_append,lastWrite_append,Dict.lookup_write,logged.held]
    grind [lastWrite_singleton]

lemma reopened (logged : Logged e rs) : Logged e.reopened rs := by
  obtain ⟨blobs,log⟩ := foldl_load rs {e with blobs := ∅, current_bytes := 0}
  have opened : e.reopened = rs.foldl load {e with blobs := ∅, current_bytes := 0} := by
    rw [BlobEngine.reopened,openEngine,logged.records]
  rw [opened]
  constructor
  · rw [log]
    exact logged.file
  · exact logged.fits
  · intro id
    rw [blobs,Dict.lookup_writeAll]
    rfl

lemma step (logged : Logged e rs) {s : Step} (fits : s.Fits) : ∃ after, Logged (e.step s) after := by
  cases s with
  | put id data =>
    rw [BlobEngine.step,BlobEngine.put]
    split
    · exact ⟨rs,logged⟩
    · exact ⟨_,logged.append (show (BlobRecord.put id data).Fits from fits) _⟩
  | delete id => exact ⟨_,logged.append (show (BlobRecord.delete id).Fits from trivial) _⟩
  | restart => exact ⟨rs,logged.reopened⟩

lemma runAll (logged : Logged e rs) {steps : List Step} (fits : ∀ s ∈ steps, s.Fits) : ∃ after, Logged (e.runAll steps) after := by
  induction steps generalizing e rs with
  | nil => exact ⟨rs,logged⟩
  | cons s rest ih =>
    obtain ⟨after,next⟩ := logged.step (fits s (.head _))
    exact ih next fun other member => fits other (.tail _ member)

lemma opened_get (logged : Logged e rs) (id : UInt64) : e.openEngine.get id = e.get id := by
  have blobs : e.openEngine.blobs.lookup id = e.blobs.lookup id := by
    rw [openEngine,logged.records,(foldl_load rs e).1,Dict.lookup_writeAll,logged.held]
    cases lastWrite (rs.map BlobRecord.write) id <;> rfl
  rw [get,get,blobs]

end Logged

def total : Nat := (e.blobs.entries.map fun b => b.2.length).sum

/-- The counter is right modulo the size of a word. -/
def Counts : Prop := e.current_bytes = UInt64.ofNat e.total

/-- The stored blobs and the data of a put are in memory at once, which has less than `2 ^ 64`
bytes. -/
def InMemory (e : BlobEngine) : List Step → Prop
  | [] => True
  | .put id data :: rest => e.total + data.length < 2 ^ 64 ∧ (e.step (.put id data)).InMemory rest
  | s :: rest => (e.step s).InMemory rest

variable {e : BlobEngine}

lemma total_erase (e : BlobEngine) (id : UInt64) :
    ∃ old, e.blobSize id = UInt64.ofNat old ∧ ((e.blobs.erase id).entries.map fun b => b.2.length).sum + old = e.total := by
  unfold blobSize
  cases held : e.blobs.lookup id with
  | none => exact ⟨0,rfl,by rw [Dict.erase_absent held]; rfl⟩
  | some data =>
    refine ⟨data.length,rfl,?_⟩
    rw [total,((Dict.entries_perm held).map fun b => b.2.length).sum_eq]
    simp [Nat.add_comm]

lemma Counts.load (counts : e.Counts) (r : BlobRecord) : (e.load r).Counts := by
  obtain ⟨old,size,sum⟩ := e.total_erase r.write.1
  have erased : e.current_bytes - e.blobSize r.write.1 =
      UInt64.ofNat ((e.blobs.erase r.write.1).entries.map fun b => b.2.length).sum := by
    rw [counts,size,← sum,UInt64.ofNat_add,UInt64.add_sub_cancel]
  cases r with
  | put id data =>
    simp only [Counts,BlobEngine.load,total]
    rw [show e.current_bytes - e.blobSize id = _ from erased,← ofNat_add,Nat.add_comm]
    rfl
  | delete id => exact erased

lemma Counts.reopened (e : BlobEngine) : e.reopened.Counts := by
  have all (rs : List BlobRecord) {start : BlobEngine} (counts : start.Counts) : (rs.foldl BlobEngine.load start).Counts := by
    induction rs generalizing start with
    | nil => exact counts
    | cons r rest ih => exact ih (counts.load r)
  exact all _ rfl

lemma total_reopened {rs : List BlobRecord} (logged : Logged e rs) : e.reopened.total = e.total := by
  have same (id : UInt64) : e.reopened.blobs.lookup id = e.blobs.lookup id := by rw [logged.held,logged.reopened.held]
  apply Nat.le_antisymm
  · exact Dict.measure_le _ fun id data held => ⟨data,by rw [← same,held],Nat.le_refl _⟩
  · exact Dict.measure_le _ fun id data held => ⟨data,by rw [same,held],Nat.le_refl _⟩

structure Bounded (e : BlobEngine) : Prop where
  counts : e.Counts
  fits : e.total < 2 ^ 64
  capped : e.max_blob_bytes = 0 ∨ e.total ≤ e.max_blob_bytes.toNat

lemma Bounded.put (bounded : e.Bounded) {id : UInt64} {data : Bytes} (memory : e.total + data.length < 2 ^ 64) :
    (e.put id data).1.Bounded := by
  obtain ⟨old,size,sum⟩ := e.total_erase id
  have counts := bounded.counts.load (.put id data)
  have after : (e.load (.put id data)).total = data.length + ((e.blobs.erase id).entries.map fun b => b.2.length).sum := rfl
  have fits : (e.load (.put id data)).total < 2 ^ 64 := by omega
  unfold BlobEngine.put
  dsimp only
  split
  · exact bounded
  · next room =>
    refine ⟨counts,fits,?_⟩
    by_cases none_ : e.max_blob_bytes = 0
    · exact .inl none_
    · right
      have le : e.current_bytes - e.blobSize id + UInt64.ofNat data.length ≤ e.max_blob_bytes :=
        UInt64.not_lt.mp fun above => room ⟨UInt64.pos_iff_ne_zero.mpr none_,above⟩
      have counted : (e.load (.put id data)).current_bytes ≤ e.max_blob_bytes := le
      rw [counts,le_iff_toNat_le,toNat_ofNat_of_lt' fits] at counted
      exact counted

lemma max_reopened (e : BlobEngine) : e.reopened.max_blob_bytes = e.max_blob_bytes := by
  have all (rs : List BlobRecord) (start : BlobEngine) : (rs.foldl load start).max_blob_bytes = start.max_blob_bytes := by
    induction rs generalizing start with
    | nil => rfl
    | cons r rest ih =>
      rw [List.foldl_cons,ih]
      cases r <;> rfl
  exact all ..

lemma Bounded.runAll {rs : List BlobRecord} {steps : List Step} (logged : Logged e rs) (bounded : e.Bounded)
    (fits : ∀ s ∈ steps, s.Fits) (memory : e.InMemory steps) :
    (e.runAll steps).Bounded ∧ (e.runAll steps).max_blob_bytes = e.max_blob_bytes := by
  induction steps generalizing e rs with
  | nil => exact ⟨bounded,rfl⟩
  | cons s rest ih =>
    obtain ⟨after,next⟩ := logged.step (fits s (.head _))
    have go (here : (e.step s).Bounded) (same : (e.step s).max_blob_bytes = e.max_blob_bytes) (memory : (e.step s).InMemory rest) :=
      (ih next here (fun other member => fits other (.tail _ member)) memory).imp id (·.trans same)
    cases s with
    | put id data =>
      refine go (bounded.put memory.1) ?_ memory.2
      simp only [BlobEngine.step,BlobEngine.put]
      split <;> rfl
    | delete id =>
      obtain ⟨old,_,sum⟩ := e.total_erase id
      have total : (e.step (.delete id)).total + old = e.total := sum
      have less : (e.step (.delete id)).total < 2 ^ 64 := by have := bounded.fits; omega
      exact go ⟨bounded.counts.load (.delete id),less,bounded.capped.imp_right (by show _ → _ ≤ e.max_blob_bytes.toNat; omega)⟩ rfl memory
    | restart =>
      have total := total_reopened logged
      refine go ⟨.reopened e,?_,?_⟩ e.max_reopened memory
      · rw [show (e.step .restart).total = e.total from total]
        exact bounded.fits
      · rw [show (e.step .restart).total = e.total from total,show (e.step .restart).max_blob_bytes = _ from e.max_reopened]
        exact bounded.capped

lemma put_refused {id : UInt64} {data : Bytes} (refused : (e.put id data).2 ≠ .Ok) : (e.put id data).1 = e := by
  unfold put at refused ⊢
  dsimp only at refused ⊢
  split
  · rfl
  · next room => simp [room] at refused

/-- The counter is the number of bytes and not above the cap, a put that is refused changes
nothing, and a new engine on the log is the same. -/
structure Accounted (e : BlobEngine) (cap : UInt64) : Prop where
  counted : e.current_bytes.toNat = e.total
  capped : cap = 0 ∨ e.current_bytes ≤ cap
  refused : ∀ id data, (e.put id data).2 ≠ .Ok → (e.put id data).1 = e
  blobs : ∀ id, e.reopened.blobs.lookup id = e.blobs.lookup id
  current_bytes : e.reopened.current_bytes = e.current_bytes

theorem runAll_accounted (cap : UInt64) (steps : List Step) (fits : ∀ s ∈ steps, s.Fits) (memory : (created cap).InMemory steps) :
    ((created cap).runAll steps).Accounted cap := by
  obtain ⟨rs,logged⟩ := (Logged.created cap).runAll fits
  obtain ⟨bounded,same⟩ := Bounded.runAll (Logged.created cap) ⟨rfl,show 0 < 2 ^ 64 by decide,.inr (Nat.zero_le _)⟩ fits memory
  have counted : ((created cap).runAll steps).current_bytes.toNat = ((created cap).runAll steps).total := by
    rw [bounded.counts,toNat_ofNat_of_lt' bounded.fits]
  constructor
  · exact counted
  · have capped := bounded.capped
    rw [same] at capped
    exact capped.imp_right fun le => le_iff_toNat_le.mpr (counted ▸ le)
  · exact fun id data => put_refused
  · exact fun id => by rw [logged.held,logged.reopened.held]
  · rw [Counts.reopened,total_reopened logged,← bounded.counts]

theorem runAll_accounted_overwrite : ((created 2).runAll [.put 1 [7,7],.put 1 [8],.put 2 [5,5],.delete 1]).Accounted 2 :=
  runAll_accounted 2 [.put 1 [7,7],.put 1 [8],.put 2 [5,5],.delete 1] (by simp [Step.Fits])
    (.intro (by decide) (.intro (by decide) (.intro (by decide) trivial)))

end BlobEngine
end PomaiCache
