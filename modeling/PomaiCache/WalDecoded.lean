import PomaiCache.Wal

/-!
The records of a log as replay decodes them. Replay applies the records it decodes one
after another.
-/
namespace PomaiCache
open Codec Wal List

structure Decoded where
  seq : UInt64
  op : UInt8
  id : VectorId
  vec : Vec
  md : Metadata
  deriving DecidableEq, Repr

namespace Wal

/-- The decoding in replay, without the writes to the memtable. -/
def decodeOp (seq : UInt64) (op : UInt8) (id : VectorId) (dim : Nat) (rest : Bytes) : Except Status Decoded :=
  let payload_len := 21 + rest.length
  let vec_bytes := dim * 4
  if op = Op.kPut then
    if 21 + vec_bytes ≠ payload_len then .error (.corruption "wal put length mismatch")
    else .ok ⟨seq,op,id,readWords dim rest,{lsn := seq}⟩
  else if op = Op.kPutMeta then
    if payload_len < 21 + vec_bytes + 4 then .error (.corruption "wal putmeta too short")
    else (decodeMetadata (rest.drop vec_bytes)).bind fun md =>
      .ok ⟨seq,op,id,readWords dim rest,{md with lsn := seq}⟩
  else if op = Op.kDel then
    if payload_len ≠ 21 then .error (.corruption "wal del length mismatch")
    else .ok ⟨seq,op,id,[],{}⟩
  else if op = Op.kRawKV ∨ op = Op.kBatchStart ∨ op = Op.kBatchEnd then .ok ⟨seq,op,id,[],{}⟩
  else .error (.corruption "wal unknown op")

def decodePayload (payload : Bytes) : Except Status Decoded :=
  decodeOp (UInt64.ofNat (leNat (slice payload 0 8))) (UInt8.ofNat (leNat (slice payload 8 1)))
    (UInt64.ofNat (leNat (slice payload 9 8))) (leNat (slice payload 17 4)) (payload.drop 21)

def decodeFrames (cipher : Option Cipher) : Nat → Bytes → Except Status (List Decoded)
  | 0,_ => .ok []
  | fuel + 1,rest =>
    match nextBody rest with
    | none => .ok []
    | some body =>
      (openBody cipher body).bind fun payload =>
      (decodePayload payload).bind fun d =>
      (decodeFrames cipher fuel (rest.drop (4 + body.length))).bind fun ds => .ok (d :: ds)

def decodeDir (cipher : Option Cipher) : WalDir → Except Status (List Decoded)
  | some file :: rest =>
    (framesOffset file).bind fun off =>
    (decodeFrames cipher file.length (file.drop off)).bind fun ds =>
    (decodeDir cipher rest).bind fun later => .ok (ds ++ later)
  | _ => .ok []

def decoded (w : Wal) : Except Status (List Decoded) := decodeDir w.cipher w.dir

end Wal

namespace Decoded

def applyTo (mem : MemTable) (d : Decoded) : Except Status MemTable :=
  if d.op = Op.kPut ∨ d.op = Op.kPutMeta then orReturn (mem.putMeta d.id d.vec d.md)
  else if d.op = Op.kDel then orReturn (mem.delete d.id)
  else .ok mem

def step (state : MemTable × UInt64) (d : Decoded) : Except Status (MemTable × UInt64) :=
  (d.applyTo state.1).bind fun mem => .ok (mem,if d.seq > state.2 then d.seq else state.2)

def applyAll : List Decoded → MemTable × UInt64 → Except Status (MemTable × UInt64)
  | [],state => .ok state
  | d :: ds,state => (d.step state).bind (applyAll ds)

lemma applyAll_append (first second : List Decoded) (state : MemTable × UInt64) :
    applyAll (first ++ second) state = (applyAll first state).bind (applyAll second) := by
  induction first generalizing state with
  | nil => rfl
  | cons d ds ih =>
    rw [cons_append,applyAll,applyAll]
    cases d.step state with
    | error st => rfl
    | ok next => exact ih next

end Decoded

namespace Wal

lemma applyOp_decodeOp {seq : UInt64} {op : UInt8} {id : VectorId} {dim : Nat} {rest : Bytes} {d : Decoded}
    (decoded : decodeOp seq op id dim rest = .ok d) (mem : MemTable) :
    d.seq = seq ∧ applyOp seq op id dim rest mem = d.applyTo mem := by
  unfold decodeOp at decoded
  unfold applyOp Decoded.applyTo
  dsimp only at decoded ⊢
  by_cases put : op = Op.kPut
  · grind
  rw [if_neg put] at decoded ⊢
  by_cases putMeta : op = Op.kPutMeta
  · rw [if_pos putMeta] at decoded ⊢
    split at decoded
    · cases decoded
    · next long =>
      obtain ⟨md,read,same⟩ := bind_eq_ok decoded
      cases same
      exact ⟨rfl,by rw [if_neg long,read,if_pos (.inr putMeta)]; rfl⟩
  grind

lemma applyPayload_decodePayload {payload : Bytes} {d : Decoded} (decoded : decodePayload payload = .ok d)
    (state : MemTable × UInt64) :
    ((applyPayload payload state.1).bind fun mem => .ok (mem,laterSeq state.2 payload)) = d.step state := by
  obtain ⟨seq,applied⟩ := applyOp_decodeOp decoded state.1
  rw [applyPayload,applied,Decoded.step,laterSeq,seq]

variable {ds : List Decoded}

lemma replayFrames_decoded {cipher : Option Cipher} {fuel : Nat} {rest : Bytes}
    (decoded : decodeFrames cipher fuel rest = .ok ds) (state : MemTable × UInt64) :
    replayFrames cipher fuel rest state = Decoded.applyAll ds state := by
  induction fuel generalizing rest ds state with
  | zero =>
    cases decoded
    rfl
  | succ fuel ih =>
    rw [decodeFrames] at decoded
    rw [replayFrames]
    cases next : nextBody rest with
    | none =>
      rw [next] at decoded
      cases decoded
      rfl
    | some body =>
      rw [next] at decoded
      obtain ⟨payload,opened,decoded⟩ := bind_eq_ok decoded
      obtain ⟨d,here,decoded⟩ := bind_eq_ok decoded
      obtain ⟨later,more,same⟩ := bind_eq_ok decoded
      cases same
      have first := applyPayload_decodePayload here state
      rw [Decoded.applyAll,← first]
      dsimp only
      rw [opened,Except.bind]
      cases applyPayload payload state.1 with
      | error st => rfl
      | ok mem => exact ih more _

lemma replayDir_decoded {cipher : Option Cipher} {dir : WalDir}
    (decoded : decodeDir cipher dir = .ok ds) (state : MemTable × UInt64) :
    replayDir cipher dir state = Decoded.applyAll ds state := by
  induction dir generalizing ds state with
  | nil =>
    cases decoded
    rfl
  | cons file rest ih =>
    cases file with
    | none =>
      cases decoded
      rfl
    | some file =>
      rw [decodeDir] at decoded
      obtain ⟨off,start,decoded⟩ := bind_eq_ok decoded
      obtain ⟨here,frames,decoded⟩ := bind_eq_ok decoded
      obtain ⟨later,more,same⟩ := bind_eq_ok decoded
      cases same
      rw [replayDir,replayFile,start,Decoded.applyAll_append,← replayFrames_decoded frames]
      show (replayFrames cipher file.length (file.drop off) state).bind (replayDir cipher rest) = _
      cases replayFrames cipher file.length (file.drop off) state with
      | error st => rfl
      | ok next => exact ih more next

lemma replayInto_decoded {w : Wal} (decoded : w.decoded = .ok ds) (mem : MemTable) :
    w.replayInto mem = Decoded.applyAll ds (mem,w.seq) :=
  replayDir_decoded decoded (mem,w.seq)

end Wal

end PomaiCache
