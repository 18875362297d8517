import PomaiCache.MemTable

/-!
The write-ahead log: numbered segment files, each a header followed by frames of a length, a
body and a checksum. The directory of the log gives the content of each generation's file.
-/
namespace PomaiCache
open Codec

namespace Op
def kPut : UInt8 := 1
def kDel : UInt8 := 2
def kPutMeta : UInt8 := 3
def kRawKV : UInt8 := 4
def kBatchStart : UInt8 := 5
def kBatchEnd : UInt8 := 6
end Op

/-- `"pomai.wal.v1"` in ASCII. -/
def kWalMagic : Bytes := [0x70,0x6F,0x6D,0x61,0x69,0x2E,0x77,0x61,0x6C,0x2E,0x76,0x31]
def kWalVersion : Nat := 1

def walFileHeader : Bytes := kWalMagic ++ le 4 kWalVersion

/-- Authenticated encryption under the log's key, as the crypto library gives it:
the ciphertext is as long as the text, the tag has 16 bytes, and decryption
with the same nonce and tag returns the text. -/
structure Cipher where
  encrypt : Bytes → Bytes → Bytes × Bytes
  decrypt : Bytes → Bytes → Bytes → Except Status Bytes
  cipher_length : ∀ nonce plain, (encrypt nonce plain).1.length = plain.length
  tag_length : ∀ nonce plain, (encrypt nonce plain).2.length = 16
  decrypt_encrypt : ∀ nonce plain,decrypt nonce (encrypt nonce plain).1 (encrypt nonce plain).2 = .ok plain

/-- The segment files by generation; `none` is a file that does not exist. -/
abbrev WalDir := List (Option Bytes)

namespace WalDir

def file (dir : WalDir) (g : Nat) : Option Bytes := dir.getD g none

def setFile : WalDir → Nat → Option Bytes → WalDir
  | [],0,f => [f]
  | [],g + 1,f => none :: setFile [] g f
  | _ :: rest,0,f => f :: rest
  | old :: rest,g + 1,f => old :: setFile rest g f

def firstMissing : WalDir → Nat
  | some _ :: rest => firstMissing rest + 1
  | _ => 0

lemma cases_of_gap {dir : WalDir} (gap : dir.firstMissing = 0) : dir = [] ∨ ∃ rest, dir = none :: rest := by
  match dir with
  | [] => exact .inl rfl
  | none :: rest => exact .inr ⟨rest,rfl⟩
  | some _ :: _ => cases gap

/-- Delete existing files from generation 0 on, `count` of them at most. -/
def deleteFirst : Nat → WalDir → WalDir
  | count + 1,some _ :: rest => none :: deleteFirst count rest
  | _,dir => dir

end WalDir

/-- How one append to a file ends: with all its bytes written, or with an error
after a number of them. -/
inductive Outcome
  | done
  | stopped (written : Nat)
  deriving DecidableEq, Repr

structure Wal where
  dir : WalDir
  segment_bytes : Nat
  shard_id : UInt32
  cipher : Option Cipher
  gen : Nat
  seq : UInt64
  bytes_in_seg : Nat

namespace Wal

variable (w : Wal)

variable (outs : List Outcome)

/-- `WritableFile::Append` on the file of the current generation. -/
def appendFile (data : Bytes) : Wal × List Outcome × Status :=
  let file := (w.dir.file w.gen).getD []
  match outs.headD .done with
  | .done => ({w with dir := w.dir.setFile w.gen (some (file ++ data))},outs.tail,.Ok)
  | .stopped written =>
    ({w with dir := w.dir.setFile w.gen (some (file ++ data.take written))},outs.tail,.ioError "pwrite")

/-- The header check of `Open` on the existing files. -/
def checkHeaders : WalDir → Status
  | some file :: rest =>
    let hdr := slice file 0 16
    if hdr.length ≠ 16 then .aborted "wal header short"
    else if slice hdr 0 12 ≠ kWalMagic ∨ leNat (slice hdr 12 4) ≠ kWalVersion then
      .aborted "wal compatibility check failed"
    else checkHeaders rest
  | _ => .Ok

def openLog : Wal × Status :=
  let w := {w with gen := w.dir.firstMissing}
  let st := checkHeaders w.dir
  if st.ok then
    -- `NewAppendableFile` creates the file and keeps what an existing one holds.
    let file := (w.dir.file w.gen).getD []
    let w := {w with dir := w.dir.setFile w.gen (some file)}
    if file.length = 0 then
      let (w,_,st) := w.appendFile outs walFileHeader
      if st.ok then ({w with bytes_in_seg := 16},.Ok) else (w,st)
    else ({w with bytes_in_seg := file.length},.Ok)
  else (w,st)

def rotateIfNeeded (add_bytes : Nat) : Wal × List Outcome × Status :=
  if w.bytes_in_seg + add_bytes ≤ w.segment_bytes then (w,outs,.Ok)
  else
    let w := {w with gen := w.gen + 1, bytes_in_seg := 0}
    let w := {w with dir := w.dir.setFile w.gen (some ((w.dir.file w.gen).getD []))}
    let (w,outs,st) := w.appendFile outs walFileHeader
    if st.ok then ({w with bytes_in_seg := 16},outs,.Ok) else (w,outs,st)

/-- Append the pieces one after another and stop at the first failure. -/
def appendIovecs (w : Wal) (outs : List Outcome) : List Bytes → Wal × List Outcome × Status
  | [] => (w,outs,.Ok)
  | data :: rest =>
    if data.length = 0 then appendIovecs w outs rest
    else
      let (w,outs,st) := w.appendFile outs data
      if st.ok then appendIovecs w outs rest else (w,outs,st)

def appendString (s : Bytes) : Bytes :=
  let len := UInt32.ofNat s.length
  le 4 len.toNat ++ s.take len.toNat

variable (seq : UInt64)

def recordPrefix (op : UInt8) (id : VectorId) (dim : UInt32) : Bytes :=
  le 8 seq.toNat ++ [op] ++ le 8 id.toNat ++ le 4 dim.toNat

def metadataBlock (md : Metadata) : Bytes :=
  le 8 md.src_vid.toNat ++ le 8 md.timestamp.toNat ++ le 8 md.lsn.toNat ++ le 8 md.lat.toNat ++ le 8 md.lon.toNat ++
    appendString md.tenant ++ appendString md.device_id ++ appendString md.location_id ++
    appendString md.text ++ appendString md.payload

variable (id : VectorId)

def putPlain (vec : Vec) (md : Metadata) : Bytes :=
  recordPrefix seq (if md.tenant.isEmpty then Op.kPut else Op.kPutMeta) id (UInt32.ofNat vec.length) ++ words vec ++
    (if !md.tenant.isEmpty || !md.device_id.isEmpty || !md.location_id.isEmpty ||
        md.timestamp > 0 || md.src_vid > 0 then metadataBlock md else [])

def deletePlain : Bytes := recordPrefix seq Op.kDel id 0

def rawKVPlain (op : UInt8) (key value : Bytes) : Bytes :=
  let klen := UInt32.ofNat key.length
  let vlen := UInt32.ofNat value.length
  recordPrefix seq op 0 0 ++ le 4 klen.toNat ++ le 4 vlen.toNat ++ key.take klen.toNat ++ value.take vlen.toNat

def makeNonce (shard_id : UInt32) (seq : UInt64) (gen : Nat) : Bytes :=
  (le 4 shard_id.toNat ++ le 8 seq.toNat).modify 11 (· ^^^ UInt8.ofNat (gen &&& 0xFF))

/-- The frame body of a record: the record itself or its encryption. -/
def bodyOf (seq : UInt64) (plain : Bytes) : Bytes :=
  match w.cipher with
  | none => plain
  | some c =>
    let nonce := makeNonce w.shard_id seq w.gen
    nonce ++ (c.encrypt nonce plain).1 ++ (c.encrypt nonce plain).2

/-- The common end of the appending calls: rotate, append the pieces, and count
the bytes when all of them are written. `seq` is the sequence number of the last
record of the call. -/
def writeOut (total_bytes : Nat) (pieces : List Bytes) (seq : UInt64) : Wal × List Outcome × Status :=
  let (w,outs,st) := w.rotateIfNeeded outs total_bytes
  if st.ok then
    let (w,outs,st) := appendIovecs {w with seq := seq} outs pieces
    if st.ok then ({w with bytes_in_seg := w.bytes_in_seg + total_bytes},outs,.Ok) else (w,outs,st)
  else (w,outs,st)

/-- What `AppendPut`, `AppendDelete` and `AppendRawKV` do with the record they
have laid out for the next sequence number. -/
def appendRecord (plain : UInt64 → Bytes) : Wal × List Outcome × Status :=
  let w := {w with seq := w.seq + 1}
  let body := w.bodyOf w.seq (plain w.seq)
  let len := UInt32.ofNat (body.length + 4)
  w.writeOut outs (4 + len.toNat) [le 4 len.toNat,body,le 4 (crc32c body 0).toNat] w.seq

def appendPut (vec : Vec) (md : Metadata) : Wal × List Outcome × Status :=
  w.appendRecord outs fun seq => putPlain seq id vec md

def appendDelete : Wal × List Outcome × Status :=
  w.appendRecord outs fun seq => deletePlain seq id

def appendRawKV (op : UInt8) (key value : Bytes) : Wal × List Outcome × Status :=
  w.appendRecord outs fun seq => rawKVPlain seq op key value

/-- The loop of an encrypted batch. -/
def appendPuts (w : Wal) (outs : List Outcome) : List (VectorId × Vec) → Wal × List Outcome × Status
  | [] => (w,outs,.Ok)
  | item :: rest =>
    let (w,outs,st) := w.appendPut outs item.1 item.2 {}
    if st.ok then appendPuts w outs rest else (w,outs,st)

/-- The pieces of one frame of a batch; the checksum is continued over the vector. -/
def batchPieces (vec : Vec) : List Bytes :=
  let rp := recordPrefix seq Op.kPut id (UInt32.ofNat vec.length)
  let len := UInt32.ofNat (21 + (words vec).length + 4)
  [le 4 len.toNat,rp,words vec,le 4 (crc32c (words vec) (crc32c rp 0)).toNat]

def batchIovecs : UInt64 → List (VectorId × Vec) → List Bytes
  | _,[] => []
  | seq,item :: rest => batchPieces (seq + 1) item.1 item.2 ++ batchIovecs (seq + 1) rest

def appendBatch (ids : List VectorId) (vectors : List Vec) : Wal × List Outcome × Status :=
  if ids.length ≠ vectors.length then (w,outs,.invalidArgument "ids and vectors size mismatch")
  else if ids.isEmpty then (w,outs,.Ok)
  else if w.cipher.isSome then w.appendPuts outs (ids.zip vectors)
  else
    let total_batch_bytes := (vectors.map fun vec => 4 + 21 + (words vec).length + 4).sum
    -- The records are numbered once the rotation has succeeded.
    w.writeOut outs total_batch_bytes (batchIovecs w.seq (ids.zip vectors)) (w.seq + UInt64.ofNat ids.length)

def resetCut (count : Nat) : WalDir := w.dir.deleteFirst count

def reset : Wal × Status :=
  openLog {w with dir := w.resetCut w.dir.length, gen := 0, seq := 0, bytes_in_seg := 0} []

def readString (base : Bytes) (cursor : Nat) : Option (Bytes × Nat) :=
  if cursor + 4 > base.length then none
  else
    let n := leNat (slice base cursor 4)
    if cursor + 4 + n > base.length then none
    else some (slice base (cursor + 4) n,cursor + 4 + n)

/-- The five strings behind the fixed fields, in the order they are read. -/
def readStrings (base : Bytes) (md : Metadata) : Option Metadata :=
  (readString base 40).bind fun tenant =>
  (readString base tenant.2).bind fun device_id =>
  (readString base device_id.2).bind fun location_id =>
  (readString base location_id.2).bind fun text =>
  (readString base text.2).map fun payload =>
    { md with
      tenant := tenant.1
      device_id := device_id.1
      location_id := location_id.1
      text := text.1
      payload := payload.1 }

def decodeMetadata (block : Bytes) : Except Status Metadata :=
  if block.length ≥ 8 + 8 + 8 + 8 + 8 then
    let md : Metadata :=
      { src_vid := UInt64.ofNat (leNat (slice block 0 8))
        timestamp := UInt64.ofNat (leNat (slice block 8 8))
        lsn := UInt64.ofNat (leNat (slice block 16 8))
        lat := UInt64.ofNat (leNat (slice block 24 8))
        lon := UInt64.ofNat (leNat (slice block 32 8)) }
    match readStrings block md with
    | some md => .ok md
    | none => .error (.corruption "wal putmeta decode failed")
  else
    match readString block 0 with
    | some tenant => .ok {tenant := tenant.1}
    | none => .error (.corruption "wal legacy putmeta decode failed")

/-- Turn a status into the early return of the source. -/
def orReturn (result : MemTable × Status) : Except Status MemTable :=
  if result.2.ok then .ok result.1 else .error result.2

/-- Apply one record, given the fields of its prefix and the bytes behind it.
With and without encryption the length tests of the source compare the same
number, the length of the payload. -/
def applyOp (op : UInt8) (id : VectorId) (dim : Nat) (rest : Bytes) (mem : MemTable) : Except Status MemTable :=
  let payload_len := 21 + rest.length
  let vec_bytes := dim * 4
  if op = Op.kPut then
    if 21 + vec_bytes ≠ payload_len then .error (.corruption "wal put length mismatch")
    else orReturn (mem.putMeta id (readWords dim rest) {lsn := seq})
  else if op = Op.kPutMeta then
    if payload_len < 21 + vec_bytes + 4 then .error (.corruption "wal putmeta too short")
    else (decodeMetadata (rest.drop vec_bytes)).bind fun md =>
      orReturn (mem.putMeta id (readWords dim rest) {md with lsn := seq})
  else if op = Op.kDel then
    if payload_len ≠ 21 then .error (.corruption "wal del length mismatch")
    else orReturn (mem.delete id)
  else if op = Op.kRawKV ∨ op = Op.kBatchStart ∨ op = Op.kBatchEnd then .ok mem
  else .error (.corruption "wal unknown op")

def applyPayload (payload : Bytes) (mem : MemTable) : Except Status MemTable :=
  applyOp (UInt64.ofNat (leNat (slice payload 0 8))) (UInt8.ofNat (leNat (slice payload 8 1)))
    (UInt64.ofNat (leNat (slice payload 9 8))) (leNat (slice payload 17 4)) (payload.drop 21) mem

variable (cipher : Option Cipher)

def decryptBody (payload : Bytes) : Except Status Bytes :=
  match cipher with
  | none => .ok payload
  | some c =>
    if payload.length < 12 + 16 then .error (.corruption "wal encrypted frame too small")
    else
      let cipher_len := payload.length - 12 - 16
      c.decrypt (slice payload 0 12) (slice payload 12 cipher_len) (slice payload (12 + cipher_len) 16)

def openBody (body : Bytes) : Except Status Bytes :=
  if body.length < 21 + 4 then .error (.corruption "wal frame too small")
  else if leNat (slice body (body.length - 4) 4) ≠ (crc32c (body.take (body.length - 4)) 0).toNat then
    .error (.corruption "wal crc mismatch")
  else (decryptBody cipher (body.take (body.length - 4))).bind fun payload =>
    if payload.length < 21 then .error (.corruption "wal missing record prefix") else .ok payload

/-- The bytes of the next frame behind its length, or `none` at a truncated tail. -/
def nextBody (rest : Bytes) : Option Bytes :=
  if rest.length < 4 then none
  else
    let len := leNat (slice rest 0 4)
    if 4 + len > rest.length then none else some (slice rest 4 len)

/-- The bodies of the whole frames of a file from an offset on. A frame takes at least four
bytes, so the length of the file is enough fuel. -/
def bodies : Nat → Bytes → List Bytes
  | 0,_ => []
  | fuel + 1,rest =>
    match nextBody rest with
    | none => []
    | some body => body :: bodies fuel (rest.drop (4 + body.length))

def laterSeq (payload : Bytes) : UInt64 :=
  let found := UInt64.ofNat (leNat (slice payload 0 8))
  if found > seq then found else seq

/-- The frame loop over one file from the current offset on. A frame that is not
refused takes at least 29 bytes, so the length of the file is enough fuel. -/
def replayFrames (cipher : Option Cipher) : Nat → Bytes → MemTable × UInt64 → Except Status (MemTable × UInt64)
  | 0,_,state => .ok state
  | fuel + 1,rest,state =>
    match nextBody rest with
    | none => .ok state
    | some body =>
      (openBody cipher body).bind fun payload =>
      (applyPayload payload state.1).bind fun mem =>
        replayFrames cipher fuel (rest.drop (4 + body.length)) (mem,laterSeq state.2 payload)

def framesOffset (file : Bytes) : Except Status Nat :=
  if file.length ≥ 16 then
    if slice file 0 12 = kWalMagic then
      if leNat (slice file 12 4) ≠ kWalVersion then .error (.aborted "wal version mismatch") else .ok 16
    else .ok 0
  else .ok 0

def replayFile (file : Bytes) (state : MemTable × UInt64) : Except Status (MemTable × UInt64) :=
  (framesOffset file).bind fun off => replayFrames cipher file.length (file.drop off) state

/-- The loop over the generations, which ends at the first missing file. -/
def replayDir (cipher : Option Cipher) : WalDir → MemTable × UInt64 → Except Status (MemTable × UInt64)
  | some file :: rest,state => (replayFile cipher file state).bind (replayDir cipher rest)
  | _,state => .ok state

def replayInto (mem : MemTable) : Except Status (MemTable × UInt64) :=
  replayDir w.cipher w.dir (mem,w.seq)

end Wal
end PomaiCache
