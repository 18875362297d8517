import PomaiCache.Graph

/-!
Replay of arbitrary bytes. Here the decoders compute with `size_t` as the source does, and
every read of the frame body is checked: `none` is a read that leaves the body.
-/
namespace PomaiCache
open Codec List Option Function UInt64

namespace ReplayBounds

def readAt (body : Bytes) (off len : UInt64) : Option Bytes :=
  if off.toNat + len.toNat ≤ body.length then some (slice body off.toNat len.toNat) else none

lemma readAt_eq {body : Bytes} {off len : UInt64} (inside : off.toNat + len.toNat ≤ body.length) :
    readAt body off len = some (slice body off.toNat len.toNat) := if_pos inside

/-- `ReadString` on the block that starts at `base`; its `false` is the inner `none`. -/
def readString (body : Bytes) (base len cursor : UInt64) : Option (Option (Bytes × UInt64)) :=
  if cursor + 4 > len then some none
  else
    (readAt body (base + cursor) 4).bind fun size =>
      let n := (UInt32.ofNat (leNat size)).toUInt64
      let cursor := cursor + 4
      if cursor + n > len then some none
      else (readAt body (base + cursor) n).map fun s => some (s,cursor + n)

/-- Go on behind a string, unless there was none. -/
def andThen {α : Type} (found : Option (Option (Bytes × UInt64))) (next : Bytes → UInt64 → Option (Option α)) : Option (Option α) :=
  found.bind fun
    | none => some none
    | some (s,cursor) => next s cursor

def readStrings (body : Bytes) (base len : UInt64) (md : Metadata) : Option (Option Metadata) :=
  andThen (readString body base len 40) fun tenant cursor =>
  andThen (readString body base len cursor) fun device_id cursor =>
  andThen (readString body base len cursor) fun location_id cursor =>
  andThen (readString body base len cursor) fun text cursor =>
  andThen (readString body base len cursor) fun payload _ =>
    some (some { md with
      tenant := tenant
      device_id := device_id
      location_id := location_id
      text := text
      payload := payload })

/-- The metadata of a `kPutMeta` record, with or without the fixed fields. -/
def readMetadata (body : Bytes) (base len : UInt64) : Option (Except Status Metadata) :=
  if len ≥ 8 + 8 + 8 + 8 + 8 then
    (readAt body base 8).bind fun src_vid =>
    (readAt body (base + 8) 8).bind fun timestamp =>
    (readAt body (base + 16) 8).bind fun lsn =>
    (readAt body (base + 24) 8).bind fun lat =>
    (readAt body (base + 32) 8).bind fun lon =>
      let md : Metadata :=
        { src_vid := UInt64.ofNat (leNat src_vid)
          timestamp := UInt64.ofNat (leNat timestamp)
          lsn := UInt64.ofNat (leNat lsn)
          lat := UInt64.ofNat (leNat lat)
          lon := UInt64.ofNat (leNat lon) }
      (readStrings body base len md).map fun
        | some md => .ok md
        | none => .error (.corruption "wal putmeta decode failed")
  else
    (readString body base len 0).map fun
      | some tenant => .ok {tenant := tenant.1}
      | none => .error (.corruption "wal legacy putmeta decode failed")

def applyRecord (body : Bytes) (len : UInt32) (rp : Bytes) (mem : MemTable) : Option (Except Status MemTable) :=
  let seq := UInt64.ofNat (leNat (slice rp 0 8))
  let op := UInt8.ofNat (leNat (slice rp 8 1))
  let id := UInt64.ofNat (leNat (slice rp 9 8))
  let dim := UInt32.ofNat (leNat (slice rp 17 4))
  let payload_len := len.toUInt64 - 4
  let vec_bytes := dim.toUInt64 * 4
  if op = Op.kPut then
    if 21 + vec_bytes + 4 ≠ len.toUInt64 then some (.error (.corruption "wal put length mismatch"))
    else
      (readAt body 21 vec_bytes).map fun vec => Wal.orReturn (mem.putMeta id (readWords dim.toNat vec) {lsn := seq})
  else if op = Op.kPutMeta then
    if len.toUInt64 < 21 + vec_bytes + 4 + 4 then some (.error (.corruption "wal putmeta too short"))
    else
      (readAt body 21 vec_bytes).bind fun vec =>
      (readMetadata body (21 + vec_bytes) (payload_len - (21 + vec_bytes))).map fun decoded =>
        decoded.bind fun md => Wal.orReturn (mem.putMeta id (readWords dim.toNat vec) {md with lsn := seq})
  else if op = Op.kDel then
    if len.toUInt64 ≠ 21 + 4 then some (.error (.corruption "wal del length mismatch"))
    else some (Wal.orReturn (mem.delete id))
  else if op = Op.kRawKV ∨ op = Op.kBatchStart ∨ op = Op.kBatchEnd then some (.ok mem)
  else some (.error (.corruption "wal unknown op"))

/-- What an iteration of `ReplayInto` does with a body of `len` bytes. -/
def replayBody (body : Bytes) (len : UInt32) (state : MemTable × UInt64) : Option (Except Status (MemTable × UInt64)) :=
  if len.toUInt64 < 21 + 4 then some (.error (.corruption "wal frame too small"))
  else
    (readAt body (len.toUInt64 - 4) 4).bind fun stored_crc =>
    (readAt body 0 (len.toUInt64 - 4)).bind fun covered =>
      if leNat stored_crc ≠ (crc32c covered 0).toNat then some (.error (.corruption "wal crc mismatch"))
      else if len.toUInt64 - 4 < 21 then some (.error (.corruption "wal missing record prefix"))
      else
        (readAt body 0 21).bind fun rp =>
        (applyRecord body len rp state.1).map fun applied =>
          applied.map fun mem => (mem,Wal.laterSeq state.2 rp)

/-! ### The reads of a body stay inside -/

lemma toNat_add_small {a b : UInt64} (small : a.toNat + b.toNat < 2 ^ 64) : (a + b).toNat = a.toNat + b.toNat := by
  rw [UInt64.toNat_add,Nat.mod_eq_of_lt small]

lemma toNat_ofNat_small (small : n < 2 ^ 64) : (UInt64.ofNat n).toNat = n := by
  rw [toNat_ofNat',Nat.mod_eq_of_lt small]

lemma leNat_slice_lt (bytes : Bytes) (off : Nat) : leNat (slice bytes off 4) < 2 ^ 32 := by
  have bound := leNat_lt (slice bytes off 4)
  have short : (slice bytes off 4).length ≤ 4 := by
    rw [slice_length]
    exact Nat.min_le_left _ _
  have power : (256 : Nat) ^ (slice bytes off 4).length ≤ 256 ^ 4 := Nat.pow_le_pow_right (by decide) short
  exact bound.trans_le power

lemma slice_slice {bytes : Bytes} {base len off n : Nat} (inside : off + n ≤ len) :
    slice (slice bytes base len) off n = slice bytes (base + off) n := by
  grind [slice,slice_take,slice_drop]

section
variable {body : Bytes} {base len : UInt64} (inside : base.toNat + len.toNat ≤ body.length) (small : body.length < 2 ^ 32)
include inside small

lemma readString_eq {c : Nat} (at_ : c ≤ len.toNat) : readString body base len (UInt64.ofNat c) =
      some ((Wal.readString (slice body base.toNat len.toNat) c).map fun r => (r.1,UInt64.ofNat r.2)) := by
  have cursor : (UInt64.ofNat c).toNat = c := toNat_ofNat_small (by omega)
  have length : (slice body base.toNat len.toNat).length = len.toNat := by
    rw [slice_length]
    omega
  have four : (4 : UInt64).toNat = 4 := rfl
  have next : (UInt64.ofNat c + 4).toNat = c + 4 := by rw [toNat_add_small (by omega),cursor,four]
  rw [readString,Wal.readString,length]
  by_cases short : c + 4 > len.toNat
  · rw [if_pos (by rw [gt_iff_lt,lt_iff_toNat_lt,next]; exact short),if_pos short]
    rfl
  rw [if_neg (by rw [gt_iff_lt,lt_iff_toNat_lt,next]; exact short),if_neg short]
  have offset : (base + UInt64.ofNat c).toNat = base.toNat + c := by rw [toNat_add_small (by omega),cursor]
  have field : readAt body (base + UInt64.ofNat c) 4 = some (slice (slice body base.toNat len.toNat) c 4) := by
    rw [readAt_eq (by omega),offset,four,slice_slice (by omega)]
  rw [field,bind_some]
  have bound := leNat_slice_lt (slice body base.toNat len.toNat) c
  generalize leNat (slice (slice body base.toNat len.toNat) c 4) = n at bound ⊢
  have size : (UInt32.ofNat n).toUInt64.toNat = n := by
    rw [UInt32.toNat_toUInt64,UInt32.toNat_ofNat',Nat.mod_eq_of_lt bound]
  have ends : (UInt64.ofNat c + 4 + (UInt32.ofNat n).toUInt64).toNat = c + 4 + n := by
    rw [toNat_add_small (by omega),next,size]
  simp only
  by_cases long : c + 4 + n > len.toNat
  · rw [if_pos (by rw [gt_iff_lt,lt_iff_toNat_lt,ends]; exact long),if_pos long]
    rfl
  rw [if_neg (by rw [gt_iff_lt,lt_iff_toNat_lt,ends]; exact long),if_neg long]
  have offset' : (base + (UInt64.ofNat c + 4)).toNat = base.toNat + (c + 4) := by rw [toNat_add_small (by omega),next]
  have text : readAt body (base + (UInt64.ofNat c + 4)) (UInt32.ofNat n).toUInt64 =
      some (slice (slice body base.toNat len.toNat) (c + 4) n) := by
    rw [readAt_eq (by omega),offset',size,slice_slice (by omega)]
  simp_all

omit inside small in
lemma readString_cursor (found : Wal.readString (slice body base.toNat len.toNat) c = some r) : r.2 ≤ len.toNat := by
  grind [slice,slice_length,Wal.readString]

lemma andThen_readString {α : Type} {next : Bytes → UInt64 → Option (Option α)} {spec : Bytes × Nat → Option α} {c : Nat}
    (at_ : c ≤ len.toNat) (agrees : ∀ s c, c ≤ len.toNat → next s (UInt64.ofNat c) = some (spec (s,c))) :
    andThen (readString body base len (UInt64.ofNat c)) next =
      some ((Wal.readString (slice body base.toNat len.toNat) c).bind spec) := by
  rw [readString_eq inside small at_]
  cases found : Wal.readString (slice body base.toNat len.toNat) c with
  | none => rfl
  | some r => exact agrees r.1 r.2 (readString_cursor found)

lemma readStrings_eq (long : 40 ≤ len.toNat) (md : Metadata) :
    readStrings body base len md = some (Wal.readStrings (slice body base.toNat len.toNat) md) := by
  refine andThen_readString inside small (c := 40) long fun tenant c at_ => ?_
  grind [andThen_readString,map_eq_bind]

lemma readMetadata_eq : readMetadata body base len = some (Wal.decodeMetadata (slice body base.toNat len.toNat)) := by
  have length : (slice body base.toNat len.toNat).length = len.toNat := by
    rw [slice_length]
    omega
  have forty : (8 + 8 + 8 + 8 + 8 : UInt64).toNat = 40 := rfl
  rw [readMetadata,Wal.decodeMetadata,length]
  by_cases long : 40 ≤ len.toNat
  · have field (k : UInt64) (bound : k.toNat + 8 ≤ 40) :
        readAt body (base + k) 8 = some (slice (slice body base.toNat len.toNat) k.toNat 8) := by
      grind [toNat_add_small,readAt_eq,slice_slice]
    have first := field 0 (by decide)
    rw [UInt64.add_zero] at first
    rw [if_pos (by rw [ge_iff_le,le_iff_toNat_le,forty]; exact long),if_pos long]
    rw [first,field 8 (by decide),field 16 (by decide),field 24 (by decide),field 32 (by decide)]
    simp only [bind_some,readStrings_eq inside small long,map_some]
    rfl
  · rw [if_neg (by rw [ge_iff_le,le_iff_toNat_le,forty]; exact long),if_neg long]
    have tenant := readString_eq inside small (Nat.zero_le len.toNat)
    grind

end

lemma readWords_take (n : Nat) (bytes : Bytes) : readWords n (bytes.take (4 * n)) = readWords n bytes := by
  induction n generalizing bytes with
  | zero => rfl
  | succ n ih =>
    grind [readWords,Nat.min_eq_left,drop_take,Nat.add_sub_cancel_left]

section
variable {body : Bytes} {len : UInt32} (size : body.length = len.toNat) (long : 25 ≤ len.toNat)
include long

lemma payload_len : (len.toUInt64 - 4).toNat = len.toNat - 4 := by
  grind [UInt32.toNat_toUInt64,UInt64.toNat_sub_of_le,UInt64.le_iff_toNat_le]

include size

lemma frame_reads : readAt body (len.toUInt64 - 4) 4 = some (slice body (len.toNat - 4) 4) ∧
      readAt body 0 (len.toUInt64 - 4) = some (body.take (len.toNat - 4)) ∧ readAt body 0 21 = some (slice body 0 21) := by
  have payload := payload_len long
  have four : (4 : UInt64).toNat = 4 := rfl
  have zero : (0 : UInt64).toNat = 0 := rfl
  refine ⟨?_,?_,readAt_eq (by simp; omega)⟩
  · rw [readAt_eq (by rw [payload,four]; omega),payload,four]
  · rw [readAt_eq (by rw [payload,zero]; omega),payload]
    rfl

lemma applyRecord_eq (mem : MemTable) :
    applyRecord body len (slice body 0 21) mem = some (Wal.applyPayload (body.take (len.toNat - 4)) mem) := by
  have small : body.length < 2 ^ 32 := by
    rw [size]
    exact len.toNat_lt
  -- the fields of the prefix
  have field (off n : Nat) (inside : off + n ≤ 21) : slice (slice body 0 21) off n = slice (body.take (len.toNat - 4)) off n := by
    rw [slice_slice inside,slice_take (by omega),Nat.zero_add]
  rw [applyRecord,Wal.applyPayload,Wal.applyOp,field 0 8 (by decide),field 8 1 (by decide),field 9 8 (by decide),
    field 17 4 (by decide)]
  have bound := leNat_slice_lt (body.take (len.toNat - 4)) 17
  generalize leNat (slice (body.take (len.toNat - 4)) 17 4) = dim at bound ⊢
  generalize UInt64.ofNat (leNat (slice (body.take (len.toNat - 4)) 0 8)) = seq
  generalize UInt64.ofNat (leNat (slice (body.take (len.toNat - 4)) 9 8)) = id
  generalize UInt8.ofNat (leNat (slice (body.take (len.toNat - 4)) 8 1)) = op
  have rest : ((body.take (len.toNat - 4)).drop 21).length = len.toNat - 25 := by
    rw [length_drop,length_take]
    omega
  have dim' : (UInt32.ofNat dim).toNat = dim := by rw [UInt32.toNat_ofNat',Nat.mod_eq_of_lt bound]
  have whole : len.toUInt64.toNat = len.toNat := UInt32.toNat_toUInt64 len
  have four : (4 : UInt64).toNat = 4 := rfl
  have prefix_ : (21 : UInt64).toNat = 21 := rfl
  have vec : ((UInt32.ofNat dim).toUInt64 * 4).toNat = dim * 4 := by
    rw [UInt64.toNat_mul,UInt32.toNat_toUInt64,dim',four,Nat.mod_eq_of_lt (by omega)]
  have ends : (21 + (UInt32.ofNat dim).toUInt64 * 4).toNat = 21 + dim * 4 := by
    rw [toNat_add_small (by rw [prefix_,vec]; omega),prefix_,vec]
  have closes : (21 + (UInt32.ofNat dim).toUInt64 * 4 + 4).toNat = 21 + dim * 4 + 4 := by
    rw [toNat_add_small (by rw [ends,four]; omega),ends,four]
  have payload := payload_len long
  -- the components, which both sides read if they are there
  have components (fits : 21 + dim * 4 ≤ len.toNat - 4) :
      readAt body 21 ((UInt32.ofNat dim).toUInt64 * 4) = some (slice body 21 (dim * 4)) ∧
        readWords dim (slice body 21 (dim * 4)) = readWords dim ((body.take (len.toNat - 4)).drop 21) := by
    refine ⟨by rw [readAt_eq (by rw [prefix_,vec]; omega),prefix_,vec],?_⟩
    rw [← readWords_take dim ((body.take (len.toNat - 4)).drop 21),Nat.mul_comm 4 dim]
    congr 1
    rw [slice,drop_take,take_take,Nat.min_eq_left (by omega)]
  -- the checks compare the same numbers
  have put : 21 + (UInt32.ofNat dim).toUInt64 * 4 + 4 ≠ len.toUInt64 ↔ 21 + dim * 4 ≠ 21 + (len.toNat - 25) := by
    rw [ne_eq,← UInt64.toNat_inj,closes,whole]
    omega
  have putMeta : len.toUInt64 < 21 + (UInt32.ofNat dim).toUInt64 * 4 + 4 + 4 ↔ 21 + (len.toNat - 25) < 21 + dim * 4 + 4 := by
    rw [lt_iff_toNat_lt,toNat_add_small (by rw [closes,four]; omega),closes,four,whole]
    omega
  have del : len.toUInt64 ≠ 21 + 4 ↔ 21 + (len.toNat - 25) ≠ 21 := by
    rw [ne_eq,← UInt64.toNat_inj,whole,show (21 + 4 : UInt64).toNat = 25 from rfl]
    omega
  simp only [rest,dim',put,putMeta,del]
  split_ifs with isPut wrong isMeta short
  · rfl
  · obtain ⟨read,words⟩ := components (by omega)
    rw [read,map_some,words]
  · rfl
  · obtain ⟨read,words⟩ := components (by omega)
    have left : (len.toUInt64 - 4 - (21 + (UInt32.ofNat dim).toUInt64 * 4)).toNat = len.toNat - 4 - (21 + dim * 4) := by
      rw [UInt64.toNat_sub_of_le _ _ (by rw [UInt64.le_iff_toNat_le,ends,payload]; omega),payload,ends]
    have decoded := @readMetadata_eq body (21 + (UInt32.ofNat dim).toUInt64 * 4)
      (len.toUInt64 - 4 - (21 + (UInt32.ofNat dim).toUInt64 * 4)) (by rw [ends,left]; omega) small
    rw [ends,left,slice,← drop_take,← drop_drop] at decoded
    rw [read,bind_some,decoded,map_some,words]
  all_goals rfl

end

def logBody (body : Bytes) (state : MemTable × UInt64) : Except Status (MemTable × UInt64) :=
  (Wal.openBody none body).bind fun payload =>
  (Wal.applyPayload payload state.1).map fun mem => (mem,Wal.laterSeq state.2 payload)

/-- The checks that both replays make before they look at the record. -/
lemma checked_eq {α : Type} {body : Bytes} {len : UInt32} (size : body.length = len.toNat) (small bad empty : α) (next : Bytes → Option α) :
    (if len.toUInt64 < 21 + 4 then some small else
      (readAt body (len.toUInt64 - 4) 4).bind fun stored_crc =>
      (readAt body 0 (len.toUInt64 - 4)).bind fun covered =>
        if leNat stored_crc ≠ (crc32c covered 0).toNat then some bad
        else if len.toUInt64 - 4 < 21 then some empty else (readAt body 0 21).bind next) =
      if len.toNat < 21 + 4 then some small
      else if leNat (slice body (len.toNat - 4) 4) ≠ (crc32c (body.take (len.toNat - 4)) 0).toNat then some bad
      else next (slice body 0 21) := by
  have whole : len.toUInt64 < 21 + 4 ↔ len.toNat < 21 + 4 := by
    rw [lt_iff_toNat_lt,UInt32.toNat_toUInt64]
    rfl
  refine ite_congr (propext whole) (fun _ => rfl) fun short => ?_
  have long : 25 ≤ len.toNat := by omega
  obtain ⟨stored,covered,front⟩ := frame_reads size long
  have prefixed : ¬len.toUInt64 - 4 < 21 := by
    rw [lt_iff_toNat_lt,payload_len long,show (21 : UInt64).toNat = 21 from rfl]
    omega
  rw [stored,covered,bind_some,bind_some,if_neg prefixed,front,bind_some]

lemma laterSeq_slice {body : Bytes} {n : Nat} (long : 21 ≤ n) (seq : UInt64) :
    Wal.laterSeq seq (slice body 0 21) = Wal.laterSeq seq (body.take n) := by
  rw [Wal.laterSeq,Wal.laterSeq,slice_slice (by decide),slice_take (by omega)]

lemma replayBody_eq {body : Bytes} {len : UInt32} (size : body.length = len.toNat) (state : MemTable × UInt64) :
    replayBody body len state = some (logBody body state) := by
  rw [replayBody,checked_eq size,logBody,Wal.openBody,size]
  split_ifs with short mismatch
  · rfl
  · rfl
  have length : ¬(body.take (len.toNat - 4)).length < 21 := by
    rw [length_take]
    omega
  rw [Wal.decryptBody,applyRecord_eq size (by omega),@laterSeq_slice body (len.toNat - 4) (by omega)]
  simp only [Except.bind,if_neg length,map_some]

open GraphKey GraphMembraneImpl

/-- The reads of `ReplayEntry` in a key. -/
def readEntry (key : Bytes) : Option (Option GraphEntry) :=
  let size := UInt64.ofNat key.length
  if size < 1 then some none
  else
    (readAt key 0 1).bind fun first =>
      if first = [kVertex] ∧ size ≥ 13 then
        (readAt key 1 8).map fun id =>
          -- the tag is not read; the entry of the model carries it
          some (.vertex (UInt64.ofNat (beNat id)) (UInt32.ofNat (beNat (slice key 9 4))))
      else if first = [kEdge] ∧ size ≥ 25 then
        (readAt key 1 8).bind fun src =>
        (readAt key 9 4).bind fun type =>
        (readAt key 13 4).bind fun rank =>
        (readAt key 17 8).map fun dst =>
          some (.edge (UInt64.ofNat (beNat src)) (UInt32.ofNat (beNat type)) (UInt32.ofNat (beNat rank)) (UInt64.ofNat (beNat dst)))
      else if first = [kVertexGone] ∧ size ≥ 9 then
        (readAt key 1 8).map fun id => some (.vertexGone (UInt64.ofNat (beNat id)))
      else if first = [kEdgeGone] ∧ size ≥ 25 then
        (readAt key 1 8).bind fun src =>
        (readAt key 9 4).bind fun type =>
        (readAt key 17 8).map fun dst =>
          some (.edgeGone (UInt64.ofNat (beNat src)) (UInt32.ofNat (beNat type)) (UInt64.ofNat (beNat dst)))
      else some none

/-- The key of a raw record, if the record is one and is long enough. -/
def readKey (body : Bytes) (payload_len : UInt64) (op : UInt8) : Option (Option Bytes) :=
  let min_size : UInt64 := 21 + 4 + 4
  if op = Op.kRawKV then
    if payload_len ≥ min_size then
      (readAt body 21 4).bind fun klen =>
      (readAt body (21 + 4) 4).bind fun _ =>
        let klen := (UInt32.ofNat (leNat klen)).toUInt64
        if payload_len ≥ min_size + klen then (readAt body min_size klen).map some else some none
    else some none
  else some none

/-- What an iteration of `ReplayGraphInto` does with a body of `len` bytes. -/
def replayGraphBody (body : Bytes) (len : UInt32) (state : AdjLists × UInt64) : Option (Except Status (AdjLists × UInt64)) :=
  if len.toUInt64 < 21 + 4 then some (.ok state)
  else
    (readAt body (len.toUInt64 - 4) 4).bind fun stored_crc =>
    (readAt body 0 (len.toUInt64 - 4)).bind fun covered =>
      if leNat stored_crc ≠ (crc32c covered 0).toNat then some (.error (.corruption "wal crc mismatch"))
      else if len.toUInt64 - 4 < 21 then some (.ok state)
      else
        (readAt body 0 21).bind fun rp =>
        (readKey body (len.toUInt64 - 4) (UInt8.ofNat (leNat (slice rp 8 1)))).bind fun
          | none => some (.ok (state.1,Wal.laterSeq state.2 rp))
          | some key => (readEntry key).map fun entry =>
              .ok (entry.elim state.1 state.1.apply,Wal.laterSeq state.2 rp)

lemma readEntry_eq {key : Bytes} (small : key.length < 2 ^ 32) : readEntry key = some (GraphEntry.ofKey key) := by
  have size : (UInt64.ofNat key.length).toNat = key.length := toNat_ofNat_small (by omega)
  have at_least (n : UInt64) : UInt64.ofNat key.length ≥ n ↔ key.length ≥ n.toNat := by
    rw [ge_iff_le,le_iff_toNat_le,size]
  have read (off n : UInt64) (inside : off.toNat + n.toNat ≤ key.length) :
      readAt key off n = some (slice key off.toNat n.toNat) := readAt_eq inside
  cases key with
  | nil => rfl
  | cons first rest =>
    have some_ : ¬ UInt64.ofNat (first :: rest).length < 1 := by
      rw [lt_iff_toNat_lt,size]
      simp
    have head : readAt (first :: rest) 0 1 = some [first] := readAt_eq (by simp)
    have thirteen : (13 : UInt64).toNat = 13 := rfl
    have twenty : (25 : UInt64).toNat = 25 := rfl
    have nine : (9 : UInt64).toNat = 9 := rfl
    simp only [readEntry,if_neg some_,head,bind_some,GraphEntry.ofKey,List.head?_cons,List.cons.injEq,and_true,
      at_least,thirteen,twenty,nine]
    grind

section
variable {body : Bytes} {len : UInt32} (size : body.length = len.toNat) (long : 25 ≤ len.toNat)
include size long

lemma readKey_eq : readKey body (len.toUInt64 - 4) (UInt8.ofNat (leNat (slice (slice body 0 21) 8 1))) =
      some (rawKey (body.take (len.toNat - 4))) := by
  have payload := payload_len long
  have length : (body.take (len.toNat - 4)).length = len.toNat - 4 := by
    rw [length_take]
    omega
  have op : slice (slice body 0 21) 8 1 = slice (body.take (len.toNat - 4)) 8 1 := by
    rw [slice_slice (by decide),slice_take (by omega),Nat.zero_add]
  have least : (21 + 4 + 4 : UInt64).toNat = 29 := rfl
  rw [readKey,rawKey,op,length]
  simp only
  by_cases raw : UInt8.ofNat (leNat (slice (body.take (len.toNat - 4)) 8 1)) = Op.kRawKV
  swap
  · rw [if_neg raw,if_neg fun both => raw both.1]
  rw [if_pos raw]
  by_cases enough : len.toNat - 4 ≥ 29
  swap
  · rw [if_neg (by rw [ge_iff_le,le_iff_toNat_le,least,payload]; exact enough),if_neg fun both => enough both.2.1]
  rw [if_pos (by rw [ge_iff_le,le_iff_toNat_le,least,payload]; exact enough)]
  have klen : readAt body 21 4 = some (slice (body.take (len.toNat - 4)) 21 4) := by
    rw [readAt_eq (by simp; omega),slice_take (by omega)]
    rfl
  have vlen : readAt body (21 + 4) 4 = some (slice body 25 4) := readAt_eq (by simp; omega)
  rw [klen,vlen,bind_some,bind_some]
  have bound := leNat_slice_lt (body.take (len.toNat - 4)) 21
  generalize leNat (slice (body.take (len.toNat - 4)) 21 4) = n at bound ⊢
  have short : (UInt32.ofNat n).toUInt64.toNat = n := by
    rw [UInt32.toNat_toUInt64,UInt32.toNat_ofNat',Nat.mod_eq_of_lt bound]
  have ends : (21 + 4 + 4 + (UInt32.ofNat n).toUInt64).toNat = 29 + n := by
    rw [toNat_add_small (by rw [least,short]; omega),least,short]
  by_cases holds : len.toNat - 4 ≥ 29 + n
  · have key : readAt body (21 + 4 + 4) (UInt32.ofNat n).toUInt64 = some (slice (body.take (len.toNat - 4)) (21 + 4 + 4) n) := by
      rw [readAt_eq (by rw [least,short]; omega),least,short,slice_take (by omega)]
    rw [if_pos (by rw [ge_iff_le,le_iff_toNat_le,ends,payload]; exact holds),if_pos ⟨raw,enough,holds⟩,key]
    rfl
  · rw [if_neg (by rw [ge_iff_le,le_iff_toNat_le,ends,payload]; exact holds),if_neg fun both => holds both.2.2]

end

def graphBody (body : Bytes) (state : AdjLists × UInt64) : Except Status (AdjLists × UInt64) :=
  let result := GraphMembraneImpl.replayBody none state body
  if result.2.ok then .ok result.1 else .error result.2

lemma replayGraphBody_eq {body : Bytes} {len : UInt32} (size : body.length = len.toNat) (state : AdjLists × UInt64) :
    replayGraphBody body len state = some (graphBody body state) := by
  rw [replayGraphBody,checked_eq size,graphBody,GraphMembraneImpl.replayBody,size]
  by_cases short : len.toNat < 21 + 4
  · rw [if_pos short,if_pos short]
    rfl
  by_cases mismatch : leNat (slice body (len.toNat - 4) 4) ≠ (crc32c (body.take (len.toNat - 4)) 0).toNat
  · rw [if_neg short,if_neg short,if_pos mismatch,if_pos mismatch]
    rfl
  rw [if_neg short,if_neg short,if_neg mismatch,if_neg mismatch]
  have length : ¬(body.take (len.toNat - 4)).length < 21 := by
    rw [length_take]
    omega
  rw [readKey_eq size (by omega),bind_some,@laterSeq_slice body (len.toNat - 4) (by omega)]
  simp only [isSome_none,Bool.false_eq_true,false_and,if_false,Wal.decryptBody,if_neg length]
  cases key : rawKey (body.take (len.toNat - 4)) with
  | none => rfl
  | some key_ =>
    have inside : key_.length < 2 ^ 32 := by
      grind [rawKey,slice_length,lt_of_le_of_lt,Nat.min_le_left,leNat_slice_lt]
    simp only [readEntry_eq inside,map_some,elim_some,replayEntry]
    cases GraphEntry.ofKey key_ <;> rfl

lemma framesOffset_le (offset : Wal.framesOffset file = .ok off) : off ≤ file.length := by
  grind [Wal.framesOffset]

/-- Where a replay is: at the check of the loop over the files, at that of the loop over the
frames of a file, back from the call, or at a read that leaves the body. -/
inductive Replay (σ : Type)
  | files (rest : WalDir) (state : σ)
  | frames (file : Bytes) (rest : WalDir) (off : UInt64) (state : σ)
  | returned (result : Except Status σ)
  | outside

section
variable {σ : Type} (handle : Bytes → UInt32 → σ → Option (Except Status σ))

def frameStep (file : Bytes) (rest : WalDir) (off : UInt64) (state : σ) : Replay σ :=
  let file_size := UInt64.ofNat file.length
  if off + 4 ≤ file_size then
    let fh := slice file off.toNat 4
    if fh.length ≠ 4 then .files rest state
    else
      let len := UInt32.ofNat (leNat fh)
      let body_off := off + 4
      let body_end := body_off + len.toUInt64
      if body_end > file_size then .files rest state
      else
        let body := slice file body_off.toNat len.toNat
        if body.length ≠ len.toNat then .files rest state
        else
          match handle body len state with
          | none => .outside
          | some (.error st) => .returned (.error st)
          | some (.ok state) => .frames file rest body_end state
  else .files rest state

def step : Replay σ → Replay σ
  | .files (some file :: rest) state =>
    match Wal.framesOffset file with
    | .error st => .returned (.error st)
    | .ok off => .frames file rest (UInt64.ofNat off) state
  | .files _ state => .returned (.ok state)
  | .frames file rest off state => frameStep handle file rest off state
  | .returned result => .returned result
  | .outside => .outside

/-- A bound for the iterations of both loops: a frame takes four bytes or more. -/
def loopBound (dir : WalDir) : Nat := (dir.map fun file => file.elim 0 fun bytes => bytes.length / 4 + 2).sum + 1

variable (apply : Bytes → σ → Except Status σ)

def applyBodies : List Bytes → σ → Except Status σ
  | [],state => .ok state
  | body :: rest,state => (apply body state).bind (applyBodies rest)

def applyFiles : WalDir → σ → Except Status σ
  | some file :: rest,state =>
    ((Wal.framesOffset file).bind fun off => applyBodies apply (Wal.bodies file.length (file.drop off)) state).bind (applyFiles rest)
  | _,state => .ok state

def afterFrames (rest : WalDir) : Except Status σ → Replay σ
  | .ok state => .files rest state
  | .error st => .returned (.error st)

variable {handle apply}

lemma iterate_returned (n : Nat) (result : Except Status σ) : (step handle)^[n] (.returned result) = .returned result := by
  induction n with
  | zero => rfl
  | succ n ih => rw [iterate_succ_apply]; exact ih

lemma iterate_outside (n : Nat) : (step handle)^[n] .outside = .outside := by
  induction n with
  | zero => rfl
  | succ n ih => rw [iterate_succ_apply]; exact ih

section
variable (safe : ∀ body len state, body.length = len.toNat → handle body len state = some (apply body state))
include safe

lemma frameStep_cases {file : Bytes} {off : UInt64} (sized : file.length < 2 ^ 63) (at_ : off.toNat ≤ file.length)
    (rest : WalDir) (state : σ) :
    (Wal.nextBody (file.drop off.toNat) = none ∧ frameStep handle file rest off state = .files rest state) ∨
      ∃ (body : Bytes) (next : UInt64), Wal.nextBody (file.drop off.toNat) = some body ∧
        next.toNat = off.toNat + (4 + body.length) ∧ next.toNat ≤ file.length ∧
        frameStep handle file rest off state = match apply body state with
          | .error st => .returned (.error st)
          | .ok state => .frames file rest next state := by
  have file_size : (UInt64.ofNat file.length).toNat = file.length := toNat_ofNat_small (by omega)
  have four : (4 : UInt64).toNat = 4 := rfl
  have body_off : (off + 4).toNat = off.toNat + 4 := by rw [toNat_add_small (by omega),four]
  have left : (file.drop off.toNat).length = file.length - off.toNat := length_drop
  have checked : off + 4 ≤ UInt64.ofNat file.length ↔ off.toNat + 4 ≤ file.length := by
    rw [le_iff_toNat_le,body_off,file_size]
  simp only [Wal.nextBody,frameStep,left,checked]
  by_cases tail : file.length - off.toNat < 4
  · exact .inl ⟨if_pos tail,if_neg (by omega)⟩
  have room : off.toNat + 4 ≤ file.length := by omega
  rw [if_neg tail,if_pos room]
  have header : (slice file off.toNat 4).length = 4 := by
    rw [slice_length]
    omega
  have field : slice (file.drop off.toNat) 0 4 = slice file off.toNat 4 := by rw [slice_drop,Nat.add_zero]
  rw [field,if_neg (not_not.mpr header)]
  have bound := leNat_slice_lt file off.toNat
  generalize leNat (slice file off.toNat 4) = n at bound ⊢
  have len : (UInt32.ofNat n).toNat = n := by rw [UInt32.toNat_ofNat',Nat.mod_eq_of_lt bound]
  have body_end : (off + 4 + (UInt32.ofNat n).toUInt64).toNat = off.toNat + (4 + n) := by
    grind [toNat_add_small,UInt32.toNat_toUInt64]
  have torn_iff : off + 4 + (UInt32.ofNat n).toUInt64 > UInt64.ofNat file.length ↔ 4 + n > file.length - off.toNat := by
    rw [gt_iff_lt,lt_iff_toNat_lt,body_end,file_size]
    omega
  by_cases torn : 4 + n > file.length - off.toNat
  · exact .inl ⟨if_pos torn,if_pos (torn_iff.mpr torn)⟩
  rw [if_neg torn,if_neg (mt torn_iff.mp torn)]
  have size : (slice file (off.toNat + 4) n).length = n := by
    rw [slice_length]
    omega
  have content : slice (file.drop off.toNat) 4 n = slice file (off.toNat + 4) n := slice_drop _ _ _ _
  grind

lemma run_frames (sized : file.length < 2 ^ 63) (rest : WalDir) (fuel : Nat) (off : UInt64)
    (at_ : off.toNat ≤ file.length) (enough : file.length - off.toNat ≤ fuel) (state : σ) :
    ∃ n ≤ (file.length - off.toNat) / 4 + 1, (step handle)^[n] (.frames file rest off state) =
      afterFrames rest (applyBodies apply (Wal.bodies fuel (file.drop off.toNat)) state) := by
  -- by the fuel of the model, which every frame uses up faster than the bytes
  induction fuel generalizing off state with
  | zero =>
    refine ⟨1,by omega,?_⟩
    have none_ : file.drop off.toNat = [] := drop_of_length_le (by omega)
    rcases frameStep_cases safe sized at_ rest state with ⟨_,ended⟩ | ⟨body,_,found,_⟩
    · exact ended
    · rw [none_] at found
      cases found
  | succ fuel ih =>
    rcases frameStep_cases safe sized at_ rest state with ⟨none_,ended⟩ | ⟨body,next,found,moved,inside,stepped⟩
    · refine ⟨1,by omega,?_⟩
      rw [Wal.bodies,none_]
      exact ended
    · rw [Wal.bodies,found]
      simp only [applyBodies]
      cases applied : apply body state with
      | error st =>
        rw [applied] at stepped
        exact ⟨1,by omega,stepped⟩
      | ok after =>
        rw [applied] at stepped
        obtain ⟨n,bound,run⟩ := ih next inside (by omega) after
        have behind : (file.drop off.toNat).drop (4 + body.length) = file.drop next.toNat := by rw [drop_drop,moved]
        refine ⟨n + 1,by omega,?_⟩
        rw [iterate_succ_apply,behind]
        have first : step handle (.frames file rest off state) = .frames file rest next after := stepped
        rw [first,run]
        rfl

lemma run_files (sized : ∀ file, some file ∈ dir → file.length < 2 ^ 63) (state : σ) :
    ∃ n ≤ loopBound dir, (step handle)^[n] (.files dir state) = .returned (applyFiles apply dir state) := by
  induction dir generalizing state with
  | nil => exact ⟨1,Nat.le_refl _,rfl⟩
  | cons first rest ih =>
    cases first with
    | none => exact ⟨1,by rw [loopBound]; omega,rfl⟩
    | some file =>
      have fits := sized file (.head _)
      have bound : loopBound (some file :: rest) = file.length / 4 + 2 + loopBound rest := by
        simp only [loopBound,map_cons,sum_cons,elim_some]
        omega
      rw [bound,applyFiles]
      cases offset : Wal.framesOffset file with
      | error st =>
        refine ⟨1,by omega,?_⟩
        simp only [iterate_one,step,offset]
        rfl
      | ok off =>
        have within : off ≤ file.length := framesOffset_le offset
        have position : (UInt64.ofNat off).toNat = off := toNat_ofNat_small (by omega)
        obtain ⟨n,few,run⟩ := run_frames safe fits rest file.length (UInt64.ofNat off)
          (by rw [position]; exact within) (by omega) state
        rw [position] at few run
        have begun : step handle (.files (some file :: rest) state) = .frames file rest (UInt64.ofNat off) state := by
          simp only [step,offset]
        cases applied : applyBodies apply (Wal.bodies file.length (file.drop off)) state with
        | error st =>
          refine ⟨n + 1,by omega,?_⟩
          rw [iterate_succ_apply,begun,run,applied]
          simp only [Except.bind,applied]
          rfl
        | ok after =>
          obtain ⟨m,fewer,finish⟩ := ih (fun file member => sized file (.tail _ member)) after
          refine ⟨m + (n + 1),by omega,?_⟩
          rw [iterate_add_apply,iterate_succ_apply _ n,begun,run,applied]
          simp only [Except.bind,applied]
          exact finish

lemma never_outside (sized : ∀ file, some file ∈ dir → file.length < 2 ^ 63) (state : σ) (m : Nat) :
    (step handle)^[m] (.files dir state) ≠ .outside := by
  intro left
  obtain ⟨n,_,run⟩ := run_files safe sized state
  have late := congrArg (step handle)^[n] left
  rw [iterate_outside,← iterate_add_apply,Nat.add_comm,iterate_add_apply,run,iterate_returned] at late
  cases late

end
end

lemma replayFrames_eq (fuel : Nat) (rest : Bytes) (state : MemTable × UInt64) :
    Wal.replayFrames none fuel rest state = applyBodies logBody (Wal.bodies fuel rest) state := by
  induction fuel generalizing rest state with
  | zero => rfl
  | succ fuel ih =>
    rw [Wal.replayFrames,Wal.bodies]
    cases Wal.nextBody rest with
    | none => rfl
    | some body =>
      simp only [applyBodies,logBody]
      cases Wal.openBody none body with
      | error st => rfl
      | ok payload =>
        simp only [Except.bind]
        cases Wal.applyPayload payload state.1 with
        | error st => rfl
        | ok mem => exact ih _ _

lemma replayDir_eq (dir : WalDir) (state : MemTable × UInt64) : Wal.replayDir none dir state = applyFiles logBody dir state := by
  induction dir generalizing state with
  | nil => rfl
  | cons first rest ih =>
    cases first with
    | none => rfl
    | some file =>
      have later : Wal.replayDir none rest = applyFiles logBody rest := funext ih
      simp only [Wal.replayDir,Wal.replayFile,applyFiles,replayFrames_eq,later]

def returns {σ : Type} (result : σ × Status) : Except Status σ := if result.2.ok then .ok result.1 else .error result.2

lemma replayBodies_eq (found : List Bytes) (state : AdjLists × UInt64) :
    returns (GraphMembraneImpl.replayBodies none state found) = applyBodies graphBody found state := by
  induction found generalizing state with
  | nil => rfl
  | cons body rest ih =>
    simp only [GraphMembraneImpl.replayBodies,applyBodies,graphBody]
    by_cases ok : (GraphMembraneImpl.replayBody none state body).2.ok
    · rw [if_pos ok,if_pos ok]
      exact ih _
    · rw [if_neg ok,if_neg ok,returns,if_neg ok]
      rfl

lemma replayGraphDir_eq (dir : WalDir) (state : AdjLists × UInt64) :
    returns (GraphMembraneImpl.replayDir none state dir) = applyFiles graphBody dir state := by
  induction dir generalizing state with
  | nil => rfl
  | cons first rest ih =>
    cases first with
    | none => rfl
    | some file =>
      have inFile : returns (GraphMembraneImpl.replayFile none state file) =
          (Wal.framesOffset file).bind fun off => applyBodies graphBody (Wal.bodies file.length (file.drop off)) state := by
        rw [GraphMembraneImpl.replayFile]
        cases offset : Wal.framesOffset file with
        | error st =>
          have failed : st.ok = false := by
            unfold Wal.framesOffset at offset
            split at offset
            · split at offset
              · split at offset
                · cases offset
                  rfl
                · cases offset
              · cases offset
            · cases offset
          simp only [returns,failed]
          rfl
        | ok off => exact replayBodies_eq _ _
      rw [GraphMembraneImpl.replayDir,applyFiles,← inFile]
      by_cases ok : (GraphMembraneImpl.replayFile none state file).2.ok
      · simp only [ok,if_true,returns]
        exact ih _
      · rw [Bool.not_eq_true] at ok
        simp only [ok,returns,Bool.false_eq_true,if_false]
        rfl

/-- With encryption off, both replays return for all contents of the segment files, after a
number of iterations that the sizes of the files bound, and no read leaves the body of its
frame. -/
theorem replay_robust (w : Wal) (plain : w.cipher = none) (sized : ∀ file, some file ∈ w.dir → file.length < 2 ^ 63)
    (mem : MemTable) (adj : AdjLists) :
    ((∃ n ≤ loopBound w.dir, (step replayBody)^[n] (.files w.dir (mem,w.seq)) = .returned (w.replayInto mem)) ∧
      ∀ n, (step replayBody)^[n] (.files w.dir (mem,w.seq)) ≠ .outside) ∧
    (∃ n ≤ loopBound w.dir, (step replayGraphBody)^[n] (.files w.dir (adj,w.seq)) =
        .returned (returns (GraphMembraneImpl.replayDir w.cipher (adj,w.seq) w.dir))) ∧
      ∀ n, (step replayGraphBody)^[n] (.files w.dir (adj,w.seq)) ≠ .outside := by
  have vectors := fun body len state size => @replayBody_eq body len size state
  have graphs := fun body len state size => @replayGraphBody_eq body len size state
  rw [Wal.replayInto,plain,replayDir_eq,replayGraphDir_eq]
  exact ⟨⟨run_files vectors sized _,never_outside vectors sized _⟩,run_files graphs sized _,never_outside graphs sized _⟩

def garbage : Wal := ⟨[some [255,255,255,255,7],some (walFileHeader ++ [1,0,0,0,9])],1000,0,none,0,0,0⟩

theorem replay_robust_garbage : ∃ n ≤ loopBound garbage.dir,
    (step replayBody)^[n] (.files garbage.dir (MemTable.create .plain 1 false,garbage.seq)) =
      .returned (garbage.replayInto (MemTable.create .plain 1 false)) :=
  (replay_robust garbage rfl (by
    intro file member
    rcases mem_pair.mp member with same | same <;> cases same <;> decide) (MemTable.create .plain 1 false) ∅).1.1

end ReplayBounds
end PomaiCache
