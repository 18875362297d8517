import PomaiCache.WalReplay
import PomaiCache.Watermark

/-!
The sync streamer, which reads the files of the log on its own and hands every record
behind a sequence number to a receiver. It has a decoder of its own for the records,
which is compared here with the one of replay.
-/
namespace PomaiCache
open Codec Wal Watermark List UInt64

structure WalEntry where
  lsn : UInt64
  op : UInt8
  id : VectorId
  dim : UInt32
  vec : Vec
  raw_data : Bytes
  md : Metadata
  deriving DecidableEq, Repr

abbrev SyncReceiver := List WalEntry → WalEntry → Status

/-- What ends a push early: a status, or a read outside the buffer of a frame, after
which the code has no defined behaviour. -/
inductive SyncFault
  | status (st : Status)
  | outsideFrame
  deriving DecidableEq, Repr

structure Stream where
  received : List WalEntry
  current_lsn : UInt64
  deriving DecidableEq, Repr

namespace WalStreamer

def colon : Bytes := [0x3A]

def fillEntry (entry : WalEntry) (body : Bytes) : Option WalEntry :=
  let dim := entry.dim.toNat
  let vec_bytes := dim * 4
  if entry.op = 1 then
    (readAt body 21 vec_bytes).map fun vec => {entry with vec := readWords dim vec}
  else if entry.op = 3 then
    (readAt body 21 vec_bytes).bind fun vec =>
    (readAt body (21 + vec_bytes) 4).bind fun meta_len =>
    (readAt body (21 + vec_bytes + 4) (leNat meta_len)).map fun tenant =>
      {entry with vec := readWords dim vec, md := {tenant := tenant}}
  else if entry.op = 4 then
    (readAt body 21 4).bind fun klen =>
    (readAt body 25 4).bind fun vlen =>
    (readAt body 29 (leNat klen)).bind fun kdata =>
    (readAt body (29 + leNat klen) (leNat vlen)).map fun vdata =>
      {entry with raw_data := kdata ++ colon ++ vdata}
  else some entry

/-- The entry for a frame's body, where all reads are inside the body. -/
def entryOf (seq : UInt64) (body : Bytes) : Option WalEntry :=
  (readAt body 8 1).bind fun op =>
  (readAt body 9 8).bind fun id =>
  (readAt body 17 4).bind fun dim =>
    fillEntry ⟨seq,UInt8.ofNat (leNat op),UInt64.ofNat (leNat id),UInt32.ofNat (leNat dim),[],[],{}⟩ body

section
variable (receive : SyncReceiver)

/-- One frame: the checksum, the sequence number, and the entry if the number is new. -/
def pushFrame (s : Stream) (body : Bytes) : Stream × Option SyncFault :=
  match readAt body (body.length - 4) 4 with
  | none => (s,some .outsideFrame)
  | some stored_crc =>
    if leNat stored_crc ≠ (crc32c (body.take (body.length - 4)) 0).toNat then
      (s,some (.status (.corruption "WAL CRC mismatch during sync")))
    else
      match readAt body 0 8 with
      | none => (s,some .outsideFrame)
      | some seq =>
        let seq := UInt64.ofNat (leNat seq)
        if seq > s.current_lsn then
          match entryOf seq body with
          | none => (s,some .outsideFrame)
          | some entry =>
            let st := receive s.received entry
            if st.ok then (⟨s.received ++ [entry],seq⟩,none) else (s,some (.status st))
        else (s,none)

/-- The frame loop; every frame takes a byte at least, so the file's length is enough fuel. -/
def pushFrames : Nat → Bytes → Stream → Stream × Option SyncFault
  | 0,_,s => (s,none)
  | fuel + 1,rest,s =>
    match nextBody rest with
    | none => (s,none)
    | some body =>
      match pushFrame receive s body with
      | (s,none) => pushFrames fuel (rest.drop (4 + body.length)) s
      | (s,some fault) => (s,some fault)

/-- The streamer skips a header by its magic and does not look at the version. -/
def framesStart (file : Bytes) : Nat := if file.length ≥ 16 ∧ slice file 0 12 = kWalMagic then 16 else 0

/-- The loop over the generations, which ends at the first missing file. -/
def pushDir : WalDir → Stream → Stream × Option SyncFault
  | some file :: rest,s =>
    match pushFrames receive file.length (file.drop (framesStart file)) s with
    | (s,none) => pushDir rest s
    | (s,some fault) => (s,some fault)
  | _,s => (s,none)

/-- What a push hands to the receiver, and the new mark or the reason it stopped. -/
def pushSince (dir : WalDir) (last_lsn : UInt64) : List WalEntry × Except SyncFault UInt64 :=
  match pushDir receive dir ⟨[],last_lsn⟩ with
  | (s,none) => (s.received,.ok s.current_lsn)
  | (s,some fault) => (s.received,.error fault)

end

end WalStreamer

namespace Wal

lemma decodeDir_files {cipher : Option Cipher} {dim : UInt32} {recss : List (List Record)} {files : List Bytes}
    (closed : List.Forall₂ (Closed cipher dim) recss files) {rest : WalDir} (gap : rest.firstMissing = 0) :
    decodeDir cipher (files.map some ++ rest) = .ok (recss.flatten.map Record.decoded) := by
  induction closed with
  | nil => rcases WalDir.cases_of_gap gap with rfl | ⟨_,rfl⟩ <;> rfl
  | cons one more ih =>
    obtain ⟨bytes,tail,frames,torn,rfl⟩ := one
    have enough := frames.length_le
    grind [walFileHeader,drop_left',walFileHeader_length,decodeDir,framesOffset_header,Except.bind,decodeFrames_frames,length_append,flatten_cons]

def Record.streamed (r : Record) : Option WalEntry :=
  WalStreamer.entryOf r.seq (r.payload ++ le 4 (crc32c r.payload 0).toNat)

lemma entryOf_recordPrefix (seq : UInt64) (op : UInt8) (id : VectorId) (dim : UInt32) (rest : Bytes) (lsn : UInt64) :
    WalStreamer.entryOf lsn (recordPrefix seq op id dim ++ rest) =
      WalStreamer.fillEntry ⟨lsn,op,id,dim,[],[],{}⟩ (recordPrefix seq op id dim ++ rest) := by
  have one : readAt (op :: (le 8 id.toNat ++ (le 4 dim.toNat ++ rest))) 0 1 = some [op] := @readAt_front 1 [op] rfl _
  have behind : ∀ off n, readAt (op :: (le 8 id.toNat ++ (le 4 dim.toNat ++ rest))) (off + 1) n =
      readAt (le 8 id.toNat ++ (le 4 dim.toNat ++ rest)) off n := fun off n => @readAt_behind (off + 1) n [op] (by simp) _
  simp [WalStreamer.entryOf,recordPrefix,readAt_behind,readAt_front,one,behind,leNat]

lemma Record.streamed_put (seq : UInt64) (id : VectorId) (sized : vec.length = dim.toNat) :
    (Record.put seq id vec).streamed = some ⟨seq,Op.kPut,id,dim,vec,[],{}⟩ := by
  have same : UInt32.ofNat vec.length = dim := by rw [sized,UInt32.ofNat_toNat]
  have vector : readWords dim.toNat (words vec) = vec := by
    rw [← sized]
    simpa using readWords_words vec []
  have length : dim.toNat * 4 = (words vec).length := by
    rw [words_length]
    omega
  rw [streamed,payload,append_assoc,same,entryOf_recordPrefix,WalStreamer.fillEntry]
  dsimp only
  rw [if_pos (by rfl),readAt_behind (by simp),recordPrefix_length,readAt_front length.symm,Option.map_some,vector]
  rfl

lemma Record.streamed_del (seq : UInt64) (id : VectorId) : (Record.del seq id).streamed = some ⟨seq,Op.kDel,id,0,[],[],{}⟩ := by
  rw [streamed,payload,deletePlain,entryOf_recordPrefix]
  rfl

lemma Record.streamed_rawKV (seq : UInt64) (key value : Bytes) :
    (Record.rawKV seq Op.kRawKV key value).streamed = some ⟨seq,Op.kRawKV,0,0,[],
      key.take (UInt32.ofNat key.length).toNat ++ WalStreamer.colon ++ value.take (UInt32.ofNat value.length).toNat,{}⟩ := by
  have cut : ∀ s : Bytes, (UInt32.ofNat s.length).toNat = (s.take (UInt32.ofNat s.length).toNat).length := by
    grind [UInt32.ofNat,UInt32.toNat_ofNat',Nat.mod_le,length_take,Nat.min_eq_left]
  have other : ¬(Op.kRawKV = 1) ∧ ¬(Op.kRawKV = 3) ∧ Op.kRawKV = 4 := by decide
  simp only [streamed,payload,rawKVPlain,append_assoc]
  generalize le 4 (crc32c _ 0).toNat = after
  have kept := cut key
  have kept' := cut value
  generalize UInt32.ofNat key.length = klen at kept ⊢
  generalize UInt32.ofNat value.length = vlen at kept' ⊢
  rw [entryOf_recordPrefix,WalStreamer.fillEntry]
  dsimp only
  rw [if_neg other.1,if_neg other.2.1,if_pos other.2.2]
  have ends : 29 + klen.toNat = 21 + (4 + (4 + klen.toNat)) := by omega
  simp [readAt_behind,readAt_front,kept.symm,kept'.symm,ends,Record.seq]

lemma Record.streamed_marker (seq : UInt64) (marker : op = Op.kBatchStart ∨ op = Op.kBatchEnd)
    (key value : Bytes) : (Record.rawKV seq op key value).streamed = some ⟨seq,op,0,0,[],[],{}⟩ := by
  have other : ¬op = 1 ∧ ¬op = 3 ∧ ¬op = 4 := by rcases marker with rfl | rfl <;> decide
  simp only [streamed,payload,rawKVPlain,append_assoc]
  rw [entryOf_recordPrefix,WalStreamer.fillEntry,if_neg other.1,if_neg other.2.1,if_neg other.2.2]
  rfl

end Wal

/-- What a receiver is told of a record, apart from raw data. The sequence number stands in
the entry and not in its metadata. -/
def WalEntry.view (e : WalEntry) : UInt64 × UInt8 × VectorId × Vec × Metadata :=
  (e.lsn,e.op,e.id,e.vec,{e.md with lsn := 0})

def Decoded.view (d : Decoded) : UInt64 × UInt8 × VectorId × Vec × Metadata :=
  (d.seq,d.op,d.id,d.vec,{d.md with lsn := 0})

namespace Wal.Record

/-- The records that the appending calls write: a put with metadata has a tenant. -/
def Written : Record → Prop
  | putMeta _ _ _ md => md.tenant ≠ []
  | putLegacy _ _ _ _ => False
  | _ => True

def hasMetadata : Record → Bool
  | putMeta _ _ _ _ => true
  | _ => false

lemma streamed_plain {dim : UInt32} {r : Record} (fits : r.Fits dim) (written : r.Written) (plain : r.hasMetadata = false) :
    ∃ e, r.streamed = some e ∧ e.view = r.decoded.view := by
  cases r with
  | put seq id vec => exact ⟨_,streamed_put seq id fits,rfl⟩
  | putMeta seq id vec md => cases plain
  | putLegacy seq id vec tenant => exact written.elim
  | del seq id => exact ⟨_,streamed_del seq id,rfl⟩
  | rawKV seq op key value =>
    rcases fits with rfl | marker
    · exact ⟨_,streamed_rawKV seq key value,rfl⟩
    · exact ⟨_,streamed_marker seq marker key value,rfl⟩

/-- With metadata they never do: the streamer takes the low half of `src_vid` for the
length of the tenant, and leaves `src_vid` zero. -/
lemma streamed_metadata {dim : UInt32} {r : Record} (fits : r.Fits dim) (written : r.Written) (has : r.hasMetadata = true)
    {e : WalEntry} (streamed : r.streamed = some e) : e.view ≠ r.decoded.view := by
  cases r with
  | put | del | rawKV => cases has
  | putLegacy seq id vec tenant => exact written.elim
  | putMeta seq id vec md =>
    have same : UInt32.ofNat vec.length = dim := by rw [fits.1,UInt32.ofNat_toNat]
    have length : dim.toNat * 4 = (words vec).length := by
      rw [words_length,fits.1]
      omega
    have other : ¬(Op.kPutMeta = 1) ∧ Op.kPutMeta = 3 := by decide
    simp only [Record.streamed,payload,append_assoc,same] at streamed
    generalize le 4 (crc32c _ 0).toNat = after at streamed
    rw [entryOf_recordPrefix,WalStreamer.fillEntry] at streamed
    dsimp only at streamed
    rw [if_neg other.1,if_pos other.2] at streamed
    obtain ⟨floats,_,streamed⟩ := Option.bind_eq_some_iff.mp streamed
    obtain ⟨meta_len,size,streamed⟩ := Option.bind_eq_some_iff.mp streamed
    obtain ⟨tenant,text,rfl⟩ := Option.map_eq_some_iff.mp streamed
    intro agree
    simp only [WalEntry.view,Decoded.view,decoded,Prod.mk.injEq,Metadata.mk.injEq] at agree
    obtain ⟨_,_,_,_,tenants,_,_,src_vid,_⟩ := agree
    have zeros : le 8 md.src_vid.toNat = [0,0,0,0] ++ [0,0,0,0] := by rw [← src_vid]; rfl
    have split : metadataBlock md = le 8 md.src_vid.toNat ++ (metadataBlock md).drop 8 := by
      rw [metadataBlock_eq,fixedFields,append_assoc,drop_left' (le_length 8 _)]
    rw [split,zeros,append_assoc,append_assoc,readAt_behind (by simp),readAt_behind (by simp [← length]),length,
      recordPrefix_length,Nat.add_sub_cancel_left,Nat.sub_self,readAt_front (n := 4) rfl] at size
    cases size
    have none_ : tenant = [] := eq_nil_of_length_eq_zero (readAt_length text)
    exact written (tenants.symm.trans none_)

end Wal.Record

namespace WalStreamer
variable {receive : SyncReceiver} (accepts : ∀ received entry, (receive received entry).ok = true)

def number (r : Record) : Nat := r.seq.toNat

/-- A push over records instead of bytes, for a receiver that accepts everything. -/
def pushRecords (s : Stream) : List Record → Stream × Option SyncFault
  | [] => (s,none)
  | r :: rs =>
    if r.seq > s.current_lsn then
      match r.streamed with
      | none => (s,some .outsideFrame)
      | some entry => pushRecords ⟨s.received ++ [entry],r.seq⟩ rs
    else pushRecords s rs

lemma pushRecords_append (s : Stream) (rs more : List Record) : pushRecords s (rs ++ more) = match pushRecords s rs with
    | (s,none) => pushRecords s more
    | (s,some fault) => (s,some fault) := by
  induction rs generalizing s with
  | nil => rfl
  | cons r rs ih =>
    grind [pushRecords]

include accepts

lemma pushFrame_record (s : Stream) (r : Record) :
    pushFrame receive s (r.payload ++ le 4 (crc32c r.payload 0).toNat) = pushRecords s [r] := by
  have stored : readAt (r.payload ++ le 4 (crc32c r.payload 0).toNat) r.payload.length 4 = some (le 4 (crc32c r.payload 0).toNat) := by
    rw [readAt_behind (Nat.le_refl _),Nat.sub_self]
    simpa using readAt_front (le_length 4 _) []
  have number : readAt (r.payload ++ le 4 (crc32c r.payload 0).toNat) 0 8 = some (le 8 r.seq.toNat) := by
    obtain ⟨op,id,dim,rest,split⟩ := r.payload_eq
    rw [split,append_assoc,recordPrefix,append_assoc,append_assoc,append_assoc,readAt_front (le_length ..)]
  rw [pushFrame,length_append,le_length,Nat.add_sub_cancel,stored]
  dsimp only
  rw [take_left,leNat_u32,if_neg (by simp),number]
  simp [ofNat_leNat_u64,pushRecords,Record.streamed,accepts]

variable {rs : List Record} {dim : UInt32} {seq : UInt64}

lemma pushFrames_frames {bytes tail : Bytes} (frames : Frames none dim rs bytes)
    (torn : nextBody tail = none) {fuel : Nat} (enough : rs.length ≤ fuel) (s : Stream) :
    pushFrames receive fuel (bytes ++ tail) s = pushRecords s rs := by
  induction frames generalizing fuel s with
  | nil =>
    cases fuel with
    | zero => rfl
    | succ fuel => simp only [pushFrames,nil_append,torn,pushRecords]
  | cons fits carries more ih =>
    rename_i r body rs bytes
    cases fuel with
    | zero => simp at enough
    | succ fuel =>
      have plain : body = r.payload := Except.ok.inj carries.opens
      have split := pushRecords_append s [r] rs
      rw [singleton_append] at split
      rw [append_assoc,pushFrames,nextBody_frame _ carries.short]
      dsimp only
      rw [drop_frame,plain,pushFrame_record accepts,split]
      cases pushRecords s [r] with
      | mk next fault =>
        cases fault with
        | none => exact ih (by simpa using enough) next
        | some fault => rfl

lemma pushDir_files {recss : List (List Record)} {files : List Bytes}
    (closed : List.Forall₂ (Closed none dim) recss files) {rest : WalDir} (gap : rest.firstMissing = 0) (s : Stream) :
    pushDir receive (files.map some ++ rest) s = pushRecords s recss.flatten := by
  induction closed generalizing s with
  | nil => rcases WalDir.cases_of_gap gap with rfl | ⟨_,rfl⟩ <;> rfl
  | cons one more ih =>
    obtain ⟨bytes,tail,frames,torn,rfl⟩ := one
    have enough := frames.length_le
    have start : framesStart (walFileHeader ++ (bytes ++ tail)) = 16 := rfl
    rw [map_cons,cons_append,pushDir,start,drop_left' walFileHeader_length,
      pushFrames_frames accepts frames torn (by simp only [length_append]; omega),flatten_cons,pushRecords_append]
    simp [*]

omit accepts

lemma pushRecords_rising (s : Stream) (rs : List Record) :
    (∃ r ∈ rising number s.current_lsn.toNat rs, r.streamed = none) ∧ (pushRecords s rs).2 = some .outsideFrame ∨
      (∀ r ∈ rising number s.current_lsn.toNat rs, r.streamed.isSome) ∧ ∃ lsn : UInt64,
        pushRecords s rs = (⟨s.received ++ (rising number s.current_lsn.toNat rs).filterMap Record.streamed,lsn⟩,none) ∧
          lsn.toNat = final number s.current_lsn.toNat rs := by
  induction rs generalizing s with
  | nil => exact .inr ⟨by simp [rising],s.current_lsn,by simp [pushRecords,rising],rfl⟩
  | cons r rs ih =>
    rw [pushRecords,rising,final]
    by_cases new : s.current_lsn.toNat < number r
    · have later : r.seq > s.current_lsn := lt_iff_toNat_lt.mpr new
      rw [if_pos later,if_pos new,if_pos new]
      grind [mem_cons_of_mem,filterMap_cons_some,number]
    · have old : ¬r.seq > s.current_lsn := fun later => new (lt_iff_toNat_lt.mp later)
      rw [if_neg old,if_neg new,if_neg new]
      exact ih s

variable (last_lsn : UInt64)

def due (ds : List Decoded) : List Decoded := ds.filter fun d => d.seq > last_lsn

def Greatest (ds : List Decoded) (lsn : UInt64) : Prop :=
  ds = [] ∧ lsn = last_lsn ∨ ∃ d ∈ ds, d.seq = lsn ∧ ∀ other ∈ ds, other.seq ≤ lsn

/-- The push delivers what replay decodes behind `last_lsn`, in order, stays inside the
frames, and returns the greatest number it delivered. -/
def Agrees (receive : SyncReceiver) (w : Wal) (last_lsn : UInt64) : Prop :=
  ∃ ds lsn, w.decoded = .ok ds ∧ (pushSince receive w.dir last_lsn).2 = .ok lsn ∧
    (pushSince receive w.dir last_lsn).1.map WalEntry.view = (due last_lsn ds).map Decoded.view ∧
    Greatest last_lsn (due last_lsn ds) lsn

def behind (rs : List Record) : List Record := rs.filter fun r => r.seq > last_lsn

lemma behind_eq (rs : List Record) : behind last_lsn rs = above number last_lsn.toNat rs := by
  apply filter_congr
  intro r _
  exact decide_eq_decide.mpr lt_iff_toNat_lt

lemma due_decoded (rs : List Record) : due last_lsn (rs.map Record.decoded) = (behind last_lsn rs).map Record.decoded := by
  rw [due,behind,filter_map]
  congr 1
  apply filter_congr
  intro r _
  simp

lemma views_eq (all : ∀ r ∈ rs, r.streamed.isSome)
    (same : (rs.filterMap Record.streamed).map WalEntry.view = (rs.map Record.decoded).map Decoded.view) :
    ∀ r ∈ rs, r.streamed.map WalEntry.view = some r.decoded.view := by
  induction rs with
  | nil => simp
  | cons first rs ih =>
    grind

lemma views_of_each (each : ∀ r ∈ rs, ∃ e, r.streamed = some e ∧ e.view = r.decoded.view) :
    (rs.filterMap Record.streamed).map WalEntry.view = (rs.map Record.decoded).map Decoded.view := by
  induction rs with
  | nil => rfl
  | cons first rs ih =>
    obtain ⟨entry,here,view⟩ := each first (.head _)
    simp [filterMap_cons_some here,map_cons,view,ih fun r member => each r (.tail _ member)]

lemma filterMap_length (all : ∀ r ∈ rs, r.streamed.isSome) : (rs.filterMap Record.streamed).length = rs.length := by
  rw [length_filterMap_eq_countP,countP_eq_length]
  exact all

lemma greatest_final {last_lsn lsn : UInt64} (mark : lsn.toNat = final number last_lsn.toNat rs)
    (whole : rising number last_lsn.toNat rs = behind last_lsn rs) :
    Greatest last_lsn ((behind last_lsn rs).map Record.decoded) lsn := by
  have spec := @final_spec _ _ _ number last_lsn.toNat rs
  rw [whole] at spec
  rcases spec with ⟨same,none_⟩ | ⟨r,member,same,bound⟩
  · exact .inl ⟨by rw [none_]; rfl,UInt64.toNat_inj.mp (mark.trans same)⟩
  · have seq : r.seq = lsn := UInt64.toNat_inj.mp (same.symm.trans mark.symm)
    refine .inr ⟨r.decoded,mem_map_of_mem member,by rw [Record.decoded_seq,seq],?_⟩
    intro other held
    obtain ⟨r',member',rfl⟩ := mem_map.mp held
    rw [Record.decoded_seq,← seq,le_iff_toNat_le]
    exact bound r' member'

/-- On a log that holds written records, the streamer agrees with replay exactly when the
records behind the mark have no metadata and rising numbers. -/
lemma agrees_held (accepts : ∀ received entry, (receive received entry).ok = true) {w : Wal} {p : Place}
    {tail : Bytes} (here : At w p) (plain : w.cipher = none) (held : Held none dim p rs tail)
    (gap : p.rest.firstMissing = 0) (fits : ∀ r ∈ rs, r.Fits dim) (written : ∀ r ∈ rs, r.Written) (last_lsn : UInt64) :
    Agrees receive w last_lsn ↔ (∀ r ∈ behind last_lsn rs, r.hasMetadata = false) ∧
      (behind last_lsn rs).Pairwise fun a b => a.seq < b.seq := by
  obtain ⟨recss,files,closed,dir,_,rfl⟩ := held.files
  have decoded : w.decoded = .ok (recss.flatten.map Record.decoded) := by
    rw [Wal.decoded,plain,here.dir,dir]
    exact decodeDir_files closed gap
  have pushed : pushDir receive w.dir ⟨[],last_lsn⟩ = pushRecords ⟨[],last_lsn⟩ recss.flatten := by
    rw [here.dir,dir]
    exact pushDir_files accepts closed gap _
  generalize recss.flatten = rs at decoded pushed fits written
  have inside : ∀ r ∈ behind last_lsn rs, r ∈ rs := fun r member => (mem_filter.mp member).1
  have order : (behind last_lsn rs).Pairwise (fun a b => a.seq < b.seq) ↔ rising number last_lsn.toNat rs = behind last_lsn rs := by
    rw [behind_eq,rising_eq_above_iff]
    simp only [lt_iff_toNat_lt,number]
  rcases pushRecords_rising ⟨[],last_lsn⟩ rs with ⟨⟨r,member,fails⟩,fault⟩ | ⟨all,lsn,ran,mark⟩
  · -- a read outside a frame, which only metadata can lead to
    have stopped : (pushSince receive w.dir last_lsn).2 = .error .outsideFrame := by
      rw [pushSince,pushed]
      grind
    apply iff_of_false
    · rintro ⟨ds,lsn,_,returned,_⟩
      rw [stopped] at returned
      cases returned
    · grind [behind,behind_eq,Record.streamed_plain]
  · have returned : pushSince receive w.dir last_lsn = ((rising number last_lsn.toNat rs).filterMap Record.streamed,.ok lsn) := by
      rw [pushSince,pushed,ran]
      rfl
    constructor
    · rintro ⟨ds,_,same,_,views,_⟩
      rw [decoded] at same
      cases same
      rw [returned,due_decoded] at views
      -- as many entries as records behind the mark, so all of them raised it
      have whole : rising number last_lsn.toNat rs = behind last_lsn rs := by
        have counted := congrArg List.length views
        simp only [length_map,filterMap_length all] at counted
        rw [behind_eq] at counted ⊢
        exact rising_sublist.eq_of_length counted
      refine ⟨?_,order.mpr whole⟩
      rw [whole] at views all
      intro r late
      have agree := views_eq all views r late
      obtain ⟨e,streamed,view⟩ := Option.map_eq_some_iff.mp agree
      grind [absurd,Record.streamed_metadata]
    · rintro ⟨none_,ordered⟩
      have whole := order.mp ordered
      refine ⟨_,lsn,decoded,by rw [returned],?_,?_⟩
      · grind [due_decoded,views_of_each,Record.streamed_plain]
      · rw [due_decoded]
        exact greatest_final mark whole

lemma batchRecords_written (seq : UInt64) (items : List (VectorId × Vec)) : ∀ r ∈ batchRecords seq items, r.Written := by
  induction items generalizing seq with
  | nil => simp [batchRecords]
  | cons item rest ih =>
    intro r member
    rcases mem_cons.mp member with rfl | member
    · trivial
    · exact ih (seq + 1) r member

lemma records_written (c : Call) (seq : UInt64) : ∀ r ∈ c.records seq, r.Written := by
  intro r member
  cases c with
  | put id vec md =>
    rw [mem_singleton.mp member,putRecord]
    split
    · trivial
    · next tenant => exact fun none_ => tenant (isEmpty_iff.mpr none_)
  | del id =>
    rw [mem_singleton.mp member]
    trivial
  | batch ids vectors => exact batchRecords_written seq _ r member
  | rawKV op key value =>
    rw [mem_singleton.mp member]
    trivial

lemma logged_forall {P : Record → Prop} {calls : List Call} (each : ∀ c ∈ calls, ∀ seq, ∀ r ∈ c.records seq, P r) (w : Wal) :
    ∀ r ∈ w.logged calls, P r := by
  induction calls generalizing w with
  | nil => simp [logged]
  | cons c rest ih =>
    intro r member
    rcases mem_append.mp member with here | later
    · exact each c (.head _) w.seq r here
    · exact ih (fun c member => each c (.tail _ member)) _ r later

/-! The numbers of a log rise as long as the counter does not overflow. -/

def Ascends (seq : UInt64) (rs : List Record) : Prop :=
  (rs.Pairwise fun a b => a.seq < b.seq) ∧ ∀ r ∈ rs, seq.toNat < r.seq.toNat ∧ r.seq.toNat ≤ seq.toNat + rs.length

lemma toNat_add_ofNat {count : Nat} (small : seq.toNat + count < 2 ^ 64) :
    (seq + UInt64.ofNat count).toNat = seq.toNat + count := by
  grind [UInt64.toNat_add,UInt64.toNat_ofNat']

lemma ascends_singleton {r : Record} (next : r.seq = seq + 1) (small : seq.toNat + 1 < 2 ^ 64) : Ascends seq [r] := by
  have number : r.seq.toNat = seq.toNat + 1 := by
    rw [next]
    exact toNat_add_ofNat small
  refine ⟨pairwise_singleton ..,?_⟩
  grind

lemma Ascends.append {rs more : List Record} (first : Ascends seq rs)
    (small : seq.toNat + (rs ++ more).length < 2 ^ 64) (second : Ascends (seq + UInt64.ofNat rs.length) more) :
    Ascends seq (rs ++ more) := by
  rw [length_append] at small
  have start := toNat_add_ofNat (show seq.toNat + rs.length < 2 ^ 64 by omega)
  have upper : ∀ r ∈ more, seq.toNat + rs.length < r.seq.toNat ∧ r.seq.toNat ≤ seq.toNat + rs.length + more.length := by
    rw [← start]
    exact second.2
  refine ⟨pairwise_append.mpr ⟨first.1,second.1,?_⟩,?_⟩
  · intro a here b there
    have low := first.2 a here
    have high := upper b there
    exact lt_iff_toNat_lt.mpr (by omega)
  · intro r member
    rw [length_append]
    rcases mem_append.mp member with here | there
    · have := first.2 r here
      omega
    · have := upper r there
      omega

lemma batchRecords_ascends (seq : UInt64) {items : List (VectorId × Vec)} (small : seq.toNat + items.length < 2 ^ 64) :
    Ascends seq (batchRecords seq items) := by
  induction items generalizing seq with
  | nil => exact ⟨.nil,by simp [batchRecords]⟩
  | cons item rest ih =>
    rw [length_cons] at small
    have next : (seq + 1).toNat = seq.toNat + 1 := toNat_add_ofNat (show seq.toNat + 1 < 2 ^ 64 by omega)
    have one : Ascends seq [.put (seq + 1) item.1 item.2] := ascends_singleton rfl (by omega)
    have whole : ([Record.put (seq + 1) item.1 item.2] ++ batchRecords (seq + 1) rest).length = rest.length + 1 := by
      rw [length_append,batchRecords_length,length_singleton]
      omega
    exact one.append (by omega) (ih (seq + 1) (by omega))

lemma logged_ascends (w : Wal) {calls : List Call} (replayable : ∀ c ∈ calls, c.Replayable none dim)
    (small : w.seq.toNat + (w.logged calls).length < 2 ^ 64) : Ascends w.seq (w.logged calls) := by
  induction calls generalizing w with
  | nil => exact ⟨.nil,by simp [logged]⟩
  | cons c rest ih =>
    have fits := replayable c (.head _)
    have seq := (w.call_clean fits).2
    rw [logged,length_append] at small
    have here : Ascends w.seq (c.records w.seq) := by
      cases c with
      | put id vec md =>
        refine ascends_singleton ?_ (by simp only [Call.records,length_singleton] at small; omega)
        rw [putRecord]
        split <;> rfl
      | del id => exact ascends_singleton rfl (by simp only [Call.records,length_singleton] at small; omega)
      | rawKV op key value =>
        exact ascends_singleton rfl (by simp only [Call.records,length_singleton] at small; omega)
      | batch ids vectors =>
        simp only [Call.records,batchRecords_length] at small
        exact batchRecords_ascends w.seq (by omega)
    have start := toNat_add_ofNat (show w.seq.toNat + (c.records w.seq).length < 2 ^ 64 by omega)
    refine here.append (by rw [length_append]; exact small) ?_
    grind

/-- On every log that replay can read, written without encryption, the streamer delivers
what replay decodes behind a sequence number exactly when none of it is a put with a
tenant, and the numbers do not start again, for which it takes 2^64 records. -/
theorem streamer_agrees_iff (segment_bytes : Nat) (shard_id dim : UInt32) (calls : List Call)
    (replayable : ∀ c ∈ calls, c.Replayable none dim) (last_lsn : UInt64) (receive : SyncReceiver)
    (accepts : ∀ received entry, (receive received entry).ok = true) :
    (Agrees receive ((fresh segment_bytes shard_id none).runAll calls) last_lsn ↔
      (∀ r ∈ behind last_lsn ((fresh segment_bytes shard_id none).logged calls), r.hasMetadata = false) ∧
        (behind last_lsn ((fresh segment_bytes shard_id none).logged calls)).Pairwise fun a b => a.seq < b.seq) ∧
      (((fresh segment_bytes shard_id none).logged calls).length < 2 ^ 64 →
        (behind last_lsn ((fresh segment_bytes shard_id none).logged calls)).Pairwise fun a b => a.seq < b.seq) := by
  let w := fresh segment_bytes shard_id none
  obtain ⟨q,there,held,gap,cipher⟩ := runAll_fresh segment_bytes shard_id replayable
  have fits : ∀ r ∈ [] ++ w.logged calls, r.Fits dim :=
    logged_forall (fun c member seq => Call.records_fit (replayable c member) seq) w
  have written : ∀ r ∈ [] ++ w.logged calls, r.Written := logged_forall (fun c _ seq => records_written c seq) w
  refine ⟨agrees_held accepts there cipher held gap fits written last_lsn,fun small => ?_⟩
  have first : w.seq.toNat = 0 := rfl
  have small : w.seq.toNat + (w.logged calls).length < 2 ^ 64 := by
    rw [first,Nat.zero_add]
    exact small
  exact (logged_ascends w replayable small).1.filter _

def acceptAll : SyncReceiver := fun _ _ => .Ok

def tenantFirst : List Call :=
  [.put 1 [5] {tenant := [97], timestamp := 3},.del 1,.batch [2,1] [[6],[7]],.rawKV Op.kRawKV [1] [2]]

theorem streamer_agrees_behind_tenant : Agrees acceptAll ((fresh 64 0 none).runAll tenantFirst) 1 ∧
      (pushSince acceptAll ((fresh 64 0 none).runAll tenantFirst).dir 1).1.map WalEntry.lsn = [2,3,4,5] := by
  have replayable : ∀ c ∈ tenantFirst, c.Replayable none 1 := by
    simp only [tenantFirst,forall_mem_cons,not_mem_nil,false_implies,implies_true,and_true]
    refine ⟨⟨rfl,.inl (by decide),by decide,by decide⟩,trivial,⟨rfl,by simp [Framed,overhead]⟩,⟨by decide,by decide⟩⟩
  refine ⟨(streamer_agrees_iff 64 0 1 tenantFirst replayable 1 acceptAll fun _ _ => rfl).1.mpr ?_,by decide +kernel⟩
  decide +kernel

/-- A put with a tenant is delivered without it, and one with a `src_vid` makes the
streamer read outside the frame. -/
theorem streamer_misreads_metadata : ¬Agrees acceptAll ((fresh 1000 0 none).runAll [.put 1 [5] {tenant := [97]}]) 0 ∧
      pushSince acceptAll ((fresh 1000 0 none).runAll [.put 1 [5] {tenant := [97]}]).dir 0 =
        ([⟨1,Op.kPutMeta,1,1,[5],[],{}⟩],.ok 1) ∧
      pushSince acceptAll ((fresh 1000 0 none).runAll [.put 1 [5] {tenant := [97], src_vid := 1000}]).dir 0 =
        ([],.error .outsideFrame) := by
  refine ⟨?_,by decide +kernel,by decide +kernel⟩
  rintro ⟨ds,lsn,decoded,_,views,_⟩
  have record : ((fresh 1000 0 none).runAll [.put 1 [5] {tenant := [97]}]).decoded =
      .ok [⟨1,Op.kPutMeta,1,[5],{tenant := [97], lsn := 1}⟩] := by decide +kernel
  rw [record] at decoded
  cases decoded
  revert views
  decide +kernel

end WalStreamer
end PomaiCache
