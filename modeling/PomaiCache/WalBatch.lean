import PomaiCache.WalRecords

/-!
`AppendBatch` against `AppendPut`. A batch lays out its frames in one pass, with a checksum
that is continued from the prefix to the vector and a size that is added up beforehand; it
writes what the single calls write.
-/
namespace PomaiCache
open Codec List

namespace WalDir

@[simp] lemma file_setFile (dir : WalDir) (g : Nat) (f : Option Bytes) : (dir.setFile g f).file g = f := by
  induction g generalizing dir with
  | zero => cases dir <;> rfl
  | succ g ih =>
    cases dir with
    | nil => exact ih []
    | cons old rest => exact ih rest

@[simp] lemma setFile_setFile (dir : WalDir) (g : Nat) (f h : Option Bytes) : (dir.setFile g f).setFile g h = dir.setFile g h := by
  induction g generalizing dir with
  | zero => cases dir <;> rfl
  | succ g ih =>
    cases dir with
    | nil => exact congrArg (none :: ·) (ih [])
    | cons old rest => exact congrArg (old :: ·) (ih rest)

end WalDir

namespace Wal

/-- `total_bytes` of an append: the length field, and the length that it holds. -/
def recordTotalBytes (w : Wal) (plain : UInt64 → Bytes) : Nat :=
  let w := {w with seq := w.seq + 1}
  4 + (UInt32.ofNat ((w.bodyOf w.seq (plain w.seq)).length + 4)).toNat

def batchBytes (vectors : List Vec) : Nat := (vectors.map fun vec => 4 + 21 + (words vec).length + 4).sum

def putBytes (vec : Vec) : Nat := 4 + (UInt32.ofNat (25 + 4 * vec.length)).toNat

/-- The length field can hold the length of the frame of a put. -/
def ShortFrame (vec : Vec) : Prop := 25 + 4 * vec.length < 2 ^ 32

instance (vec : Vec) : Decidable (ShortFrame vec) := inferInstanceAs (Decidable (_ < _))

lemma putBytes_eq (vec : Vec) : putBytes vec = 4 + (25 + 4 * vec.length) % 2 ^ 32 := by
  rw [putBytes,UInt32.toNat_ofNat']

lemma putBytes_le (vec : Vec) : putBytes vec ≤ 29 + 4 * vec.length := by
  have := Nat.mod_le (25 + 4 * vec.length) (2 ^ 32)
  rw [putBytes_eq]
  omega

lemma batchBytes_cons (vec : Vec) (rest : List Vec) : batchBytes (vec :: rest) = 29 + 4 * vec.length + batchBytes rest := by
  simp only [batchBytes,map_cons,sum_cons,words_length]
  omega

section
variable (vectors : List Vec)

lemma putBytes_sum_le : (vectors.map putBytes).sum ≤ batchBytes vectors := by
  induction vectors with
  | nil => exact Nat.le_refl _
  | cons vec rest ih =>
    have := putBytes_le vec
    rw [batchBytes_cons,map_cons,sum_cons]
    omega

lemma putBytes_sum_eq_iff : (vectors.map putBytes).sum = batchBytes vectors ↔ ∀ vec ∈ vectors, ShortFrame vec := by
  induction vectors with
  | nil => exact iff_of_true rfl nofun
  | cons vec rest ih =>
    have le := putBytes_sum_le rest
    have first : putBytes vec = 29 + 4 * vec.length ↔ ShortFrame vec := by
      grind [putBytes_eq,ShortFrame]
    have le' := putBytes_le vec
    rw [batchBytes_cons,map_cons,sum_cons,forall_mem_cons,← ih,← first]
    omega

end

def grown (w : Wal) (data : Bytes) : Wal :=
  if data.length = 0 then w else {w with dir := w.dir.setFile w.gen (some ((w.dir.file w.gen).getD [] ++ data))}

variable (w : Wal)

lemma grown_nil : w.grown [] = w := rfl

lemma grown_fields (data : Bytes) : w.grown data = {w with dir := (w.grown data).dir} := by
  unfold grown
  split <;> rfl

lemma grown_grown (first second : Bytes) : (w.grown first).grown second = w.grown (first ++ second) := by
  by_cases none_ : first.length = 0
  · rw [length_eq_zero_iff.mp none_]
    rfl
  by_cases none' : second.length = 0
  · rw [length_eq_zero_iff.mp none',append_nil]
    rfl
  have some_ : ¬ (first ++ second).length = 0 := by
    rw [length_append]
    omega
  simp only [grown,none_,none',some_,if_false,WalDir.file_setFile,WalDir.setFile_setFile,Option.getD_some,append_assoc]

lemma appendIovecs_done (pieces : List Bytes) : w.appendIovecs [] pieces = (w.grown pieces.flatten,[],.Ok) := by
  induction pieces generalizing w with
  | nil => rfl
  | cons data rest ih =>
    rw [appendIovecs,flatten_cons,← grown_grown]
    by_cases empty : data.length = 0
    · rw [if_pos empty,length_eq_zero_iff.mp empty,grown_nil]
      exact ih w
    · have appended : w.appendFile [] data = (w.grown data,[],.Ok) := by
        rw [grown,if_neg empty]
        rfl
      rw [if_neg empty,appended]
      exact ih (w.grown data)

lemma writeOut_done {total_bytes : Nat} (fits : w.bytes_in_seg + total_bytes ≤ w.segment_bytes)
    (pieces : List Bytes) (seq : UInt64) : w.writeOut [] total_bytes pieces seq = ({w with
        dir := (w.grown pieces.flatten).dir
        seq := seq
        bytes_in_seg := w.bytes_in_seg + total_bytes},[],.Ok) := by
  have stays : w.rotateIfNeeded [] total_bytes = (w,[],.Ok) := if_pos fits
  have same : ({w with seq := seq} : Wal).grown pieces.flatten =
      {w with dir := (w.grown pieces.flatten).dir, seq := seq} := by
    unfold grown
    split <;> rfl
  rw [writeOut,stays]
  simp only [Status.ok_Ok,if_true,appendIovecs_done,same]

lemma putPlain_bare (seq : UInt64) (id : VectorId) (vec : Vec) :
    putPlain seq id vec {} = recordPrefix seq Op.kPut id (UInt32.ofNat vec.length) ++ words vec := by
  simp [putPlain]

lemma batchPieces_flatten (seq : UInt64) (id : VectorId) (vec : Vec) : (batchPieces seq id vec).flatten =
      [le 4 (UInt32.ofNat ((putPlain seq id vec {}).length + 4)).toNat,putPlain seq id vec {},
        le 4 (crc32c (putPlain seq id vec {}) 0).toNat].flatten := by
  have length : (recordPrefix seq Op.kPut id (UInt32.ofNat vec.length) ++ words vec).length = 21 + (words vec).length := by
    rw [length_append,recordPrefix_length]
  simp only [batchPieces,putPlain_bare,length,crc32c_append,flatten_cons,flatten_nil,append_nil,append_assoc]

lemma recordTotalBytes_put {w : Wal} (plain : w.cipher = none) (id : VectorId) (vec : Vec) :
    (w.recordTotalBytes fun seq => putPlain seq id vec {}) = putBytes vec := by
  have body : (bodyOf {w with seq := w.seq + 1} (w.seq + 1) (putPlain (w.seq + 1) id vec {})).length + 4 = 25 + 4 * vec.length := by
    rw [bodyOf,plain]
    simp only [putPlain_bare,length_append,recordPrefix_length,words_length]
    omega
  rw [recordTotalBytes,body]
  rfl

section
variable {w : Wal} (plain : w.cipher = none)
include plain

lemma appendPut_done (id : VectorId) (vec : Vec) (fits : w.bytes_in_seg + putBytes vec ≤ w.segment_bytes) :
    w.appendPut [] id vec {} = ({w with
        dir := (w.grown (batchPieces (w.seq + 1) id vec).flatten).dir
        seq := w.seq + 1
        bytes_in_seg := w.bytes_in_seg + putBytes vec},[],.Ok) := by
  rw [← recordTotalBytes_put plain id vec] at fits ⊢
  have body : bodyOf {w with seq := w.seq + 1} (w.seq + 1) (putPlain (w.seq + 1) id vec {}) = putPlain (w.seq + 1) id vec {} := by
    rw [bodyOf,plain]
  have written := writeOut_done {w with seq := w.seq + 1} fits
    [le 4 (UInt32.ofNat ((putPlain (w.seq + 1) id vec {}).length + 4)).toNat,putPlain (w.seq + 1) id vec {},
      le 4 (crc32c (putPlain (w.seq + 1) id vec {}) 0).toNat] (w.seq + 1)
  have same : (({w with seq := w.seq + 1} : Wal).grown (batchPieces (w.seq + 1) id vec).flatten).dir =
      (w.grown (batchPieces (w.seq + 1) id vec).flatten).dir := by
    unfold grown
    split <;> rfl
  rw [← batchPieces_flatten,same] at written
  simp only [appendPut,appendRecord,body]
  simp only [recordTotalBytes,body] at written ⊢
  exact written

end
end Wal

/-! ### The bytes written in total -/

structure CountedWal where
  log : Wal
  bytes_written_total : UInt64

namespace CountedWal
open Wal

def count (w : CountedWal) (total_bytes : Nat) (result : Wal × List Outcome × Status) : CountedWal × List Outcome × Status :=
  (⟨result.1,if result.2.2.ok then w.bytes_written_total + UInt64.ofNat total_bytes else w.bytes_written_total⟩,result.2)

def appendPut (w : CountedWal) (outs : List Outcome) (id : VectorId) (vec : Vec) (md : Metadata) :
    CountedWal × List Outcome × Status :=
  w.count (w.log.recordTotalBytes fun seq => putPlain seq id vec md) (w.log.appendPut outs id vec md)

/-- `AppendPut` without metadata on each pair, until one fails. -/
def appendPuts (w : CountedWal) (outs : List Outcome) : List (VectorId × Vec) → CountedWal × List Outcome × Status
  | [] => (w,outs,.Ok)
  | item :: rest =>
    let (w,outs,st) := w.appendPut outs item.1 item.2 {}
    if st.ok then appendPuts w outs rest else (w,outs,st)

def appendBatch (w : CountedWal) (outs : List Outcome) (ids : List VectorId) (vectors : List Vec) :
    CountedWal × List Outcome × Status :=
  if ids.length ≠ vectors.length then (w,outs,.invalidArgument "ids and vectors size mismatch")
  else if ids.isEmpty then (w,outs,.Ok)
  else if w.log.cipher.isSome then w.appendPuts outs (ids.zip vectors)
  else w.count (batchBytes vectors) (w.log.appendBatch outs ids vectors)

/-- The log after these frames, with the bytes that were counted for them. -/
def grown (w : CountedWal) (items : List (VectorId × Vec)) (total_bytes : Nat) : CountedWal :=
  ⟨{w.log with
      dir := (w.log.grown (batchIovecs w.log.seq items).flatten).dir
      seq := w.log.seq + UInt64.ofNat items.length
      bytes_in_seg := w.log.bytes_in_seg + total_bytes},
    w.bytes_written_total + UInt64.ofNat total_bytes⟩

lemma appendPuts_done {w : CountedWal} (plain : w.log.cipher = none) (items : List (VectorId × Vec))
    (fits : w.log.bytes_in_seg + (items.map fun item => putBytes item.2).sum ≤ w.log.segment_bytes) :
    w.appendPuts [] items = (w.grown items (items.map fun item => putBytes item.2).sum,[],.Ok) := by
  induction items generalizing w with
  | nil => simp [appendPuts,grown,batchIovecs,Wal.grown]
  | cons item rest ih =>
    rw [map_cons,sum_cons] at fits ⊢
    have put := appendPut_done plain item.1 item.2 (by omega)
    have first : w.appendPut [] item.1 item.2 {} = (w.grown [item] (putBytes item.2),[],.Ok) := by
      rw [appendPut,put,recordTotalBytes_put plain,count]
      simp [grown,batchIovecs]
    have more := @ih (w.grown [item] (putBytes item.2)) plain (by simp only [grown]; omega)
    rw [appendPuts,first]
    simp only [Status.ok_Ok,if_true]
    rw [more]
    have dir : (Wal.grown
        {w.log with
          dir := (w.log.grown (batchIovecs w.log.seq [item]).flatten).dir
          seq := w.log.seq + UInt64.ofNat 1
          bytes_in_seg := w.log.bytes_in_seg + putBytes item.2}
        (batchIovecs (w.log.seq + 1) rest).flatten).dir = (w.log.grown (batchIovecs w.log.seq (item :: rest)).flatten).dir := by
      have both := w.log.grown_grown (batchIovecs w.log.seq [item]).flatten (batchIovecs (w.log.seq + 1) rest).flatten
      grind [batchIovecs,flatten_append,Wal.grown]
    have one : UInt64.ofNat 1 = 1 := rfl
    simp only [grown,length_cons,length_nil,Nat.zero_add,one] at dir ⊢
    rw [dir]
    simp [UInt64.ofNat_add,Nat.add_assoc,UInt64.add_assoc,UInt64.add_comm]

lemma appendBatch_done {w : CountedWal} (plain : w.log.cipher = none) (items : List (VectorId × Vec))
    (fits : w.log.bytes_in_seg + batchBytes (items.map Prod.snd) ≤ w.log.segment_bytes) :
    w.appendBatch [] (items.map Prod.fst) (items.map Prod.snd) = (w.grown items (batchBytes (items.map Prod.snd)),[],.Ok) := by
  by_cases none_ : items = []
  · subst none_
    simp [appendBatch,grown,batchIovecs,Wal.grown,batchBytes]
  have zipped : (items.map Prod.fst).zip (items.map Prod.snd) = items := (zip_of_prod rfl rfl).symm
  have sizes : ¬ (items.map Prod.fst).length ≠ (items.map Prod.snd).length := by simp
  have some_ : ¬ (items.map Prod.fst).isEmpty = true := by simpa using none_
  have off : ¬ w.log.cipher.isSome = true := by simp [plain]
  have batch : w.log.appendBatch [] (items.map Prod.fst) (items.map Prod.snd) =
      w.log.writeOut [] (batchBytes (items.map Prod.snd)) (batchIovecs w.log.seq items)
        (w.log.seq + UInt64.ofNat items.length) := by
    rw [Wal.appendBatch,if_neg sizes,if_neg some_,if_neg off,zipped,length_map]
    rfl
  rw [appendBatch,if_neg sizes,if_neg some_,if_neg off,batch,writeOut_done w.log fits,count]
  rfl

/-- A batch whose frames fit in the current segment writes the bytes of the single puts with
their sequence numbers, and it leaves their counters exactly if each length field can hold
the length of its frame. -/
theorem append_batch_iff (w : CountedWal) (plain : w.log.cipher = none) (items : List (VectorId × Vec))
    (fits : w.log.bytes_in_seg + batchBytes (items.map Prod.snd) ≤ w.log.segment_bytes) :
    let batch := w.appendBatch [] (items.map Prod.fst) (items.map Prod.snd)
    let puts := w.appendPuts [] items
    batch.2 = ([],.Ok) ∧ puts.2 = ([],.Ok) ∧ batch.1.log.dir = puts.1.log.dir ∧ batch.1.log.seq = puts.1.log.seq ∧
      (batch.1 = puts.1 ↔ ∀ item ∈ items, ShortFrame item.2) ∧
      ∀ seq id vec, crc32c (words vec) (crc32c (recordPrefix seq Op.kPut id (UInt32.ofNat vec.length)) 0) =
        crc32c (recordPrefix seq Op.kPut id (UInt32.ofNat vec.length) ++ words vec) 0 := by
  have sum : (items.map fun item => putBytes item.2) = (items.map Prod.snd).map putBytes := by
    rw [map_map]
    rfl
  have le := putBytes_sum_le (items.map Prod.snd)
  have sizes := putBytes_sum_eq_iff (items.map Prod.snd)
  simp only [appendBatch_done plain items fits,appendPuts_done plain items (by rw [sum]; omega),sum]
  refine ⟨trivial,trivial,rfl,rfl,⟨fun same => ?_,fun short => ?_⟩,fun seq id vec => crc32c_append _ _ _⟩
  · have counted : w.log.bytes_in_seg + batchBytes (items.map Prod.snd) =
        w.log.bytes_in_seg + ((items.map Prod.snd).map putBytes).sum :=
      congrArg (fun w : CountedWal => w.log.bytes_in_seg) same
    grind
  · grind

def fresh (segment_bytes : Nat) : CountedWal := ⟨⟨[some walFileHeader],segment_bytes,0,none,0,0,16⟩,0⟩

theorem append_batch_pair : (fresh 1000).appendBatch [] [1,2] [[5,6],[7]] = (fresh 1000).appendPuts [] [(1,[5,6]),(2,[7])] := by
  obtain ⟨batch,puts,_,_,same,_⟩ := append_batch_iff (fresh 1000) rfl [(1,[5,6]),(2,[7])] (by decide)
  exact Prod.ext (same.mpr (by decide)) (batch.trans puts.symm)

def vast : Vec := replicate (2 ^ 30) 0

/-- The put counts 29 bytes for the frame, and the batch all of them. -/
theorem append_batch_counts_more : ((fresh (2 ^ 33)).appendBatch [] [1] [vast]).1.log.bytes_in_seg = 16 + (2 ^ 32 + 29) ∧
      ((fresh (2 ^ 33)).appendPuts [] [(1,vast)]).1.log.bytes_in_seg = 16 + 29 := by
  have length : vast.length = 2 ^ 30 := length_replicate
  have whole : batchBytes [vast] = 2 ^ 32 + 29 := by
    rw [batchBytes_cons,length]
    rfl
  have cut : putBytes vast = 29 := by
    rw [putBytes_eq,length]
    rfl
  have batch := @appendBatch_done (fresh (2 ^ 33)) rfl [(1,vast)]
  have puts := @appendPuts_done (fresh (2 ^ 33)) rfl [(1,vast)]
  simp only [map_cons,map_nil,sum_cons,sum_nil,whole,cut] at batch puts
  rw [batch (by decide),puts (by decide)]
  exact ⟨rfl,rfl⟩

end CountedWal
end PomaiCache
