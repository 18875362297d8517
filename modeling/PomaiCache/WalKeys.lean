import PomaiCache.WalBatch
import PomaiCache.WalNonces
import PomaiCache.Text

/-!
The key of an encrypted log. The constructor of the log takes the key as 64 hexadecimal
digits and encrypts every record under it; a text that is not such a key turns the
encryption off without an error (`encryption_kept_iff`).
-/
namespace PomaiCache
open Codec

namespace AesGcm

/-- `HexVal`, where `none` is its -1. -/
def hexVal (c : UInt8) : Option UInt8 :=
  if 48 ≤ c ∧ c ≤ 57 then some (c - 48)
  else if 97 ≤ c ∧ c ≤ 102 then some (10 + (c - 97))
  else if 65 ≤ c ∧ c ≤ 70 then some (10 + (c - 65))
  else none

/-- The loop of `ParseKeyHex`, a byte of the key for each two digits. -/
def parsePairs : Bytes → Except Status Bytes
  | first :: second :: rest =>
    match hexVal first,hexVal second with
    | some hi,some lo => (parsePairs rest).map ((hi <<< 4 ||| lo) :: ·)
    | _,_ => .error (.invalidArgument "invalid key hex")
  | _ => .ok []

def parseKeyHex (hex : Bytes) : Except Status Bytes :=
  if hex.length ≠ 64 then .error (.invalidArgument "AES-256 key must be 64 hex chars")
  else parsePairs hex

lemma parsePairs_ok_iff {hex : Bytes} {pairs : Nat} (even : hex.length = 2 * pairs) :
    (∃ key, parsePairs hex = .ok key) ↔ ∀ c ∈ hex, (hexVal c).isSome = true := by
  induction pairs generalizing hex with
  | zero =>
    rw [List.length_eq_zero_iff.mp even]
    simp [parsePairs]
  | succ pairs ih =>
    match hex,even with
    | first :: second :: rest,even =>
      have rest_even : rest.length = 2 * pairs := by
        simp only [List.length_cons] at even
        omega
      rw [parsePairs,List.forall_mem_cons,List.forall_mem_cons,← ih rest_even]
      cases hexVal first with
      | none => simp
      | some hi =>
        cases hexVal second with
        | none => simp
        | some lo => cases parsePairs rest <;> simp [Except.map]

lemma parseKeyHex_ok_iff (hex : Bytes) :
    (∃ key, parseKeyHex hex = .ok key) ↔ hex.length = 64 ∧ ∀ c ∈ hex, (hexVal c).isSome = true := by
  by_cases length : hex.length = 64
  · have even : hex.length = 2 * 32 := length
    simp [*,parseKeyHex,parsePairs_ok_iff even]
  · simp [parseKeyHex,length]

end AesGcm

namespace Wal
open AesGcm PomaiCache.Text

/-- The constructor of the log, over the files that are in its directory. `aes` is the
authenticated encryption of the crypto library under a key. -/
def construct (aes : Bytes → Cipher) (dir : WalDir) (shard_id : UInt32) (segment_bytes : Nat)
    (encryption_enabled : Bool) (encryption_key_hex : Bytes) : Wal :=
  { dir
    segment_bytes
    shard_id
    gen := 0
    seq := 0
    bytes_in_seg := 0
    cipher :=
      if encryption_enabled then
        match parseKeyHex encryption_key_hex with
        | .ok key => some (aes key)
        | .error _ => none
      else none }

/-! ### A log that always encrypts -/

/-- An append whose frame body is the nonce, the ciphertext and the tag of the record. -/
def encryptRecord (w : Wal) (c : Cipher) (outs : List Outcome) (plain : UInt64 → Bytes) : Wal × List Outcome × Status :=
  let seq := w.seq + 1
  let nonce := makeNonce w.shard_id seq w.gen
  let body := nonce ++ (c.encrypt nonce (plain seq)).1 ++ (c.encrypt nonce (plain seq)).2
  let len := UInt32.ofNat (body.length + 4)
  {w with seq := seq}.writeOut outs (4 + len.toNat) [le 4 len.toNat,body,le 4 (crc32c body 0).toNat] seq

def encryptPuts (w : Wal) (c : Cipher) (outs : List Outcome) : List (VectorId × Vec) → Wal × List Outcome × Status
  | [] => (w,outs,.Ok)
  | item :: rest =>
    let (w,outs,st) := w.encryptRecord c outs fun seq => putPlain seq item.1 item.2 {}
    if st.ok then encryptPuts w c outs rest else (w,outs,st)

/-- The appending calls, each of whose records is written encrypted. -/
def encryptCall (w : Wal) (c : Cipher) (outs : List Outcome) : Call → Wal × List Outcome × Status
  | .put id vec md => w.encryptRecord c outs fun seq => putPlain seq id vec md
  | .del id => w.encryptRecord c outs fun seq => deletePlain seq id
  | .rawKV op key value => w.encryptRecord c outs fun seq => rawKVPlain seq op key value
  | .batch ids vectors =>
    if ids.length ≠ vectors.length then (w,outs,.invalidArgument "ids and vectors size mismatch")
    else w.encryptPuts c outs (ids.zip vectors)

/-- Every call of a run returns an error or writes what the log that always encrypts writes. -/
def EncryptedRun (c : Cipher) : Wal → List (List Outcome × Call) → Prop
  | _,[] => True
  | w,now :: rest =>
    ((w.call now.1 now.2).2.2.ok = true → w.call now.1 now.2 = w.encryptCall c now.1 now.2) ∧
      EncryptedRun c (w.call now.1 now.2).1 rest

section
variable {w : Wal} {c : Cipher}

lemma appendRecord_encrypts (keyed : w.cipher = some c) (outs : List Outcome) (plain : UInt64 → Bytes) :
    w.appendRecord outs plain = w.encryptRecord c outs plain := by
  simp only [appendRecord,encryptRecord,bodyOf,keyed]

lemma appendPuts_encrypts (keyed : w.cipher = some c) (present : w.gen < w.dir.firstMissing)
    (outs : List Outcome) (items : List (VectorId × Vec)) :
    w.appendPuts outs items = w.encryptPuts c outs items ∧ Forward w (w.appendPuts outs items).1 := by
  induction items generalizing w outs with
  | nil => exact ⟨rfl,.refl present⟩
  | cons item rest ih =>
    obtain ⟨moved,_⟩ := appendPut_forward present outs item.1 item.2 {}
    have first : w.appendPut outs item.1 item.2 {} = w.encryptRecord c outs fun seq => putPlain seq item.1 item.2 {} := by
      rw [appendPut]
      exact appendRecord_encrypts keyed outs _
    obtain ⟨same,later⟩ := ih (moved.cipher.trans keyed) moved.present (w.appendPut outs item.1 item.2 {}).2.1
    simp only [appendPuts,encryptPuts,← first]
    split
    · exact ⟨same,moved.trans later⟩
    · exact ⟨rfl,moved⟩

lemma call_encrypts (keyed : w.cipher = some c) (present : w.gen < w.dir.firstMissing) (outs : List Outcome)
    (now : Call) : w.call outs now = w.encryptCall c outs now ∧ Forward w (w.call outs now).1 := by
  have record (plain : UInt64 → Bytes) : w.appendRecord outs plain = w.encryptRecord c outs plain ∧
      Forward w (w.appendRecord outs plain).1 :=
    ⟨appendRecord_encrypts keyed outs plain,(appendRecord_forward present outs plain).1⟩
  cases now with
  | put id vec md =>
    rw [call,appendPut,encryptCall]
    exact record _
  | del id =>
    rw [call,appendDelete,encryptCall]
    exact record _
  | rawKV op key value =>
    rw [call,appendRawKV,encryptCall]
    exact record _
  | batch ids vectors =>
    obtain ⟨same,moved⟩ := appendPuts_encrypts keyed present outs (ids.zip vectors)
    simp only [call,appendBatch,encryptCall,keyed,Option.isSome_some,if_true]
    split
    · exact ⟨rfl,.refl present⟩
    · split
      · next empty =>
        rw [List.isEmpty_iff.mp empty]
        exact ⟨rfl,.refl present⟩
      · exact ⟨same,moved⟩

lemma encryptedRun_of_keyed (keyed : w.cipher = some c) (present : w.gen < w.dir.firstMissing)
    (steps : List (List Outcome × Call)) : EncryptedRun c w steps := by
  induction steps generalizing w with
  | nil => trivial
  | cons now rest ih =>
    obtain ⟨same,moved⟩ := call_encrypts keyed present now.1 now.2
    exact ⟨fun _ => same,ih (moved.cipher.trans keyed) moved.present⟩

end

lemma file_firstMissing (dir : WalDir) : dir.file dir.firstMissing = none := by
  induction dir with
  | nil => rfl
  | cons file rest ih =>
    cases file with
    | none => rfl
    | some file => simpa [WalDir.firstMissing,WalDir.file] using ih

lemma openLog_begins (w : Wal) (checked : (checkHeaders w.dir).ok = true) :
    (w.openLog []).2 = .Ok ∧ (w.openLog []).1.bytes_in_seg = 16 := by
  simp [openLog,checked,file_firstMissing,appendFile]

/-- Behind a file header, the bytes of a frame are counted from the header on, also when the
frame goes to a new file. -/
lemma writeOut_counts (w : Wal) (begun : w.bytes_in_seg = 16) (total_bytes : Nat) (pieces : List Bytes)
    (seq : UInt64) : (w.writeOut [] total_bytes pieces seq).1.bytes_in_seg = 16 + total_bytes := by
  have turned : (w.rotateIfNeeded [] total_bytes).2 = ([],.Ok) := w.rotateIfNeeded_clean total_bytes
  have counted : (w.rotateIfNeeded [] total_bytes).1.bytes_in_seg = 16 := by
    unfold rotateIfNeeded
    split
    · exact begun
    · simp [appendFile]
  rw [writeOut_eq]
  simp only [turned,appendIovecs_done,Status.ok_Ok,if_true]
  rw [grown_fields]
  exact congrArg (· + total_bytes) counted

lemma appendRecord_not_encrypted {w : Wal} (plain : w.cipher = none) (begun : w.bytes_in_seg = 16) (c : Cipher)
    (id : VectorId) : w.call [] (.del id) ≠ w.encryptCall c [] (.del id) := by
  intro same
  have counts := congrArg (fun result : Wal × List Outcome × Status => result.1.bytes_in_seg) same
  simp only [call,appendDelete,appendRecord,encryptCall,encryptRecord,bodyOf,plain] at counts
  have counted (total_bytes : Nat) (pieces : List Bytes) (seq : UInt64) :=
    writeOut_counts ⟨w.dir,w.segment_bytes,w.shard_id,none,w.gen,seq,w.bytes_in_seg⟩ begun total_bytes pieces seq
  rw [counted,counted] at counts
  have nonce (seq : UInt64) : (makeNonce w.shard_id seq w.gen).length = 12 := by
    simp [makeNonce]
  simp only [List.length_append,c.cipher_length,c.tag_length,nonce,deletePlain,recordPrefix_length] at counts
  exact absurd counts (by decide)

lemma construct_cipher (aes : Bytes → Cipher) (dir : WalDir) (shard_id : UInt32) (segment_bytes : Nat) {hex key : Bytes}
    (parsed : parseKeyHex hex = .ok key) :
    (construct aes dir shard_id segment_bytes true hex).cipher = some (aes key) := by
  simp only [construct,parsed,if_true]

lemma construct_encrypts (aes : Bytes → Cipher) (dir : WalDir) (shard_id : UInt32) (segment_bytes : Nat)
    {hex key : Bytes} (parsed : parseKeyHex hex = .ok key) (outs : List Outcome) (steps : List (List Outcome × Call))
    (opened : ((construct aes dir shard_id segment_bytes true hex).openLog outs).2.ok = true) :
    EncryptedRun (aes key) ((construct aes dir shard_id segment_bytes true hex).openLog outs).1 steps := by
  obtain ⟨_,_,_,kept,present⟩ := openLog_forward (construct aes dir shard_id segment_bytes true hex) outs
  exact encryptedRun_of_keyed (kept.trans (construct_cipher aes dir shard_id segment_bytes parsed)) (present opened) steps

/-- A log for which encryption was requested never writes a record that is not encrypted,
in any run of appends, exactly if its key has 64 hexadecimal digits or the files in its
directory make `Open` fail. The key it then encrypts under is the one that was given. -/
theorem encryption_kept_iff (aes : Bytes → Cipher) (dir : WalDir) (shard_id : UInt32) (segment_bytes : Nat) (hex : Bytes) :
    let w := construct aes dir shard_id segment_bytes true hex
    ((∃ key, ∀ outs steps, (w.openLog outs).2.ok = true → EncryptedRun (aes key) (w.openLog outs).1 steps) ↔
      (hex.length = 64 ∧ ∀ c ∈ hex, (hexVal c).isSome = true) ∨ (checkHeaders dir).ok = false) ∧
    ∀ key, parseKeyHex hex = .ok key → ∀ outs steps, (w.openLog outs).2.ok = true →
      EncryptedRun (aes key) (w.openLog outs).1 steps := by
  intro w
  refine ⟨⟨?_,?_⟩,fun key parsed => construct_encrypts aes dir shard_id segment_bytes parsed⟩
  · rintro ⟨key,encrypted⟩
    by_contra neither
    obtain ⟨unparsed,checked⟩ := not_or.mp neither
    obtain ⟨opened,begun⟩ := openLog_begins w (Bool.eq_true_of_not_eq_false checked)
    have off : (w.openLog []).1.cipher = none := by
      obtain ⟨_,_,_,kept,_⟩ := openLog_forward w []
      rw [kept]
      cases parsed : parseKeyHex hex with
      | ok key => exact absurd ((parseKeyHex_ok_iff hex).mp ⟨key,parsed⟩) unparsed
      | error st => simp only [w,construct,parsed,if_true]
    -- one deletion is written as it is
    obtain ⟨written,_⟩ := encrypted [] [([],.del 0)] (by rw [opened]; rfl)
    have taken : ((w.openLog []).1.call [] (.del 0)).2.2 = .Ok := by
      rw [call,appendDelete,((w.openLog []).1.appendRecord_clean fun seq => deletePlain seq 0).1]
    exact appendRecord_not_encrypted off begun (aes key) 0 (written (by rw [taken]; rfl))
  · rintro (key | failed)
    · obtain ⟨key,parsed⟩ := (parseKeyHex_ok_iff hex).mpr key
      exact ⟨key,construct_encrypts aes dir shard_id segment_bytes parsed⟩
    · refine ⟨[],fun outs steps opened => ?_⟩
      have checked : (checkHeaders w.dir).ok = false := failed
      simp [openLog,checked] at opened

/-- A key of one digit: the log opens, takes a put without an error, and the vector stands in
the file as it was given. -/
theorem encryption_dropped :
    let w := construct (fun _ => identityCipher) [] 0 1000 true (ascii "a")
    (w.openLog []).2 = .Ok ∧ ((w.openLog []).1.call [] (.put 1 [5] {})).2.2 = .Ok ∧
      ((w.openLog []).1.call [] (.put 1 [5] {})).1.dir =
        [some (walFileHeader ++ le 4 29 ++ putPlain 1 1 [5] {} ++ le 4 (crc32c (putPlain 1 1 [5] {}) 0).toNat)] ∧
      ¬EncryptedRun identityCipher (w.openLog []).1 [([],.put 1 [5] {})] := by
  refine ⟨by decide +kernel,by decide +kernel,by decide +kernel,?_⟩
  rintro ⟨written,_⟩
  have counts := congrArg (fun result : Wal × List Outcome × Status => result.1.bytes_in_seg) (written (by decide +kernel))
  revert counts
  decide +kernel

end Wal
end PomaiCache
