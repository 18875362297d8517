import PomaiCache.WalCrash

/-!
The nonces of an encrypted log. Every record is encrypted under a nonce made of the shard, the
sequence number and the low byte of the generation.
-/
namespace PomaiCache.Wal
open Codec List

/-- What `MakeNonce` is called with for one record. -/
structure Sealing where
  shard_id : UInt32
  seq : UInt64
  gen : Nat
  deriving DecidableEq, Repr

def Sealing.nonce (s : Sealing) : Bytes := makeNonce s.shard_id s.seq s.gen

lemma nonce_eq {s : Sealing} (small : s.seq.toNat < 2 ^ 56) :
    s.nonce = le 4 s.shard_id.toNat ++ (le 7 s.seq.toNat ++ [UInt8.ofNat (s.gen &&& 0xFF)]) := by
  have top : s.seq.toNat / 256 / 256 / 256 / 256 / 256 / 256 / 256 = 0 := by omega
  have split : le 8 s.seq.toNat = le 7 s.seq.toNat ++ [0] := by simp [le,top]
  rw [Sealing.nonce,makeNonce,split]
  simp [le]

lemma nonce_inj {s t : Sealing} (small : s.seq.toNat < 2 ^ 56) (small' : t.seq.toNat < 2 ^ 56)
    (same : s.nonce = t.nonce) : s.seq = t.seq ∧ s.gen % 256 = t.gen % 256 := by
  rw [nonce_eq small,nonce_eq small'] at same
  have behind := (append_inj same (by simp)).2
  obtain ⟨number,generation⟩ := append_inj behind (by simp)
  constructor
  · have numbers := congrArg leNat number
    rw [leNat_le_of_lt (by omega),leNat_le_of_lt (by omega)] at numbers
    exact UInt64.toNat_inj.mp numbers
  · have bytes := congrArg UInt8.toNat (singleton_inj.mp generation)
    have low (n : Nat) : (UInt8.ofNat (n &&& 0xFF)).toNat = n % 256 := by
      rw [show (0xFF : Nat) = 2 ^ 8 - 1 from rfl,Nat.and_two_pow_sub_one_eq_mod]
      simp
    rwa [low,low] at bytes

def nextSealing (w : Wal) : Sealing := ⟨w.shard_id,w.seq + 1,w.gen⟩

/-- A batch encrypts one record after another and stops behind a failed append. -/
def sealedPuts (w : Wal) (outs : List Outcome) : List (VectorId × Vec) → List Sealing
  | [] => []
  | item :: rest =>
    let next := w.appendPut outs item.1 item.2 {}
    w.nextSealing :: (if next.2.2.ok then sealedPuts next.1 next.2.1 rest else [])

def sealedBy (w : Wal) (outs : List Outcome) : Call → List Sealing
  | .batch ids vectors => if ids.length ≠ vectors.length then [] else w.sealedPuts outs (ids.zip vectors)
  | _ => [w.nextSealing]

lemma firstMissing_setFile {dir : WalDir} {g : Nat} (bytes : Bytes) (reached : g ≤ dir.firstMissing) :
    dir.firstMissing ≤ (dir.setFile g (some bytes)).firstMissing ∧ g < (dir.setFile g (some bytes)).firstMissing := by
  induction dir generalizing g with
  | nil =>
    obtain rfl : g = 0 := Nat.le_zero.mp reached
    simp [WalDir.setFile,WalDir.firstMissing]
  | cons file rest ih =>
    cases g with
    | zero => cases file <;> simp [WalDir.setFile,WalDir.firstMissing]
    | succ g =>
      cases file with
      | none => simp [WalDir.firstMissing] at reached
      | some file =>
        grind [WalDir.firstMissing,WalDir.setFile]

/-- The log moves on: no file disappears, the generation does not fall, and its file is there. -/
structure Forward (w w' : Wal) : Prop where
  gen : w.gen ≤ w'.gen
  files : w.dir.firstMissing ≤ w'.dir.firstMissing
  present : w'.gen < w'.dir.firstMissing
  cipher : w'.cipher = w.cipher

variable {w : Wal}

lemma Forward.refl (present : w.gen < w.dir.firstMissing) : Forward w w :=
  ⟨Nat.le_refl _,Nat.le_refl _,present,rfl⟩

lemma Forward.trans {a b c : Wal} (first : Forward a b) (second : Forward b c) : Forward a c :=
  ⟨Nat.le_trans first.gen second.gen,Nat.le_trans first.files second.files,second.present,second.cipher.trans first.cipher⟩

lemma appendFile_forward (reached : w.gen ≤ w.dir.firstMissing) (outs : List Outcome) (data : Bytes) :
    Forward w (w.appendFile outs data).1 ∧ (w.appendFile outs data).1.seq = w.seq := by
  unfold appendFile
  split
  · obtain ⟨files,present⟩ := firstMissing_setFile ((w.dir.file w.gen).getD [] ++ data) reached
    exact ⟨⟨Nat.le_refl _,files,present,rfl⟩,rfl⟩
  · next written _ =>
    obtain ⟨files,present⟩ := firstMissing_setFile ((w.dir.file w.gen).getD [] ++ data.take written) reached
    exact ⟨⟨Nat.le_refl _,files,present,rfl⟩,rfl⟩

lemma appendIovecs_forward (present : w.gen < w.dir.firstMissing) (outs : List Outcome) (pieces : List Bytes) :
    Forward w (w.appendIovecs outs pieces).1 ∧ (w.appendIovecs outs pieces).1.seq = w.seq := by
  induction pieces generalizing w outs with
  | nil => exact ⟨.refl present,rfl⟩
  | cons data rest ih =>
    obtain ⟨moved,seq⟩ := appendFile_forward (Nat.le_of_lt present) outs data
    simp only [appendIovecs]
    split
    · exact ih present outs
    · split
      · obtain ⟨later,seq'⟩ := ih moved.present (w.appendFile outs data).2.1
        exact ⟨moved.trans later,seq'.trans seq⟩
      · exact ⟨moved,seq⟩

lemma rotateIfNeeded_forward (present : w.gen < w.dir.firstMissing) (outs : List Outcome) (add_bytes : Nat) :
    Forward w (w.rotateIfNeeded outs add_bytes).1 ∧ (w.rotateIfNeeded outs add_bytes).1.seq = w.seq := by
  unfold rotateIfNeeded
  split
  · exact ⟨.refl present,rfl⟩
  · let turned : Wal := {w with
      gen := w.gen + 1
      bytes_in_seg := 0
      dir := w.dir.setFile (w.gen + 1) (some ((w.dir.file (w.gen + 1)).getD []))}
    obtain ⟨files,reached⟩ := firstMissing_setFile ((w.dir.file (w.gen + 1)).getD []) present
    have begun : Forward w turned := ⟨Nat.le_succ _,files,reached,rfl⟩
    obtain ⟨moved,seq⟩ := appendFile_forward (w := turned) (Nat.le_of_lt reached) outs walFileHeader
    simp only
    split
    · exact ⟨begun.trans ⟨moved.gen,moved.files,moved.present,moved.cipher⟩,seq⟩
    · exact ⟨begun.trans moved,seq⟩

lemma writeOut_forward (present : w.gen < w.dir.firstMissing) (outs : List Outcome) (total : Nat) (pieces : List Bytes) :
    Forward w (w.writeOut outs total pieces w.seq).1 ∧ (w.writeOut outs total pieces w.seq).1.seq = w.seq := by
  obtain ⟨turned,seq⟩ := rotateIfNeeded_forward present outs total
  obtain ⟨written,seq'⟩ := appendIovecs_forward (w := {(w.rotateIfNeeded outs total).1 with seq := w.seq})
    turned.present (w.rotateIfNeeded outs total).2.1 pieces
  rw [writeOut_eq]
  simp only
  split
  · have both : Forward w (appendIovecs {(w.rotateIfNeeded outs total).1 with seq := w.seq}
        (w.rotateIfNeeded outs total).2.1 pieces).1 :=
      turned.trans ⟨written.gen,written.files,written.present,written.cipher⟩
    split
    · exact ⟨⟨both.gen,both.files,both.present,both.cipher⟩,seq'⟩
    · exact ⟨both,seq'⟩
  · exact ⟨turned,seq⟩

lemma appendRecord_forward (present : w.gen < w.dir.firstMissing) (outs : List Outcome) (plain : UInt64 → Bytes) :
    Forward w (w.appendRecord outs plain).1 ∧ (w.appendRecord outs plain).1.seq = w.seq + 1 := by
  obtain ⟨total,pieces,writes⟩ : ∃ total pieces, w.appendRecord outs plain =
      {w with seq := w.seq + 1}.writeOut outs total pieces (w.seq + 1) := by
    unfold appendRecord
    exact ⟨_,_,rfl⟩
  obtain ⟨moved,seq⟩ := writeOut_forward (w := {w with seq := w.seq + 1}) present outs total pieces
  rw [writes]
  exact ⟨⟨moved.gen,moved.files,moved.present,moved.cipher⟩,seq⟩

lemma appendPut_forward (present : w.gen < w.dir.firstMissing) (outs : List Outcome) (id : VectorId) (vec : Vec) (md : Metadata) :
    Forward w (w.appendPut outs id vec md).1 ∧ (w.appendPut outs id vec md).1.seq = w.seq + 1 := by
  rw [appendPut]
  exact appendRecord_forward present outs _

lemma openLog_forward (w : Wal) (outs : List Outcome) :
    (w.openLog outs).1.gen = w.dir.firstMissing ∧ w.dir.firstMissing ≤ (w.openLog outs).1.dir.firstMissing ∧
      (w.openLog outs).1.seq = w.seq ∧ (w.openLog outs).1.cipher = w.cipher ∧
      ((w.openLog outs).2.ok = true → (w.openLog outs).1.gen < (w.openLog outs).1.dir.firstMissing) := by
  let file := (w.dir.file w.dir.firstMissing).getD []
  let opened : Wal := {w with gen := w.dir.firstMissing, dir := w.dir.setFile w.dir.firstMissing (some file)}
  obtain ⟨files,present⟩ := firstMissing_setFile file (Nat.le_refl w.dir.firstMissing)
  obtain ⟨moved,seq⟩ := appendFile_forward (w := opened) (Nat.le_of_lt present) outs walFileHeader
  have same : (opened.appendFile outs walFileHeader).1.gen = w.dir.firstMissing := by
    unfold appendFile
    split <;> rfl
  have grown := Nat.le_trans files moved.files
  simp only [openLog]
  split
  · split
    · split
      · exact ⟨same,grown,seq,moved.cipher,fun _ => moved.present⟩
      · exact ⟨same,grown,seq,moved.cipher,fun _ => moved.present⟩
    · exact ⟨rfl,files,rfl,rfl,fun _ => present⟩
  · next failed =>
    grind

/-- The frame loop up to where it ends or gives up: what it has applied and the number it
has reached stay, also when `ReplayInto` returns an error. -/
def reachedFrames (cipher : Option Cipher) : Nat → Bytes → MemTable × UInt64 → MemTable × UInt64
  | 0,_,state => state
  | fuel + 1,rest,state =>
    match nextBody rest with
    | none => state
    | some body =>
      match (openBody cipher body).bind fun payload =>
          (applyPayload payload state.1).map fun mem => (mem,laterSeq state.2 payload) with
      | .error _ => state
      | .ok next => reachedFrames cipher fuel (rest.drop (4 + body.length)) next

def reachedFile (cipher : Option Cipher) (file : Bytes) (state : MemTable × UInt64) : MemTable × UInt64 :=
  match framesOffset file with
  | .error _ => state
  | .ok off => reachedFrames cipher file.length (file.drop off) state

def reachedDir (cipher : Option Cipher) : WalDir → MemTable × UInt64 → MemTable × UInt64
  | some file :: rest,state =>
    match replayFile cipher file state with
    | .error _ => reachedFile cipher file state
    | .ok next => reachedDir cipher rest next
  | _,state => state

def reachedInto (w : Wal) (mem : MemTable) : MemTable × UInt64 := reachedDir w.cipher w.dir (mem,w.seq)

/-- A log object over time; it is written to only while its last `Open` has succeeded. -/
structure Session where
  wal : Wal
  opened : Bool

/-- What can happen to a log: a call whose appends may fail, a replay into a memtable, the
object being replaced by a new one on the same directory, and a reset. -/
inductive SessionStep
  | append (outs : List Outcome) (c : Call)
  | replay (mem : MemTable)
  | reopen
  | reset

namespace Session

def step (s : Session) : SessionStep → Session
  | .append outs c => if s.opened then ⟨(s.wal.call outs c).1,true⟩ else s
  | .replay mem => {s with wal := {s.wal with seq := (s.wal.reachedInto mem).2}}
  | .reopen => ⟨s.wal.reopen.1,s.wal.reopen.2.ok⟩
  | .reset => ⟨s.wal.reset.1,s.wal.reset.2.ok⟩

def sealsNow (s : Session) : SessionStep → List Sealing
  | .append outs c => if s.opened then s.wal.sealedBy outs c else []
  | _ => []

def seals (s : Session) : List SessionStep → List Sealing
  | [] => []
  | now :: rest => s.sealsNow now ++ (s.step now).seals rest

/-- A step that keeps the nonces apart, after the records `used`. The log is not reset once
a record has been encrypted. A replay reads no number that was never given. An append is
made in one of the first 256 generations, or on a log whose number has caught up with
every record encrypted so far. -/
def Careful (s : Session) (used : List Sealing) : SessionStep → Prop
  | .append outs c => (∀ u ∈ used, u.seq.toNat ≤ s.wal.seq.toNat) ∨ ∀ u ∈ s.sealsNow (.append outs c), u.gen < 256
  | .replay mem => (s.wal.reachedInto mem).2.toNat ≤ used.length
  | .reopen => True
  | .reset => used = []

def CarefulRun (s : Session) (used : List Sealing) : List SessionStep → Prop
  | [] => True
  | now :: rest => s.Careful used now ∧ (s.step now).CarefulRun (used ++ s.sealsNow now) rest

instance (s : Session) (used : List Sealing) : (now : SessionStep) → Decidable (s.Careful used now)
  | .append outs c => inferInstanceAs (Decidable ((∀ u ∈ used, u.seq.toNat ≤ s.wal.seq.toNat) ∨
      ∀ u ∈ s.sealsNow (.append outs c), u.gen < 256))
  | .replay mem => inferInstanceAs (Decidable ((s.wal.reachedInto mem).2.toNat ≤ used.length))
  | .reopen => .isTrue trivial
  | .reset => inferInstanceAs (Decidable (used = []))

instance decideCarefulRun (s : Session) (used : List Sealing) : (steps : List SessionStep) → Decidable (s.CarefulRun used steps)
  | [] => .isTrue trivial
  | now :: rest =>
    have := decideCarefulRun (s.step now) (used ++ s.sealsNow now) rest
    inferInstanceAs (Decidable (s.Careful used now ∧ (s.step now).CarefulRun (used ++ s.sealsNow now) rest))

def shown (u : Sealing) : UInt64 × Nat := (u.seq,u.gen % 256)

/-- What holds between two steps: the records so far show different pairs, their files are
all there, and an opened log is behind each of them in its generation. -/
structure Apart (s : Session) (used : List Sealing) : Prop where
  keyed : s.wal.cipher.isSome = true
  distinct : (used.map shown).Nodup
  counted : s.wal.seq.toNat ≤ used.length
  numbers : ∀ u ∈ used, u.seq.toNat ≤ used.length
  files : ∀ u ∈ used, u.gen < s.wal.dir.firstMissing
  present : s.opened = true → s.wal.gen < s.wal.dir.firstMissing
  behind : s.opened = true → ∀ u ∈ used, u.gen ≤ s.wal.gen ∧ (u.gen = s.wal.gen → u.seq.toNat ≤ s.wal.seq.toNat)

namespace Apart
variable {w : Wal} {used : List Sealing}

lemma next (apart : Apart ⟨w,true⟩ used) (few : used.length + 1 < 2 ^ 56) : (w.seq + 1).toNat = w.seq.toNat + 1 := by
  have counted : w.seq.toNat ≤ used.length := apart.counted
  rw [UInt64.toNat_add]
  exact Nat.mod_eq_of_lt (by simp only [UInt64.toNat_one]; omega)

lemma record (apart : Apart ⟨w,true⟩ used) (moved : Forward w w') (seq : w'.seq = w.seq + 1)
    (few : used.length + 1 < 2 ^ 56) (careful : (∀ u ∈ used, u.seq.toNat ≤ w.seq.toNat) ∨ w.gen < 256) :
    Apart ⟨w',true⟩ (used ++ [w.nextSealing]) := by
  have counted : w.seq.toNat ≤ used.length := apart.counted
  have next := apart.next few
  have fresh : shown w.nextSealing ∉ used.map shown := by
    intro member
    obtain ⟨u,earlier,same⟩ := mem_map.mp member
    obtain ⟨number,generation⟩ := Prod.mk.inj same
    have above : u.seq.toNat = w.seq.toNat + 1 := by rw [number,nextSealing,next]
    rcases careful with caught | low
    · have := caught u earlier
      omega
    · have behind : u.gen ≤ w.gen ∧ (u.gen = w.gen → u.seq.toNat ≤ w.seq.toNat) := apart.behind rfl u earlier
      have gens : u.gen % 256 = w.gen % 256 := generation
      have := behind.2 (by omega)
      omega
  constructor
  · exact moved.cipher ▸ apart.keyed
  · rw [map_append,nodup_append]
    exact ⟨apart.distinct,nodup_singleton _,fun a member b last same =>
      fresh (by rwa [← mem_singleton.mp last,← same])⟩
  · grind
  · intro u member
    simp only [length_append,length_singleton]
    rcases mem_append.mp member with earlier | last
    · have := apart.numbers u earlier
      omega
    · rw [mem_singleton.mp last,nextSealing,next]
      omega
  · intro u member
    rcases mem_append.mp member with earlier | last
    · exact Nat.lt_of_lt_of_le (apart.files u earlier) moved.files
    · rw [mem_singleton.mp last]
      exact Nat.lt_of_lt_of_le (apart.present rfl) moved.files
  · exact fun _ => moved.present
  · intro _ u member
    rw [seq,next]
    rcases mem_append.mp member with earlier | last
    · have behind : u.gen ≤ w.gen ∧ (u.gen = w.gen → u.seq.toNat ≤ w.seq.toNat) := apart.behind rfl u earlier
      refine ⟨Nat.le_trans behind.1 moved.gen,fun here => ?_⟩
      -- a record of the generation the log is in now was behind the log before
      have le := moved.gen
      grind
    · rw [mem_singleton.mp last]
      exact ⟨moved.gen,fun _ => by rw [nextSealing,next]⟩

lemma puts (apart : Apart ⟨w,true⟩ used) (few : used.length + (w.sealedPuts outs items).length < 2 ^ 56)
    (careful : (∀ u ∈ used, u.seq.toNat ≤ w.seq.toNat) ∨ ∀ u ∈ w.sealedPuts outs items, u.gen < 256) :
    Apart ⟨(w.appendPuts outs items).1,true⟩ (used ++ w.sealedPuts outs items) := by
  induction items generalizing w outs used with
  | nil => simpa [sealedPuts,appendPuts] using apart
  | cons item rest ih =>
    simp only [sealedPuts,appendPuts,length_cons,mem_cons,forall_eq_or_imp] at few careful ⊢
    obtain ⟨moved,seq⟩ := appendPut_forward (apart.present rfl) outs item.1 item.2 {}
    have one : Apart ⟨(w.appendPut outs item.1 item.2 {}).1,true⟩ (used ++ [w.nextSealing]) :=
      apart.record moved seq (by omega) (careful.imp_right And.left)
    split
    · next ok =>
      simp only [ok,if_true] at few careful
      have next := apart.next (by omega)
      have caughtUp (caught : ∀ u ∈ used, u.seq.toNat ≤ w.seq.toNat) (u : Sealing) (member : u ∈ used ++ [w.nextSealing]) :
          u.seq.toNat ≤ (w.appendPut outs item.1 item.2 {}).1.seq.toNat := by
        grind [next,Nat.le_succ_of_le,nextSealing]
      have room : (used ++ [w.nextSealing]).length + ((w.appendPut outs item.1 item.2 {}).1.sealedPuts
          (w.appendPut outs item.1 item.2 {}).2.1 rest).length < 2 ^ 56 := by
        grind
      have later := ih one room (careful.imp caughtUp And.right)
      rw [append_assoc] at later
      exact later
    · exact one

lemma call (apart : Apart ⟨w,true⟩ used) (few : used.length + (w.sealedBy outs c).length < 2 ^ 56)
    (careful : (∀ u ∈ used, u.seq.toNat ≤ w.seq.toNat) ∨ ∀ u ∈ w.sealedBy outs c, u.gen < 256) :
    Apart ⟨(w.call outs c).1,true⟩ (used ++ w.sealedBy outs c) := by
  have single (plain : UInt64 → Bytes) (few : used.length + [w.nextSealing].length < 2 ^ 56)
      (careful : (∀ u ∈ used, u.seq.toNat ≤ w.seq.toNat) ∨ ∀ u ∈ [w.nextSealing], u.gen < 256) :
      Apart ⟨(w.appendRecord outs plain).1,true⟩ (used ++ [w.nextSealing]) := by
    obtain ⟨moved,seq⟩ := appendRecord_forward (w := w) (apart.present rfl) outs plain
    exact apart.record moved seq few (careful.imp_right fun low => low _ (.head _))
  cases c with
  | put id vec md =>
    simp only [Wal.call,appendPut,sealedBy] at few careful ⊢
    exact single _ few careful
  | del id =>
    grind [Wal.call,appendDelete,sealedBy]
  | rawKV op key value =>
    grind [Wal.call,appendRawKV,sealedBy]
  | batch ids vectors =>
    have keyed : w.cipher.isSome = true := apart.keyed
    simp only [sealedBy,Wal.call,appendBatch] at few careful ⊢
    split
    · simpa using apart
    · next lengths =>
      simp only [lengths,if_false] at few careful
      split
      · next empty =>
        rw [isEmpty_iff.mp empty]
        simpa [sealedPuts] using apart
      · exact apart.puts few careful

end Apart

lemma laterSeq_le (seq : UInt64) (payload : Bytes) : seq.toNat ≤ (laterSeq seq payload).toNat := by
  simp only [laterSeq]
  split
  · next above => exact Nat.le_of_lt (UInt64.lt_iff_toNat_lt.mp above)
  · exact Nat.le_refl _

lemma reachedFrames_le (cipher : Option Cipher) (fuel : Nat) (rest : Bytes) (state : MemTable × UInt64) :
    state.2.toNat ≤ (reachedFrames cipher fuel rest state).2.toNat := by
  induction fuel generalizing rest state with
  | zero => exact Nat.le_refl _
  | succ fuel ih =>
    rw [reachedFrames]
    split
    · exact Nat.le_refl _
    · split
      · exact Nat.le_refl _
      · next body _ next read =>
        obtain ⟨payload,_,applied⟩ := bind_eq_ok read
        cases put : applyPayload payload state.1 with
        | error st => simp [put,Except.map] at applied
        | ok mem =>
          grind [laterSeq,Except.map,Nat.le_trans,laterSeq_le]

lemma reachedFile_le (cipher : Option Cipher) (file : Bytes) (state : MemTable × UInt64) :
    state.2.toNat ≤ (reachedFile cipher file state).2.toNat := by
  unfold reachedFile
  split
  · exact Nat.le_refl _
  · exact reachedFrames_le ..

lemma reachedFrames_ok {cipher : Option Cipher} {fuel : Nat} {rest : Bytes} {state next : MemTable × UInt64}
    (replayed : replayFrames cipher fuel rest state = .ok next) : reachedFrames cipher fuel rest state = next := by
  induction fuel generalizing rest state with
  | zero => exact Except.ok.inj replayed
  | succ fuel ih =>
    rw [replayFrames] at replayed
    rw [reachedFrames]
    cases body : nextBody rest with
    | none =>
      rw [body] at replayed
      exact Except.ok.inj replayed
    | some body =>
      simp only [body] at replayed
      obtain ⟨payload,opened,more⟩ := bind_eq_ok replayed
      obtain ⟨mem,applied,later⟩ := bind_eq_ok more
      simp only [opened,applied,Except.bind,Except.map]
      exact ih later

lemma reachedDir_le (cipher : Option Cipher) (dir : WalDir) (state : MemTable × UInt64) :
    state.2.toNat ≤ (reachedDir cipher dir state).2.toNat := by
  induction dir generalizing state with
  | nil => exact Nat.le_refl _
  | cons file rest ih =>
    cases file with
    | none => exact Nat.le_refl _
    | some file =>
      rw [reachedDir]
      cases read : replayFile cipher file state with
      | error st => exact reachedFile_le cipher file state
      | ok next =>
        obtain ⟨off,offset,frames⟩ := bind_eq_ok read
        have reached := reachedFrames_le cipher file.length (file.drop off) state
        rw [reachedFrames_ok frames] at reached
        exact Nat.le_trans reached (ih next)

lemma Apart.step (apart : Apart s used) (careful : s.Careful used now) (few : used.length + (s.sealsNow now).length < 2 ^ 56) :
    Apart (s.step now) (used ++ s.sealsNow now) := by
  obtain ⟨w,opened⟩ := s
  cases now with
  | append outs c =>
    cases opened with
    | false => simpa [Session.step,sealsNow] using apart
    | true => exact apart.call few careful
  | replay mem =>
    have caught : w.seq.toNat ≤ (w.reachedInto mem).2.toNat := reachedDir_le w.cipher w.dir (mem,w.seq)
    simp only [sealsNow,append_nil]
    refine ⟨apart.keyed,apart.distinct,careful,apart.numbers,apart.files,apart.present,fun live u member => ?_⟩
    obtain ⟨le,at_⟩ := apart.behind live u member
    exact ⟨le,fun same => Nat.le_trans (at_ same) caught⟩
  | reopen =>
    obtain ⟨gen,files,seq,cipher,present⟩ := openLog_forward w.constructed []
    simp only [sealsNow,append_nil]
    refine ⟨?_,apart.distinct,?_,apart.numbers,fun u member => Nat.lt_of_lt_of_le (apart.files u member) files,
      present,fun _ u member => ?_⟩
    · exact (congrArg Option.isSome cipher).trans apart.keyed
    · have zero : (Session.step ⟨w,opened⟩ .reopen).wal.seq = 0 := seq
      rw [zero]
      exact Nat.zero_le _
    · -- every earlier record lies in a generation that has a file, and the log is now in one that had none
      have below : u.gen < w.dir.firstMissing := apart.files u member
      have here : (Session.step ⟨w,opened⟩ .reopen).wal.gen = w.dir.firstMissing := gen
      omega
  | reset =>
    obtain rfl : used = [] := careful
    obtain ⟨gen,files,seq,cipher,present⟩ :=
      openLog_forward {w with dir := w.resetCut w.dir.length, gen := 0, seq := 0, bytes_in_seg := 0} []
    simp only [sealsNow,append_nil]
    refine ⟨?_,nodup_nil,?_,by simp,by simp,present,by simp⟩
    · exact (congrArg Option.isSome cipher).trans apart.keyed
    · have zero : (Session.step ⟨w,opened⟩ .reset).wal.seq = 0 := seq
      rw [zero]
      exact Nat.zero_le _

lemma Apart.run {s : Session} {used : List Sealing} {steps : List SessionStep} (apart : Apart s used)
    (careful : s.CarefulRun used steps) (few : used.length + (s.seals steps).length < 2 ^ 56) :
    ((used ++ s.seals steps).map shown).Nodup ∧ ∀ u ∈ used ++ s.seals steps, u.seq.toNat ≤ (used ++ s.seals steps).length := by
  induction steps generalizing s used with
  | nil => simpa [seals] using ⟨apart.distinct,apart.numbers⟩
  | cons now rest ih =>
    simp only [seals,length_append] at few
    have next := apart.step careful.1 (by omega)
    have later := ih next careful.2 (by simp only [length_append]; omega)
    rw [append_assoc] at later
    exact later

end Session

/-- Of fewer than 2^56 records that a careful run of an encrypted log encrypts, no two are
encrypted under the same nonce. -/
theorem nonces_distinct (segment_bytes : Nat) (shard_id : UInt32) (cipher : Cipher) (steps : List SessionStep)
    (careful : Session.CarefulRun ⟨fresh segment_bytes shard_id (some cipher),true⟩ [] steps)
    (few : (Session.seals ⟨fresh segment_bytes shard_id (some cipher),true⟩ steps).length < 2 ^ 56) :
    ((Session.seals ⟨fresh segment_bytes shard_id (some cipher),true⟩ steps).map Sealing.nonce).Nodup := by
  have begun : Session.Apart ⟨fresh segment_bytes shard_id (some cipher),true⟩ [] :=
    ⟨rfl,nodup_nil,Nat.zero_le _,by simp,by simp,fun _ => Nat.one_pos,by simp⟩
  obtain ⟨distinct,numbers⟩ := begun.run careful (by simpa using few)
  rw [nil_append] at distinct numbers
  refine List.Nodup.map_on ?_ (List.Nodup.of_map _ distinct)
  intro u inside v member same
  obtain ⟨seq,gen⟩ := nonce_inj (Nat.lt_of_le_of_lt (numbers u inside) few) (Nat.lt_of_le_of_lt (numbers v member) few) same
  exact inj_on_of_nodup_map distinct inside member (Prod.ext seq gen)

def identityCipher : Cipher where
  encrypt _ plain := (plain,replicate 16 0)
  decrypt _ cipher _ := .ok cipher
  cipher_length _ _ := rfl
  tag_length _ _ := rfl
  decrypt_encrypt _ _ := rfl

def carefulSteps : List SessionStep :=
  [.append [] (.put 1 [5] {}),.reopen,.replay (MemTable.create Platform.plain 1 false),
    .append [] (.batch [2,3] [[6],[7]]),.reopen,.append [] (.del 1)]

theorem nonces_distinct_reopened :
    let seals := Session.seals ⟨fresh 1000 7 (some identityCipher),true⟩ carefulSteps
    seals.map (fun u => (u.seq,u.gen)) = [(1,0),(2,1),(3,1),(1,2)] ∧ (seals.map Sealing.nonce).Nodup := by
  refine ⟨by decide +kernel,?_⟩
  exact nonces_distinct 1000 7 identityCipher carefulSteps (by decide +kernel) (by decide +kernel)

/-- `Reset` starts the numbers and the generations again: the two puts share their nonce. -/
theorem nonce_reused :
    let seals := Session.seals ⟨fresh 1000 7 (some identityCipher),true⟩
      [.append [] (.put 1 [5] {}),.reset,.append [] (.put 1 [6] {})]
    seals.map (fun u => (u.seq,u.gen)) = [(1,0),(1,0)] ∧ ¬ (seals.map Sealing.nonce).Nodup := by
  decide +kernel

end PomaiCache.Wal
