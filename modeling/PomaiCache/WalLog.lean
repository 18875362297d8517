import PomaiCache.WalRecords

/-!
The log as the sequence of its records. Appends write to the file of the current generation,
with any short write on the way; rotation starts the next one.
-/
namespace PomaiCache.Wal
open Codec List

lemma file_append (older rest : WalDir) : WalDir.file (older ++ rest) older.length = rest.headD none := by
  cases rest <;> simp [WalDir.file]

lemma setFile_append (older rest : WalDir) (f : Option Bytes) :
    WalDir.setFile (older ++ rest) older.length f = older ++ f :: rest.tail := by
  induction older with
  | nil => cases rest <;> rfl
  | cons first older ih => simp [WalDir.setFile,ih]

/-- The directory around the current file: the generations before it, its content
and the generations behind it. -/
structure Place where
  older : WalDir
  content : Bytes
  rest : WalDir

namespace Place

def stale (p : Place) : Bytes := (p.rest.headD none).getD []

def write (p : Place) (data : Bytes) : Place := {p with content := p.content ++ data}

def next (p : Place) : Place := ⟨p.older ++ [some p.content],p.stale,p.rest.tail⟩

end Place

structure At (w : Wal) (p : Place) : Prop where
  dir : w.dir = p.older ++ some p.content :: p.rest
  gen : w.gen = p.older.length

/-- The members a write to the current file does not change. -/
structure Keeps (w result : Wal) : Prop where
  segment_bytes : result.segment_bytes = w.segment_bytes
  shard_id : result.shard_id = w.shard_id
  cipher : result.cipher = w.cipher
  seq : result.seq = w.seq

lemma Keeps.refl (w : Wal) : Keeps w w := ⟨rfl,rfl,rfl,rfl⟩

lemma Keeps.trans (first : Keeps a b) (second : Keeps b c) : Keeps a c :=
  ⟨second.segment_bytes.trans first.segment_bytes,second.shard_id.trans first.shard_id,
    second.cipher.trans first.cipher,second.seq.trans first.seq⟩

/-- The next append writes at least its first `n` bytes, whether or not it fails. -/
def wholeWrite (outs : List Outcome) (n : Nat) : Bool :=
  match outs.headD .done with
  | .done => true
  | .stopped written => n ≤ written

variable {p : Place} {dim : UInt32} {cipher : Option Cipher} {outs : List Outcome} {w : Wal} {rs : List Record} {limit : Nat} {flat tail : Bytes} {ok rotated : Bool}

lemma appendFile_spec (here : At w p) (outs : List Outcome) (data : Bytes) :
    ∃ written, At (w.appendFile outs data).1 (p.write (data.take written)) ∧
      ((w.appendFile outs data).2.2.ok = true ∨ wholeWrite outs data.length = true → data.length ≤ written) ∧
      (outs = [] → (w.appendFile outs data).2 = ([],.Ok)) ∧ Keeps w (w.appendFile outs data).1 := by
  have current : w.dir.file w.gen = some p.content := by
    rw [here.dir,here.gen,file_append]
    rfl
  have place (f : Bytes) : w.dir.setFile w.gen (some f) = p.older ++ some f :: p.rest := by
    rw [here.dir,here.gen,setFile_append]
    rfl
  simp only [appendFile,wholeWrite,current,Option.getD_some]
  cases outcome : outs.headD .done with
  | done =>
    refine ⟨data.length,⟨?_,here.gen⟩,fun _ => Nat.le_refl _,?_,⟨rfl,rfl,rfl,rfl⟩⟩
    · rw [take_length]
      exact place _
    · rintro rfl
      rfl
  | stopped written =>
    refine ⟨written,⟨place _,here.gen⟩,by simp,?_,⟨rfl,rfl,rfl,rfl⟩⟩
    rintro rfl
    cases outcome

lemma appendIovecs_spec (here : At w p) (outs : List Outcome) (pieces : List Bytes) :
    ∃ written, At (w.appendIovecs outs pieces).1 (p.write (pieces.flatten.take written)) ∧
      ((w.appendIovecs outs pieces).2.2.ok = true → pieces.flatten.length ≤ written) ∧
      (outs = [] → (w.appendIovecs outs pieces).2 = ([],.Ok)) ∧
      Keeps w (w.appendIovecs outs pieces).1 := by
  induction pieces generalizing w p outs with
  | nil =>
    refine ⟨0,⟨?_,here.gen⟩,fun _ => Nat.le_refl _,?_,Keeps.refl w⟩
    · simpa [appendIovecs,Place.write] using here.dir
    · rintro rfl
      rfl
  | cons data rest ih =>
    by_cases empty : data.length = 0
    · have nothing : data = [] := length_eq_zero_iff.mp empty
      subst nothing
      simpa [appendIovecs] using ih here outs
    · obtain ⟨written,there,whole,clean,keeps⟩ := appendFile_spec here outs data
      simp only [appendIovecs,if_neg empty]
      cases ok : (w.appendFile outs data).2.2.ok with
      | true =>
        obtain ⟨more,final,all,cleanRest,keepsRest⟩ := ih there (w.appendFile outs data).2.1
        simp only [if_true]
        have full := whole (.inl ok)
        refine ⟨data.length + more,?_,?_,?_,keeps.trans keepsRest⟩
        · grind [Place.write,flatten_cons,append_assoc,take_of_length_le,take_length_add_append]
        · grind
        · grind
      | false =>
        simp only [Bool.false_eq_true,if_false]
        refine ⟨min written data.length,?_,?_,?_,keeps⟩
        · grind
        · simp [ok]
        · omega

def rotates (w : Wal) (add_bytes : Nat) : Bool := !decide (w.bytes_in_seg + add_bytes ≤ w.segment_bytes)

/-- A call that may rotate and then appends bytes: where the current file stands
afterwards and what it holds. -/
inductive Appended (flat : Bytes) (p : Place) (outs : List Outcome) (ok : Bool) : Bool → Place → Prop
  | stays (written : Nat) (all : ok = true → flat.length ≤ written) : Appended flat p outs ok false (p.write (flat.take written))
  | rotates (header written : Nat) (begun : ok = true ∨ wholeWrite outs 16 = true → 16 ≤ header)
      (all : ok = true → flat.length ≤ written) :
      Appended flat p outs ok true ((p.next.write (walFileHeader.take header)).write (flat.take written))

lemma At.setCounters (here : At w p) (seq : UInt64) (bytes_in_seg : Nat) :
    At {w with seq := seq, bytes_in_seg := bytes_in_seg} p := ⟨here.dir,here.gen⟩

lemma rotateIfNeeded_stays (fits : w.rotates add = false) (outs : List Outcome) : w.rotateIfNeeded outs add = (w,outs,.Ok) := by
  simp only [rotates,Bool.not_eq_false',decide_eq_true_eq] at fits
  rw [rotateIfNeeded,if_pos fits]

lemma At.next (here : At w p) (gen : opened.gen = w.gen + 1)
    (dir : opened.dir = w.dir.setFile (w.gen + 1) (some ((w.dir.file (w.gen + 1)).getD []))) : At opened p.next := by
  have split : w.dir = (p.older ++ [some p.content]) ++ p.rest := by
    rw [here.dir,append_assoc]
    rfl
  have count : w.gen + 1 = (p.older ++ [some p.content]).length := by
    rw [here.gen,length_append]
    rfl
  refine ⟨?_,gen.trans count⟩
  rw [dir,split,count,file_append,setFile_append]
  rfl

lemma rotateIfNeeded_rotates (here : At w p) (full : w.rotates add = true) (outs : List Outcome) :
    ∃ header, At (w.rotateIfNeeded outs add).1 (p.next.write (walFileHeader.take header)) ∧
      ((w.rotateIfNeeded outs add).2.2.ok = true ∨ wholeWrite outs 16 = true → 16 ≤ header) ∧
      (outs = [] → (w.rotateIfNeeded outs add).2 = ([],.Ok)) ∧
      Keeps w (w.rotateIfNeeded outs add).1 := by
  simp only [rotates,Bool.not_eq_true',decide_eq_false_iff_not] at full
  let opened : Wal := {w with
    gen := w.gen + 1
    bytes_in_seg := 0
    dir := w.dir.setFile (w.gen + 1) (some ((w.dir.file (w.gen + 1)).getD []))}
  have there : At opened p.next := here.next rfl rfl
  obtain ⟨header,final,begun,clean,keeps⟩ := appendFile_spec there outs walFileHeader
  have result : w.rotateIfNeeded outs add = (if (opened.appendFile outs walFileHeader).2.2.ok
        then ({(opened.appendFile outs walFileHeader).1 with bytes_in_seg := 16},(opened.appendFile outs walFileHeader).2.1,.Ok)
        else opened.appendFile outs walFileHeader) := by
    rw [rotateIfNeeded,if_neg full]
  have kept : Keeps w (opened.appendFile outs walFileHeader).1 :=
    ⟨keeps.segment_bytes,keeps.shard_id,keeps.cipher,keeps.seq⟩
  rw [result]
  cases ok : (opened.appendFile outs walFileHeader).2.2.ok with
  | true =>
    simp only [if_true]
    refine ⟨header,⟨final.dir,final.gen⟩,fun _ => begun (.inl ok),?_,⟨kept.segment_bytes,kept.shard_id,kept.cipher,kept.seq⟩⟩
    intro noFault
    rw [clean noFault]
  | false =>
    simp only [Bool.false_eq_true,if_false]
    refine ⟨header,final,?_,?_,kept⟩
    · simp_all
    · intro noFault
      rw [clean noFault] at ok
      simp at ok

lemma Place.write_nil (p : Place) : p.write [] = p := by
  simp [Place.write]

lemma writeOut_eq (w : Wal) (outs : List Outcome) (total : Nat) (pieces : List Bytes) (seq : UInt64) :
    w.writeOut outs total pieces seq =
      let turned := w.rotateIfNeeded outs total
      let written := appendIovecs {turned.1 with seq := seq} turned.2.1 pieces
      if turned.2.2.ok then
        if written.2.2.ok then
          ({written.1 with bytes_in_seg := written.1.bytes_in_seg + total},written.2.1,.Ok)
        else written
      else turned := rfl

/-- What an appending call leaves: the current file, the members it keeps, and,
when no append stops short, success. -/
structure Written (w : Wal) (p : Place) (outs : List Outcome) (flat : Bytes) (total : Nat)
    (seq : UInt64) (result : Wal × List Outcome × Status) : Prop where
  place : ∃ q, At result.1 q ∧ Appended flat p outs result.2.2.ok (w.rotates total) q
  clean : outs = [] → result.2 = ([],.Ok)
  seq : result.2.2.ok = true → result.1.seq = seq
  segment_bytes : result.1.segment_bytes = w.segment_bytes
  shard_id : result.1.shard_id = w.shard_id
  cipher : result.1.cipher = w.cipher

lemma writeOut_of_turned {w turned : Wal} {p q : Place} {outs left : List Outcome} {total : Nat}
    {pieces : List Bytes} {seq : UInt64} {st : Status}
    (rotated : w.rotateIfNeeded outs total = (turned,left,st)) (succeeded : st.ok = true)
    (there : At turned q) (none_left : outs = [] → left = []) (keeps : Keeps w turned)
    (place : ∀ written ok, (ok = true → pieces.flatten.length ≤ written) →
      Appended pieces.flatten p outs ok (w.rotates total) (q.write (pieces.flatten.take written))) :
    Written w p outs pieces.flatten total seq (w.writeOut outs total pieces seq) := by
  obtain ⟨count,final,all,clean,kept⟩ :=
    appendIovecs_spec (there.setCounters seq turned.bytes_in_seg) left pieces
  rw [writeOut_eq]
  simp only [rotated,succeeded,if_true]
  cases ok : (appendIovecs {turned with seq := seq} left pieces).2.2.ok with
  | true =>
    simp only [if_true]
    refine ⟨⟨_,⟨final.dir,final.gen⟩,place count _ fun _ => all ok⟩,?_,fun _ => kept.seq,
      kept.segment_bytes.trans keeps.segment_bytes,kept.shard_id.trans keeps.shard_id,
      kept.cipher.trans keeps.cipher⟩
    intro noFault
    rw [clean (none_left noFault)]
  | false =>
    simp only [Bool.false_eq_true,if_false]
    refine ⟨⟨_,final,place count _ all⟩,fun noFault => clean (none_left noFault),fun done => ?_,
      kept.segment_bytes.trans keeps.segment_bytes,kept.shard_id.trans keeps.shard_id,
      kept.cipher.trans keeps.cipher⟩
    rw [ok] at done
    cases done

lemma writeOut_spec (here : At w p) (outs : List Outcome) (total : Nat) (pieces : List Bytes) (seq : UInt64) :
    Written w p outs pieces.flatten total seq (w.writeOut outs total pieces seq) := by
  cases full : w.rotates total with
  | false =>
    refine writeOut_of_turned (rotateIfNeeded_stays full outs) Status.ok_Ok here id (Keeps.refl w) ?_
    intro written ok all
    rw [full]
    exact .stays written all
  | true =>
    obtain ⟨header,opened,begun,clean,keeps⟩ := rotateIfNeeded_rotates here full outs
    rcases turned : w.rotateIfNeeded outs total with ⟨result,left,st⟩
    rw [turned] at opened begun clean keeps
    cases ok : st.ok with
    | true =>
      refine writeOut_of_turned turned ok opened (fun noFault => congrArg Prod.fst (clean noFault)) keeps ?_
      intro written done all
      rw [full]
      exact .rotates header written (fun _ => begun (.inl ok)) all
    | false =>
      rw [writeOut_eq]
      simp only [turned,ok,Bool.false_eq_true,if_false]
      refine ⟨⟨_,opened,?_⟩,clean,?_,keeps.segment_bytes,keeps.shard_id,keeps.cipher⟩
      · have wrote : Appended pieces.flatten p outs st.ok true
            ((p.next.write (walFileHeader.take header)).write (pieces.flatten.take 0)) :=
          .rotates header 0 begun (by simp [ok])
        rw [take_zero,Place.write_nil] at wrote
        rw [full]
        exact wrote
      · intro done
        rw [ok] at done
        cases done

def nextRecordBody (w : Wal) (plain : UInt64 → Bytes) : Bytes :=
  bodyOf {w with seq := w.seq + 1} (w.seq + 1) (plain (w.seq + 1))

lemma appendRecord_spec (here : At w p) (outs : List Outcome)
    {plain : UInt64 → Bytes} (short : (w.nextRecordBody plain).length + 4 < 2 ^ 32) :
    Written w p outs (frame (w.nextRecordBody plain)) (frame (w.nextRecordBody plain)).length
      (w.seq + 1) (w.appendRecord outs plain) := by
  have exactly : (UInt32.ofNat ((w.nextRecordBody plain).length + 4)).toNat = (w.nextRecordBody plain).length + 4 := by
    rw [UInt32.toNat_ofNat',Nat.mod_eq_of_lt short]
  have result : w.appendRecord outs plain = writeOut {w with seq := w.seq + 1} outs (frame (w.nextRecordBody plain)).length
      [le 4 ((w.nextRecordBody plain).length + 4),w.nextRecordBody plain,
        le 4 (crc32c (w.nextRecordBody plain) 0).toNat] (w.seq + 1) := by
    rw [frame_length,← exactly]
    rfl
  have flat : [le 4 ((w.nextRecordBody plain).length + 4),w.nextRecordBody plain,
      le 4 (crc32c (w.nextRecordBody plain) 0).toNat].flatten = frame (w.nextRecordBody plain) := by
    simp [frame]
  have written := writeOut_spec (here.setCounters (w.seq + 1) w.bytes_in_seg) outs (frame (w.nextRecordBody plain)).length
    [le 4 ((w.nextRecordBody plain).length + 4),w.nextRecordBody plain,le 4 (crc32c (w.nextRecordBody plain) 0).toNat] (w.seq + 1)
  rw [flat] at written
  rw [result]
  exact ⟨written.place,written.clean,written.seq,written.segment_bytes,written.shard_id,written.cipher⟩

def overhead (cipher : Option Cipher) : Nat := if cipher.isSome then 28 else 0

@[simp] lemma makeNonce_length (shard_id : UInt32) (seq : UInt64) (gen : Nat) : (makeNonce shard_id seq gen).length = 12 := by
  simp [makeNonce]

lemma bodyOf_length (w : Wal) (seq : UInt64) (plain : Bytes) : (w.bodyOf seq plain).length = plain.length + overhead w.cipher := by
  unfold bodyOf overhead
  cases w.cipher with
  | none => simp
  | some c =>
    simp only [length_append,makeNonce_length,c.cipher_length,c.tag_length,Option.isSome_some,if_true]
    omega

lemma decryptBody_bodyOf (w : Wal) (seq : UInt64) (plain : Bytes) : decryptBody w.cipher (w.bodyOf seq plain) = .ok plain := by
  unfold bodyOf decryptBody
  cases w.cipher with
  | none => rfl
  | some c =>
    simp only
    generalize nonceIs : makeNonce w.shard_id seq w.gen = nonce
    have nonceLength : nonce.length = 12 := by rw [← nonceIs,makeNonce_length]
    have textLength := c.cipher_length nonce plain
    have tagLength := c.tag_length nonce plain
    have whole : (nonce ++ (c.encrypt nonce plain).1 ++ (c.encrypt nonce plain).2).length = 12 + plain.length + 16 := by
      grind
    have left : 12 + plain.length + 16 - 12 - 16 = plain.length := by omega
    rw [whole,if_neg (by omega),left]
    simp only [append_assoc,slice_front nonceLength]
    rw [slice_behind (by omega),nonceLength,slice_front textLength,slice_behind (by omega),slice_behind (by omega),nonceLength,
      textLength,Nat.add_sub_cancel_left,Nat.sub_self,slice_all tagLength]
    exact c.decrypt_encrypt nonce plain

lemma sealed_bodyOf (w : Wal) (seq : UInt64) {r : Record}
    (short : r.payload.length + overhead w.cipher + 4 < 2 ^ 32) : Sealed w.cipher r (w.bodyOf seq r.payload) := by
  have record := r.payload_length
  refine ⟨decryptBody_bodyOf w seq r.payload,?_,?_⟩
  · rw [bodyOf_length]
    omega
  · rw [bodyOf_length]
    exact short

def Closed (cipher : Option Cipher) (dim : UInt32) (rs : List Record) (file : Bytes) : Prop :=
  ∃ bytes tail, Frames cipher dim rs bytes ∧ nextBody tail = none ∧ file = walFileHeader ++ (bytes ++ tail)

/-- The log up to the current file holds these records, and the current file ends
in this incomplete tail. -/
structure Held (cipher : Option Cipher) (dim : UInt32) (p : Place) (rs : List Record)
    (tail : Bytes) : Prop where
  split : ∃ recss files current bytes, List.Forall₂ (Closed cipher dim) recss files ∧
    p.older = files.map some ∧ Frames cipher dim current bytes ∧
    p.content = walFileHeader ++ (bytes ++ tail) ∧ rs = recss.flatten ++ current
  torn : nextBody tail = none

lemma Held.write (held : Held cipher dim p rs []) (frames : Frames cipher dim new flat)
    (torn : nextBody tail = none) : Held cipher dim (p.write (flat ++ tail)) (rs ++ new) tail := by
  obtain ⟨⟨recss,files,current,bytes,closed,older,here,content,same⟩,_⟩ := held
  refine ⟨⟨recss,files,current ++ new,bytes ++ flat,closed,older,here.append frames,?_,?_⟩,torn⟩
  · simp [Place.write,content]
  · rw [same,append_assoc]

lemma Held.next (held : Held cipher dim p rs tail) (fresh : p.stale = []) : Held cipher dim (p.next.write walFileHeader) rs [] := by
  obtain ⟨⟨recss,files,current,bytes,closed,older,here,content,same⟩,torn⟩ := held
  refine ⟨⟨recss ++ [current],files ++ [p.content],[],[],?_,?_,.nil,?_,?_⟩,nextBody_nil⟩
  · exact rel_append closed (.cons ⟨bytes,tail,here,torn,content⟩ .nil)
  · simp [Place.next,Place.write,older]
  · simp [Place.next,Place.write,fresh]
  · simp [same]

lemma Frames.take (frames : Frames cipher dim rs flat) (cut : Nat) : ∃ whole bytes tail,
      flat.take cut = bytes ++ tail ∧ Frames cipher dim whole bytes ∧ nextBody tail = none ∧
      whole <+: rs ∧ (flat.length ≤ cut → whole = rs ∧ tail = []) := by
  induction frames generalizing cut with
  | nil => exact ⟨[],[],[],by simp,.nil,nextBody_nil,prefix_rfl,fun _ => ⟨rfl,rfl⟩⟩
  | cons fits carries more ih =>
    rename_i r body rs bytes
    by_cases inside : (frame body).length ≤ cut
    · obtain ⟨whole,part,tail,split,parts,torn,begins,all⟩ := ih (cut - (frame body).length)
      refine ⟨r :: whole,frame body ++ part,tail,?_,.cons fits carries parts,torn,?_,?_⟩
      · rw [take_append,take_of_length_le inside,split,append_assoc]
      · exact cons_prefix_cons.mpr ⟨rfl,begins⟩
      · grind
    · refine ⟨[],[],(frame body).take cut,?_,.nil,?_, nil_prefix,?_⟩
      · rw [nil_append,take_append_of_le_length (by omega)]
      · exact nextBody_take_frame carries.short (by omega)
      · intro enough
        rw [length_append] at enough
        omega

/-- No file stands between the current generation and the limit. -/
def Vacant (limit : Nat) (p : Place) : Prop :=
  ∀ i, p.older.length + 1 + i < limit → p.rest.getD i none = none

lemma Vacant.stale (vacant : Vacant limit p) (below : p.older.length + 1 < limit) : p.stale = [] := by
  have first := vacant 0 below
  cases split : p.rest with
  | nil => simp [Place.stale,split]
  | cons file rest =>
    grind [getD_cons_zero,Place.stale]

lemma Vacant.next (vacant : Vacant limit p) : Vacant limit p.next := by
  intro i below
  simp only [Place.next,length_append,length_singleton] at below ⊢
  have shifted := vacant (i + 1) (by omega)
  grind

lemma vacant_of_empty (limit : Nat) (last : p.rest = []) : Vacant limit p := by
  intro i _
  simp [last]

lemma Vacant.firstMissing (vacant : Vacant limit p) (below : p.older.length + 1 < limit) : p.rest.firstMissing = 0 := by
  have first := vacant 0 below
  cases split : p.rest with
  | nil => rfl
  | cons file rest =>
    rw [split] at first
    simp only [getD_cons_zero] at first
    rw [first]
    rfl

lemma Appended.older_length (appended : Appended flat p outs ok rotated q) :
    q.older.length = p.older.length + (if rotated then 1 else 0) := by
  cases appended <;> simp [Place.write,Place.next]

lemma Appended.vacant {flat : Bytes} {p q : Place} (appended : Appended flat p outs ok rotated q) (vacant : Vacant limit p) :
    Vacant limit q := by
  cases appended with
  | stays written all => exact vacant
  | rotates header written begun all => exact vacant.next

/-- One appending call on a log: what becomes of its records. The current file
must end in a whole frame unless the call leaves it, and a file the call starts
must be new and get its whole header. -/
lemma Held.appended (held : Held cipher dim p rs tail)
    (frames : Frames cipher dim new flat) (appended : Appended flat p outs ok rotated q) (entire : rotated = false → tail = [])
    (begins : rotated = true → p.stale = [] ∧ (ok = true ∨ wholeWrite outs 16 = true)) :
    ∃ whole left, Held cipher dim q (rs ++ whole) left ∧ whole <+: new ∧ (ok = true → whole = new ∧ left = []) := by
  cases appended with
  | stays written all =>
    obtain ⟨whole,bytes,left,split,parts,torn,begin_,full⟩ := frames.take written
    have clean := entire rfl
    subst clean
    rw [split]
    exact ⟨whole,left,held.write parts torn,begin_,fun done => full (all done)⟩
  | rotates header written begun all =>
    obtain ⟨whole,bytes,left,split,parts,torn,begin_,full⟩ := frames.take written
    obtain ⟨fresh,either⟩ := begins rfl
    have header16 := begun either
    rw [split,take_of_length_le (by simpa using header16)]
    exact ⟨whole,left,(held.next fresh).write parts torn,begin_,fun done => full (all done)⟩

inductive Call
  | put (id : VectorId) (vec : Vec) (md : Metadata)
  | del (id : VectorId)
  | batch (ids : List VectorId) (vectors : List Vec)
  | rawKV (op : UInt8) (key value : Bytes)

def call (w : Wal) (outs : List Outcome) : Call → Wal × List Outcome × Status
  | .put id vec md => w.appendPut outs id vec md
  | .del id => w.appendDelete outs id
  | .batch ids vectors => w.appendBatch outs ids vectors
  | .rawKV op key value => w.appendRawKV outs op key value

/-- Metadata that the put record can carry: a tenant goes with all of it, and
without a tenant there must be nothing a memtable keeps and nothing that makes
the writer append a block. -/
def Carried (md : Metadata) : Prop :=
  md.tenant ≠ [] ∨ md.device_id = [] ∧ md.location_id = [] ∧ md.timestamp = 0 ∧ md.src_vid = 0 ∧ md.text = []

variable (seq : UInt64)

def putRecord (id : VectorId) (vec : Vec) (md : Metadata) : Record :=
  if md.tenant.isEmpty then .put seq id vec else .putMeta seq id vec md

def batchRecords : UInt64 → List (VectorId × Vec) → List Record
  | _,[] => []
  | seq,item :: rest => .put (seq + 1) item.1 item.2 :: batchRecords (seq + 1) rest

/-- The records of a call that starts behind this sequence number. -/
def Call.records : Call → List Record
  | put id vec md => [putRecord (seq + 1) id vec md]
  | del id => [.del (seq + 1) id]
  | batch ids vectors => batchRecords seq (ids.zip vectors)
  | rawKV op key value => [.rawKV (seq + 1) op key value]

def Framed (cipher : Option Cipher) (r : Record) : Prop :=
  r.payload.length + overhead cipher + 4 < 2 ^ 32

instance (cipher : Option Cipher) (r : Record) : Decidable (Framed cipher r) :=
  inferInstanceAs (Decidable (r.payload.length + overhead cipher + 4 < 2 ^ 32))

/-- A call whose records replay reads back: vectors of the table's dimension,
metadata that the record carries, an operation code replay knows, and sizes
that fit their fields. -/
def Call.Replayable (cipher : Option Cipher) (dim : UInt32) : Call → Prop
  | put id vec md => vec.length = dim.toNat ∧ Carried md ∧ StringsFit md ∧ Framed cipher (putRecord 0 id vec md)
  | del _ => True
  | batch ids vectors => ids.length = vectors.length ∧ ∀ vec ∈ vectors, vec.length = dim.toNat ∧ Framed cipher (.put 0 0 vec)
  | rawKV op key value => (op = Op.kRawKV ∨ op = Op.kBatchStart ∨ op = Op.kBatchEnd) ∧ Framed cipher (.rawKV 0 op key value)

/-! ### Calls on a log that holds records -/

/-- What a call does to a log that held `rs` and a tail: it adds some of its
records, all of them when it succeeds, and keeps a log that ends in a whole frame
so unless it fails. -/
def Adds (limit : Nat) (dim : UInt32) (w : Wal) (rs new : List Record) (tail : Bytes)
    (result : Wal × List Outcome × Status) : Prop :=
  ∃ q whole left, At result.1 q ∧ Held result.1.cipher dim q (rs ++ whole) left ∧ Vacant limit q ∧
    whole <+: new ∧ (result.2.2.ok = true → whole = new ∧ (tail = [] → left = [])) ∧
    result.1.cipher = w.cipher

def EndsWhole (dim : UInt32) (w : Wal) : Prop :=
  ∃ rs bytes, Frames w.cipher dim rs bytes ∧ w.dir.file w.gen = some (walFileHeader ++ bytes)

lemma Frames.tail_eq_nil (first : Frames cipher dim rs bytes)
    (second : Frames other dim' rs' bytes') (torn : nextBody tail = none) (same : bytes = bytes' ++ tail) : tail = [] := by
  induction first generalizing rs' bytes' with
  | nil => exact (append_eq_nil_iff.mp same.symm).2
  | cons fits carries more ih =>
    rename_i r body rs bytes
    have here := nextBody_frame bytes carries.short
    cases second with
    | nil =>
      rw [same,nil_append,torn] at here
      cases here
    | cons fits' carries' more' =>
      rename_i r' body' rs' rest'
      rw [append_assoc] at same
      have there := nextBody_frame (rest' ++ tail) carries'.short
      rw [← same,here,Option.some_inj] at there
      have length : body.length = body'.length := by
        have := congrArg List.length there
        simpa using this
      grind [append_inj_left,append_cancel_left]

lemma Held.tail_eq_nil (held : Held w.cipher dim p rs tail) (here : At w p) (whole : EndsWhole dim w) : tail = [] := by
  obtain ⟨⟨_,_,current,bytes,_,_,frames,content,_⟩,torn⟩ := held
  obtain ⟨rs',bytes',frames',file⟩ := whole
  rw [here.dir,here.gen,file_append,headD_cons,content,Option.some_inj] at file
  exact frames'.tail_eq_nil frames torn (append_cancel_left file).symm

lemma Held.endsWhole (held : Held w.cipher dim p rs []) (here : At w p) : EndsWhole dim w := by
  obtain ⟨⟨_,_,current,bytes,_,_,frames,content,_⟩,_⟩ := held
  refine ⟨current,bytes,frames,?_⟩
  rw [here.dir,here.gen,file_append,headD_cons,content,append_nil]

/-- The current file ends in a whole frame unless the write leaves it, and a
header the write starts with is written in full. -/
def SafeWrite (dim : UInt32) (w : Wal) (outs : List Outcome) (total : Nat) : Prop :=
  (w.rotates total = false → EndsWhole dim w) ∧ (w.rotates total = true → wholeWrite outs 16 = true)

lemma Written.adds {total limit : Nat} {seq : UInt64} {result : Wal × List Outcome × Status} {rs new : List Record}
    (written : Written w p outs flat total seq result) (here : At w p)
    (held : Held w.cipher dim p rs tail) (vacant : Vacant limit p)
    (frames : Frames w.cipher dim new flat) (safe : SafeWrite dim w outs total)
    (below : result.1.gen < limit) : Adds limit dim w rs new tail result := by
  obtain ⟨q,there,appended⟩ := written.place
  have grown := appended.older_length
  have entire : w.rotates total = false → tail = [] := fun stays => held.tail_eq_nil here (safe.1 stays)
  obtain ⟨whole,left,final,begins,all⟩ := held.appended frames appended entire (by
    intro rotated
    refine ⟨vacant.stale ?_,.inr (safe.2 rotated)⟩
    rw [rotated] at grown
    rw [there.gen] at below
    simp only [if_true] at grown
    omega)
  refine ⟨q,whole,left,there,?_,appended.vacant vacant,begins,?_,written.cipher⟩
  · rw [written.cipher]
    exact final
  · intro done
    exact ⟨(all done).1,fun _ => (all done).2⟩

lemma frames_single {r : Record} {body : Bytes}
    (fits : r.Fits dim) (carries : Sealed cipher r body) : Frames cipher dim [r] (frame body) := by
  have one := Frames.cons fits carries (.nil : Frames cipher dim [] [])
  rwa [append_nil] at one

lemma Record.del_payload_length (id : VectorId) : (Record.del seq id).payload.length = 21 :=
  recordPrefix_length ..

@[simp] lemma Record.put_payload_length (id : VectorId) (vec : Vec) :
    (Record.put seq id vec).payload.length = 21 + 4 * vec.length := by
  simp [payload]

lemma putRecord_payload (carried : Carried md) (seq : UInt64) (id : VectorId)
    (vec : Vec) : (putRecord seq id vec md).payload = putPlain seq id vec md := by
  by_cases tenant : md.tenant = []
  · have others := carried.resolve_left (by simp [tenant])
    grind [putRecord,putPlain,Record.payload]
  · simp [putRecord,putPlain,Record.payload,tenant]

lemma putRecord_payload_length (seq seq' : UInt64) (id id' : VectorId) (vec : Vec) (md : Metadata) :
    (putRecord seq id vec md).payload.length = (putRecord seq' id' vec md).payload.length := by
  unfold putRecord
  split <;> simp [Record.payload]

lemma putRecord_fits (sized : vec.length = dim.toNat)
    (strings : StringsFit md) (seq : UInt64) (id : VectorId) : (putRecord seq id vec md).Fits dim := by
  unfold putRecord
  split
  · exact sized
  · exact ⟨sized,strings⟩

def recordBytes (w : Wal) (plain : UInt64 → Bytes) : Nat := (frame (w.nextRecordBody plain)).length

lemma appendRecord_adds {tail : Bytes} {r : Record} {plain : UInt64 → Bytes} (here : At w p)
    (held : Held w.cipher dim p rs tail) (vacant : Vacant limit p) (fits : r.Fits dim)
    (framed : Framed w.cipher r) (same : plain (w.seq + 1) = r.payload) (safe : SafeWrite dim w outs (w.recordBytes plain))
    (below : (w.appendRecord outs plain).1.gen < limit) : Adds limit dim w rs [r] tail (w.appendRecord outs plain) := by
  have carries : Sealed w.cipher r (w.nextRecordBody plain) := by
    rw [nextRecordBody,same]
    exact sealed_bodyOf {w with seq := w.seq + 1} (w.seq + 1) framed
  exact (appendRecord_spec here outs carries.short).adds here held vacant (frames_single fits carries) safe below

lemma batchIovecs_frames (sized : ∀ item ∈ items, item.2.length = dim.toNat ∧ Framed none (.put 0 0 item.2)) :
    Frames none dim (batchRecords seq items) (batchIovecs seq items).flatten := by
  induction items generalizing seq with
  | nil => exact .nil
  | cons item rest ih =>
    obtain ⟨length,framed⟩ := sized item (.head _)
    have short : (Record.put (seq + 1) item.1 item.2).payload.length + 4 < 2 ^ 32 := by
      simpa [Framed,overhead] using framed
    have exactly : (UInt32.ofNat (21 + (words item.2).length + 4)).toNat =
        (Record.put (seq + 1) item.1 item.2).payload.length + 4 := by
      grind [Record.put_payload_length,words_length,UInt32.toNat_ofNat']
    have first : (batchPieces (seq + 1) item.1 item.2).flatten = frame (Record.put (seq + 1) item.1 item.2).payload := by
      simp only [batchPieces,exactly,crc32c_append,frame,Record.payload,flatten_cons,flatten_nil,append_nil,append_assoc]
    rw [batchIovecs,batchRecords,flatten_append,first]
    exact .cons length ⟨rfl,Record.payload_length _,short⟩ (ih (seq + 1) fun other member => sized other (.tail _ member))

lemma appendIovecs_gen (w : Wal) (outs : List Outcome) (pieces : List Bytes) : (w.appendIovecs outs pieces).1.gen = w.gen := by
  induction pieces generalizing w outs with
  | nil => rfl
  | cons data rest ih =>
    grind [appendFile,appendIovecs]

lemma writeOut_gen_le (w : Wal) (outs : List Outcome) (total : Nat) (pieces : List Bytes) (seq : UInt64) :
    w.gen ≤ (w.writeOut outs total pieces seq).1.gen := by
  have turned : w.gen ≤ (w.rotateIfNeeded outs total).1.gen := by
    unfold rotateIfNeeded
    split
    · exact Nat.le_refl _
    · grind [walFileHeader,appendFile]
  grind [writeOut_eq,appendIovecs_gen]

lemma appendRecord_gen_le (w : Wal) (outs : List Outcome) (plain : UInt64 → Bytes) : w.gen ≤ (w.appendRecord outs plain).1.gen := by
  simp only [appendRecord]
  exact writeOut_gen_le {w with seq := w.seq + 1} _ _ _ _

lemma appendPuts_gen_le (w : Wal) (outs : List Outcome) (items : List (VectorId × Vec)) :
    w.gen ≤ (w.appendPuts outs items).1.gen := by
  induction items generalizing w outs with
  | nil => exact Nat.le_refl _
  | cons item rest ih =>
    grind [appendPut,appendRecord_gen_le,appendPuts,Nat.le_trans]

lemma call_gen_le (w : Wal) (outs : List Outcome) (c : Call) : w.gen ≤ (w.call outs c).1.gen := by
  cases c with
  | put id vec md =>
    rw [call,appendPut]
    exact appendRecord_gen_le w outs _
  | del id =>
    rw [call,appendDelete]
    exact appendRecord_gen_le w outs _
  | rawKV op key value =>
    rw [call,appendRawKV]
    exact appendRecord_gen_le w outs _
  | batch ids vectors =>
    simp only [call,appendBatch]
    split
    · exact Nat.le_refl _
    · split
      · exact Nat.le_refl _
      · grind [appendPuts_gen_le,writeOut_gen_le]

end PomaiCache.Wal
