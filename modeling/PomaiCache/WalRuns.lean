import PomaiCache.WalLog

/-!
Runs of calls on the log. Every call that keeps to what replay can read, and
every append on a file that ends in a whole frame, extends the records the log
holds; opening the log again keeps them, and replay applies them in order.
-/
namespace PomaiCache.Wal
open Codec List

def SafePuts (dim : UInt32) (w : Wal) (outs : List Outcome) : List (VectorId × Vec) → Prop
  | [] => True
  | item :: rest => SafeWrite dim w outs (w.recordBytes fun seq => putPlain seq item.1 item.2 {}) ∧
      ((w.appendPut outs item.1 item.2 {}).2.2.ok = true →
        SafePuts dim (w.appendPut outs item.1 item.2 {}).1 (w.appendPut outs item.1 item.2 {}).2.1 rest)

/-- Every append of the call goes to a file that ends in a whole frame, or to a
new file whose header is written in full. -/
def Call.Safe (dim : UInt32) (w : Wal) (outs : List Outcome) : Call → Prop
  | put id vec md => SafeWrite dim w outs (w.recordBytes fun seq => putPlain seq id vec md)
  | del id => SafeWrite dim w outs (w.recordBytes fun seq => deletePlain seq id)
  | batch ids vectors =>
    if w.cipher.isSome then SafePuts dim w outs (ids.zip vectors)
    else SafeWrite dim w outs (vectors.map fun vec => 4 + 21 + (words vec).length + 4).sum
  | rawKV op key value => SafeWrite dim w outs (w.recordBytes fun seq => rawKVPlain seq op key value)

lemma carried_empty : Carried {} := .inr ⟨rfl,rfl,rfl,rfl,rfl⟩

lemma putPlain_empty (seq : UInt64) (id : VectorId) (vec : Vec) : putPlain seq id vec {} = (Record.put seq id vec).payload :=
  (putRecord_payload carried_empty seq id vec).symm

variable {rs : List Record} {dim : UInt32} {p : Place} {w : Wal} {outs : List Outcome} {cipher : Option Cipher} {limit : Nat} {tail : Bytes} {c : Call}

lemma appendRecord_seq (here : At w p) (ok : (w.appendRecord outs plain).2.2.ok = true) :
    (w.appendRecord outs plain).1.seq = w.seq + 1 := by
  simp only [appendRecord] at ok ⊢
  exact (writeOut_spec (here.setCounters (w.seq + 1) w.bytes_in_seg) outs _ _ _).seq ok

section
variable {limit : Nat} {dim : UInt32} {w : Wal} {rs new more : List Record} {tail : Bytes}
  {next result : Wal × List Outcome × Status}

lemma Adds.stopped (adds : Adds limit dim w rs new tail next) (failed : next.2.2.ok = false) :
    Adds limit dim w rs (new ++ more) tail next := by
  obtain ⟨q,whole,left,there,held,vacant,begins,_,cipher⟩ := adds
  exact ⟨q,whole,left,there,held,vacant,begins.trans (prefix_append ..),by simp [failed],cipher⟩

lemma Adds.andThen (adds : Adds limit dim w rs new tail next) (ok : next.2.2.ok = true)
    (rest : ∀ q left, At next.1 q → Held next.1.cipher dim q (rs ++ new) left → Vacant limit q →
      Adds limit dim next.1 (rs ++ new) more left result) : Adds limit dim w rs (new ++ more) tail result := by
  obtain ⟨q,whole,left,there,held,vacant,_,all,cipher⟩ := adds
  obtain ⟨rfl,clean⟩ := all ok
  obtain ⟨q',whole',left',there',held',vacant',begins',all',cipher'⟩ := rest q left there held vacant
  refine ⟨q',whole ++ whole',left',there',?_,vacant',?_,?_,cipher'.trans cipher⟩
  · rwa [← append_assoc]
  · exact (prefix_append_right_inj whole).mpr begins'
  · grind

end

lemma appendPut_adds {id : VectorId} (here : At w p) (held : Held w.cipher dim p rs tail)
    (vacant : Vacant limit p) (sized : vec.length = dim.toNat) (framed : Framed w.cipher (.put 0 0 vec))
    (safe : SafeWrite dim w outs (w.recordBytes fun seq => putPlain seq id vec {}))
    (below : (w.appendPut outs id vec {}).1.gen < limit) :
    Adds limit dim w rs [.put (w.seq + 1) id vec] tail (w.appendPut outs id vec {}) := by
  have framed' : Framed w.cipher (.put (w.seq + 1) id vec) := by
    simpa [Framed] using framed
  have same : (fun seq => putPlain seq id vec {}) (w.seq + 1) = (Record.put (w.seq + 1) id vec).payload :=
    putPlain_empty _ _ _
  rw [appendPut] at below ⊢
  exact appendRecord_adds here held vacant sized framed' same safe below

lemma appendPut_seq (here : At w p) {id : VectorId}
    (ok : (w.appendPut outs id vec {}).2.2.ok = true) : (w.appendPut outs id vec {}).1.seq = w.seq + 1 := by
  rw [appendPut] at ok ⊢
  exact appendRecord_seq here ok

lemma appendPuts_adds (here : At w p) (held : Held w.cipher dim p rs tail) (vacant : Vacant limit p)
    (sized : ∀ item ∈ items, item.2.length = dim.toNat ∧ Framed w.cipher (.put 0 0 item.2))
    (safe : SafePuts dim w outs items) (below : (w.appendPuts outs items).1.gen < limit) :
    Adds limit dim w rs (batchRecords w.seq items) tail (w.appendPuts outs items) := by
  induction items generalizing w p outs rs tail with
  | nil =>
    refine ⟨p,[],tail,here,?_,vacant, nil_prefix,fun _ => ⟨rfl,id⟩,rfl⟩
    rw [append_nil]
    exact held
  | cons item rest ih =>
    obtain ⟨length,framed⟩ := sized item (.head _)
    obtain ⟨safe,safe_later⟩ := safe
    have later : (w.appendPut outs item.1 item.2 {}).1.gen < limit := by
      refine Nat.lt_of_le_of_lt ?_ below
      simp only [appendPuts]
      split
      · grind [appendPuts_gen_le]
      · exact Nat.le_refl _
    have one := appendPut_adds here held vacant length framed safe later
    have seq : (w.appendPut outs item.1 item.2 {}).2.2.ok = true → (w.appendPut outs item.1 item.2 {}).1.seq = w.seq + 1 :=
      appendPut_seq here
    have cipher : (w.appendPut outs item.1 item.2 {}).1.cipher = w.cipher := by
      obtain ⟨_,_,_,_,_,_,_,_,cipher⟩ := one
      exact cipher
    simp only [appendPuts,batchRecords] at below ⊢
    generalize w.appendPut outs item.1 item.2 {} = next at one seq cipher below safe_later ⊢
    cases ok : next.2.2.ok with
    | false =>
      simp only [Bool.false_eq_true,if_false]
      exact one.stopped ok
    | true =>
      simp only [ok,if_true] at below ⊢
      refine one.andThen ok fun q left there heldQ vacantQ => ?_
      grind

lemma call_adds (here : At w p) (held : Held w.cipher dim p rs tail)
    (vacant : Vacant limit p) (replayable : c.Replayable w.cipher dim) (safe : c.Safe dim w outs)
    (below : (w.call outs c).1.gen < limit) : Adds limit dim w rs (c.records w.seq) tail (w.call outs c) := by
  cases c with
  | put id vec md =>
    obtain ⟨sized,carried,strings,framed⟩ := replayable
    grind [call,appendPut,Call.records,Call.Safe,Framed,putRecord,putRecord_payload_length,appendRecord_adds,putRecord_fits,putRecord_payload]
  | del id =>
    simp only [call,appendDelete,Call.records,Call.Safe] at safe below ⊢
    have framed : Framed w.cipher (.del (w.seq + 1) id) := by
      rw [Framed,Record.del_payload_length,overhead]
      split <;> decide
    exact appendRecord_adds here held vacant trivial framed rfl safe below
  | rawKV op key value =>
    obtain ⟨known,framed⟩ := replayable
    simp only [call,appendRawKV,Call.records,Call.Safe] at safe below ⊢
    have framed' : Framed w.cipher (.rawKV (w.seq + 1) op key value) := by
      simpa [Framed,Record.payload,rawKVPlain] using framed
    exact appendRecord_adds here held vacant known framed' rfl safe below
  | batch ids vectors =>
    obtain ⟨lengths,sized⟩ := replayable
    have items : ∀ item ∈ ids.zip vectors,item.2.length = dim.toNat ∧ Framed w.cipher (.put 0 0 item.2) :=
      fun item member => sized item.2 (of_mem_zip member).2
    simp only [call,appendBatch,lengths,ne_eq,not_true_eq_false,if_false,Call.records,Call.Safe] at safe below ⊢
    by_cases empty : ids.isEmpty
    · have none_ : ids = [] := isEmpty_iff.mp empty
      subst none_
      refine ⟨p,[],tail,here,by simpa using held,vacant, nil_prefix,fun _ => ⟨rfl,id⟩,rfl⟩
    · simp only [empty,if_false,Bool.false_eq_true] at safe below ⊢
      cases encrypted : w.cipher with
      | some cipher =>
        simp only [encrypted,Option.isSome_some,if_true] at safe below ⊢
        exact appendPuts_adds here held vacant items safe below
      | none =>
        simp only [encrypted,Option.isSome_none,Bool.false_eq_true,if_false] at safe below ⊢
        rw [encrypted] at items
        have frames := batchIovecs_frames w.seq items
        rw [← encrypted] at frames
        exact (writeOut_spec here outs _ _ _).adds here held vacant frames safe below

/-! ### Opening and replaying a log that holds records -/

def constructed (w : Wal) : Wal := {w with gen := 0, seq := 0, bytes_in_seg := 0}

def reopen (w : Wal) : Wal × Status := w.constructed.openLog []

lemma firstMissing_append (files : List Bytes) (rest : WalDir) :
    WalDir.firstMissing (files.map some ++ rest) = files.length + rest.firstMissing := by
  induction files with
  | nil => simp
  | cons file files ih =>
    simp only [map_cons,cons_append,WalDir.firstMissing,ih,length_cons]
    omega

lemma checkHeaders_header (bytes : Bytes) (rest : WalDir) :
    checkHeaders (some (walFileHeader ++ bytes) :: rest) = checkHeaders rest := by
  rfl

lemma checkHeaders_files {files : List Bytes} {rest : WalDir} (gap : rest.firstMissing = 0)
    (begin_ : ∀ file ∈ files, ∃ bytes, file = walFileHeader ++ bytes) :
    checkHeaders (files.map some ++ rest) = .Ok := by
  induction files with
  | nil => rcases WalDir.cases_of_gap gap with rfl | ⟨_,rfl⟩ <;> rfl
  | cons file files ih =>
    obtain ⟨bytes,rfl⟩ := begin_ file (.head _)
    grind [checkHeaders_header]

lemma Held.files (held : Held cipher dim p rs tail) : ∃ recss files, List.Forall₂ (Closed cipher dim) recss files ∧
      p.older ++ some p.content :: p.rest = files.map some ++ p.rest ∧
      files.length = p.older.length + 1 ∧ rs = recss.flatten := by
  obtain ⟨⟨recss,files,current,bytes,closed,older,here,content,same⟩,torn⟩ := held
  refine ⟨recss ++ [current],files ++ [p.content],?_,?_,?_,?_⟩
  · exact rel_append closed (.cons ⟨bytes,tail,here,torn,content⟩ .nil)
  · simp [older]
  · simp [older]
  · simp [same]

lemma Closed.replays (closed : Closed cipher dim rs file) : Replays cipher dim rs file := by
  obtain ⟨bytes,tail,frames,torn,rfl⟩ := closed
  exact frames.replays torn

lemma replayInto_held (here : At w p) (held : Held w.cipher dim p rs tail)
    (gap : p.rest.firstMissing = 0) (same : mem.dim = dim) : w.replayInto mem = .ok (applyAll (mem,w.seq) rs) := by
  obtain ⟨recss,files,closed,dir,_,rfl⟩ := held.files
  rw [replayInto,here.dir,dir]
  exact replayDir_files (closed.imp fun _ _ one => one.replays) gap (mem,w.seq) same

lemma closed_begin {recss : List (List Record)} {files : List Bytes} (closed : List.Forall₂ (Closed cipher dim) recss files) :
    ∀ file ∈ files, ∃ bytes, file = walFileHeader ++ bytes := by
  induction closed with
  | nil => simp
  | cons one more ih =>
    obtain ⟨bytes,tail,_,_,same⟩ := one
    grind

lemma stale_of_gap (gap : p.rest.firstMissing = 0) : p.stale = [] := by
  cases split : p.rest with
  | nil => simp [Place.stale,split]
  | cons file rest =>
    cases file with
    | none => simp [Place.stale,split]
    | some file => simp [split,WalDir.firstMissing] at gap

lemma reopen_held (here : At w p) (held : Held w.cipher dim p rs tail) (gap : p.rest.firstMissing = 0) :
    w.reopen.2 = .Ok ∧ At w.reopen.1 (p.next.write walFileHeader) ∧ Held w.cipher dim (p.next.write walFileHeader) rs [] ∧
      w.reopen.1.cipher = w.cipher ∧ w.reopen.1.seq = 0 := by
  obtain ⟨recss,files,closed,dir,count,_⟩ := held.files
  have split : w.dir = files.map some ++ p.rest := here.dir.trans dir
  have missing : w.dir.firstMissing = w.gen + 1 := by
    rw [split,firstMissing_append,gap,count,here.gen]
  have headers : checkHeaders w.dir = .Ok := by
    rw [split]
    exact checkHeaders_files gap (closed_begin closed)
  let opened : Wal := {w.constructed with
    gen := w.gen + 1
    dir := w.dir.setFile (w.gen + 1) (some ((w.dir.file (w.gen + 1)).getD []))}
  have there : At opened p.next := here.next rfl rfl
  have empty : (w.dir.file (w.gen + 1)).getD [] = [] := by
    have content := stale_of_gap gap
    have whole : w.dir = (p.older ++ [some p.content]) ++ p.rest := by
      rw [here.dir,append_assoc]
      rfl
    have position : w.gen + 1 = (p.older ++ [some p.content]).length := by simp [here.gen]
    rw [whole,position,file_append]
    exact content
  have result : w.reopen = ({(opened.appendFile [] walFileHeader).1 with bytes_in_seg := 16},.Ok) := by
    have emptyLength : ((w.dir.file (w.gen + 1)).getD []).length = 0 := by rw [empty]; rfl
    simp only [reopen,openLog,constructed,missing,headers,Status.ok_Ok,if_true,emptyLength]
    rfl
  obtain ⟨written,final,all,clean,keeps⟩ := appendFile_spec there [] walFileHeader
  have full : walFileHeader.take written = walFileHeader :=
    take_of_length_le (all (.inr rfl))
  rw [full] at final
  rw [result]
  exact ⟨rfl,⟨final.dir,final.gen⟩,held.next (stale_of_gap gap),keeps.cipher,keeps.seq⟩

section
variable (w : Wal)

lemma appendIovecs_clean (pieces : List Bytes) :
    (w.appendIovecs [] pieces).2 = ([],.Ok) ∧ (w.appendIovecs [] pieces).1.seq = w.seq := by
  induction pieces generalizing w with
  | nil => exact ⟨rfl,rfl⟩
  | cons data rest ih =>
    rw [appendIovecs]
    split
    · exact ih w
    · exact ih _

lemma rotateIfNeeded_clean (add_bytes : Nat) : (w.rotateIfNeeded [] add_bytes).2 = ([],.Ok) := by
  unfold rotateIfNeeded
  split <;> rfl

lemma writeOut_clean (total_bytes : Nat) (pieces : List Bytes) (seq : UInt64) :
    (w.writeOut [] total_bytes pieces seq).2 = ([],.Ok) ∧ (w.writeOut [] total_bytes pieces seq).1.seq = seq := by
  have turned := w.rotateIfNeeded_clean total_bytes
  obtain ⟨written,kept⟩ := appendIovecs_clean {(w.rotateIfNeeded [] total_bytes).1 with seq := seq} pieces
  simp only [writeOut,turned,written,Status.ok_Ok,if_true]
  exact ⟨trivial,kept⟩

lemma appendRecord_clean (plain : UInt64 → Bytes) :
    (w.appendRecord [] plain).2 = ([],.Ok) ∧ (w.appendRecord [] plain).1.seq = w.seq + 1 := by
  simp only [appendRecord]
  exact writeOut_clean _ _ _ _

lemma appendPuts_clean (items : List (VectorId × Vec)) :
    (w.appendPuts [] items).2 = ([],.Ok) ∧ (w.appendPuts [] items).1.seq = w.seq + UInt64.ofNat items.length := by
  induction items generalizing w with
  | nil => exact ⟨rfl,(UInt64.add_zero _).symm⟩
  | cons item rest ih =>
    obtain ⟨written,seq⟩ := w.appendRecord_clean fun seq => putPlain seq item.1 item.2 {}
    have first : (w.appendPut [] item.1 item.2 {}).2 = ([],.Ok) := by rw [appendPut,written]
    have next : (w.appendPut [] item.1 item.2 {}).1.seq = w.seq + 1 := by rw [appendPut,seq]
    obtain ⟨clean,count⟩ := ih (w.appendPut [] item.1 item.2 {}).1
    simp only [appendPuts,first,Status.ok_Ok,if_true]
    refine ⟨clean,?_⟩
    rw [count,next,length_cons,UInt64.add_assoc,UInt64.ofNat_add,UInt64.add_comm 1]
    rfl

lemma appendBatch_clean (lengths : ids.length = vectors.length) : (w.appendBatch [] ids vectors).2 = ([],.Ok) ∧
      (w.appendBatch [] ids vectors).1.seq = w.seq + UInt64.ofNat ids.length := by
  unfold appendBatch
  rw [if_neg (not_not.mpr lengths)]
  split
  · next empty =>
    rw [isEmpty_iff.mp empty]
    exact ⟨rfl,(UInt64.add_zero _).symm⟩
  split
  · have counted : (ids.zip vectors).length = ids.length := by rw [length_zip,← lengths,Nat.min_self]
    rw [← counted]
    exact w.appendPuts_clean _
  · exact w.writeOut_clean _ _ _

end

lemma batchRecords_length (seq : UInt64) (items : List (VectorId × Vec)) : (batchRecords seq items).length = items.length := by
  induction items generalizing seq with
  | nil => rfl
  | cons item rest ih => rw [batchRecords,length_cons,length_cons,ih]

lemma call_clean (w : Wal) (replayable : c.Replayable cipher dim) :
    (w.call [] c).2 = ([],.Ok) ∧ (w.call [] c).1.seq = w.seq + UInt64.ofNat (c.records w.seq).length := by
  cases c with
  | put id vec md =>
    rw [call,appendPut]
    exact w.appendRecord_clean fun seq => putPlain seq id vec md
  | del id =>
    rw [call,appendDelete]
    exact w.appendRecord_clean fun seq => deletePlain seq id
  | rawKV op key value =>
    rw [call,appendRawKV]
    exact w.appendRecord_clean fun seq => rawKVPlain seq op key value
  | batch ids vectors =>
    have counted : (Call.records w.seq (.batch ids vectors)).length = ids.length := by
      rw [Call.records,batchRecords_length,length_zip,← replayable.1,Nat.min_self]
    rw [counted]
    exact w.appendBatch_clean replayable.1

lemma safeWrite_clean (whole : EndsWhole dim w) (total : Nat) : SafeWrite dim w [] total := ⟨fun _ => whole,fun _ => rfl⟩

lemma safePuts_clean (here : At w p) (held : Held w.cipher dim p rs []) (vacant : Vacant limit p)
    (sized : ∀ item ∈ items, item.2.length = dim.toNat ∧ Framed w.cipher (.put 0 0 item.2))
    (below : (w.appendPuts [] items).1.gen < limit) : SafePuts dim w [] items := by
  induction items generalizing w p rs with
  | nil => trivial
  | cons item rest ih =>
    obtain ⟨length,framed⟩ := sized item (.head _)
    have framed' : Framed w.cipher (.put (w.seq + 1) item.1 item.2) := by
      simpa [Framed] using framed
    have clean : (w.appendPut [] item.1 item.2 {}).2 = ([],.Ok) :=
      (w.appendRecord_clean fun seq => putPlain seq item.1 item.2 {}).1
    have safe := safeWrite_clean (held.endsWhole here)
    simp only [appendPuts,clean,Status.ok_Ok,if_true] at below
    have later := Nat.lt_of_le_of_lt (appendPuts_gen_le (w.appendPut [] item.1 item.2 {}).1 [] rest) below
    have one : Adds limit dim w rs [.put (w.seq + 1) item.1 item.2] [] (w.appendPut [] item.1 item.2 {}) :=
      appendRecord_adds here held vacant length framed' (putPlain_empty _ _ _) (safe _) later
    obtain ⟨q,whole,left,there,heldQ,vacantQ,_,all,cipher⟩ := one
    grind [SafePuts]

lemma safe_clean (here : At w p) (held : Held w.cipher dim p rs []) (vacant : Vacant limit p)
    (replayable : c.Replayable w.cipher dim) (below : (w.call [] c).1.gen < limit) : c.Safe dim w [] := by
  have safe := safeWrite_clean (held.endsWhole here)
  cases c with
  | put id vec md => exact safe _
  | del id => exact safe _
  | rawKV op key value => exact safe _
  | batch ids vectors =>
    obtain ⟨lengths,sized⟩ := replayable
    simp only [Call.Safe]
    split
    · next encrypted =>
      refine safePuts_clean here held vacant (fun item member => sized item.2 (of_mem_zip member).2) ?_
      simp only [call,appendBatch,lengths,ne_eq,not_true_eq_false,if_false,encrypted,if_true] at below
      split at below
      · next empty =>
        rw [isEmpty_iff.mp empty]
        exact below
      · exact below
    · exact safe _

lemma call_held (here : At w p) (held : Held w.cipher dim p rs []) (vacant : Vacant limit p)
    (replayable : c.Replayable w.cipher dim) (below : (w.call [] c).1.gen < limit) :
    ∃ q, At (w.call [] c).1 q ∧ Held w.cipher dim q (rs ++ c.records w.seq) [] ∧ Vacant limit q ∧
      (w.call [] c).1.cipher = w.cipher := by
  obtain ⟨q,whole,left,there,heldQ,vacantQ,_,all,cipher⟩ :=
    call_adds here held vacant replayable (safe_clean here held vacant replayable below) below
  obtain ⟨same,empty⟩ := all (by rw [(w.call_clean replayable).1]; rfl)
  grind

def runAll (w : Wal) (calls : List Call) : Wal := calls.foldl (fun w c => (w.call [] c).1) w

def logged (w : Wal) : List Call → List Record
  | [] => []
  | c :: rest => c.records w.seq ++ logged (w.call [] c).1 rest

lemma runAll_gen_le (w : Wal) (calls : List Call) : w.gen ≤ (w.runAll calls).gen := by
  induction calls generalizing w with
  | nil => exact Nat.le_refl _
  | cons c rest ih => exact Nat.le_trans (call_gen_le w [] c) (ih _)

lemma runAll_held (here : At w p) (held : Held w.cipher dim p rs []) (vacant : Vacant limit p)
    (replayable : ∀ c ∈ calls, c.Replayable w.cipher dim) (below : (w.runAll calls).gen < limit) :
    ∃ q, At (w.runAll calls) q ∧ Held w.cipher dim q (rs ++ w.logged calls) [] ∧ Vacant limit q ∧
      (w.runAll calls).cipher = w.cipher := by
  induction calls generalizing w p rs with
  | nil => exact ⟨p,here,by simpa [logged] using held,vacant,rfl⟩
  | cons c rest ih =>
    have later : (w.call [] c).1.gen < limit := Nat.lt_of_le_of_lt (runAll_gen_le _ rest) below
    obtain ⟨q,there,heldQ,vacantQ,cipher⟩ :=
      call_held here held vacant (replayable c (.head _)) later
    obtain ⟨q',there',heldQ',vacantQ',cipher'⟩ := ih there (by rw [cipher]; exact heldQ) vacantQ
      (fun other member => by rw [cipher]; exact replayable other (.tail _ member)) below
    rw [cipher,append_assoc] at heldQ'
    exact ⟨q',there',heldQ',vacantQ',cipher'.trans cipher⟩

end PomaiCache.Wal
