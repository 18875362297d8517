import PomaiCache.WalReplay

/-!
The log under failing appends, and under a crash in the middle of `Reset`. In both cases the
log itself goes on accepting records, so what counts is whether the records acknowledged later
can be replayed.
-/
namespace PomaiCache.Wal
open Codec List

/-- A run of calls, each with the outcomes of its appends, and the records of the
calls that returned Ok. -/
def runFaulty (w : Wal) : List (List Outcome × Call) → Wal × List Record
  | [] => (w,[])
  | step :: rest =>
    let result := w.call step.1 step.2
    let more := runFaulty result.1 rest
    (more.1,(if result.2.2.ok then step.2.records w.seq else []) ++ more.2)

def SafeRun (dim : UInt32) (w : Wal) : List (List Outcome × Call) → Prop
  | [] => True
  | step :: rest => step.2.Replayable w.cipher dim ∧ step.2.Safe dim w step.1 ∧ SafeRun dim (w.call step.1 step.2).1 rest

lemma runFaulty_gen_le (w : Wal) (steps : List (List Outcome × Call)) : w.gen ≤ (w.runFaulty steps).1.gen := by
  induction steps generalizing w with
  | nil => exact Nat.le_refl _
  | cons step rest ih => exact Nat.le_trans (call_gen_le w step.1 step.2) (ih _)

variable {rs : List Record} {w : Wal} {dim : UInt32} {steps : List LogStep} {rest : WalDir} {limit : Nat} {p : Place}

/-- The log holds every acknowledged record, in order, between records of calls
that failed after writing some of theirs. -/
lemma runFaulty_held {steps : List (List Outcome × Call)} {tail : Bytes} (here : At w p) (held : Held w.cipher dim p rs tail)
    (vacant : Vacant limit p) (safe : SafeRun dim w steps) (below : (w.runFaulty steps).1.gen < limit) :
    ∃ q applied left, At (w.runFaulty steps).1 q ∧ Held (w.runFaulty steps).1.cipher dim q (rs ++ applied) left ∧
      Vacant limit q ∧ (w.runFaulty steps).2.Sublist applied := by
  induction steps generalizing w p rs tail with
  | nil => exact ⟨p,[],tail,here,by rw [append_nil]; exact held,vacant,List.Sublist.refl _⟩
  | cons step rest ih =>
    obtain ⟨replayable,safeCall,safeRest⟩ := safe
    have later : (w.call step.1 step.2).1.gen < limit := Nat.lt_of_le_of_lt (runFaulty_gen_le _ rest) below
    obtain ⟨q,whole,left,there,heldQ,vacantQ,_,all,_⟩ :=
      call_adds here held vacant replayable safeCall later
    grind [append_assoc,runFaulty]

/-- Acknowledged records survive failing appends, as long as nothing is appended
behind an incomplete frame and no file starts with an incomplete header. -/
theorem acknowledged_applied (segment_bytes : Nat) (shard_id : UInt32) (cipher : Option Cipher)
    (mem : MemTable) (steps : List (List Outcome × Call))
    (safe : SafeRun mem.dim (fresh segment_bytes shard_id cipher) steps) :
    let result := (fresh segment_bytes shard_id cipher).runFaulty steps
    result.1.reopen.2 = .Ok ∧ ∃ applied,
      result.1.reopen.1.replayInto mem = .ok (applyAll (mem,0) applied) ∧ result.2.Sublist applied := by
  intro result
  obtain ⟨q,applied,left,there,held,vacant,kept⟩ := runFaulty_held
    (fresh_at segment_bytes shard_id cipher) (fresh_held cipher mem.dim)
    (vacant_of_empty (result.1.gen + 3) rfl) safe (Nat.lt_add_of_pos_right (by decide))
  have gen : result.1.gen = q.older.length := there.gen
  have gap : q.rest.firstMissing = 0 := vacant.firstMissing (by omega)
  obtain ⟨opened,final,heldNext,sameCipher,seq⟩ := reopen_held there held gap
  have gapNext : (q.next.write walFileHeader).rest.firstMissing = 0 :=
    vacant.next.firstMissing (by simp only [Place.next,length_append,length_singleton]; omega)
  grind [replayInto_held]

theorem acknowledged_applied_run :
    let steps : List (List Outcome × Call) := [([.stopped 3],.put 1 [5] {}),([],.batch [2,3] [[6],[7]])]
    let mem := MemTable.create Platform.plain 1 false
    let result := (fresh 49 0 none).runFaulty steps
    result.1.reopen.2 = .Ok ∧ ∃ applied,
      result.1.reopen.1.replayInto mem = .ok (applyAll (mem,0) applied) ∧ result.2.Sublist applied := by
  intro steps mem
  refine acknowledged_applied 49 0 none mem steps ⟨?_,⟨fun _ => ?_,fun full => ?_⟩,?_,⟨fun fits => ?_,fun _ => rfl⟩,trivial⟩
  · exact ⟨rfl,carried_empty,by decide,by decide⟩
  · exact ⟨[],[],.nil,rfl⟩
  · exact absurd full (by decide +kernel)
  · refine ⟨rfl,?_⟩
    simp only [mem,MemTable.create,Framed,overhead,Record.put_payload_length]
    split <;> simp
  · exact absurd fits (by decide +kernel)

/-- The first put stops after three bytes of its length and fails; the second is
acknowledged behind them, and replay does not find it. -/
theorem acknowledged_lost :
    let steps : List (List Outcome × Call) := [([.stopped 3],.put 1 [5] {}),([],.put 2 [6] {})]
    let first := (fresh 1000 0 none).call [.stopped 3] (.put 1 [5] {})
    let result := (fresh 1000 0 none).runFaulty steps
    first.2.2.ok = false ∧ (first.1.call [] (.put 2 [6] {})).2.2 = .Ok ∧ result.2 = [.put 2 2 [6]] ∧ result.1.reopen.2 = .Ok ∧
      (result.1.reopen.1.replayInto (MemTable.create Platform.plain 1 false)).toOption.map
        (fun state => state.1.version 2) = some none := by
  decide +kernel

inductive LogStep
  | call (c : Call)
  | reopen

def step (w : Wal) : LogStep → Wal
  | .call c => (w.call [] c).1
  | .reopen => w.reopen.1

def runSteps (w : Wal) (steps : List LogStep) : Wal := steps.foldl step w

def loggedSteps (w : Wal) : List LogStep → List Record
  | [] => []
  | .call c :: rest => c.records w.seq ++ loggedSteps (w.step (.call c)) rest
  | .reopen :: rest => loggedSteps (w.step .reopen) rest

def LogStep.Replayable (cipher : Option Cipher) (dim : UInt32) : LogStep → Prop
  | call c => c.Replayable cipher dim
  | reopen => True

/-- The generation below the current one's successor stays under `limit` all along. -/
def StaysBelow (limit : Nat) (w : Wal) : List LogStep → Prop
  | [] => w.gen + 1 < limit
  | s :: rest => w.gen + 1 < limit ∧ StaysBelow limit (w.step s) rest

lemma StaysBelow.here (stays : StaysBelow limit w steps) : w.gen + 1 < limit := by
  cases steps with
  | nil => exact stays
  | cons s rest => exact stays.1

lemma StaysBelow.mono {limit larger : Nat} (le : limit ≤ larger)
    (stays : StaysBelow limit w steps) : StaysBelow larger w steps := by
  induction steps generalizing w with
  | nil => exact Nat.lt_of_lt_of_le stays le
  | cons s rest ih => exact ⟨Nat.lt_of_lt_of_le stays.1 le,ih stays.2⟩

lemma exists_staysBelow (w : Wal) (steps : List LogStep) : ∃ limit, StaysBelow limit w steps := by
  induction steps generalizing w with
  | nil => exact ⟨w.gen + 2,Nat.lt_succ_self _⟩
  | cons s rest ih =>
    obtain ⟨limit,stays⟩ := ih (w.step s)
    exact ⟨max limit (w.gen + 2),by omega,stays.mono (Nat.le_max_left ..)⟩

lemma runSteps_held (here : At w p) (held : Held w.cipher dim p rs []) (vacant : Vacant limit p)
    (replayable : ∀ s ∈ steps, s.Replayable w.cipher dim) (stays : StaysBelow limit w steps) :
    ∃ q, At (w.runSteps steps) q ∧ Held w.cipher dim q (rs ++ w.loggedSteps steps) [] ∧
      Vacant limit q ∧ (w.runSteps steps).cipher = w.cipher ∧ (w.runSteps steps).gen + 1 < limit := by
  induction steps generalizing w p rs with
  | nil => exact ⟨p,here,by simpa [loggedSteps] using held,vacant,rfl,stays⟩
  | cons s rest ih =>
    have others : ∀ other ∈ rest, other.Replayable w.cipher dim :=
      fun other member => replayable other (.tail _ member)
    have later := stays.2.here
    cases s with
    | call c =>
      obtain ⟨q,there,heldQ,vacantQ,cipher⟩ := call_held here held vacant (replayable (.call c) (.head _)) (Nat.lt_of_succ_lt later)
      obtain ⟨q',there',heldQ',vacantQ',cipher',last⟩ := ih (w := w.step (.call c)) there
        (by rw [step,cipher]; exact heldQ) vacantQ (by rw [step,cipher]; exact others) stays.2
      rw [step,cipher,append_assoc] at heldQ'
      exact ⟨q',there',heldQ',vacantQ',cipher'.trans cipher,last⟩
    | reopen =>
      have gap : p.rest.firstMissing = 0 := vacant.firstMissing (by rw [← here.gen]; exact stays.1)
      obtain ⟨_,there,heldQ,cipher,_⟩ := reopen_held here held gap
      obtain ⟨q',there',heldQ',vacantQ',cipher',last⟩ := ih (w := w.step .reopen) there
        (by rw [step,cipher]; exact heldQ) vacant.next (by rw [step,cipher]; exact others) stays.2
      rw [step,cipher] at heldQ'
      exact ⟨q',there',heldQ',vacantQ',cipher'.trans cipher,last⟩

/-! The directory after the cut. -/

def Gone (rest : WalDir) : Prop := ∀ file ∈ rest, file = none

lemma Gone.getD (gone : Gone rest) (i : Nat) : rest.getD i none = none := by
  rw [getD_eq_getElem?_getD]
  cases held : rest[i]? with
  | none => rfl
  | some file => exact gone file (mem_of_getElem? held)

lemma Gone.vacant (gone : Gone p.rest) (limit : Nat) : Vacant limit p := fun i _ => gone.getD i

lemma Gone.firstMissing (gone : Gone rest) : rest.firstMissing = 0 := by
  cases rest with
  | nil => rfl
  | cons file rest =>
    rw [gone file (.head _)]
    rfl

lemma Vacant.gone (vacant : Vacant limit p) (far : p.older.length + 1 + p.rest.length ≤ limit) : Gone p.rest := by
  intro file member
  obtain ⟨i,inside,rfl⟩ := mem_iff_getElem.mp member
  have missing := vacant i (by omega)
  rwa [getD_eq_getElem _ _ inside] at missing

lemma deleteFirst_files (count : Nat) (files : List Bytes) (gone : Gone rest) : WalDir.deleteFirst count (files.map some ++ rest) =
      replicate (min count files.length) none ++ ((files.drop count).map some ++ rest) := by
  induction files generalizing count with
  | nil =>
    cases rest with
    | nil => cases count <;> rfl
    | cons file rest =>
      rw [gone file (.head _)]
      cases count <;> rfl
  | cons file files ih =>
    cases count with
    | zero => rfl
    | succ count =>
      simp only [map_cons,cons_append,WalDir.deleteFirst,ih,length_cons,drop_succ_cons,Nat.succ_min_succ,replicate_succ]

lemma reopen_missing (missing : w.dir.firstMissing = 0) :
    w.reopen.2 = .Ok ∧ At w.reopen.1 ⟨[],walFileHeader,w.dir.tail⟩ ∧ w.reopen.1.cipher = w.cipher := by
  cases split : w.dir with
  | nil =>
    simp only [reopen,constructed,openLog,split]
    exact ⟨rfl,⟨rfl,rfl⟩,rfl⟩
  | cons file rest =>
    cases file with
    | some file => simp [split,WalDir.firstMissing] at missing
    | none =>
      simp only [reopen,constructed,openLog,split]
      exact ⟨rfl,⟨rfl,rfl⟩,rfl⟩

lemma resetCut_zero (w : Wal) : w.resetCut 0 = w.dir := by
  rfl

/-- Between the files `Reset` deleted nothing stands in the way, up to the first
generation it did not reach. -/
lemma vacant_resetCut {files : List Bytes} (gone : Gone rest) {k limit : Nat} (some_ : 0 < k)
    (bound : k ≤ files.length) (cut : limit ≤ k ∨ k = files.length) :
    Vacant limit ⟨[],walFileHeader,(WalDir.deleteFirst k (files.map some ++ rest)).tail⟩ := by
  intro i below
  obtain ⟨k,rfl⟩ : ∃ less, k = less + 1 := ⟨k - 1,by omega⟩
  rw [deleteFirst_files _ _ gone,Nat.min_eq_left bound,replicate_succ]
  simp only [length_nil,cons_append,tail_cons] at below ⊢
  rcases cut with within | all
  · rw [getD_append _ _ _ _ (by rw [length_replicate]; omega)]
    simp
  · rw [all,drop_length,map_nil,nil_append]
    refine Gone.getD (fun file member => ?_) i
    rcases mem_append.mp member with deleted | behind
    · exact (mem_replicate.mp deleted).2
    · exact gone file behind

/-- A crash inside `Reset` that deleted `k` of the files is harmless when it
deleted none or all of them, or while the log stays in the generations before the
one next to the first survivor: replay applies old records first, if any, and then
every record appended since. -/
theorem reset_crash_replay (w : Wal) (mem : MemTable) (p : Place) (rs : List Record) (tail : Bytes)
    (here : At w p) (held : Held w.cipher mem.dim p rs tail) (newest : Gone p.rest)
    (k : Nat) (bound : k ≤ w.gen + 1) (steps : List LogStep) (replayable : ∀ s ∈ steps, s.Replayable w.cipher mem.dim)
    (survives : k = 0 ∨ k = w.gen + 1 ∨ StaysBelow k (reopen {w with dir := w.resetCut k}).1 steps) :
    let opened := reopen {w with dir := w.resetCut k}
    opened.2 = .Ok ∧ ∃ old, old <+: rs ∧ (opened.1.runSteps steps).replayInto mem =
      .ok (applyAll (mem,(opened.1.runSteps steps).seq) (old ++ opened.1.loggedSteps steps)) := by
  intro opened
  have finish (q : Place) (old : List Record) (limit : Nat) (there : At opened.1 q)
      (heldQ : Held w.cipher mem.dim q old []) (vacant : Vacant limit q)
      (cipher : opened.1.cipher = w.cipher) (stays : StaysBelow limit opened.1 steps) :
      (opened.1.runSteps steps).replayInto mem =
        .ok (applyAll (mem,(opened.1.runSteps steps).seq) (old ++ opened.1.loggedSteps steps)) := by
    rw [← cipher] at heldQ replayable
    obtain ⟨q',there',heldQ',vacant',cipher',last⟩ := runSteps_held there heldQ vacant replayable stays
    rw [← cipher'] at heldQ'
    exact replayInto_held there' heldQ' (vacant'.firstMissing (by rw [← there'.gen]; exact last)) rfl
  by_cases none_ : k = 0
  · have same : ({w with dir := w.resetCut k} : Wal) = w := by rw [none_,resetCut_zero]
    have opens : opened = w.reopen := congrArg reopen same
    obtain ⟨status,there,heldQ,cipher,_⟩ := reopen_held here held newest.firstMissing
    rw [← opens] at status there cipher
    obtain ⟨limit,stays⟩ := exists_staysBelow opened.1 steps
    refine ⟨status,rs,prefix_rfl,finish _ rs limit there heldQ ?_ cipher stays⟩
    exact Gone.vacant (fun file member => newest file (mem_of_mem_tail member)) limit
  · obtain ⟨recss,files,_,dir,count,_⟩ := held.files
    rw [← here.dir] at dir
    have many : files.length = w.gen + 1 := by rw [count,here.gen]
    have first : (w.resetCut k).firstMissing = 0 := by
      obtain ⟨less,rfl⟩ : ∃ less, k = less + 1 := ⟨k - 1,by omega⟩
      rw [resetCut,dir,deleteFirst_files _ _ newest,many,Nat.min_eq_left bound,replicate_succ]
      rfl
    obtain ⟨status,there,cipher⟩ := reopen_missing (w := {w with dir := w.resetCut k}) first
    have place : (w.resetCut k).tail = (WalDir.deleteFirst k (files.map some ++ p.rest)).tail := by
      rw [resetCut,dir]
    simp only [place] at there
    have empty := begun_held w.cipher mem.dim (WalDir.deleteFirst k (files.map some ++ p.rest)).tail
    refine ⟨status,[], nil_prefix,?_⟩
    rcases survives with zero | all | stays
    · exact absurd zero none_
    · obtain ⟨limit,stays⟩ := exists_staysBelow opened.1 steps
      exact finish _ [] limit there empty (vacant_resetCut newest (by omega) (by omega) (.inr (by omega))) cipher stays
    · exact finish _ [] k there empty (vacant_resetCut newest (by omega) (by omega) (.inl (Nat.le_refl _))) cipher stays

theorem reset_crash_replay_run :
    let w := (fresh 60 0 none).runAll [.put 1 [8] {},.put 1 [9] {},.put 1 [10] {}]
    let opened := reopen {w with dir := w.resetCut 2}
    let mem := MemTable.create Platform.plain 1 false
    let steps : List LogStep := [.call (.put 1 [7] {})]
    opened.2 = .Ok ∧ ∃ old, (opened.1.runSteps steps).replayInto mem =
      .ok (applyAll (mem,(opened.1.runSteps steps).seq) (old ++ opened.1.loggedSteps steps)) := by
  intro w opened mem steps
  have small (vec : Vec) (sized : vec.length = 1) : (Call.put 1 vec {}).Replayable none mem.dim :=
    ⟨sized,carried_empty,by decide,by simp [Framed,putRecord,overhead,sized]⟩
  have calls : ∀ c ∈ [Call.put 1 [8] {},Call.put 1 [9] {},Call.put 1 [10] {}],c.Replayable none mem.dim := by
    simpa using ⟨small [8] rfl,small [9] rfl,small [10] rfl⟩
  obtain ⟨p,here,held,_,cipher⟩ := runAll_held (fresh_at 60 0 none) (fresh_held none mem.dim)
    (vacant_of_empty 4 rfl) calls (by decide +kernel)
  have gen : w.gen = 2 := by decide +kernel
  have newest : Gone p.rest := by
    have files : w.dir.length = 3 := by decide +kernel
    have older : w.gen = p.older.length := here.gen
    rw [here.dir,length_append,length_cons] at files
    have last : p.rest = [] := length_eq_zero_iff.mp (by omega)
    simp [last,Gone]
  have after : (opened.1.step (.call (.put 1 [7] {}))).gen + 1 < 2 := by decide +kernel
  have stays : StaysBelow 2 opened.1 steps := ⟨by decide +kernel,after⟩
  have plain : w.cipher = none := cipher
  have replayable : ∀ s ∈ steps, s.Replayable w.cipher mem.dim := by
    intro s member
    rw [mem_singleton.mp member,plain]
    exact small [7] rfl
  obtain ⟨status,old,_,replayed⟩ := reset_crash_replay w mem p _ [] here held newest 2 (by omega) steps
    replayable (.inr (.inr stays))
  exact ⟨status,old,replayed⟩

/-- Two generations, of which the crash leaves the last. The put after the crash
is acknowledged, and replay overwrites it with the record the crash left. -/
theorem reset_crash_stale :
    let w := (fresh 60 0 none).runAll [.put 1 [8] {},.put 1 [9] {}]
    let opened := reopen {w with dir := w.resetCut 1}
    let after := opened.1.call [] (.put 1 [7] {})
    w.gen = 1 ∧ opened.2 = .Ok ∧ after.2.2 = .Ok ∧ (after.1.replayInto (MemTable.create Platform.plain 1 false)).toOption.map
        (fun state => state.1.version 1) = some (some (some (.raw [9],{}))) := by
  decide +kernel

/-! ### Logs without torn tails and without survivors -/

/-- The log holds these records, every file ends in a whole frame, and no file is
left behind the current one. -/
def Clean (w : Wal) (dim : UInt32) (rs : List Record) : Prop :=
  ∃ p, At w p ∧ Held w.cipher dim p rs [] ∧ Gone p.rest

lemma Clean.call (clean : Clean w dim rs) {c : Call} (replayable : c.Replayable w.cipher dim) : (w.call [] c).2.2 = .Ok ∧
      Clean (w.call [] c).1 dim (rs ++ c.records w.seq) ∧ (w.call [] c).1.cipher = w.cipher := by
  obtain ⟨p,here,held,gone⟩ := clean
  -- a limit beyond all files there are
  let limit := (w.call [] c).1.gen + (w.call [] c).1.dir.length + 1
  obtain ⟨q,there,heldQ,vacant,cipher⟩ := call_held here held (gone.vacant limit) replayable (by omega)
  have files := congrArg List.length there.dir
  rw [length_append,length_cons] at files
  rw [← cipher] at heldQ
  exact ⟨by rw [(w.call_clean replayable).1],⟨q,there,heldQ,vacant.gone (by omega)⟩,cipher⟩

lemma Clean.begin (gone : Gone w.dir) (dim : UInt32) :
    w.reopen.2 = .Ok ∧ Clean w.reopen.1 dim [] ∧ w.reopen.1.cipher = w.cipher := by
  obtain ⟨status,there,cipher⟩ := reopen_missing gone.firstMissing
  refine ⟨status,⟨_,there,begun_held _ dim _,?_⟩,cipher⟩
  exact fun file member => gone file (mem_of_mem_tail member)

lemma Clean.reset (clean : Clean w dim rs) : Clean w.reset.1 dim [] ∧ w.reset.1.cipher = w.cipher := by
  obtain ⟨p,here,held,gone⟩ := clean
  obtain ⟨recss,files,_,dir,count,_⟩ := held.files
  rw [← here.dir] at dir
  have deleted : Gone (w.resetCut w.dir.length) := by
    have all : files.length ≤ w.dir.length := by rw [dir]; simp
    rw [resetCut,dir,deleteFirst_files _ _ gone,← dir,drop_of_length_le all]
    intro file member
    rcases mem_append.mp member with here | behind
    · exact (mem_replicate.mp here).2
    · exact gone file behind
  obtain ⟨_,begun,cipher⟩ := Clean.begin (w := {w with dir := w.resetCut w.dir.length}) deleted dim
  exact ⟨begun,cipher⟩

lemma Clean.reopen (clean : Clean w dim rs) : w.reopen.2 = .Ok ∧ Clean w.reopen.1 dim rs ∧ w.reopen.1.cipher = w.cipher := by
  obtain ⟨p,here,held,gone⟩ := clean
  obtain ⟨status,there,heldQ,cipher,_⟩ := reopen_held here held gone.firstMissing
  rw [← cipher] at heldQ
  exact ⟨status,⟨_,there,heldQ,fun file member => gone file (mem_of_mem_tail member)⟩,cipher⟩

lemma Clean.replay (mem : MemTable) (clean : Clean w mem.dim rs) : w.replayInto mem = .ok (applyAll (mem,w.seq) rs) := by
  obtain ⟨p,here,held,gone⟩ := clean
  exact replayInto_held here held gone.firstMissing rfl

lemma reopen_seq (w : Wal) : w.reopen.1.seq = 0 := by
  simp only [Wal.reopen,openLog]
  split
  · split
    · rfl
    · rfl
  · rfl

/-! ### A last file that is cut short -/

def Call.Matched : Call → Prop
  | batch ids vectors => ids.length = vectors.length
  | _ => True

lemma call_ok (w : Wal) {c : Call} (matched : c.Matched) : (w.call [] c).2 = ([],.Ok) := by
  cases c with
  | put id vec md => exact (w.appendRecord_clean fun seq => putPlain seq id vec md).1
  | del id => exact (w.appendRecord_clean fun seq => deletePlain seq id).1
  | rawKV op key value => exact (w.appendRecord_clean fun seq => rawKVPlain seq op key value).1
  | batch ids vectors => exact (w.appendBatch_clean matched).1

lemma checkHeaders_short {files : List Bytes} (begin_ : ∀ file ∈ files, ∃ bytes, file = walFileHeader ++ bytes)
    {last : Bytes} (short : last.length < 16) (rest : WalDir) :
    checkHeaders (files.map some ++ some last :: rest) = .aborted "wal header short" := by
  induction files with
  | nil =>
    simp [*,slice,length_take,drop_zero,map_nil,nil_append,checkHeaders]
  | cons file files ih =>
    obtain ⟨bytes,rfl⟩ := begin_ file (.head _)
    grind [checkHeaders_header]

lemma reopen_status (w : Wal) {st : Status} (checked : checkHeaders w.dir = st) (known : st = .Ok ∨ st.ok = false) :
    w.reopen.2 = st := by
  rcases known with rfl | failed
  · by_cases empty : ((w.dir.file w.dir.firstMissing).getD []).length = 0
    · simp only [reopen,openLog,constructed,checked,Status.ok_Ok,if_true,empty]
      rfl
    · simp only [reopen,openLog,constructed,checked,Status.ok_Ok,if_true,empty,if_false]
  · simp only [reopen,openLog,constructed,checked,failed]
    rfl

/-- A log opens again behind a crash that has cut its last file, and takes every later call,
exactly if the header of that file is left. -/
theorem reopen_truncated_iff (w : Wal) (files : List Bytes) (last : Bytes)
    (formed : ∀ file ∈ files ++ [last], ∃ bytes, file = walFileHeader ++ bytes) (cut : Nat)
    (dir : w.dir = (files ++ [last.take cut]).map some) :
    (w.reopen.2 = .Ok ∧ ∀ calls c, (∀ c ∈ calls ++ [c], Call.Matched c) →
        ((w.reopen.1.runAll calls).call [] c).2.2 = .Ok) ↔ 16 ≤ cut := by
  have older : ∀ file ∈ files, ∃ bytes, file = walFileHeader ++ bytes := fun file member =>
    formed file (mem_append_left _ member)
  obtain ⟨bytes,rfl⟩ := formed last (mem_append_right _ (.head _))
  constructor
  · rintro ⟨opened,_⟩
    by_contra early
    have short : ((walFileHeader ++ bytes).take cut).length < 16 := by
      rw [length_take]
      omega
    have rejected : checkHeaders w.dir = .aborted "wal header short" := by
      rw [dir,map_append]
      exact checkHeaders_short older short []
    rw [reopen_status w rejected (.inr rfl)] at opened
    cases opened
  · intro enough
    have left : (walFileHeader ++ bytes).take cut = walFileHeader ++ bytes.take (cut - 16) := by
      rw [take_append,take_of_length_le enough]
      rfl
    have accepted : checkHeaders w.dir = .Ok := by
      have all := @checkHeaders_files (files ++ [(walFileHeader ++ bytes).take cut]) [] rfl
      rw [append_nil,← dir] at all
      refine all fun file member => ?_
      rcases mem_append.mp member with before | final
      · exact older file before
      · exact ⟨_,(mem_singleton.mp final).trans left⟩
    refine ⟨reopen_status w accepted (.inl rfl),fun calls c matched => ?_⟩
    rw [call_ok _ (matched c (mem_append_right _ (.head _)))]

theorem reopen_truncated_frame : (Wal.reopen ⟨[some ((segmentFile [.put 1 1 [5]]).take 20)],1000,0,none,0,0,0⟩).2 = .Ok :=
  ((reopen_truncated_iff ⟨[some ((segmentFile [.put 1 1 [5]]).take 20)],1000,0,none,0,0,0⟩ [] (segmentFile [.put 1 1 [5]]) (by
      intro file member
      exact ⟨_,mem_singleton.mp member⟩) 20 rfl).mpr (by decide)).1

/-- The file was created, and less than its header was written. -/
theorem reopen_fails_short_header : (List.range 16).all (fun cut =>
      decide ((Wal.reopen ⟨[some ((segmentFile [.put 1 1 [5]]).take cut)],1000,0,none,0,0,0⟩).2 =
        .aborted "wal header short")) = true := by
  decide

end PomaiCache.Wal
