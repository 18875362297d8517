import PomaiCache.Runtime
import PomaiCache.WalCrash

/-!
The freeze job: the frozen memtables are written into segments, the manifest and
the segment list are extended, the log is reset and a snapshot is published. The
job is a machine that is driven one loop iteration at a time and can be dropped
between any two of them.
-/
namespace PomaiCache
open Layers List

inductive Phase
  | kBuild
  | kFinalizeSegment
  | kCommitManifest
  | kInstall
  | kResetWal
  | kCleanup
  | kPublish
  | kDone
  deriving DecidableEq, Repr

structure FreezeState where
  phase : Phase
  memtables : List MemTable
  target_frozen_count : Nat
  mem_index : Nat
  cursor : Option Cursor
  builder : Option SegmentBuilder
  memtable_done_after_finalize : Bool
  built_segments : List Segment
  wal_epoch_at_start : Nat

inductive Progress
  | running (rt : VectorRuntime) (st : FreezeState)
  | complete (rt : VectorRuntime) (result : Status)

namespace VectorRuntime

variable (rt : VectorRuntime)

/-- One iteration in `kBuild`: one entry of the current memtable, or its end. -/
def freezeBuild (st : FreezeState) (now_sec : UInt64) : Progress :=
  match st.memtables[st.mem_index]? with
  | none => .running rt {st with phase := .kCommitManifest}
  | some mem =>
    match (st.cursor.getD mem.createCursor).next with
    | none =>
      -- the cursor is destroyed here, and with it the buffer its spans point into
      let st := {st with cursor := none}
      if st.builder.any fun b => decide (b.count > 0) then
        .running rt {st with memtable_done_after_finalize := true, phase := .kFinalizeSegment}
      else .running rt {st with mem_index := st.mem_index + 1}
    | some (entry,cursor) =>
      let md := entry.md.getD {}
      let expired := !entry.is_deleted && vectorMetaExpired rt.ttl_sec now_sec md
      let added := (st.builder.getD (.create rt.dim)).add entry.id entry.vec mem.dim (entry.is_deleted || expired) md
      let st := {st with cursor := some cursor, builder := some added.1}
      if added.2.ok then
        if added.1.count ≥ kMaxSegmentEntries then
          .running rt {st with memtable_done_after_finalize := false, phase := .kFinalizeSegment}
        else .running rt st
      else .complete rt (.internal ("Freeze: SegmentBuilder::Add failed: " ++ added.2.message))

/-- The iteration in `kFinalizeSegment`; no run gets here without a builder. -/
def freezeFinalize (st : FreezeState) : Progress :=
  match st.builder with
  | none => .running rt st
  | some builder =>
    let buf := match st.cursor with
      | some cursor => cursor.decode_buf
      | none => rt.platform.freed
    let st := {st with built_segments := st.built_segments ++ [builder.finish buf], builder := none}
    let st := if st.memtable_done_after_finalize then
      {st with mem_index := st.mem_index + 1, cursor := none, memtable_done_after_finalize := false} else st
    .running rt {st with phase := .kBuild}

/-- The loop of `kCommitManifest` and `kInstall`: from the last built segment to the
first, each is inserted at the front. -/
def insertFront (built list : List Segment) : List Segment := built.reverse.foldl (fun list s => s :: list) list

def eraseFrozen (count : Nat) : VectorRuntime :=
  if 0 < count ∧ count ≤ rt.frozen_mem.length then {rt with frozen_mem := rt.frozen_mem.drop count} else rt

def freezeResetWal (st : FreezeState) : Progress :=
  let rt := rt.eraseFrozen st.target_frozen_count
  if rt.wal_epoch = st.wal_epoch_at_start then
    let reset := rt.wal.reset
    if reset.2.ok then .running {rt with wal := reset.1} {st with phase := .kPublish}
    else .complete {rt with wal := reset.1} (.internal ("Freeze: WAL::Reset failed: " ++ reset.2.message))
  else .running rt {st with phase := .kPublish}

/-- One iteration of the freeze loop of `PumpBackgroundWork`. -/
def freezeStep (st : FreezeState) (now_sec : UInt64) : Progress :=
  match st.phase with
  | .kBuild => rt.freezeBuild st now_sec
  | .kFinalizeSegment => rt.freezeFinalize st
  | .kCommitManifest =>
    if st.built_segments.isEmpty then .running rt {st with phase := .kResetWal}
    else .running {rt with manifest := insertFront st.built_segments rt.manifest} {st with phase := .kInstall}
  | .kInstall =>
    .running {rt with segments := insertFront st.built_segments rt.segments} {st with phase := .kResetWal}
  | .kResetWal => rt.freezeResetWal st
  | .kPublish => .running rt.publishSnapshot {st with phase := .kDone}
  | .kDone => .complete rt .Ok
  | .kCleanup => .running rt st

/-- Iterations with these readings of the clock. How they are spread over calls of
`PumpBackgroundWork` makes no difference. -/
def runFreeze (rt : VectorRuntime) (st : FreezeState) : List UInt64 → Progress
  | [] => .running rt st
  | now_sec :: clock =>
    match rt.freezeStep st now_sec with
    | .running rt st => runFreeze rt st clock
    | .complete rt result => .complete rt result

def beginFreeze : FreezeState where
  phase := .kBuild
  memtables := rt.frozen_mem
  target_frozen_count := rt.frozen_mem.length
  mem_index := 0
  cursor := none
  builder := none
  memtable_done_after_finalize := false
  built_segments := []
  wal_epoch_at_start := rt.wal_epoch

/-- `HandleFreeze`, with a job that is cancelled when the clock has no more readings. -/
def freeze (clock : List UInt64) : VectorRuntime × Status :=
  let rt := if rt.mem.getCount > 0 then rt.rotateMemTable else rt
  if rt.frozen_mem.isEmpty then (rt,.Ok)
  else
    match rt.runFreeze rt.beginFreeze clock with
    | .running rt _ => (rt,.aborted "Freeze timed out")
    | .complete rt result => (rt,result)

end VectorRuntime

namespace MemTable

variable (m : MemTable)

def builderEntry : VectorId × Option Payload → BuilderEntry
  | (id,none) => ⟨id,.null,true,{}⟩
  | (id,some p) => ⟨id,if m.quantize_inmem then .decodeBuf else .arena p.floats,false,(m.metadata id).getD {}⟩

def decodeInto (buf : Vec) : VectorId × Option Payload → Vec
  | (_,none) => buf
  | (_,some p) => if m.quantize_inmem then p.decode m.platform m.dim.toNat else buf

/-- The segments that are written when the builder holds `entries`, the buffer holds
`buf`, and these slots are left. A full part is finished while the cursor lives,
the last one after it is gone. -/
def segmentsFrom (m : MemTable) (dim : UInt32) (freed : Vec) (entries : List BuilderEntry) (buf : Vec) :
    List (VectorId × Option Payload) → List Segment
  | [] => if entries.isEmpty then [] else [SegmentBuilder.finish ⟨dim,entries⟩ freed]
  | slot :: slots =>
    let entries := entries ++ [m.builderEntry slot]
    let buf := m.decodeInto buf slot
    if entries.length ≥ kMaxSegmentEntries then
      SegmentBuilder.finish ⟨dim,entries⟩ buf :: segmentsFrom m dim freed [] buf slots
    else segmentsFrom m dim freed entries buf slots

def segmentsOf (dim : UInt32) (freed : Vec) : List Segment :=
  m.segmentsFrom dim freed [] [] m.map.entries

def Unexpiring (ttl_sec : UInt32) (m : MemTable) : Prop :=
  ∀ id now_sec, VectorRuntime.vectorMetaExpired ttl_sec now_sec ((m.metadata id).getD {}) = false

lemma unexpiring_zero : m.Unexpiring 0 := by
  intro id now_sec
  simp [VectorRuntime.vectorMetaExpired]

end MemTable

namespace VectorRuntime

def frozenSegments (rt : VectorRuntime) : List Segment :=
  rt.frozen_mem.flatMap fun m => m.segmentsOf rt.dim rt.platform.freed

/-- The frozen tables fit the runtime, and the freeze takes nothing for expired. -/
def Freezable (rt : VectorRuntime) : Prop :=
  ∀ m ∈ rt.frozen_mem, m.dim = rt.dim ∧ m.Unexpiring rt.ttl_sec

lemma insertFront_eq (built list : List Segment) : insertFront built list = built ++ list := by
  rw [insertFront,foldl_reverse]
  simp

lemma eraseFrozen_all (rt : VectorRuntime) : rt.eraseFrozen rt.frozen_mem.length = {rt with frozen_mem := []} := by
  unfold eraseFrozen
  by_cases some_ : 0 < rt.frozen_mem.length
  · rw [if_pos ⟨some_,Nat.le_refl _⟩,drop_length]
  · have already : rt.frozen_mem = [] := eq_nil_of_length_eq_zero (by omega)
    rw [if_neg fun both => some_ both.1,← already]

variable (start : VectorRuntime)

def jobState (phase : Phase) (mem_index : Nat) (cursor : Option Cursor)
    (builder : Option SegmentBuilder) (ended : Bool) (built : List Segment) : FreezeState where
  phase := phase
  memtables := start.frozen_mem
  target_frozen_count := start.frozen_mem.length
  mem_index := mem_index
  cursor := cursor
  builder := builder
  memtable_done_after_finalize := ended
  built_segments := built
  wal_epoch_at_start := start.wal_epoch

variable (dim : UInt32)

def builderOf (entries : List BuilderEntry) : Option SegmentBuilder :=
  if entries.isEmpty then none else some ⟨dim,entries⟩

def committed : VectorRuntime :=
  {start with manifest := start.frozenSegments ++ start.manifest}

def installed : VectorRuntime :=
  {start.committed with segments := start.frozenSegments ++ start.segments}

def walReset : VectorRuntime :=
  {start.installed with
    frozen_mem := []
    wal := start.wal.reset.1}

def frozen : VectorRuntime := start.walReset.publishSnapshot

def iterations (later : List MemTable) : Nat := (later.map fun m => 2 * m.map.entries.length + 3).sum

section
variable (start : VectorRuntime)

/-- The states a job goes through, with a bound on the iterations that are left.
While it builds, what is built and what is still to build make up all segments of
the job; afterwards only the runtime changes. -/
inductive Job : Nat → VectorRuntime → FreezeState → Prop
  | between (past later : List MemTable) (built : List Segment) (tables : start.frozen_mem = past ++ later)
      (all : built ++ later.flatMap (fun m => m.segmentsOf start.dim start.platform.freed) = start.frozenSegments) :
      Job (iterations later + 6) start (start.jobState .kBuild past.length none none false built)
  | inside (past later : List MemTable) (m : MemTable) (entries : List BuilderEntry) (buf : Vec)
      (slots : List (VectorId × Option Payload)) (built : List Segment)
      (tables : start.frozen_mem = past ++ m :: later)
      (all : built ++ m.segmentsFrom start.dim start.platform.freed entries buf slots ++
        later.flatMap (fun m => m.segmentsOf start.dim start.platform.freed) = start.frozenSegments) :
      Job (2 * slots.length + 2 + iterations later + 6) start (start.jobState .kBuild past.length
        (some ⟨m,slots,buf⟩) (builderOf start.dim entries) false built)
  | full (past later : List MemTable) (m : MemTable) (entries : List BuilderEntry) (buf : Vec)
      (slots : List (VectorId × Option Payload)) (built : List Segment)
      (tables : start.frozen_mem = past ++ m :: later)
      (all : built ++ SegmentBuilder.finish ⟨start.dim,entries⟩ buf :: m.segmentsFrom start.dim start.platform.freed [] buf slots ++
        later.flatMap (fun m => m.segmentsOf start.dim start.platform.freed) = start.frozenSegments) :
      Job (2 * slots.length + 3 + iterations later + 6) start (start.jobState .kFinalizeSegment past.length
        (some ⟨m,slots,buf⟩) (some ⟨start.dim,entries⟩) false built)
  | ended (past later : List MemTable) (m : MemTable) (entries : List BuilderEntry) (built : List Segment)
      (tables : start.frozen_mem = past ++ m :: later)
      (all : built ++ [SegmentBuilder.finish ⟨start.dim,entries⟩ start.platform.freed] ++
        later.flatMap (fun m => m.segmentsOf start.dim start.platform.freed) = start.frozenSegments) :
      Job (1 + iterations later + 6) start (start.jobState .kFinalizeSegment past.length none (some ⟨start.dim,entries⟩) true built)
  | committing : Job 5 start (start.jobState .kCommitManifest start.frozen_mem.length none none false start.frozenSegments)
  | installing : Job 4 start.committed (start.jobState .kInstall start.frozen_mem.length none none false start.frozenSegments)
  | resetting : Job 3 start.installed (start.jobState .kResetWal start.frozen_mem.length none none false start.frozenSegments)
  | publishing : Job 2 start.walReset (start.jobState .kPublish start.frozen_mem.length none none false start.frozenSegments)
  | done : Job 1 start.frozen (start.jobState .kDone start.frozen_mem.length none none false start.frozenSegments)

end

def Continues (left : Nat) : Progress → Prop
  | .running rt st => ∃ fewer < left, Job start fewer rt st
  | .complete rt result => rt = start.frozen ∧ result = .Ok

variable {start : VectorRuntime}

lemma builderOf_getD (entries : List BuilderEntry) : (builderOf dim entries).getD (.create dim) = ⟨dim,entries⟩ := by
  cases entries <;> rfl

lemma builderOf_any (entries : List BuilderEntry) :
    ((builderOf dim entries).any fun b => decide (b.count > 0)) = !entries.isEmpty := by
  cases entries <;> rfl

lemma builderOf_append (entries : List BuilderEntry) (e : BuilderEntry) :
    builderOf dim (entries ++ [e]) = some ⟨dim,entries ++ [e]⟩ := by
  simp [builderOf]

lemma next_slot (m : MemTable) (id : VectorId) (value : Option Payload) (slots : List (VectorId × Option Payload)) (buf : Vec) :
    ∃ entry, Cursor.next ⟨m,(id,value) :: slots,buf⟩ = some (entry,⟨m,slots,m.decodeInto buf (id,value)⟩) ∧
      entry.md.getD {} = (if value.isSome then (m.metadata id).getD {} else {}) ∧
      ∀ b : SegmentBuilder, b.dim = m.dim → b.add entry.id entry.vec m.dim entry.is_deleted (entry.md.getD {}) =
          (⟨b.dim,b.entries ++ [m.builderEntry (id,value)]⟩,.Ok) := by
  cases value with
  | none => exact ⟨_,rfl,rfl,fun b _ => rfl⟩
  | some p =>
    by_cases quantized : m.quantize_inmem
    · refine ⟨⟨id,.decodeBuf,false,m.metadata id⟩,?_,rfl,fun b same => ?_⟩
      · simp [Cursor.next,quantized,MemTable.decodeInto]
      · simp [SegmentBuilder.add,same,MemTable.builderEntry,quantized]
    · refine ⟨⟨id,.arena p.floats,false,m.metadata id⟩,?_,rfl,fun b same => ?_⟩
      · simp [Cursor.next,quantized,MemTable.decodeInto]
      · simp [SegmentBuilder.add,same,MemTable.builderEntry,quantized]

variable {rt : VectorRuntime} {st : FreezeState}

lemma freezeBuild_slot (now_sec : UInt64)
    (current : st.memtables[st.mem_index]? = some m) (cursor : st.cursor.getD m.createCursor = ⟨m,slot :: slots,buf⟩)
    (builder : st.builder.getD (.create rt.dim) = ⟨rt.dim,entries⟩) (fits : m.dim = rt.dim) (young : m.Unexpiring rt.ttl_sec) :
    rt.freezeBuild st now_sec = .running rt (let next := {st with
        cursor := some ⟨m,slots,m.decodeInto buf slot⟩
        builder := some ⟨rt.dim,entries ++ [m.builderEntry slot]⟩}
      if (entries ++ [m.builderEntry slot]).length ≥ kMaxSegmentEntries then
        {next with
          memtable_done_after_finalize := false
          phase := .kFinalizeSegment}
      else next) := by
  obtain ⟨id,value⟩ := slot
  obtain ⟨entry,taken,md,added⟩ := next_slot m id value slots buf
  have keeps : vectorMetaExpired rt.ttl_sec now_sec (entry.md.getD {}) = false := by
    rw [md]
    split
    · exact young id now_sec
    · simp [vectorMetaExpired]
  have result := added ⟨rt.dim,entries⟩ fits.symm
  simp only [freezeBuild,current,cursor,taken,builder,keeps,Bool.and_false,Bool.or_false,result,Status.ok_Ok,
    if_true,SegmentBuilder.count]
  split <;> rfl

lemma freezeBuild_end (now_sec : UInt64)
    (current : st.memtables[st.mem_index]? = some m) (cursor : st.cursor.getD m.createCursor = ⟨m,[],buf⟩) :
    rt.freezeBuild st now_sec = .running rt (if st.builder.any fun b => decide (b.count > 0) then
        {st with
          cursor := none
          memtable_done_after_finalize := true
          phase := .kFinalizeSegment}
      else
        {st with
          cursor := none
          mem_index := st.mem_index + 1}) := by
  simp only [freezeBuild,current,cursor,Cursor.next]
  split <;> rfl

section Steps
variable {past later : List MemTable} {m : MemTable} {entries : List BuilderEntry} {buf : Vec}
  {slots : List (VectorId × Option Payload)} {built : List Segment} {cursor : Option Cursor}
  {builder : Option SegmentBuilder} (now_sec : UInt64) (tables : start.frozen_mem = past ++ m :: later)
include tables

lemma current_table : start.frozen_mem[past.length]? = some m := by
  rw [tables]
  simp

lemma continues_slot (fits : start.Freezable)
    (all : built ++ m.segmentsFrom start.dim start.platform.freed entries buf (slot :: slots) ++
      later.flatMap (fun m => m.segmentsOf start.dim start.platform.freed) = start.frozenSegments)
    (at_ : cursor.getD m.createCursor = ⟨m,slot :: slots,buf⟩) (building : builder.getD (.create start.dim) = ⟨start.dim,entries⟩) :
    Continues start (2 * slots.length + 4 + iterations later + 6)
      (start.freezeBuild (start.jobState .kBuild past.length cursor builder false built) now_sec) := by
  obtain ⟨same,young⟩ := fits m (by rw [tables]; simp)
  rw [freezeBuild_slot now_sec (current_table tables) at_ building same young]
  rw [MemTable.segmentsFrom] at all
  by_cases whole : (entries ++ [m.builderEntry slot]).length ≥ kMaxSegmentEntries
  · rw [if_pos whole] at all ⊢
    exact ⟨_,by omega,.full past later m _ _ slots built tables all⟩
  · rw [if_neg whole] at all ⊢
    have next := Job.inside past later m _ _ slots built tables all
    rw [builderOf_append] at next
    exact ⟨_,by omega,next⟩

lemma continues_end (all : built ++ m.segmentsFrom start.dim start.platform.freed entries buf [] ++
      later.flatMap (fun m => m.segmentsOf start.dim start.platform.freed) = start.frozenSegments)
    (at_ : cursor.getD m.createCursor = ⟨m,[],buf⟩) : Continues start (2 + iterations later + 6)
      (start.freezeBuild (start.jobState .kBuild past.length cursor (builderOf start.dim entries) false built) now_sec) := by
  rw [freezeBuild_end now_sec (current_table tables) at_]
  rw [MemTable.segmentsFrom] at all
  simp only [jobState,builderOf_any]
  by_cases nothing : entries.isEmpty
  · rw [if_pos nothing,append_nil] at all
    have next := Job.between (past ++ [m]) later built (by simp [tables]) all
    simp only [builderOf,nothing,Bool.not_true,if_false,if_true,Bool.false_eq_true]
    rw [length_append] at next
    exact ⟨_,by omega,next⟩
  · rw [if_neg nothing] at all
    have next := Job.ended past later m entries built tables all
    simp only [builderOf,nothing,Bool.not_false,if_true,if_false,Bool.false_eq_true]
    exact ⟨_,by omega,next⟩

end Steps

lemma reset_ok (w : Wal) : w.reset.2 = .Ok := by
  have missing : (w.resetCut w.dir.length).firstMissing = 0 := by
    unfold Wal.resetCut
    cases w.dir with
    | nil => rfl
    | cons file rest => cases file <;> rfl
  exact (Wal.reopen_missing (w := {w with dir := w.resetCut w.dir.length}) missing).1

lemma Continues.mono (le : left ≤ more) (continues : Continues start left progress) : Continues start more progress := by
  cases progress with
  | running rt st =>
    obtain ⟨fewer,less,job⟩ := continues
    exact ⟨fewer,by omega,job⟩
  | complete rt result => exact continues

lemma continues_between (fits : start.Freezable) (tables : start.frozen_mem = past ++ later)
    (all : built ++ later.flatMap (fun m => m.segmentsOf start.dim start.platform.freed) = start.frozenSegments)
    (now_sec : UInt64) : Continues start (iterations later + 6)
      (start.freezeBuild (start.jobState .kBuild past.length none none false built) now_sec) := by
  cases later with
  | nil =>
    rw [append_nil] at tables
    rw [flatMap_nil,append_nil] at all
    have last : past.length = start.frozen_mem.length := by rw [tables]
    have beyond : start.frozen_mem[start.frozen_mem.length]? = none := by simp
    simp only [jobState,freezeBuild,last,beyond,all]
    exact ⟨5,by omega,.committing⟩
  | cons m later =>
    rw [flatMap_cons,← append_assoc,MemTable.segmentsOf] at all
    have count : iterations (m :: later) = 2 * m.map.entries.length + 3 + iterations later := by
      simp [iterations]
    cases slots : m.map.entries with
    | nil =>
      rw [slots] at all count
      have at_ : (none : Option Cursor).getD m.createCursor = ⟨m,[],[]⟩ := by
        simp [MemTable.createCursor,slots]
      have ends := continues_end now_sec tables all at_
      exact ends.mono (by simp [count])
    | cons slot rest =>
      rw [slots] at all count
      have at_ : (none : Option Cursor).getD m.createCursor = ⟨m,slot :: rest,[]⟩ := by
        simp [MemTable.createCursor,slots]
      exact (continues_slot now_sec tables fits all at_ rfl).mono (by rw [count,length_cons]; omega)

lemma Job.step (fits : start.Freezable)
    (job : Job start left rt st) (now_sec : UInt64) : Continues start left (rt.freezeStep st now_sec) := by
  cases job with
  | between past later built tables all => exact continues_between fits tables all now_sec
  | inside past later m entries buf slots built tables all =>
    cases slots with
    | nil => exact (continues_end now_sec tables all rfl).mono (by simp)
    | cons slot slots =>
      exact (continues_slot now_sec tables fits all rfl (builderOf_getD _ _)).mono (by simp; omega)
  | full past later m entries buf slots built tables all =>
    rw [← singleton_append,← append_assoc built] at all
    exact ⟨_,by omega,.inside past later m [] buf slots _ tables all⟩
  | ended past later m entries built tables all =>
    have next := Job.between (past ++ [m]) later _ (by simp [tables]) all
    rw [length_append] at next
    exact ⟨_,by omega,next⟩
  | committing =>
    by_cases nothing : start.frozenSegments.isEmpty
    · have none_ : start.frozenSegments = [] := by simpa using nothing
      have next : Job start _ _ _ := Job.resetting
      simp only [freezeStep,jobState,nothing,if_true]
      simp only [installed,committed,none_,nil_append,jobState] at next ⊢
      exact ⟨3,by omega,next⟩
    · simp only [freezeStep,jobState,nothing,insertFront_eq]
      exact ⟨4,by omega,.installing⟩
  | installing =>
    simp only [freezeStep,jobState,insertFront_eq]
    exact ⟨3,by omega,.resetting⟩
  | resetting =>
    have erased := eraseFrozen_all start.installed
    have count : start.installed.frozen_mem.length = start.frozen_mem.length := rfl
    rw [count] at erased
    simp only [freezeStep,jobState,freezeResetWal,erased]
    rw [if_pos (by rfl)]
    simp only [reset_ok,Status.ok_Ok,if_true]
    exact ⟨2,by omega,.publishing⟩
  | publishing => exact ⟨1,by omega,.done⟩
  | done => exact ⟨rfl,rfl⟩

lemma Job.pos (job : Job start left rt st) : 0 < left := by
  cases job <;> omega

lemma Job.run (fits : start.Freezable) (job : Job start left rt st) (clock : List UInt64) : match rt.runFreeze st clock with
    | .running rt st => ∃ fewer, fewer + clock.length ≤ left ∧ Job start fewer rt st
    | .complete rt result => rt = start.frozen ∧ result = .Ok := by
  induction clock generalizing left rt st with
  | nil => exact ⟨left,by simp,job⟩
  | cons now_sec clock ih =>
    have next := job.step fits now_sec
    rw [runFreeze]
    cases moved : rt.freezeStep st now_sec with
    | complete rt result =>
      rw [moved] at next
      exact next
    | running rt st =>
      rw [moved] at next
      obtain ⟨fewer,less,job⟩ := next
      grind

lemma beginFreeze_job (start : VectorRuntime) : Job start (iterations start.frozen_mem + 6) start start.beginFreeze :=
  .between [] start.frozen_mem [] rfl rfl

lemma rotate_guarded (rt : VectorRuntime) : (if rt.mem.getCount > 0 then rt.rotateMemTable else rt) = rt.rotateMemTable := by
  grind [rotateMemTable]

/-- What `Freeze` does: it rotates, and with nothing frozen that is all; otherwise
the job completes with `Ok`, or it is cancelled in one of its states. -/
lemma freeze_spec (fits : rt.rotateMemTable.Freezable) (clock : List UInt64) :
    rt.rotateMemTable.frozen_mem = [] ∧ rt.freeze clock = (rt.rotateMemTable,.Ok) ∨
      rt.rotateMemTable.frozen_mem ≠ [] ∧ rt.freeze clock = (rt.rotateMemTable.frozen,.Ok) ∨
      ∃ left cut st, Job rt.rotateMemTable left cut st ∧ rt.freeze clock = (cut,.aborted "Freeze timed out") ∧
        left + clock.length ≤ iterations rt.rotateMemTable.frozen_mem + 6 := by
  simp only [freeze,rotate_guarded]
  by_cases nothing : rt.rotateMemTable.frozen_mem.isEmpty
  · grind
  · rw [if_neg nothing]
    refine .inr ?_
    have run := (beginFreeze_job rt.rotateMemTable).run fits clock
    grind

lemma freeze_completes (fits : rt.rotateMemTable.Freezable)
    (enough : iterations rt.rotateMemTable.frozen_mem + 6 ≤ clock.length) : (rt.freeze clock).2 = .Ok := by
  rcases freeze_spec fits clock with ⟨_,same⟩ | ⟨_,same⟩ | ⟨left,cut,st,job,_,bound⟩
  · rw [same]
  · rw [same]
  · have := job.pos
    omega

end VectorRuntime

end PomaiCache
