import PomaiCache.KeyValue

/-!
The key-value engine and its files. As long as nothing is evicted, the files show under each
key what the map shows, so a new engine on the same path answers as the old one does, and
opening an engine that is open changes no answer.
-/
namespace PomaiCache
open Codec RecordLog Layers List Option

namespace KeyValueEngine
open KvMap

/-- Under each key the map shows what the files show, apart from entries that have expired.
Keys that only `kv.log` has may have been created at another time. -/
structure Tracks (e : KeyValueEngine) (log : List TimedRecord) (now : UInt64) : Prop where
  file : e.kv_timed_log = log.flatMap TimedRecord.encode
  fits : ∀ r ∈ log, r.Fits
  lengths : ∀ key entry, e.kv.lookup key = some entry → key.length < 2 ^ 32 ∧ entry.value.length < 2 ^ 32
  roomy : Roomy e.retention e.kv
  written : ∀ key entry, lastWrite (log.flatMap TimedRecord.writes) key = some (some entry) →
    e.kv.lookup key = some entry ∨ e.kv.lookup key = none ∧ e.retention.isExpired entry now = true
  deleted : ∀ key, lastWrite (log.flatMap TimedRecord.writes) key = some none → e.kv.lookup key = none
  old : ∀ key, lastWrite (log.flatMap TimedRecord.writes) key = none → ∀ entry, e.kv.lookup key = some entry →
    ((legacy 0 e.kv_log).lookup key).map KvEntry.value = some entry.value

namespace Tracks
variable {e : KeyValueEngine} {log : List TimedRecord} {now later : UInt64}

lemma records (tracks : Tracks e log now) : TimedRecord.reader.all e.kv_timed_log = log :=
  TimedRecord.reader.all_file tracks.file fun r member => TimedRecord.next_encode (tracks.fits r member)

lemma timedWrites (tracks : Tracks e log now) : e.timedWrites = log.flatMap TimedRecord.writes := by
  rw [KeyValueEngine.timedWrites,tracks.records]

lemma atLater (tracks : Tracks e log now) (le : now ≤ later) : Tracks e log later :=
  {tracks with
    written := fun key entry last => (tracks.written key entry last).imp_right fun gone =>
      ⟨gone.1,RetentionPolicy.isExpired_later le gone.2⟩}

lemma purged (tracks : Tracks e log now) (le : now ≤ later) : Tracks {e with kv := unexpired e.retention later e.kv} log later := by
  have inside {key : Bytes} {entry : KvEntry} (held : (unexpired e.retention later e.kv).lookup key = some entry) :
      e.kv.lookup key = some entry := lookup_unexpired_some held
  have roomy := tracks.roomy.unexpired later
  constructor
  · exact tracks.file
  · exact tracks.fits
  · intro key entry held
    exact tracks.lengths key entry (inside held)
  · exact roomy
  · intro key entry last
    simp only [lookup_unexpired]
    rcases (tracks.atLater le).written key entry last with held | gone
    · simp [*]
    · exact .inr ⟨by simp [gone.1],gone.2⟩
  · intro key last
    simp [lookup_unexpired,tracks.deleted key last]
  · intro key last entry held
    exact tracks.old key last entry (inside held)

lemma put (tracks : Tracks e log now) (le : now ≤ later) (short : key.length < 2 ^ 32 ∧ value.length < 2 ^ 32)
    (roomy : Roomy e.retention (unexpired e.retention later (e.kv.insert key ⟨value,ts⟩))) : Tracks {e with
      kv := unexpired e.retention later (e.kv.insert key ⟨value,ts⟩)
      kv_timed_log := e.kv_timed_log ++ TimedRecord.encode ⟨1,ts,key,value⟩} (log ++ [⟨1,ts,key,value⟩]) later := by
  have last (other : Bytes) : lastWrite ((log ++ [(⟨1,ts,key,value⟩ : TimedRecord)]).flatMap TimedRecord.writes) other =
      if key = other then some (some ⟨value,ts⟩) else lastWrite (log.flatMap TimedRecord.writes) other := by
    rw [flatMap_append,lastWrite_append]
    simp only [flatMap_cons,flatMap_nil,TimedRecord.writes,if_true,append_nil,lastWrite_singleton]
    split <;> rfl
  have held (other : Bytes) : (e.kv.insert key ⟨value,ts⟩).lookup other =
      if key = other then some ⟨value,ts⟩ else e.kv.lookup other :=
    Dict.lookup_write e.kv (key,some ⟨value,ts⟩) other
  have fits : ∀ r ∈ log ++ [⟨1,ts,key,value⟩], r.Fits := by
    intro r member
    rcases mem_append.mp member with earlier | here
    · exact tracks.fits r earlier
    · rw [mem_singleton.mp here]
      exact short
  refine ⟨by simp [tracks.file],fits,fun other entry found => ?_,roomy,fun other entry written => ?_,
    fun other deleted => ?_,fun other unwritten entry found => ?_⟩
  · have inside := lookup_unexpired_some found
    rw [held] at inside
    split at inside
    · next same =>
      cases inside
      exact same ▸ short
    · exact tracks.lengths other entry inside
  · rw [last] at written
    simp only [lookup_unexpired,held]
    split at written
    · next same =>
      grind
    · next other_ =>
      simp only [other_,if_false,← lookup_unexpired]
      exact (tracks.purged le).written other entry written
  · grind [deleted,lookup_unexpired]
  · rw [last] at unwritten
    split at unwritten
    · cases unwritten
    · next other_ =>
      have inside := lookup_unexpired_some found
      rw [held,if_neg other_] at inside
      exact tracks.old other unwritten entry inside

lemma delete (tracks : Tracks e log now) (ts : UInt64) (short : key.length < 2 ^ 32) :
    Tracks (e.delete ts key) (log ++ [⟨2,ts,key,[]⟩]) now := by
  have last (other : Bytes) : lastWrite ((log ++ [(⟨2,ts,key,[]⟩ : TimedRecord)]).flatMap TimedRecord.writes) other =
      if key = other then some none else lastWrite (log.flatMap TimedRecord.writes) other := by
    rw [flatMap_append,lastWrite_append]
    have second : (2 : UInt8) ≠ 1 := by decide
    simp only [flatMap_cons,flatMap_nil,TimedRecord.writes,second,if_false,if_true,append_nil,lastWrite_singleton]
    split <;> rfl
  have held (other : Bytes) : (e.kv.erase key).lookup other = if key = other then none else e.kv.lookup other :=
    Dict.lookup_write e.kv (key,none) other
  have inside {other : Bytes} {entry : KvEntry} (found : (e.kv.erase key).lookup other = some entry) :
      e.kv.lookup other = some entry := by
    grind
  have fits : ∀ r ∈ log ++ [⟨2,ts,key,[]⟩], r.Fits := by
    intro r member
    rcases mem_append.mp member with earlier | here
    · exact tracks.fits r earlier
    · rw [mem_singleton.mp here]
      exact ⟨short,by simp⟩
  refine ⟨by simp [KeyValueEngine.delete,tracks.file],fits,fun other entry found => tracks.lengths other entry (inside found),
    tracks.roomy.of_le fun other entry found => ⟨entry,inside found,rfl⟩,fun other entry written => ?_,
    fun other deleted => ?_,fun other unwritten entry found => ?_⟩
  · rw [last] at written
    split at written
    · cases written
    · next other_ =>
      simp only [KeyValueEngine.delete,held,other_,if_false]
      exact tracks.written other entry written
  · rw [last] at deleted
    simp only [KeyValueEngine.delete,held]
    split at deleted
    · next same => rw [if_pos same]
    · next other_ =>
      rw [if_neg other_]
      exact tracks.deleted other deleted
  · rw [last] at unwritten
    split at unwritten
    · cases unwritten
    · exact tracks.old other unwritten entry (inside found)

lemma rewritten (walk : Dict.Walk Bytes KvEntry) (roomy : Roomy e.retention e.kv)
    (lengths : ∀ key entry, e.kv.lookup key = some entry → key.length < 2 ^ 32 ∧ entry.value.length < 2 ^ 32) :
    Tracks {e with kv_timed_log := (liveRecords walk e.kv).flatMap TimedRecord.encode} (liveRecords walk e.kv) now := by
  have last (key : Bytes) : lastWrite ((liveRecords walk e.kv).flatMap TimedRecord.writes) key = (e.kv.lookup key).map some := by
    have writes : (liveRecords walk e.kv).flatMap TimedRecord.writes = (walk.order e.kv).map fun entry => (entry.1,some entry.2) := by
      simp only [liveRecords,flatMap_map,TimedRecord.writes,if_true]
      exact map_eq_flatMap.symm
    rw [writes]
    exact Dict.lastWrite_walk walk e.kv key
  refine ⟨rfl,fun r member => ?_,lengths,roomy,fun key entry written => ?_,fun key deleted => ?_,
    fun key unwritten entry held => ?_⟩
  · obtain ⟨entry,inside,rfl⟩ := mem_map.mp member
    exact lengths entry.1 entry.2 (Dict.mem_entries.mp ((walk.perm e.kv).mem_iff.mp inside))
  · simp_all
  · simp_all
  · grind

end Tracks

variable (now : UInt64)

variable (rs : List LegacyRecord)

lemma loaded_append (r : LegacyRecord) : loaded now (rs ++ [r]) = (loaded now rs).writeAll (r.writes now) := by
  simp [loaded,Dict.writeAll]

lemma lookup_loaded (key : Bytes) : (loaded now rs).lookup key = ((loaded 0 rs).lookup key).map (KvEntry.restamp now) := by
  have writes : rs.flatMap (LegacyRecord.writes now) =
      (rs.flatMap (LegacyRecord.writes 0)).map fun w => (w.1,w.2.map (KvEntry.restamp now)) := by
    rw [map_flatMap]
    exact flatMap_congr fun r _ => r.writes_restamp now
  rw [loaded,writes,Dict.lookup_writeAll,lastWrite_map,loaded,Dict.lookup_writeAll]
  cases lastWrite (rs.flatMap (LegacyRecord.writes 0)) key <;> rfl

lemma size_loaded_le : (loaded now rs).size ≤ (loaded 0 rs).size := by
  apply Dict.size_le
  intro key
  simp [lookup_loaded now]

lemma foldl_loadLegacy {max_entries : Nat} {rs : List LegacyRecord}
    (fits : max_entries = 0 ∨ ∀ n ≤ rs.length, (loaded 0 (rs.take n)).size ≤ max_entries)
    (walk : Dict.Walk Bytes KvEntry) (now : UInt64) : rs.foldl (loadLegacy walk max_entries now) ∅ = loaded now rs := by
  induction rs using List.reverseRecOn with
  | nil => rfl
  | append_singleton rs r ih =>
    have before : rs.foldl (loadLegacy walk max_entries now) ∅ = loaded now rs := by
      apply ih
      refine fits.imp_right fun all n le => ?_
      have fit := all n (by rw [length_append]; omega)
      rwa [take_append_of_le_length le] at fit
    have kept : ¬(max_entries > 0 ∧ (loaded now (rs ++ [r])).size > max_entries) := by
      rintro ⟨positive,large⟩
      rcases fits with none | all
      · omega
      · have fit := all (rs ++ [r]).length (Nat.le_refl _)
        have le := size_loaded_le now (rs ++ [r])
        rw [take_length] at fit
        omega
    rw [foldl_append,before,foldl_cons,foldl_nil,loadLegacy,← loaded_append]
    simp only [if_neg kept]

lemma legacy_lengths {now : UInt64} {kv_log key : Bytes} {entry : KvEntry}
    (held : (legacy now kv_log).lookup key = some entry) : key.length < 2 ^ 32 ∧ entry.value.length < 2 ^ 32 := by
  have short : ∀ r ∈ LegacyRecord.reader.all kv_log, r.key.length < 2 ^ 32 ∧ r.value.length < 2 ^ 32 :=
    LegacyRecord.reader.forall_all LegacyRecord.next_lengths kv_log
  rw [legacy,loaded,Dict.lookup_writeAll] at held
  cases last : lastWrite ((LegacyRecord.reader.all kv_log).flatMap (LegacyRecord.writes now)) key with
  | none =>
    rw [last] at held
    cases held
  | some value =>
    rw [last] at held
    obtain ⟨r,member,written⟩ := mem_flatMap.mp (mem_of_lastWrite last)
    grind [LegacyRecord.writes]

variable {e : KeyValueEngine} {now later : UInt64}

lemma openEngine_roomy (empty : e.kv = ∅) (loads : LoadsAll e.max_entries e.kv_log)
    (roomy : Roomy e.retention (unexpired e.retention later ((legacy now e.kv_log).writeAll e.timedWrites)))
    (walk : Dict.Walk Bytes KvEntry) : openEngine walk now later e =
      {e with kv := unexpired e.retention later ((legacy now e.kv_log).writeAll e.timedWrites)} := by
  have old : (LegacyRecord.reader.all e.kv_log).foldl (loadLegacy walk e.max_entries now) e.kv = legacy now e.kv_log := by
    rw [empty,foldl_loadLegacy loads]
    rfl
  have timed : (TimedRecord.reader.all e.kv_timed_log).foldl (fun kv r => kv.writeAll r.writes) (legacy now e.kv_log) =
      (legacy now e.kv_log).writeAll e.timedWrites := foldl_flatMap.symm
  rw [openEngine]
  simp only [old,timed]
  rw [enforceRetention_roomy roomy]

/-! ### Runs and the reopening behind them -/

lemma call_settings (e : KeyValueEngine) (c : KvCall) : (e.call c).max_entries = e.max_entries ∧ (e.call c).kv_log = e.kv_log := by
  cases c with
  | put walk now later key value =>
    rw [call,KeyValueEngine.put]
    split <;> exact ⟨rfl,rfl⟩
  | delete now key => exact ⟨rfl,rfl⟩
  | compact walk now => exact ⟨rfl,rfl⟩
  | setRetentionPolicy walk now later retention => exact ⟨rfl,rfl⟩

lemma runAll_settings (e : KeyValueEngine) (calls : List KvCall) :
    (e.runAll calls).max_entries = e.max_entries ∧ (e.runAll calls).kv_log = e.kv_log := by
  induction calls generalizing e with
  | nil => exact ⟨rfl,rfl⟩
  | cons c rest ih =>
    obtain ⟨entries,log⟩ := ih (e.call c)
    exact ⟨entries.trans (e.call_settings c).1,log.trans (e.call_settings c).2⟩

namespace Tracks
variable {e : KeyValueEngine} {log : List TimedRecord} {now later : UInt64}

lemma compact (lengths : ∀ key entry, e.kv.lookup key = some entry → key.length < 2 ^ 32 ∧ entry.value.length < 2 ^ 32)
    (roomy : Roomy e.retention (unexpired e.retention later e.kv)) (walk : Dict.Walk Bytes KvEntry) :
    ∃ after, Tracks (e.compact walk later) after later := by
  rw [KeyValueEngine.compact,enforceRetention_roomy roomy]
  exact ⟨_,rewritten walk roomy fun key entry held => lengths key entry (lookup_unexpired_some held)⟩

lemma call (tracks : Tracks e log now) (spares : e.Spares c) (begins : now ≤ c.begins)
    (ends : c.begins ≤ c.ends) : ∃ after, Tracks (e.call c) after c.ends := by
  cases c with
  | put walk ts later key value =>
    have le : now ≤ later := UInt64.le_trans begins ends
    rw [KeyValueEngine.call,KeyValueEngine.put]
    split
    · exact ⟨log,tracks.atLater le⟩
    · next nonempty =>
      rcases spares with rfl | ⟨short,short',room,roomy⟩
      · exact absurd rfl nonempty
      · have kept : ¬(e.max_entries > 0 ∧ e.kv.size ≥ e.max_entries ∧ e.kv.lookup key = none) := by
          grind
        simp only [if_neg kept]
        rw [enforceRetention_roomy roomy]
        exact ⟨_,tracks.put le ⟨short,short'⟩ roomy⟩
  | delete ts key => exact ⟨_,(tracks.delete ts spares).atLater begins⟩
  | compact walk ts => exact compact tracks.lengths spares walk
  | setRetentionPolicy walk ts later retention =>
    have roomy : Roomy retention (unexpired retention ts e.kv) := spares
    rw [KeyValueEngine.call,KeyValueEngine.setRetentionPolicy,enforceRetention_roomy roomy]
    exact compact (fun key entry held => tracks.lengths key entry (lookup_unexpired_some held)) (roomy.unexpired later) walk

lemma runAll (tracks : Tracks e log now) (clock : Clock now last calls)
    (spares : e.SparesAll calls) : ∃ after, Tracks (e.runAll calls) after last := by
  induction calls generalizing e log now with
  | nil => exact ⟨log,tracks.atLater clock⟩
  | cons c rest ih =>
    obtain ⟨begins,ends,clock⟩ := clock
    obtain ⟨after,tracks⟩ := tracks.call spares.1 begins ends
    exact ih tracks clock spares.2

end Tracks

lemma Tracks.opened {max_entries : Nat} {retention : RetentionPolicy} {kv_log : Bytes}
    (loads : LoadsAll max_entries kv_log) (roomy : Roomy retention (unexpired retention later (legacy now kv_log)))
    (walk : Dict.Walk Bytes KvEntry) : Tracks (openEngine walk now later (created max_entries retention kv_log)) [] later := by
  have opened : openEngine walk now later (created max_entries retention kv_log) =
      ⟨max_entries,retention,unexpired retention later (legacy now kv_log),kv_log,[]⟩ :=
    openEngine_roomy rfl loads roomy walk
  rw [opened]
  constructor
  · rfl
  · intro r member
    cases member
  · intro key entry held
    exact legacy_lengths (lookup_unexpired_some held)
  · exact roomy
  · intro key entry written
    cases written
  · intro key deleted
    cases deleted
  · intro key _ entry held
    have loaded := lookup_unexpired_some held
    rw [legacy,lookup_loaded] at loaded
    obtain ⟨old,found,rfl⟩ := map_eq_some_iff.mp loaded
    exact congrArg (Option.map KvEntry.value) found

lemma Tracks.shown (tracks : Tracks e log now) (alive : e.LegacyAlive now) (key : Bytes) :
    ((unexpired e.retention now ((legacy now e.kv_log).writeAll e.timedWrites)).lookup key).map KvEntry.value =
      ((unexpired e.retention now e.kv).lookup key).map KvEntry.value := by
  rw [lookup_unexpired,lookup_unexpired,Dict.lookup_writeAll,tracks.timedWrites]
  cases last : lastWrite (log.flatMap TimedRecord.writes) key with
  | some value =>
    cases value with
    | none => rw [tracks.deleted key last,getD_some]
    | some entry =>
      rcases tracks.written key entry last with held | ⟨gone,expired⟩
      · rw [held,getD_some]
      · simp [gone,expired]
  | none =>
    rw [getD_none,legacy,lookup_loaded]
    cases old : (loaded 0 (LegacyRecord.reader.all e.kv_log)).lookup key with
    | none =>
      cases held : e.kv.lookup key with
      | none => rfl
      | some entry =>
        have value := tracks.old key last entry held
        rw [legacy,old] at value
        cases value
    | some entry =>
      obtain ⟨current,held,fresh⟩ := alive key (by rw [tracks.timedWrites,last]) (by rw [legacy,old]; rfl)
      have value := tracks.old key last current held
      rw [legacy,old] at value
      have loaded : e.retention.isExpired (entry.restamp now) now = false := RetentionPolicy.isExpired_created ..
      rw [held,map_some,filter_some_pos (by simp [loaded]),filter_some_pos (by simp [fresh])]
      exact value

lemma get_toOption (e : KeyValueEngine) (key : Bytes) :
    (e.get now key).toOption = ((unexpired e.retention now e.kv).lookup key).map KvEntry.value := by
  rw [lookup_unexpired,get]
  grind [Except.toOption]

/-- Nothing is evicted by a run, and at its end every key that only the older log has is
held: a new engine on the same files answers as the engine does, and where no entry has
expired it holds the same values under the same keys. -/
theorem reopened_same (max_entries : Nat) (retention : RetentionPolicy) (kv_log : Bytes) (walk walk' : Dict.Walk Bytes KvEntry)
    (now later last : UInt64) (calls : List KvCall) (loads : LoadsAll max_entries kv_log)
    (roomy : Roomy retention (unexpired retention later (legacy now kv_log))) (clock : Clock later last calls)
    (spares : (openEngine walk now later (created max_entries retention kv_log)).SparesAll calls)
    (alive : ((openEngine walk now later (created max_entries retention kv_log)).runAll calls).LegacyAlive last) :
    let e := (openEngine walk now later (created max_entries retention kv_log)).runAll calls
    (∀ key, ((e.reopened walk' last).get last key).toOption = (e.get last key).toOption) ∧
    ((∀ key entry, e.kv.lookup key = some entry → e.retention.isExpired entry last = false) →
      ∀ key, ((e.reopened walk' last).kv.lookup key).map KvEntry.value = (e.kv.lookup key).map KvEntry.value) := by
  intro e
  obtain ⟨log,tracks⟩ := (Tracks.opened loads roomy walk).runAll clock spares
  have settings := runAll_settings (openEngine walk now later (created max_entries retention kv_log)) calls
  have loads' : LoadsAll e.max_entries e.kv_log := by
    rw [settings.1,settings.2]
    exact loads
  have shown := tracks.shown alive
  have roomy' : Roomy e.retention (unexpired e.retention last ((legacy last e.kv_log).writeAll e.timedWrites)) := by
    apply (tracks.roomy.unexpired last).of_le
    intro key entry held
    have value := shown key
    rw [held] at value
    obtain ⟨other,found,same⟩ := map_eq_some_iff.mp value.symm
    exact ⟨other,found,same.symm⟩
  have opened : e.reopened walk' last =
      {e with kv := unexpired e.retention last ((legacy last e.kv_log).writeAll e.timedWrites)} := by
    have open_ := openEngine_roomy (e := {e with kv := ∅}) rfl loads' roomy' walk'
    exact open_
  rw [opened]
  constructor
  · grind [get_toOption,lookup_unexpired,Option.filter_filter]
  · intro fresh key
    have all : unexpired e.retention last e.kv = e.kv := Dict.keep_eq_self fun entry member => by
      simp [fresh entry.1 entry.2 (Dict.mem_entries.mp member)]
    grind

def olderLog : Bytes := [1,1,0,0,0,1,0,0,0,97,7]

def sparingCalls : List KvCall :=
  [.put .plain 11 11 [98] [1,2],.compact .plain 12,.put .plain 13 14 [99] [3],.delete 15 [98],
    .setRetentionPolicy .plain 16 16 ⟨50,2,4⟩,.put .plain 17 17 [97] [8]]

theorem reopened_same_kept :
    let e := (openEngine .plain 10 10 (created 3 ⟨100,3,10⟩ olderLog)).runAll sparingCalls
    (∀ key, ((e.reopened .plain 20).get 20 key).toOption = (e.get 20 key).toOption) ∧
    ((∀ key entry, e.kv.lookup key = some entry → e.retention.isExpired entry 20 = false) →
      ∀ key, ((e.reopened .plain 20).kv.lookup key).map KvEntry.value = (e.kv.lookup key).map KvEntry.value) :=
  reopened_same 3 ⟨100,3,10⟩ olderLog .plain .plain 10 10 20 sparingCalls (by decide +kernel) (by decide +kernel)
    (by decide +kernel) (by decide +kernel) fun key _ old => by
      have keys : (legacy 0 ((openEngine .plain 10 10 (created 3 ⟨100,3,10⟩ olderLog)).runAll sparingCalls).kv_log).keys = [[97]] := by
        decide +kernel
      have member := AList.mem_keys.mp (AList.lookup_isSome.mp old)
      rw [keys] at member
      cases mem_singleton.mp member
      exact ⟨⟨[8],17⟩,by decide +kernel,by decide +kernel⟩

/-- With room for one entry the second put evicts the first, which no file records: the
reopened engine has it again. -/
theorem reopened_evicted :
    let e := (openEngine .plain 1 1 (created 1 {} [])).runAll [.put .plain 2 2 [97] [7],.put .plain 3 3 [98] [8]]
    (e.get 4 [97]).toOption = none ∧ ((e.reopened .plain 4).get 4 [97]).toOption = some [7] := by
  decide +kernel

/-! ### Opening an engine that is open -/

inductive Step
  | call (c : KvCall)
  | restart (walk : Dict.Walk Bytes KvEntry) (now later : UInt64)

def Step.begins : Step → UInt64
  | call c => c.begins
  | restart _ now _ => now

def Step.ends : Step → UInt64
  | call c => c.ends
  | restart _ _ later => later

/-- The clock does not run backwards between `now` and the time `last` behind the steps. -/
def Times (now last : UInt64) : List Step → Prop
  | [] => now ≤ last
  | s :: rest => now ≤ s.begins ∧ s.begins ≤ s.ends ∧ Times s.ends last rest

def step (e : KeyValueEngine) : Step → KeyValueEngine
  | .call c => e.call c
  | .restart walk now later => openEngine walk now later {e with kv := ∅}

def runSteps (e : KeyValueEngine) (steps : List Step) : KeyValueEngine := steps.foldl step e

/-- The step evicts nothing, and what it logs can be read back. -/
def SparesStep (e : KeyValueEngine) : Step → Prop
  | .call c => e.Spares c
  | .restart .. => True

abbrev SparesSteps (e : KeyValueEngine) (steps : List Step) : Prop := CarefulRuns.Careful step SparesStep e steps

instance decidableTimes : (now last : UInt64) → (steps : List Step) → Decidable (Times now last steps)
  | now,last,[] => inferInstanceAs (Decidable (now ≤ last))
  | now,last,s :: rest =>
    @instDecidableAnd (now ≤ s.begins) _ _ (@instDecidableAnd (s.begins ≤ s.ends) _ _ (decidableTimes s.ends last rest))

instance decidableSparesStep (e : KeyValueEngine) : (s : Step) → Decidable (e.SparesStep s)
  | .call c => decidableSpares e c
  | .restart .. => .isTrue trivial

lemma openEngine_timed (none_ : e.kv_log = []) (walk : Dict.Walk Bytes KvEntry) (now later : UInt64) :
    openEngine walk now later e = enforceRetention walk later {e with kv := Dict.writeAll e.kv e.timedWrites} := by
  have timed : (TimedRecord.reader.all e.kv_timed_log).foldl (fun kv r => kv.writeAll r.writes) e.kv =
      Dict.writeAll e.kv e.timedWrites := foldl_flatMap.symm
  rw [openEngine]
  simp [none_,timed]

lemma lookup_unexpired_later (le : now ≤ later) (kv : KvMap) (key : Bytes) :
    (unexpired r later (unexpired r now kv)).lookup key = (unexpired r later kv).lookup key := by
  rw [lookup_unexpired,lookup_unexpired,lookup_unexpired,Option.filter_filter]
  congr 1
  funext entry
  cases expired : r.isExpired entry now with
  | false => simp
  | true => simp [RetentionPolicy.isExpired_later le expired]

namespace Tracks
variable {e : KeyValueEngine} {log : List TimedRecord} {now later : UInt64} (tracks : Tracks e log now)
include tracks

lemma congr {kv : KvMap} (same : ∀ key, kv.lookup key = e.kv.lookup key) : Tracks {e with kv := kv} log now := by
  have roomy : Roomy e.retention kv := tracks.roomy.of_le fun key entry held => ⟨entry,by rw [← same,held],rfl⟩
  refine ⟨tracks.file,tracks.fits,fun key entry held => ?_,roomy,fun key entry written => ?_,fun key deleted => ?_,
    fun key unwritten entry held => ?_⟩
  · exact tracks.lengths key entry (by rw [← same]; exact held)
  · simp only [same]
    exact tracks.written key entry written
  · simp only [same]
    exact tracks.deleted key deleted
  · exact tracks.old key unwritten entry (by rw [← same]; exact held)

lemma replayed (none_ : e.kv_log = []) (le : now ≤ later) (kv : KvMap)
    (same : ∀ key, lastWrite (log.flatMap TimedRecord.writes) key = none → kv.lookup key = e.kv.lookup key)
    (walk : Dict.Walk Bytes KvEntry) (begins : UInt64) :
    ∃ after : KvMap, openEngine walk begins later {e with kv := kv} = {e with kv := after} ∧
      ∀ key, after.lookup key = (unexpired e.retention later e.kv).lookup key := by
  have writes : KeyValueEngine.timedWrites {e with kv := kv} = log.flatMap TimedRecord.writes := tracks.timedWrites
  have lookup (key : Bytes) : (unexpired e.retention later (kv.writeAll (log.flatMap TimedRecord.writes))).lookup key =
      (unexpired e.retention later e.kv).lookup key := by
    rw [lookup_unexpired,lookup_unexpired,Dict.lookup_writeAll]
    cases last : lastWrite (log.flatMap TimedRecord.writes) key with
    | none => rw [getD_none,same key last]
    | some value =>
      cases value with
      | none => rw [tracks.deleted key last,getD_some]
      | some entry =>
        rcases (tracks.atLater le).written key entry last with held | ⟨gone,expired⟩
        · rw [held,getD_some]
        · simp [gone,expired]
  have roomy : Roomy e.retention (unexpired e.retention later (kv.writeAll (log.flatMap TimedRecord.writes))) :=
    (tracks.roomy.unexpired later).of_le fun key entry held => ⟨entry,by rw [← lookup,held],rfl⟩
  grind [openEngine_timed,enforceRetention_roomy,roomy]

lemma unwritten (none_ : e.kv_log = [])
    (last : lastWrite (log.flatMap TimedRecord.writes) key = none) : e.kv.lookup key = none := by
  cases held : e.kv.lookup key with
  | none => rfl
  | some entry =>
    have old := tracks.old key last entry held
    rw [none_] at old
    cases old

lemma restarted (none_ : e.kv_log = []) (le : now ≤ later) (walk : Dict.Walk Bytes KvEntry) (begins : UInt64) :
    Tracks (openEngine walk begins later {e with kv := ∅}) log later := by
  obtain ⟨after,opened,lookup⟩ := tracks.replayed none_ le ∅ (fun key last => (tracks.unwritten none_ last).symm) walk begins
  rw [opened]
  exact (tracks.purged le).congr lookup

lemma runSteps (none_ : e.kv_log = []) (times : Times now last steps) (spares : e.SparesSteps steps) :
    ∃ after, Tracks (e.runSteps steps) after last ∧ (e.runSteps steps).kv_log = [] := by
  induction steps generalizing e log now with
  | nil => exact ⟨log,tracks.atLater times,none_⟩
  | cons s rest ih =>
    obtain ⟨begins,ends,times⟩ := times
    cases s with
    | call c =>
      obtain ⟨after,next⟩ := tracks.call spares.1 begins ends
      exact ih next ((e.call_settings c).2.trans none_) times spares.2
    | restart walk start stop =>
      have next := tracks.restarted none_ (UInt64.le_trans begins ends) walk start
      exact ih next none_ times spares.2

lemma opened_get (none_ : e.kv_log = []) (le : now ≤ later) (walk : Dict.Walk Bytes KvEntry) (begins : UInt64)
    (after : later ≤ time) (key : Bytes) : ((openEngine walk begins later e).get time key).toOption = (e.get time key).toOption := by
  obtain ⟨kv,opened,lookup⟩ := tracks.replayed none_ le e.kv (fun _ _ => rfl) walk begins
  have same : openEngine walk begins later e = {e with kv := kv} := opened
  rw [same,get_toOption,get_toOption,← lookup_unexpired_later after e.kv,lookup_unexpired,lookup_unexpired,lookup]

end Tracks

lemma Tracks.created (max_entries : Nat) (retention : RetentionPolicy) (now : UInt64) :
    Tracks (created max_entries retention []) [] now := by
  constructor
  · rfl
  · intro r member
    cases member
  · intro key entry held
    cases held
  · exact ⟨.inr (Nat.zero_le _),.inr (Nat.zero_le _)⟩
  · intro key entry written
    cases written
  · intro key deleted
    cases deleted
  · intro key _ entry held
    cases held

end KeyValueEngine
end PomaiCache
