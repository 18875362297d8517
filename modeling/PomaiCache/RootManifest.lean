import Mathlib
import PomaiCache.MembraneManifest

/-!
The set of membranes. Each call reads the root manifest from its file and writes it anew; what
the file says after any sequence of calls is the set of the names that were created and not
dropped, in order, and a call touches the manifest of no other membrane.
-/
namespace PomaiCache.MembraneManifest
open Codec Text Options

variable (dir : MembraneDir)

def initialized : MembraneDir := (ensureInitialized {} dir).1

def dropMembrane (name : Bytes) : MembraneDir × Status :=
  if !isValidName name then (dir,.invalidArgument "invalid membrane name")
  else
    let dir := initialized dir
    match loadRoot dir with
    | .error st => (dir,st)
    | .ok entries =>
      if name ∈ entries then
        -- the root is written first, then the directory of the membrane is removed
        ({ root := some (written (serializeRoot (entries.erase name))), membranes := dir.membranes.erase name },.Ok)
      else (dir,.notFound "membrane not found")

def listMembranes : MembraneDir × Except Status (List Bytes) :=
  (initialized dir,loadRoot (initialized dir))

def updateSyncLSN (name : Bytes) (lsn : UInt64) : MembraneDir × Status :=
  match getMembrane dir name {} with
  | .error st => (dir,st)
  | .ok spec => if spec.sync_lsn = lsn then (dir,.Ok) else (writeMembraneManifest dir {spec with sync_lsn := lsn},.Ok)

def updateRetentionPolicy (name : Bytes) (ttl_sec retention_max_count : UInt32)
    (retention_max_bytes : UInt64) : MembraneDir × Status :=
  match getMembrane dir name {} with
  | .error st => (dir,st)
  | .ok spec => (writeMembraneManifest dir {spec with ttl_sec, retention_max_count, retention_max_bytes},.Ok)

inductive ManifestCall
  | create (spec : MembraneSpec)
  | drop (name : Bytes)
  | updateSyncLSN (name : Bytes) (lsn : UInt64)
  | updateRetentionPolicy (name : Bytes) (ttl_sec retention_max_count : UInt32) (retention_max_bytes : UInt64)

namespace ManifestCall

def name : ManifestCall → Bytes
  | create spec => spec.name
  | drop name => name
  | updateSyncLSN name _ => name
  | updateRetentionPolicy name .. => name

def run (dir : MembraneDir) : ManifestCall → MembraneDir × Status
  | create spec => createMembrane {} dir spec
  | drop name => dropMembrane dir name
  | updateSyncLSN name lsn => MembraneManifest.updateSyncLSN dir name lsn
  | updateRetentionPolicy name ttl_sec count bytes => MembraneManifest.updateRetentionPolicy dir name ttl_sec count bytes

end ManifestCall

def runCalls (calls : List ManifestCall) : MembraneDir :=
  calls.foldl (fun dir call => (call.run dir).1) dir

def Creatable (spec : MembraneSpec) : Prop :=
  isValidName spec.name = true ∧ (dimRequired spec.kind = true → spec.dim ≠ 0) ∧ spec.shard_count ≠ 0

def ManifestCall.track (names : Set Bytes) : ManifestCall → Set Bytes
  | create spec => {name | name ∈ names ∨ Creatable spec ∧ name = spec.name}
  | drop dropped => {name | name ∈ names ∧ name ≠ dropped}
  | _ => names

def tracked (calls : List ManifestCall) : Set Bytes := calls.foldl ManifestCall.track ∅

variable {names : List Bytes}

lemma sortNames_ascending (distinct : names.Nodup) : (sortNames names).Pairwise (· < ·) := by
  have total : Std.Total fun a b : Bytes => ¬b < a := ⟨fun a b => Std.le_total (a := a) (b := b)⟩
  have trans : IsTrans Bytes fun a b => ¬b < a := ⟨fun a b c => Std.le_trans (a := a) (b := b) (c := c)⟩
  have sorted : (sortNames names).Pairwise fun a b => ¬b < a := List.pairwise_insertionSort _ _
  have apart : (sortNames names).Nodup := (List.perm_insertionSort _ names).nodup_iff.mpr distinct
  exact (sorted.and apart).imp fun both => Std.lt_of_le_of_ne both.1 both.2

lemma sortNames_of_ascending (ascending : names.Pairwise (· < ·)) : sortNames names = names :=
  (ascending.imp fun less => Std.le_of_lt less).insertionSort_eq

lemma nodup_of_ascending (ascending : names.Pairwise (· < ·)) : names.Nodup :=
  List.Pairwise.imp (fun {a b} (less : a < b) (same : a = b) => Std.lt_irrefl (same ▸ less)) ascending

/-- The root manifest, where there is one, lists the set in order, and each membrane of the set has
a manifest that was written for it. -/
structure Tracks (dir : MembraneDir) (names : Set Bytes) : Prop where
  root : (dir.root = none ∧ names = ∅) ∨ ∃ entries, dir.root = some (written (serializeRoot entries)) ∧
    entries.Pairwise (· < ·) ∧ ∀ name, name ∈ entries ↔ name ∈ names
  valid : ∀ name ∈ names, isValidName name = true
  stored : ∀ name ∈ names, ∃ spec : MembraneSpec, spec.name = name ∧ dir.membranes.lookup name = some (written (specText spec))

@[simp] lemma initialized_membranes : (initialized dir).membranes = dir.membranes := by
  cases root : dir.root <;> simp [initialized,ensureInitialized,root]

lemma tracks_empty : Tracks {} ∅ := ⟨.inl ⟨rfl,rfl⟩,by simp,by simp⟩

namespace Tracks
variable {dir : MembraneDir} {names : Set Bytes} (tracks : Tracks dir names)
include tracks

lemma opened : ∃ entries, (initialized dir).root = some (written (serializeRoot entries)) ∧
    loadRoot (initialized dir) = .ok entries ∧ entries.Pairwise (· < ·) ∧ ∀ name, name ∈ entries ↔ name ∈ names := by
  rcases tracks.root with ⟨none_,rfl⟩ | ⟨entries,root,ascending,listed⟩
  · have first : (initialized dir).root = some (written (serializeRoot [])) := by
      simp [initialized,ensureInitialized,none_]
      rfl
    exact ⟨[],first,loadRoot_written first (by simp),.nil,by simp⟩
  · have same : initialized dir = dir := by simp [initialized,ensureInitialized,root]
    have valid : ∀ name ∈ entries, isValidName name = true := fun name member => tracks.valid name ((listed name).mp member)
    simp [*,loadRoot_written root valid,sortNames_of_ascending ascending]

lemma initialized : Tracks (initialized dir) names := by
  obtain ⟨entries,root,-,ascending,listed⟩ := tracks.opened
  refine ⟨.inr ⟨entries,root,ascending,listed⟩,tracks.valid,?_⟩
  rw [initialized_membranes]
  exact tracks.stored

lemma getMembrane_stored {spec : MembraneSpec} (member : spec.name ∈ names)
    (stored : dir.membranes.lookup spec.name = some (written (specText spec))) (out : MembraneSpec) :
    getMembrane dir spec.name out = .ok (readBack spec out) := by
  rcases tracks.root with ⟨-,rfl⟩ | ⟨entries,root,ascending,listed⟩
  · exact absurd member (Set.notMem_empty _)
  · have valid := tracks.valid spec.name member
    have all : ∀ name ∈ entries, isValidName name = true := fun name inside => tracks.valid name ((listed name).mp inside)
    have found : loadRoot dir = .ok entries := by rw [loadRoot_written root all,sortNames_of_ascending ascending]
    rw [getMembrane,valid,found]
    simp only [Except.bind,Bool.not_true,Bool.false_eq_true,if_false,if_pos ((listed _).mpr member)]
    exact loadMembraneManifest_written valid stored out

variable (name : Bytes)

lemma getMembrane_eq (out : MembraneSpec) : (name ∈ names ∧ ∃ spec : MembraneSpec, spec.name = name ∧
      dir.membranes.lookup name = some (written (specText spec)) ∧ getMembrane dir name out = .ok (readBack spec out)) ∨
    name ∉ names ∧ ∃ st, getMembrane dir name out = .error st := by
  by_cases member : name ∈ names
  · obtain ⟨spec,rfl,stored⟩ := tracks.stored name member
    exact .inl ⟨member,spec,rfl,stored,tracks.getMembrane_stored member stored out⟩
  · refine .inr ⟨member,?_⟩
    by_cases valid : isValidName name = true
    · rcases tracks.root with ⟨none_,-⟩ | ⟨entries,root,ascending,listed⟩
      · simp [getMembrane,valid,loadRoot,none_,readAll,Except.bind]
      · have all : ∀ name ∈ entries, isValidName name = true := fun name inside => tracks.valid name ((listed name).mp inside)
        simp [getMembrane,valid,loadRoot_written root all,Except.bind,mem_sortNames,mt (listed name).mp member]
    · simp [getMembrane,valid]

lemma createMembrane_cases (spec : MembraneSpec) :
    (¬Creatable spec ∧ ∃ message, createMembrane {} dir spec = (dir,.invalidArgument message)) ∨
    (Creatable spec ∧ spec.name ∈ names ∧
      createMembrane {} dir spec = (MembraneManifest.initialized dir,⟨.kAlreadyExists,"membrane already exists"⟩)) ∨
    (Creatable spec ∧ spec.name ∉ names ∧ ∃ entries : List Bytes, (entries.Pairwise (· < ·) ∧ ∀ name, name ∈ entries ↔ name ∈ names) ∧
      createMembrane {} dir spec = ({writeMembraneManifest (MembraneManifest.initialized dir) spec with
        root := some (written (serializeRoot (sortNames (entries ++ [spec.name]))))},.Ok)) := by
  obtain ⟨entries,-,loaded,ascending,listed⟩ := tracks.opened
  unfold createMembrane
  by_cases valid : isValidName spec.name = true
  · by_cases dim : dimRequired spec.kind = true ∧ spec.dim = 0
    · refine .inl ⟨fun creatable => creatable.2.1 dim.1 dim.2,"dim must be > 0",?_⟩
      simp [valid,dim]
    · by_cases shards : spec.shard_count = 0
      · refine .inl ⟨fun creatable => creatable.2.2 shards,"shard_count must be > 0",?_⟩
        rw [if_neg (by simp [valid]),if_neg dim,if_pos shards]
      · have creatable : Creatable spec := ⟨valid,fun required zero => dim ⟨required,zero⟩,shards⟩
        have ready : ensureInitialized {} dir = (MembraneManifest.initialized dir,.Ok) := by
          cases root : dir.root <;> simp [MembraneManifest.initialized,ensureInitialized,root]
        rw [if_neg (by simp [valid]),if_neg dim,if_neg shards,ready]
        simp only [Status.ok_Ok,if_true,loaded,addMembrane]
        grind
  · exact .inl ⟨fun creatable => valid creatable.1,"invalid membrane name",by simp [valid]⟩

lemma dropMembrane_cases :
    (name ∉ names ∧ ((dropMembrane dir name).1 = dir ∨ (dropMembrane dir name).1 = MembraneManifest.initialized dir)) ∨
    (name ∈ names ∧ ∃ entries : List Bytes, (entries.Pairwise (· < ·) ∧ ∀ name, name ∈ entries ↔ name ∈ names) ∧
      (dropMembrane dir name).1 =
        { root := some (written (serializeRoot (entries.erase name))), membranes := dir.membranes.erase name }) := by
  obtain ⟨entries,-,loaded,ascending,listed⟩ := tracks.opened
  unfold dropMembrane
  by_cases valid : isValidName name = true
  · rw [if_neg (by simp [valid])]
    simp only [loaded]
    by_cases member : name ∈ names
    · refine .inr ⟨member,entries,⟨ascending,listed⟩,?_⟩
      simp [(listed name).mpr member]
    · grind
  · grind [valid]

lemma update_cases {call : ManifestCall}
    (update : (∃ lsn, call = .updateSyncLSN name lsn) ∨ ∃ ttl_sec count bytes, call = .updateRetentionPolicy name ttl_sec count bytes) :
    (call.run dir).1 = dir ∨ name ∈ names ∧ ∃ spec : MembraneSpec, spec.name = name ∧ (call.run dir).1 = writeMembraneManifest dir spec := by
  rcases tracks.getMembrane_eq name {} with ⟨member,spec,same,-,read⟩ | ⟨-,st,failed⟩
  · rcases update with ⟨lsn,rfl⟩ | ⟨ttl_sec,count,bytes,rfl⟩
    · simp only [ManifestCall.run,updateSyncLSN,read]
      by_cases already : (readBack spec {}).sync_lsn = lsn
      · exact .inl (by rw [if_pos already])
      · exact .inr ⟨member,{readBack spec {} with sync_lsn := lsn},same,by rw [if_neg already]⟩
    · grind [ManifestCall.run,updateRetentionPolicy,read,readBack]
  · grind [ManifestCall.run,updateSyncLSN,updateRetentionPolicy]

lemma membranes_run (call : ManifestCall) {other : Bytes} (apart : other ≠ call.name) :
    (call.run dir).1.membranes.lookup other = dir.membranes.lookup other := by
  have written_ (spec : MembraneSpec) (same : spec.name = call.name) (before : MembraneDir) :
      (writeMembraneManifest before spec).membranes.lookup other = before.membranes.lookup other :=
    AList.lookup_insert_ne (by rwa [same])
  cases call with
  | create spec =>
    simp only [ManifestCall.run]
    rcases tracks.createMembrane_cases spec with ⟨-,message,result⟩ | ⟨-,-,result⟩ | ⟨-,-,entries,-,result⟩
    · rw [result]
    · rw [result,initialized_membranes]
    · rw [result]
      exact (written_ spec rfl _).trans (by rw [initialized_membranes])
  | drop name =>
    simp only [ManifestCall.run]
    rcases tracks.dropMembrane_cases name with ⟨-,same | same⟩ | ⟨-,entries,-,result⟩
    · rw [same]
    · rw [same,initialized_membranes]
    · rw [result]
      exact AList.lookup_erase_ne apart
  | updateSyncLSN name lsn =>
    rcases tracks.update_cases _ (.inl ⟨lsn,rfl⟩) with same | ⟨-,spec,named,result⟩
    · rw [same]
    · rw [result,written_ spec named]
  | updateRetentionPolicy name ttl_sec count bytes =>
    rcases tracks.update_cases _ (.inr ⟨ttl_sec,count,bytes,rfl⟩) with same | ⟨-,spec,named,result⟩
    · rw [same]
    · rw [result,written_ spec named]

lemma write (spec : MembraneSpec) : Tracks (writeMembraneManifest dir spec) names := by
  refine ⟨tracks.root,tracks.valid,fun name inside => ?_⟩
  by_cases same : name = spec.name
  · exact ⟨spec,same.symm,by rw [same]; exact AList.lookup_insert _⟩
  · obtain ⟨before,named,stored⟩ := tracks.stored name inside
    exact ⟨before,named,(AList.lookup_insert_ne same).trans stored⟩

lemma run (call : ManifestCall) : Tracks (call.run dir).1 (call.track names) := by
  cases call with
  | create spec =>
    simp only [ManifestCall.run,ManifestCall.track]
    rcases tracks.createMembrane_cases spec with ⟨not_,message,result⟩ | ⟨-,taken,result⟩ | ⟨creatable,free,entries,⟨ascending,listed⟩,result⟩
    · simp [*]
    · have same : {name | name ∈ names ∨ Creatable spec ∧ name = spec.name} = names := by
        grind
      rw [same,result]
      exact tracks.initialized
    · have apart : (entries ++ [spec.name]).Nodup := by
        grind [nodup_of_ascending]
      rw [result]
      refine ⟨.inr ⟨_,rfl,sortNames_ascending apart,fun name => ?_⟩,fun name member => ?_,fun name member => ?_⟩
      · simp [mem_sortNames,listed,creatable]
      · rcases member with old | ⟨-,rfl⟩
        · exact tracks.valid name old
        · exact creatable.1
      · by_cases same : name = spec.name
        · exact ⟨spec,same.symm,by rw [same]; exact AList.lookup_insert _⟩
        · obtain ⟨before,named,stored⟩ := tracks.stored name (member.resolve_right fun new => same new.2)
          refine ⟨before,named,(AList.lookup_insert_ne same).trans ?_⟩
          rw [initialized_membranes,stored]
  | drop dropped =>
    simp only [ManifestCall.run,ManifestCall.track]
    rcases tracks.dropMembrane_cases dropped with ⟨absent,kept⟩ | ⟨-,entries,⟨ascending,listed⟩,result⟩
    · have same : {name | name ∈ names ∧ name ≠ dropped} = names := by
        grind
      rw [same]
      rcases kept with kept | kept
      · rw [kept]
        exact tracks
      · rw [kept]
        exact tracks.initialized
    · rw [result]
      refine ⟨.inr ⟨_,rfl,ascending.sublist List.erase_sublist,fun name => ?_⟩,fun name member => tracks.valid name member.1,
        fun name member => ?_⟩
      · rw [(nodup_of_ascending ascending).mem_erase_iff,listed]
        exact and_comm
      · grind [stored,AList.lookup_erase_ne]
  | updateSyncLSN name lsn =>
    rcases tracks.update_cases name (.inl ⟨lsn,rfl⟩) with same | ⟨member,spec,rfl,result⟩
    · rw [same]
      exact tracks
    · rw [result]
      exact tracks.write _
  | updateRetentionPolicy name ttl_sec count bytes =>
    rcases tracks.update_cases name (.inr ⟨ttl_sec,count,bytes,rfl⟩) with same | ⟨member,spec,rfl,result⟩
    · rw [same]
      exact tracks
    · rw [result]
      exact tracks.write _

end Tracks

lemma tracks_runCalls (calls : List ManifestCall) : Tracks (runCalls {} calls) (tracked calls) := by
  have walk (calls : List ManifestCall) : ∀ (dir : MembraneDir) (names : Set Bytes), Tracks dir names →
      Tracks (runCalls dir calls) (calls.foldl ManifestCall.track names) := by
    induction calls with
    | nil => exact fun dir names tracks => tracks
    | cons call rest ih => exact fun dir names tracks => ih _ _ (tracks.run call)
  exact walk calls {} ∅ tracks_empty

/-- After any sequence of calls the names are listed in order, a spec that passes the checks is refused
exactly if its name is in the set, and one more call keeps the manifests of the other membranes. -/
theorem root_tracks (calls : List ManifestCall) :
    (∃ names, (listMembranes (runCalls {} calls)).2 = .ok names ∧ names.Pairwise (· < ·) ∧
      ∀ name, name ∈ names ↔ name ∈ tracked calls) ∧
    (∀ spec, (createMembrane {} (runCalls {} calls) spec).2.code = .kAlreadyExists ↔
      Creatable spec ∧ spec.name ∈ tracked calls) ∧ ∀ (call : ManifestCall) (other : Bytes), other ≠ call.name →
      (call.run (runCalls {} calls)).1.membranes.lookup other = (runCalls {} calls).membranes.lookup other ∧
      ∀ out, other ∈ tracked calls → ∃ spec, getMembrane (runCalls {} calls) other out = .ok spec ∧
        getMembrane (call.run (runCalls {} calls)).1 other out = .ok spec := by
  have tracks := tracks_runCalls calls
  refine ⟨?_,fun spec => ?_,fun call other apart => ⟨tracks.membranes_run call apart,fun out member => ?_⟩⟩
  · obtain ⟨entries,-,loaded,ascending,listed⟩ := tracks.opened
    exact ⟨entries,loaded,ascending,listed⟩
  · rcases tracks.createMembrane_cases spec with ⟨not_,message,result⟩ | ⟨creatable,taken,result⟩ | ⟨-,free,entries,-,result⟩
    · simp [result,not_,Status.invalidArgument]
    · simp [result,creatable,taken]
    · simp [result,free,Status.Ok]
  · have after := tracks.run call
    have still : other ∈ call.track (tracked calls) := by
      cases call with
      | create spec => exact .inl member
      | drop dropped => exact ⟨member,apart⟩
      | updateSyncLSN name lsn => exact member
      | updateRetentionPolicy name ttl_sec count bytes => exact member
    obtain ⟨spec,rfl,stored⟩ := tracks.stored other member
    exact ⟨readBack spec out,tracks.getMembrane_stored member stored out,
      after.getMembrane_stored still ((tracks.membranes_run call apart).trans stored) out⟩

/-- The checks come first: for a name that is taken, a spec without a dimension is an invalid argument. -/
theorem createMembrane_taken_invalid : ascii "a" ∈ tracked [.create {name := ascii "a", shard_count := 1, dim := 3}] ∧
      (createMembrane {} (runCalls {} [.create {name := ascii "a", shard_count := 1, dim := 3}]) {name := ascii "a", shard_count := 1, dim := 0}).2 =
        .invalidArgument "dim must be > 0" := by
  constructor
  · exact .inr ⟨⟨by decide,by decide,by decide⟩,rfl⟩
  · rw [createMembrane,if_neg (by decide),if_pos (by decide)]

end PomaiCache.MembraneManifest
