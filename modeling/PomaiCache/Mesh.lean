import PomaiCache.Basic
import PomaiCache.RecordLog
import PomaiCache.Dict

/-!
The mesh engine. A put is logged in two files, and every opening counts the records of the
first file as new revisions of their meshes.
-/
namespace PomaiCache
open Codec RecordLog Layers List Option

abbrev Xyz := List UInt32

structure BaseRecord where
  id : UInt64
  xyz : Xyz
  deriving DecidableEq, Repr

/-- A record of `mesh_lod.log`. -/
structure LodRecord where
  tag : UInt8
  id : UInt64
  rev : UInt64
  level : UInt8
  xyz : Xyz
  deriving DecidableEq, Repr

def kBaseTag : UInt8 := 0xA1
def kLodTag : UInt8 := 0xA2

def writeXyz (xyz : Xyz) : Bytes := le 4 (UInt32.ofNat xyz.length).toNat ++ words xyz

def readXyz (bytes : Bytes) : Option (Xyz × Bytes) :=
  (read 4 bytes).bind fun n =>
  (read (4 * leNat n.1) n.2).map fun xyz => (readWords (leNat n.1) xyz.1,xyz.2)

lemma readXyz_length (found : readXyz bytes = some (xyz,rest)) : rest.length + 4 ≤ bytes.length := by
  obtain ⟨n,first,found⟩ := read_bind found
  obtain ⟨data,second,found⟩ := read_map found
  cases found
  omega

lemma readXyz_writeXyz (short : xyz.length < 2 ^ 32) (rest : Bytes) : readXyz (writeXyz xyz ++ rest) = some (xyz,rest) := by
  have size := leNat_length short
  have all : readWords xyz.length (words xyz) = xyz := by
    have back := readWords_words xyz []
    rwa [append_nil] at back
  grind [readXyz,writeXyz,append_assoc,read_append,le_length,words_length]

namespace BaseRecord

def encode (r : BaseRecord) : Bytes := le 8 r.id.toNat ++ writeXyz r.xyz

def next (bytes : Bytes) : Option (BaseRecord × Bytes) :=
  (read 8 bytes).bind fun id =>
  (readXyz id.2).map fun xyz => (⟨UInt64.ofNat (leNat id.1),xyz.1⟩,xyz.2)

lemma next_shrinks (found : next bytes = some (r,rest)) : rest.length < bytes.length := by
  obtain ⟨id,first,found⟩ := read_bind found
  obtain ⟨xyz,second,found⟩ := map_eq_some_iff.mp found
  cases found
  have := readXyz_length second
  omega

def reader : Reader BaseRecord := ⟨next,next_shrinks⟩

lemma next_encode (short : r.xyz.length < 2 ^ 32) (rest : Bytes) : next (r.encode ++ rest) = some (r,rest) := by
  rw [next,encode,append_assoc,read_append (le_length 8 _),bind_some]
  simp only [readXyz_writeXyz short,map_some,ofNat_leNat_u64]

end BaseRecord

namespace LodRecord

def encode (r : LodRecord) : Bytes :=
  le 1 r.tag.toNat ++ (le 8 r.id.toNat ++ (le 8 r.rev.toNat ++ (le 1 r.level.toNat ++ writeXyz r.xyz)))

def next (bytes : Bytes) : Option (LodRecord × Bytes) :=
  (read 1 bytes).bind fun tag =>
  (read 8 tag.2).bind fun id =>
  (read 8 id.2).bind fun rev =>
  (read 1 rev.2).bind fun level =>
  (readXyz level.2).map fun xyz =>
    (⟨UInt8.ofNat (leNat tag.1),UInt64.ofNat (leNat id.1),UInt64.ofNat (leNat rev.1),UInt8.ofNat (leNat level.1),xyz.1⟩,xyz.2)

lemma next_shrinks (found : next bytes = some (r,rest)) : rest.length < bytes.length := by
  obtain ⟨tag,first,found⟩ := read_bind found
  obtain ⟨id,second,found⟩ := read_bind found
  obtain ⟨rev,third,found⟩ := read_bind found
  obtain ⟨level,fourth,found⟩ := read_bind found
  obtain ⟨xyz,fifth,found⟩ := map_eq_some_iff.mp found
  cases found
  have := readXyz_length fifth
  omega

def reader : Reader LodRecord := ⟨next,next_shrinks⟩

lemma reader_next : reader.next = next := rfl

lemma next_encode (short : r.xyz.length < 2 ^ 32) (rest : Bytes) : next (r.encode ++ rest) = some (r,rest) := by
  simp [next,encode,append_assoc,read_append (le_length 1 _),bind_some,read_append (le_length 8 _),readXyz_writeXyz short,map_some,ofNat_leNat_u64]

end LodRecord

structure MeshRecord where
  base_xyz : Xyz := []
  lod_xyz : Dict UInt8 Xyz := ∅
  revision : UInt64 := 0

inductive MeshDetailPreference
  | kAutoLatencyFirst
  | kHighDetail
  deriving DecidableEq, Repr

/-- `BuildLods` for the options of the engine: the levels and their meshes, none of them
larger than the base. -/
structure LodBuilder where
  build : Xyz → Except Status (List (UInt8 × Xyz))
  smaller : ∀ {xyz lods}, build xyz = .ok lods → ∀ lod ∈ lods, lod.2.length ≤ xyz.length

abbrev Meshes := Dict UInt64 MeshRecord

structure MeshEngine where
  max_meshes : Nat
  mesh_lod_max_queue : Nat
  meshes : Meshes
  lod_queue : List UInt64
  /-- The files `mesh.log` and `mesh_lod.log`. -/
  mesh_log : Bytes
  mesh_lod_log : Bytes

namespace MeshEngine

variable (walk : Dict.Walk UInt64 MeshRecord)

variable (meshes : Meshes)

/-- `erase(begin())`; which mesh stands first is up to the map. -/
def eraseFirst : Meshes :=
  match (walk.order meshes).head? with
  | none => meshes
  | some first => meshes.erase first.1

def rebased (xyz : Xyz) (found : Option MeshRecord) : MeshRecord := ⟨xyz,∅,(found.getD {}).revision + 1⟩

def loadBase (max_meshes : Nat) (meshes : Meshes) (r : BaseRecord) : Meshes :=
  let meshes : Meshes := meshes.insert r.id (rebased r.xyz (meshes.lookup r.id))
  if max_meshes > 0 ∧ meshes.size > max_meshes then eraseFirst walk meshes else meshes

/-- What a record of `mesh_lod.log` makes of the record of its mesh. -/
def refined (r : LodRecord) (rec_ : MeshRecord) : MeshRecord :=
  if r.rev < rec_.revision then rec_
  else if r.tag = kBaseTag ∨ r.level = 0 then ⟨r.xyz,∅,r.rev⟩
  else if r.tag = kLodTag then {rec_ with lod_xyz := rec_.lod_xyz.insert r.level r.xyz, revision := r.rev}
  else {rec_ with revision := r.rev}

/-- One round of the loop over `mesh_lod.log`; `meshes_[id]` makes a record when there is none. -/
def loadLod (r : LodRecord) : Meshes := meshes.insert r.id (refined r ((meshes.lookup r.id).getD {}))

def openEngine (e : MeshEngine) : MeshEngine :=
  let meshes := (BaseRecord.reader.all e.mesh_log).foldl (loadBase walk e.max_meshes) e.meshes
  {e with meshes := (LodRecord.reader.all e.mesh_lod_log).foldl loadLod meshes}

variable (e : MeshEngine)

variable (mesh_id : UInt64)

def queueLodBuild : MeshEngine :=
  if e.mesh_lod_max_queue > 0 ∧ e.lod_queue.length ≥ e.mesh_lod_max_queue then e
  else if mesh_id ∈ e.lod_queue then e
  else {e with lod_queue := e.lod_queue ++ [mesh_id]}

def appendBaseRecord (xyz : Xyz) (revision : UInt64) : MeshEngine :=
  {e with
    mesh_log := e.mesh_log ++ BaseRecord.encode ⟨mesh_id,xyz⟩
    mesh_lod_log := e.mesh_lod_log ++ LodRecord.encode ⟨kBaseTag,mesh_id,revision,0,xyz⟩}

def put (e : MeshEngine) (mesh_id : UInt64) (xyz : Xyz) : MeshEngine × Status :=
  if xyz.isEmpty ∨ xyz.length % 3 ≠ 0 then (e,.invalidArgument "mesh xyz must be multiple of 3")
  else
    let meshes := if e.max_meshes > 0 ∧ e.meshes.size ≥ e.max_meshes ∧ e.meshes.lookup mesh_id = none then eraseFirst walk e.meshes
      else e.meshes
    let rec_ := rebased xyz (meshes.lookup mesh_id)
    let e := {e with meshes := meshes.insert mesh_id rec_}
    (queueLodBuild (appendBaseRecord e mesh_id xyz rec_.revision) mesh_id,.Ok)

def storeLod (mesh_id rev : UInt64) (e : MeshEngine) (lod : UInt8 × Xyz) : MeshEngine :=
  if lod.1 = 0 then e
  else
    let rec_ := (e.meshes.lookup mesh_id).getD {}
    {e with
      meshes := e.meshes.insert mesh_id {rec_ with lod_xyz := rec_.lod_xyz.insert lod.1 lod.2}
      mesh_lod_log := e.mesh_lod_log ++ LodRecord.encode ⟨kLodTag,mesh_id,rev,lod.1,lod.2⟩}

variable (builder : LodBuilder)

/-- One job: the mesh may be gone, and building may fail. -/
def lodJob (e : MeshEngine) (mesh_id : UInt64) : MeshEngine :=
  match e.meshes.lookup mesh_id with
  | none => e
  | some rec_ =>
    match builder.build rec_.base_xyz with
    | .error _ => e
    | .ok lods => lods.foldl (storeLod mesh_id rec_.revision) {e with meshes := e.meshes.insert mesh_id {rec_ with lod_xyz := ∅}}

def lodJobs (builder : LodBuilder) : Nat → MeshEngine → MeshEngine
  | 0,e => e
  | budget + 1,e =>
    match e.lod_queue with
    | [] => e
    | mesh_id :: rest => lodJobs builder budget (lodJob builder {e with lod_queue := rest} mesh_id)

def processLodJobs (max_jobs : Nat) (e : MeshEngine) : MeshEngine :=
  lodJobs builder (if max_jobs = 0 then 1 else max_jobs) e

def chooseLodLevel (rec_ : MeshRecord) (detail : MeshDetailPreference) : UInt8 :=
  if detail = .kHighDetail then 0 else rec_.lod_xyz.keys.foldl max 0

/-- The mesh that `Rmsd`, `Intersect` and `Volume` compute with. -/
def resolveMesh (detail : MeshDetailPreference) : Option Xyz :=
  (e.meshes.lookup mesh_id).map fun rec_ =>
    let level := chooseLodLevel rec_ detail
    if level = 0 then rec_.base_xyz else (rec_.lod_xyz.lookup level).getD rec_.base_xyz

def created (max_meshes mesh_lod_max_queue : Nat) : MeshEngine := ⟨max_meshes,mesh_lod_max_queue,∅,[],[],[]⟩

def reopened (e : MeshEngine) : MeshEngine :=
  openEngine walk {e with meshes := ∅, lod_queue := []}

inductive Step
  | put (walk : Dict.Walk UInt64 MeshRecord) (mesh_id : UInt64) (xyz : Xyz)
  | processLodJobs (max_jobs : Nat)
  | restart (walk : Dict.Walk UInt64 MeshRecord)

def step (e : MeshEngine) : Step → MeshEngine
  | .put walk mesh_id xyz => (e.put walk mesh_id xyz).1
  | .processLodJobs max_jobs => e.processLodJobs builder max_jobs
  | .restart walk => e.reopened walk

def runAll (e : MeshEngine) (steps : List Step) : MeshEngine := steps.foldl (step builder) e

/-- The step evicts no mesh, and the log can hold what is put. -/
def Spares : Step → Prop
  | .put _ mesh_id xyz => xyz.length < 2 ^ 32 ∧ (e.max_meshes = 0 ∨ e.meshes.size < e.max_meshes ∨ (e.meshes.lookup mesh_id).isSome)
  | .processLodJobs _ => True
  | .restart _ => True

def SparesAll (builder : LodBuilder) (e : MeshEngine) : List Step → Prop
  | [] => True
  | s :: rest => e.Spares s ∧ (e.step builder s).SparesAll builder rest

/-- The record that the step appends to `mesh.log`. -/
def Step.record : Step → Option BaseRecord
  | .put _ mesh_id xyz => if xyz.isEmpty ∨ xyz.length % 3 ≠ 0 then none else some ⟨mesh_id,xyz⟩
  | _ => none

variable (bases : List BaseRecord)

def own (id : UInt64) : List BaseRecord := bases.filter fun r => r.id = id

variable (puts : List BaseRecord)

/-- The mesh in memory is the last one put, in as many revisions as there were puts. -/
def Current : Option MeshRecord → Prop
  | none => puts.getLast? = none
  | some rec_ => ∃ last, puts.getLast? = some last ∧ rec_.revision.toNat = puts.length ∧ rec_.base_xyz = last.xyz

/-- A record of `mesh_lod.log` belongs to a mesh that was put, is not ahead of its puts, and
does not put another base mesh for the last of them. -/
def Behind (r : LodRecord) : Prop :=
  ∃ last, puts.getLast? = some last ∧ r.rev.toNat ≤ puts.length ∧
    (r.rev.toNat = puts.length → r.tag = kBaseTag ∨ r.level = 0 → r.xyz = last.xyz)

structure Logged (e : MeshEngine) (bases : List BaseRecord) (lods : List LodRecord) : Prop where
  base_file : e.mesh_log = bases.flatMap BaseRecord.encode
  lod_file : e.mesh_lod_log = lods.flatMap LodRecord.encode
  base_short : ∀ r ∈ bases, r.xyz.length < 2 ^ 32
  lod_short : ∀ r ∈ lods, r.xyz.length < 2 ^ 32
  held : ∀ id, Current (own bases id) (e.meshes.lookup id)
  behind : ∀ r ∈ lods, Behind (own bases r.id) r
  room : e.max_meshes = 0 ∨ e.meshes.size ≤ e.max_meshes

lemma own_length_le (id : UInt64) : (own bases id).length ≤ bases.length := length_filter_le ..

lemma own_append (r : BaseRecord) (id : UInt64) :
    own (bases ++ [r]) id = if r.id = id then own bases id ++ [r] else own bases id := by
  by_cases same : r.id = id <;> simp [own,same]

lemma Current.isSome {puts : List BaseRecord} {found : Option MeshRecord} (current : Current puts found) :
    found.isSome = puts.getLast?.isSome := by
  cases found with
  | none =>
    rw [show puts.getLast? = none from current]
    rfl
  | some rec_ =>
    obtain ⟨last,put,_⟩ := current
    rw [put]
    rfl

lemma Current.found {puts : List BaseRecord} {found : Option MeshRecord} (current : Current puts found) {last : BaseRecord}
    (put : puts.getLast? = some last) :
    ∃ rec_, found = some rec_ ∧ rec_.revision.toNat = puts.length ∧ rec_.base_xyz = last.xyz := by
  cases found with
  | none =>
    rw [show puts.getLast? = none from current] at put
    cases put
  | some rec_ =>
    obtain ⟨other,same,revision,xyz⟩ := current
    grind

lemma foldl_rebased (found : Option MeshRecord) : puts.foldl (fun found r => some (rebased r.xyz found)) found =
      match puts.getLast? with
      | none => found
      | some last => some ⟨last.xyz,∅,(found.getD {}).revision + UInt64.ofNat puts.length⟩ := by
  induction puts using List.reverseRecOn with
  | nil => rfl
  | append_singleton puts r ih =>
    rw [foldl_append,ih,foldl_cons,foldl_nil,List.getLast?_concat]
    cases last : puts.getLast? with
    | none =>
      rw [List.getLast?_eq_none_iff.mp last]
      rfl
    | some _ =>
      simp only [rebased,getD_some,length_append,length_singleton,UInt64.ofNat_add,UInt64.add_assoc]
      rfl

lemma lookup_foldl_loadBase {limit : Nat} {meshes large : Meshes} (room : limit = 0 ∨ large.size ≤ limit) {bases : List BaseRecord}
    (inside : Dict.Inside meshes large) (logged : ∀ r ∈ bases, (large.lookup r.id).isSome)
    (walk : Dict.Walk UInt64 MeshRecord) (id : UInt64) : (bases.foldl (loadBase walk limit) meshes).lookup id =
      (own bases id).foldl (fun found r => some (rebased r.xyz found)) (meshes.lookup id) := by
  have unlimited : bases.foldl (loadBase walk limit) meshes =
      bases.foldl (fun meshes r => Dict.alter meshes r.id fun found => some (rebased r.xyz found)) meshes := by
    refine Dict.foldl_limited room (fun r member meshes inside id => ?_) inside
    by_cases same : r.id = id
    · rw [← same]
      exact fun _ => logged r member
    · rw [AList.lookup_insert_ne (Ne.symm same)]
      exact inside id
  rw [unlimited,Dict.lookup_foldl_alter BaseRecord.id fun r found => some (rebased r.xyz found)]
  rfl

lemma lookup_loadLod (r : LodRecord) (id : UInt64) : (loadLod meshes r).lookup id =
    if r.id = id then some (refined r ((meshes.lookup r.id).getD {})) else meshes.lookup id :=
  Dict.lookup_write meshes (r.id,some _) id

lemma foldl_loadLod_stale {meshes : Meshes} {lods : List LodRecord}
    (stale : ∀ r ∈ lods, ∃ rec_, meshes.lookup r.id = some rec_ ∧ r.rev < rec_.revision) (id : UInt64) :
    (lods.foldl loadLod meshes).lookup id = meshes.lookup id := by
  induction lods generalizing meshes with
  | nil => rfl
  | cons r rest ih =>
    obtain ⟨rec_,found,older⟩ := stale r (.head _)
    have same (id : UInt64) : (loadLod meshes r).lookup id = meshes.lookup id := by
      rw [lookup_loadLod]
      split
      · next equal => rw [← equal,found,getD_some,refined,if_pos older]
      · rfl
    rw [foldl_cons,ih,same]
    grind

lemma foldl_loadLod_current {bases : List BaseRecord} {meshes : Meshes} {lods : List LodRecord}
    (current : ∀ id, Current (own bases id) (meshes.lookup id)) (behind : ∀ r ∈ lods, Behind (own bases r.id) r) (id : UInt64) :
    Current (own bases id) ((lods.foldl loadLod meshes).lookup id) := by
  induction lods generalizing meshes with
  | nil => exact current id
  | cons r rest ih =>
    rw [foldl_cons]
    refine ih (fun id => ?_) fun other member => behind other (.tail _ member)
    rw [lookup_loadLod]
    split
    · next equal =>
      subst equal
      obtain ⟨last,put,le,base⟩ := behind r (.head _)
      obtain ⟨rec_,found,revision,xyz⟩ := (current r.id).found put
      rw [found,getD_some,refined]
      refine ⟨last,put,?_⟩
      grind [UInt64.not_lt,UInt64.le_iff_toNat_le]
    · exact current id

namespace Logged
variable {e : MeshEngine} {bases : List BaseRecord} {lods : List LodRecord}

lemma created (max_meshes mesh_lod_max_queue : Nat) : Logged (created max_meshes mesh_lod_max_queue) [] [] := by
  constructor
  · rfl
  · rfl
  · intro r member
    cases member
  · intro r member
    cases member
  · intro id
    rfl
  · intro r member
    cases member
  · exact .inr (Nat.zero_le _)

variable {mesh_id : UInt64} {rec_ : MeshRecord}

section
variable (logged : Logged e bases lods)
include logged

lemma base_records : BaseRecord.reader.all e.mesh_log = bases :=
  BaseRecord.reader.all_file logged.base_file fun r member => BaseRecord.next_encode (logged.base_short r member)

lemma lod_records : LodRecord.reader.all e.mesh_lod_log = lods :=
  LodRecord.reader.all_file logged.lod_file fun r member rest => by
    rw [LodRecord.reader_next,LodRecord.next_encode (logged.lod_short r member)]

lemma present : ∀ r ∈ bases, (e.meshes.lookup r.id).isSome := by
  intro r member
  rw [(logged.held r.id).isSome,List.getLast?_isSome]
  exact ne_nil_of_mem (mem_filter.mpr ⟨member,decide_eq_true rfl⟩)

lemma loaded {meshes : Meshes} (inside : Dict.Inside meshes e.meshes)
    (walk : Dict.Walk UInt64 MeshRecord) (id : UInt64) : (bases.foldl (loadBase walk e.max_meshes) meshes).lookup id =
      match (own bases id).getLast? with
      | none => meshes.lookup id
      | some last => some ⟨last.xyz,∅,((meshes.lookup id).getD {}).revision + UInt64.ofNat (own bases id).length⟩ := by
  rw [lookup_foldl_loadBase logged.room inside logged.present walk id,foldl_rebased]

lemma reopened (few : bases.length < 2 ^ 63) (walk : Dict.Walk UInt64 MeshRecord) : Logged (e.reopened walk) bases lods := by
  have empty : Dict.Inside (∅ : Meshes) e.meshes := fun id none_ => by cases none_
  have current (id : UInt64) : Current (own bases id) ((bases.foldl (loadBase walk e.max_meshes) ∅).lookup id) := by
    rw [logged.loaded empty walk id]
    cases last : (own bases id).getLast? with
    | none => exact last
    | some r =>
      have := own_length_le bases id
      refine ⟨r,last,?_,rfl⟩
      rw [AList.lookup_empty,getD_none,UInt64.zero_add,UInt64.toNat_ofNat_of_lt' (Nat.lt_of_le_of_lt this (Nat.lt_trans few (by decide)))]
  have held (id : UInt64) : Current (own bases id) ((e.reopened walk).meshes.lookup id) := by
    rw [MeshEngine.reopened,openEngine]
    simp only [logged.base_records,logged.lod_records]
    exact foldl_loadLod_current current logged.behind id
  refine ⟨logged.base_file,logged.lod_file,logged.base_short,logged.lod_short,held,logged.behind,?_⟩
  refine logged.room.imp_right (Nat.le_trans (Dict.size_le fun id => ?_))
  rw [(held id).isSome,(logged.held id).isSome]
  exact fun there => there

lemma opened (few : bases.length < 2 ^ 63) (walk : Dict.Walk UInt64 MeshRecord) (id : UInt64) :
    ((e.openEngine walk).meshes.lookup id).map (fun rec_ => (rec_.base_xyz,rec_.lod_xyz)) =
      (e.meshes.lookup id).map fun rec_ => (rec_.base_xyz,∅) := by
  have after (id : UInt64) : (bases.foldl (loadBase walk e.max_meshes) e.meshes).lookup id =
      (e.meshes.lookup id).map fun rec_ => ⟨rec_.base_xyz,∅,rec_.revision + UInt64.ofNat (own bases id).length⟩ := by
    rw [logged.loaded (fun _ there => there) walk id]
    have held := logged.held id
    cases found : e.meshes.lookup id with
    | none =>
      rw [found] at held
      have none_ : (own bases id).getLast? = none := held
      rw [none_]
      rfl
    | some rec_ =>
      rw [found] at held
      obtain ⟨last,put,_,xyz⟩ := held
      simp [put,xyz]
  have stale : ∀ r ∈ lods, ∃ rec_, (bases.foldl (loadBase walk e.max_meshes) e.meshes).lookup r.id = some rec_ ∧ r.rev < rec_.revision := by
    intro r member
    obtain ⟨last,put,le,_⟩ := logged.behind r member
    obtain ⟨rec_,found,revision,_⟩ := (logged.held r.id).found put
    have count := own_length_le bases r.id
    have some_ : 0 < (own bases r.id).length := length_pos_of_mem (mem_of_getLast? put)
    have width : UInt64.size = 2 ^ 64 := rfl
    grind [UInt64.lt_iff_toNat_lt,UInt64.toNat_add,UInt64.toNat_ofNat_of_lt']
  rw [openEngine]
  simp only [logged.base_records,logged.lod_records]
  rw [foldl_loadLod_stale stale id,after]
  cases e.meshes.lookup id <;> rfl

lemma queued (mesh_id : UInt64) : Logged (e.queueLodBuild mesh_id) bases lods := by
  unfold queueLodBuild
  split
  · exact logged
  · split
    · exact logged
    · exact ⟨logged.base_file,logged.lod_file,logged.base_short,logged.lod_short,logged.held,logged.behind,logged.room⟩

lemma revision (few : bases.length < 2 ^ 63) (mesh_id : UInt64) (xyz : Xyz) :
    (rebased xyz (e.meshes.lookup mesh_id)).revision.toNat = (own bases mesh_id).length + 1 := by
  have count := own_length_le bases mesh_id
  have held := logged.held mesh_id
  have before : ((e.meshes.lookup mesh_id).getD {}).revision.toNat = (own bases mesh_id).length := by
    cases found : e.meshes.lookup mesh_id with
    | none =>
      rw [found] at held
      have none_ : (own bases mesh_id).getLast? = none := held
      rw [List.getLast?_eq_none_iff.mp none_]
      rfl
    | some rec_ =>
      rw [found] at held
      obtain ⟨last,_,revision,_⟩ := held
      exact revision
  grind [rebased,UInt64.toNat_add]

lemma put (few : bases.length < 2 ^ 63) {walk : Dict.Walk UInt64 MeshRecord} {xyz : Xyz}
    (spares : e.Spares (.put walk mesh_id xyz)) :
    (e.put walk mesh_id xyz).1 = e ∨ ∃ rev, Logged (e.put walk mesh_id xyz).1 (bases ++ [⟨mesh_id,xyz⟩])
      (lods ++ [⟨kBaseTag,mesh_id,rev,0,xyz⟩]) := by
  obtain ⟨short,room⟩ := spares
  have kept : ¬(e.max_meshes > 0 ∧ e.meshes.size ≥ e.max_meshes ∧ e.meshes.lookup mesh_id = none) := by
    grind
  rw [MeshEngine.put]
  split
  · exact .inl rfl
  · refine .inr ⟨(rebased xyz (e.meshes.lookup mesh_id)).revision,?_⟩
    simp only
    have count := own_length_le bases mesh_id
    have revision := logged.revision few mesh_id xyz
    refine Logged.queued (e := appendBaseRecord _ mesh_id xyz _) ?_ mesh_id
    constructor
    · simp [appendBaseRecord,logged.base_file]
    · simp [appendBaseRecord,logged.lod_file]
    · intro r member
      rcases mem_append.mp member with earlier | here
      · exact logged.base_short r earlier
      · rw [mem_singleton.mp here]
        exact short
    · intro r member
      rcases mem_append.mp member with earlier | here
      · exact logged.lod_short r earlier
      · rw [mem_singleton.mp here]
        exact short
    · intro id
      rw [own_append]
      by_cases same : mesh_id = id
      · subst same
        simp only [appendBaseRecord,if_true,AList.lookup_insert]
        refine ⟨⟨mesh_id,xyz⟩,List.getLast?_concat,?_,rfl⟩
        grind
      · simp only [appendBaseRecord,if_neg same,AList.lookup_insert_ne (Ne.symm same)]
        exact logged.held id
    · intro r member
      rcases mem_append.mp member with earlier | here
      · obtain ⟨last,put,le,base⟩ := logged.behind r earlier
        rw [own_append]
        split
        · refine ⟨⟨mesh_id,xyz⟩,List.getLast?_concat,?_,fun newest => ?_⟩
          · rw [length_append]
            omega
          · grind
        · exact ⟨last,put,le,base⟩
      · rw [mem_singleton.mp here,own_append,if_pos rfl]
        refine ⟨⟨mesh_id,xyz⟩,List.getLast?_concat,?_,fun _ _ => rfl⟩
        rw [length_append,length_singleton,revision]
    · rcases room with none_ | less | there
      · exact .inl none_
      · exact .inr (Nat.le_trans (Dict.size_insert_le ..) less)
      · exact logged.room.imp_right (Nat.le_trans (Dict.size_insert_present there _))

lemma setLods (found : e.meshes.lookup mesh_id = some rec_)
    (lod_xyz : Dict UInt8 Xyz) : Logged {e with meshes := e.meshes.insert mesh_id {rec_ with lod_xyz := lod_xyz}} bases lods := by
  refine ⟨logged.base_file,logged.lod_file,logged.base_short,logged.lod_short,fun id => ?_,logged.behind,?_⟩
  · by_cases same : mesh_id = id
    · subst same
      have held := logged.held mesh_id
      rw [found] at held
      rw [AList.lookup_insert]
      exact held
    · rw [AList.lookup_insert_ne (Ne.symm same)]
      exact logged.held id
  · exact logged.room.imp_right (Nat.le_trans (Dict.size_insert_present (by rw [found]; rfl) _))

lemma appendLod (found : e.meshes.lookup mesh_id = some rec_) (reduced : level ≠ 0) (short : xyz.length < 2 ^ 32) :
    Logged {e with mesh_lod_log := e.mesh_lod_log ++ LodRecord.encode ⟨kLodTag,mesh_id,rec_.revision,level,xyz⟩} bases
      (lods ++ [⟨kLodTag,mesh_id,rec_.revision,level,xyz⟩]) := by
  refine ⟨logged.base_file,by simp [logged.lod_file],logged.base_short,fun r member => ?_,logged.held,fun r member => ?_,logged.room⟩
  · rcases mem_append.mp member with earlier | here
    · exact logged.lod_short r earlier
    · rw [mem_singleton.mp here]
      exact short
  · rcases mem_append.mp member with earlier | here
    · exact logged.behind r earlier
    · rw [mem_singleton.mp here]
      have held := logged.held mesh_id
      rw [found] at held
      obtain ⟨last,put,revision,_⟩ := held
      refine ⟨last,put,Nat.le_of_eq revision,fun _ again => ?_⟩
      grind [kLodTag,kBaseTag,absurd]

end

lemma storeLods {built : List (UInt8 × Xyz)} (short : ∀ lod ∈ built, lod.2.length < 2 ^ 32)
    (logged : Logged e bases lods) (found : e.meshes.lookup mesh_id = some rec_) :
    ∃ after, Logged (built.foldl (storeLod mesh_id rec_.revision) e) bases after := by
  induction built generalizing e lods rec_ with
  | nil => exact ⟨lods,logged⟩
  | cons lod rest ih =>
    have later : ∀ other ∈ rest, other.2.length < 2 ^ 32 := fun other member => short other (.tail _ member)
    rw [foldl_cons,storeLod]
    split
    · exact ih later logged found
    · next reduced =>
      have appended := logged.appendLod found reduced (short lod (.head _))
      have stored := appended.setLods found (rec_.lod_xyz.insert lod.1 lod.2)
      grind [AList.lookup_insert]

lemma lodJob (logged : Logged e bases lods) (builder : LodBuilder) (mesh_id : UInt64) :
    ∃ after, Logged (e.lodJob builder mesh_id) bases after := by
  rw [MeshEngine.lodJob]
  split
  · exact ⟨lods,logged⟩
  · next rec_ found =>
    split
    · exact ⟨lods,logged⟩
    · next built build =>
      have base : rec_.base_xyz.length < 2 ^ 32 := by
        have held := logged.held mesh_id
        rw [found] at held
        obtain ⟨last,put,_,xyz⟩ := held
        rw [xyz]
        exact logged.base_short last (mem_filter.mp (mem_of_getLast? put)).1
      have short : ∀ lod ∈ built, lod.2.length < 2 ^ 32 := fun lod member =>
        Nat.lt_of_le_of_lt (builder.smaller build lod member) base
      have stored := storeLods short (logged.setLods found ∅) (AList.lookup_insert _)
      exact stored

lemma lodJobs (logged : Logged e bases lods) (builder : LodBuilder) (budget : Nat) :
    ∃ after, Logged (MeshEngine.lodJobs builder budget e) bases after := by
  induction budget generalizing e lods with
  | zero => exact ⟨lods,logged⟩
  | succ budget ih =>
    rw [MeshEngine.lodJobs]
    split
    · exact ⟨lods,logged⟩
    · next mesh_id rest _ =>
      have popped : Logged {e with lod_queue := rest} bases lods :=
        ⟨logged.base_file,logged.lod_file,logged.base_short,logged.lod_short,logged.held,logged.behind,logged.room⟩
      obtain ⟨after,job⟩ := popped.lodJob builder mesh_id
      exact ih job

lemma step (logged : Logged e bases lods) (few : bases.length < 2 ^ 63) {builder : LodBuilder} {s : Step} (spares : e.Spares s) :
    ∃ lods', Logged (e.step builder s) (bases ++ s.record.toList) lods' := by
  cases s with
  | put walk mesh_id xyz =>
    by_cases bad : xyz.isEmpty ∨ xyz.length % 3 ≠ 0
    · rw [MeshEngine.step,MeshEngine.put,if_pos bad]
      rw [Step.record,if_pos bad]
      exact ⟨lods,(append_nil bases).symm ▸ logged⟩
    · rcases logged.put few spares with same | ⟨rev,after⟩
      · have log := congrArg (fun e => e.mesh_log.length) same
        simp only [MeshEngine.put,if_neg bad,queueLodBuild] at log
        split_ifs at log <;> simp [appendBaseRecord,BaseRecord.encode] at log
      · rw [Step.record,if_neg bad]
        exact ⟨_,after⟩
  | processLodJobs max_jobs =>
    obtain ⟨after,done⟩ := logged.lodJobs builder (if max_jobs = 0 then 1 else max_jobs)
    exact ⟨after,(append_nil bases).symm ▸ done⟩
  | restart walk => exact ⟨lods,(append_nil bases).symm ▸ logged.reopened few walk⟩

lemma runAll_written (logged : Logged e bases lods) {builder : LodBuilder} {steps : List Step} (few : bases.length + steps.length < 2 ^ 63)
    (spares : e.SparesAll builder steps) : ∃ lods', Logged (e.runAll builder steps) (bases ++ steps.filterMap Step.record) lods' := by
  induction steps generalizing e bases lods with
  | nil => exact ⟨lods,(append_nil bases).symm ▸ logged⟩
  | cons s rest ih =>
    rw [length_cons] at few
    obtain ⟨lods',next⟩ := logged.step (by omega) spares.1
    have one : s.record.toList.length ≤ 1 := by cases s.record <;> simp
    have records : (s :: rest).filterMap Step.record = s.record.toList ++ rest.filterMap Step.record := by
      cases found : s.record <;> simp [found]
    rw [records,← append_assoc]
    exact ih next (by rw [length_append]; omega) spares.2

lemma runAll (logged : Logged e bases lods) {builder : LodBuilder} {steps : List Step} (few : bases.length + steps.length < 2 ^ 63)
    (spares : e.SparesAll builder steps) :
    ∃ bases' lods', Logged (e.runAll builder steps) bases' lods' ∧ bases'.length < 2 ^ 63 := by
  obtain ⟨lods',after⟩ := logged.runAll_written few spares
  have fewer : (steps.filterMap Step.record).length ≤ steps.length := length_filterMap_le ..
  exact ⟨_,lods',after,by rw [length_append]; omega⟩

/-- Opening an engine that is open changes the mesh a query works with exactly when a
reduced mesh is chosen that is not the base. -/
lemma opened_same_iff (logged : Logged e bases lods) (few : bases.length < 2 ^ 63) (walk : Dict.Walk UInt64 MeshRecord) (id : UInt64) :
    (∀ detail, (e.openEngine walk).resolveMesh id detail = e.resolveMesh id detail) ↔
      e.resolveMesh id .kAutoLatencyFirst = e.resolveMesh id .kHighDetail := by
  have base (detail : MeshDetailPreference) : (e.openEngine walk).resolveMesh id detail = e.resolveMesh id .kHighDetail := by
    have after := logged.opened few walk id
    rw [resolveMesh,resolveMesh]
    cases found : (e.openEngine walk).meshes.lookup id with
    | none =>
      simp_all
    | some opened =>
      rw [found] at after
      cases before : e.meshes.lookup id with
      | none =>
        rw [before] at after
        cases after
      | some rec_ =>
        rw [before,map_some,map_some,some_inj,Prod.mk.injEq] at after
        have level : chooseLodLevel opened detail = 0 := by
          rw [chooseLodLevel,after.2]
          split <;> rfl
        have high : chooseLodLevel rec_ .kHighDetail = 0 := rfl
        simp only [map_some,level,high,if_true,after.1]
  constructor
  · intro same
    rw [← same .kAutoLatencyFirst,base]
  · intro same detail
    rw [base]
    cases detail with
    | kAutoLatencyFirst => exact same.symm
    | kHighDetail => rfl

end Logged

/-- As long as no mesh is evicted, restarts and detail jobs keep the mesh that was put last, and
its revision counts the puts. -/
theorem runAll_current (builder : LodBuilder) (max_meshes mesh_lod_max_queue : Nat) (steps : List Step) (few : steps.length < 2 ^ 63)
    (spares : (created max_meshes mesh_lod_max_queue).SparesAll builder steps) (id : UInt64) :
    Current (own (steps.filterMap Step.record) id) (((created max_meshes mesh_lod_max_queue).runAll builder steps).meshes.lookup id) := by
  obtain ⟨lods,after⟩ := (Logged.created max_meshes mesh_lod_max_queue).runAll_written (by simpa using few) spares
  exact after.held id

/-- The first three floats as the only reduced mesh. -/
def firstVertex : LodBuilder where
  build := fun xyz => .ok [(1,xyz.take 3)]
  smaller := by
    intro xyz lods built lod member
    cases built
    rw [mem_singleton.mp member]
    exact length_take_le' _ _

def overwriting : List Step :=
  [.put .plain 7 [1,2,3,4,5,6],.put .plain 8 [3,2,1],.processLodJobs 2,.put .plain 7 [9,8,7,6,5,4],.processLodJobs 1,.restart .plain,
    .put .plain 7 [0,0,1],.processLodJobs 0,.restart .plain]

set_option maxRecDepth 4000 in
theorem runAll_current_overwritten :
    Current (own (overwriting.filterMap Step.record) 7) (((created 2 0).runAll firstVertex overwriting).meshes.lookup 7) ∧
      (((created 2 0).runAll firstVertex overwriting).meshes.lookup 7).map (fun rec_ => (rec_.base_xyz,rec_.revision)) =
        some ([0,0,1],3) := by
  have spares : (created 2 0).SparesAll firstVertex overwriting := by
    simp only [overwriting,SparesAll,Spares]
    decide +kernel
  exact ⟨runAll_current firstVertex 2 0 overwriting (by decide) spares 7,by decide +kernel⟩

end MeshEngine
end PomaiCache
