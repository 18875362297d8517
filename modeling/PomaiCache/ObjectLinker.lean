import PomaiCache.Basic
import PomaiCache.CarefulRuns
import PomaiCache.Dict

/-!
Objects under a global id, and for each kind of id a map back to the global id. Two objects may
share an id, but the map back has room for one of them.
-/
namespace PomaiCache
open Codec

inductive IdKind
  | vector
  | graph_vertex
  | mesh
  deriving DecidableEq

structure LinkedObject where
  vector_id : UInt64
  graph_vertex_id : UInt64
  mesh_id : UInt64
  deriving DecidableEq

def LinkedObject.id (o : LinkedObject) : IdKind → UInt64
  | .vector => o.vector_id
  | .graph_vertex => o.graph_vertex_id
  | .mesh => o.mesh_id

/-- `gid_by` is `gid_by_vector_`, `gid_by_graph_vertex_` and `gid_by_mesh_`. -/
structure ObjectLinker where
  by_gid : Dict Bytes LinkedObject
  gid_by : IdKind → Dict UInt64 Bytes

inductive LinkCall
  | link (gid : Bytes) (linked : LinkedObject)
  | unlink (gid : Bytes)

namespace ObjectLinker

def resolveByGid (s : ObjectLinker) (gid : Bytes) : Option LinkedObject := s.by_gid.lookup gid

def resolveBy (k : IdKind) (s : ObjectLinker) (id : UInt64) : Option LinkedObject :=
  ((s.gid_by k).lookup id).bind s.resolveByGid

def resolveByVectorId := resolveBy .vector
def resolveByGraphVertexId := resolveBy .graph_vertex
def resolveByMeshId := resolveBy .mesh

def dropped (s : ObjectLinker) (gid : Bytes) (k : IdKind) : Dict UInt64 Bytes :=
  match s.resolveByGid gid with
  | none => s.gid_by k
  | some old => (s.gid_by k).erase (old.id k)

def linkByGid (s : ObjectLinker) (gid : Bytes) (linked : LinkedObject) : ObjectLinker × Status :=
  if gid.isEmpty then (s,.invalidArgument "gid must not be empty")
  else if linked.vector_id = 0 ∨ linked.graph_vertex_id = 0 ∨ linked.mesh_id = 0 then
    (s,.invalidArgument "vector_id/graph_vertex_id/mesh_id must be non-zero")
  else (⟨s.by_gid.insert gid linked,fun k => (s.dropped gid k).insert (linked.id k) gid⟩,.Ok)

def unlinkByGid (s : ObjectLinker) (gid : Bytes) : ObjectLinker × Status :=
  if (s.resolveByGid gid).isNone then (s,.notFound "gid not found") else (⟨s.by_gid.erase gid,s.dropped gid⟩,.Ok)

def call (s : ObjectLinker) : LinkCall → ObjectLinker
  | .link gid linked => (s.linkByGid gid linked).1
  | .unlink gid => (s.unlinkByGid gid).1

def created : ObjectLinker := ⟨∅,fun _ => ∅⟩

def run (calls : List LinkCall) : ObjectLinker := calls.foldl call created

def Sound (s : ObjectLinker) : Prop :=
  ∀ k id o, s.resolveBy k id = some o → o.id k = id ∧ ∃ gid, s.resolveByGid gid = some o

/-- A linked object is found by its ids, or another one is that has the id. -/
def Complete (s : ObjectLinker) : Prop := ∀ gid o k, s.resolveByGid gid = some o → (s.resolveBy k (o.id k)).isSome

/-- No id of the object that `new` replaces is an id of another object, or `new` has it too. -/
def SparesIds (s : ObjectLinker) (gid : Bytes) (new : Option LinkedObject) : Prop :=
  ∀ old other o k, s.resolveByGid gid = some old → other ≠ gid → s.resolveByGid other = some o →
    o.id k = old.id k → ∃ n ∈ new, n.id k = o.id k

def Spares (s : ObjectLinker) : LinkCall → Prop
  | .link gid linked => gid.isEmpty ∨ (linked.vector_id = 0 ∨ linked.graph_vertex_id = 0 ∨ linked.mesh_id = 0) ∨
      s.SparesIds gid (some linked)
  | .unlink gid => s.SparesIds gid none

def Back (s : ObjectLinker) : Prop := ∀ k id gid, (s.gid_by k).lookup id = some gid → ∃ o, s.resolveByGid gid = some o ∧ o.id k = id

variable {s : ObjectLinker}

lemma Back.sound (back : s.Back) : s.Sound := by
  intro k id o found
  obtain ⟨gid,at_,held⟩ := Option.bind_eq_some_iff.mp found
  obtain ⟨same,there,rightId⟩ := back k id gid at_
  cases held.symm.trans there
  exact ⟨rightId,gid,held⟩

lemma Back.complete_iff (back : s.Back) :
    s.Complete ↔ ∀ gid o k, s.resolveByGid gid = some o → (s.gid_by k).lookup (o.id k) ≠ none := by
  refine forall_congr' fun gid => forall_congr' fun o => forall_congr' fun k => forall_congr' fun _ => ?_
  cases at_ : (s.gid_by k).lookup (o.id k) with
  | none => simp [resolveBy,at_]
  | some other =>
    obtain ⟨found,held,_⟩ := back k _ other at_
    simp [resolveBy,at_,held]

lemma lookup_dropped (s : ObjectLinker) (gid : Bytes) (k : IdKind) (id : UInt64) :
    (∃ old, s.resolveByGid gid = some old ∧ old.id k = id ∧ (s.dropped gid k).lookup id = none) ∨
      (∀ old, s.resolveByGid gid = some old → old.id k ≠ id) ∧ (s.dropped gid k).lookup id = (s.gid_by k).lookup id := by
  unfold dropped
  cases held : s.resolveByGid gid with
  | none => exact .inr ⟨by simp,rfl⟩
  | some old =>
    by_cases same : id = old.id k
    · exact .inl ⟨old,rfl,same.symm,by rw [same]; exact AList.lookup_erase ..⟩
    · exact .inr ⟨by rintro _ ⟨⟩; exact Ne.symm same,AList.lookup_erase_ne same⟩

/-- What link and unlink have in common: the object under `gid` becomes `new`. -/
structure Replaced (s s' : ObjectLinker) (gid : Bytes) (new : Option LinkedObject) : Prop where
  own : s'.resolveByGid gid = new
  rest : ∀ other, other ≠ gid → s'.resolveByGid other = s.resolveByGid other
  given : ∀ n ∈ new, ∀ k, (s'.gid_by k).lookup (n.id k) = some gid
  kept : ∀ k id, (∀ n ∈ new, n.id k ≠ id) → (s'.gid_by k).lookup id = (s.dropped gid k).lookup id

lemma call_cases (s : ObjectLinker) (c : LinkCall) :
    (s.call c = s ∧ s.Spares c) ∨ ∃ gid new, Replaced s (s.call c) gid new ∧ (s.Spares c ↔ s.SparesIds gid new) := by
  cases c with
  | link gid linked =>
    simp only [call,Spares,linkByGid]
    split
    · next empty => exact .inl ⟨rfl,.inl empty⟩
    split
    · next zero => exact .inl ⟨rfl,.inr (.inl zero)⟩
    refine .inr ⟨gid,some linked,⟨AList.lookup_insert _,fun _ => AList.lookup_insert_ne,?_,?_⟩,by simp [*]⟩
    · rintro _ ⟨⟩ k
      exact AList.lookup_insert _
    · intro k id apart
      exact AList.lookup_insert_ne (apart linked rfl).symm
  | unlink gid =>
    simp only [call,Spares,unlinkByGid]
    split
    · next absent =>
      refine .inl ⟨rfl,?_⟩
      intro old other o k held
      simp [held] at absent
    · exact .inr ⟨gid,none,⟨AList.lookup_erase ..,fun _ => AList.lookup_erase_ne,nofun,fun _ _ _ => rfl⟩,Iff.rfl⟩

variable {s' : ObjectLinker} {gid : Bytes} {new : Option LinkedObject}

lemma Replaced.back (step : Replaced s s' gid new) (back : s.Back) : s'.Back := by
  intro k id other at_
  by_cases here : ∃ n ∈ new, n.id k = id
  · obtain ⟨n,isNew,rfl⟩ := here
    cases (step.given n isNew k).symm.trans at_
    exact ⟨n,step.own.trans isNew,rfl⟩
  · rw [step.kept k id fun n isNew same => here ⟨n,isNew,same⟩] at at_
    rcases lookup_dropped s gid k id with ⟨_,_,_,none_⟩ | ⟨apart,same⟩
    · cases none_.symm.trans at_
    · obtain ⟨o,held,rightId⟩ := back k id other (same ▸ at_)
      have ne : other ≠ gid := fun own => apart o (own ▸ held) rightId
      exact ⟨o,(step.rest other ne).trans held,rightId⟩

/-- The other objects are still found behind the call exactly if it spares their ids. -/
lemma Replaced.complete_iff (step : Replaced s s' gid new) (back : s.Back) (complete : s.Complete) :
    s'.Complete ↔ s.SparesIds gid new := by
  rw [(step.back back).complete_iff]
  constructor
  · intro found old other o k held ne there same
    by_contra lost
    apply found other o k ((step.rest other ne).trans there)
    rw [step.kept k _ fun n isNew same => lost ⟨n,isNew,same⟩]
    rcases lookup_dropped s gid k (o.id k) with ⟨_,_,_,none_⟩ | ⟨apart,_⟩
    · exact none_
    · exact absurd same.symm (apart old held)
  · intro spares other o k there
    by_cases here : ∃ n ∈ new, n.id k = o.id k
    · obtain ⟨n,isNew,same⟩ := here
      rw [← same,step.given n isNew k]
      simp
    have ne : other ≠ gid := by
      rintro rfl
      exact here ⟨o,step.own.symm.trans there,rfl⟩
    rw [step.rest other ne] at there
    rw [step.kept k _ fun n isNew same => here ⟨n,isNew,same⟩]
    rcases lookup_dropped s gid k (o.id k) with ⟨old,held,same,_⟩ | ⟨_,same⟩
    · exact absurd (spares old other o k held ne there same.symm) here
    · rw [same]
      exact back.complete_iff.mp complete other o k there

lemma Back.call (back : s.Back) (c : LinkCall) : (s.call c).Back := by
  rcases s.call_cases c with ⟨same,_⟩ | ⟨_,_,step,_⟩
  · rw [same]
    exact back
  · exact step.back back

lemma Back.complete_call_iff (back : s.Back) (complete : s.Complete) (c : LinkCall) : (s.call c).Complete ↔ s.Spares c := by
  rcases s.call_cases c with ⟨same,spares⟩ | ⟨_,_,step,spares⟩
  · exact iff_of_true (by rw [same]; exact complete) spares
  · exact (step.complete_iff back complete).trans spares.symm

lemma created_back : created.Back := by
  intro k id gid at_
  cases at_

/-- What a lookup returns is always right, after any calls. That every linked object keeps being found is
true exactly if no call takes an id away that another object has. -/
theorem run_lookups_iff (calls : List LinkCall) : (run calls).Sound ∧
    ((∀ n, (run (calls.take n)).Complete) ↔ CarefulRuns.Careful call Spares created calls) := by
  have keeps (s : ObjectLinker) (c : LinkCall) (back : s.Back) : (s.call c).Back := back.call c
  refine ⟨(CarefulRuns.invariant keeps created_back calls).sound,?_⟩
  apply CarefulRuns.good_iff Complete keeps _ created_back
  · intro gid o k held
    cases held
  · intro s c back complete
    exact back.complete_call_iff complete c

/-- Two objects share a vector id; unlinking the second hides the first. -/
theorem unlink_hides_other : let s := run [.link [1] ⟨1,2,3⟩,.link [2] ⟨1,4,5⟩,.unlink [2]]
    s.resolveByGid [1] = some ⟨1,2,3⟩ ∧ s.resolveByVectorId 1 = none := by
  decide

end ObjectLinker
end PomaiCache
