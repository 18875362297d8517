import Mathlib
import PomaiCache.BinarySearch
import PomaiCache.Layers
import PomaiCache.MemTable

/-!
Segments: the immutable files a memtable is frozen into. The builder keeps spans
of the vectors it is given and copies the floats only when it finishes; the
reader finds an id by binary search.
-/
namespace PomaiCache
open Layers List

/-- Ids are compared as unsigned numbers. -/
instance vectorIdOrder : LinearOrder UInt64 where
  le_refl := UInt64.le_refl
  le_trans _ _ _ := UInt64.le_trans
  lt_iff_le_not_ge a b := by
    rw [UInt64.lt_iff_toNat_lt,UInt64.le_iff_toNat_le,UInt64.le_iff_toNat_le]
    omega
  le_antisymm _ _ := UInt64.le_antisymm
  le_total := UInt64.le_total
  toDecidableLE := inferInstance
  toDecidableLT := inferInstance
  toDecidableEq := inferInstance

abbrev Found := Vec × Metadata

structure SegmentEntry where
  id : VectorId
  vec : Vec
  is_deleted : Bool
  md : Metadata
  deriving DecidableEq, Repr

/-- A segment file, as its reader sees it: the entries in the order of their ids. -/
structure Segment where
  dim : UInt32
  entries : List SegmentEntry
  sorted : entries.Pairwise fun a b => a.id ≤ b.id
  deriving DecidableEq

structure BuilderEntry where
  id : VectorId
  vec : View
  is_deleted : Bool
  md : Metadata
  deriving DecidableEq, Repr

structure SegmentBuilder where
  dim : UInt32
  entries : List BuilderEntry

def View.floats (buf : Vec) (dim : UInt32) : View → Vec
  | null => []
  | arena vec => vec
  | decodeBuf => (List.range dim.toNat).map fun i => buf.getD i 0

namespace SegmentBuilder

def create (dim : UInt32) : SegmentBuilder := ⟨dim,[]⟩

def count (b : SegmentBuilder) : Nat := b.entries.length

def add (b : SegmentBuilder) (id : VectorId) (vec : View) (vec_dim : UInt32) (is_deleted : Bool)
    (md : Metadata) : SegmentBuilder × Status :=
  if is_deleted then ({b with entries := b.entries ++ [⟨id,.null,true,md⟩]},.Ok)
  else if vec_dim ≠ b.dim then (b,.invalidArgument "dimension mismatch")
  else ({b with entries := b.entries ++ [⟨id,vec,false,md⟩]},.Ok)

end SegmentBuilder

def BuilderEntry.write (e : BuilderEntry) (buf : Vec) (dim : UInt32) : SegmentEntry :=
  ⟨e.id,if e.is_deleted then replicate dim.toNat float0 else e.vec.floats buf dim,e.is_deleted,e.md⟩

def SegmentBuilder.finish (b : SegmentBuilder) (buf : Vec) : Segment where
  dim := b.dim
  entries := (b.entries.insertionSort fun x y => x.id ≤ y.id).map fun e => e.write buf b.dim
  sorted := by
    rw [pairwise_map]
    have total : Std.Total fun x y : BuilderEntry => x.id ≤ y.id := ⟨fun x y => le_total x.id y.id⟩
    have trans : IsTrans BuilderEntry fun x y => x.id ≤ y.id := ⟨fun _ _ _ => le_trans⟩
    exact pairwise_insertionSort _ _

namespace Segment

def count (s : Segment) : Nat := s.entries.length

def findRaw (s : Segment) (id : VectorId) : Option SegmentEntry :=
  (BinarySearch.search (s.entries.map SegmentEntry.id) id 0 (s.count - 1)).bind fun mid => s.entries[mid]?

inductive FindResult
  | kFound
  | kFoundTombstone
  | kNotFound
  deriving DecidableEq, Repr

def findAndDecode (s : Segment) (id : VectorId) : FindResult × Found :=
  match s.findRaw id with
  | some e => if e.is_deleted then (.kFoundTombstone,([],e.md)) else (.kFound,(e.vec,e.md))
  | none => (.kNotFound,([],{}))

def get (s : Segment) (id : VectorId) : Except Status Found :=
  match s.findAndDecode id with
  | (.kFound,found) => .ok found
  | (.kFoundTombstone,_) => .error (.notFound "tombstone")
  | (.kNotFound,_) => .error (.notFound "id not found in segment")

def readAt (s : Segment) (index : Nat) : Except Status SegmentEntry :=
  match s.entries[index]? with
  | some e => .ok e
  | none => .error (.invalidArgument "index out of range")

def Strict (s : Segment) : Prop := s.entries.Pairwise fun a b => a.id < b.id

lemma findRaw_eq_some {s : Segment} (strict : s.Strict) (id : VectorId) (e : SegmentEntry) :
    s.findRaw id = some e ↔ e ∈ s.entries ∧ e.id = id := by
  have ascending : (s.entries.map SegmentEntry.id).Pairwise (· < ·) := pairwise_map.mpr strict
  have length : (s.count : Int) - 1 = (s.entries.map SegmentEntry.id).length - 1 := by simp [count]
  rw [findRaw,length]
  constructor
  · intro found
    obtain ⟨mid,at_,held⟩ := Option.bind_eq_some_iff.mp found
    grind [BinarySearch.search_eq_some,mem_of_getElem,Option.some.inj]
  · rintro ⟨member,same⟩
    obtain ⟨mid,held⟩ := mem_iff_getElem?.mp member
    refine Option.bind_eq_some_iff.mpr ⟨mid,?_,held⟩
    rw [BinarySearch.search_eq_some ascending,getElem?_map,held,Option.map_some,same]

def layer (s : Segment) : Layer VectorId Found := fun id =>
  (s.findRaw id).map fun e => if e.is_deleted then none else some (e.vec,e.md)

def firstLayer (s : Segment) : Layer VectorId Found := fun id =>
  (s.entries.find? fun e => e.id = id).map fun e => if e.is_deleted then none else some (e.vec,e.md)

lemma layer_firstLayer {s : Segment} (strict : s.Strict) (id : VectorId) : s.layer id = s.firstLayer id := by
  rw [layer,firstLayer]
  congr 1
  cases found : s.entries.find? fun e => e.id = id with
  | none =>
    cases raw : s.findRaw id with
    | none => rfl
    | some e =>
      grind [findRaw_eq_some,absurd]
  | some e =>
    grind [findRaw_eq_some]

lemma get_eq (s : Segment) (id : VectorId) : s.get id = match s.layer id with
    | some (some found) => .ok found
    | some none => .error (.notFound "tombstone")
    | none => .error (.notFound "id not found in segment") := by
  rw [get,findAndDecode,layer]
  grind

end Segment

/-! ### What a finished segment says -/

namespace BuilderEntry

def value (e : BuilderEntry) (buf : Vec) (dim : UInt32) : Option Found :=
  if e.is_deleted then none else some (e.vec.floats buf dim,e.md)

def held (es : List BuilderEntry) (buf : Vec) (dim : UInt32) : Layer VectorId Found := fun id =>
  (es.find? fun e => e.id == id).map fun e => e.value buf dim

lemma held_eq_some {es : List BuilderEntry} (distinct : (es.map BuilderEntry.id).Nodup) {e : BuilderEntry}
    (member : e ∈ es) (buf : Vec) (dim : UInt32) : held es buf dim e.id = some (e.value buf dim) := by
  rw [held]
  cases found : es.find? fun other => other.id == e.id with
  | none => exact absurd (List.find?_eq_none.mp found e member) (by simp)
  | some other =>
    grind [inj_on_of_nodup_map]

lemma held_eq_none {es : List BuilderEntry} {id : VectorId} (absent : id ∉ es.map BuilderEntry.id)
    (buf : Vec) (dim : UInt32) : held es buf dim id = none := by
  grind [held,Option.map_eq_none_iff]

end BuilderEntry

namespace SegmentBuilder
variable {b : SegmentBuilder} (distinct : (b.entries.map BuilderEntry.id).Nodup) (buf : Vec)
include distinct

lemma finish_strict : (b.finish buf).Strict := by
  have apart : (b.finish buf).entries.Pairwise fun x y => x.id ≠ y.id := by
    have sorted : ((b.entries.insertionSort fun x y => x.id ≤ y.id).map BuilderEntry.id).Nodup :=
      ((perm_insertionSort _ b.entries).map _).nodup_iff.mpr distinct
    rw [finish,pairwise_map]
    exact pairwise_map.mp sorted
  exact ((b.finish buf).sorted.and apart).imp fun both => lt_of_le_of_ne both.1 both.2

lemma finish_layer (id : VectorId) : (b.finish buf).layer id = BuilderEntry.held b.entries buf b.dim id := by
  have strict := finish_strict distinct buf
  by_cases present : id ∈ b.entries.map BuilderEntry.id
  · obtain ⟨e,member,rfl⟩ := mem_map.mp present
    have found : (b.finish buf).findRaw e.id = some (e.write buf b.dim) := by
      rw [Segment.findRaw_eq_some strict]
      refine ⟨mem_map.mpr ⟨e,?_,rfl⟩,rfl⟩
      exact (perm_insertionSort _ _).mem_iff.mpr member
    grind [Segment.layer,BuilderEntry.held_eq_some,BuilderEntry.value,BuilderEntry.write]
  · rw [BuilderEntry.held_eq_none present,Segment.layer,Option.map_eq_none_iff]
    cases found : (b.finish buf).findRaw id with
    | none => rfl
    | some e =>
      obtain ⟨member,same⟩ := (Segment.findRaw_eq_some strict id e).mp found
      obtain ⟨source,inside,rfl⟩ := mem_map.mp member
      exact absurd (mem_map.mpr ⟨source,(perm_insertionSort _ _).mem_iff.mp inside,same⟩) present

end SegmentBuilder
end PomaiCache
