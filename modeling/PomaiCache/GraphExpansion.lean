import Mathlib
import PomaiCache.Distance
import PomaiCache.Graph

/-!
The expansion of a hit over the graph, as `QueryOrchestrator::Execute` does it for each hit: level
by level, with a set of the vertices that were seen.
-/
namespace PomaiCache
open List
namespace GraphMembraneImpl

def matching (g : GraphMembraneImpl) (edge_type : UInt32) (vid : UInt64) : List Neighbor :=
  if edge_type ≠ 0 then g.getNeighborsOfType vid edge_type else g.getNeighbors vid

structure Expansion where
  seen : List UInt64
  next : List UInt64
  related_ids : List UInt64

def visit (st : Expansion) (n : Neighbor) : Expansion :=
  if n.id ∈ st.seen then st else ⟨n.id :: st.seen,st.next ++ [n.id],st.related_ids ++ [n.id]⟩

/-- The loop over the hops. -/
def expand (g : GraphMembraneImpl) (max_frontier : Nat) (edge_type : UInt32) (frontier seen related_ids : List UInt64) :
    Nat → List UInt64
  | 0 => related_ids
  | hops + 1 =>
    let st := frontier.foldl (fun st vid => (g.matching edge_type vid).foldl visit st) ⟨seen,[],related_ids⟩
    if st.next.isEmpty then st.related_ids
    else g.expand max_frontier edge_type (st.next.take max_frontier) st.seen st.related_ids hops

/-- The ids that are added to a hit. A linked object gives a vertex and a mesh. -/
def relatedIds (g : GraphMembraneImpl) (max_frontier : Nat) (edge_type graph_hops : UInt32) (linked : Option (UInt64 × UInt64))
    (id : UInt64) : List UInt64 :=
  g.expand max_frontier edge_type [id] [id] (linked.elim [] fun object => [object.1,object.2]) graph_hops.toNat

def Edge (g : GraphMembraneImpl) (edge_type : UInt32) (u v : UInt64) : Prop := v ∈ (g.matching edge_type u).map Neighbor.id

abbrev At (g : GraphMembraneImpl) (edge_type : UInt32) (id v : UInt64) (d : Nat) : Prop := Distance (g.Edge edge_type) id v d

lemma visit_all (ns : List Neighbor) (st : Expansion) : ∃ new, new.Nodup ∧ (∀ v, v ∈ new ↔ v ∈ ns.map Neighbor.id ∧ v ∉ st.seen) ∧
    (ns.foldl visit st).next = st.next ++ new ∧ (ns.foldl visit st).related_ids = st.related_ids ++ new ∧
    ∀ v, v ∈ (ns.foldl visit st).seen ↔ v ∈ st.seen ∨ v ∈ new := by
  induction ns generalizing st with
  | nil => exact ⟨[],by simp⟩
  | cons n rest ih =>
    rw [foldl_cons,visit]
    by_cases known : n.id ∈ st.seen
    · obtain ⟨new,nodup,inside,same⟩ := ih st
      rw [if_pos known]
      refine ⟨new,nodup,fun v => ?_,same⟩
      rw [inside,map_cons,mem_cons]
      constructor
      · rintro ⟨member,fresh⟩
        exact ⟨.inr member,fresh⟩
      · rintro ⟨rfl | member,fresh⟩
        · exact absurd known fresh
        · exact ⟨member,fresh⟩
    · obtain ⟨new,nodup,inside,next,related,seen⟩ := ih ⟨n.id :: st.seen,st.next ++ [n.id],st.related_ids ++ [n.id]⟩
      rw [if_neg known]
      refine ⟨n.id :: new,?_,fun v => ?_,by simp [next],by simp [related],fun v => ?_⟩
      · exact nodup_cons.mpr ⟨fun member => ((inside _).mp member).2 (.head _),nodup⟩
      · by_cases here : v = n.id
        · simp [here,known]
        · simp [inside,here]
      · by_cases here : v = n.id
        · simp [here,seen]
        · simp [seen,here]

variable {g : GraphMembraneImpl} {edge_type : UInt32} {id : UInt64} {max_frontier n : Nat} {frontier seen related : List UInt64}

/-- The state of the loop behind `n` hops. -/
structure Levels (g : GraphMembraneImpl) (edge_type : UInt32) (id : UInt64) (n : Nat) (frontier seen related : List UInt64) : Prop where
  level : ∀ v, v ∈ frontier ↔ g.At edge_type id v n
  known : ∀ v, v ∈ seen ↔ ∃ d ≤ n, g.At edge_type id v d
  found : ∀ v, v ∈ related ↔ ∃ d ≤ n, 1 ≤ d ∧ g.At edge_type id v d
  nodup : related.Nodup
  sorted : related.Pairwise fun a b => ∀ i j, g.At edge_type id a i → g.At edge_type id b j → i ≤ j

lemma Levels.start (g : GraphMembraneImpl) (edge_type : UInt32) (id : UInt64) : Levels g edge_type id 0 [id] [id] [] := by
  constructor
  · simp [Distance.zero_iff]
  · simp [Distance.zero_iff]
  · intro v
    simp only [not_mem_nil,false_iff]
    rintro ⟨d,le,positive,_⟩
    omega
  · exact .nil
  · exact .nil

lemma Levels.hop (here : Levels g edge_type id n frontier seen related) :
    let st := frontier.foldl (fun st vid => (g.matching edge_type vid).foldl visit st) ⟨seen,[],related⟩
    Levels g edge_type id (n + 1) st.next st.seen st.related_ids ∧ st.next.Nodup := by
  intro st
  have flat : st = (frontier.flatMap (g.matching edge_type)).foldl visit ⟨seen,[],related⟩ := by rw [foldl_flatMap]
  obtain ⟨new,nodup,inside,next,found,known⟩ := visit_all (frontier.flatMap (g.matching edge_type)) ⟨seen,[],related⟩
  rw [← flat] at next found known
  have level (v : UInt64) : v ∈ new ↔ g.At edge_type id v (n + 1) := by
    rw [inside,At,Distance.succ_iff,← here.known,and_comm]
    simp only [map_flatMap,mem_flatMap,here.level]
    rfl
  rw [nil_append] at next
  refine ⟨⟨fun v => by rw [next,level],fun v => ?_,fun v => ?_,?_,?_⟩,by rw [next]; exact nodup⟩
  · rw [known,here.known,level]
    constructor
    · rintro (⟨d,le,at_⟩ | at_)
      · exact ⟨d,by omega,at_⟩
      · exact ⟨n + 1,Nat.le_refl _,at_⟩
    · rintro ⟨d,le,at_⟩
      rcases Nat.lt_or_eq_of_le le with less | rfl
      · exact .inl ⟨d,by omega,at_⟩
      · exact .inr at_
  · rw [found,mem_append,here.found,level]
    constructor
    · rintro (⟨d,le,positive,at_⟩ | at_)
      · exact ⟨d,by omega,positive,at_⟩
      · exact ⟨n + 1,Nat.le_refl _,by omega,at_⟩
    · rintro ⟨d,le,positive,at_⟩
      rcases Nat.lt_or_eq_of_le le with less | rfl
      · exact .inl ⟨d,by omega,positive,at_⟩
      · exact .inr at_
  · rw [found,nodup_append']
    refine ⟨here.nodup,nodup,fun v old fresh => ?_⟩
    obtain ⟨d,le,_,at_⟩ := (here.found v).mp old
    have := at_.unique ((level v).mp fresh)
    omega
  · rw [found,pairwise_append]
    have later (v : UInt64) (fresh : v ∈ new) (j : Nat) (at_ : g.At edge_type id v j) : j = n + 1 :=
      at_.unique ((level v).mp fresh)
    refine ⟨here.sorted,?_,fun a old b fresh i j first second => ?_⟩
    · exact pairwise_of_forall_mem_list fun a one b other i j first second => by
        rw [later a one i first,later b other j second]
    · obtain ⟨d,le,_,at_⟩ := (here.found a).mp old
      rw [later b fresh j second,first.unique at_]
      omega

/-- The vertices at a distance that is not the last one fit into the frontier. -/
def Narrow (g : GraphMembraneImpl) (edge_type : UInt32) (id : UInt64) (max_frontier hops : Nat) : Prop :=
  ∀ d < hops, 1 ≤ d → ∀ level : Finset UInt64, (∀ v ∈ level, g.At edge_type id v d) → level.card ≤ max_frontier

lemma Levels.expand {hops : Nat} (here : Levels g edge_type id n frontier seen related)
    (narrow : Narrow g edge_type id max_frontier (n + hops)) :
    ∃ frontier' seen', Levels g edge_type id (n + hops) frontier' seen' (g.expand max_frontier edge_type frontier seen related hops) := by
  induction hops generalizing n frontier seen related with
  | zero => exact ⟨frontier,seen,here⟩
  | succ hops ih =>
    obtain ⟨after,nodup⟩ := here.hop
    rw [GraphMembraneImpl.expand]
    generalize frontier.foldl (fun st vid => (g.matching edge_type vid).foldl visit st) ⟨seen,[],related⟩ = st at after nodup ⊢
    split
    · next empty =>
      have none_ (v : UInt64) : ¬ g.At edge_type id v (n + 1) := by
        rw [← after.level,isEmpty_iff.mp empty]
        exact not_mem_nil
      have beyond (v : UInt64) (d : Nat) (at_ : g.At edge_type id v d) : d ≤ n + 1 := by
        by_contra far
        exact Distance.none_behind none_ (by omega) v at_
      refine ⟨[],st.seen,fun v => ?_,fun v => ?_,fun v => ?_,after.nodup,after.sorted⟩
      · simp [Distance.none_behind none_ (show n + 1 ≤ n + (hops + 1) by omega) v]
      · rw [after.known]
        exact ⟨fun ⟨d,le,at_⟩ => ⟨d,by omega,at_⟩,fun ⟨d,_,at_⟩ => ⟨d,beyond v d at_,at_⟩⟩
      · rw [after.found]
        exact ⟨fun ⟨d,le,at_⟩ => ⟨d,by omega,at_⟩,fun ⟨d,_,at_⟩ => ⟨d,beyond v d at_.2,at_⟩⟩
    · cases hops with
      | zero => exact ⟨_,_,after⟩
      | succ more =>
        have fits : st.next.length ≤ max_frontier := by
          rw [← toFinset_card_of_nodup nodup]
          exact narrow (n + 1) (by omega) (by omega) _ fun v member => (after.level v).mp (mem_toFinset.mp member)
        rw [take_of_length_le fits,show n + (more + 1 + 1) = n + 1 + (more + 1) by omega] at *
        exact ih after narrow

/-- The ids added to a hit without a linked object are the vertices within so many hops, each of
them once and the near ones first. -/
theorem relatedIds_spec (g : GraphMembraneImpl) (max_frontier : Nat) (edge_type graph_hops : UInt32) (id : UInt64)
    (narrow : Narrow g edge_type id max_frontier graph_hops.toNat) :
    let related := g.relatedIds max_frontier edge_type graph_hops none id
    (∀ v, v ∈ related ↔ ∃ d ≤ graph_hops.toNat, 1 ≤ d ∧ g.At edge_type id v d) ∧ related.Nodup ∧
      related.Pairwise fun a b => ∀ i j, g.At edge_type id a i → g.At edge_type id b j → i ≤ j := by
  obtain ⟨_,_,done⟩ := (Levels.start g edge_type id).expand (by rwa [Nat.zero_add] : Narrow g edge_type id max_frontier (0 + graph_hops.toNat))
  rw [Nat.zero_add] at done
  exact ⟨done.found,done.nodup,done.sorted⟩

def twoVertices : GraphMembraneImpl :=
  {created 1000 0 none with adj_lists := AList.insert 1 [⟨2,5,0⟩] (AList.insert 2 [⟨1,5,0⟩] ∅)}

theorem relatedIds_back : twoVertices.relatedIds 2048 5 3 none 1 = [2] ∧
    ∀ v, v ∈ twoVertices.relatedIds 2048 5 3 none 1 ↔ ∃ d ≤ 3, 1 ≤ d ∧ twoVertices.At 5 1 v d := by
  have there : (twoVertices.matching 5 1).map Neighbor.id = [2] := by decide
  have back : (twoVertices.matching 5 2).map Neighbor.id = [1] := by decide
  have reached (n : Nat) (v : UInt64) (walk : Walks (twoVertices.Edge 5) 1 n v) : v = 1 ∨ v = 2 := by
    induction walk with
    | nil => exact .inl rfl
    | snoc _ edge ih =>
      rcases ih with rfl | rfl
      · exact .inr (by simpa [Edge,there] using edge)
      · exact .inl (by simpa [Edge,back] using edge)
  have narrow : Narrow twoVertices 5 1 2048 3 := by
    intro d _ _ level all
    have only : level ⊆ {1,2} := fun v member => by simpa using reached d v (all v member).1
    exact Nat.le_trans (Finset.card_le_card only) (by decide)
  exact ⟨by decide,(relatedIds_spec twoVertices 2048 5 3 1 narrow).1⟩

end GraphMembraneImpl
end PomaiCache
