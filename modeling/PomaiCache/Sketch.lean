import PomaiCache.Basic
import PomaiCache.Dict

/-!
The sketch engine counts keys in a map of bounded size. An addition makes room before it looks
for its key, so that at the limit also the addition to a key that is there evicts one.
-/
namespace PomaiCache
open Codec

structure SketchEngine where
  max_entries : Nat
  counts : Dict Bytes UInt64

namespace SketchEngine

def evictIfNeeded (walk : Dict.Walk Bytes UInt64) (e : SketchEngine) : SketchEngine :=
  if e.max_entries = 0 then e
  else if e.counts.size < e.max_entries then e
  else
    match (walk.order e.counts).head? with
    | none => e
    | some first => {e with counts := e.counts.erase first.1}

def add (walk : Dict.Walk Bytes UInt64) (e : SketchEngine) (key : Bytes) (increment : UInt64) : SketchEngine × Status :=
  if key.isEmpty then (e,.invalidArgument "sketch key empty")
  else
    let e := e.evictIfNeeded walk
    ({e with counts := e.counts.insert key ((e.counts.lookup key).getD 0 + increment)},.Ok)

def estimate (e : SketchEngine) (key : Bytes) : UInt64 := (e.counts.lookup key).getD 0

structure AddCall where
  walk : Dict.Walk Bytes UInt64
  key : Bytes
  increment : UInt64

/-- A call on an engine, and on the increments of a key since it was last inserted. -/
def track (key : Bytes) (st : SketchEngine × List UInt64) (c : AddCall) : SketchEngine × List UInt64 :=
  let since := if c.key ≠ [] ∧ (st.1.evictIfNeeded c.walk).counts.lookup key = none then [] else st.2
  ((st.1.add c.walk c.key c.increment).1,if c.key ≠ [] ∧ c.key = key then since ++ [c.increment] else since)

def run (max_entries : Nat) (key : Bytes) (calls : List AddCall) : SketchEngine × List UInt64 :=
  calls.foldl (track key) (⟨max_entries,∅⟩,[])

variable {e : SketchEngine} {key : Bytes} {walk : Dict.Walk Bytes UInt64}

lemma lookup_evictIfNeeded (walk : Dict.Walk Bytes UInt64) (e : SketchEngine) (key : Bytes) :
    (e.evictIfNeeded walk).counts.lookup key = e.counts.lookup key ∨ (e.evictIfNeeded walk).counts.lookup key = none := by
  unfold evictIfNeeded
  split
  · exact .inl rfl
  · split
    · exact .inl rfl
    · split
      · exact .inl rfl
      · next first _ =>
        by_cases same : key = first.1
        · exact .inr (by rw [same,AList.lookup_erase])
        · exact .inl (AList.lookup_erase_ne same)

lemma estimate_track {st : SketchEngine × List UInt64} (sum : st.1.estimate key = st.2.foldl (· + ·) 0) (c : AddCall) :
    (track key st c).1.estimate key = (track key st c).2.foldl (· + ·) 0 := by
  by_cases empty : c.key = []
  · simpa [track,add,empty] using sum
  have kept : (st.1.evictIfNeeded c.walk).estimate key =
      (if (st.1.evictIfNeeded c.walk).counts.lookup key = none then [] else st.2).foldl (· + ·) 0 := by
    rcases lookup_evictIfNeeded c.walk st.1 key with same | gone
    · by_cases absent : (st.1.evictIfNeeded c.walk).counts.lookup key = none
      · simp [estimate,absent]
      · rw [if_neg absent,← sum,estimate,estimate,same]
    · simp [estimate,gone]
  by_cases here : c.key = key
  · subst here
    have count : (track c.key st c).1.estimate c.key = (st.1.evictIfNeeded c.walk).estimate c.key + c.increment := by
      simp [track,add,estimate,empty]
    have log : (track c.key st c).2 =
        (if (st.1.evictIfNeeded c.walk).counts.lookup c.key = none then [] else st.2) ++ [c.increment] := by
      simp [track,empty]
    rw [count,log,List.foldl_append,kept]
    rfl
  · have count : (track key st c).1.estimate key = (st.1.evictIfNeeded c.walk).estimate key := by
      simp [track,add,estimate,empty,AList.lookup_insert_ne (Ne.symm here)]
    rw [count,kept]
    simp [track,empty,here]

/-- Whatever is added, a key counts the increments since it was last inserted. An addition
leaves the other keys alone, in whatever order the map stands, exactly if there
is room or no other key. -/
theorem add_frame_iff (max_entries : Nat) (key : Bytes) (calls : List AddCall) (increment : UInt64) :
    let e := (run max_entries key calls).1
    e.estimate key = (run max_entries key calls).2.foldl (· + ·) 0 ∧
      ((∀ walk other, other ≠ key → (e.add walk key increment).1.counts.lookup other = e.counts.lookup other) ↔
        key = [] ∨ e.max_entries = 0 ∨ e.counts.size < e.max_entries ∨ ∀ other, other ≠ key → e.counts.lookup other = none) := by
  have counted (st : SketchEngine × List UInt64) (sum : st.1.estimate key = st.2.foldl (· + ·) 0) :
      (calls.foldl (track key) st).1.estimate key = (calls.foldl (track key) st).2.foldl (· + ·) 0 := by
    induction calls generalizing st with
    | nil => exact sum
    | cons c rest ih => exact ih _ (estimate_track sum c)
  refine ⟨counted _ rfl,?_⟩
  generalize (run max_entries key calls).1 = e
  by_cases empty : key = []
  · simp [add,empty]
  have added (walk : Dict.Walk Bytes UInt64) {other : Bytes} (ne : other ≠ key) :
      (e.add walk key increment).1.counts.lookup other = (e.evictIfNeeded walk).counts.lookup other := by
    simp [add,empty,AList.lookup_insert_ne ne]
  constructor
  · intro frame
    by_contra full
    simp only [empty,false_or,not_or,not_forall] at full
    obtain ⟨limit,size,other,ne,held⟩ := full
    obtain ⟨value,held⟩ := Option.ne_none_iff_exists'.mp held
    have before := frame (.front fun _ => other) other ne
    obtain ⟨rest,order⟩ := Dict.Walk.front_order (fun _ => other) held
    rw [added _ ne,held] at before
    simp [evictIfNeeded,limit,size,order] at before
  · rintro (none_ | limit | size | only) walk other ne
    · exact absurd none_ empty
    · simp [added walk ne,evictIfNeeded,limit]
    · simp [added walk ne,evictIfNeeded,size]
    · rw [added walk ne,only other ne]
      rcases lookup_evictIfNeeded walk e other with same | gone
      · rw [same,only other ne]
      · exact gone

theorem add_evicts_other :
    let e := (run 2 [1] [⟨.plain,[1],5⟩,⟨.plain,[2],7⟩]).1
    (e.counts.lookup [1]).isSome ∧ e.estimate [2] = 7 ∧ (e.add .plain [1] 1).2 = .Ok ∧ (e.add .plain [1] 1).1.estimate [2] = 0 := by
  decide

end SketchEngine
end PomaiCache
