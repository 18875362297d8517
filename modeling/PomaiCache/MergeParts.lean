import PomaiCache.Merge

/-!
A merge that writes its result in parts. When a part is full the merge leaves its loop without
moving on the run the last element came from, so that it goes on without the rest of that run
and sees the older elements of the last key as new ones.
-/
namespace PomaiCache.Merge
open List
variable {κ α : Type} [LinearOrder κ]

section
variable (key : α → κ) (live : α → Bool)

/-- Take elements until `room` of them are written: what is written, and what is left
of the merge if the part got full. -/
def scan : Nat → Option κ → List (Nat × α) → List α × Option (List (Nat × α))
  | _,_,[] => ([],none)
  | room,last,(i,a) :: rest =>
    if last = some (key a) then scan room last rest
    else if live a then
      if room ≤ 1 then ([a],some (rest.filter fun b => b.1 != i))
      else
        let more := scan (room - 1) (some (key a)) rest
        (a :: more.1,more.2)
    else scan room (some (key a)) rest

end

variable {key : α → κ} {live : α → Bool}

variable {ws rest : List (Nat × α)} {es : List α} {last : Option κ} {room : Nat}

lemma scan_rest_length (filled : scan key live room last ws = (es,some rest)) : rest.length < ws.length := by
  induction ws generalizing room last es with
  | nil => cases filled
  | cons first ws ih =>
    grind [scan]

section
variable (key live) (size : Nat)

/-- The parts a merge writes, or `none` if it starts over for ever. -/
def parts (ws : List (Nat × α)) : Option (List (List α)) :=
  if ws.isEmpty then some []
  else
    match _filled : scan key live size none ws with
    | (es,some rest) => (parts rest).map fun ps => es :: ps
    | (es,none) => if es.isEmpty then none else some [es]
termination_by ws.length
decreasing_by exact scan_rest_length _filled

def partsFrom (es : List α) (last : Option κ) (ws : List (Nat × α)) : Option (List (List α)) :=
  match scan key live (size - es.length) last ws with
  | (more,some rest) => (parts key live size rest).map fun ps => (es ++ more) :: ps
  | (more,none) => if (es ++ more).isEmpty then none else some [es ++ more]

end

variable {size : Nat}

@[simp] lemma parts_nil : parts key live size [] = some [] := by
  rw [parts]
  rfl

lemma parts_filled (filled : scan key live size none ws = (es,some rest)) :
    parts key live size ws = (parts key live size rest).map fun ps => es :: ps := by
  have more : ws ≠ [] := by
    rintro rfl
    cases filled
  rw [parts,if_neg (by simpa using more)]
  split
  · next same =>
    rw [filled] at same
    cases same
    rfl
  · next same =>
    rw [filled] at same
    cases same

lemma parts_drained {ws : List (Nat × α)} (more : ws ≠ []) (drained : scan key live size none ws = (es,none)) :
    parts key live size ws = if es.isEmpty then none else some [es] := by
  rw [parts,if_neg (by simpa using more)]
  split
  · next same =>
    rw [drained] at same
    cases same
  · next same =>
    rw [drained] at same
    cases same
    rfl

lemma parts_eq {ws : List (Nat × α)} (more : ws ≠ []) : parts key live size ws = partsFrom key live size [] none ws := by
  grind [scan,parts_filled,partsFrom,parts_drained]

section
variable {es : List α} {last : Option κ} {i : Nat} {a : α} {ws : List (Nat × α)}

lemma partsFrom_nil : partsFrom key live size es last [] = if es.isEmpty then none else some [es] := by
  simp [partsFrom,scan]

lemma partsFrom_old (old : last = some (key a)) :
    partsFrom key live size es last ((i,a) :: ws) = partsFrom key live size es last ws := by
  rw [partsFrom,scan,if_pos old,partsFrom]

lemma partsFrom_dead (fresh : last ≠ some (key a)) (dead : live a = false) :
    partsFrom key live size es last ((i,a) :: ws) = partsFrom key live size es (some (key a)) ws := by
  rw [partsFrom,scan,if_neg fresh,if_neg (by simp [dead]),partsFrom]

lemma partsFrom_live (fresh : last ≠ some (key a)) (alive : live a) (room : es.length + 1 < size) :
    partsFrom key live size es last ((i,a) :: ws) = partsFrom key live size (es ++ [a]) (some (key a)) ws := by
  have left : size - es.length - 1 = size - (es ++ [a]).length := by simp; omega
  rw [partsFrom,scan,if_neg fresh,if_pos alive,if_neg (by omega),partsFrom,left]
  grind

lemma partsFrom_full (fresh : last ≠ some (key a)) (alive : live a) (full : es.length + 1 ≥ size) :
    partsFrom key live size es last ((i,a) :: ws) =
      (parts key live size (ws.filter fun b => b.1 != i)).map fun ps => (es ++ [a]) :: ps := by
  rw [partsFrom,scan,if_neg fresh,if_pos alive,if_pos (by omega)]

lemma partsFrom_forget (fresh : ∀ b ∈ ws.head?, last ≠ some (key b.2)) :
    partsFrom key live size es last ws = partsFrom key live size es none ws := by
  cases ws with
  | nil => rw [partsFrom_nil,partsFrom_nil]
  | cons first ws =>
    grind [partsFrom,scan]

end

lemma scan_emit (key : α → κ) (live : α → Bool) (positive : 0 < room) (last : Option κ) (ws : List (Nat × α)) :
    (scan key live room last ws).1 = (emit key live last ws).take room ∧
      ((scan key live room last ws).2.isSome ↔ room ≤ (emit key live last ws).length) := by
  induction ws generalizing room last with
  | nil => simp [scan,emit]; omega
  | cons first ws ih =>
    obtain ⟨i,a⟩ := first
    rw [scan,emit]
    by_cases old : last = some (key a)
    · rw [if_pos old,if_pos old]
      exact ih positive last
    rw [if_neg old,if_neg old]
    by_cases alive : live a
    · rw [if_pos alive,if_pos alive]
      by_cases one : room ≤ 1
      · have exact_ : room = 1 := by omega
        simp [exact_]
      · obtain ⟨less,rfl⟩ : ∃ less, room = less + 2 := ⟨room - 2,by omega⟩
        simp [*]
    · rw [if_neg alive,if_neg alive]
      exact ih positive _

lemma scan_rest (sorted : ws.Pairwise (Precedes key)) (filled : scan key live room last ws = (es,some rest)) :
    rest.Sublist ws ∧ ∀ a ∈ es, ∀ b ∈ rest, key a ≤ key b.2 := by
  induction ws generalizing room last es with
  | nil => cases filled
  | cons first ws ih =>
    obtain ⟨i,a⟩ := first
    obtain ⟨ahead,tail⟩ := pairwise_cons.mp sorted
    rw [scan] at filled
    split at filled
    · grind
    split at filled
    · split at filled
      · cases filled
        refine ⟨filter_sublist.cons _,fun b only c member => ?_⟩
        rw [mem_singleton.mp only]
        exact (ahead c (mem_of_mem_filter member)).key_le
      · obtain ⟨rfl,left⟩ := Prod.mk.inj filled
        obtain ⟨within,behind⟩ := ih tail (Prod.ext rfl left)
        refine ⟨within.cons _,fun b member c inside => ?_⟩
        rcases mem_cons.mp member with rfl | later
        · exact (ahead c (within.subset inside)).key_le
        · exact behind b later c inside
    · grind

lemma parts_pairwise (positive : 0 < size) {ws : List (Nat × α)} (sorted : ws.Pairwise (Precedes key))
    {ps : List (List α)} (written : parts key live size ws = some ps) :
    (∀ a ∈ ps.flatten, live a ∧ ∃ i, (i,a) ∈ ws) ∧ (ps.flatten.Pairwise fun a b => key a ≤ key b) ∧
      ∀ part ∈ ps, part.Pairwise fun a b => key a < key b := by
  -- a part is a piece of what the merge would write
  have piece : ∀ {ws es left}, ws.Pairwise (Precedes key) → scan key live size none ws = (es,left) →
      (∀ a ∈ es, live a ∧ ∃ i, (i,a) ∈ ws) ∧ es.Pairwise fun a b => key a < key b := by
    grind [emit,scan_emit,take_sublist,emit_mem,emit_pairwise,From.none]
  induction ws using parts.induct key live size generalizing ps with
  | case1 ws empty =>
    grind [parts_nil]
  | case2 ws more es rest filled ih =>
    rw [parts_filled filled] at written
    obtain ⟨later,here,rfl⟩ := Option.map_eq_some_iff.mp written
    obtain ⟨within,behind⟩ := scan_rest sorted filled
    obtain ⟨inside,strict⟩ := piece sorted filled
    obtain ⟨members,order,others⟩ := ih (sorted.sublist within) here
    refine ⟨?_,?_,?_⟩
    · intro a member
      rcases mem_append.mp member with first | second
      · exact inside a first
      · obtain ⟨alive,i,found⟩ := members a second
        exact ⟨alive,i,within.subset found⟩
    · refine pairwise_append.mpr ⟨strict.imp le_of_lt,order,fun a first b second => ?_⟩
      obtain ⟨_,i,found⟩ := members b second
      exact behind a first _ found
    · intro part member
      rcases mem_cons.mp member with rfl | second
      · exact strict
      · exact others part second
  | case3 ws more es drained empty =>
    rw [parts_drained (by simpa using more) drained,if_pos empty] at written
    cases written
  | case4 ws more es drained some_ =>
    rw [parts_drained (by simpa using more) drained,if_neg some_] at written
    cases written
    obtain ⟨inside,strict⟩ := piece sorted drained
    rw [flatten_singleton]
    exact ⟨inside,strict.imp le_of_lt,fun part member => by rw [mem_singleton.mp member]; exact strict⟩

lemma partsFrom_fills {us ws : List (Nat × α)} {i : Nat} {a : α}
    (alive : ∀ u ∈ us ++ [(i,a)], live u.2) (ascending : (us ++ [(i,a)]).Pairwise fun b c => key b.2 < key c.2)
    (fresh : ∀ u ∈ us ++ [(i,a)], last ≠ some (key u.2)) (full : es.length + us.length + 1 = size) :
    partsFrom key live size es last (us ++ (i,a) :: ws) =
      (parts key live size (ws.filter fun b => b.1 != i)).map fun ps => (es ++ us.map Prod.snd ++ [a]) :: ps := by
  induction us generalizing es last with
  | nil =>
    rw [length_nil] at full
    rw [nil_append,partsFrom_full (fresh _ (.head _)) (alive _ (.head _)) (by omega)]
    simp
  | cons u us ih =>
    obtain ⟨j,b⟩ := u
    rw [cons_append] at alive ascending fresh
    rw [length_cons] at full
    obtain ⟨less,ascending⟩ := pairwise_cons.mp ascending
    have new : last ≠ some (key b) := fresh (j,b) (.head _)
    have later : ∀ u ∈ us ++ [(i,a)], some (key b) ≠ some (key u.2) := fun u member same =>
      (less u member).ne (Option.some.inj same)
    have room : (es ++ [b]).length + us.length + 1 = size := by rw [length_append,length_singleton]; omega
    rw [cons_append,partsFrom_live new (alive (j,b) (.head _)) (by omega),
      ih (fun u member => alive u (.tail _ member)) ascending later room]
    simp

section
variable {ws : List (Nat × α)} (short : (emit key live none ws).length < size)
include short

lemma scan_of_short : scan key live size none ws = (emit key live none ws,none) := by
  obtain ⟨same,full⟩ := scan_emit key live (Nat.zero_lt_of_lt short) none ws
  rw [take_of_length_le short.le] at same
  refine Prod.ext same (Option.not_isSome_iff_eq_none.mp fun some_ => ?_)
  exact absurd (full.mp some_) (by omega)

lemma flatten_of_short {ps : List (List α)} (written : parts key live size ws = some ps) :
    ps.flatten = emit key live none ws := by
  by_cases more : ws = []
  · subst more
    rw [parts_nil] at written
    cases written
    rfl
  · rw [parts_drained more (scan_of_short short)] at written
    split at written
    · cases written
    · cases written
      exact flatten_singleton

lemma parts_of_short (more : ws ≠ []) : parts key live size ws = none ↔ emit key live none ws = [] := by
  rw [parts_drained more (scan_of_short short)]
  simp

end

end PomaiCache.Merge
