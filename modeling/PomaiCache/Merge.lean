import Mathlib

/-!
Merging sorted runs. Every element carries the index of its run; the merge is
the list of all elements in the order of their keys, and of their runs where keys
are equal, so that the first element of a key is the one of the earliest run
that has it.
-/
namespace PomaiCache.Merge
open List
variable {κ α : Type} [LinearOrder κ] (key : α → κ)

def Before (a b : Nat × α) : Prop := key a.2 < key b.2 ∨ key a.2 = key b.2 ∧ a.1 ≤ b.1

def Precedes (a b : Nat × α) : Prop := key a.2 < key b.2 ∨ key a.2 = key b.2 ∧ a.1 < b.1

instance : DecidableRel (Before key) := fun _ _ => inferInstanceAs (Decidable (_ ∨ _))

instance : IsTrans (Nat × α) (Before key) where
  trans a b c first second := by
    rcases first with less | ⟨same,run⟩
    · rcases second with less' | ⟨same',_⟩
      · exact .inl (less.trans less')
      · exact .inl (by rw [← same']; exact less)
    · rcases second with less' | ⟨same',run'⟩
      · exact .inl (by rw [same]; exact less')
      · exact .inr ⟨same.trans same',run.trans run'⟩

instance : Std.Total (Before key) where
  total a b := by
    rcases lt_trichotomy (key a.2) (key b.2) with less | same | more
    · exact .inl (.inl less)
    · rcases Nat.le_total a.1 b.1 with run | run
      · exact .inl (.inr ⟨same,run⟩)
      · exact .inr (.inr ⟨same.symm,run⟩)
    · exact .inr (.inl more)

variable {key}

lemma Precedes.key_le {a b : Nat × α} (before : Precedes key a b) : key a.2 ≤ key b.2 := by
  rcases before with less | ⟨same,_⟩
  · exact less.le
  · exact same.le

lemma Precedes.asymm {a b : Nat × α} (first : Precedes key a b) (second : Precedes key b a) : False := by
  rcases first with less | ⟨same,run⟩
  · exact absurd second.key_le (not_le.mpr less)
  · rcases second with less' | ⟨_,run'⟩
    · rw [same] at less'
      exact lt_irrefl _ less'
    · omega

variable (key)

variable (runs : List (List α))

def tagged : List (Nat × α) := runs.zipIdx.flatMap fun run => run.1.map fun a => (run.2,a)

def stream : List (Nat × α) := (tagged runs).insertionSort (Before key)

lemma mem_tagged (i : Nat) (a : α) : (i,a) ∈ tagged runs ↔ ∃ run, runs[i]? = some run ∧ a ∈ run := by
  simp [tagged,mem_flatMap,mem_map,Prod.mk.injEq,Prod.exists,mem_zipIdx_iff_getElem?]

lemma mem_stream (i : Nat) (a : α) : (i,a) ∈ stream key runs ↔ ∃ run, runs[i]? = some run ∧ a ∈ run := by
  rw [stream,(perm_insertionSort _ _).mem_iff,mem_tagged]

def Ascending : Prop := ∀ run ∈ runs, run.Pairwise fun a b => key a < key b

variable {key}

variable {rest : List (Nat × α)} {last : Option κ} {runs : List (List α)} {live : α → Bool}

lemma stream_pairwise (ascending : Ascending key runs) : (stream key runs).Pairwise (Precedes key) := by
  have sorted : (stream key runs).Pairwise (Before key) := pairwise_insertionSort _ _
  have apart : (stream key runs).Pairwise fun a b => a.1 = b.1 → key a.2 ≠ key b.2 := by
    refine ((perm_insertionSort _ _).pairwise_iff fun differ same => (differ same.symm).symm).mpr ?_
    rw [tagged,pairwise_flatMap]
    constructor
    · rintro ⟨run,i⟩ member
      rw [pairwise_map]
      exact (ascending run (fst_mem_of_mem_zipIdx member)).imp fun less _ => less.ne
    · refine (pairwise_map.mp (nodup_zipIdx_map_snd runs)).imp ?_
      grind
  refine (sorted.and apart).imp ?_
  rintro a b ⟨less | ⟨same,run⟩,differ⟩
  · exact .inl less
  · exact .inr ⟨same,lt_of_le_of_ne run fun equal => differ equal same⟩

lemma stream_filter (ascending : Ascending key runs) {i : Nat} {run : List α}
    (at_ : runs[i]? = some run) : (stream key runs).filter (fun a => a.1 == i) = run.map fun a => (i,a) := by
  have irrefl : Std.Irrefl (Precedes (α := α) key) := ⟨fun a self => self.asymm self⟩
  have antisymm : Std.Antisymm (Precedes (α := α) key) := ⟨fun a b first second => (first.asymm second).elim⟩
  refine List.Pairwise.eq_of_mem_iff ((stream_pairwise ascending).filter _) ?_ ?_
  · rw [pairwise_map]
    exact (ascending run (mem_of_getElem? at_)).imp fun less => .inl less
  · rintro ⟨j,a⟩
    rw [mem_filter,mem_stream,mem_map,beq_iff_eq]
    grind

lemma stream_find (ascending : Ascending key runs) (k : κ) : ((stream key runs).find? fun a => key a.2 = k).map Prod.snd =
      runs.findSome? fun run => run.find? fun a => key a = k := by
  cases found : (stream key runs).find? fun a => key a.2 = k with
  | none =>
    refine (List.findSome?_eq_none_iff.mpr fun run member => ?_).symm
    obtain ⟨i,at_⟩ := mem_iff_getElem?.mp member
    rw [List.find?_eq_none] at found ⊢
    exact fun a inside => found (i,a) ((mem_stream key runs i a).mpr ⟨run,at_,inside⟩)
  | some first =>
    obtain ⟨i,a⟩ := first
    obtain ⟨run,at_,inside⟩ := (mem_stream key runs i a).mp (mem_of_find?_eq_some found)
    have same : key a = k := by simpa using List.find?_some found
    obtain ⟨before,after,split_,none_⟩ := (List.find?_eq_some_iff_append.mp found).2
    -- an element of the key in an earlier run would come first
    have earlier : ∀ j < i, ∀ other, runs[j]? = some other → ∀ b ∈ other, key b ≠ k := by
      intro j less other there b member equal
      have listed := (mem_stream key runs j b).mpr ⟨other,there,member⟩
      have order := stream_pairwise ascending
      rw [split_] at listed order
      rcases mem_append.mp listed with early | late
      · have := none_ _ early
        simp [equal] at this
      · rcases mem_cons.mp late with itself | later
        · cases itself
          omega
        · have precedes := (pairwise_cons.mp (pairwise_append.mp order).2.1).1 _ later
          rcases precedes with less' | ⟨_,less'⟩
          · simp [same,equal] at less'
          · simp only at less'
            omega
    have here : (run.find? fun a => key a = k) = some a := by
      cases result : run.find? fun a => key a = k with
      | none => exact absurd (List.find?_eq_none.mp result a inside) (by simpa using same)
      | some b =>
        have distinct : (run.map key).Nodup :=
          pairwise_map.mpr ((ascending run (mem_of_getElem? at_)).imp fun less => less.ne)
        grind [inj_on_of_nodup_map]
    obtain ⟨bound,rfl⟩ := List.getElem?_eq_some_iff.mp at_
    refine (List.findSome?_eq_some_iff.mpr ⟨runs.take i,runs[i],runs.drop (i + 1),?_,here,?_⟩).symm
    · rw [← drop_eq_getElem_cons bound,take_append_drop]
    · intro other member
      obtain ⟨j,less,rfl⟩ := mem_take_iff_getElem.mp member
      grind

/-! ### The newest element of each key -/

section
variable (key) (live : α → Bool)

/-- The merge without superseded elements and without those that are not live; `last`
is the key that was taken last. -/
def emit (last : Option κ) : List (Nat × α) → List α
  | [] => []
  | (_,a) :: rest =>
    if last = some (key a) then emit last rest
    else if live a then a :: emit (some (key a)) rest
    else emit (some (key a)) rest

end

def From (key : α → κ) (last : Option κ) (rest : List (Nat × α)) : Prop := ∀ k, last = some k → ∀ a ∈ rest, k ≤ key a.2

lemma From.none (rest : List (Nat × α)) : From key none rest := fun _ same => by cases same

lemma From.cons {first : Nat × α} (sorted : (first :: rest).Pairwise (Precedes key)) : From key (some (key first.2)) rest := by
  intro k same a member
  cases same
  exact ((pairwise_cons.mp sorted).1 a member).key_le

lemma From.tail {first : Nat × α} (from_ : From key last (first :: rest)) :
    From key last rest := fun k same a member => from_ k same a (.tail _ member)

lemma emit_sublist (key : α → κ) (live : α → Bool) (last : Option κ) (ws : List (Nat × α)) :
    (emit key live last ws).Sublist (ws.map Prod.snd) := by
  induction ws generalizing last with
  | nil => exact .slnil
  | cons first ws ih =>
    obtain ⟨i,a⟩ := first
    rw [emit,map_cons]
    split
    · exact (ih _).cons _
    · split
      · exact (ih _).cons_cons _
      · exact (ih _).cons _

lemma emit_eq_filter (key : α → κ) (live : α → Bool) (last : Option κ) (ws : List (Nat × α)) :
    emit key live last ws = (emit key (fun _ => true) last ws).filter live := by
  induction ws generalizing last with
  | nil => rfl
  | cons first ws ih =>
    obtain ⟨i,a⟩ := first
    simp only [emit,if_true]
    grind

lemma emit_map {β : Type} (f : β → α) (last : Option κ) (ws : List (Nat × β)) :
    emit key (fun _ => true) last (ws.map fun w => (w.1,f w.2)) = (emit (key ∘ f) (fun _ => true) last ws).map f := by
  induction ws generalizing last with
  | nil => rfl
  | cons first ws ih =>
    obtain ⟨i,b⟩ := first
    simp only [map_cons,emit,if_true,Function.comp_apply]
    grind

lemma emit_filter (sorted : rest.Pairwise (Precedes key)) (from_ : From key last rest) (k : κ) :
    (emit key live last rest).filter (fun a => key a = k) = if last = some k then []
      else (((rest.find? fun a => key a.2 = k).map Prod.snd).filter live).toList := by
  induction rest generalizing last with
  | nil => simp [emit]
  | cons first rest ih =>
    obtain ⟨i,a⟩ := first
    have tail := (pairwise_cons.mp sorted).2
    have next := ih tail (From.cons sorted)
    rw [emit]
    by_cases old : last = some (key a)
    · grind
    · rw [if_neg old]
      by_cases here : key a = k
      · -- the key is new, so this element decides
        grind
      · have passed : last = some k → (rest.find? fun a => key a.2 = k) = none := by
          intro same
          rw [List.find?_eq_none]
          intro b member equal
          have above := from_ k same (i,a) (.head _)
          have later := ((pairwise_cons.mp sorted).1 b member).key_le
          grind
        grind

lemma emit_mem {a : α} (member : a ∈ emit key live last rest) : live a ∧ ∃ i, (i,a) ∈ rest := by
  induction rest generalizing last with
  | nil => cases member
  | cons first rest ih =>
    grind [emit]

lemma emit_pairwise (sorted : rest.Pairwise (Precedes key)) (from_ : From key last rest) :
    ((emit key live last rest).Pairwise fun a b => key a < key b) ∧
      ∀ k, last = some k → ∀ a ∈ emit key live last rest, k < key a := by
  induction rest generalizing last with
  | nil => exact ⟨.nil,fun _ _ _ member => by cases member⟩
  | cons first rest ih =>
    obtain ⟨i,a⟩ := first
    have tail := (pairwise_cons.mp sorted).2
    rw [emit]
    by_cases old : last = some (key a)
    · rw [if_pos old]
      exact ih tail from_.tail
    rw [if_neg old]
    obtain ⟨pairwise,above⟩ := ih tail (From.cons sorted)
    have later : ∀ k, last = some k → k < key a := fun k same =>
      lt_of_le_of_ne (from_ k same (i,a) (.head _)) fun equal => old (by rw [same,equal])
    by_cases alive : live a
    · rw [if_pos alive]
      refine ⟨pairwise_cons.mpr ⟨above _ rfl,pairwise⟩,fun k same b member => ?_⟩
      grind
    · grind

end PomaiCache.Merge
