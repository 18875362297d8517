import Mathlib

/-!
Fields joined with a separator, in which the separator and the escape sign are escaped. The
reader of the fields takes the escapes out while it looks for separators: an escaped text is
handed over as it was before.
-/
namespace PomaiCache.Escape
open List

variable {α ρ : Type} [DecidableEq α] (esc sep : α)

def escape : List α → List α
  | [] => []
  | c :: rest => if c = esc ∨ c = sep then esc :: c :: escape rest else c :: escape rest

/-- Take the escape signs out. The flag is set behind one, and nothing may end there. -/
def unescape (flag : Bool) : List α → Option (List α)
  | [] => if flag then none else some []
  | c :: rest => if !flag ∧ c = esc then unescape true rest else (unescape false rest).map (c :: ·)

/-- Read fields: take the escape signs out, and hand the field read so far over at each
separator that is not escaped and, unless it is empty, at the end. -/
def scan (flush : ρ → List α → Option ρ) (flag : Bool) (field : List α) (record : ρ) : List α → Option ρ
  | [] => if field = [] then some record else flush record field
  | c :: rest =>
    if !flag ∧ c = esc then scan flush true field record rest
    else if !flag ∧ c = sep then (flush record field).bind fun record => scan flush false [] record rest
    else scan flush false (field ++ [c]) record rest

variable {esc sep}

lemma escape_append (left right : List α) : escape esc sep (left ++ right) = escape esc sep left ++ escape esc sep right := by
  induction left with
  | nil => rfl
  | cons c rest ih =>
    rw [cons_append,escape,escape,ih]
    split <;> rfl

variable {s : List α}

lemma escape_plain (plain : esc ∉ s ∧ sep ∉ s) : escape esc sep s = s := by
  induction s with
  | nil => rfl
  | cons c rest ih =>
    simp only [mem_cons,not_or] at plain
    rw [escape,if_neg,ih ⟨plain.1.2,plain.2.2⟩]
    grind

lemma unescape_plain (plain : esc ∉ s) : unescape esc false s = some s := by
  induction s with
  | nil => rfl
  | cons c rest ih =>
    simp only [mem_cons,not_or] at plain
    rw [unescape,if_neg,ih plain.2,Option.map_some]
    rintro ⟨-,same⟩
    exact plain.1 same.symm

lemma unescape_length {flag : Bool} {s t : List α} (read : unescape esc flag s = some t) :
    t.length ≤ s.length ∧ (flag = false → esc ∈ s → t.length < s.length) := by
  induction s generalizing flag t with
  | nil =>
    cases flag with
    | false =>
      cases read
      simp
    | true => cases read
  | cons c rest ih =>
    unfold unescape at read
    by_cases sign : !flag ∧ c = esc
    · grind
    · rw [if_neg sign] at read
      obtain ⟨tail,inner,rfl⟩ := Option.map_eq_some_iff.mp read
      grind

lemma unescape_eq_self_iff : unescape esc false s = some s ↔ esc ∉ s := by
  constructor
  · intro same member
    exact absurd ((unescape_length same).2 rfl member) (Nat.lt_irrefl _)
  · exact unescape_plain

lemma scan_escape (flush : ρ → List α → Option ρ) (field : List α) (record : ρ) (s rest : List α) :
    scan esc sep flush false field record (escape esc sep s ++ rest) = scan esc sep flush false (field ++ s) record rest := by
  induction s generalizing field with
  | nil => rw [escape,nil_append,append_nil]
  | cons c s ih =>
    by_cases special : c = esc ∨ c = sep
    · rw [escape,if_pos special,cons_append,cons_append,scan,if_pos ⟨rfl,rfl⟩,scan,if_neg (by simp),if_neg (by simp),
        ih,append_assoc]
      rfl
    · rw [escape,if_neg special,cons_append,scan,if_neg (fun both => special (.inl both.2)),
        if_neg (fun both => special (.inr both.2)),ih,append_assoc]
      rfl

lemma scan_field (differ : sep ≠ esc) (flush : ρ → List α → Option ρ) (record : ρ) (s rest : List α) :
    scan esc sep flush false [] record (escape esc sep s ++ sep :: rest) =
      (flush record s).bind fun record => scan esc sep flush false [] record rest := by
  grind [scan_escape,scan]

lemma scan_last (flush : ρ → List α → Option ρ) (record : ρ) (some_ : s ≠ []) :
    scan esc sep flush false [] record (escape esc sep s) = flush record s := by
  have read : scan esc sep flush false [] record (escape esc sep s ++ []) = _ := scan_escape flush [] record s []
  rw [append_nil,nil_append,scan,if_neg some_] at read
  exact read

end PomaiCache.Escape
