import PomaiCache.Text

/-!
The splitter of documents. A window is cut at the last separator in it, and one without a
separator is handed to the next separator, which finds that it fits.
-/
namespace PomaiCache
open Codec Text List Relation

structure ChunkView where
  text : Bytes
  start_offset : Nat
  deriving DecidableEq, Repr

structure RecursiveChunkSplitter where
  max_chunk_bytes : Nat
  overlap_bytes : Nat
  separators : List Bytes
  positive : 0 < max_chunk_bytes

namespace RecursiveChunkSplitter

def create (max_chunk_bytes overlap_bytes : Nat) (separators : List Bytes) : RecursiveChunkSplitter :=
  ⟨if max_chunk_bytes = 0 then 512 else max_chunk_bytes,overlap_bytes,separators,by split <;> omega⟩

lemma drop_shorter {n : Nat} {text : Bytes} (positive : 0 < n) (some_ : text ≠ []) : (text.drop n).length < text.length := by
  have := length_pos_iff.mpr some_
  rw [length_drop]
  omega

def trimLeading {sep : Bytes} (some_ : sep ≠ []) (text : Bytes) : Bytes :=
  if sep <+: text then trimLeading some_ (text.drop sep.length) else text
termination_by text.length
decreasing_by exact drop_shorter (length_pos_iff.mpr some_) fun none_ => some_ (prefix_nil.mp (none_ ▸ ‹_›))

/-- The place of the last separator that a search finds which goes on behind each one. -/
def lastSep {sep : Bytes} (some_ : sep ≠ []) (text : Bytes) : Option Nat :=
  match _found : cut sep text with
  | none => none
  | some (before,behind) => some ((lastSep some_ behind).elim before.length (before.length + sep.length + ·))
termination_by text.length
decreasing_by
  have := length_pos_iff.mpr some_
  rw [cut_eq _found]
  simp only [length_append]
  omega

section Separator
variable {sep : Bytes} (some_ : sep ≠ [])
include some_

lemma trimLeading_eq (text : Bytes) : ∃ k, text = (replicate k sep).flatten ++ trimLeading some_ text := by
  fun_induction trimLeading some_ text with
  | case1 text here ih =>
    obtain ⟨k,rest⟩ := ih
    obtain ⟨behind,rfl⟩ := here
    refine ⟨k + 1,?_⟩
    rw [drop_left] at rest ⊢
    rw [replicate_succ,flatten_cons,append_assoc,← rest]
  | case2 text here => exact ⟨0,rfl⟩

lemma lastSep_spec (found : lastSep some_ text = some place) : sep <+: text.drop place := by
  fun_induction lastSep some_ text generalizing place with
  | case1 => cases found
  | case2 text before behind here ih =>
    cases found
    rw [cut_eq here]
    cases later : lastSep some_ behind with
    | none => simp
    | some place =>
      have there := ih later
      rwa [Option.elim_some,Nat.add_assoc,drop_length_add_append,drop_length_add_append]

lemma lastSep_none : lastSep some_ text = none ↔ cut sep text = none := by
  rw [lastSep]
  split <;> simp_all

end Separator

variable (s : RecursiveChunkSplitter)

/-- How far a round moves on. The overlap counts only where it is shorter than what was read. -/
def advance {sep : Bytes} (some_ : sep ≠ []) (rest : Bytes) : Nat :=
  match lastSep some_ (rest.take s.max_chunk_bytes) with
  | some last_sep =>
    let advance := last_sep + sep.length
    if 0 < s.overlap_bytes ∧ s.overlap_bytes < advance then advance - s.overlap_bytes else advance
  | none => (rest.take s.max_chunk_bytes).length

lemma advance_pos (some_ : sep ≠ []) (more : rest ≠ []) : 0 < s.advance some_ rest := by
  have sized := length_pos_iff.mpr some_
  have left := length_pos_iff.mpr more
  have positive := s.positive
  unfold advance
  split
  · dsimp only
    split <;> omega
  · rw [length_take]
    omega

/-- The loop for one separator; `next` splits a window by the later ones. -/
def splitLoop {sep : Bytes} (some_ : sep ≠ []) (next : Bytes → Nat → List ChunkView) (rest : Bytes) (offset : Nat) :
    List ChunkView :=
  if rest = [] then []
  else if rest.length ≤ s.max_chunk_bytes then
    let trimmed := trimLeading some_ rest
    if trimmed = [] then [] else [⟨trimmed,offset⟩]
  else
    let window := rest.take s.max_chunk_bytes
    let out :=
      match lastSep some_ window with
      | some last_sep => [⟨rest.take last_sep,offset⟩]
      | none => next window offset
    out ++ splitLoop some_ next (rest.drop (s.advance some_ rest)) (offset + s.advance some_ rest)
termination_by rest.length
decreasing_by exact drop_shorter (s.advance_pos some_ ‹_›) ‹_›

def splitRecursive : List Bytes → Bytes → Nat → List ChunkView
  | [], doc, base_offset => if doc = [] then [] else [⟨doc,base_offset⟩]
  | sep :: later, doc, base_offset =>
    if doc = [] then []
    else if empty : sep = [] then splitRecursive later doc base_offset
    else s.splitLoop empty (splitRecursive later) doc base_offset

def seps : List Bytes := if s.separators = [] then [ascii "\n\n",ascii "\n",ascii " "] else s.separators

def chunk (document : Bytes) : List ChunkView :=
  if document = [] then [] else s.splitRecursive s.seps document 0

variable {s} in
@[simp] lemma splitRecursive_nil (seps : List Bytes) (offset : Nat) : s.splitRecursive seps [] offset = [] := by
  cases seps <;> simp [splitRecursive]

lemma chunk_eq (document : Bytes) : s.chunk document = s.splitRecursive s.seps document 0 := by
  rw [chunk]
  split
  · next none_ => rw [none_,splitRecursive_nil]
  · rfl

variable {s}

/-- What a rest that fits is made into. -/
def fitting {sep : Bytes} (some_ : sep ≠ []) (rest : Bytes) (offset : Nat) : List ChunkView :=
  if trimLeading some_ rest = [] then [] else [⟨trimLeading some_ rest,offset⟩]

lemma fitting_length {sep : Bytes} (some_ : sep ≠ []) (rest : Bytes) (offset : Nat) :
    ∀ c ∈ fitting some_ rest offset, c.text.length ≤ rest.length := by
  obtain ⟨k,parts⟩ := trimLeading_eq some_ rest
  have part := congrArg length parts
  rw [length_append] at part
  unfold fitting
  split
  · simp
  · simp only [mem_singleton,forall_eq]
    omega

/-- A text with the chunks in it in order, and concatenations of separators around them. -/
inductive Around (seps : List Bytes) : Bytes → List Bytes → Prop
  | nil {gap : List Bytes} (inside : gap ⊆ seps) : Around seps gap.flatten []
  | cons {gap : List Bytes} {text rest : Bytes} {texts : List Bytes} (inside : gap ⊆ seps) (around : Around seps rest texts) :
    Around seps (gap.flatten ++ (text ++ rest)) (text :: texts)

namespace Around
variable {seps : List Bytes} {left right : Bytes} {texts others : List Bytes}

lemma gap_append (inside : gap ⊆ seps) (around : Around seps right others) : Around seps (gap.flatten ++ right) others := by
  cases around with
  | @nil more within =>
    rw [← flatten_append]
    exact .nil (append_subset.mpr ⟨inside,within⟩)
  | @cons more text rest texts within around =>
    rw [← append_assoc,← flatten_append]
    exact .cons (append_subset.mpr ⟨inside,within⟩) around

lemma append (first : Around seps left texts) (second : Around seps right others) :
    Around seps (left ++ right) (texts ++ others) := by
  induction first with
  | nil inside => exact second.gap_append inside
  | @cons gap text rest texts inside _ ih =>
    rw [append_assoc,append_assoc]
    exact .cons inside ih

lemma single (text : Bytes) : Around seps text [text] := by
  have around : Around seps (([] : List Bytes).flatten ++ (text ++ ([] : List Bytes).flatten)) [text] := .cons (nil_subset _) (.nil (nil_subset _))
  simpa using around

end Around

lemma fitting_around {all : List Bytes} {sep : Bytes} (some_ : sep ≠ []) (member : sep ∈ all) (rest : Bytes) (offset : Nat) :
    Around all rest ((fitting some_ rest offset).map ChunkView.text) := by
  obtain ⟨k,parts⟩ := trimLeading_eq some_ rest
  have gap : replicate k sep ⊆ all := fun other held => eq_of_mem_replicate held ▸ member
  unfold fitting
  split
  · next none_ =>
    rw [none_,append_nil] at parts
    rw [parts]
    exact .nil gap
  · have around := (Around.single (trimLeading some_ rest)).gap_append gap
    rwa [← parts] at around

lemma splitLoop_around {all : List Bytes} {sep : Bytes} (some_ : sep ≠ []) (member : sep ∈ all) (plain : s.overlap_bytes = 0)
    {next : Bytes → Nat → List ChunkView} (inner : ∀ doc offset, Around all doc ((next doc offset).map ChunkView.text)) (rest : Bytes) (offset : Nat) :
    Around all rest ((s.splitLoop some_ next rest offset).map ChunkView.text) := by
  fun_induction splitLoop s some_ next rest offset with
  | case1 => exact .nil (nil_subset _)
  | case2 rest offset more short trimmed none_ => simpa [fitting,trimmed,none_] using fitting_around some_ member rest offset
  | case3 rest offset more short trimmed kept => simpa [fitting,trimmed,kept] using fitting_around some_ member rest offset
  | case4 rest offset more long window out ih =>
    cases found : lastSep some_ window with
    | some place =>
      have last : lastSep some_ (rest.take s.max_chunk_bytes) = some place := found
      have moved : s.advance some_ rest = place + sep.length := by simp [advance,last,plain]
      have there : sep <+: rest.drop place := (lastSep_spec some_ found).trans (( take_prefix _ rest).drop place)
      have around := (Around.single (rest.take place)).append (Around.gap_append (cons_subset.mpr ⟨member,nil_subset _⟩) ih)
      simp only [out,found,moved]
      rw [moved] at around
      nth_rewrite 1 [← drop_drop] at around
      rw [flatten_singleton, prefix_iff_eq_append.mp there,take_append_drop] at around
      exact around
    | none =>
      have last : lastSep some_ (rest.take s.max_chunk_bytes) = none := found
      have moved : rest.drop (s.advance some_ rest) = rest.drop s.max_chunk_bytes := by
        simp only [advance,last,length_take]
        rw [min_eq_left (by omega)]
      have around := (inner window offset).append ih
      simp only [out,found,map_append]
      nth_rewrite 1 [moved] at around
      rwa [take_append_drop] at around

lemma splitRecursive_around {all seps : List Bytes} (plain : s.overlap_bytes = 0) (within : seps ⊆ all) (doc : Bytes) (offset : Nat) :
    Around all doc ((s.splitRecursive seps doc offset).map ChunkView.text) := by
  induction seps generalizing doc offset with
  | nil =>
    rw [splitRecursive]
    split
    · next none_ => exact none_ ▸ .nil (nil_subset _)
    · exact .single _
  | cons sep later ih =>
    obtain ⟨member,within⟩ := cons_subset.mp within
    rw [splitRecursive]
    split
    · next none_ => exact none_ ▸ .nil (nil_subset _)
    · split
      · exact ih within doc offset
      · exact splitLoop_around _ member plain (ih within) doc offset

/-- Without an overlap, nothing but separators stands around the chunks. -/
theorem chunk_around (s : RecursiveChunkSplitter) (document : Bytes) (plain : s.overlap_bytes = 0) :
    Around s.seps document ((s.chunk document).map ChunkView.text) := by
  rw [chunk_eq]
  exact splitRecursive_around plain (Subset.refl _) document 0

theorem chunk_around_lines :
    Around [ascii "\n"] (ascii "a\nbc\n\nd") (((create 4 0 [ascii "\n"]).chunk (ascii "a\nbc\n\nd")).map ChunkView.text) :=
  chunk_around (create 4 0 [ascii "\n"]) _ rfl

def At (document : Bytes) (c : ChunkView) : Prop :=
  c.text ≠ [] ∧ (document.drop c.start_offset).take c.text.length = c.text

/-- The place of the last separator in a text that a search finds which goes on behind each one. -/
inductive LastAt (sep : Bytes) : Bytes → Nat → Prop
  | only {text before behind : Bytes} (found : cut sep text = some (before,behind)) (last : ¬ sep <:+: behind) :
    LastAt sep text before.length
  | later {text before behind : Bytes} {place : Nat} (found : cut sep text = some (before,behind)) (rest : LastAt sep behind place) :
    LastAt sep text (before.length + sep.length + place)

/-- The text does not begin with the separator, unless it is a beginning of a row of separators. -/
def Free (sep text : Bytes) : Prop := sep <+: text → ∃ n, text <+: (replicate n sep).flatten

section
variable (s : RecursiveChunkSplitter) (sep : Bytes) (later : List Bytes) (document : Bytes)

def window (place : Nat) : Bytes := (document.drop place).take s.max_chunk_bytes

variable {document} in
lemma window_ne_nil {place : Nat} (inside : place < document.length) : s.window document place ≠ [] := by
  have := s.positive
  rw [← length_pos_iff,window,length_take,length_drop]
  omega

/-- Where the text that begins at one place of the document is cut: behind the last separator of the window, less
the overlap, or behind a window without separator. -/
inductive Next : Nat → Nat → Prop
  | cut {a place : Nat} (long : a + s.max_chunk_bytes < document.length) (found : LastAt sep (s.window document a) place) :
    Next a (a + if 0 < s.overlap_bytes ∧ s.overlap_bytes < place + sep.length then place + sep.length - s.overlap_bytes
      else place + sep.length)
  | window {a : Nat} (long : a + s.max_chunk_bytes < document.length) (absent : ¬ sep <:+: s.window document a) :
    Next a (a + s.max_chunk_bytes)

/-- The places of the document at which a text to be split begins. -/
def Round (place : Nat) : Prop := ReflTransGen (s.Next sep document) 0 place

/-- The last separator of the window is not in front; a window without one is free of the next separator, and
a rest that fits is free of the first one. -/
def CleanAt (a : Nat) : Prop :=
  if a + s.max_chunk_bytes < document.length then
    (∀ place, LastAt sep (s.window document a) place → 0 < place) ∧
      (¬ sep <:+: s.window document a → ∀ other rest, later.dropWhile isEmpty = other :: rest → Free other (s.window document a))
  else Free sep (document.drop a)

def Clean : Prop :=
  ∀ sep later, s.seps.dropWhile isEmpty = sep :: later → ∀ a, s.Round sep document a → a < document.length →
    s.CleanAt sep later document a

end

variable {document : Bytes}

lemma at_iff (here : rest <+: document.drop offset) (short : text.length ≤ rest.length) :
    At document ⟨text,offset⟩ ↔ text ≠ [] ∧ text <+: rest := by
  have same : (document.drop offset).take text.length = text ↔ text <+: rest := by
    rw [eq_comm,← prefix_iff_eq_take]
    exact ⟨fun there => prefix_of_prefix_length_le there here short,fun there => there.trans here⟩
  rw [At,same]

lemma cut_eq_none {sep text : Bytes} : cut sep text = none ↔ ¬ sep <:+: text := by
  constructor
  · rintro none_ ⟨before,behind,rfl⟩
    induction before with
    | nil =>
      rw [nil_append,cut_here ( prefix_append ..)] at none_
      cases none_
    | cons byte before ih =>
      rw [cons_append,cons_append] at none_
      by_cases here : sep <+: byte :: (before ++ sep ++ behind)
      · rw [cut_here here] at none_
        cases none_
      · rw [cut_later here,Option.map_eq_none_iff] at none_
        exact ih none_
  · intro absent
    cases found : cut sep text with
    | none => rfl
    | some parts => exact absurd ⟨parts.1,parts.2,by rw [append_assoc,← cut_eq found]⟩ absent

section
variable {sep text : Bytes} {place a b : Nat} (some_ : sep ≠ [])
include some_

lemma lastSep_iff : lastSep some_ text = some place ↔ LastAt sep text place := by
  constructor
  · intro found
    fun_induction lastSep some_ text generalizing place with
    | case1 => cases found
    | case2 text before behind here ih =>
      cases found
      cases later : lastSep some_ behind with
      | none => exact .only here (cut_eq_none.mp ((lastSep_none some_).mp later))
      | some place => exact .later here (ih later)
  · intro last
    induction last with
    | only found last =>
      have none_ := (lastSep_none some_).mpr (cut_eq_none.mpr last)
      rw [lastSep]
      split <;> simp_all
    | later found _ ih =>
      rw [lastSep]
      split <;> simp_all

lemma trimLeading_free : (trimLeading some_ text = [] ∨ trimLeading some_ text <+: text) ↔ Free sep text := by
  have stops : ¬ sep <+: trimLeading some_ text := by
    fun_induction trimLeading some_ text with
    | case1 text here ih => exact ih
    | case2 text here => exact here
  obtain ⟨k,parts⟩ := trimLeading_eq some_ text
  generalize trimLeading some_ text = kept at parts stops
  have row (n : Nat) : (replicate n sep).flatten.length = n*sep.length := by simp
  constructor
  · intro front begins
    have sub : kept <+: sep := by
      rcases front with none_ | front
      · simp [none_]
      · refine prefix_of_prefix_length_le front begins (Nat.le_of_not_le fun long => stops ?_)
        exact prefix_of_prefix_length_le begins front long
    refine ⟨k + 1,?_⟩
    rw [parts,replicate_succ',flatten_append,flatten_singleton]
    exact ( prefix_append_right_inj _).mpr sub
  · intro free
    by_cases begins : sep <+: text
    · obtain ⟨n,within⟩ := free begins
      obtain ⟨more,rfl⟩ : ∃ more, n = k + more := by
        have sizes := within.length_le
        have some_' := length_pos_iff.mpr some_
        rw [parts,length_append,row,row] at sizes
        exact ⟨n - k,by have := Nat.le_of_mul_le_mul_right (by omega : k*sep.length ≤ n*sep.length) some_'; omega⟩
      rw [parts,replicate_add,flatten_append, prefix_append_right_inj] at within
      cases more with
      | zero => exact .inl ( prefix_nil.mp within)
      | succ more =>
        rw [replicate_succ,flatten_cons] at within
        refine .inr ((prefix_of_prefix_length_le within ( prefix_append ..) (Nat.le_of_not_le fun long => stops ?_)).trans begins)
        exact prefix_of_prefix_length_le ( prefix_append ..) within long
    · cases k with
      | zero => exact .inr (by rw [parts]; exact prefix_rfl)
      | succ k => exact absurd ⟨(replicate k sep).flatten ++ kept,by rw [parts,replicate_succ,flatten_cons,append_assoc]⟩ begins

lemma next_iff : s.Next sep document a b ↔ a + s.max_chunk_bytes < document.length ∧ b = a + s.advance some_ (document.drop a) := by
  have sized (long : a + s.max_chunk_bytes < document.length) : ((document.drop a).take s.max_chunk_bytes).length = s.max_chunk_bytes := by
    rw [length_take,length_drop]
    omega
  constructor
  · rintro (⟨long,found⟩ | ⟨long,absent⟩)
    · rw [window,← lastSep_iff some_] at found
      simp [advance,found,long]
    · rw [window,← cut_eq_none,← lastSep_none some_] at absent
      simp only [advance,absent,sized long]
      exact ⟨long,trivial⟩
  · rintro ⟨long,rfl⟩
    cases found : lastSep some_ ((document.drop a).take s.max_chunk_bytes) with
    | none =>
      simp only [advance,found,sized long]
      exact .window long (cut_eq_none.mp ((lastSep_none some_).mp found))
    | some place =>
      simp only [advance,found]
      exact .cut long ((lastSep_iff some_).mp found)

/-- What the round at a place of the document adds. -/
def round (s : RecursiveChunkSplitter) (next : Bytes → Nat → List ChunkView) (document : Bytes) (b : Nat) : List ChunkView :=
  if document.length ≤ b + s.max_chunk_bytes then fitting some_ (document.drop b) b
  else match lastSep some_ (s.window document b) with
    | some place => [⟨(document.drop b).take place,b⟩]
    | none => next (s.window document b) b

lemma mem_splitLoop (next : Bytes → Nat → List ChunkView) (c : ChunkView) : c ∈ s.splitLoop some_ next (document.drop a) a ↔
    ∃ b, ReflTransGen (s.Next sep document) a b ∧ b < document.length ∧ c ∈ s.round some_ next document b := by
  induction left : document.length - a using Nat.strong_induction_on generalizing a with
  | h n ih =>
    have heads (b : Nat) : ReflTransGen (s.Next sep document) a b ↔ a = b ∨ a + s.max_chunk_bytes < document.length ∧
        ReflTransGen (s.Next sep document) (a + s.advance some_ (document.drop a)) b := by
      simp only [ReflTransGen.cases_head_iff (a := a),next_iff some_]
      grind
    rw [splitLoop]
    by_cases gone : document.drop a = []
    · have beyond := drop_eq_nil_iff.mp gone
      simp only [gone,if_true,heads]
      grind
    have inside : a < document.length := by
      by_contra beyond
      exact gone (drop_eq_nil_iff.mpr (by omega))
    rw [if_neg gone,length_drop]
    by_cases fits : document.length - a ≤ s.max_chunk_bytes
    · rw [if_pos fits]
      have alone (b : Nat) : ReflTransGen (s.Next sep document) a b ↔ a = b := by
        rw [heads]
        grind
      simp only [alone,exists_eq_left',inside,true_and,round,if_pos (by omega : document.length ≤ a + s.max_chunk_bytes),fitting]
    · rw [if_neg fits,mem_append,drop_drop,ih _ (by have := s.advance_pos some_ gone; omega) rfl]
      have here := round.eq_1 some_ s next document a
      rw [if_neg (by omega)] at here
      rw [← window,← here]
      simp only [heads]
      grind

end

lemma splitRecursive_skip (seps : List Bytes) (doc : Bytes) (offset : Nat) :
    s.splitRecursive seps doc offset = s.splitRecursive (seps.dropWhile isEmpty) doc offset := by
  induction seps with
  | nil => rfl
  | cons sep later ih =>
    cases sep with
    | nil =>
      rw [dropWhile_cons_of_pos rfl,← ih,splitRecursive]
      split
      · next none_ => rw [none_,splitRecursive_nil]
      · rfl
    | cons byte sep => rw [dropWhile_cons_of_neg (by simp)]

lemma head_ne_nil {seps later : List Bytes} {sep : Bytes} (first : seps.dropWhile isEmpty = sep :: later) : sep ≠ [] := by
  have kept := head_dropWhile_not isEmpty (l := seps) (by simp [first])
  simpa [first] using kept

/-- A window is one chunk, without the next separator in front. -/
lemma splitRecursive_window (s : RecursiveChunkSplitter) (later : List Bytes) {b : Nat} (inside : b < document.length) :
    (later.dropWhile isEmpty = [] ∧ s.splitRecursive later (s.window document b) b = [⟨s.window document b,b⟩]) ∨
      ∃ other rest, ∃ some_ : other ≠ [], later.dropWhile isEmpty = other :: rest ∧
        s.splitRecursive later (s.window document b) b = fitting some_ (s.window document b) b := by
  have more := s.window_ne_nil inside
  have short : (s.window document b).length ≤ s.max_chunk_bytes := length_take_le ..
  rw [splitRecursive_skip]
  cases first : later.dropWhile isEmpty with
  | nil => exact .inl ⟨rfl,by rw [splitRecursive,if_neg more]⟩
  | cons other rest =>
    refine .inr ⟨other,rest,head_ne_nil first,rfl,?_⟩
    rw [splitRecursive,if_neg more,dif_neg (head_ne_nil first),splitLoop,if_neg more,if_pos short,fitting]

lemma mem_chunk {sep : Bytes} {later : List Bytes} (first : s.seps.dropWhile isEmpty = sep :: later) (c : ChunkView) :
    c ∈ s.chunk document ↔ ∃ b, s.Round sep document b ∧ b < document.length ∧
      c ∈ s.round (head_ne_nil first) (s.splitRecursive later) document b := by
  rw [chunk_eq,splitRecursive_skip,first,splitRecursive,dif_neg (head_ne_nil first)]
  have whole := @mem_splitLoop s document sep 0 (head_ne_nil first) (s.splitRecursive later) c
  rw [drop_zero] at whole
  refine Iff.trans ?_ whole
  split
  · next none_ => simp [none_,splitLoop]
  · rfl

/-- The splitter ends, and the limit is kept wherever there is a separator to split by. -/
theorem chunk_length_le (s : RecursiveChunkSplitter) (document : Bytes) (some_ : ∃ sep ∈ s.separators, sep ≠ []) :
    ∀ c ∈ s.chunk document, c.text.length ≤ s.max_chunk_bytes := by
  intro c member
  obtain ⟨sep,later,first⟩ : ∃ sep later, s.seps.dropWhile isEmpty = sep :: later := by
    obtain ⟨sep,held,filled⟩ := some_
    refine exists_cons_of_ne_nil fun none_ => ?_
    rw [seps,if_neg (ne_nil_of_mem held),dropWhile_eq_nil_iff] at none_
    exact filled (isEmpty_iff.mp (none_ sep held))
  obtain ⟨b,_,inside,added⟩ := (mem_chunk first c).mp member
  have sized : (s.window document b).length ≤ s.max_chunk_bytes := length_take_le ..
  rw [round] at added
  split at added
  · next fits =>
    refine (fitting_length _ _ _ c added).trans ?_
    rw [length_drop]
    omega
  · split at added
    · next place found =>
      have place_ := (lastSep_spec (head_ne_nil first) found).length_le
      have positive := length_pos_iff.mpr (head_ne_nil first)
      rw [length_drop] at place_
      rw [mem_singleton.mp added,length_take]
      omega
    · rcases s.splitRecursive_window later inside with ⟨_,same⟩ | ⟨other,rest,filled,_,same⟩
      · rw [same] at added
        rw [mem_singleton.mp added]
        exact sized
      · rw [same] at added
        exact (fitting_length filled _ _ c added).trans sized

theorem chunk_length_le_overlapping :
    ((create 4 9 [[],ascii "--"]).chunk (ascii "one--two--three")).all (·.text.length ≤ 4) = true :=
  all_eq_true.mpr fun c member => decide_eq_true (chunk_length_le _ _ ⟨ascii "--",by simp [create],by decide⟩ c member)

lemma fitting_at_iff {sep rest : Bytes} (some_ : sep ≠ []) {offset : Nat} (here : rest <+: document.drop offset) :
    (∀ c ∈ fitting some_ rest offset, At document c) ↔ Free sep rest := by
  have short := fitting_length some_ rest offset
  rw [← trimLeading_free some_]
  unfold fitting at short ⊢
  by_cases none_ : trimLeading some_ rest = []
  · simp [none_]
  · rw [if_neg none_,forall_mem_singleton] at short ⊢
    rw [at_iff here short]
    simp [none_]

lemma round_at_iff {sep : Bytes} (some_ : sep ≠ []) (later : List Bytes) {b : Nat} (inside : b < document.length) :
    (∀ c ∈ s.round some_ (s.splitRecursive later) document b, At document c) ↔ s.CleanAt sep later document b := by
  rw [round,CleanAt]
  by_cases long : b + s.max_chunk_bytes < document.length
  · rw [if_neg (by omega),if_pos long]
    have front : s.window document b <+: document.drop b := take_prefix ..
    cases found : lastSep some_ (s.window document b) with
    | some place =>
      have last := (lastSep_iff some_).mp found
      have unique (other : Nat) : LastAt sep (s.window document b) other ↔ other = place := by
        rw [← lastSep_iff some_,found,Option.some.injEq,eq_comm]
      have held : sep <:+: s.window document b := (lastSep_spec some_ found).isInfix.trans (drop_suffix ..).isInfix
      have there : (document.drop b).take place <+: document.drop b := take_prefix ..
      rw [forall_mem_singleton,at_iff prefix_rfl there.length_le]
      simp only [unique,held,forall_eq,not_true_eq_false,false_implies,and_true]
      simp [there,inside,Nat.pos_iff_ne_zero]
    | none =>
      have absent := cut_eq_none.mp ((lastSep_none some_).mp found)
      have nowhere (place : Nat) : ¬ LastAt sep (s.window document b) place := by
        rw [← lastSep_iff some_,found]
        simp
      simp only [nowhere,false_implies,implies_true,true_and,absent,not_false_eq_true,true_implies]
      rcases s.splitRecursive_window later inside with ⟨none_,same⟩ | ⟨other,rest,filled,first,same⟩
      · have whole : At document ⟨s.window document b,b⟩ := (at_iff front le_rfl).mpr ⟨s.window_ne_nil inside, prefix_rfl⟩
        simp [same,none_,whole]
      · rw [same,fitting_at_iff filled front]
        simp [first]
  · rw [if_pos (by omega),if_neg long]
    exact fitting_at_iff some_ prefix_rfl

/-- The offsets are true exactly if no round comes on a separator in front of its text. -/
theorem chunk_at_iff (s : RecursiveChunkSplitter) (document : Bytes) :
    (∀ c ∈ s.chunk document, At document c) ↔ s.Clean document := by
  unfold Clean
  cases first : s.seps.dropWhile isEmpty with
  | nil =>
    rw [chunk_eq,splitRecursive_skip,first,splitRecursive]
    have whole (more : document ≠ []) : At document ⟨document,0⟩ := ⟨more,by simp⟩
    split
    · simp
    · next more => simp [whole more]
  | cons sep later =>
    simp only [mem_chunk first,List.cons.injEq,and_imp]
    constructor
    · rintro true_ _ _ rfl rfl b round inside
      exact (round_at_iff (head_ne_nil first) later inside).mp fun c member => true_ c ⟨b,round,inside,member⟩
    · rintro clean c ⟨b,round,inside,member⟩
      exact (round_at_iff (head_ne_nil first) later inside).mpr (clean _ _ rfl rfl b round inside) c member

theorem chunk_leading_separator :
    let s := create 8 0 [ascii "\n"]
    s.chunk (ascii "\nab") = [⟨ascii "ab",0⟩] ∧ ¬ At (ascii "\nab") ⟨ascii "ab",0⟩ := by
  refine ⟨?_,fun there => absurd there.2 (by decide)⟩
  have trimmed : trimLeading (cons_ne_nil 10 []) [10,97,98] = [97,98] := by
    rw [trimLeading,if_pos (by decide),trimLeading,if_neg (by decide)]
    rfl
  have text : ascii "\n" = [10] ∧ ascii "\nab" = [10,97,98] ∧ ascii "ab" = [97,98] := by decide
  simp only [text,create,chunk_eq,seps]
  simp [splitRecursive,splitLoop,trimmed]

/-- A separator of the list begins or ends at a place of a text. -/
def AtSeparator (seps : List Bytes) (text : Bytes) (place : Nat) : Prop :=
  ∃ sep ∈ seps, sep ≠ [] ∧ (sep <+: text.drop place ∨ ∃ start, start + sep.length = place ∧ sep <+: text.drop start)

/-- Where the window at `a` has no separator of its own but a later one behind its first byte, `b`
is at a later separator. -/
def LaterAt (s : RecursiveChunkSplitter) (sep : Bytes) (later : List Bytes) (document : Bytes) (a b : Nat) : Prop :=
  ¬ sep <:+: s.window document a → (∃ other ∈ later, other ≠ [] ∧ ∃ start > 0, other <+: (s.window document a).drop start) →
    AtSeparator later document b

lemma round_offset {sep : Bytes} (some_ : sep ≠ []) (later : List Bytes) {b : Nat} (inside : b < document.length) :
    (∀ c ∈ s.round some_ (s.splitRecursive later) document b, c.start_offset = b) ∧
      (s.round some_ (s.splitRecursive later) document b = [] → ∃ other ∈ sep :: later, ∃ n,
        s.window document b = (replicate n other).flatten) := by
  have gone {sep rest : Bytes} (some_ : sep ≠ []) {offset : Nat} (none_ : fitting some_ rest offset = []) :
      ∃ n, rest = (replicate n sep).flatten := by
    obtain ⟨k,parts⟩ := trimLeading_eq some_ rest
    unfold fitting at none_
    split at none_
    · next trimmed => exact ⟨k,by rwa [trimmed,append_nil] at parts⟩
    · cases none_
  have there {sep rest : Bytes} (some_ : sep ≠ []) (offset : Nat) : ∀ c ∈ fitting some_ rest offset, c.start_offset = offset := by
    unfold fitting
    split <;> simp
  rw [round]
  split
  · next fits =>
    refine ⟨there some_ b,fun none_ => ⟨sep,.head _,?_⟩⟩
    rw [window,take_of_length_le (by rw [length_drop]; omega)]
    exact gone some_ none_
  · split
    · simp
    · rcases s.splitRecursive_window later inside with ⟨_,same⟩ | ⟨other,rest,filled,first,same⟩
      · simp [same]
      · rw [same]
        have member : other ∈ later := (dropWhile_sublist isEmpty).subset (first ▸ .head _)
        exact ⟨there filled b,fun none_ => ⟨other,.tail _ member,gone filled none_⟩⟩

/-- The chunks begin where the rounds do, except that a round over separators alone has no chunk. A text
is cut at a later separator, where its window has only such ones, exactly if one stands at the end of the window. -/
theorem cuts_at_later_iff (s : RecursiveChunkSplitter) (document : Bytes) (sep : Bytes) (later : List Bytes)
    (first : s.seps.dropWhile isEmpty = sep :: later) :
    (∀ c ∈ s.chunk document, s.Round sep document c.start_offset) ∧
      (∀ b < document.length, s.Round sep document b → (∃ c ∈ s.chunk document, c.start_offset = b) ∨
        ∃ other ∈ sep :: later, ∃ n, s.window document b = (replicate n other).flatten) ∧
      ((∀ a b, s.Round sep document a → s.Next sep document a b → s.LaterAt sep later document a b) ↔
        ∀ a, s.Round sep document a → a + s.max_chunk_bytes < document.length →
          s.LaterAt sep later document a (a + s.max_chunk_bytes)) := by
  have some_ := head_ne_nil first
  refine ⟨?_,?_,?_,?_⟩
  · intro c member
    obtain ⟨b,here,inside,added⟩ := (mem_chunk first c).mp member
    rwa [(round_offset some_ later inside).1 c added]
  · intro b inside here
    obtain ⟨offset,blank⟩ := @round_offset s document sep some_ later b inside
    cases added : s.round some_ (s.splitRecursive later) document b with
    | nil => exact .inr (blank added)
    | cons c rest =>
      have member : c ∈ s.round some_ (s.splitRecursive later) document b := added ▸ .head _
      exact .inl ⟨c,(mem_chunk first c).mpr ⟨b,here,inside,member⟩,offset c member⟩
  · intro cuts a here long absent
    exact cuts a _ here (.window long absent) absent
  · intro ends a b here next absent
    cases next with
    | cut long found =>
      have held := (lastSep_spec some_ ((lastSep_iff some_).mpr found)).isInfix.trans (drop_suffix ..).isInfix
      exact absurd held absent
    | window long _ => exact ends a here long absent

def lines : RecursiveChunkSplitter := create 2 0 [ascii "\n",ascii " "]

theorem cuts_at_later_short : lines.seps.dropWhile isEmpty = [ascii "\n",ascii " "] ∧ ∀ a b, lines.Round (ascii "\n") (ascii "a b") a →
    lines.Next (ascii "\n") (ascii "a b") a b → lines.LaterAt (ascii "\n") [ascii " "] (ascii "a b") a b := by
  refine ⟨by decide,(cuts_at_later_iff lines (ascii "a b") (ascii "\n") [ascii " "] (by decide)).2.2.mpr ?_⟩
  intro a _ long _ _
  have zero : a = 0 := by
    have size : (ascii "a b").length = 3 ∧ lines.max_chunk_bytes = 2 := by decide
    omega
  rw [zero]
  exact ⟨ascii " ",.head _,by decide,.inr ⟨1,by decide,by decide⟩⟩

theorem cuts_in_word :
    let s := create 4 0 [ascii "\n",ascii " "]
    let document := ascii "aa bbb"
    ⟨ascii "bb",4⟩ ∈ s.chunk document ∧ s.Next (ascii "\n") document 0 4 ∧ ¬ s.LaterAt (ascii "\n") [ascii " "] document 0 4 := by
  intro s document
  have next : s.Next (ascii "\n") document 0 4 := .window (by decide) (by decide)
  refine ⟨?_,next,fun later => ?_⟩
  · have first : s.seps.dropWhile isEmpty = ascii "\n" :: [ascii " "] := by decide
    refine (mem_chunk first _).mpr ⟨4,.single next,by decide,?_⟩
    have trimmed : trimLeading (head_ne_nil first) (document.drop 4) = ascii "bb" := by
      rw [trimLeading,if_neg (by decide)]
      decide
    rw [round,if_pos (by decide),fitting,trimmed,if_neg (by decide)]
    exact .head _
  · obtain ⟨sep,member,_,begins | ⟨start,ends,there⟩⟩ := later (by decide) ⟨ascii " ",.head _,by decide,2,by decide,by decide⟩
    · rw [mem_singleton.mp member] at begins
      revert begins
      decide
    · rw [mem_singleton.mp member] at ends there
      have one : (ascii " ").length = 1 := by decide
      have three : start = 3 := by omega
      rw [three] at there
      revert there
      decide

end RecursiveChunkSplitter
end PomaiCache
