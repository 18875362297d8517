import Mathlib
import PomaiCache.Basic
import PomaiCache.Dict
import PomaiCache.Text

/-!
The keyword index. A text is cut into words, each word has a list of the ids whose texts hold
it, and a search adds up a score for every id in the lists of the query's words.
-/
namespace PomaiCache
open Codec Text List

/-- The arithmetic of the scores: doubles `D` while they are added up, floats `F` in a hit. -/
structure Bm25Ops (D F : Type) where
  zero : D
  one : D
  half : D
  k1 : D
  b : D
  ofCount : UInt64 → D
  add : D → D → D
  sub : D → D → D
  mul : D → D → D
  div : D → D → D
  log : D → D
  toFloat : D → F

structure LexicalHit (F : Type) where
  id : VectorId
  score : F
  deriving DecidableEq

/-- `std::partial_sort` of the hits by falling score, where hits of one score and all behind
the first `topk` may come in any order. Scores may be NaN, so that no order is assumed. -/
structure PartialSort (F : Type) where
  run : Nat → List (LexicalHit F) → List (LexicalHit F)
  perm : ∀ topk hits, (run topk hits).Perm hits

/-- All hits sorted by a comparison of their scores. -/
def PartialSort.full {F : Type} (better : F → F → Bool) : PartialSort F where
  run _ hits := hits.insertionSort fun x y => better y.score x.score = false
  perm _ hits := perm_insertionSort _ hits

structure LexicalIndex (D : Type) where
  inverted_index : Dict Bytes (List (VectorId × UInt32))
  doc_lengths : Dict VectorId UInt32
  total_docs : UInt64
  avg_doc_length : D

namespace LexicalIndex

def isAlnum (c : UInt8) : Bool :=
  (48 ≤ c && c ≤ 57) || (65 ≤ c && c ≤ 90) || (97 ≤ c && c ≤ 122)

def toLower (c : UInt8) : UInt8 := if 65 ≤ c ∧ c ≤ 90 then c + 32 else c

/-- The loop of `Tokenize` with the word it is in. -/
def tokenizeFrom (current : Bytes) : Bytes → List Bytes
  | [] => if current.isEmpty then [] else [current]
  | c :: rest =>
    if isAlnum c then tokenizeFrom (current ++ [toLower c]) rest
    else if current.isEmpty then tokenizeFrom [] rest
    else current :: tokenizeFrom [] rest

def tokenize (text : Bytes) : List Bytes := tokenizeFrom [] text

def countTokens (tokens : List Bytes) : Dict Bytes UInt32 :=
  tokens.foldl (fun tf t => tf.alter t fun n => some (n.getD 0 + 1)) ∅

section
variable {D F : Type} (ops : Bm25Ops D F) (idx : LexicalIndex D)

def create : LexicalIndex D := ⟨∅,∅,0,ops.zero⟩

def postings (word : Bytes) : List (VectorId × UInt32) := (idx.inverted_index.lookup word).getD []

def pushPosting (id : VectorId) (inverted : Dict Bytes (List (VectorId × UInt32))) (e : Σ _ : Bytes, UInt32) :
    Dict Bytes (List (VectorId × UInt32)) :=
  inverted.alter e.1 fun held => some (held.getD [] ++ [(id,e.2)])

def add (id : VectorId) (text : Bytes) : LexicalIndex D :=
  let tokens := tokenize text
  if tokens.isEmpty then idx
  else
    -- an id that has a length is taken out of the statistics, and only of them
    let (total,avg) := match idx.doc_lengths.lookup id with
      | some length =>
        (idx.total_docs - 1,
          ops.div (ops.sub (ops.mul idx.avg_doc_length (ops.ofCount idx.total_docs)) (ops.ofCount length.toUInt64))
            (ops.ofCount (idx.total_docs - 1)))
      | none => (idx.total_docs,idx.avg_doc_length)
    let total := total + 1
    { inverted_index := (countTokens tokens).entries.foldl (pushPosting id) idx.inverted_index
      doc_lengths := idx.doc_lengths.insert id (UInt32.ofNat tokens.length)
      total_docs := total
      avg_doc_length := ops.div (ops.add (ops.mul avg (ops.ofCount (total - 1))) (ops.ofCount (UInt64.ofNat tokens.length)))
        (ops.ofCount total) }

def remove (id : VectorId) : LexicalIndex D :=
  match idx.doc_lengths.lookup id with
  | some length =>
    let avg := ops.sub (ops.mul idx.avg_doc_length (ops.ofCount idx.total_docs)) (ops.ofCount length.toUInt64)
    let total := idx.total_docs - 1
    { idx with
      doc_lengths := idx.doc_lengths.erase id
      total_docs := total
      avg_doc_length := if total > 0 then ops.div avg (ops.ofCount total) else ops.zero }
  | none => idx

def touch (lengths : Dict VectorId UInt32) (id : VectorId) : Dict VectorId UInt32 :=
  if (lengths.lookup id).isSome then lengths else lengths.insert id 0

def idf (matched : Nat) : D :=
  let n := UInt64.ofNat matched
  ops.log (ops.add (ops.div (ops.add (ops.ofCount (idx.total_docs - n)) ops.half) (ops.add (ops.ofCount n) ops.half)) ops.one)

def scorePosting (idf : D) (state : Dict VectorId UInt32 × Dict VectorId D) (p : VectorId × UInt32) :
    Dict VectorId UInt32 × Dict VectorId D :=
  let tf := ops.ofCount p.2.toUInt64
  let length := ops.div (ops.ofCount ((state.1.lookup p.1).getD 0).toUInt64) idx.avg_doc_length
  let term := ops.div (ops.mul idf (ops.mul tf (ops.add ops.k1 ops.one)))
    (ops.add tf (ops.mul ops.k1 (ops.add (ops.sub ops.one ops.b) (ops.mul ops.b length))))
  (touch state.1 p.1,state.2.alter p.1 fun score => some (ops.add (score.getD ops.zero) term))

def scoreWord (state : Dict VectorId UInt32 × Dict VectorId D) (word : Bytes) : Dict VectorId UInt32 × Dict VectorId D :=
  match idx.inverted_index.lookup word with
  | none => state
  | some list => list.foldl (scorePosting ops idx (idf ops idx list.length)) state

def scoreQuery (words : List Bytes) : Dict VectorId UInt32 × Dict VectorId D :=
  words.foldl (scoreWord ops idx) (idx.doc_lengths,∅)

/-- `Search`, with what the vector for the hits holds before it. -/
def search (sort : PartialSort F) (query : Bytes) (topk : UInt32) (out : List (LexicalHit F)) :
    LexicalIndex D × List (LexicalHit F) :=
  let words := tokenize query
  if words.isEmpty || idx.total_docs == 0 then (idx,out)
  else
    let (lengths,scores) := scoreQuery ops idx words
    let idx := {idx with doc_lengths := lengths}
    if scores.entries.isEmpty then (idx,out)
    else
      let out := out ++ scores.entries.map fun e => ⟨e.1,ops.toFloat e.2⟩
      (idx,(sort.run topk.toNat out).take topk.toNat)

end

/-! ### What the calls do to the lists -/

lemma lookup_countTokens (tokens : List Bytes) (word : Bytes) : (countTokens tokens).lookup word =
      if word ∈ tokens then some (UInt32.ofNat (tokens.count word)) else none := by
  induction tokens using List.reverseRecOn with
  | nil => rfl
  | append_singleton tokens t ih =>
    rw [countTokens,foldl_append,foldl_cons,foldl_nil,Dict.lookup_alter,← countTokens]
    by_cases same : t = word
    · subst same
      have last : t ∈ tokens ++ [t] := mem_append_right _ (.head _)
      rw [if_pos rfl,ih,if_pos last,count_append,count_singleton_self]
      by_cases before : t ∈ tokens
      · simp [before]
      · simp [before,count_eq_zero_of_not_mem before]
    · rw [if_neg same,ih,count_append,count_singleton]
      simp [same,Ne.symm same]

section
variable {D F : Type} (ops : Bm25Ops D F) (idx : LexicalIndex D)

def newPostings (id : VectorId) (text word : Bytes) : List (VectorId × UInt32) :=
  if word ∈ tokenize text then [(id,UInt32.ofNat ((tokenize text).count word))] else []

lemma postings_add (id : VectorId) (text word : Bytes) :
    (idx.add ops id text).postings word = idx.postings word ++ newPostings id text word := by
  unfold add
  by_cases none_ : (tokenize text).isEmpty = true
  · simp [newPostings,isEmpty_iff.mp none_]
  · have pushed := Dict.lookup_foldl_alter (fun e : Σ _ : Bytes, UInt32 => e.1)
      (fun e held => some (held.getD [] ++ [(id,e.2)])) (countTokens (tokenize text)).entries idx.inverted_index word
    rw [Dict.filter_entries,lookup_countTokens] at pushed
    simp only [none_,Bool.false_eq_true,if_false,postings]
    rw [show (countTokens (tokenize text)).entries.foldl (pushPosting id) idx.inverted_index =
      (countTokens (tokenize text)).entries.foldl (fun d e => d.alter e.1 fun held => some (held.getD [] ++ [(id,e.2)]))
        idx.inverted_index from rfl,pushed,newPostings]
    grind

lemma postings_remove (id : VectorId) (word : Bytes) : (idx.remove ops id).postings word = idx.postings word := by
  unfold remove
  split <;> rfl

lemma scorePostings_scored (idf : D) (list : List (VectorId × UInt32)) (state : Dict VectorId UInt32 × Dict VectorId D)
    {id : VectorId} (scored : ((list.foldl (scorePosting ops idx idf) state).2.lookup id).isSome) :
    (state.2.lookup id).isSome ∨ id ∈ list.map Prod.fst := by
  induction list generalizing state with
  | nil => exact .inl scored
  | cons p rest ih =>
    grind [scorePosting,Dict.lookup_alter]

lemma scoreWord_eq (state : Dict VectorId UInt32 × Dict VectorId D) (word : Bytes) : scoreWord ops idx state word =
      (idx.postings word).foldl (scorePosting ops idx (idf ops idx (idx.postings word).length)) state := by
  unfold scoreWord postings
  grind

lemma scoreQuery_scored (words : List Bytes) {id : VectorId}
    (scored : ((scoreQuery ops idx words).2.lookup id).isSome) : ∃ word ∈ words, id ∈ (idx.postings word).map Prod.fst := by
  have runs (words : List Bytes) (state : Dict VectorId UInt32 × Dict VectorId D)
      (scored : ((words.foldl (scoreWord ops idx) state).2.lookup id).isSome) :
      (state.2.lookup id).isSome ∨ ∃ word ∈ words, id ∈ (idx.postings word).map Prod.fst := by
    induction words generalizing state with
    | nil => exact .inl scored
    | cons word rest ih =>
      rcases ih _ scored with now | ⟨other,member,listed⟩
      · rw [scoreWord_eq] at now
        rcases scorePostings_scored ops idx _ _ _ now with before | listed
        · exact .inl before
        · exact .inr ⟨word,.head _,listed⟩
      · exact .inr ⟨other,mem_cons_of_mem _ member,listed⟩
  exact (runs words _ scored).resolve_left (by simp)

lemma scoreQuery_lengths (known : ∀ word p, p ∈ idx.postings word → (idx.doc_lengths.lookup p.1).isSome)
    (words : List Bytes) : (scoreQuery ops idx words).1 = idx.doc_lengths := by
  have lists (idf : D) (list : List (VectorId × UInt32)) (known : ∀ p ∈ list, (idx.doc_lengths.lookup p.1).isSome)
      (scores : Dict VectorId D) :
      (list.foldl (scorePosting ops idx idf) (idx.doc_lengths,scores)).1 = idx.doc_lengths := by
    induction list generalizing scores with
    | nil => rfl
    | cons p rest ih =>
      have touched : touch idx.doc_lengths p.1 = idx.doc_lengths := if_pos (known p (.head _))
      grind [scorePosting]
  have runs (scores : Dict VectorId D) : (words.foldl (scoreWord ops idx) (idx.doc_lengths,scores)).1 = idx.doc_lengths := by
    induction words generalizing scores with
    | nil => rfl
    | cons word rest ih =>
      grind [scoreWord_eq,Prod.eta,List.foldl]
  exact runs ∅

lemma search_listed (sort : PartialSort F) (query : Bytes) (topk : UInt32) :
    ((idx.search ops sort query topk []).2.map LexicalHit.id).Nodup ∧
      ∀ h ∈ (idx.search ops sort query topk []).2, ∃ word ∈ tokenize query, h.id ∈ (idx.postings word).map Prod.fst := by
  unfold search
  by_cases quiet : ((tokenize query).isEmpty || idx.total_docs == 0) = true
  · simp [quiet]
  · by_cases none_ : (scoreQuery ops idx (tokenize query)).2.entries.isEmpty = true
    · simp [quiet,none_]
    · simp only [quiet,none_,Bool.false_eq_true,if_false]
      let hits : List (LexicalHit F) := (scoreQuery ops idx (tokenize query)).2.entries.map fun e => ⟨e.1,ops.toFloat e.2⟩
      have perm := sort.perm topk.toNat hits
      have ids : hits.map LexicalHit.id = (scoreQuery ops idx (tokenize query)).2.keys := by
        simp only [hits,map_map]
        rfl
      rw [nil_append]
      constructor
      · have all : ((sort.run topk.toNat hits).map LexicalHit.id).Nodup := by
          rw [(perm.map _).nodup_iff,ids]
          exact AList.keys_nodup _
        exact all.sublist ((take_sublist ..).map _)
      · intro h member
        have listed : h.id ∈ hits.map LexicalHit.id := mem_map_of_mem (perm.mem_iff.mp (mem_of_mem_take member))
        rw [ids] at listed
        exact scoreQuery_scored ops idx _ (AList.lookup_isSome.mpr listed)

end

inductive Call
  | add (id : VectorId) (text : Bytes)
  | remove (id : VectorId)
  | search (query : Bytes) (topk : UInt32)

def latest (docs : Dict VectorId Bytes) : Call → Dict VectorId Bytes
  | .add id text => docs.insert id text
  | .remove id => docs.erase id
  | .search .. => docs

/-- A call that the index keeps up with: a new id with a text that has a word, as long as
the count of ids fits in 64 bits, no removal of an id that is present, and any search. -/
def Careful (docs : Dict VectorId Bytes) : Call → Prop
  | .add id text => docs.lookup id = none ∧ tokenize text ≠ [] ∧ docs.size + 1 < 2 ^ 64
  | .remove id => docs.lookup id = none
  | .search .. => True

def CarefulRun (docs : Dict VectorId Bytes) : List Call → Prop
  | [] => True
  | c :: rest => Careful docs c ∧ CarefulRun (latest docs c) rest

section
variable {D F : Type} (ops : Bm25Ops D F) (sort : PartialSort F)

def step (idx : LexicalIndex D) : Call → LexicalIndex D
  | .add id text => idx.add ops id text
  | .remove id => idx.remove ops id
  | .search query topk => (idx.search ops sort query topk []).1

def Holds (docs : Dict VectorId Bytes) (word : Bytes) (p : VectorId × UInt32) : Prop :=
  ∃ text, docs.lookup p.1 = some text ∧ word ∈ tokenize text ∧ p.2 = UInt32.ofNat ((tokenize text).count word)

structure Reflects (idx : LexicalIndex D) (docs : Dict VectorId Bytes) : Prop where
  found : ∀ query topk, ((idx.search ops sort query topk []).2.map LexicalHit.id).Nodup ∧
    ∀ h ∈ (idx.search ops sort query topk []).2,
      ∃ text, docs.lookup h.id = some text ∧ ∃ word ∈ tokenize query, word ∈ tokenize text
  sound : ∀ word, ∀ p ∈ idx.postings word, Holds docs word p
  once : ∀ word, ((idx.postings word).map Prod.fst).Nodup
  total : idx.total_docs.toNat = docs.size

/-- The invariant behind it: the lists hold all words of all texts, and the lengths are
those of the texts. -/
structure Current (idx : LexicalIndex D) (docs : Dict VectorId Bytes) : Prop where
  listed : ∀ word p, p ∈ idx.postings word ↔ Holds docs word p
  once : ∀ word, ((idx.postings word).map Prod.fst).Nodup
  total : idx.total_docs.toNat = docs.size
  lengths : ∀ id, idx.doc_lengths.lookup id = (docs.lookup id).map fun text => UInt32.ofNat (tokenize text).length
  worded : ∀ id text, docs.lookup id = some text → tokenize text ≠ []

lemma create_current : Current (create ops) ∅ where
  listed word p := by simp [create,postings,Holds]
  once word := by simp [create,postings]
  total := rfl
  lengths id := by simp [create]
  worded id text held := by simp at held

namespace Current
variable {idx : LexicalIndex D} {docs : Dict VectorId Bytes}

lemma reflects (current : Current idx docs) : Reflects ops sort idx docs := by
  refine ⟨fun query topk => ?_,fun word p => (current.listed word p).mp,current.once,current.total⟩
  obtain ⟨nodup,hits⟩ := idx.search_listed ops sort query topk
  refine ⟨nodup,fun h member => ?_⟩
  obtain ⟨word,asked,listed⟩ := hits h member
  obtain ⟨p,entry,same⟩ := mem_map.mp listed
  obtain ⟨text,held,inside,_⟩ := (current.listed word p).mp entry
  exact ⟨text,same ▸ held,word,asked,inside⟩

lemma search (current : Current idx docs) (query : Bytes) (topk : UInt32) : (idx.search ops sort query topk []).1 = idx := by
  have same : (scoreQuery ops idx (tokenize query)).1 = idx.doc_lengths := by
    apply scoreQuery_lengths
    intro word p entry
    obtain ⟨text,held,_⟩ := (current.listed word p).mp entry
    simp [current.lengths,held]
  unfold LexicalIndex.search
  simp only [same]
  split
  · rfl
  · split <;> rfl

lemma entry (current : Current idx docs) {id : VectorId} {text : Bytes} (held : docs.lookup id = some text) :
    ∃ word ∈ tokenize text, ∃ p ∈ idx.postings word, p.1 = id := by
  obtain ⟨word,inside⟩ := exists_mem_of_ne_nil _ (current.worded id text held)
  exact ⟨word,inside,_,(current.listed word (id,_)).mpr ⟨text,held,inside,rfl⟩,rfl⟩

lemma add (current : Current idx docs) {id : VectorId} {text : Bytes} (fresh : docs.lookup id = none)
    (worded : tokenize text ≠ []) (room : docs.size + 1 < 2 ^ 64) :
    Current (idx.add ops id text) (docs.insert id text) := by
  have unknown : idx.doc_lengths.lookup id = none := by rw [current.lengths,fresh]; rfl
  have some_ : (tokenize text).isEmpty = false := by simpa using worded
  have held (other : VectorId) : (docs.insert id text).lookup other = if id = other then some text else docs.lookup other :=
    Dict.lookup_write docs (id,some text) other
  constructor
  · intro word p
    rw [postings_add,mem_append,current.listed]
    by_cases same : id = p.1
    · have before : ¬Holds docs word p := by
        rintro ⟨old,there,_⟩
        rw [← same,fresh] at there
        cases there
      rw [or_iff_right before]
      simp only [Holds,held,if_pos same,newPostings]
      grind
    · have other : p ∉ newPostings id text word := by
        grind [newPostings]
      simp only [other,or_false,Holds,held,if_neg same]
  · intro word
    rw [postings_add,map_append,nodup_append]
    refine ⟨current.once word,by unfold newPostings; split <;> simp,?_⟩
    intro a before b after same
    obtain ⟨p,entry,rfl⟩ := mem_map.mp before
    obtain ⟨old,there,_⟩ := (current.listed word p).mp entry
    grind [newPostings]
  · have total := current.total
    have size : Dict.size (docs.insert id text) = docs.size + 1 := Dict.size_insert_new fresh text
    have next : (idx.total_docs + 1).toNat = docs.size + 1 := by
      rw [UInt64.toNat_add,total]
      exact Nat.mod_eq_of_lt (by simpa using room)
    simp only [LexicalIndex.add,some_,unknown,Bool.false_eq_true,if_false,size,next]
  · intro other
    simp only [LexicalIndex.add,some_,Bool.false_eq_true,if_false,held]
    rw [show idx.doc_lengths.insert id (UInt32.ofNat (tokenize text).length) =
      idx.doc_lengths.write (id,some (UInt32.ofNat (tokenize text).length)) from rfl,Dict.lookup_write,current.lengths]
    split <;> rfl
  · grind [worded]

lemma step (current : Current idx docs) {c : Call} (careful : Careful docs c) : Current (idx.step ops sort c) (latest docs c) := by
  cases c with
  | add id text => exact current.add ops careful.1 careful.2.1 careful.2.2
  | remove id =>
    have absent : docs.lookup id = none := careful
    have gone : docs.erase id = docs := Dict.erase_absent absent
    have unknown : idx.doc_lengths.lookup id = none := by rw [current.lengths,absent]; rfl
    simpa only [LexicalIndex.step,remove,unknown,latest,gone] using current
  | search query topk =>
    rw [LexicalIndex.step,current.search]
    exact current

end Current

lemma not_reflects_of_careless {idx : LexicalIndex D} {docs : Dict VectorId Bytes} (current : Current idx docs) {c : Call}
    (careless : ¬Careful docs c) : ¬Reflects ops sort (idx.step ops sort c) (latest docs c) := by
  intro reflects
  cases c with
  | search query topk => exact careless trivial
  | remove id =>
    obtain ⟨text,held⟩ := Option.ne_none_iff_exists'.mp careless
    obtain ⟨word,_,p,entry,rfl⟩ := current.entry held
    -- the entries of the removed id are still there
    obtain ⟨_,there,_⟩ := reflects.sound word p (by rwa [step,postings_remove])
    simp [latest] at there
  | add id text =>
    cases held : docs.lookup id with
    | some old =>
      obtain ⟨word,_,p,entry,rfl⟩ := current.entry held
      have stays : p ∈ (idx.add ops p.1 text).postings word := by
        rw [postings_add]
        exact mem_append_left _ entry
      obtain ⟨new,there,inside,_⟩ := reflects.sound word p stays
      obtain rfl : text = new := by simpa [latest] using there
      -- the word is in both texts, so that its list names the id twice
      have once := reflects.once word
      grind [step,postings_add,newPostings,nodup_append]
    | none =>
      have total := reflects.total
      have size : (latest docs (.add id text)).size = docs.size + 1 := Dict.size_insert_new held text
      rw [size] at total
      by_cases worded : tokenize text = []
      · rw [step,LexicalIndex.add,if_pos (by simp [worded]),current.total] at total
        omega
      · apply careless
        have bound := (idx.step ops sort (.add id text)).total_docs.toNat_lt
        exact ⟨held,worded,by omega⟩

/-- The index shows the current texts at each point of a run exactly if the run adds no id
that is present and no text without a word, and removes no id that is present. -/
theorem lexical_reflects_iff (calls : List Call) :
    (∀ n, Reflects ops sort ((calls.take n).foldl (step ops sort) (create ops)) ((calls.take n).foldl latest ∅)) ↔
      CarefulRun ∅ calls := by
  have runs (idx : LexicalIndex D) (docs : Dict VectorId Bytes) (current : Current idx docs) :
      (∀ n, Reflects ops sort ((calls.take n).foldl (step ops sort) idx) ((calls.take n).foldl latest docs)) ↔
        CarefulRun docs calls := by
    induction calls generalizing idx docs with
    | nil => simpa [CarefulRun] using current.reflects ops sort
    | cons c rest ih =>
      by_cases careful : Careful docs c
      · have later := ih _ _ (current.step ops sort careful)
        rw [CarefulRun,← later]
        constructor
        · exact fun all => ⟨careful,fun n => all (n + 1)⟩
        · rintro ⟨_,all⟩ n
          cases n with
          | zero => exact current.reflects ops sort
          | succ n => exact all n
      · constructor
        · exact fun all => absurd (all 1) (not_reflects_of_careless ops sort current careful)
        · exact fun run => absurd run.1 careful
  exact runs _ _ (create_current ops)

end

def wholeOps : Bm25Ops Int Int where
  zero := 0
  one := 1
  half := 0
  k1 := 1
  b := 1
  ofCount n := n.toNat
  add := (· + ·)
  sub := (· - ·)
  mul := (· * ·)
  div := (· / ·)
  log := id
  toFloat := id

/-- A removed id is found by the words of its text, the search brings its length back, and
removing it once more makes the count of ids wrong. -/
theorem lexical_finds_removed :
    let sort := PartialSort.full fun x y : Int => x > y
    let calls : List Call := [.add 1 (ascii "red fox"),.add 2 (ascii "red"),.remove 1]
    let idx := calls.foldl (step wholeOps sort) (create wholeOps)
    let found := idx.search wholeOps sort (ascii "fox") 10 []
    (calls.foldl latest ∅).lookup 1 = none ∧ found.2.map LexicalHit.id = [1] ∧ idx.total_docs = 1 ∧
      (found.1.remove wholeOps 1).total_docs = 0 ∧ ¬Reflects wholeOps sort idx (calls.foldl latest ∅) := by
  intro sort calls idx found
  have hits : found.2.map LexicalHit.id = [1] := by decide +kernel
  have gone : (calls.foldl latest ∅).lookup 1 = none := by decide +kernel
  refine ⟨gone,hits,by decide +kernel,by decide +kernel,fun reflects => ?_⟩
  obtain ⟨h,member,same⟩ := mem_map.mp (hits ▸ mem_cons_self : (1 : VectorId) ∈ found.2.map LexicalHit.id)
  obtain ⟨text,held,_⟩ := (reflects.found (ascii "fox") 10).2 h member
  rw [same,gone] at held
  cases held

end LexicalIndex
end PomaiCache
