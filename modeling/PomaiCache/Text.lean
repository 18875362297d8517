import Mathlib
import PomaiCache.RecordLog

/-!
Byte strings as texts: searching for a word, reading up to a mark, numbers in decimal. A
search is a cut, so that what is found is given by what stands before it and behind it and
not by positions.
-/
namespace PomaiCache.Text
open Codec RecordLog List Option

def ascii (s : String) : Bytes := s.toUTF8.data.toList

/-- What stands before the first `word` of a text, and what stands behind it. -/
def cut (word : Bytes) : Bytes → Option (Bytes × Bytes)
  | [] => if word = [] then some ([],[]) else none
  | b :: rest =>
    if word <+: b :: rest then some ([],(b :: rest).drop word.length)
    else (cut word rest).map fun p => (b :: p.1,p.2)

lemma cut_here (here : word <+: text) : cut word text = some ([],text.drop word.length) := by
  cases text with
  | nil => simp [cut,prefix_nil.mp here]
  | cons b rest => rw [cut,if_pos here]

lemma cut_later (later : ¬word <+: b :: rest) : cut word (b :: rest) = (cut word rest).map fun p => (b :: p.1,p.2) := by
  rw [cut,if_neg later]

lemma cut_eq (found : cut word text = some (before,behind)) : text = before ++ (word ++ behind) := by
  induction text generalizing before with
  | nil =>
    unfold cut at found
    grind
  | cons b rest ih =>
    by_cases here : word <+: b :: rest
    · rw [cut_here here] at found
      cases found
      exact (prefix_iff_eq_append.mp here).symm
    · rw [cut_later here] at found
      obtain ⟨p,later,same⟩ := map_eq_some_iff.mp found
      grind

lemma cut_short (short : text.length < word.length) : cut word text = none := by
  cases found : cut word text with
  | none => rfl
  | some p =>
    have length := congrArg List.length (cut_eq (show cut word text = some (p.1,p.2) from found))
    simp only [length_append] at length
    omega

/-- Of a text that has not arrived in full the cut is the one of the whole text, if the word
has arrived, and what stands behind it is cut short. -/
lemma cut_take (some_ : word ≠ []) (text : Bytes) (n : Nat) : cut word (text.take n) = (cut word text).bind fun p =>
      if p.1.length + word.length ≤ n then some (p.1,p.2.take (n - (p.1.length + word.length))) else none := by
  have long : 0 < word.length := length_pos_iff.mpr some_
  induction text generalizing n with
  | nil => simp [cut,some_]
  | cons b rest ih =>
    by_cases here : word <+: b :: rest
    · rw [cut_here here,bind_some,length_nil,Nat.zero_add]
      by_cases arrived : word.length ≤ n
      · have first : word <+: (b :: rest).take n := prefix_take_iff.mpr ⟨here,arrived⟩
        rw [cut_here first,if_pos arrived,drop_take]
      · rw [if_neg arrived]
        apply cut_short
        rw [length_take]
        omega
    · cases n with
      | zero =>
        rw [take_zero,cut_short (by simpa using long)]
        simp [*]
      | succ n =>
        have cut_ : ¬word <+: b :: rest.take n := fun first =>
          here (first.trans ( take_prefix (n + 1) (b :: rest)))
        rw [take_succ_cons,cut_later cut_,cut_later here,ih]
        cases cut word rest with
        | none => rfl
        | some p =>
          simp only [bind_some,map_some,length_cons]
          have shift : p.1.length + 1 + word.length ≤ n + 1 ↔ p.1.length + word.length ≤ n := by omega
          have rest_ : n + 1 - (p.1.length + 1 + word.length) = n - (p.1.length + word.length) := by omega
          by_cases arrived : p.1.length + word.length ≤ n
          · rw [if_pos arrived,if_pos (shift.mpr arrived),rest_,map_some]
          · rw [if_neg arrived,if_neg fun both => arrived (shift.mp both),map_none]

lemma cut_append (some_ : word ≠ []) (found : cut word (before ++ word) = some (before,[])) (behind : Bytes) :
    cut word (before ++ word ++ behind) = some (before,behind) := by
  have part := cut_take some_ (before ++ word ++ behind) (before ++ word).length
  rw [take_left,found] at part
  obtain ⟨p,whole,same⟩ := bind_eq_some_iff.mp part.symm
  split at same
  · have front : p.1 = before := congrArg Prod.fst (some_inj.mp same)
    have both := cut_eq (show cut word (before ++ word ++ behind) = some (p.1,p.2) from whole)
    rw [front,append_assoc,append_cancel_left_eq,append_cancel_left_eq] at both
    rw [whole,both,← front]
  · cases same

variable {mark : UInt8}

lemma cut_mark (plain : mark ∉ before) (behind : Bytes) : cut [mark] (before ++ mark :: behind) = some (before,behind) := by
  induction before with
  | nil => exact cut_here ⟨behind,rfl⟩
  | cons b before ih =>
    simp only [mem_cons,not_or] at plain
    grind [cut_later]

/-- `getline`: the text up to the next mark, and what follows the mark. At the end of the
input there is nothing to read, also behind a mark. -/
def getline (mark : UInt8) (text : Bytes) : Option (Bytes × Bytes) :=
  if text = [] then none else some (text.takeWhile (· ≠ mark),(text.dropWhile (· ≠ mark)).drop 1)

lemma getline_shrinks (found : getline mark text = some (line,rest)) : rest.length < text.length := by
  unfold getline at found
  split at found
  · cases found
  · next some_ =>
    cases found
    have long := length_pos_iff.mpr some_
    grind [dropWhile_sublist,length_drop]

def lines (mark : UInt8) : Reader Bytes := ⟨getline mark,getline_shrinks⟩

lemma getline_mark (plain : mark ∉ line) (rest : Bytes) : getline mark (line ++ mark :: rest) = some (line,rest) := by
  have all : ∀ b ∈ line, decide (b ≠ mark) = true := fun b member => by
    simpa using fun same : b = mark => plain (same ▸ member)
  rw [getline,if_neg (by simp),takeWhile_append_of_pos all,dropWhile_append_of_pos all]
  simp

lemma getline_last (plain : mark ∉ line) (some_ : line ≠ []) : getline mark line = some (line,[]) := by
  have all : ∀ b ∈ line, decide (b ≠ mark) = true := fun b member => by
    simpa using fun same : b = mark => plain (same ▸ member)
  rw [getline,if_neg some_,takeWhile_eq_self_iff.mpr all,dropWhile_eq_nil_iff.mpr all]
  rfl

/-- The next word of a text in which words stand between blanks, and what follows it. -/
def nextWord (blank : UInt8 → Bool) (text : Bytes) : Option (Bytes × Bytes) :=
  let text := text.dropWhile blank
  if text = [] then none else some (text.takeWhile (!blank ·),text.dropWhile (!blank ·))

lemma nextWord_shrinks (found : nextWord blank text = some (word,rest)) : rest.length < text.length := by
  unfold nextWord at found
  have short := (dropWhile_sublist (l := text) (p := blank)).length_le
  cases split_ : text.dropWhile blank with
  | nil =>
    simp [split_] at found
  | cons b more =>
    have first : blank b = false := by
      have head := head_dropWhile_not blank (show text.dropWhile blank ≠ [] by rw [split_]; simp)
      simpa [split_] using head
    rw [split_] at found short
    simp only [reduceCtorEq,if_false,some_inj,Prod.mk.injEq] at found
    grind [dropWhile_cons_of_pos,dropWhile_sublist,length_cons]

def words (blank : UInt8 → Bool) : Reader Bytes := ⟨nextWord blank,nextWord_shrinks⟩

lemma words_blank (between : blank sep = true) (rest : Bytes) : (words blank).all (sep :: rest) = (words blank).all rest := by
  have same : nextWord blank (sep :: rest) = nextWord blank rest := by
    simp only [nextWord,dropWhile_cons_of_pos between]
  cases found : (words blank).next rest with
  | none =>
    have none_ : (words blank).next (sep :: rest) = none := same.trans found
    have empty {text : Bytes} (end_ : (words blank).next text = none) : (words blank).all text = [] := by
      cases size : text.length with
      | zero => simp [Reader.all,size,Reader.upTo]
      | succ n => simp [Reader.all,size,Reader.upTo,end_]
    rw [empty none_,empty found]
  | some step =>
    have found' : (words blank).next rest = some (step.1,step.2) := found
    rw [(words blank).all_next found',(words blank).all_next (same.trans found')]

section Words
variable {blank : UInt8 → Bool} {word : Bytes} (plain : ∀ b ∈ word, blank b = false) (some_ : word ≠ [])
include plain some_

lemma words_last : (words blank).all word = [word] := by
  have kept : word.dropWhile blank = word := by
    simp [*]
  have all : ∀ b ∈ word, (!blank b) = true := fun b member => by simp [plain b member]
  have found : (words blank).next word = some (word,[]) := by
    show nextWord blank word = _
    simp only [nextWord,kept,if_neg some_]
    rw [takeWhile_eq_self_iff.mpr all,dropWhile_eq_nil_iff.mpr all]
  rw [(words blank).all_next found,Reader.all_nil]

lemma words_word (between : blank sep = true) (rest : Bytes) :
    (words blank).all (word ++ sep :: rest) = word :: (words blank).all rest := by
  have kept : (word ++ sep :: rest).dropWhile blank = word ++ sep :: rest := by
    cases word with
    | nil => exact absurd rfl some_
    | cons b more => exact dropWhile_cons_of_neg (by simp [plain b (.head _)])
  have all : ∀ b ∈ word, (!blank b) = true := fun b member => by simp [plain b member]
  have found : (words blank).next (word ++ sep :: rest) = some (word,sep :: rest) := by
    show nextWord blank (word ++ sep :: rest) = _
    simp only [nextWord,kept,takeWhile_append_of_pos all,dropWhile_append_of_pos all]
    simp [between]
  rw [(words blank).all_next found,words_blank between]

end Words

def isSpace (b : UInt8) : Bool := b == 32 || (9 ≤ b && b ≤ 13)

def isBlank (b : UInt8) : Bool := b == 32 || b == 9

def isDigit (b : UInt8) : Bool := 48 ≤ b && b ≤ 57

def digitsValue (digits : Bytes) : Nat := digits.foldl (fun n b => 10 * n + (b.toNat - 48)) 0

/-- `strtoull(text, &end, 10)`, or nothing when no number stands there. A number that is too
large gives the largest one, and a minus sign negates modulo 2^64. -/
def strtoull (text : Bytes) : Option UInt64 :=
  let text := text.dropWhile isSpace
  let negative := text.head? == some 45
  let digits := (if negative || text.head? == some 43 then text.drop 1 else text).takeWhile isDigit
  if digits = [] then none
  else if digitsValue digits < 2 ^ 64 then
    let n := UInt64.ofNat (digitsValue digits)
    some (if negative then 0 - n else n)
  else some (UInt64.ofNat (2 ^ 64 - 1))

def decimal (n : Nat) : Bytes :=
  if n = 0 then [48] else (Nat.digits 10 n).reverse.map fun digit => UInt8.ofNat (48 + digit)

lemma digit_byte : ∀ d < 10, isDigit (UInt8.ofNat (48 + d)) = true ∧ (UInt8.ofNat (48 + d)).toNat - 48 = d := by decide

lemma isDigit_decimal (n : Nat) : ∀ b ∈ decimal n, isDigit b = true := by
  intro b member
  unfold decimal at member
  split at member
  · simp only [mem_singleton] at member
    subst member
    decide
  · obtain ⟨digit,inside,rfl⟩ := mem_map.mp member
    exact (digit_byte digit (Nat.digits_lt_base (by decide) (mem_reverse.mp inside))).1

lemma digitsValue_decimal (n : Nat) : digitsValue (decimal n) = n := by
  by_cases zero : n = 0
  · simp [decimal,zero,digitsValue]
  · rw [decimal,if_neg zero,digitsValue,foldl_map,foldl_reverse]
    calc (Nat.digits 10 n).foldr (fun digit n => 10 * n + ((UInt8.ofNat (48 + digit)).toNat - 48)) 0
      _ = (Nat.digits 10 n).foldr (fun digit n => digit + 10 * n) 0 := by
        apply foldr_ext
        intro digit inside n
        rw [(digit_byte digit (Nat.digits_lt_base (by decide) inside)).2,Nat.add_comm]
      _ = n := by
        have value := Nat.ofDigits_digits 10 n
        rwa [Nat.ofDigits_eq_foldr] at value

lemma decimal_ne_nil (n : Nat) : decimal n ≠ [] := by
  unfold decimal
  split
  · simp
  · next positive => simp [Nat.digits_ne_nil_iff_ne_zero.mpr positive]

lemma decimal_front (n : Nat) : (decimal n).dropWhile isSpace = decimal n ∧
    (∀ c, isDigit c = false → ((decimal n).head? == some c) = false) ∧ (decimal n).takeWhile isDigit = decimal n := by
  obtain ⟨b,rest,split_⟩ := exists_cons_of_ne_nil (decimal_ne_nil n)
  have digit : isDigit b = true := isDigit_decimal n b (by simp [split_])
  have space : isSpace b = false := by
    simp only [isDigit,isSpace,Bool.and_eq_true,decide_eq_true_eq,UInt8.le_iff_toNat_le,Bool.or_eq_false_iff,beq_eq_false_iff_ne,
      ne_eq,Bool.and_eq_false_iff,decide_eq_false_iff_not,← UInt8.toNat_inj] at digit ⊢
    simp only [UInt8.reduceToNat] at digit ⊢
    omega
  refine ⟨?_,fun c other => ?_,takeWhile_eq_self_iff.mpr (isDigit_decimal _)⟩
  · rw [split_]
    exact dropWhile_cons_of_neg (by simp [space])
  · grind

lemma strtoull_decimal (n : UInt64) : strtoull (decimal n.toNat) = some n := by
  obtain ⟨drop,sign,whole⟩ := decimal_front n.toNat
  simp [strtoull,drop,sign 45 (by decide),sign 43 (by decide),whole,digitsValue_decimal,decimal_ne_nil,n.toNat_lt]

def trim (text : Bytes) : Bytes := ((text.dropWhile isBlank).reverse.dropWhile isBlank).reverse

end PomaiCache.Text
