import PomaiCache.Text

/-!
Flat JSON objects whose members are strings and natural numbers, written without blanks. A
string is read byte by byte, so bytes outside of ASCII stand for themselves.
-/
namespace PomaiCache.Json
open Codec Text List

inductive JsonValue
  | num (n : Nat)
  | str (s : Bytes)
  deriving DecidableEq, Repr

/-- The byte that an escape of one letter stands for. -/
def escaped (c : UInt8) : Option UInt8 :=
  if c = 34 ∨ c = 92 ∨ c = 47 then some c
  else if c = 98 then some 8
  else if c = 102 then some 12
  else if c = 110 then some 10
  else if c = 114 then some 13
  else if c = 116 then some 9
  else none

/-- The string up to the closing quote, and what follows it. -/
def readString : Bytes → Option (Bytes × Bytes)
  | [] => none
  | b :: rest =>
    if b = 34 then some ([],rest)
    else if b = 92 then
      match rest with
      | [] => none
      | c :: rest => (escaped c).bind fun b => (readString rest).map fun p => (b :: p.1,p.2)
    else if b < 32 then none
    else (readString rest).map fun p => (b :: p.1,p.2)

def readNumber (text : Bytes) : Option (Nat × Bytes) :=
  let digits := text.takeWhile isDigit
  if digits = [] then none else some (digitsValue digits,text.drop digits.length)

def readValue : Bytes → Option (JsonValue × Bytes)
  | [] => none
  | b :: rest =>
    if b = 34 then (readString rest).map fun p => (.str p.1,p.2)
    else (readNumber (b :: rest)).map fun p => (.num p.1,p.2)

def expect (mark : UInt8) : Bytes → Option Bytes
  | [] => none
  | b :: rest => if b = mark then some rest else none

def readMember (text : Bytes) : Option ((Bytes × JsonValue) × Bytes) :=
  (expect 34 text).bind fun text =>
  (readString text).bind fun name =>
  (expect 58 name.2).bind fun text =>
  (readValue text).map fun value => ((name.1,value.1),value.2)

/-- The members up to the closing brace, which ends the text. -/
def readMembers : Nat → Bytes → Option (List (Bytes × JsonValue))
  | 0,_ => none
  | fuel + 1,text =>
    (readMember text).bind fun m =>
      if m.2 = [125] then some [m.1]
      else (expect 44 m.2).bind fun text => (readMembers fuel text).map (m.1 :: ·)

def decode (text : Bytes) : Option (List (Bytes × JsonValue)) :=
  (expect 123 text).bind fun text => readMembers text.length text

lemma readString_quote (rest : Bytes) : readString (34 :: rest) = some ([],rest) := by
  rw [readString.eq_def]
  rfl

lemma readString_escape {c b : UInt8} (stands : escaped c = some b) (rest : Bytes) :
    readString (92 :: c :: rest) = (readString rest).map fun p => (b :: p.1,p.2) := by
  rw [readString.eq_def]
  simp [stands]

lemma readString_visible {b : UInt8} (quote : b ≠ 34) (slash : b ≠ 92) (visible : 32 ≤ b) (rest : Bytes) :
    readString (b :: rest) = (readString rest).map fun p => (b :: p.1,p.2) := by
  rw [readString.eq_def]
  simp [quote,slash,UInt8.not_lt.mpr visible]

@[simp] lemma expect_self (mark : UInt8) (rest : Bytes) : expect mark (mark :: rest) = some rest := by simp [expect]

/-! ### What is read of what was written -/

def Plain (name : Bytes) : Prop := ∀ b ∈ name, b ≠ 34 ∧ b ≠ 92 ∧ 32 ≤ b

instance (name : Bytes) : Decidable (Plain name) := inferInstanceAs (Decidable (∀ b ∈ name, _))

lemma readString_plain {name : Bytes} (plain : Plain name) (rest : Bytes) : readString (name ++ 34 :: rest) = some (name,rest) := by
  induction name with
  | nil => exact readString_quote rest
  | cons b name ih =>
    obtain ⟨quote,slash,visible⟩ := plain b (.head _)
    rw [cons_append,readString_visible quote slash visible,ih fun other member => plain other (.tail _ member)]
    rfl

/-- The text is read as the value, whatever follows that is not a digit. -/
def Spells (text : Bytes) (value : JsonValue) : Prop :=
  ∀ close rest, isDigit close = false → readValue (text ++ close :: rest) = some (value,close :: rest)

lemma spells_decimal (n : Nat) : Spells (decimal n) (.num n) := by
  intro close rest stops
  have digits : (decimal n ++ close :: rest).takeWhile isDigit = decimal n := by
    rw [takeWhile_append_of_pos (isDigit_decimal n)]
    simp [stops]
  have number_ : readNumber (decimal n ++ close :: rest) = some (n,close :: rest) := by
    rw [readNumber,digits,if_neg (decimal_ne_nil n),digitsValue_decimal,drop_left]
  cases first : decimal n with
  | nil => exact absurd first (decimal_ne_nil n)
  | cons b more =>
    have quote : b ≠ 34 := by
      rintro rfl
      exact absurd (isDigit_decimal n 34 (by simp [first])) (by decide)
    rw [first] at number_
    rw [cons_append,readValue,if_neg quote]
    rw [cons_append] at number_
    rw [number_]
    rfl

lemma spells_string {text value : Bytes} (reads : ∀ rest, readString (text ++ 34 :: rest) = some (value,rest)) :
    Spells (34 :: (text ++ [34])) (.str value) := by
  intro close rest _
  rw [cons_append,append_assoc,readValue,if_pos rfl]
  simp [reads]

/-- A member of an object: its name, the text of its value, and the value. -/
structure Member where
  name : Bytes
  text : Bytes
  value : JsonValue
  plain : Plain name
  spells : Spells text value

namespace Member

def print (m : Member) : Bytes := 34 :: (m.name ++ 34 :: 58 :: m.text)

lemma readMember_print (m : Member) {close : UInt8} (stops : isDigit close = false) (rest : Bytes) :
    readMember (m.print ++ close :: rest) = some ((m.name,m.value),close :: rest) := by
  have shape : m.print ++ close :: rest = 34 :: (m.name ++ 34 :: (58 :: (m.text ++ close :: rest))) := by simp [print]
  simp [shape,readMember,expect_self,Option.bind_some,readString_plain m.plain,m.spells close rest stops]

def printAll : List Member → Bytes
  | [] => [125]
  | [m] => m.print ++ [125]
  | m :: next :: rest => m.print ++ 44 :: printAll (next :: rest)

lemma readMembers_printAll {ms : List Member} (some_ : ms ≠ []) {fuel : Nat} (enough : ms.length ≤ fuel) :
    readMembers fuel (printAll ms) = some (ms.map fun m => (m.name,m.value)) := by
  induction ms generalizing fuel with
  | nil => exact absurd rfl some_
  | cons m ms ih =>
    cases fuel with
    | zero => simp at enough
    | succ fuel =>
      cases ms with
      | nil => simp [printAll,readMembers,m.readMember_print (show isDigit 125 = false by decide)]
      | cons next rest =>
        have later : readMembers fuel (printAll (next :: rest)) = _ := ih (by simp) (by simpa using enough)
        have more : (44 : UInt8) :: printAll (next :: rest) ≠ [125] := by simp
        rw [printAll,readMembers,m.readMember_print (by decide),Option.bind_some,if_neg more,expect_self,Option.bind_some,later]
        rfl

lemma length_le_printAll (ms : List Member) : ms.length ≤ (printAll ms).length := by
  induction ms with
  | nil => simp
  | cons m ms ih =>
    cases ms with
    | nil => simp [printAll]
    | cons next rest =>
      simp only [printAll,length_append,length_cons] at ih ⊢
      omega

lemma decode_printAll {ms : List Member} (some_ : ms ≠ []) :
    decode (123 :: printAll ms) = some (ms.map fun m => (m.name,m.value)) := by
  rw [decode,expect_self,Option.bind_some,readMembers_printAll some_ (length_le_printAll ms)]

end Member
end PomaiCache.Json
