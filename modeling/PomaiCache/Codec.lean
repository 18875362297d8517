import Mathlib

/-!
Byte strings, as binary formats use them: fixed-width little-endian numbers,
arrays of words, and the positional reads of a parser. Nothing here knows any
format; a format is a concatenation of these pieces, and each piece is read back
at its offset whatever precedes and follows it.
-/
namespace PomaiCache.Codec
open List

abbrev Bytes := List UInt8

instance (priority := 2000) : LawfulBEq Bytes := inferInstance
instance (priority := 2000) lawfulBEqUInt64 : LawfulBEq UInt64 := inferInstance

/-- The `width` low bytes of `n`, least significant first. -/
def le : Nat → Nat → Bytes
  | 0, _ => []
  | width+1, n => UInt8.ofNat n :: le width (n/256)

/-- The number that little-endian bytes spell. -/
def leNat : Bytes → Nat
  | [] => 0
  | b :: rest => b.toNat + 256*leNat rest

@[simp] lemma le_length (width n : Nat) : (le width n).length = width := by
  induction width generalizing n with
  | zero => rfl
  | succ width ih => simp [le,ih]

lemma leNat_le (width n : Nat) : leNat (le width n) = n % 256^width := by
  induction width generalizing n with
  | zero => simp [le,leNat,Nat.mod_one]
  | succ width ih =>
    have low : (UInt8.ofNat n).toNat = n % 256 := by simp
    rw [le,leNat,ih,low,Nat.pow_succ',Nat.mod_mul]

lemma leNat_le_of_lt {width n : Nat} (fits : n < 256^width) : leNat (le width n) = n := by
  rw [leNat_le,Nat.mod_eq_of_lt fits]

variable (bytes : Bytes)

lemma leNat_lt : leNat bytes < 256^bytes.length := by
  induction bytes with
  | nil => simp [leNat]
  | cons b rest ih =>
    have digit : b.toNat < 256 := b.toNat_lt
    rw [leNat,length_cons,Nat.pow_succ]
    omega

@[simp] lemma leNat_u32 (x : UInt32) : leNat (le 4 x.toNat) = x.toNat := leNat_le_of_lt x.toNat_lt

lemma leNat_length (short : n < 2^32) : leNat (le 4 (UInt32.ofNat n).toNat) = n := by
  rw [leNat_u32,UInt32.toNat_ofNat_of_lt' short]

@[simp] lemma ofNat_leNat_u8 (x : UInt8) : UInt8.ofNat (leNat (le 1 x.toNat)) = x := by
  rw [leNat_le_of_lt (by have := x.toNat_lt; omega)]
  exact UInt8.ofNat_toNat

@[simp] lemma ofNat_leNat_u32 (x : UInt32) : UInt32.ofNat (leNat (le 4 x.toNat)) = x := by
  rw [leNat_u32]
  exact UInt32.ofNat_toNat

@[simp] lemma ofNat_leNat_u64 (x : UInt64) : UInt64.ofNat (leNat (le 8 x.toNat)) = x := by
  rw [leNat_le_of_lt (by have := x.toNat_lt; omega)]
  exact UInt64.ofNat_toNat

/-- The `n` bytes from `off`, fewer where the string ends before. -/
def slice (bytes : Bytes) (off n : Nat) : Bytes := (bytes.drop off).take n

lemma slice_length (off n : Nat) : (slice bytes off n).length = min n (bytes.length-off) := by
  simp [slice]

variable {off n : Nat} {bytes : Bytes}

lemma slice_front {piece : Bytes} (size : piece.length = n) (after : Bytes) : slice (piece ++ after) 0 n = piece := by
  simp [slice,← size]

lemma slice_all {piece : Bytes} (size : piece.length = n) : slice piece 0 n = piece := by
  simp [slice,size]

lemma slice_behind {before : Bytes} (inside : before.length ≤ off) (after : Bytes) :
    slice (before ++ after) off n = slice after (off - before.length) n := by
  simp [slice,drop_append,drop_eq_nil_of_le inside]

lemma slice_cons (b : UInt8) (after : Bytes) (off n : Nat) : slice (b :: after) (off + 1) n = slice after off n := rfl

lemma slice_drop (bytes : Bytes) (skipped off n : Nat) : slice (bytes.drop skipped) off n = slice bytes (skipped+off) n := by
  simp [slice]

lemma slice_take {size off n : Nat} (inside : off+n ≤ size) : slice (bytes.take size) off n = slice bytes off n := by
  simp only [slice,drop_take,take_take]
  rw [Nat.min_eq_left (by omega)]

def span (bytes : Bytes) (off n : Nat) : Bytes := (List.range n).map fun i => (bytes.drop off).getD i 0

@[simp] lemma span_length (off n : Nat) : (span bytes off n).length = n := by simp [span]

lemma span_piece {bytes piece after : Bytes} (here : bytes.drop off = piece ++ after)
    (size : piece.length = n) : span bytes off n = piece := by
  subst size
  apply ext_getElem
  · simp
  · grind [span]

def readAt (bytes : Bytes) (off n : Nat) : Option Bytes := if off + n ≤ bytes.length then some (slice bytes off n) else none

lemma readAt_front {piece : Bytes} (size : piece.length = n) (after : Bytes) : readAt (piece ++ after) 0 n = some piece := by
  rw [readAt,if_pos (by simp [size]),slice_front size]

lemma readAt_behind {before : Bytes} (inside : before.length ≤ off) (after : Bytes) :
    readAt (before ++ after) off n = readAt after (off - before.length) n := by
  simp only [readAt,length_append,slice_behind inside]
  congr 1
  grind

lemma readAt_length {bytes piece : Bytes} (read : readAt bytes off n = some piece) : piece.length = n := by
  grind [slice_length,readAt]

lemma drop_records {α : Type} {record : α → Bytes} {size : Nat} {items : List α}
    (sized : ∀ item ∈ items, (record item).length = size) {i : Nat} {item : α} (held : items[i]? = some item) :
    (items.flatMap record).drop (i * size) = record item ++ (items.drop (i + 1)).flatMap record := by
  induction items generalizing i with
  | nil => cases held
  | cons first items ih =>
    cases i with
    | zero =>
      grind
    | succ i =>
      have front := sized first (.head _)
      have rest := ih (fun item member => sized item (.tail _ member)) held
      rw [flatMap_cons,Nat.succ_mul,Nat.add_comm,← drop_drop,drop_left' front,rest]
      rfl

def words (v : List UInt32) : Bytes := v.flatMap fun x => le 4 x.toNat

def readWords : Nat → Bytes → List UInt32
  | 0, _ => []
  | n+1, bytes => UInt32.ofNat (leNat (bytes.take 4)) :: readWords n (bytes.drop 4)

@[simp] lemma words_length (v : List UInt32) : (words v).length = 4*v.length := by
  induction v with
  | nil => rfl
  | cons x rest ih =>
    rw [words,flatMap_cons,length_append,le_length]
    rw [words] at ih
    rw [ih,length_cons]
    omega

lemma readWords_words (v : List UInt32) (after : Bytes) : readWords v.length (words v ++ after) = v := by
  induction v with
  | nil => rfl
  | cons x rest ih =>
    grind [words,le_length,length_cons,readWords,take_left',drop_left',ofNat_leNat_u32]

/-- The reversed Castagnoli polynomial. -/
def kPoly : UInt32 := 0x82F63B78

def tableAt (i : UInt32) : UInt32 :=
  (List.range 8).foldl (fun crc _ => (crc >>> 1) ^^^ (kPoly &&& (~~~(crc &&& 1) + 1))) i

def crcStep (crc : UInt32) (byte : UInt8) : UInt32 :=
  tableAt ((crc ^^^ byte.toUInt32) &&& 0xFF) ^^^ (crc >>> 8)

def crc32c (data : Bytes) (seed : UInt32) : UInt32 := ~~~(data.foldl crcStep (~~~seed))

lemma crc32c_append (left right : Bytes) (seed : UInt32) : crc32c right (crc32c left seed) = crc32c (left ++ right) seed := by
  simp [crc32c]

end PomaiCache.Codec
