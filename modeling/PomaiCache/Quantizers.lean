import PomaiCache.MemTable

/-!
The quantizers of segments: how a vector becomes a code and a code a vector. Each
one rejects a code that does not have the length its own encoder gives it.
-/
namespace PomaiCache
open Codec

inductive QuantizationType
  | kNone
  | kSq8
  | kFp16
  | kBit
  | kPq8
  deriving DecidableEq, Repr

def floatMinus1 : UInt32 := 0xBF800000
def floatHalf : UInt32 := 0x3F000000
def floatTiny : UInt32 := 0x358637BD
def floatMax : UInt32 := 0x7F7FFFFF

structure ScalarQuantizer8Bit where
  dim : Nat
  is_trained : Bool
  global_min : UInt32
  global_scale : UInt32
  global_inv_scale : UInt32
  deriving DecidableEq, Repr

namespace ScalarQuantizer8Bit

def create (dim : Nat) : ScalarQuantizer8Bit := ⟨dim,false,float0,float0,float0⟩

def isNaN (x : UInt32) : Bool := decide (x &&& 0x7FFFFFFF > 0x7F800000)

variable (fl : FloatOps)

def le (a b : UInt32) : Bool := !isNaN a && !isNaN b && !fl.lt b a

def train (q : ScalarQuantizer8Bit) (data : Vec) (num_vectors : Nat) : Except Status ScalarQuantizer8Bit :=
  if num_vectors = 0 ∨ q.dim = 0 then .error (.invalidArgument "Empty dimensions or vectors for training")
  else if data.length < num_vectors * q.dim then
    .error (.invalidArgument "Data span is smaller than num_vectors * dim")
  else
    let found := Payload.extremes fl (data.take (num_vectors * q.dim))
    let range := fl.sub found.2 found.1
    if le fl range floatTiny then
      .ok {q with is_trained := true, global_min := found.1, global_scale := float0, global_inv_scale := float0}
    else
      .ok {q with
        is_trained := true
        global_min := found.1
        global_scale := fl.div float255 range
        global_inv_scale := fl.div range float255}

def encode (q : ScalarQuantizer8Bit) (vector : Vec) : Bytes :=
  if !q.is_trained || vector.length != q.dim then []
  else vector.map fun x =>
    let f := fl.add (fl.mul (fl.sub x q.global_min) q.global_scale) floatHalf
    let low := if fl.lt f float255 then f else float255
    fl.toCode (if fl.lt float0 low then low else float0)

def decode (q : ScalarQuantizer8Bit) (codes : Bytes) : Vec :=
  if !q.is_trained || codes.length != q.dim then []
  else codes.map fun code => fl.add q.global_min (fl.mul (fl.ofCode code) q.global_inv_scale)

/-- The state a reader restores from the header. -/
def loadState (q : ScalarQuantizer8Bit) (min_val inv_scale : UInt32) : ScalarQuantizer8Bit :=
  {q with
    is_trained := true
    global_min := min_val
    global_scale := if fl.lt floatTiny inv_scale then fl.div float1 inv_scale else float0
    global_inv_scale := inv_scale}

lemma train_ok {fl : FloatOps} {q trained : ScalarQuantizer8Bit} {data : Vec} {n : Nat}
    (ok : q.train fl data n = .ok trained) : trained.is_trained = true ∧ trained.dim = q.dim := by
  grind [train]

lemma loadState_decode {q : ScalarQuantizer8Bit} (ready : q.is_trained = true ∨ q.dim = 0) (codes : Bytes) :
    ((create q.dim).loadState fl q.global_min q.global_inv_scale).decode fl codes = q.decode fl codes := by
  grind [decode,loadState,create]

end ScalarQuantizer8Bit

namespace HalfFloat

def float32ToFloat16 (f32 : UInt32) : UInt16 :=
  let sign := (f32 >>> 16) &&& 0x8000
  let exponent : Int := ((f32 >>> 23) &&& 0xFF).toNat - 127
  let mantissa := f32 &&& 0x007FFFFF
  if exponent ≤ -15 then
    if exponent < -24 then sign.toUInt16
    else (sign ||| (((mantissa ||| 0x00800000) >>> UInt32.ofNat (-14 - exponent).toNat) >>> 13)).toUInt16
  else if exponent ≥ 16 then (sign ||| 0x7C00).toUInt16
  else (sign ||| (UInt32.ofNat (exponent + 15).toNat <<< 10) ||| (mantissa >>> 13)).toUInt16

/-- The loop that normalizes a subnormal: the mantissa is shifted until its leading
bit is at bit 23, at most ten times for the mantissa of a half float. -/
def normalize : Nat → UInt32 → UInt32 → UInt32 × UInt32
  | 0,mantissa,exponent => (mantissa,exponent)
  | n + 1,mantissa,exponent =>
    if mantissa &&& 0x00800000 = 0 then normalize n (mantissa <<< 1) (exponent - 1) else (mantissa,exponent)

lemma normalize_done : ∀ m : Fin 1024, m.val ≠ 0 →
    (normalize 10 (UInt32.ofNat m.val <<< 13) 0).1 &&& 0x00800000 ≠ 0 := by decide +kernel

def float16ToFloat32 (h : UInt16) : UInt32 :=
  let sign := (h.toUInt32 &&& 0x8000) <<< 16
  let exponent := (h.toUInt32 &&& 0x7C00) >>> 10
  let mantissa := (h.toUInt32 &&& 0x03FF) <<< 13
  if exponent = 0 then
    if mantissa = 0 then sign
    else
      let (mantissa,exponent) := normalize 10 mantissa exponent
      sign ||| ((exponent + 1 + (127 - 15)) <<< 23) ||| (mantissa &&& 0x007FFFFF)
  else if exponent = 31 then sign ||| ((255 : UInt32) <<< 23) ||| mantissa
  else sign ||| ((exponent + (127 - 15)) <<< 23) ||| mantissa

def encode (dim : Nat) (vector : Vec) : Bytes :=
  if vector.length != dim then [] else vector.flatMap fun x => le 2 (float32ToFloat16 x).toNat

def decode (dim : Nat) (codes : Bytes) : Vec :=
  if codes.length != dim * 2 then []
  else (List.range dim).map fun i => float16ToFloat32 (UInt16.ofNat (leNat (slice codes (2 * i) 2)))

end HalfFloat

namespace BitQuantizer

variable (fl : FloatOps)

def bitQuantize (vec : Vec) : Bytes :=
  (List.range vec.length).foldl (fun codes i =>
    if fl.lt float0 (vec.getD i 0) then codes.modify (i / 8) fun byte => byte ||| (1 <<< UInt8.ofNat (i % 8)) else codes)
    (List.replicate ((vec.length + 7) / 8) 0)

def encode (dim : Nat) (vector : Vec) : Bytes :=
  if vector.length != dim then [] else bitQuantize fl vector

def decode (dim : Nat) (codes : Bytes) : Vec :=
  if codes.length != (dim + 7) / 8 then []
  else (List.range dim).map fun i =>
    if (codes.getD (i / 8) 0 >>> UInt8.ofNat (i % 8)) &&& 1 = 1 then float1 else floatMinus1

lemma bitQuantize_length (vec : Vec) : (bitQuantize fl vec).length = (vec.length + 7) / 8 := by
  have kept : ∀ (is : List Nat) (codes : Bytes), (is.foldl (fun codes i =>
      if fl.lt float0 (vec.getD i 0) then codes.modify (i / 8) fun byte => byte ||| (1 <<< UInt8.ofNat (i % 8)) else codes)
      codes).length = codes.length := by
    intro is
    induction is with
    | nil => simp
    | cons i is ih =>
      grind
  rw [bitQuantize,kept,List.length_replicate]

end BitQuantizer

structure ProductQuantizer where
  dim : Nat
  M : Nat
  centroids : Nat → Nat → Vec

namespace ProductQuantizer

def ksub : Nat := 256

def dsub (q : ProductQuantizer) : Nat := q.dim / q.M

variable (fl : FloatOps)

def distance (x c : Vec) : UInt32 :=
  (x.zip c).foldl (fun d pair => fl.add d (fl.mul (fl.sub pair.1 pair.2) (fl.sub pair.1 pair.2))) float0

/-- The code of one part: the number of the first centroid that is nearest. -/
def nearest (q : ProductQuantizer) (m : Nat) (x : Vec) : UInt8 :=
  ((List.range ksub).foldl (fun best k =>
    let d := distance fl x (q.centroids m k)
    if fl.lt d best.1 then (d,UInt8.ofNat k) else best) (floatMax,0)).2

def encode (q : ProductQuantizer) (x : Vec) : Bytes :=
  (List.range q.M).map fun m => q.nearest fl m ((x.drop (m * q.dsub)).take q.dsub)

def decode (q : ProductQuantizer) (code : Bytes) : Vec :=
  (List.range q.M).flatMap fun m => q.centroids m (code.getD m 0).toNat

end ProductQuantizer

/-! ### The quantizers behind one interface -/

inductive VectorQuantizer
  | sq8 (q : ScalarQuantizer8Bit)
  | fp16 (dim : Nat)
  | bit (dim : Nat)
  deriving DecidableEq, Repr

namespace VectorQuantizer

def encode (fl : FloatOps) : VectorQuantizer → Vec → Bytes
  | sq8 q => q.encode fl
  | fp16 dim => HalfFloat.encode dim
  | bit dim => BitQuantizer.encode fl dim

def decode (fl : FloatOps) : VectorQuantizer → Bytes → Vec
  | sq8 q => q.decode fl
  | fp16 dim => HalfFloat.decode dim
  | bit dim => BitQuantizer.decode dim

def dim : VectorQuantizer → Nat
  | sq8 q => q.dim
  | fp16 dim => dim
  | bit dim => dim

def codeLength : VectorQuantizer → Nat
  | sq8 q => q.dim
  | fp16 dim => dim * 2
  | bit dim => (dim + 7) / 8

/-- A quantizer that is ready to encode and decode; vectors without components need no training. -/
def Ready : VectorQuantizer → Prop
  | sq8 q => q.is_trained = true ∨ q.dim = 0
  | fp16 _ => True
  | bit _ => True

variable {q : VectorQuantizer}

variable (fl : FloatOps)

lemma encode_length (ready : q.Ready) {vector : Vec} (sized : vector.length = q.dim) :
    (q.encode fl vector).length = q.codeLength := by
  cases q with
  | sq8 q =>
    have sized : vector.length = q.dim := sized
    rcases ready with trained | none_
    · simp [encode,ScalarQuantizer8Bit.encode,codeLength,trained,sized]
    · have empty : vector = [] := List.eq_nil_of_length_eq_zero (sized.trans none_)
      simp [encode,ScalarQuantizer8Bit.encode,codeLength,none_,empty]
  | fp16 dim =>
    have sized : vector.length = dim := sized
    simp [encode,HalfFloat.encode,codeLength,sized,List.length_flatMap]
  | bit dim =>
    have sized : vector.length = dim := sized
    simp [encode,BitQuantizer.encode,codeLength,sized,BitQuantizer.bitQuantize_length]

lemma decode_length (ready : q.Ready) {codes : Bytes}
    (sized : codes.length = q.codeLength) : (q.decode fl codes).length = q.dim := by
  cases q with
  | sq8 q =>
    have sized : codes.length = q.dim := sized
    rcases ready with trained | none_
    · simp [decode,ScalarQuantizer8Bit.decode,dim,trained,sized]
    · have empty : codes = [] := List.eq_nil_of_length_eq_zero (sized.trans none_)
      simp [decode,ScalarQuantizer8Bit.decode,dim,none_,empty]
  | fp16 dim =>
    have sized : codes.length = dim * 2 := sized
    simp [decode,HalfFloat.decode,VectorQuantizer.dim,sized]
  | bit dim =>
    have sized : codes.length = (dim + 7) / 8 := sized
    simp [decode,BitQuantizer.decode,VectorQuantizer.dim,sized]

lemma decode_rejects {codes : Bytes} (wrong : codes.length ≠ q.codeLength) : q.decode fl codes = [] := by
  cases q with
  | sq8 q =>
    have wrong : codes.length ≠ q.dim := wrong
    simp [decode,ScalarQuantizer8Bit.decode,wrong]
  | fp16 dim =>
    have wrong : codes.length ≠ dim * 2 := wrong
    simp [decode,HalfFloat.decode,wrong]
  | bit dim =>
    have wrong : codes.length ≠ (dim + 7) / 8 := wrong
    simp [decode,BitQuantizer.decode,wrong]

end VectorQuantizer
end PomaiCache
