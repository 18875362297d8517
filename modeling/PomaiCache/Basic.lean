import PomaiCache.Codec

/-!
The values every component exchanges: statuses, vector ids, vectors and the
metadata of a vector.
-/
namespace PomaiCache
open Codec

inductive ErrorCode
  | kOk | kInvalidArgument | kNotFound | kAlreadyExists | kPermissionDenied | kResourceExhausted
  | kFailedPrecondition | kAborted | kIO | kInternal | kPartial | kCorruption | kUnknown
  deriving DecidableEq, Repr

/-- The result of an operation: a code and the text that explains it. -/
structure Status where
  code : ErrorCode
  message : String
  deriving DecidableEq, Repr

namespace Status

def ok (st : Status) : Bool := st.code == .kOk

def Ok : Status := ⟨.kOk,""⟩
def notFound (m : String) : Status := ⟨.kNotFound,m⟩
def invalidArgument (m : String) : Status := ⟨.kInvalidArgument,m⟩
def ioError (m : String) : Status := ⟨ ErrorCode.kIO,m⟩
def corruption (m : String) : Status := ⟨.kCorruption,m⟩
def internal (m : String) : Status := ⟨.kInternal,m⟩
def aborted (m : String) : Status := ⟨.kAborted,m⟩
def busy (m : String) : Status := ⟨.kAborted,m⟩
def resourceExhausted (m : String) : Status := ⟨.kResourceExhausted,m⟩

variable (m : String)

@[simp] lemma ok_Ok : Ok.ok = true := rfl
@[simp] lemma ok_error : (notFound m).ok = false ∧ (invalidArgument m).ok = false ∧ (ioError m).ok = false ∧ (corruption m).ok = false ∧
    (internal m).ok = false ∧ (aborted m).ok = false ∧ (busy m).ok = false ∧ (resourceExhausted m).ok = false :=
  ⟨rfl,rfl,rfl,rfl,rfl,rfl,rfl,rfl⟩

end Status

abbrev VectorId := UInt64

lemma bind_eq_ok {ε α β : Type} {x : Except ε α} {f : α → Except ε β} {b : β} (returned : x.bind f = .ok b) :
    ∃ a, x = .ok a ∧ f a = .ok b := by
  cases x with
  | error e => cases returned
  | ok a => exact ⟨a,rfl,returned⟩

/-- A vector of 32-bit floats, each by its bit pattern. -/
abbrev Vec := List UInt32

/-- Metadata of a vector. Strings are byte strings, and the two doubles stand
by their bit patterns, so the defaults are the source's. -/
structure Metadata where
  tenant : Bytes := []
  device_id : Bytes := []
  location_id : Bytes := []
  src_vid : UInt64 := 0
  timestamp : UInt64 := 0
  lsn : UInt64 := 0
  text : Bytes := []
  payload : Bytes := []
  lat : UInt64 := 0
  lon : UInt64 := 0
  deriving DecidableEq, Repr, Inhabited

end PomaiCache
