import PomaiCache.WalStreamer
import PomaiCache.Freeze

/-!
Sync of a vector engine with a receiver. The log lies in the directory of the engine and
the segments lie in a directory below it; sync streams the log files it finds in the
directory of the segments, behind the number up to which it has delivered.
-/
namespace PomaiCache
open Codec Wal

namespace Wal

def dirBodies : WalDir → List Bytes
  | some file :: rest => bodies file.length (file.drop (WalStreamer.framesStart file)) ++ dirBodies rest
  | _ => []

def recordsIn (w : Wal) : List Bytes := (dirBodies w.dir).filterMap fun body => (openBody w.cipher body).toOption

def heading (payload : Bytes) : UInt64 × UInt8 × VectorId :=
  (UInt64.ofNat (leNat (slice payload 0 8)),UInt8.ofNat (leNat (slice payload 8 1)),UInt64.ofNat (leNat (slice payload 9 8)))

end Wal

structure VectorEngine where
  path : String
  rt : VectorRuntime
  last_synced_lsn : UInt64

namespace VectorEngine

def dataDir (path : String) : String :=
  if path.toList = [] ∨ path.toList.getLast? = some '/' then path ++ "data" else path ++ "/data"

/-- The log files in a directory: the engine opens its log at its path, and nothing else
writes files under the names of log files. -/
def logFiles (e : VectorEngine) (dir : String) : WalDir := if dir = e.path then e.rt.wal.dir else []

/-- `PushSync` and `HandleSync`: the engine, what was received, and why it stopped. -/
def pushSync (e : VectorEngine) (receive : SyncReceiver) : VectorEngine × List WalEntry × Option SyncFault :=
  let pushed := WalStreamer.pushSince receive (e.logFiles (dataDir e.path)) e.last_synced_lsn
  match pushed.2 with
  | .ok new_lsn => ({e with last_synced_lsn := new_lsn},pushed.1,none)
  | .error fault => (e,pushed.1,some fault)

inductive SyncOp
  | put (id : VectorId) (vec : Vec) (md : Metadata)
  | delete (id : VectorId)
  | freeze (clock : List UInt64)
  | pushSync

def step (receive : SyncReceiver) (e : VectorEngine) : SyncOp → VectorEngine
  | .put id vec md => {e with rt := (e.rt.put [] id vec md).1}
  | .delete id => {e with rt := (e.rt.delete [] id).1}
  | .freeze clock => {e with rt := (e.rt.freeze clock).1}
  | .pushSync => (e.pushSync receive).1

def Delivered (received : List WalEntry) (payload : Bytes) : Prop :=
  ∃ entry ∈ received, (entry.lsn,entry.op,entry.id) = heading payload

/-- Each sync of a run leaves every record of the log delivered, by this sync or by an
earlier one. -/
def Lossless (receive : SyncReceiver) : VectorEngine → List WalEntry → List SyncOp → Prop
  | _,_,[] => True
  | e,received,.pushSync :: ops =>
    (∀ payload ∈ e.rt.wal.recordsIn, Delivered (received ++ (e.pushSync receive).2.1) payload) ∧
      Lossless receive (e.step receive .pushSync) (received ++ (e.pushSync receive).2.1) ops
  | e,received,op :: ops => Lossless receive (e.step receive op) received ops

/-- Each sync of a run comes when the log holds no record. -/
def SyncsIdle (receive : SyncReceiver) : VectorEngine → List SyncOp → Prop
  | _,[] => True
  | e,.pushSync :: ops => e.rt.wal.recordsIn = [] ∧ SyncsIdle receive (e.step receive .pushSync) ops
  | e,op :: ops => SyncsIdle receive (e.step receive op) ops

lemma dataDir_ne (path : String) : dataDir path ≠ path := by
  intro same
  have lengths := congrArg String.length same
  have below : "data".length = 4 ∧ "/data".length = 5 := by decide
  grind [String.length_append,dataDir]

lemma pushSync_nothing (e : VectorEngine) (receive : SyncReceiver) : e.pushSync receive = (e,[],none) := by
  have none_ : e.logFiles (dataDir e.path) = [] := if_neg (dataDir_ne e.path)
  rw [pushSync,none_]
  rfl

/-- Sync loses no record exactly when it is only called on empty logs. -/
theorem sync_lossless_iff (receive : SyncReceiver) (e : VectorEngine) (ops : List SyncOp) :
    Lossless receive e [] ops ↔ SyncsIdle receive e ops := by
  induction ops generalizing e with
  | nil => exact Iff.rfl
  | cons op ops ih =>
    cases op with
    | put id vec md =>
      rw [Lossless,SyncsIdle,ih] <;> nofun
    | delete id =>
      rw [Lossless,SyncsIdle,ih] <;> nofun
    | freeze clock =>
      rw [Lossless,SyncsIdle,ih] <;> nofun
    | pushSync =>
      have nothing := e.pushSync_nothing receive
      have received : ([] : List WalEntry) ++ (e.pushSync receive).2.1 = [] := by rw [nothing]; rfl
      rw [Lossless,SyncsIdle,received,ih]
      refine and_congr_left fun _ => ?_
      constructor
      · intro delivered
        rw [List.eq_nil_iff_forall_not_mem]
        intro payload member
        obtain ⟨entry,none_,_⟩ := delivered payload member
        cases none_
      · grind

def frozenThenPut : VectorRuntime :=
  (((VectorRuntime.openedStore.put [] 1 [7] {}).1.freeze (List.replicate 20 0)).1.put [] 2 [8] {}).1

/-- A record is in the log and is not delivered. Were the log looked for where it is, a
sync after a freeze would skip it still: the log numbers its records from one again,
and the mark stays where it was. -/
theorem sync_delivers_nothing : ¬Lossless WalStreamer.acceptAll ⟨"/db",.openedStore,0⟩ [] [.put 1 [7] {},.pushSync] ∧
      (VectorRuntime.openedStore.put [] 1 [7] {}).2 = .Ok ∧
      (WalStreamer.pushSince WalStreamer.acceptAll (VectorRuntime.openedStore.put [] 1 [7] {}).1.wal.dir 0).2 = .ok 1 ∧
      (WalStreamer.pushSince WalStreamer.acceptAll frozenThenPut.wal.dir 1).1 = [] ∧
      frozenThenPut.wal.recordsIn.length = 1 := by
  refine ⟨?_,by decide +kernel,by decide +kernel,by decide +kernel,by decide +kernel⟩
  rintro ⟨delivered,_⟩
  have held : (VectorRuntime.openedStore.put [] 1 [7] {}).1.wal.recordsIn ≠ [] := by decide +kernel
  obtain ⟨payload,member⟩ := List.exists_mem_of_ne_nil _ held
  obtain ⟨entry,none_,_⟩ := delivered payload member
  rw [pushSync_nothing] at none_
  cases none_

end VectorEngine
end PomaiCache
