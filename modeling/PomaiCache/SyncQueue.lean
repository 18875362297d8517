import PomaiCache.Gateway

/-!
The queue of events for the upstream, over any number of lives of the gateway. Events leave it at
the front: delivered, given up after eight posts or crowded out. A restart forgets those that are
left, and also the checkpoint, which is saved but never loaded.
-/
namespace PomaiCache
open List EdgeGateway

structure QueuedEvent where
  event : SyncEvent
  retry_count : UInt32 := 0

/-- How an event left the queue; `stale` is the pop that leaves no trace. -/
inductive Fate
  | dropped
  | delivered
  | deadLetter
  | stale
  | lost
  deriving DecidableEq

/-- The members of the gateway that the queue needs, with the events that were enqueued and how
those that are gone left the queue. -/
structure SyncState where
  ingest_seq : UInt64
  sync_queue : List QueuedEvent := []
  sync_checkpoint_seq : UInt64 := 0
  last_sync_attempt_unix_ms : UInt64 := 0
  enqueued : List SyncEvent := []
  gone : List (SyncEvent × Fate) := []

namespace SyncState

def leave (s : SyncState) (fate : Fate) : SyncState :=
  {s with
    sync_queue := s.sync_queue.drop 1
    gone := s.gone ++ (s.sync_queue.take 1).map fun q => (q.event,fate)}

def enqueueSyncEvent (s : SyncState) (ev : SyncEvent) : SyncState :=
  let s := if s.sync_queue.length ≥ sync_max_queue then s.leave .dropped else s
  {s with sync_queue := s.sync_queue ++ [⟨ev,0⟩], enqueued := s.enqueued ++ [ev]}

/-- An accepted ingest takes the next number for its event. -/
def accept (s : SyncState) (ev : SyncEvent) : SyncState :=
  enqueueSyncEvent {s with ingest_seq := s.ingest_seq + 1} {ev with seq := s.ingest_seq + 1}

/-- `ProcessSync` at a time, for a URL that can be parsed or not and a post that succeeds or not. -/
def processSync (s : SyncState) (now_ms : UInt64) (parsed posted : Bool) : SyncState :=
  match s.sync_queue with
  | [] => s
  | front :: rest =>
    let retry_wait_ms := min 30000 (1000 * UInt64.ofNat (2 ^ min front.retry_count.toNat 8))
    if now_ms < s.last_sync_attempt_unix_ms + retry_wait_ms then s
    else if !parsed then s
    else if front.event.seq ≤ s.sync_checkpoint_seq then s.leave .stale
    else
      let s := {s with last_sync_attempt_unix_ms := now_ms}
      if posted then {s.leave .delivered with sync_checkpoint_seq := front.event.seq}
      else
        let front := {front with retry_count := front.retry_count + 1}
        if (8 : UInt32) ≤ front.retry_count then s.leave .deadLetter else {s with sync_queue := front :: rest}

def restart (s : SyncState) : SyncState :=
  {ingest_seq := s.ingest_seq, enqueued := s.enqueued, gone := s.gone ++ s.sync_queue.map fun q => (q.event,.lost)}

inductive Step
  | ingest (ev : SyncEvent)
  | process (now_ms : UInt64) (parsed posted : Bool)
  | restart

def step (s : SyncState) : Step → SyncState
  | .ingest ev => s.accept ev
  | .process now_ms parsed posted => s.processSync now_ms parsed posted
  | .restart => s.restart

/-- The queue is the queue of the gateway. -/
lemma enqueueSyncEvent_queue {opt : GatewayOptions} {g : EdgeGateway} {s : SyncState} (enabled : opt.gateway_upstream_sync_enabled = true)
    (url : opt.gateway_upstream_sync_url ≠ []) (same : g.sync_queue = s.sync_queue.map QueuedEvent.event) (ev : SyncEvent) :
    (g.enqueueSyncEvent opt ev).sync_queue = (s.enqueueSyncEvent ev).sync_queue.map QueuedEvent.event := by
  rw [EdgeGateway.enqueueSyncEvent,if_neg (by simp [enabled,url]),enqueueSyncEvent,same]
  by_cases full : s.sync_queue.length ≥ sync_max_queue <;> simp [full,leave]

/-- Every event is in one place, in the order of the numbers. -/
structure Accounted (s : SyncState) : Prop where
  split : s.enqueued = s.gone.map Prod.fst ++ s.sync_queue.map QueuedEvent.event
  ascending : s.enqueued.Pairwise fun a b => a.seq < b.seq
  waiting : ∀ q ∈ s.sync_queue, s.sync_checkpoint_seq < q.event.seq ∧ q.retry_count < 8
  traced : ∀ e ∈ s.gone, e.2 ≠ .stale

structure Inv (s : SyncState) : Prop extends Accounted s where
  numbered : ∀ ev ∈ s.enqueued, ev.seq ≤ s.ingest_seq
  checkpoint_le : s.sync_checkpoint_seq ≤ s.ingest_seq

namespace Inv
variable {s : SyncState}

lemma leave (inv : Inv s) {fate : Fate} (traced : fate ≠ .stale) : Inv (s.leave fate) := by
  exact {
    inv with
    split := by
      rw [SyncState.leave,inv.split]
      cases s.sync_queue <;> simp
    waiting := fun q member => inv.waiting q (mem_of_mem_drop member)
    traced := by
      simp only [SyncState.leave,forall_mem_append,forall_mem_map]
      exact ⟨inv.traced,fun _ _ => traced⟩ }

lemma push (inv : Inv s) (ev : SyncEvent) (next : s.ingest_seq < ev.seq) :
    Inv {s with ingest_seq := ev.seq, sync_queue := s.sync_queue ++ [⟨ev,0⟩], enqueued := s.enqueued ++ [ev]} := by
  have older : ∀ old ∈ s.enqueued, old.seq < ev.seq := fun old member => UInt64.lt_of_le_of_lt (inv.numbered old member) next
  exact {
    split := by simp [inv.split]
    ascending := pairwise_append.mpr ⟨inv.ascending,pairwise_singleton _ _,by simpa using older⟩
    waiting := by
      simp only [forall_mem_append,forall_mem_singleton]
      exact ⟨inv.waiting,UInt64.lt_of_le_of_lt inv.checkpoint_le next,by decide⟩
    traced := inv.traced
    numbered := by
      simp only [forall_mem_append,forall_mem_singleton]
      exact ⟨fun old member => UInt64.le_of_lt (older old member),UInt64.le_refl _⟩
    checkpoint_le := UInt64.le_of_lt (UInt64.lt_of_le_of_lt inv.checkpoint_le next) }

lemma accept (inv : Inv s) (ev : SyncEvent) (small : s.ingest_seq.toNat + 1 < 2 ^ 64) : Inv (s.accept ev) := by
  have next : s.ingest_seq < s.ingest_seq + 1 := by
    rw [UInt64.lt_iff_toNat_lt,UInt64.toNat_add]
    simp
    omega
  unfold SyncState.accept enqueueSyncEvent
  split
  · exact (inv.leave (by decide)).push {ev with seq := s.ingest_seq + 1} next
  · exact inv.push {ev with seq := s.ingest_seq + 1} next

lemma processSync (inv : Inv s) (now_ms : UInt64) (parsed posted : Bool) : Inv (s.processSync now_ms parsed posted) := by
  rw [SyncState.processSync]
  split
  · exact inv
  next front rest queue =>
  have here : front ∈ s.sync_queue := queue ▸ .head _
  -- The front is above the checkpoint, so the branch without a trace is not taken.
  have low : ¬front.event.seq ≤ s.sync_checkpoint_seq := UInt64.not_le.mpr (inv.waiting front here).1
  have behind : ∀ q ∈ rest, q ∈ s.sync_queue := fun q member => queue ▸ .tail _ member
  dsimp only
  rw [if_neg low]
  split
  · exact inv
  split
  · exact inv
  split
  · have event : front.event ∈ s.enqueued := by simp [inv.split,queue]
    have rising := inv.ascending
    rw [inv.split,queue] at rising
    exact {
      inv.leave (show Fate.delivered ≠ .stale by decide) with
      -- What is behind the delivered event is above the new checkpoint, as the numbers ascend.
      waiting := fun q member => by
        rw [SyncState.leave,queue] at member
        exact ⟨(pairwise_cons.mp (pairwise_append.mp rising).2.1).1 q.event (mem_map_of_mem member),(inv.waiting q (behind q member)).2⟩
      checkpoint_le := inv.numbered _ event }
  split
  · exact {inv.leave (show Fate.deadLetter ≠ .stale by decide) with}
  · next again =>
    exact {
      inv with
      split := by simp [inv.split,queue]
      waiting := forall_mem_cons.mpr ⟨⟨(inv.waiting front here).1,UInt32.not_le.mp again⟩,fun q member => inv.waiting q (behind q member)⟩ }

lemma restart (inv : Inv s) : Inv s.restart where
  split := by simp [SyncState.restart,inv.split]
  ascending := inv.ascending
  waiting := by simp [SyncState.restart]
  traced := by
    simp only [SyncState.restart,forall_mem_append,forall_mem_map]
    exact ⟨inv.traced,fun _ _ => by decide⟩
  numbered := inv.numbered
  checkpoint_le := UInt64.zero_le

end Inv

/-- One ingest takes one number; nothing else takes any. -/
lemma step_seq (s : SyncState) (c : Step) : (s.step c).ingest_seq.toNat ≤ s.ingest_seq.toNat + 1 := by
  cases c with
  | ingest ev =>
    rw [step,accept,enqueueSyncEvent]
    split <;> exact Nat.le_trans (Nat.mod_le ..) (Nat.le_refl _)
  | process now_ms parsed posted =>
    unfold step processSync
    dsimp only
    split <;> [skip;split_ifs] <;> exact Nat.le_succ _
  | restart => exact Nat.le_succ _

lemma Inv.run {s : SyncState} (inv : Inv s) (steps : List Step) (small : s.ingest_seq.toNat + steps.length < 2 ^ 64) :
    Inv (steps.foldl step s) := by
  induction steps generalizing s with
  | nil => exact inv
  | cons c rest ih =>
    rw [length_cons] at small
    have seq := step_seq s c
    refine ih ?_ (by omega)
    cases c with
    | ingest ev => exact inv.accept ev (by omega)
    | process now_ms parsed posted => exact inv.processSync now_ms parsed posted
    | restart => exact inv.restart

/-- As long as the numbers do not wrap around, the events leave the queue in the order they were
enqueued in, each with a trace, and what is left stands above the checkpoint. -/
theorem sync_run_accounted (start : UInt64) (steps : List Step) (small : start.toNat + steps.length < 2 ^ 64) :
    Accounted (steps.foldl step {ingest_seq := start}) := by
  have inv : Inv {ingest_seq := start} := by constructor <;> [constructor;skip;skip] <;> simp
  exact (inv.run steps small).toAccounted

theorem sync_run_restarted : Accounted ([Step.ingest {type := [], membrane := []},.process 2000 true true,
    .ingest {type := [], membrane := []},.process 9000 true false,.restart].foldl step {ingest_seq := 7}) :=
  sync_run_accounted 7 _ (by decide)

end SyncState
end PomaiCache
