import PomaiCache.Basic
import PomaiCache.RingBuffer

/-!
The message kernel and the engine calls on top of it. A call puts a message with pointers into
its own stack frame into the queue and lets the kernel work for a bounded time; it returns its
status variable, which starts as Ok.
-/
namespace PomaiCache
open List

inductive PodId
  | kKernel | kIngestion | kIndex | kQuery | kRag | kGraph | kTimeSeries | kEviction | kCustom
  deriving DecidableEq, Repr

namespace Opcode

def kPut : UInt32 := 0x01
def kGet : UInt32 := 0x02
def kSearch : UInt32 := 0x03
def kDelete : UInt32 := 0x04
def kFlush : UInt32 := 0x05
def kFreeze : UInt32 := 0x06
def kSync : UInt32 := 0x07
def kSearchMultiModal : UInt32 := 0x08
def kExists : UInt32 := 0x09
def kGetSnapshot : UInt32 := 0x0A
def kNewIterator : UInt32 := 0x0B
def kSearchLexical : UInt32 := 0x0C
def kPutBatch : UInt32 := 0x0D
def kPutWithMeta : UInt32 := 0x0E
def kGetWithMeta : UInt32 := 0x0F
def kAddVertex : UInt32 := 0x10
def kAddEdge : UInt32 := 0x11
def kGetNeighbors : UInt32 := 0x12
def kGetNeighborsWithType : UInt32 := 0x13
def kDeleteVertex : UInt32 := 0x14
def kDeleteEdge : UInt32 := 0x15

end Opcode

open Opcode in
def isKnownOpcode (opcode : UInt32) : Bool :=
  [kPut,kGet,kSearch,kDelete,kFlush,kFreeze,kSync,kSearchMultiModal,kExists,kGetSnapshot,kNewIterator,kSearchLexical,
    kPutBatch,kPutWithMeta,kGetWithMeta,kAddVertex,kAddEdge,kGetNeighbors,kGetNeighborsWithType,kDeleteVertex,
    kDeleteEdge].contains opcode

/-- The calls of the storage engine, with what their messages point to. -/
inductive EngineCall
  | append (id : VectorId) (vec : Vec) (md : Metadata)
  | appendBatch (ids : List VectorId) (vectors : List Vec)
  | delete (id : VectorId)
  | get (id : VectorId)
  | flush
  | freeze
  | addVertex (id : UInt64) (tag : UInt32)
  | addEdge (src dst : UInt64) (type rank : UInt32)
  deriving DecidableEq, Repr

namespace EngineCall

def target : EngineCall → PodId
  | addVertex .. => .kGraph
  | addEdge .. => .kGraph
  | _ => .kIndex

def opcode : EngineCall → UInt32
  | append .. => Opcode.kPutWithMeta
  | appendBatch .. => Opcode.kPutBatch
  | delete .. => Opcode.kDelete
  | get .. => Opcode.kGetWithMeta
  | flush => Opcode.kFlush
  | freeze => Opcode.kFreeze
  | addVertex .. => Opcode.kAddVertex
  | addEdge .. => Opcode.kAddEdge

end EngineCall

/-- A message. Its payload and its two pointers refer to the frame of a call; frames are
numbered in the order of the calls. -/
structure Message where
  target : PodId
  opcode : UInt32
  payload : EngineCall
  frame : Nat
  deriving DecidableEq, Repr

/-- The engine with its kernel. `status` are the status variables of the frames, and
`handled` records the frames whose message a pod has handled. -/
structure Engine (σ : Type) where
  pods : σ
  registered : List PodId
  queue : RingBuffer Message 1024
  hooks : Nat
  status : Nat → Status
  handled : List Nat
  frames : Nat
  reads : Nat

/-- What holds when a call returns: its status, whether its message was handled, and
whether the queue has a message of a frame that is gone. -/
structure Return where
  frame : Nat
  status : Status
  handled : Bool
  dangling : Bool
  deriving DecidableEq, Repr

def kKernelHotPathMaxMsgs : Nat := 8
def kKernelHotPathMaxMs : Nat := 2

namespace Engine
variable {σ : Type}

def opened (pods : σ) (registered : List PodId) (hooks reads : Nat) : Engine σ :=
  ⟨pods,registered,.create,hooks,fun _ => .Ok,[],0,reads⟩

def setStatus (e : Engine σ) (frame : Nat) (st : Status) : Engine σ := {e with status := Function.update e.status frame st}

def enqueue (e : Engine σ) (msg : Message) : Engine σ :=
  match e.queue.pushBack msg with
  | some queue => {e with queue := queue}
  | none => e.setStatus msg.frame (.resourceExhausted "Kernel message queue overflow")

section
variable (handle : PodId → σ → EngineCall → σ × Option Status) (clock : Nat → Nat)

variable (e : Engine σ)

/-- What is done with a message that was taken from the queue. A handler that throws has no status. -/
def deliver (msg : Message) : Engine σ :=
  if msg.target ∉ e.registered then e.setStatus msg.frame (.notFound "kernel target pod not found")
  else if !isKnownOpcode msg.opcode then e.setStatus msg.frame (.invalidArgument "kernel opcode unknown")
  else setStatus
    {e with pods := (handle msg.target e.pods msg.payload).1, handled := msg.frame :: e.handled} msg.frame
    ((handle msg.target e.pods msg.payload).2.getD (.internal "kernel pod handler exception"))

def dispatchOne : Option (Engine σ) :=
  e.queue.popFront.map fun popped => deliver handle {e with queue := popped.2} popped.1

/-- The loop of `ProcessBudget`, which looks at the clock before each message. -/
def processLoop (deadline : Nat) : Nat → Engine σ → Engine σ
  | 0,e => e
  | n + 1,e =>
    let late := {e with reads := e.reads + 1}
    if clock e.reads ≥ deadline then late
    else
      match dispatchOne handle late with
      | none => late
      | some after => processLoop deadline n after

def processBudget (max_msgs max_ms : Nat) (e : Engine σ) : Engine σ :=
  let max_msgs := if max_msgs = 0 then 1 else max_msgs
  let max_ms := if max_ms = 0 then 1 else max_ms
  processLoop handle clock (clock e.reads + max_ms * 1000000) max_msgs {e with reads := e.reads + 1}

def enter : Engine σ := {e with frames := e.frames + 1, status := Function.update e.status e.frames .Ok}

def post (c : EngineCall) : Engine σ :=
  processBudget handle clock kKernelHotPathMaxMsgs kKernelHotPathMaxMs (e.enter.enqueue ⟨c.target,c.opcode,c,e.frames⟩)

def ret (live : List Nat) (frame : Nat) : Return :=
  ⟨frame,e.status frame,decide (frame ∈ e.handled),e.queue.contents.any fun msg => decide (msg.frame ∉ live)⟩

/-- The hooks after an append: each one adds an edge to the source of the vector. -/
def runHooks (outer : Nat) (id : VectorId) (md : Metadata) : Nat → Engine σ → Engine σ × List Return
  | 0,e => (e,[])
  | n + 1,e =>
    if md.src_vid ≠ 0 then
      let after := e.post handle clock (.addEdge id md.src_vid 1 0)
      let later := runHooks outer id md n after
      (later.1,after.ret [outer] e.frames :: later.2)
    else runHooks outer id md n e

/-- A call, and what holds when it and the calls of its hooks return. The hooks of a batch
get default metadata, which has no source, and do nothing. -/
def call (c : EngineCall) : Engine σ × List Return :=
  let posted := e.post handle clock c
  match c with
  | .append id _ md =>
    if (posted.status e.frames).ok then
      let hooked := runHooks handle clock e.frames id md posted.hooks posted
      (hooked.1,hooked.2 ++ [hooked.1.ret [] e.frames])
    else (posted,[posted.ret [] e.frames])
  | _ => (posted,[posted.ret [] e.frames])

def run (e : Engine σ) : List EngineCall → Engine σ × List Return
  | [] => (e,[])
  | c :: calls =>
    let here := e.call handle clock c
    let later := run here.1 calls
    (later.1,here.2 ++ later.2)

/-! ### What a call does to an idle kernel -/

def moved (queue : RingBuffer Message 1024) (reads : Nat) : Engine σ := {e with queue := queue, reads := reads}

variable {handle clock}

variable {e : Engine σ} {c : EngineCall}

variable (handle clock) in
lemma processLoop_idle (deadline n : Nat) (idle : e.queue.contents = []) :
    ∃ reads, processLoop handle clock deadline n e = e.moved e.queue reads := by
  cases n with
  | zero => exact ⟨e.reads,rfl⟩
  | succ n =>
    rw [processLoop]
    have none_ : dispatchOne handle {e with reads := e.reads + 1} = none := by
      rw [dispatchOne,RingBuffer.popFront_nil idle]
      rfl
    rw [none_]
    exact ⟨e.reads + 1,by split <;> rfl⟩

lemma processLoop_delivers {deadline n : Nat} {msg : Message} {queue : RingBuffer Message 1024}
    (early : clock e.reads < deadline) (popped : e.queue.popFront = some (msg,queue)) :
    processLoop handle clock deadline (n + 1) e =
      processLoop handle clock deadline n (deliver handle (e.moved queue (e.reads + 1)) msg) := by
  have dispatched : dispatchOne handle {e with reads := e.reads + 1} = some (deliver handle (e.moved queue (e.reads + 1)) msg) := by
    rw [dispatchOne,popped]
    rfl
  rw [processLoop,if_neg (not_le.mpr early),dispatched]

lemma deliver_moved (e : Engine σ) (msg : Message) (queue : RingBuffer Message 1024) (reads : Nat) :
    deliver handle (e.moved queue reads) msg = (deliver handle e msg).moved queue reads := by
  unfold deliver
  by_cases known : msg.target ∉ e.registered
  · rw [if_pos known]
    exact if_pos known
  · rw [if_neg known]
    refine (if_neg known).trans ?_
    split <;> rfl

lemma enqueue_idle (idle : e.queue.contents = []) (msg : Message) :
    ∃ queue, e.enqueue msg = e.moved queue e.reads ∧ queue.contents = [msg] := by
  obtain ⟨queue,pushed,held⟩ := RingBuffer.pushBack_contents (r := e.queue) (by rw [idle]; decide) msg
  rw [idle] at held
  refine ⟨queue,?_,held⟩
  rw [enqueue,pushed]
  rfl

lemma processBudget_hot (e : Engine σ) : processBudget handle clock kKernelHotPathMaxMsgs kKernelHotPathMaxMs e =
      processLoop handle clock (clock e.reads + kKernelHotPathMaxMs * 1000000) kKernelHotPathMaxMsgs
        (e.moved e.queue (e.reads + 1)) := by
  rfl

def Prompt (clock : Nat → Nat) (e : Engine σ) : Prop :=
  clock (e.reads + 1) < clock e.reads + kKernelHotPathMaxMs * 1000000

variable (handle) in
lemma post_prompt (idle : e.queue.contents = []) (prompt : e.Prompt clock) (c : EngineCall) :
    ∃ queue reads, queue.contents = [] ∧ e.post handle clock c =
      (deliver handle e.enter ⟨c.target,c.opcode,c,e.frames⟩).moved queue reads := by
  obtain ⟨queue,enqueued,held⟩ := enqueue_idle (e := e.enter) idle ⟨c.target,c.opcode,c,e.frames⟩
  obtain ⟨rest,popped,none_⟩ := RingBuffer.popFront_cons held
  obtain ⟨reads,looped⟩ := processLoop_idle handle clock (clock e.reads + kKernelHotPathMaxMs * 1000000) 7
    (e := (deliver handle e.enter ⟨c.target,c.opcode,c,e.frames⟩).moved rest (e.reads + 2)) none_
  refine ⟨rest,reads,none_,?_⟩
  rw [post,enqueued,processBudget_hot]
  refine (processLoop_delivers (n := 7) prompt popped).trans ?_
  refine Eq.trans ?_ looped
  rw [← deliver_moved]
  rfl

variable (handle) in
lemma post_late (idle : e.queue.contents = []) (late : ¬ e.Prompt clock) (c : EngineCall) :
    ∃ queue reads, queue.contents = [⟨c.target,c.opcode,c,e.frames⟩] ∧ e.post handle clock c = e.enter.moved queue reads := by
  obtain ⟨queue,enqueued,held⟩ := enqueue_idle (e := e.enter) idle ⟨c.target,c.opcode,c,e.frames⟩
  refine ⟨queue,e.reads + 2,held,?_⟩
  rw [post,enqueued,processBudget_hot,kKernelHotPathMaxMsgs,processLoop]
  exact if_pos (not_lt.mp late)

/-- A call that returns Ok was executed, and no message of a frame that is gone is left. -/
def Acknowledged (r : Return) : Prop := (r.status.ok → r.handled = true) ∧ r.dangling = false

/-- What a call on an idle kernel leaves, if it comes in time. -/
structure Settled (before after : Engine σ) : Prop where
  idle : after.queue.contents = []
  hooks : after.hooks = before.hooks
  executed : (after.status before.frames).ok → before.frames ∈ after.handled
  others : ∀ frame, frame ≠ before.frames → after.status frame = before.status frame ∧
    (frame ∈ before.handled → frame ∈ after.handled)
  entered : after.frames = before.frames + 1

variable (handle) in
lemma post_settled (idle : e.queue.contents = []) (prompt : e.Prompt clock) (c : EngineCall) :
    Settled e (e.post handle clock c) := by
  obtain ⟨queue,reads,none_,same⟩ := post_prompt handle idle prompt c
  rw [same]
  unfold deliver
  by_cases known : (⟨c.target,c.opcode,c,e.frames⟩ : Message).target ∉ e.enter.registered
  · rw [if_pos known]
    refine ⟨none_,rfl,?_,fun frame other => ⟨?_,id⟩,rfl⟩
    · simp [moved,setStatus]
    · simp [moved,setStatus,enter,other]
  · rw [if_neg known]
    split
    · refine ⟨none_,rfl,?_,fun frame other => ⟨?_,id⟩,rfl⟩
      · simp [moved,setStatus]
      · simp [moved,setStatus,enter,other]
    · refine ⟨none_,rfl,fun _ => mem_cons_self,fun frame other => ⟨?_,mem_cons_of_mem _⟩,rfl⟩
      simp [moved,setStatus,enter,other]

lemma Settled.acknowledged {before after : Engine σ} (settled : Settled before after) (live : List Nat) :
    Acknowledged (after.ret live before.frames) := by
  refine ⟨fun ok => decide_eq_true (settled.executed ok),?_⟩
  rw [ret,settled.idle]
  rfl

def PromptHooks (handle : PodId → σ → EngineCall → σ × Option Status) (clock : Nat → Nat) (id : VectorId) (md : Metadata) :
    Nat → Engine σ → Prop
  | 0,_ => True
  | n + 1,e =>
    if md.src_vid ≠ 0 then e.Prompt clock ∧ PromptHooks handle clock id md n (e.post handle clock (.addEdge id md.src_vid 1 0))
    else PromptHooks handle clock id md n e

def PromptCall (handle : PodId → σ → EngineCall → σ × Option Status) (clock : Nat → Nat) (e : Engine σ) (c : EngineCall) : Prop :=
  e.Prompt clock ∧ match c with
    | .append id _ md => ((e.post handle clock c).status e.frames).ok →
        PromptHooks handle clock id md (e.post handle clock c).hooks (e.post handle clock c)
    | _ => True

lemma PromptCall.intro (prompt : e.Prompt clock)
    (hooks : ∀ id md, PromptHooks handle clock id md (e.post handle clock c).hooks (e.post handle clock c)) :
    PromptCall handle clock e c := by
  refine ⟨prompt,?_⟩
  grind

def PromptRun (handle : PodId → σ → EngineCall → σ × Option Status) (clock : Nat → Nat) : Engine σ → List EngineCall → Prop
  | _,[] => True
  | e,c :: calls => PromptCall handle clock e c ∧ PromptRun handle clock (e.call handle clock c).1 calls

variable (handle) in
lemma runHooks_settled {outer : Nat} {id : VectorId} {md : Metadata} {n : Nat} (idle : e.queue.contents = [])
    (prompt : PromptHooks handle clock id md n e) (executed : outer ∈ e.handled) (older : outer < e.frames) :
    (runHooks handle clock outer id md n e).1.queue.contents = [] ∧ outer ∈ (runHooks handle clock outer id md n e).1.handled ∧
      ∀ r ∈ (runHooks handle clock outer id md n e).2, Acknowledged r := by
  induction n generalizing e with
  | zero => exact ⟨idle,executed,by simp [runHooks]⟩
  | succ n ih =>
    rw [PromptHooks] at prompt
    rw [runHooks]
    by_cases linked : md.src_vid ≠ 0
    · rw [if_pos linked] at prompt ⊢
      have settled := post_settled handle idle prompt.1 (.addEdge id md.src_vid 1 0)
      obtain ⟨idle',executed',returns⟩ := ih settled.idle prompt.2 ((settled.others outer (by omega)).2 executed)
        (by rw [settled.entered]; omega)
      refine ⟨idle',executed',fun r member => ?_⟩
      rcases mem_cons.mp member with rfl | later
      · exact settled.acknowledged [outer]
      · exact returns r later
    · grind

/-- The kernel is idle, and all that returned was acknowledged rightly. -/
def Quiet (ran : Engine σ × List Return) : Prop := ran.1.queue.contents = [] ∧ ∀ r ∈ ran.2, Acknowledged r

lemma Quiet.of_eq {ran : Engine σ × List Return} {returns : List Return} (same : ran = (e,returns))
    (idle : e.queue.contents = []) (all : ∀ r ∈ returns, Acknowledged r) : Quiet ran := by
  subst same
  exact ⟨idle,all⟩

def returning (frame : Nat) (hooked : Engine σ × List Return) : Engine σ × List Return :=
  (hooked.1,hooked.2 ++ [hooked.1.ret [] frame])

lemma returning_quiet {frame : Nat} {hooked : Engine σ × List Return} (quiet : Quiet hooked) (executed : frame ∈ hooked.1.handled) :
    Quiet (returning frame hooked) := by
  refine ⟨quiet.1,fun r member => ?_⟩
  rcases mem_append.mp member with inner | last
  · exact quiet.2 r inner
  · rw [mem_singleton.mp last]
    refine ⟨fun _ => decide_eq_true executed,?_⟩
    rw [ret,quiet.1]
    rfl

lemma call_append_ok {id : VectorId} {vec : Vec} {md : Metadata}
    (ok : ((e.post handle clock (.append id vec md)).status e.frames).ok = true) :
    e.call handle clock (.append id vec md) = returning e.frames
      (runHooks handle clock e.frames id md (e.post handle clock (.append id vec md)).hooks
        (e.post handle clock (.append id vec md))) := if_pos ok

lemma call_cases (handle : PodId → σ → EngineCall → σ × Option Status) (clock : Nat → Nat) (e : Engine σ) (c : EngineCall) :
    e.call handle clock c = (e.post handle clock c,[(e.post handle clock c).ret [] e.frames]) ∨
      ∃ id vec md, c = .append id vec md ∧ ((e.post handle clock c).status e.frames).ok = true := by
  cases c with
  | append id vec md =>
    by_cases ok : ((e.post handle clock (.append id vec md)).status e.frames).ok = true
    · exact .inr ⟨id,vec,md,rfl,ok⟩
    · exact .inl (if_neg ok)
  | appendBatch ids vectors => exact .inl rfl
  | delete id => exact .inl rfl
  | get id => exact .inl rfl
  | flush => exact .inl rfl
  | freeze => exact .inl rfl
  | addVertex id tag => exact .inl rfl
  | addEdge src dst type rank => exact .inl rfl

lemma call_settled (idle : e.queue.contents = []) (prompt : PromptCall handle clock e c) : Quiet (e.call handle clock c) := by
  have settled := post_settled handle idle prompt.1 c
  rcases call_cases handle clock e c with plain | ⟨id,vec,md,rfl,ok⟩
  · apply Quiet.of_eq plain settled.idle
    intro r member
    rw [mem_singleton.mp member]
    exact settled.acknowledged []
  · rw [call_append_ok ok]
    obtain ⟨idle',executed,returns⟩ := runHooks_settled handle settled.idle (prompt.2 ok) (settled.executed ok)
      (by rw [settled.entered]; omega)
    exact returning_quiet ⟨idle',returns⟩ executed

/-- Every run whose calls come in time is acknowledged only for what was executed, and
leaves the kernel idle. -/
lemma run_settled (idle : e.queue.contents = []) (prompt : PromptRun handle clock e calls) : Quiet (e.run handle clock calls) := by
  induction calls generalizing e with
  | nil => exact ⟨idle,by simp [run]⟩
  | cons c calls ih =>
    obtain ⟨idle',here⟩ := call_settled idle prompt.1
    obtain ⟨idle'',later⟩ := ih idle' prompt.2
    refine ⟨idle'',fun r member => ?_⟩
    rcases mem_append.mp member with now | after
    · exact here r now
    · exact later r after

lemma call_unhooked (unhooked : (e.post handle clock c).hooks = 0) :
    e.call handle clock c = (e.post handle clock c,[(e.post handle clock c).ret [] e.frames]) := by
  rcases call_cases handle clock e c with plain | ⟨id,vec,md,rfl,ok⟩
  · exact plain
  · rw [call_append_ok ok,unhooked]
    rfl

lemma run_prompt (idle : e.queue.contents = []) (unhooked : e.hooks = 0)
    (all : ∀ r ∈ (e.run handle clock calls).2, Acknowledged r) : PromptRun handle clock e calls := by
  induction calls generalizing e with
  | nil => trivial
  | cons c calls ih =>
    have here : ∀ r ∈ (e.call handle clock c).2, Acknowledged r := fun r member => all r (mem_append_left _ member)
    by_cases prompt : e.Prompt clock
    · have settled := post_settled handle idle prompt c
      have none_ : (e.post handle clock c).hooks = 0 := settled.hooks.trans unhooked
      constructor
      · apply PromptCall.intro prompt
        intro id md
        rw [none_]
        trivial
      · have after : (e.call handle clock c).1 = e.post handle clock c := by rw [call_unhooked none_]
        refine ih (by rw [after]; exact settled.idle) (by rw [after]; exact none_) fun r member => ?_
        exact all r (mem_append_right _ member)
    · -- the message of a late call is left behind
      obtain ⟨queue,reads,held,same⟩ := post_late handle idle prompt c
      have none_ : (e.post handle clock c).hooks = 0 := by
        rw [same]
        exact unhooked
      rw [call_unhooked none_] at here
      have dangling := (here _ (.head _)).2
      rw [ret,same] at dangling
      have left_ : (e.enter.moved queue reads).queue.contents = [⟨c.target,c.opcode,c,e.frames⟩] := held
      rw [left_] at dangling
      cases dangling

/-- On an engine that has been opened, if every call comes in time then a call that returns
Ok was executed and no message of a frame that is gone is left, and without hooks only then. -/
theorem acknowledged_executed (handle : PodId → σ → EngineCall → σ × Option Status) (clock : Nat → Nat) (pods : σ)
    (registered : List PodId) (hooks reads : Nat) (calls : List EngineCall) :
    (PromptRun handle clock (opened pods registered hooks reads) calls →
      (∀ r ∈ ((opened pods registered hooks reads).run handle clock calls).2, Acknowledged r) ∧
        ((opened pods registered hooks reads).run handle clock calls).1.queue.contents = []) ∧
    (hooks = 0 → (∀ r ∈ ((opened pods registered hooks reads).run handle clock calls).2, Acknowledged r) →
      PromptRun handle clock (opened pods registered hooks reads) calls) := by
  have idle : (opened pods registered hooks reads).queue.contents = [] := RingBuffer.contents_create
  constructor
  · intro prompt
    obtain ⟨idle',returns⟩ := run_settled idle prompt
    exact ⟨returns,idle'⟩
  · intro unhooked all
    exact run_prompt idle unhooked all

lemma promptRun_of_steady (steady : ∀ n, clock (n + 1) < clock n + kKernelHotPathMaxMs * 1000000) (e : Engine σ)
    (calls : List EngineCall) : PromptRun handle clock e calls := by
  have hooks : ∀ (id : VectorId) (md : Metadata) (n : Nat) (e : Engine σ), PromptHooks handle clock id md n e := by
    intro id md n
    induction n with
    | zero => exact fun _ => trivial
    | succ n ih =>
      intro e
      rw [PromptHooks]
      split
      · exact ⟨steady e.reads,ih _⟩
      · exact ih e
  induction calls generalizing e with
  | nil => trivial
  | cons c calls ih =>
    exact ⟨.intro (steady e.reads) fun id md => hooks id md _ _,ih _⟩

end

def countingPods : PodId → Nat → EngineCall → Nat × Option Status := fun _ n _ => (n + 1,some .Ok)

theorem acknowledged_executed_hooked : (∀ r ∈ ((opened 0 [.kIndex,.kGraph,.kQuery] 1 0).run countingPods (fun n => n * 1000)
      [.append 1 [7] {src_vid := 5},.delete 1]).2, Acknowledged r) ∧
    ((opened 0 [.kIndex,.kGraph,.kQuery] 1 0).run countingPods (fun n => n * 1000)
      [.append 1 [7] {src_vid := 5},.delete 1]).1.pods = 3 := by
  refine ⟨((acknowledged_executed countingPods (fun n => n * 1000) 0 [.kIndex,.kGraph,.kQuery] 1 0 _).1
    (promptRun_of_steady (fun n => ?_) _ _)).1,by decide +kernel⟩
  show (n + 1) * 1000 < n * 1000 + kKernelHotPathMaxMs * 1000000
  rw [kKernelHotPathMaxMs]
  omega

def lateClock (n : Nat) : Nat := if n = 0 then 5 else 3000005

theorem acknowledged_lost_message : (∀ n, lateClock n ≤ lateClock (n + 1)) ∧
    ((opened 0 [.kIndex,.kGraph,.kQuery] 0 0).run countingPods lateClock [.append 1 [7] {}]).2 = [⟨0,.Ok,false,true⟩] ∧
    ((opened 0 [.kIndex,.kGraph,.kQuery] 0 0).run countingPods lateClock [.append 1 [7] {}]).1.pods = 0 ∧
    ((opened 0 [.kIndex,.kGraph,.kQuery] 0 0).run countingPods lateClock [.append 1 [7] {},.get 2]).1.pods = 2 := by
  refine ⟨fun n => ?_,by decide +kernel,by decide +kernel,by decide +kernel⟩
  cases n <;> simp [lateClock]

end Engine
end PomaiCache
