import PomaiCache.AgentMemory
import PomaiCache.IteratorReads

/-!
The ids the agent memory gives out. Opening walks an iterator over a snapshot of the database
for the largest id in use, but the iterator stands on its first entry when it is made and the
walk moves on before it reads: the first entry is never looked at.
-/
namespace PomaiCache
open Layers List

/-- What the agent memory uses of a database: whether an id is still stored, the ids of an
iterator over a new snapshot in its order, and `AddVector` with its background work. -/
structure AgentDatabase (D : Type) where
  stored : D → VectorId → Bool
  listing : D → List VectorId
  addVector : D → VectorId → Vec → Metadata → D × Status

structure AgentDatabase.Lawful {D : Type} (lib : AgentDatabase D) : Prop where
  adds : ∀ d id vec md x, lib.stored (lib.addVector d id vec md).1 x = true → x = id ∨ lib.stored d x = true

def maxId (ids : List VectorId) (max_id : VectorId) : VectorId :=
  ids.foldl (fun max_id id => if id > max_id then id else max_id) max_id

lemma le_maxId (ids : List VectorId) (max_id : VectorId) :
    max_id.toNat ≤ (maxId ids max_id).toNat ∧ ∀ x ∈ ids, x.toNat ≤ (maxId ids max_id).toNat := by
  induction ids generalizing max_id with
  | nil => simp [maxId]
  | cons id rest ih =>
    obtain ⟨kept,larger⟩ := ih (if id > max_id then id else max_id)
    have here : max_id.toNat ≤ (if id > max_id then id else max_id).toNat ∧
        id.toNat ≤ (if id > max_id then id else max_id).toNat := by
      by_cases more : id > max_id
      · simp only [if_pos more]
        exact ⟨Nat.le_of_lt (UInt64.lt_iff_toNat_lt.mp more),Nat.le_refl _⟩
      · simp only [if_neg more]
        exact ⟨Nat.le_refl _,by simpa [UInt64.lt_iff_toNat_lt] using more⟩
    refine ⟨here.1.trans kept,?_⟩
    intro x member
    rcases mem_cons.mp member with rfl | later
    · exact here.2.trans kept
    · exact larger x later

lemma maxId_lt {ids : List VectorId} {max_id : VectorId} {bound : Nat} (start : max_id.toNat < bound)
    (below : ∀ x ∈ ids, x.toNat < bound) : (maxId ids max_id).toNat < bound := by
  induction ids generalizing max_id with
  | nil => exact start
  | cons id rest ih =>
    refine ih ?_ fun x member => below x (.tail _ member)
    beta_reduce
    split
    · exact below id (.head _)
    · exact start

structure AgentSession (D : Type) where
  db : D
  next_id : VectorId

namespace AgentSession
variable {D : Type} (lib : AgentDatabase D)

/-- `Open`: the walk `while (it->Next())` leaves out the entry the iterator stands on first. -/
def open_ (d : D) : AgentSession D := ⟨d,maxId (lib.listing d).tail 0 + 1⟩

/-- An id is taken and the record is added under it; the id is used up even if that fails. -/
def add (s : AgentSession D) (rec_ : AgentMemoryRecord) : AgentSession D × Status :=
  let done := lib.addVector s.db s.next_id rec_.embedding {tenant := AgentMemory.encodeMetadata rec_}
  (⟨done.1,s.next_id + 1⟩,done.2)

/-- The loop of `AppendBatch`, with each id and the database it is given out for. -/
def addAll (s : AgentSession D) : List AgentMemoryRecord → AgentSession D × List (D × VectorId) × Status
  | [] => (s,[],.Ok)
  | rec_ :: rest =>
    let added := s.add lib rec_
    if added.2.ok then
      let done := addAll added.1 rest
      (done.1,(s.db,s.next_id) :: done.2.1,done.2.2)
    else (added.1,[(s.db,s.next_id)],added.2)

/-- A call on a path. Where a record was added, `tidy` is what `TryFreezeIfPressured`,
`PruneOld` and `PruneDeviceWide` do; `reopened` is what the database is after it was
closed and opened again. -/
inductive Call (D : Type)
  | appendMessage (rec_ : AgentMemoryRecord) (tidy : D → D)
  | appendBatch (records : List AgentMemoryRecord) (tidy : D → D)
  | reopen (reopened : D → D)

variable (dim : UInt32)

/-- The session after a call, and the ids it gave out with the database of that moment. -/
def call (s : AgentSession D) : Call D → AgentSession D × List (D × VectorId)
  | .appendMessage rec_ tidy =>
    if rec_.embedding.length ≠ dim.toNat then (s,[])
    else
      let added := s.add lib rec_
      (if added.2.ok then {added.1 with db := tidy added.1.db} else added.1,[(s.db,s.next_id)])
  | .appendBatch records tidy =>
    if records.any fun rec_ => rec_.embedding.length ≠ dim.toNat then (s,[])
    else
      let done := s.addAll lib records
      (if !records.isEmpty && done.2.2.ok then {done.1 with db := tidy done.1.db} else done.1,done.2.1)
  | .reopen reopened => (open_ lib (reopened s.db),[])

def run (s : AgentSession D) : List (Call D) → AgentSession D × List (D × VectorId)
  | [] => (s,[])
  | c :: rest =>
    let done := s.call lib dim c
    let later := run done.1 rest
    (later.1,done.2 ++ later.2)

/-- The database loses nothing when it is opened again, and background work adds nothing. -/
def Call.Keeps : Call D → Prop
  | .appendMessage _ tidy => ∀ d x, lib.stored (tidy d) x = true → lib.stored d x = true
  | .appendBatch _ tidy => ∀ d x, lib.stored (tidy d) x = true → lib.stored d x = true
  | .reopen reopened => ∀ d x, lib.stored (reopened d) x = lib.stored d x

/-- Behind the first entry, the iterator shows an id at least as large as every stored one,
and never the last id there is. -/
def Shown (d : D) : Prop :=
  (∀ x, lib.stored d x = true → ∃ y ∈ (lib.listing d).tail, x.toNat ≤ y.toNat) ∧ ∀ y ∈ (lib.listing d).tail, y.toNat < 2 ^ 64 - 1

/-- There are ids left for the call, and an opening finds the largest id in use. -/
def Call.Safe (s : AgentSession D) : Call D → Prop
  | .appendMessage _ _ => s.next_id.toNat + 1 < 2 ^ 64
  | .appendBatch records _ => s.next_id.toNat + records.length < 2 ^ 64
  | .reopen reopened => Shown lib (reopened s.db)

def SafeRun (s : AgentSession D) : List (Call D) → Prop
  | [] => True
  | c :: rest => c.Safe lib s ∧ SafeRun (s.call lib dim c).1 rest

def Below (s : AgentSession D) : Prop := ∀ x, lib.stored s.db x = true → x.toNat < s.next_id.toNat

variable {lib} {dim} {s : AgentSession D}

lemma open_below {d : D} (shown : Shown lib d) : Below lib (open_ lib d) := by
  have last : (maxId (lib.listing d).tail 0).toNat < 2 ^ 64 - 1 := maxId_lt (by decide) shown.2
  have next : (maxId (lib.listing d).tail 0 + 1).toNat = (maxId (lib.listing d).tail 0).toNat + 1 := by
    grind [UInt64.toNat_add]
  intro x stored
  obtain ⟨y,member,le⟩ := shown.1 x stored
  have largest := (le_maxId (lib.listing d).tail 0).2 y member
  show x.toNat < (maxId (lib.listing d).tail 0 + 1).toNat
  omega

lemma Below.fresh (below : Below lib s) : lib.stored s.db s.next_id = false := by
  by_contra stored
  exact Nat.lt_irrefl _ (below s.next_id (by simpa using stored))

lemma next_toNat (room : s.next_id.toNat + 1 < 2 ^ 64) : (s.next_id + 1).toNat = s.next_id.toNat + 1 := by
  rw [UInt64.toNat_add]
  exact Nat.mod_eq_of_lt (by simpa using room)

lemma Below.add (lawful : lib.Lawful) (below : Below lib s) (room : s.next_id.toNat + 1 < 2 ^ 64)
    (rec_ : AgentMemoryRecord) : Below lib (s.add lib rec_).1 := by
  intro x stored
  show x.toNat < (s.next_id + 1).toNat
  rw [next_toNat room]
  rcases lawful.adds _ _ _ _ _ stored with rfl | before
  · omega
  · have := below x before
    omega

lemma Below.tidy (below : Below lib s) {tidy : D → D} (shrinks : ∀ d x, lib.stored (tidy d) x = true → lib.stored d x = true) :
    Below lib {s with db := tidy s.db} := fun x stored => below x (shrinks _ _ stored)

lemma Below.addAll (lawful : lib.Lawful) {records : List AgentMemoryRecord} (below : Below lib s)
    (room : s.next_id.toNat + records.length < 2 ^ 64) :
    Below lib (s.addAll lib records).1 ∧ ∀ given ∈ (s.addAll lib records).2.1, lib.stored given.1 given.2 = false := by
  induction records generalizing s with
  | nil => exact ⟨below,by simp [AgentSession.addAll]⟩
  | cons rec_ rest ih =>
    have one : s.next_id.toNat + 1 < 2 ^ 64 := by
      simp only [length_cons] at room
      omega
    have added := below.add lawful one rec_
    rw [AgentSession.addAll]
    by_cases ok : (s.add lib rec_).2.ok = true
    · simp only [if_pos ok]
      have left : (s.add lib rec_).1.next_id.toNat + rest.length < 2 ^ 64 := by
        show (s.next_id + 1).toNat + rest.length < 2 ^ 64
        rw [next_toNat one]
        simp only [length_cons] at room
        omega
      grind [fresh]
    · simp only [if_neg ok]
      exact ⟨added,by simpa using below.fresh⟩

lemma Below.call (lawful : lib.Lawful) (below : Below lib s) {c : Call D} (keeps : c.Keeps lib) (safe : c.Safe lib s) :
    Below lib (s.call lib dim c).1 ∧ ∀ given ∈ (s.call lib dim c).2, lib.stored given.1 given.2 = false := by
  cases c with
  | appendMessage rec_ tidy =>
    rw [AgentSession.call]
    by_cases wrong : rec_.embedding.length ≠ dim.toNat
    · simpa only [if_pos wrong] using ⟨below,by simp⟩
    · simp only [if_neg wrong]
      have added := below.add lawful safe rec_
      refine ⟨?_,by simpa using below.fresh⟩
      split
      · exact added.tidy keeps
      · exact added
  | appendBatch records tidy =>
    rw [AgentSession.call]
    by_cases wrong : (records.any fun rec_ => rec_.embedding.length ≠ dim.toNat) = true
    · simpa only [if_pos wrong] using ⟨below,by simp⟩
    · simp only [if_neg wrong]
      obtain ⟨added,fresh⟩ := below.addAll lawful safe
      refine ⟨?_,fresh⟩
      split
      · exact added.tidy keeps
      · exact added
  | reopen reopened => exact ⟨open_below safe,by simp [AgentSession.call]⟩

lemma Below.run (lawful : lib.Lawful) {calls : List (Call D)} (below : Below lib s) (keeps : ∀ c ∈ calls, c.Keeps lib)
    (safe : SafeRun lib dim s calls) : ∀ given ∈ (s.run lib dim calls).2, lib.stored given.1 given.2 = false := by
  induction calls generalizing s with
  | nil => simp [AgentSession.run]
  | cons c rest ih =>
    have one : Below lib (s.call lib dim c).1 ∧ _ := below.call lawful (keeps c (.head _)) safe.1
    obtain ⟨kept,fresh⟩ := one
    intro given member
    rcases mem_append.mp member with here | later
    · exact fresh given here
    · exact ih kept (fun c member => keeps c (.tail _ member)) safe.2 given later

/-- No id that is given out is stored already. -/
theorem ids_fresh (lawful : lib.Lawful) (d : D) (first : Shown lib d) (calls : List (Call D))
    (keeps : ∀ c ∈ calls, c.Keeps lib) (safe : SafeRun lib dim (open_ lib d) calls) :
    ∀ given ∈ ((open_ lib d).run lib dim calls).2, lib.stored given.1 given.2 = false :=
  (open_below first).run lawful keeps safe

def listDatabase : AgentDatabase (List VectorId) where
  stored ids id := ids.contains id
  listing ids := ids
  addVector ids id _ _ := (ids ++ [id],.Ok)

def thirdMessage : List (Call (List VectorId)) :=
  [.appendBatch [{embedding := [7]},{embedding := [8]}] id,.reopen id,.appendMessage {embedding := [9]} id]

theorem ids_fresh_third : ((open_ listDatabase []).run listDatabase 1 thirdMessage).2.map Prod.snd = [1,2,3] ∧
      ∀ given ∈ ((open_ listDatabase []).run listDatabase 1 thirdMessage).2,listDatabase.stored given.1 given.2 = false := by
  have lawful : listDatabase.Lawful := by
    refine ⟨fun ids id vec md x stored => ?_⟩
    simpa [listDatabase,or_comm] using stored
  have safe : SafeRun listDatabase 1 (open_ listDatabase []) thirdMessage := by
    refine ⟨by simp [Call.Safe,open_,maxId,listDatabase],⟨?_,?_⟩,?_,trivial⟩
    case refine_2 => simp [listDatabase,call,addAll,add,open_,maxId,Status.Ok,Status.ok]
    case refine_3 => simp [Call.Safe,call,addAll,add,open_,maxId,listDatabase]
    intro x stored
    refine ⟨2,by decide +kernel,?_⟩
    have listed : x ∈ [1,2] := contains_iff_mem.mp stored
    rcases mem_pair.mp listed with rfl | rfl <;> decide
  refine ⟨by decide +kernel,ids_fresh lawful [] ⟨by simp [listDatabase],by simp [listDatabase]⟩ thirdMessage ?_ safe⟩
  simp [thirdMessage,Call.Keeps]

/-! ### The database of the repository -/

variable (rt : VectorRuntime)

/-- The snapshot `GetSnapshot` returns to the embedded database, without the live memtable. -/
def frozenSnapshot : IteratorSnapshot := ⟨rt.current_snapshot,none⟩

def runtimeDatabase (now_sec : UInt64) : AgentDatabase VectorRuntime where
  stored rt id := rt.exists_ now_sec id
  listing rt :=
    let snap := frozenSnapshot rt
    (VectorIterator.scan snap snap.readings.length (.create snap rt.ttl_sec now_sec)).1.map Prod.fst
  addVector rt id vec md := rt.put [] id vec md

lemma stored_runtime (now_sec : UInt64) (rt : VectorRuntime) (id : VectorId) :
    (runtimeDatabase now_sec).stored rt id = rt.exists_ now_sec id := rfl

def reopenRuntime : VectorRuntime := rt.restart.toOption.getD rt

def oneFrozen : AgentSession VectorRuntime :=
  ((open_ (runtimeDatabase 0) .openedStore).call (runtimeDatabase 0) 1
    (.appendMessage {embedding := [7]} fun rt => (rt.freeze (replicate 20 0)).1)).1

lemma lookup_segments {first second : VectorRuntime} (idle : first.mem.getCount = 0 ∧ second.mem.getCount = 0)
    (frozen : first.current_snapshot.frozen_memtables = [] ∧ second.current_snapshot.frozen_memtables = [])
    (same : first.current_snapshot.segments = second.current_snapshot.segments) (id : VectorId) :
    first.lookup id = second.lookup id := by
  have first_ := VectorRuntime.layer_of_getCount_zero idle.1
  have second_ := VectorRuntime.layer_of_getCount_zero idle.2
  simp [VectorRuntime.lookup,lookupById_eq,readLayers,answer_cons,first_,second_,frozen,same]

/-- The store keeps the message when it is opened again, but it is the entry the walk leaves
out: the next message gets its id and is stored over it. -/
theorem id_given_again : (oneFrozen.db.get 0 1).toOption.map Prod.fst = some [7] ∧
    (∀ x, (runtimeDatabase 0).stored (reopenRuntime oneFrozen.db) x = (runtimeDatabase 0).stored oneFrozen.db x) ∧
    (oneFrozen.run (runtimeDatabase 0) 1 [.reopen reopenRuntime,.appendMessage {embedding := [8]} id]).2.map
      (fun given => (given.2,(runtimeDatabase 0).stored given.1 given.2)) = [(1,true)] := by
  refine ⟨by decide +kernel,?_,by decide +kernel⟩
  intro x
  have found : (reopenRuntime oneFrozen.db).lookup x = oneFrozen.db.lookup x :=
    lookup_segments (by decide +kernel)
      ⟨isEmpty_iff.mp (by decide +kernel),isEmpty_iff.mp (by decide +kernel)⟩ (by decide +kernel) x
  have ttl : (reopenRuntime oneFrozen.db).ttl_sec = oneFrozen.db.ttl_sec := by decide +kernel
  rw [stored_runtime,stored_runtime,VectorRuntime.exists_,VectorRuntime.exists_,found,ttl]

end AgentSession
end PomaiCache
