import PomaiCache.CarefulRuns
import PomaiCache.Gateway

/-!
The numbers of accepted ingests over crashes. The counter is saved by writing one file anew, so
that a crash in between leaves a shorter number, which is read as a smaller one.
-/
namespace PomaiCache
open CarefulRuns Codec EdgeGateway List Text

/-- A gateway and its files, with the numbers it has given out. -/
structure Numbering where
  gateway : EdgeGateway
  files : GatewayFiles
  given : List UInt64 := []

namespace Numbering

/-- What the file holds when the process dies: `written` bytes of the next number if it dies
while it saves it, and what it held before otherwise. -/
def left (s : Numbering) : Option Nat → GatewayFiles
  | none => s.files
  | some written => {s.files with ingest_seq := some ((decimal (s.gateway.ingest_seq + 1).toNat).take written)}

inductive Step
  | ingest
  | crash (written : Option Nat)

def restart (files : GatewayFiles) : EdgeGateway := ({} : EdgeGateway).loadSeqState files

def step (s : Numbering) : Step → Numbering
  | .ingest =>
    let next := s.gateway.nextSeq s.files
    ⟨next.1,next.2,s.given ++ [next.1.ingest_seq]⟩
  | .crash written => ⟨restart (s.left written),s.left written,s.given⟩

/-- The counter does not wrap around, and a save that has begun is complete when the process dies. -/
def Whole (s : Numbering) : Step → Prop
  | .ingest => s.gateway.ingest_seq.toNat + 1 < 2 ^ 64
  | .crash none => True
  | .crash (some written) => s.gateway.ingest_seq.toNat + 1 < 2 ^ 64 ∧ (decimal (s.gateway.ingest_seq + 1).toNat).length ≤ written

structure Inv (s : Numbering) : Prop where
  saved : (restart s.files).ingest_seq = s.gateway.ingest_seq
  ascending : s.given.Pairwise (· < ·)
  below : ∀ n ∈ s.given, n ≤ s.gateway.ingest_seq

variable {s : Numbering}

lemma restart_decimal (files : GatewayFiles) (n : UInt64) :
    (restart {files with ingest_seq := some (decimal n.toNat)}).ingest_seq = n := by
  simp [restart,loadSeqState,number,strtoull_decimal]

lemma Inv.step (inv : Inv s) (c : Step) (whole : s.Whole c) : Inv (s.step c) := by
  have next (small : s.gateway.ingest_seq.toNat + 1 < 2 ^ 64) : ∀ n ∈ s.given, n < s.gateway.ingest_seq + 1 := by
    intro n member
    have low := inv.below n member
    rw [UInt64.le_iff_toNat_le] at low
    rw [UInt64.lt_iff_toNat_lt,UInt64.toNat_add]
    simp
    omega
  cases c with
  | ingest =>
    refine ⟨restart_decimal ..,pairwise_append.mpr ⟨inv.ascending,pairwise_singleton _ _,?_⟩,?_⟩
    · simpa [nextSeq] using next whole
    · simp only [Numbering.step,forall_mem_append,forall_mem_singleton]
      exact ⟨fun n member => UInt64.le_of_lt (next whole n member),UInt64.le_refl _⟩
  | crash written =>
    cases written with
    | none => exact ⟨rfl,inv.ascending,fun n member => inv.saved ▸ inv.below n member⟩
    | some written =>
      have file : s.left (some written) = {s.files with ingest_seq := some (decimal (s.gateway.ingest_seq + 1).toNat)} := by
        rw [left,take_of_length_le whole.2]
      refine ⟨rfl,inv.ascending,fun n member => ?_⟩
      rw [Numbering.step,file,restart_decimal]
      exact UInt64.le_of_lt (next whole.1 n member)

lemma Inv.run (inv : Inv s) {steps : List Step} (whole : Careful Numbering.step Whole s steps) : Inv (steps.foldl Numbering.step s) := by
  induction steps generalizing s with
  | nil => exact inv
  | cons c rest ih => exact ih (inv.step c whole.1) whole.2

/-- In a run in which no crash cuts a save short, each number is larger than those before. -/
theorem given_ascending (files : GatewayFiles) (steps : List Step)
    (whole : Careful Numbering.step Whole ⟨restart files,files,[]⟩ steps) :
    (steps.foldl Numbering.step ⟨restart files,files,[]⟩).given.Pairwise (· < ·) :=
  (Inv.run ⟨rfl,.nil,by simp⟩ whole).ascending

theorem given_ascending_restarted :
    ([Step.ingest,.crash none,.ingest,.crash (some 1),.ingest].foldl Numbering.step ⟨restart {},{},[]⟩).given.Pairwise (· < ·) :=
  given_ascending {} _ (by simp [Careful,Whole]; decide)

/-- A crash behind the truncation leaves an empty file, and the counting starts again. -/
theorem given_repeats :
    ([Step.ingest,.ingest,.crash (some 0),.ingest].foldl Numbering.step ⟨restart {},{},[]⟩).given = [1,2,1] := by
  decide

end Numbering
end PomaiCache
