import Mathlib
import PomaiCache.Basic
import PomaiCache.CarefulRuns
import PomaiCache.Dict

/-!
The frames of audio clips, with a cap on their number. The search for the oldest frame starts
from the largest timestamp and, if nothing is below it, names clip 0.
-/
namespace PomaiCache
open List UInt64

structure AudioFrame where
  timestamp : UInt64
  embedding : Vec

abbrev Clips := Dict UInt64 (List AudioFrame)

structure AudioEngine where
  total_frames : Nat
  clips : Clips

inductive AudioCall
  | put (walk : Dict.Walk UInt64 (List AudioFrame)) (clip_id timestamp_ms : UInt64) (embedding : Vec)
  | delete (clip_id : UInt64)

namespace AudioEngine

def latest : UInt64 := 0xFFFFFFFFFFFFFFFF

def frames (e : AudioEngine) (clip_id : UInt64) : List AudioFrame := (e.clips.lookup clip_id).getD []

def setFrames (clips : Clips) (clip_id : UInt64) (frames : List AudioFrame) : Clips :=
  if frames.isEmpty then clips.erase clip_id else clips.insert clip_id frames

/-- Nothing is above the time of a clip without frames, which is not taken. -/
def headTime (frames : List AudioFrame) : UInt64 := (frames.head?.map (·.timestamp)).getD latest

def older (oldest : UInt64 × UInt64) (clip : Σ _ : UInt64, List AudioFrame) : UInt64 × UInt64 :=
  if headTime clip.2 < oldest.2 then (clip.1,headTime clip.2) else oldest

/-- The part of `Put` that makes room. -/
def evictOldest (e : AudioEngine) (walk : Dict.Walk UInt64 (List AudioFrame)) : AudioEngine :=
  let oldest_clip := ((walk.order e.clips).foldl older (0,latest)).1
  match e.frames oldest_clip with
  | _ :: rest => ⟨e.total_frames - 1,setFrames e.clips oldest_clip rest⟩
  | [] => e

def notAfter (a b : AudioFrame) : Prop := a.timestamp ≤ b.timestamp

instance : DecidableRel notAfter := fun a b => inferInstanceAs (Decidable (a.timestamp ≤ b.timestamp))

/-- `lower_bound` in the sorted frames is the place of an ordered insertion. -/
def put (max_frames_total : Nat) (e : AudioEngine) (walk : Dict.Walk UInt64 (List AudioFrame)) (clip_id timestamp_ms : UInt64)
    (embedding : Vec) : AudioEngine × Status :=
  if embedding.isEmpty then (e,.invalidArgument "audio embedding must be non-empty")
  else
    let e := if max_frames_total ≤ e.total_frames ∧ 0 < max_frames_total then e.evictOldest walk else e
    let frames := (e.frames clip_id).orderedInsert notAfter ⟨timestamp_ms,embedding⟩
    (⟨e.total_frames + 1,e.clips.insert clip_id frames⟩,.Ok)

def delete (e : AudioEngine) (clip_id : UInt64) : AudioEngine × Status :=
  if (e.clips.lookup clip_id).isNone then (e,.notFound "audio clip not found")
  else (⟨e.total_frames - (e.frames clip_id).length,e.clips.erase clip_id⟩,.Ok)

def call (max_frames_total : Nat) (e : AudioEngine) : AudioCall → AudioEngine
  | .put walk clip_id timestamp_ms embedding => (e.put max_frames_total walk clip_id timestamp_ms embedding).1
  | .delete clip_id => (e.delete clip_id).1

def run (max_frames_total : Nat) (calls : List AudioCall) : AudioEngine := calls.foldl (call max_frames_total) ⟨0,∅⟩

def stored (clips : Clips) : Nat := (clips.entries.map fun clip => clip.2.length).sum

structure Kept (e : AudioEngine) : Prop where
  counted : e.total_frames = stored e.clips
  sorted : ∀ clip, (e.frames clip).Pairwise notAfter

def Evicts (e next : AudioEngine) : Prop :=
  ∃ clip f rest, e.frames clip = f :: rest ∧ next = ⟨e.total_frames - 1,setFrames e.clips clip rest⟩ ∧
    ∀ other, ∀ g ∈ e.frames other, f.timestamp ≤ g.timestamp

/-- No frame is below the largest timestamp, and the clip named instead has none. -/
def Stuck (e : AudioEngine) : Prop := e.frames 0 = [] ∧ ∀ clip, ∀ f ∈ e.frames clip, f.timestamp = latest

/-- The call does not need room that it cannot make. -/
def Clear (max_frames_total : Nat) (e : AudioEngine) : AudioCall → Prop
  | .put _ _ _ embedding => embedding ≠ [] → e.total_frames = max_frames_total → ¬e.Stuck
  | .delete _ => True

variable {e : AudioEngine}

lemma stored_setFrames (e : AudioEngine) (clip : UInt64) (fs : List AudioFrame) :
    stored (setFrames e.clips clip fs) + (e.frames clip).length = stored e.clips + fs.length := by
  have erased : stored (e.clips.erase clip) + (e.frames clip).length = stored e.clips := by
    unfold frames
    cases held : e.clips.lookup clip with
    | none =>
      rw [Dict.erase_absent held]
      rfl
    | some old =>
      rw [stored,stored,((Dict.entries_perm held).map fun c => c.2.length).sum_eq]
      simp [Nat.add_comm]
  cases fs with
  | nil => exact erased
  | cons f rest =>
    have inserted : stored (setFrames e.clips clip (f :: rest)) = (f :: rest).length + stored (e.clips.erase clip) := rfl
    omega

lemma frames_setFrames (e : AudioEngine) (total : Nat) (clip other : UInt64) (fs : List AudioFrame) :
    frames ⟨total,setFrames e.clips clip fs⟩ other = if other = clip then fs else e.frames other := by
  unfold frames setFrames
  by_cases same : other = clip
  · subst same
    cases fs <;> simp
  · cases fs <;> simp [same]

lemma Kept.set (kept : e.Kept) (clip : UInt64) {fs : List AudioFrame} (sorted : fs.Pairwise notAfter)
    {total : Nat} (count : total + (e.frames clip).length = e.total_frames + fs.length) :
    Kept ⟨total,setFrames e.clips clip fs⟩ := by
  refine ⟨?_,fun other => ?_⟩
  · have sum := e.stored_setFrames clip fs
    rw [← kept.counted] at sum
    exact Nat.add_right_cancel (count.trans sum.symm)
  · rw [frames_setFrames]
    split
    · exact sorted
    · exact kept.sorted other

lemma foldl_older (clips : List (Σ _ : UInt64, List AudioFrame)) (start : UInt64 × UInt64) :
    let found := clips.foldl older start
    found.2 ≤ start.2 ∧ (∀ c ∈ clips, found.2 ≤ headTime c.2) ∧
      (found = start ∨ found.2 < start.2 ∧ ∃ c ∈ clips, found = (c.1,headTime c.2)) := by
  induction clips generalizing start with
  | nil => simp
  | cons c others ih =>
    obtain ⟨below,least,from_⟩ := ih (older start c)
    rw [foldl_cons]
    by_cases less : headTime c.2 < start.2
    · rw [older,if_pos less] at below least from_ ⊢
      have lower := UInt64.lt_of_le_of_lt below less
      refine ⟨UInt64.le_of_lt lower,forall_mem_cons.mpr ⟨below,least⟩,.inr ⟨lower,?_⟩⟩
      rcases from_ with here | ⟨_,other,member,there⟩
      · exact ⟨c,mem_cons_self,here⟩
      · exact ⟨other,mem_cons_of_mem _ member,there⟩
    · rw [older,if_neg less] at below least from_ ⊢
      refine ⟨below,forall_mem_cons.mpr ⟨UInt64.le_trans below (UInt64.not_lt.mp less),least⟩,from_.imp_right ?_⟩
      rintro ⟨lower,other,member,there⟩
      exact ⟨lower,other,mem_cons_of_mem _ member,there⟩

/-- The first frame of a clip is its oldest. -/
lemma headTime_le {fs : List AudioFrame} (sorted : fs.Pairwise notAfter) : ∀ g ∈ fs, headTime fs ≤ g.timestamp := by
  cases sorted with
  | nil => simp
  | cons first _ => exact forall_mem_cons.mpr ⟨UInt64.le_refl _,first⟩

lemma Kept.evict (kept : e.Kept) (walk : Dict.Walk UInt64 (List AudioFrame)) :
    (e.Stuck ∧ e.evictOldest walk = e) ∨ (¬e.Stuck ∧ e.Evicts (e.evictOldest walk)) := by
  obtain ⟨_,least,from_⟩ := foldl_older (walk.order e.clips) (0,latest)
  have member (c : Σ _ : UInt64, List AudioFrame) : c ∈ walk.order e.clips ↔ e.clips.lookup c.1 = some c.2 :=
    (walk.perm e.clips).mem_iff.trans Dict.mem_entries
  unfold evictOldest
  generalize (walk.order e.clips).foldl older (0,latest) = found at least from_
  have above (clip : UInt64) : ∀ g ∈ e.frames clip, found.2 ≤ g.timestamp := by
    intro g there
    refine UInt64.le_trans ?_ (headTime_le (kept.sorted clip) g there)
    unfold frames at there ⊢
    cases held : e.clips.lookup clip with
    | none => simp [held] at there
    | some fs => exact least ⟨clip,fs⟩ ((member _).mpr held)
  rcases from_ with rfl | ⟨lower,c,inside,rfl⟩
  · have all (clip : UInt64) : ∀ g ∈ e.frames clip, g.timestamp = latest := fun g there =>
      UInt64.le_antisymm (Nat.le_of_lt_succ g.timestamp.toNat_lt) (above clip g there)
    cases zero : e.frames 0 with
    | nil => exact .inl ⟨⟨zero,all⟩,by simp [zero]⟩
    | cons f rest =>
      refine .inr ⟨fun stuck => by simp [Stuck,zero] at stuck,0,f,rest,zero,by simp [zero],?_⟩
      rw [all 0 f (by simp [zero])]
      exact above
  · have held : e.frames c.1 = c.2 := by rw [frames,(member c).mp inside]; rfl
    cases first : c.2 with
    | nil =>
      rw [first] at lower
      exact absurd lower (UInt64.lt_irrefl _)
    | cons f rest =>
      rw [first] at held lower above
      refine .inr ⟨fun stuck => ?_,c.1,f,rest,held,by simp [held],above⟩
      have time : headTime (f :: rest) = latest := stuck.2 c.1 f (by simp [held])
      rw [time] at lower
      exact UInt64.lt_irrefl _ lower

lemma Kept.positive (kept : e.Kept) {clip : UInt64} {f : AudioFrame} {rest : List AudioFrame} (held : e.frames clip = f :: rest) :
    0 < e.total_frames := by
  have sum := e.stored_setFrames clip []
  rw [held,← kept.counted] at sum
  simp at sum
  omega

instance : Std.Total notAfter := ⟨fun a b => UInt64.le_total a.timestamp b.timestamp⟩

instance : IsTrans AudioFrame notAfter := ⟨fun _ _ _ => UInt64.le_trans⟩

lemma Kept.call (m : Nat) (kept : e.Kept) (c : AudioCall) : (e.call m c).Kept := by
  cases c with
  | put walk clip time embedding =>
    unfold AudioEngine.call put
    dsimp only
    split
    · exact kept
    have roomy : Kept (if m ≤ e.total_frames ∧ 0 < m then e.evictOldest walk else e) := by
      split
      · rcases kept.evict walk with ⟨_,same⟩ | ⟨_,clip,f,rest,held,next,_⟩
        · rwa [same]
        · have positive := kept.positive held
          have sorted := kept.sorted clip
          rw [held] at sorted
          rw [next]
          exact kept.set clip sorted.of_cons (by rw [held,length_cons]; omega)
      · exact kept
    generalize (if m ≤ e.total_frames ∧ 0 < m then e.evictOldest walk else e) = e at roomy
    have put := @Kept.set e roomy clip _ ((roomy.sorted clip).orderedInsert ⟨time,embedding⟩ _) (e.total_frames + 1)
      (by rw [orderedInsert_length]; omega)
    rwa [setFrames,if_neg] at put
    rw [isEmpty_iff_length_eq_zero,orderedInsert_length]
    omega
  | delete clip =>
    unfold AudioEngine.call delete
    dsimp only
    split
    · exact kept
    · have sum := e.stored_setFrames clip []
      have counted := kept.counted
      exact kept.set clip .nil (by simp at sum ⊢; omega)

lemma Kept.cap_call {m : Nat} (some_ : 0 < m) (kept : e.Kept) (cap : e.total_frames ≤ m) (c : AudioCall) :
    (e.call m c).total_frames ≤ m ↔ e.Clear m c := by
  cases c with
  | put walk clip time embedding =>
    unfold AudioEngine.call put Clear
    dsimp only
    by_cases empty : embedding = []
    · simp [empty,cap]
    rw [if_neg (by simpa using empty)]
    by_cases full : e.total_frames = m
    · rw [if_pos ⟨full.ge,some_⟩]
      rcases kept.evict walk with ⟨stuck,same⟩ | ⟨free,_,_,_,held,next,_⟩
      · simp [same,stuck,full,empty]
      · have positive := kept.positive held
        simp [next,free]
        omega
    · rw [if_neg (by omega)]
      simp [full]
      omega
  | delete clip =>
    simp only [AudioEngine.call,delete,Clear,iff_true]
    split
    · exact cap
    · show e.total_frames - _ ≤ m
      omega

/-- After any calls the frames are counted and sorted, and an eviction takes the oldest one. The cap is kept
exactly if nothing is put into a full engine whose frames all have the largest timestamp, none in clip 0. -/
theorem run_cap_iff (max_frames_total : Nat) (some_ : 0 < max_frames_total) (calls : List AudioCall) :
    let e := run max_frames_total calls
    e.Kept ∧ (∀ walk, e.evictOldest walk = e ∨ e.Evicts (e.evictOldest walk)) ∧
      ((∀ n, (run max_frames_total (calls.take n)).total_frames ≤ max_frames_total) ↔
        CarefulRuns.Careful (call max_frames_total) (Clear max_frames_total) ⟨0,∅⟩ calls) := by
  have keeps (e : AudioEngine) (c : AudioCall) (kept : e.Kept) : (e.call max_frames_total c).Kept := kept.call _ c
  have start : Kept ⟨0,∅⟩ := ⟨rfl,fun _ => .nil⟩
  have kept := CarefulRuns.invariant keeps start calls
  refine ⟨kept,fun walk => (kept.evict walk).imp And.right And.right,?_⟩
  refine CarefulRuns.good_iff (fun e => e.total_frames ≤ max_frames_total) keeps ?_ start (Nat.zero_le _) calls
  intro e c kept cap
  exact kept.cap_call some_ cap c

def evicting : List AudioCall :=
  [.put .plain 1 5 [1],.put .plain 2 3 [2],.put .plain 1 4 [3],.put .plain 3 9 [4],.put .plain 1 2 [5],.delete 1]

/-- The third put takes the frame of clip 2, the fourth and the fifth those of clip 1. -/
theorem run_cap_evicting : 0 < 2 ∧ (run 2 evicting).Kept ∧ (∀ n, (run 2 (evicting.take n)).total_frames ≤ 2) ∧
    (run 2 (evicting.take 3)).frames 1 = [⟨4,[3]⟩,⟨5,[1]⟩] ∧ (run 2 (evicting.take 3)).frames 2 = [] ∧
    (run 2 (evicting.take 5)).frames 1 = [⟨2,[5]⟩] ∧ (run 2 evicting).total_frames = 1 := by
  obtain ⟨kept,_,cap⟩ := run_cap_iff 2 (by decide) evicting
  have third : ¬Stuck (run 2 (evicting.take 2)) := fun stuck => absurd (stuck.2 2 _ (.head _)) (by decide)
  have fourth : ¬Stuck (run 2 (evicting.take 3)) := fun stuck => absurd (stuck.2 1 _ (.head _)) (by decide)
  have fifth : ¬Stuck (run 2 (evicting.take 4)) := fun stuck => absurd (stuck.2 1 _ (.head _)) (by decide)
  refine ⟨by decide,kept,cap.mpr ⟨?_,?_,fun _ _ => third,fun _ _ => fourth,fun _ _ => fifth,trivial,trivial⟩,rfl,rfl,rfl,rfl⟩
  · intro _ full
    cases full
  · intro _ full
    cases full

/-- A cap of one, and two frames with the largest timestamp. -/
theorem put_latest_stuck : (run 1 (replicate 2 (.put .plain 5 latest [0]))).total_frames = 2 := by
  decide

end AudioEngine
end PomaiCache
