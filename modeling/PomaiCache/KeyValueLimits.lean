import PomaiCache.KeyValue

/-!
The limit on the number of entries and the put that meets it. Times are whole seconds, and of
several entries of the least time the first one in the order of the map goes: the entry that was
just put stays under every order exactly if enough entries are strictly older.
-/
namespace PomaiCache
open Codec

namespace KvMap

def older (now : UInt64) (kv : KvMap) : Nat := kv.entries.countP fun e => e.2.created_at_sec < now

lemma oldest_spec (best : Option (Σ _ : Bytes, KvEntry)) (l : List (Σ _ : Bytes, KvEntry)) (some_ : best.isSome ∨ l ≠ []) :
    ∃ b, oldest best l = some b ∧ (best = some b ∨ b ∈ l) ∧ ∀ e, best = some e ∨ e ∈ l → b.2.created_at_sec ≤ e.2.created_at_sec := by
  induction l generalizing best with
  | nil =>
    obtain ⟨b,rfl⟩ := Option.isSome_iff_exists.mp (some_.resolve_right (by simp))
    exact ⟨b,rfl,.inl rfl,by simp⟩
  | cons e rest ih =>
    have step (first : Σ _ : Bytes, KvEntry) := ih (some first) (.inl rfl)
    cases best with
    | none =>
      obtain ⟨b,found,from_,least⟩ := step e
      exact ⟨b,found,.inr (by simpa [eq_comm] using from_),fun other inside => least other (by simpa [eq_comm] using inside)⟩
    | some first =>
      rw [oldest]
      split
      · next lt =>
        obtain ⟨b,found,from_,least⟩ := step e
        grind
      · next not_lt =>
        obtain ⟨b,found,from_,least⟩ := step first
        grind

lemma oldest_first {b : Σ _ : Bytes, KvEntry} {l : List (Σ _ : Bytes, KvEntry)}
    (least : ∀ e ∈ l, b.2.created_at_sec ≤ e.2.created_at_sec) : oldest (some b) l = some b := by
  induction l with
  | nil => rfl
  | cons e rest ih =>
    rw [oldest]
    simp [UInt64.not_lt.mpr (least e (.head _)),ih fun other member => least other (.tail _ member)]

variable {kv : KvMap} {key value : Bytes} {now : UInt64}

lemma pruneOldest_older (walk : Dict.Walk Bytes KvEntry) (held : kv.lookup key = some ⟨value,now⟩) (some_ : kv.older now ≠ 0) :
    (pruneOldest walk kv).lookup key = some ⟨value,now⟩ ∧ (pruneOldest walk kv).size + 1 = kv.size ∧
      (pruneOldest walk kv).older now + 1 = kv.older now := by
  obtain ⟨old,member,before⟩ := List.countP_pos_iff.mp (Nat.pos_of_ne_zero some_)
  have inside : old ∈ walk.order kv := (walk.perm kv).mem_iff.mpr member
  obtain ⟨b,found,from_,least⟩ := oldest_spec none _ (.inr (List.ne_nil_of_mem inside))
  have there : kv.lookup b.1 = some b.2 := Dict.mem_entries.mp ((walk.perm kv).mem_iff.mp (by simpa using from_))
  have behind : b.2.created_at_sec < now := UInt64.lt_of_le_of_lt (least old (.inr inside)) (by simpa using before)
  have other : key ≠ b.1 := by
    intro same
    rw [← same,held] at there
    have entry : ⟨value,now⟩ = b.2 := Option.some.inj there
    exact UInt64.lt_irrefl _ (entry ▸ behind)
  have perm := Dict.entries_perm there
  have pruned : pruneOldest walk kv = kv.erase b.1 := by simp [pruneOldest,found]
  rw [pruned]
  refine ⟨by rw [AList.lookup_erase_ne other,held],by simpa [Dict.size] using perm.length_eq.symm,?_⟩
  unfold older
  rw [perm.countP_eq]
  simp [behind]

lemma pruneOldest_first {walk : Dict.Walk Bytes KvEntry} {rest : List (Σ _ : Bytes, KvEntry)}
    (first : walk.order kv = ⟨key,⟨value,now⟩⟩ :: rest) (none_ : kv.older now = 0) : pruneOldest walk kv = kv.erase key := by
  have least : oldest (some ⟨key,⟨value,now⟩⟩) rest = some ⟨key,⟨value,now⟩⟩ := oldest_first fun e member => by
    have inside : e ∈ kv.entries := (walk.perm kv).mem_iff.mp (first ▸ .tail _ member)
    simpa using List.countP_eq_zero.mp none_ e inside
  simp [pruneOldest,first,oldest,least]

lemma lookup_pruneOldest (walk : Dict.Walk Bytes KvEntry) (absent : kv.lookup key = none) :
    (pruneOldest walk kv).lookup key = none := by
  unfold pruneOldest
  split
  · exact absent
  · next b found =>
    by_cases same : key = b.1
    · rw [same,AList.lookup_erase]
    · rw [AList.lookup_erase_ne same,absent]

end KvMap

namespace KeyValueEngine
open KvMap
variable {r : RetentionPolicy} {key value : Bytes} {now : UInt64}

lemma pruneWhile_absent (walk : Dict.Walk Bytes KvEntry) (over_ : KvMap → Bool) (fuel : Nat) {kv : KvMap}
    (absent : kv.lookup key = none) : (pruneWhile walk over_ fuel kv).lookup key = none := by
  induction fuel generalizing kv with
  | zero => exact absent
  | succ fuel ih =>
    unfold pruneWhile
    split
    · exact ih (lookup_pruneOldest walk absent)
    · exact absent

lemma pruneWhile_keeps (walk : Dict.Walk Bytes KvEntry) (fuel : Nat) {kv : KvMap} (held : kv.lookup key = some ⟨value,now⟩)
    (enough : kv.size ≤ r.max_count.toNat + kv.older now) :
    (pruneWhile walk (overCount r) fuel kv).lookup key = some ⟨value,now⟩ := by
  induction fuel generalizing kv with
  | zero => exact held
  | succ fuel ih =>
    unfold pruneWhile
    split
    · next above =>
      have above : 0 < r.max_count ∧ r.max_count.toNat < kv.size := by simpa [overCount] using above
      obtain ⟨stays,size,older⟩ := pruneOldest_older walk held (by omega)
      exact ih stays (by omega)
    · exact held

lemma pruneWhile_drops {first : KvMap → Bytes} (picks : ∀ kv, (kv.lookup key).isSome → first kv = key) (count : 0 < r.max_count)
    (fuel : Nat) {kv : KvMap} (fits : kv.size ≤ fuel) (held : kv.lookup key = some ⟨value,now⟩)
    (few : r.max_count.toNat + kv.older now < kv.size) :
    (pruneWhile (.front first) (overCount r) fuel kv).lookup key = none := by
  induction fuel generalizing kv with
  | zero => omega
  | succ fuel ih =>
    have above : overCount r kv = true := by simp [overCount,count]; omega
    rw [pruneWhile,if_pos above]
    by_cases none_ : kv.older now = 0
    · have at_ : first kv = key := picks kv (by simp [held])
      obtain ⟨rest,order⟩ := Dict.Walk.front_order first (at_.symm ▸ held : kv.lookup (first kv) = some ⟨value,now⟩)
      rw [pruneOldest_first (at_ ▸ order) none_]
      exact pruneWhile_absent _ _ _ (AList.lookup_erase ..)
    · obtain ⟨stays,size,older⟩ := pruneOldest_older (.front first) held none_
      exact ih (by omega) stays (by omega)

/-- What the limit of the engine leaves before a put: any entry may stand first. -/
def Evicts (e : KeyValueEngine) (key : Bytes) (kv : KvMap) : Prop :=
  if e.max_entries > 0 ∧ e.kv.size ≥ e.max_entries ∧ e.kv.lookup key = none then
    ∃ first ∈ e.kv.entries, kv = e.kv.erase first.1
  else kv = e.kv

def entered (r : RetentionPolicy) (now later : UInt64) (kv : KvMap) (key value : Bytes) : KvMap :=
  unexpired r later (kv.insert key ⟨value,now⟩)

variable {e : KeyValueEngine} {kv : KvMap} {later : UInt64}

lemma Evicts.of_walk (walk : Dict.Walk Bytes KvEntry) (e : KeyValueEngine) (key : Bytes) :
    e.Evicts key (if e.max_entries > 0 ∧ e.kv.size ≥ e.max_entries ∧ e.kv.lookup key = none then eraseFirst walk e.kv else e.kv) := by
  unfold Evicts
  split
  · next full =>
    unfold eraseFirst
    split
    · next none_ =>
      have length := (walk.perm e.kv).length_eq
      rw [List.head?_eq_none_iff.mp none_] at length
      have size : e.kv.size = 0 := length.symm
      omega
    · next first head =>
      exact ⟨first,(walk.perm e.kv).mem_iff.mp (List.mem_of_mem_head? head),rfl⟩
  · rfl

lemma Evicts.walk (evicts : e.Evicts key kv) : ∃ first : KvMap → Bytes, (∀ kv, (kv.lookup key).isSome → first kv = key) ∧
    (if e.max_entries > 0 ∧ e.kv.size ≥ e.max_entries ∧ e.kv.lookup key = none then eraseFirst (.front first) e.kv else e.kv) = kv := by
  unfold Evicts at evicts
  split at evicts
  · next full =>
    obtain ⟨gone,member,rfl⟩ := evicts
    refine ⟨fun d => if (d.lookup key).isSome then key else gone.1,fun d held => by simp [held],?_⟩
    rw [if_pos full]
    have held := Dict.mem_entries.mp member
    have at_ : (if (e.kv.lookup key).isSome then key else gone.1) = gone.1 := by simp [full.2.2]
    obtain ⟨rest,order⟩ := Dict.Walk.front_order (fun d => if (d.lookup key).isSome then key else gone.1) (by rw [at_]; exact held)
    simp [eraseFirst,order,full.2.2]
  · next room => exact ⟨fun _ => key,fun _ _ => rfl,by rw [if_neg room,evicts]⟩

lemma put_kv (walk : Dict.Walk Bytes KvEntry) (now later : UInt64) (value : Bytes) (some_ : key ≠ []) (bytes : e.retention.max_bytes = 0)
    (kept : (if e.max_entries > 0 ∧ e.kv.size ≥ e.max_entries ∧ e.kv.lookup key = none then eraseFirst walk e.kv else e.kv) = kv) :
    (e.put walk now later key value).2 = .Ok ∧ (e.put walk now later key value).1.retention = e.retention ∧
      (e.put walk now later key value).1.kv = pruneWhile walk (overCount e.retention)
        (entered e.retention now later kv key value).size (entered e.retention now later kv key value) := by
  have light (kv : KvMap) : overBytes e.retention kv = false := by simp [overBytes,bytes]
  simp [put,some_,kept,enforceRetention,unexpired_of_ttl,pruneWhile_fits (light _),entered]

lemma get_eq_of_lookup (held : e.kv.lookup key = some ⟨value,now⟩) (alive : e.retention.isExpired ⟨value,now⟩ later = false) :
    e.get later key = .ok value := by
  simp [get,held,alive]

/-- A put is seen, in whatever orders the map is walked, exactly if it is not expired at once and
what the limit on the number of entries takes away can be taken from strictly older ones. -/
theorem put_visible_iff (e : KeyValueEngine) (now later : UInt64) (key value : Bytes) (count : 1 ≤ e.retention.max_count)
    (bytes : e.retention.max_bytes = 0) :
    (∀ walk, (e.put walk now later key value).2 = .Ok → (e.put walk now later key value).1.get later key = .ok value) ↔
      key = [] ∨ e.retention.isExpired ⟨value,now⟩ later = false ∧ ∀ kv, e.Evicts key kv →
        (entered e.retention now later kv key value).size ≤
          e.retention.max_count.toNat + (entered e.retention now later kv key value).older now := by
  by_cases empty : key = []
  · simp [put,empty,Status.invalidArgument,Status.Ok]
  have held (kv : KvMap) : (entered e.retention now later kv key value).lookup key =
      if e.retention.isExpired ⟨value,now⟩ later then none else some ⟨value,now⟩ := by
    rw [entered,lookup_unexpired,AList.lookup_insert]
    by_cases expired : e.retention.isExpired ⟨value,now⟩ later <;> simp [expired]
  simp only [empty,false_or]
  constructor
  · intro visible
    have seen (walk : Dict.Walk Bytes KvEntry) : (e.put walk now later key value).1.kv.lookup key ≠ none := by
      intro gone
      have ok := visible walk (put_kv _ _ _ _ empty bytes rfl).1
      simp [get,gone] at ok
    have alive : e.retention.isExpired ⟨value,now⟩ later = false := by
      by_contra expired
      apply seen .plain
      rw [(put_kv _ _ _ _ empty bytes rfl).2.2]
      exact pruneWhile_absent _ _ _ (by rw [held,if_pos (by simpa using expired)])
    refine ⟨alive,fun kv evicts => ?_⟩
    by_contra few
    obtain ⟨first,picks,kept⟩ := evicts.walk
    apply seen (.front first)
    rw [(put_kv _ _ _ _ empty bytes kept).2.2]
    exact pruneWhile_drops picks count _ (Nat.le_refl _) (by rw [held,alive]; rfl) (by omega)
  · rintro ⟨alive,enough⟩ walk _
    obtain ⟨_,retention,map⟩ := put_kv walk now later value empty bytes rfl
    apply get_eq_of_lookup _ (by rw [retention]; exact alive)
    rw [map]
    exact pruneWhile_keeps walk _ (by rw [held,alive]; rfl) (enough _ (Evicts.of_walk walk e key))

def heldEarlier : KeyValueEngine := ((created 0 ⟨0,1,0⟩ []).put .plain 5 5 [1] [7]).1

theorem put_visible_later : heldEarlier.kv.size = 1 ∧ ∀ walk, (heldEarlier.put walk 6 6 [2] [8]).2 = .Ok →
    (heldEarlier.put walk 6 6 [2] [8]).1.get 6 [2] = .ok [8] := by
  refine ⟨by decide,(put_visible_iff heldEarlier 6 6 [2] [8] (by decide) rfl).mpr (.inr ⟨by decide,fun kv evicts => ?_⟩)⟩
  rw [Evicts,if_neg (by decide)] at evicts
  subst evicts
  decide

/-- The second put of a second is the one that goes. -/
theorem put_same_second_lost :
    let e := ((created 0 ⟨0,1,0⟩ []).put .plain 5 5 [1] [7]).1
    (e.put .plain 5 5 [2] [8]).2 = .Ok ∧ (e.put .plain 5 5 [2] [8]).1.get 5 [2] = .error (.notFound "kv not found") := by
  decide

end KeyValueEngine
end PomaiCache
