import PomaiCache.WalRuns

/-!
Replay of logs that a crash cut short. Each segment file may have lost any
number of bytes at its end; replay keeps the complete frames of every file.
-/
namespace PomaiCache.Wal
open Codec List

/-- A record in a log without encryption whose frame length fits its field. -/
def WellFormed (dim : UInt32) (r : Record) : Prop :=
  r.Fits dim ∧ r.payload.length + 4 < 2 ^ 32

def recordFrames (rs : List Record) : Bytes := rs.flatMap fun r => frame r.payload

def segmentFile (rs : List Record) : Bytes := walFileHeader ++ recordFrames rs

/-- The records whose frames end at or before `cut`, when the first frame starts at `off`. -/
def complete (off cut : Nat) : List Record → List Record
  | [] => []
  | r :: rs =>
    let stop := off + (frame r.payload).length
    (if stop ≤ cut then [r] else []) ++ complete stop cut rs

variable {left right : MemTable} {rs : List Record} {cipher : Option Cipher} {dim : UInt32} {off cut : Nat}

lemma sealed_payload {r : Record} (formed : WellFormed dim r) : Sealed none r r.payload := ⟨rfl,r.payload_length,formed.2⟩

lemma frames_recordFrames (formed : ∀ r ∈ rs, WellFormed dim r) : Frames none dim rs (recordFrames rs) := by
  induction rs with
  | nil => exact .nil
  | cons r rs ih =>
    have here := formed r (.head _)
    exact .cons here.1 (sealed_payload here) (ih fun other member => formed other (.tail _ member))

lemma complete_subset : ∀ r ∈ complete off cut rs, r ∈ rs := by
  induction rs generalizing off with
  | nil => simp [complete]
  | cons first rs ih =>
    grind [complete]

lemma complete_of_le (early : cut ≤ off) (rs : List Record) : complete off cut rs = [] := by
  induction rs generalizing off with
  | nil => rfl
  | cons r rs ih =>
    grind [frame_length,complete]

lemma take_recordFrames (formed : ∀ r ∈ rs, WellFormed dim r) (inside : off ≤ cut) : ∃ tail, nextBody tail = none ∧
      (recordFrames rs).take (cut - off) = recordFrames (complete off cut rs) ++ tail := by
  induction rs generalizing off with
  | nil => exact ⟨[],nextBody_nil,by simp [recordFrames,complete]⟩
  | cons r rs ih =>
    have split : recordFrames (r :: rs) = frame r.payload ++ recordFrames rs := rfl
    by_cases whole : off + (frame r.payload).length ≤ cut
    · obtain ⟨tail,torn,rest⟩ := ih (fun other member => formed other (.tail _ member)) whole
      refine ⟨tail,torn,?_⟩
      have left : cut - off - (frame r.payload).length = cut - (off + (frame r.payload).length) := by omega
      rw [split,take_append,take_of_length_le (by omega),left,rest]
      simp only [complete,if_pos whole,recordFrames,flatMap_append,flatMap_cons,flatMap_nil,append_nil,append_assoc]
    · refine ⟨(frame r.payload).take (cut - off),?_,?_⟩
      · exact nextBody_take_frame (formed r (.head _)).2 (by omega)
      · rw [split,take_append_of_le_length (by omega)]
        simp only [complete,if_neg whole,complete_of_le (Nat.le_of_not_le whole),recordFrames,flatMap_nil,nil_append]

/-- Inside the file header, the first bytes of the magic read as the length of a
frame that goes beyond the file. -/
lemma nextBody_take_header : ∀ cut < 16, nextBody (walFileHeader.take cut) = none := by decide

lemma replays_take_segmentFile (formed : ∀ r ∈ rs, WellFormed dim r) (cut : Nat) :
    Replays none dim (complete 16 cut rs) ((segmentFile rs).take cut) := by
  have kept : ∀ r ∈ complete 16 cut rs, WellFormed dim r := fun r member => formed r (complete_subset r member)
  by_cases inside : 16 ≤ cut
  · obtain ⟨tail,torn,bytes⟩ := take_recordFrames formed inside
    have split : (segmentFile rs).take cut = walFileHeader ++ (recordFrames (complete 16 cut rs) ++ tail) := by
      rw [segmentFile,take_append,take_of_length_le (by simpa using inside),walFileHeader_length,bytes]
    rw [split]
    exact (frames_recordFrames kept).replays torn
  · have early : cut < 16 := by omega
    have none_ : complete 16 cut rs = [] := complete_of_le (by omega) rs
    have split : (segmentFile rs).take cut = walFileHeader.take cut := by
      rw [segmentFile,take_append_of_le_length (by rw [walFileHeader_length]; omega)]
    rw [none_,split]
    refine ⟨by simp,fun state _ => ?_⟩
    have short : (walFileHeader.take cut).length < 16 := by
      rw [length_take,walFileHeader_length]
      omega
    rw [replayFile,framesOffset,if_neg (by omega)]
    have start : Frames none state.1.dim [] [] := .nil
    exact replayFrames_frames start (nextBody_take_header cut early) (Nat.zero_le _)

/-- Torn tails are tolerated exactly: whatever length each segment file is cut
to, replay succeeds and applies the records whose frames are complete. -/
theorem replayInto_truncated (w : Wal) (mem : MemTable) (files : List (List Record × Nat))
    (plain : w.cipher = none) (formed : ∀ f ∈ files, ∀ r ∈ f.1, WellFormed mem.dim r)
    (dir : w.dir = files.map fun f => some ((segmentFile f.1).take f.2)) : w.replayInto mem =
      .ok (applyAll (mem,w.seq) (files.flatMap fun f => complete 16 f.2 f.1)) := by
  have each : List.Forall₂ (Replays none mem.dim) (files.map fun f => complete 16 f.2 f.1)
      (files.map fun f => (segmentFile f.1).take f.2) := by
    rw [forall₂_map_left_iff,forall₂_map_right_iff,forall₂_same]
    intro f member
    exact replays_take_segmentFile (formed f member) f.2
  have gap : WalDir.firstMissing [] = 0 := rfl
  have result := replayDir_files each gap (mem,w.seq) rfl
  rw [map_map,append_nil] at result
  rw [replayInto,plain,dir,flatMap]
  exact result

theorem replayInto_truncated_run :
    let w : Wal := ⟨[some ((segmentFile [.put 1 7 [0],.del 2 7]).take 60),
      some ((segmentFile [.del 3 7]).take 9)],100,0,none,2,0,16⟩
    let mem := MemTable.create Platform.plain 1 false
    w.replayInto mem = .ok (applyAll (mem,0) [.put 1 7 [0]]) := by
  intro w mem
  have formed : ∀ f ∈ [([Record.put 1 7 [0],Record.del 2 7],60),([Record.del 3 7],9)],∀ r ∈ f.1, WellFormed mem.dim r := by
    simp [mem,WellFormed,Record.Fits,MemTable.create,Record.payload,deletePlain]
  have kept : ([([Record.put 1 7 [0],Record.del 2 7],60),([Record.del 3 7],9)].flatMap
      fun f => complete 16 f.2 f.1) = [.put 1 7 [0]] := by decide
  rw [← kept]
  exact replayInto_truncated w mem _ rfl formed rfl

/-! ### Replay against the writes it stands for -/

def fresh (segment_bytes : Nat) (shard_id : UInt32) (cipher : Option Cipher) : Wal :=
  (openLog ⟨[],segment_bytes,shard_id,cipher,0,0,0⟩ []).1

lemma fresh_at (segment_bytes : Nat) (shard_id : UInt32) (cipher : Option Cipher) :
    At (fresh segment_bytes shard_id cipher) ⟨[],walFileHeader,[]⟩ := ⟨rfl,rfl⟩

lemma begun_held (cipher : Option Cipher) (dim : UInt32) (rest : WalDir) : Held cipher dim ⟨[],walFileHeader,rest⟩ [] [] :=
  ⟨⟨[],[],[],[],.nil,rfl,.nil,by simp,rfl⟩,nextBody_nil⟩

lemma fresh_held (cipher : Option Cipher) (dim : UInt32) : Held cipher dim ⟨[],walFileHeader,[]⟩ [] [] :=
  begun_held cipher dim []

def Call.applyTo (mem : MemTable) : Call → MemTable
  | put id vec md => (mem.putMeta id vec md).1
  | del id => (mem.delete id).1
  | batch ids vectors => (ids.zip vectors).foldl (fun mem item => (mem.put item.1 item.2).1) mem
  | rawKV _ _ _ => mem

def eraseLsn (found : Payload × Metadata) : Payload × Metadata := (found.1,{found.2 with lsn := 0})

/-- The tables agree on every id up to the sequence number of its metadata. -/
structure SameButLsn (left right : MemTable) : Prop where
  dim : left.dim = right.dim
  quantize_inmem : left.quantize_inmem = right.quantize_inmem
  platform : left.platform = right.platform
  version : ∀ id, (left.version id).map (Option.map eraseLsn) = (right.version id).map (Option.map eraseLsn)

lemma SameButLsn.refl (mem : MemTable) : SameButLsn mem mem := ⟨rfl,rfl,rfl,fun _ => rfl⟩

lemma SameButLsn.writes {left right left' right' : MemTable} {id : VectorId} {value : Option Payload}
    {md md' : Option Metadata} (same : SameButLsn left right)
    (first : MemTable.Writes left left' id value md) (second : MemTable.Writes right right' id value md')
    (agree : {md.getD {} with lsn := 0} = ({md'.getD {} with lsn := 0} : Metadata)) : SameButLsn left' right' where
  dim := by rw [first.dim,second.dim,same.dim]
  quantize_inmem := by rw [first.quantize_inmem,second.quantize_inmem,same.quantize_inmem]
  platform := by rw [first.platform,second.platform,same.platform]
  version := by
    intro other
    rw [first.version,second.version]
    split
    · cases value with
      | none => rfl
      | some p => simp only [Option.map_some,eraseLsn,agree]
    · exact same.version other

lemma SameButLsn.putMeta (same : SameButLsn left right) (id : VectorId)
    {vec : Vec} {md md' : Metadata} (sized : vec.length = left.dim.toNat)
    (keeps : MemTable.keepsMetadata md = MemTable.keepsMetadata md')
    (agree : MemTable.keepsMetadata md = true → {md with lsn := 0} = ({md' with lsn := 0} : Metadata)) :
    SameButLsn (left.putMeta id vec md).1 (right.putMeta id vec md').1 := by
  have allocated : left.allocate vec = right.allocate vec := by
    rw [MemTable.allocate,MemTable.allocate,same.quantize_inmem,same.dim,same.platform]
  have first := (left.putMeta_ok id md sized).2
  have second := (right.putMeta_ok id md' (by rw [← same.dim]; exact sized)).2
  rw [← allocated] at second
  refine same.writes first second ?_
  grind

lemma SameButLsn.batch (same : SameButLsn left right)
    {items : List (VectorId × Vec)} (sized : ∀ item ∈ items, item.2.length = left.dim.toNat)
    (seq later : UInt64) : SameButLsn (applyAll (left,later) (batchRecords seq items)).1
      (items.foldl (fun mem item => (mem.put item.1 item.2).1) right) := by
  induction items generalizing left right seq later with
  | nil => exact same
  | cons item rest ih =>
    have length := sized item (.head _)
    have step : SameButLsn (left.putMeta item.1 item.2 {lsn := seq + 1}).1 (right.put item.1 item.2).1 :=
      same.putMeta item.1 length rfl (by simp [MemTable.keepsMetadata])
    have dim := (left.putMeta_ok item.1 {lsn := seq + 1} length).2.dim
    simp only [batchRecords,applyAll,foldl_cons,Record.apply]
    refine ih step ?_ _ _
    grind

lemma SameButLsn.call (same : SameButLsn left right) {c : Call} (replayable : c.Replayable cipher left.dim) (seq later : UInt64) :
    SameButLsn (applyAll (left,later) (c.records seq)).1 (c.applyTo right) := by
  cases c with
  | put id vec md =>
    obtain ⟨sized,carried,_,_⟩ := replayable
    simp only [Call.records,applyAll,foldl_cons,foldl_nil,Call.applyTo,putRecord]
    by_cases tenant : md.tenant = []
    · obtain ⟨_,_,timestamp,src_vid,text⟩ := carried.resolve_left (by simp [tenant])
      have drops : MemTable.keepsMetadata md = false := by
        simp [MemTable.keepsMetadata,tenant,timestamp,src_vid,text]
      simp only [tenant,isEmpty_nil,if_true,Record.apply]
      exact same.putMeta id sized drops.symm (by simp [MemTable.keepsMetadata])
    · simp only [List.isEmpty_iff,tenant,if_false,Record.apply]
      exact same.putMeta id sized rfl fun _ => rfl
  | del id => exact same.writes (left.delete_writes id).2 (right.delete_writes id).2 rfl
  | rawKV op key value => exact same
  | batch ids vectors =>
    exact same.batch (fun item member => (replayable.2 item.2 (of_mem_zip member).2).1) seq later

lemma Call.records_fit {c : Call} (replayable : c.Replayable cipher dim) (seq : UInt64) : ∀ r ∈ c.records seq, r.Fits dim := by
  cases c with
  | put id vec md =>
    intro r member
    rw [mem_singleton.mp member]
    exact putRecord_fits replayable.1 replayable.2.2.1 _ id
  | del id =>
    intro r member
    rw [mem_singleton.mp member]
    trivial
  | rawKV op key value =>
    intro r member
    rw [mem_singleton.mp member]
    exact replayable.1
  | batch ids vectors =>
    have each : ∀ item ∈ ids.zip vectors, item.2.length = dim.toNat :=
      fun item member => (replayable.2 item.2 (of_mem_zip member).2).1
    simp only [records]
    generalize ids.zip vectors = items at each
    induction items generalizing seq with
    | nil => simp [batchRecords]
    | cons item rest ih =>
      intro r member
      rcases mem_cons.mp member with rfl | member
      · exact each item (.head _)
      · exact ih (seq + 1) (fun other inRest => each other (.tail _ inRest)) r member

lemma SameButLsn.logged {calls : List Call}
    (same : SameButLsn left right) (replayable : ∀ c ∈ calls, c.Replayable cipher left.dim) (w : Wal) (later : UInt64) :
    SameButLsn (applyAll (left,later) (w.logged calls)).1 (calls.foldl Call.applyTo right) := by
  induction calls generalizing left right w later with
  | nil => exact same
  | cons c rest ih =>
    have here := replayable c (.head _)
    have dim : (applyAll (left,later) (c.records w.seq)).1.dim = left.dim :=
      applyAll_dim rfl (Call.records_fit here w.seq)
    simp only [Wal.logged,applyAll_append,foldl_cons]
    refine ih (same.call here w.seq later) ?_ _ _
    grind

lemma runAll_fresh (segment_bytes : Nat) (shard_id : UInt32) {calls : List Call} (replayable : ∀ c ∈ calls, c.Replayable none dim) :
    ∃ q, At ((fresh segment_bytes shard_id none).runAll calls) q ∧
      Held none dim q ([] ++ (fresh segment_bytes shard_id none).logged calls) [] ∧ q.rest.firstMissing = 0 ∧
        ((fresh segment_bytes shard_id none).runAll calls).cipher = none := by
  obtain ⟨q,there,held,vacant,cipher⟩ := runAll_held (fresh_at segment_bytes shard_id none) (fresh_held none dim)
    (vacant_of_empty (((fresh segment_bytes shard_id none).runAll calls).gen + 2) rfl) replayable (by omega)
  exact ⟨q,there,held,vacant.firstMissing (by rw [← there.gen]; omega),cipher⟩

/-- Replay reproduces the memtable: for every run of calls whose records replay
can read, with any rotations, the replayed table agrees on every id with the
table the same writes give. -/
theorem replayInto_reproduces (segment_bytes : Nat) (shard_id : UInt32) (platform : Platform)
    (dim : UInt32) (calls : List Call) (replayable : ∀ c ∈ calls, c.Replayable none dim) :
    ∃ mem seq, ((fresh segment_bytes shard_id none).runAll calls).replayInto (MemTable.create platform dim false) = .ok (mem,seq) ∧
      SameButLsn mem (calls.foldl Call.applyTo (MemTable.create platform dim false)) := by
  let w := fresh segment_bytes shard_id none
  obtain ⟨q,there,held,gap,cipher⟩ := runAll_fresh segment_bytes shard_id replayable
  have held' : Held (w.runAll calls).cipher dim q ([] ++ w.logged calls) [] := by
    rw [cipher]
    exact held
  have result := replayInto_held there held' gap (rfl : (MemTable.create platform dim false).dim = dim)
  refine ⟨_,_,result,?_⟩
  exact (SameButLsn.refl (MemTable.create platform dim false)).logged replayable w _

theorem replayInto_reproduces_run :
    let calls : List Call := [.put 1 [5] {tenant := [97], timestamp := 3},.batch [2,1] [[6],[7]],.rawKV Op.kRawKV [1] [2],.del 2]
    let start := MemTable.create Platform.plain 1 false
    ∃ mem seq, ((fresh 64 0 none).runAll calls).replayInto start = .ok (mem,seq) ∧
      SameButLsn mem (calls.foldl Call.applyTo start) := by
  refine replayInto_reproduces 64 0 Platform.plain 1 _ ?_
  simp only [forall_mem_cons,not_mem_nil,false_implies,implies_true,and_true]
  refine ⟨⟨rfl,.inl (by decide),by decide,by decide⟩,⟨rfl,by simp [Framed,overhead]⟩,⟨by decide,by decide⟩,trivial⟩

def failure {α : Type} : Except Status α → Option Status
  | .ok _ => none
  | .error st => some st

/-- A put that has a timestamp and no tenant is acknowledged, and its record makes
the whole log unreadable. -/
theorem replayInto_loses_timestamp : ((fresh 1000 0 none).appendPut [] 1 [5] {timestamp := 3}).2.2 = .Ok ∧
      failure (((fresh 1000 0 none).runAll [.put 1 [5] {timestamp := 3}]).replayInto
        (MemTable.create Platform.plain 1 false)) = some (.corruption "wal put length mismatch") := by
  decide +kernel

end PomaiCache.Wal
