import PomaiCache.Graph

/-!
Recovery of the graph membrane. Calls that report success have written their whole frame, so
the log of the reopened membrane holds one key for each of them, and warming up applies the
keys in the order of the calls.
-/
namespace PomaiCache
open Codec List

namespace Wal

variable {outs : List Outcome} {w : Wal}

lemma appendFile_ok (ok : (w.appendFile outs data).2.2.ok = true) : (w.appendFile outs data).1 = (w.appendFile [] data).1 := by
  unfold appendFile at ok ⊢
  cases outcome : outs.headD .done with
  | done => rfl
  | stopped written =>
    simp only [outcome] at ok
    cases ok

lemma appendFile_clean (w : Wal) (data : Bytes) : (w.appendFile [] data).2 = ([],.Ok) := rfl

lemma appendIovecs_ok (ok : (w.appendIovecs outs pieces).2.2.ok = true) :
    (w.appendIovecs outs pieces).1 = (w.appendIovecs [] pieces).1 := by
  induction pieces generalizing w outs with
  | nil => rfl
  | cons data rest ih =>
    by_cases empty : data.length = 0
    · simp only [appendIovecs,if_pos empty] at ok ⊢
      exact ih ok
    · simp only [appendIovecs,if_neg empty] at ok ⊢
      cases first : (w.appendFile outs data).2.2.ok with
      | true =>
        simp only [first,if_true] at ok ⊢
        rw [ih ok,appendFile_ok first]
        rfl
      | false => simp [first] at ok

lemma rotateIfNeeded_ok (ok : (w.rotateIfNeeded outs add_bytes).2.2.ok = true) :
    (w.rotateIfNeeded outs add_bytes).1 = (w.rotateIfNeeded [] add_bytes).1 := by
  by_cases fits : w.bytes_in_seg + add_bytes ≤ w.segment_bytes
  · simp only [rotateIfNeeded,if_pos fits]
  · simp only [rotateIfNeeded,if_neg fits] at ok ⊢
    generalize ({w with gen := w.gen + 1, bytes_in_seg := 0, dir := _} : Wal) = opened at ok ⊢
    grind [walFileHeader,appendFile_ok,appendFile_clean]

lemma writeOut_ok {total : Nat} {pieces : List Bytes} {seq : UInt64} (ok : (w.writeOut outs total pieces seq).2.2.ok = true) :
    (w.writeOut outs total pieces seq).1 = (w.writeOut [] total pieces seq).1 := by
  rw [writeOut_eq] at ok ⊢
  rw [writeOut_eq]
  simp only [] at ok ⊢
  cases turned : (w.rotateIfNeeded outs total).2.2.ok with
  | false => simp [turned] at ok
  | true =>
    simp only [turned,if_true,rotateIfNeeded_clean,Status.ok_Ok,rotateIfNeeded_ok turned] at ok ⊢
    grind [appendIovecs_ok,appendIovecs_clean]

lemma appendRecord_ok {plain : UInt64 → Bytes} (ok : (w.appendRecord outs plain).2.2.ok = true) :
    (w.appendRecord outs plain).1 = (w.appendRecord [] plain).1 := by
  unfold appendRecord at ok ⊢
  exact writeOut_ok ok

lemma Logs.reopen_status (logs : Logs w rs) : w.reopen.2 = .Ok := by
  obtain ⟨p,here,held,_,gap⟩ := logs.gap
  exact (reopen_held here held gap).1

end Wal

namespace GraphMembraneImpl
open Wal (Record Logs)

variable {g : GraphMembraneImpl}

lemma write_ok (ok : (g.write outs entry value).2 = .Ok) : (g.write outs entry value).1 = (g.write [] entry value).1 := by
  unfold write at ok ⊢
  have clean : (g.wal.appendRawKV [] Op.kRawKV entry.key value).2 = ([],.Ok) :=
    (Wal.appendRecord_clean ..).1
  cases done : (g.wal.appendRawKV outs Op.kRawKV entry.key value).2.2.ok with
  | false =>
    simp only [done,Bool.false_eq_true,if_false] at ok
    rw [ok] at done
    cases done
  | true =>
    have same : (g.wal.appendRawKV outs Op.kRawKV entry.key value).1 = (g.wal.appendRawKV [] Op.kRawKV entry.key value).1 :=
      Wal.appendRecord_ok done
    simp [done,clean,same]

/-- The membranes that calls with result Ok make out of a new one, with the calls. -/
inductive Reached (segment_bytes : Nat) (shard_id : UInt32) : List Step → GraphMembraneImpl → Prop
  | created : Reached segment_bytes shard_id [] (created segment_bytes shard_id none)
  | addVertex {steps g} (reached : Reached segment_bytes shard_id steps g) (outs : List Outcome) (id : UInt64) (tag : UInt32)
      (tenant : Bytes) (ok : (g.addVertex outs id tag tenant).2 = .Ok) :
      Reached segment_bytes shard_id (steps ++ [.addVertex id tag tenant]) (g.addVertex outs id tag tenant).1
  | addEdge {steps g} (reached : Reached segment_bytes shard_id steps g) (outs : List Outcome) (src dst : UInt64)
      (type rank : UInt32) (tenant : Bytes) (ok : (g.addEdge outs src dst type rank tenant).2 = .Ok) :
      Reached segment_bytes shard_id (steps ++ [.addEdge src dst type rank tenant]) (g.addEdge outs src dst type rank tenant).1
  | deleteVertex {steps g} (reached : Reached segment_bytes shard_id steps g) (outs : List Outcome) (id : UInt64)
      (ok : (g.deleteVertex outs id).2 = .Ok) :
      Reached segment_bytes shard_id (steps ++ [.deleteVertex id]) (g.deleteVertex outs id).1
  | deleteEdge {steps g} (reached : Reached segment_bytes shard_id steps g) (outs : List Outcome) (src dst : UInt64)
      (type : UInt32) (ok : (g.deleteEdge outs src dst type).2 = .Ok) :
      Reached segment_bytes shard_id (steps ++ [.deleteEdge src dst type]) (g.deleteEdge outs src dst type).1

/-- The length of the frame fits its 32 bits: the tenant is stored with its length modulo 4 GiB,
behind 4 bytes of checksum, 29 bytes in front of the key, and the key. -/
def Step.Framed : Step → Prop
  | addVertex _ _ tenant => tenant.length % 2 ^ 32 + 46 < 2 ^ 32
  | addEdge _ _ _ _ tenant => tenant.length % 2 ^ 32 + 58 < 2 ^ 32
  | deleteVertex _ => True
  | deleteEdge _ _ _ => True
  | restart => True

lemma framed_of_length {entry : GraphEntry} {value : Bytes} (fits : value.length % 2 ^ 32 + (29 + entry.key.length + 4) < 2 ^ 32) :
    Wal.Framed none (.rawKV 0 Op.kRawKV entry.key value) := by
  rw [Wal.Framed,rawKV_payload_length,UInt32.toNat_ofNat']
  show _ + 0 + 4 < 2 ^ 32
  omega

lemma Logged.write_ok (logged : Logged g entries) (unencrypted : g.wal.cipher = none) (entry : GraphEntry) (value : Bytes)
    (ok : (g.write outs entry value).2 = .Ok) (fits : value.length % 2 ^ 32 + (29 + entry.key.length + 4) < 2 ^ 32) :
    Logged (g.write outs entry value).1 (entries ++ [entry]) ∧ (g.write outs entry value).1.wal.cipher = none := by
  have framed := framed_of_length fits
  rw [← unencrypted] at framed
  rw [GraphMembraneImpl.write_ok ok]
  refine ⟨logged.write framed,?_⟩
  obtain ⟨⟨rs,logs,-,-⟩,-⟩ := logged
  have clean : (g.wal.appendRawKV [] Op.kRawKV entry.key value).2 = ([],.Ok) :=
    (Wal.appendRecord_clean ..).1
  have kept : (g.wal.appendRawKV [] Op.kRawKV entry.key value).1.cipher = g.wal.cipher :=
    (logs.call (c := .rawKV Op.kRawKV entry.key value) ⟨.inl rfl,framed⟩).2
  simp only [GraphMembraneImpl.write,clean,Status.ok_Ok,if_true]
  exact kept.trans unencrypted

lemma Reached.logged (reached : Reached segment_bytes shard_id steps g) (framed : ∀ s ∈ steps, s.Framed) :
    Logged g (steps.flatMap Step.entries) ∧ g.wal.cipher = none := by
  have earlier {steps : List Step} {s : Step} (framed : ∀ t ∈ steps ++ [s], t.Framed) : (∀ t ∈ steps, t.Framed) ∧ s.Framed :=
    ⟨fun t member => framed t (mem_append_left _ member),framed s (by simp)⟩
  induction reached with
  | created => exact ⟨Logged.created ..,rfl⟩
  | addVertex _ outs id tag tenant ok ih =>
    obtain ⟨before,fits⟩ := earlier framed
    unfold GraphMembraneImpl.addVertex at ok ⊢
    rw [flatMap_append]
    exact (ih before).1.write_ok (ih before).2 (.vertex id tag) tenant ok (by simpa [GraphEntry.key,Step.Framed] using fits)
  | addEdge _ outs src dst type rank tenant ok ih =>
    obtain ⟨before,fits⟩ := earlier framed
    unfold GraphMembraneImpl.addEdge at ok ⊢
    rw [flatMap_append]
    exact (ih before).1.write_ok (ih before).2 (.edge src type rank dst) tenant ok (by simpa [GraphEntry.key,Step.Framed] using fits)
  | deleteVertex _ outs id ok ih =>
    obtain ⟨logged,unencrypted⟩ := ih (earlier framed).1
    unfold GraphMembraneImpl.deleteVertex at ok ⊢
    rw [flatMap_append]
    exact logged.write_ok unencrypted (.vertexGone id) [] ok (by simp [GraphEntry.key])
  | deleteEdge _ outs src dst type ok ih =>
    obtain ⟨logged,unencrypted⟩ := ih (earlier framed).1
    unfold GraphMembraneImpl.deleteEdge at ok ⊢
    rw [flatMap_append]
    exact logged.write_ok unencrypted (.edgeGone src type dst) [] ok (by simp [GraphEntry.key])

/-- A new membrane on the reopened log has the lists of the old one. -/
theorem recovered {segment_bytes : Nat} {shard_id : UInt32} {steps : List Step} {g : GraphMembraneImpl}
    (reached : Reached segment_bytes shard_id steps g) (framed : ∀ s ∈ steps, s.Framed) :
    g.wal.reopen.2 = .Ok ∧ (warmUp ⟨g.wal.reopen.1,∅⟩).2 = .Ok ∧
      ∀ v, (warmUp ⟨g.wal.reopen.1,∅⟩).1.adj_lists.lookup v = g.adj_lists.lookup v := by
  obtain ⟨⟨⟨rs,logs,keyed,same⟩,held⟩,-⟩ := reached.logged framed
  obtain ⟨seq,run⟩ := warmUp_eq (g := ⟨g.wal.reopen.1,∅⟩) logs.reopen.1 keyed
  rw [run]
  refine ⟨logs.reopen_status,rfl,fun v => ?_⟩
  rw [held,same]
  exact lookup_foldl_apply (steps.flatMap Step.entries) ∅ v

theorem recovered_rotated :
    let first := ((created 0 3 none).addVertex [] 1 5 []).1
    let second := (first.addEdge [] 1 2 7 9 [65]).1
    let third := (second.addEdge [] 1 3 7 0 []).1
    let fourth := (third.deleteEdge [] 1 2 7).1
    let last := (fourth.deleteVertex [] 8).1
    last.wal.gen = 5 ∧ (warmUp ⟨last.wal.reopen.1,∅⟩).1.adj_lists.lookup 1 = some [⟨3,7,0⟩] := by
  intro first second third fourth last
  have reached : Reached 0 3 [.addVertex 1 5 [],.addEdge 1 2 7 9 [65],.addEdge 1 3 7 0 [],.deleteEdge 1 2 7,.deleteVertex 8] last :=
    ((((Reached.created.addVertex [] 1 5 [] (by decide +kernel)).addEdge [] 1 2 7 9 [65] (by decide +kernel)).addEdge
      [] 1 3 7 0 [] (by decide +kernel)).deleteEdge [] 1 2 7 (by decide +kernel)).deleteVertex [] 8 (by decide +kernel)
  refine ⟨by decide +kernel,?_⟩
  rw [(recovered reached (by simp [Step.Framed])).2.2]
  decide +kernel

def vertexFront : Bytes := Wal.recordPrefix 1 Op.kRawKV 0 0 ++ le 4 13 ++ le 4 (2 ^ 32 - 1) ++ (GraphEntry.vertex 1 5).key

lemma rawKVPlain_wrapped (size : tenant.length = 2 ^ 32 - 1) :
    Wal.rawKVPlain 1 Op.kRawKV (GraphEntry.vertex 1 5).key tenant = vertexFront ++ tenant := by
  have vlen : (UInt32.ofNat tenant.length).toNat = 2 ^ 32 - 1 := by
    rw [size]
    decide
  have whole : tenant.take (2 ^ 32 - 1) = tenant := take_of_length_le (Nat.le_of_eq size)
  simp only [Wal.rawKVPlain,vlen,whole]
  rfl

lemma appendRecord_of_body {w : Wal} {plain : UInt64 → Bytes} {body : Bytes} {len : UInt32} (same : w.nextRecordBody plain = body)
    (counted : UInt32.ofNat (body.length + 4) = len) (outs : List Outcome) :
    w.appendRecord outs plain = Wal.writeOut {w with seq := w.seq + 1} outs (4 + len.toNat)
      [le 4 len.toNat,body,le 4 (crc32c body 0).toNat] (w.seq + 1) := by
  subst same counted
  rfl

lemma appendRawKV_wrapped (here : Wal.At w ⟨[],walFileHeader,[]⟩) (first : w.seq = 0) (unencrypted : w.cipher = none)
    (room : w.rotates 49 = false) (size : tenant.length = 2 ^ 32 - 1) :
    let next := (w.appendRawKV [] Op.kRawKV (GraphEntry.vertex 1 5).key tenant).1
    ∃ crc, next.dir = [some (walFileHeader ++ (le 4 45 ++ (vertexFront ++ tenant ++ crc)))] ∧ next.cipher = none := by
  intro next
  have counted : UInt32.ofNat ((vertexFront ++ tenant).length + 4) = 45 := by
    have front : vertexFront.length = 42 := by decide
    rw [length_append,front,size]
    decide
  have body : w.nextRecordBody (fun seq => Wal.rawKVPlain seq Op.kRawKV (GraphEntry.vertex 1 5).key tenant) = vertexFront ++ tenant := by
    simp only [Wal.nextRecordBody,Wal.bodyOf,unencrypted,first]
    exact rawKVPlain_wrapped size
  have written := Wal.writeOut_spec (here.setCounters (w.seq + 1) w.bytes_in_seg) [] 49
    [le 4 45,vertexFront ++ tenant,le 4 (crc32c (vertexFront ++ tenant) 0).toNat] (w.seq + 1)
  have result : next = (Wal.writeOut {w with seq := w.seq + 1} [] 49
      [le 4 45,vertexFront ++ tenant,le 4 (crc32c (vertexFront ++ tenant) 0).toNat] (w.seq + 1)).1 :=
    congrArg Prod.fst (appendRecord_of_body body counted [])
  obtain ⟨q,there,appended⟩ := written.place
  have stays : Wal.rotates {w with seq := w.seq + 1} 49 = false := room
  rw [stays,written.clean rfl] at appended
  rw [result]
  refine ⟨le 4 (crc32c (vertexFront ++ tenant) 0).toNat,?_,written.cipher.trans unencrypted⟩
  cases appended with
  | stays count all =>
    rw [there.dir,take_of_length_le (all rfl)]
    simp [Wal.Place.write]

lemma replayFile_wrapped (more : Bytes) (state : AdjLists × UInt64) :
    replayFile none state (walFileHeader ++ (le 4 45 ++ ((vertexFront ++ [0,0,0]) ++ more))) =
      (state,.corruption "wal crc mismatch") := by
  have wrong : leNat (slice (vertexFront ++ [0,0,0]) 41 4) ≠ (crc32c ((vertexFront ++ [0,0,0]).take 41) 0).toNat := by
    decide +kernel
  have refused : replayBody none state (vertexFront ++ [0,0,0]) = (state,.corruption "wal crc mismatch") := by
    rw [replayBody,if_neg (by decide)]
    exact if_pos wrong
  have size : (vertexFront ++ [0,0,0]).length = 45 := by decide
  generalize vertexFront ++ [0,0,0] = body at refused size ⊢
  have next : Wal.nextBody (le 4 45 ++ (body ++ more)) = some body := by
    have counted : leNat (le 4 45) = 45 := rfl
    simp [Wal.nextBody,slice_front,slice_behind,counted,size]
    omega
  have fuel : (walFileHeader ++ (le 4 45 ++ (body ++ more))).length = (15 + (4 + (45 + more.length))) + 1 := by
    simp [size]
    omega
  rw [replayFile,Wal.framesOffset_header,fuel]
  simp only []
  rw [drop_left' Wal.walFileHeader_length,Wal.bodies,next]
  simp only [replayBodies,refused]
  rfl

lemma reopen_single {w : Wal} {bytes : Bytes} (dir : w.dir = [some (walFileHeader ++ bytes)]) :
    w.reopen.1.dir = [some (walFileHeader ++ bytes),some walFileHeader] ∧ w.reopen.1.cipher = w.cipher ∧ w.reopen.1.seq = 0 := by
  have headers : Wal.checkHeaders [some (walFileHeader ++ bytes)] = .Ok := by
    rfl
  simp only [Wal.reopen,Wal.openLog,Wal.constructed,dir,headers]
  exact ⟨rfl,rfl,rfl⟩

lemma write_wrapped {tenant rest : Bytes} (size : tenant.length = 2 ^ 32 - 1) (zeros : tenant = [0,0,0] ++ rest) :
    let g := (created (2 ^ 20) 0 none).addVertex [] 1 5 tenant
    g.2 = .Ok ∧ g.1.adj_lists.lookup 1 = some [] ∧ (warmUp ⟨g.1.wal.reopen.1,∅⟩).2 = .corruption "wal crc mismatch" ∧
      (warmUp ⟨g.1.wal.reopen.1,∅⟩).1.adj_lists.lookup 1 = none := by
  obtain ⟨crc,dir,unencrypted⟩ := appendRawKV_wrapped (Wal.fresh_at (2 ^ 20) 0 none) rfl rfl (by decide) size
  have clean : ((Wal.fresh (2 ^ 20) 0 none).appendRawKV [] Op.kRawKV (GraphEntry.vertex 1 5).key tenant).2 = ([],.Ok) :=
    (Wal.appendRecord_clean ..).1
  simp only [addVertex,write,created,clean,Status.ok_Ok,if_true,true_and]
  generalize ((Wal.fresh (2 ^ 20) 0 none).appendRawKV [] Op.kRawKV (GraphEntry.vertex 1 5).key tenant).1 = next at dir unencrypted ⊢
  have layout : vertexFront ++ tenant ++ crc = (vertexFront ++ [0,0,0]) ++ (rest ++ crc) := by
    rw [zeros]
    simp
  rw [layout] at dir
  obtain ⟨opened,cipher,seq⟩ := reopen_single dir
  have refused : replayDir none (∅,0) [some (walFileHeader ++ (le 4 45 ++ ((vertexFront ++ [0,0,0]) ++ (rest ++ crc)))),some walFileHeader] =
      ((∅,0),.corruption "wal crc mismatch") := by
    simp only [replayDir,replayFile_wrapped]
    rfl
  simp only [warmUp,opened,cipher,unencrypted,seq,refused]
  exact ⟨by decide,trivial,rfl⟩

/-- A vertex with a tenant of 4 GiB less a byte is added with result Ok, and is missing after
recovery. -/
theorem recovered_wrapped :
    let g := (created (2 ^ 20) 0 none).addVertex [] 1 5 (replicate (2 ^ 32 - 1) 0)
    g.2 = .Ok ∧ g.1.adj_lists.lookup 1 = some [] ∧ (warmUp ⟨g.1.wal.reopen.1,∅⟩).2 = .corruption "wal crc mismatch" ∧
      (warmUp ⟨g.1.wal.reopen.1,∅⟩).1.adj_lists.lookup 1 = none := by
  have zeros {n : Nat} (some_ : 3 ≤ n) : replicate n (0 : UInt8) = [0,0,0] ++ replicate (n - 3) 0 := by
    obtain ⟨k,rfl⟩ := Nat.exists_eq_add_of_le some_
    rw [replicate_add,Nat.add_sub_cancel_left]
    rfl
  exact write_wrapped length_replicate (zeros (by decide))

end GraphMembraneImpl
end PomaiCache
