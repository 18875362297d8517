import PomaiCache.Graph
import PomaiCache.TimeSeries
import PomaiCache.KeyValueReopen
import PomaiCache.Blob
import PomaiCache.Spatial
import PomaiCache.Mesh

/-!
The membranes that keep a log, and what it means to open one that is open. Each engine
applies its whole log to the state it already has: maps absorb this, lists of points and of
edges grow by it, and the mesh engine takes its own puts for newer than its reduced meshes.
-/
namespace PomaiCache
open Codec

/-- A membrane with its engine. A meta membrane has a key-value engine. -/
inductive Membrane
  | graph (engine : GraphMembraneImpl)
  | timeSeries (engine : TimeSeriesEngine)
  | keyValue (engine : KeyValueEngine)
  | metaStore (engine : KeyValueEngine)
  | blob (engine : BlobEngine)
  | spatial (engine : SpatialEngine)
  | mesh (engine : MeshEngine)

namespace Membrane

/-- The two clock readings of an opening and the orders in which the maps are walked. -/
structure Env where
  now : UInt64
  later : UInt64
  kv : Dict.Walk Bytes KvEntry
  points : Dict.Walk UInt64 SpatialPoint
  meshes : Dict.Walk UInt64 MeshRecord

def openMembrane (env : Env) : Membrane → Membrane × Status
  | graph engine => (graph engine.warmUp.1,engine.warmUp.2)
  | timeSeries engine => (timeSeries engine.openEngine,.Ok)
  | keyValue engine => (keyValue (engine.openEngine env.kv env.now env.later),.Ok)
  | metaStore engine => (metaStore (engine.openEngine env.kv env.now env.later),.Ok)
  | blob engine => (blob engine.openEngine,.Ok)
  | spatial engine => (spatial (engine.openEngine env.points),.Ok)
  | mesh engine => (mesh (engine.openEngine env.meshes),.Ok)

/-- `Close` of each of the engines does nothing, and a graph membrane is not closed at all. -/
def closeMembrane (m : Membrane) : Membrane × Status := (m,.Ok)

/-- The answers of the queries agree, from `time` on where they depend on the clock. Searches
among points are computed from the map of the points, and measurements of meshes from the
meshes they resolve. -/
def SameAnswers (time : UInt64) : Membrane → Membrane → Prop
  | graph left,graph right => ∀ src, left.getNeighbors src = right.getNeighbors src ∧
      ∀ type, left.getNeighborsOfType src type = right.getNeighborsOfType src type
  | timeSeries left,timeSeries right => ∀ series_id start_ts end_ts,
      left.range series_id start_ts end_ts = right.range series_id start_ts end_ts
  | keyValue left,keyValue right => ∀ now ≥ time, ∀ key, (left.get now key).toOption = (right.get now key).toOption
  | metaStore left,metaStore right => ∀ now ≥ time, ∀ key, (left.get now key).toOption = (right.get now key).toOption
  | blob left,blob right => ∀ id, left.get id = right.get id
  | spatial left,spatial right => left.points = right.points
  | mesh left,mesh right => ∀ mesh_id detail, left.resolveMesh mesh_id detail = right.resolveMesh mesh_id detail
  | _,_ => False

/-- A run of public writes and restarts of the process on a membrane that was created on an
empty directory. -/
inductive Run
  | graph (segment_bytes : Nat) (shard_id : UInt32) (cipher : Option Cipher) (steps : List GraphMembraneImpl.Step)
  | timeSeries (std : Sorter) (limit : Nat) (steps : List TimeSeriesEngine.Step)
  | keyValue (max_entries : Nat) (retention : RetentionPolicy) (first last : UInt64) (steps : List KeyValueEngine.Step)
  | metaStore (max_entries : Nat) (retention : RetentionPolicy) (first last : UInt64) (steps : List KeyValueEngine.Step)
  | blob (max_blob_bytes : UInt64) (steps : List BlobEngine.Step)
  | spatial (max_points : Nat) (steps : List SpatialEngine.Step)
  | mesh (builder : LodBuilder) (max_meshes mesh_lod_max_queue : Nat) (steps : List MeshEngine.Step)

namespace Run

def reached : Run → Membrane
  | graph segment_bytes shard_id cipher steps => .graph ((GraphMembraneImpl.created segment_bytes shard_id cipher).runAll steps)
  | timeSeries std limit steps => .timeSeries ((TimeSeriesEngine.created limit).runAll std steps)
  | keyValue max_entries retention _ _ steps => .keyValue ((KeyValueEngine.created max_entries retention []).runSteps steps)
  | metaStore max_entries retention _ _ steps => .metaStore ((KeyValueEngine.created max_entries retention []).runSteps steps)
  | blob max_blob_bytes steps => .blob ((BlobEngine.created max_blob_bytes).runAll steps)
  | spatial max_points steps => .spatial ((SpatialEngine.created max_points).runAll steps)
  | mesh builder max_meshes mesh_lod_max_queue steps => .mesh ((MeshEngine.created max_meshes mesh_lod_max_queue).runAll builder steps)

/-- Nothing is evicted, and what is written fits the fields of the logs. -/
def Spares : Run → Prop
  | graph _ _ _ steps => ∀ s ∈ steps, s.Fits
  | timeSeries std limit steps => (TimeSeriesEngine.created limit).SparesAll std steps
  | keyValue max_entries retention _ _ steps => (KeyValueEngine.created max_entries retention []).SparesSteps steps
  | metaStore max_entries retention _ _ steps => (KeyValueEngine.created max_entries retention []).SparesSteps steps
  | blob _ steps => ∀ s ∈ steps, s.Fits
  | spatial max_points steps => (SpatialEngine.created max_points).SparesAll steps
  | mesh builder max_meshes mesh_lod_max_queue steps => steps.length < 2 ^ 63 ∧
      (MeshEngine.created max_meshes mesh_lod_max_queue).SparesAll builder steps

/-- The clock does not run backwards, from the start of the run to the end of the opening. -/
def Timed (env : Env) : Run → Prop
  | keyValue _ _ first last steps => KeyValueEngine.Times first last steps ∧ last ≤ env.now ∧ env.now ≤ env.later
  | metaStore _ _ first last steps => KeyValueEngine.Times first last steps ∧ last ≤ env.now ∧ env.now ≤ env.later
  | _ => True

def Absorbs : Run → Prop
  | graph segment_bytes shard_id cipher steps =>
    let g := (GraphMembraneImpl.created segment_bytes shard_id cipher).runAll steps
    ∀ v, g.getNeighbors v = [] ∨ .deleteVertex v ∈ steps ∨ ∀ n ∈ g.getNeighbors v, .deleteEdge v n.id n.type ∈ steps
  | timeSeries std limit steps =>
    let e := (TimeSeriesEngine.created limit).runAll std steps
    ∀ series_id, e.points series_id = [] ∨
      (e.points series_id).length = e.max_points_per_series ∧ e.points series_id = e.logged series_id
  | mesh builder max_meshes mesh_lod_max_queue steps =>
    let e := (MeshEngine.created max_meshes mesh_lod_max_queue).runAll builder steps
    ∀ mesh_id, e.resolveMesh mesh_id .kAutoLatencyFirst = e.resolveMesh mesh_id .kHighDetail
  | _ => True

end Run

/-- Opening a membrane again, closed before or not, changes no answer exactly when its state
absorbs its log: always for key-value, meta, blob and spatial membranes; for a graph when
every vertex with neighbours was deleted at some time or each of its edges was; for time
series when every series with points is full and was put in order; for meshes when no
reduced mesh other than the base is chosen. -/
theorem openMembrane_same_iff (run : Run) (env : Env) (closed : Bool) (spares : run.Spares) (timed : run.Timed env) :
    SameAnswers env.later ((if closed then run.reached.closeMembrane.1 else run.reached).openMembrane env).1 run.reached ↔
      run.Absorbs := by
  have close : (if closed then run.reached.closeMembrane.1 else run.reached) = run.reached := by
    cases closed <;> rfl
  rw [close]
  cases run with
  | graph segment_bytes shard_id cipher steps =>
    have each (v : UInt64) := GraphMembraneImpl.warmUp_same_iff segment_bytes shard_id cipher spares v
    constructor
    · intro same v
      exact (each v).mp (same v).1
    · intro absorbs v
      have neighbors := (each v).mpr (absorbs v)
      simp [GraphMembraneImpl.getNeighborsOfType,neighbors]
  | timeSeries std limit steps =>
    obtain ⟨puts,logged⟩ := (TimeSeriesEngine.Logged.created limit).runAll spares
    refine forall_congr' fun series_id => ?_
    rw [TimeSeriesEngine.range_eq_iff]
    exact logged.opened_same_iff series_id
  | keyValue max_entries retention first last steps | metaStore max_entries retention first last steps =>
    obtain ⟨times,behind,le⟩ := timed
    obtain ⟨log,tracks,none_⟩ := (KeyValueEngine.Tracks.created max_entries retention first).runSteps rfl times spares
    refine iff_of_true (fun now after key => ?_) trivial
    exact tracks.opened_get none_ (UInt64.le_trans behind le) env.kv env.now after key
  | blob max_blob_bytes steps =>
    obtain ⟨rs,logged⟩ := (BlobEngine.Logged.created max_blob_bytes).runAll spares
    exact iff_of_true logged.opened_get trivial
  | spatial max_points steps =>
    obtain ⟨ps,logged⟩ := (SpatialEngine.Logged.created max_points).runAll spares
    refine iff_of_true ?_ trivial
    exact congrArg SpatialEngine.points (logged.opened_eq env.points)
  | mesh builder max_meshes mesh_lod_max_queue steps =>
    obtain ⟨few,spares⟩ := spares
    obtain ⟨bases,lods,logged,few⟩ := (MeshEngine.Logged.created max_meshes mesh_lod_max_queue).runAll (by simpa using few) spares
    exact forall_congr' fun mesh_id => logged.opened_same_iff few env.meshes mesh_id

def deletedBefore : Run :=
  .graph 4096 0 none [.addEdge 1 2 7 0 [],.deleteVertex 1,.addEdge 1 3 7 0 [97],.restart,.addVertex 4 1 []]

def keptKeys : Run :=
  .keyValue 2 ⟨100,2,0⟩ 1 9 [.call (.put .plain 2 2 [97] [1]),.restart .plain 3 3,.call (.delete 4 [97]),
    .call (.put .plain 5 5 [98] [2]),.call (.compact .plain 6)]

def plainEnv : Env := ⟨10,11,.plain,.plain,.plain⟩

theorem openMembrane_same_runs :
    (SameAnswers 11 ((if true then deletedBefore.reached.closeMembrane.1 else deletedBefore.reached).openMembrane plainEnv).1
      deletedBefore.reached ↔ deletedBefore.Absorbs) ∧
    (SameAnswers 11 ((if false then keptKeys.reached.closeMembrane.1 else keptKeys.reached).openMembrane plainEnv).1
      keptKeys.reached ↔ keptKeys.Absorbs) :=
  ⟨openMembrane_same_iff deletedBefore plainEnv true (by simp [deletedBefore,Run.Spares,GraphMembraneImpl.Step.Fits]) trivial,
    openMembrane_same_iff keptKeys plainEnv false
      (show (KeyValueEngine.created 2 ⟨100,2,0⟩ []).SparesSteps _ by decide +kernel)
      (show KeyValueEngine.Times 1 9 _ ∧ (9 : UInt64) ≤ 10 ∧ (10 : UInt64) ≤ 11 by decide +kernel)⟩

/-- Opened once more, a series has each point twice, and a vertex each neighbour. -/
theorem openMembrane_doubles :
    let e := (TimeSeriesEngine.created 0).runAll TimeSeriesEngine.insertionSorter [.put ⟨1,⟨5,50⟩⟩]
    let g := (GraphMembraneImpl.created 4096 0 none).runAll [.addEdge 1 2 7 0 []]
    e.range 1 0 9 = [⟨5,50⟩] ∧ e.openEngine.range 1 0 9 = [⟨5,50⟩,⟨5,50⟩] ∧
      g.getNeighbors 1 = [⟨2,7,0⟩] ∧ g.warmUp.1.getNeighbors 1 = [⟨2,7,0⟩,⟨2,7,0⟩] ∧ g.warmUp.2 = .Ok := by
  decide +kernel

end Membrane
end PomaiCache
