import PomaiCache.Quantizers

/-!
The settings of a membrane, with the defaults of the source.
-/
namespace PomaiCache.Options
open Codec

inductive MetricType
  | kL2 | kInnerProduct | kCosine
  deriving DecidableEq, Repr

inductive MembraneKind
  | kVector | kRag | kGraph | kText | kTimeSeries | kKeyValue | kSketch | kBlob | kSpatial | kMesh | kSparse | kBitset
  | kMeta | kAudio | kBloom | kDocument
  deriving DecidableEq, Repr

inductive IndexType
  | kIvfFlat | kHnsw
  deriving DecidableEq, Repr

/-- The index parameters; a segment file depends on two of them. -/
structure IndexParams where
  type : IndexType := .kIvfFlat
  nlist : UInt32 := 64
  nprobe : UInt32 := 16
  hnsw_m : UInt32 := 32
  hnsw_ef_construction : UInt32 := 200
  hnsw_ef_search : UInt32 := 64
  adaptive_threshold : UInt32 := 5000
  quant_type : QuantizationType := .kNone
  pq_m : UInt32 := 8
  hnsw_no_vector_pool : Bool := false
  deriving DecidableEq, Repr

structure MembraneSpec where
  name : Bytes := []
  shard_count : UInt32 := 0
  dim : UInt32 := 0
  metric : MetricType := .kL2
  index_params : IndexParams := {}
  kind : MembraneKind := .kVector
  sync_lsn : UInt64 := 0
  ttl_sec : UInt32 := 0
  retention_max_count : UInt32 := 0
  retention_max_bytes : UInt64 := 0
  deriving DecidableEq, Repr

end PomaiCache.Options
