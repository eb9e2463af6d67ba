/-
MultiForge.Telemetry.Downstream — `forge.core.telemetry.downstream`: the
ledger of physical model attempts.

An attempt may be written in several partial records, in the shards of
several processes. The reader puts the records of one id over each other in
the order of their timestamps; the spend-cap tracker reads the same shards
and keeps, for every id, the last record with a cost in the order of the
files.

A timestamp is written with seconds and a `Z`, so its strings are ordered
as the times; here it is the time in seconds. A shard is the list of its
records: what is written leaves out null fields, and what is read puts them
back.
-/
import MultiForge.Json.Value
import MultiForge.Lib.Dict
import MultiForge.Lib.Latest
import MultiForge.Proxy.CostTracker

namespace MultiForge.Telemetry

open MultiForge.Proxy (Calendar CostShard ParsedCostRecord)

variable {F : Type}

/-! ## 1. Records -/

/-- The nullable fields of a record. -/
inductive Field where
  | requestId | proxyId | sourceId | sourceKind | backendId | forgeRunId | forgeRootRunId
  | providerSessionId | providerCommand
  | provider | selectedProvider | model | mappedModel | tier
  | inputTokens | outputTokens | cachedTokens | cacheWriteTokens | costMicros | reporter
  | latencyMs | failed
  | providerResponseId | providerGenerationId | providerRequestId | providerHeaders
  | requestMode | streamStarted | firstChunkSeen | finalUsageSeen | clientDisconnected
  | localUsageStatus | timeoutSeen | reportedCostMicros
  | auditRecordType | payload
  deriving DecidableEq

inductive DownstreamKind where
  | attempt | audit | drift | mutation
  deriving DecidableEq

inductive Confidence where
  | reported | gatewayCalculated | inferred | unavailable | unknown
  deriving DecidableEq

/-- `DOWNSTREAM_SCHEMA_VERSION` -/
def downstreamSchemaVersion : ℕ := 2

/-- Ids are minted, and never empty. -/
abbrev EventId : Type := { s : String // s ≠ "" }

/-- `DownstreamRecord` -/
structure DownstreamRecord (F : Type) where
  kind : DownstreamKind
  downstreamEventId : EventId
  fields : Field → Option (Json F)
  confidence : Confidence := .unknown
  schemaVersion : ℕ := downstreamSchemaVersion
  ts : ℕ

namespace DownstreamRecord

/-- `str` fields -/
def has (r : DownstreamRecord F) (f : Field) (s : String) : Bool :=
  match r.fields f with
  | some (.str t) => t == s
  | _ => false

def costMicros (r : DownstreamRecord F) : Option ℤ :=
  match r.fields .costMicros with
  | some (.int n) => some n
  | _ => none

/-- A confidence that is not `unknown`. -/
def known (r : DownstreamRecord F) : Option Confidence :=
  if r.confidence = .unknown then none else some r.confidence

/-- The later non-null fields over the current ones. -/
def overlay (current rec : DownstreamRecord F) : DownstreamRecord F :=
  { current with
    ts := rec.ts
    confidence :=
      if rec.confidence = .unknown ∧ current.confidence ≠ .unknown then current.confidence
      else rec.confidence
    fields := fun f => (rec.fields f).or (current.fields f) }

end DownstreamRecord

/-- A `*.jsonl` file of the ledger. -/
structure DownstreamShard (F : Type) where
  stem : String
  records : List (DownstreamRecord F)

/-! ## 2. The reader -/

/-- The attempt that is there, with one more record. -/
def mergeOne (current : Option (DownstreamRecord F)) (rec : DownstreamRecord F) :
    DownstreamRecord F :=
  match current with
  | none => rec
  | some c => c.overlay rec

/-- The merged attempts, in the order of their first records. -/
def mergedAttempts (records : List (DownstreamRecord F)) : Dict EventId (DownstreamRecord F) :=
  Dict.upsertEach mergeOne
    ((records.filter fun r => r.kind = .attempt).map fun r => (r.downstreamEventId, r)) Dict.empty

def sortByTs (records : List (DownstreamRecord F)) : List (DownstreamRecord F) :=
  records.mergeSort fun a b => decide (a.ts ≤ b.ts)

/-- `_merge_attempt_records` -/
def mergeAttemptRecords (records : List (DownstreamRecord F)) : List (DownstreamRecord F) :=
  sortByTs ((mergedAttempts records).entries.map Prod.snd ++
    records.filter fun r => r.kind ≠ .attempt)

/-- The arguments of `read_downstream_records` after the period. -/
structure ReadFilter where
  kind : Option DownstreamKind := none
  requestId : Option String := none
  proxyId : Option String := none
  backendId : Option String := none
  forgeRunId : Option String := none
  forgeRootRunId : Option String := none
  providerSessionId : Option String := none

/-- `value and record.get(field) != value` skips a record. -/
def DownstreamRecord.matchesField (r : DownstreamRecord F) (f : Field) (value : Option String) :
    Bool :=
  match value with
  | none => true
  | some s => s == "" || r.has f s

/-- The filters that run before the merge. -/
def ReadFilter.passes (filter : ReadFilter) (r : DownstreamRecord F) : Bool :=
  r.matchesField .requestId filter.requestId && r.matchesField .proxyId filter.proxyId &&
  r.matchesField .forgeRunId filter.forgeRunId &&
  r.matchesField .forgeRootRunId filter.forgeRootRunId &&
  r.matchesField .providerSessionId filter.providerSessionId

/-- `sorted(log_dir.glob("*.jsonl"))` -/
def sortedDownstreamShards (shards : List (DownstreamShard F)) : List (DownstreamShard F) :=
  shards.insertionSort fun a b => a.stem ++ ".jsonl" ≤ b.stem ++ ".jsonl"

/-- The records of all shards, in the order of the files. -/
def shardRecords (shards : List (DownstreamShard F)) : List (DownstreamRecord F) :=
  (sortedDownstreamShards shards).flatMap DownstreamShard.records

/-- `read_downstream_records` -/
def readDownstreamRecords (filter : ReadFilter) (shards : List (DownstreamShard F)) :
    List (DownstreamRecord F) :=
  let kept := (shardRecords shards).filter fun r =>
    (filter.kind.all fun k => k = r.kind) && r.schemaVersion = downstreamSchemaVersion &&
      filter.passes r
  (mergeAttemptRecords (sortByTs kept)).filter fun r => r.matchesField .backendId filter.backendId

/-! ## 3. What the spend-cap tracker reads -/

/-- `_parse_record` of a line -/
def parseRecord (cal : Calendar) (r : DownstreamRecord F) : Option ParsedCostRecord :=
  match r.costMicros with
  | none => none
  | some cost =>
      if h : 0 < cost then
        some
          { tsUnix := r.ts
            costMicros := cost
            monthKey := cal.month r.ts
            proxyId := match r.fields .proxyId with
              | some (.str p) => some p
              | _ => none
            downstreamEventId := some r.downstreamEventId.val
            cost_pos := h }
      else none

/-- A shard as `bootstrap_from_logs` sees it. -/
def DownstreamShard.costs (cal : Calendar) (shard : DownstreamShard F) : CostShard where
  stem := shard.stem
  records := shard.records.filterMap (parseRecord cal)

end MultiForge.Telemetry
