/-
MultiForge.Proxy.CostTracker — `forge.proxy.cost_tracker`: spend caps over
a rolling 24 hours and a calendar month.

Times are seconds as rationals: the one thing computed with them is
`now - 86400`, which is exact on floats of this size. What a call reads
from outside is its argument: the clock, the outcome of a state write, and
whether a queued write has finished. A shard is the list of the records
its lines parse to; lines that do not parse or carry no positive cost are
skipped by `_parse_record` and are not in it.
-/
import Mathlib.Algebra.Order.Field.Rat
import Mathlib.Data.List.Sort
import MultiForge.Lib.Window
import MultiForge.Proxy.ClientAdapter

namespace MultiForge.Proxy

/-! ## 1. Records and shards -/

/-- `_ParsedCostRecord` -/
structure ParsedCostRecord where
  tsUnix : ℚ
  costMicros : ℤ
  monthKey : String
  proxyId : Option String := none
  downstreamEventId : Option String := none
  /-- `_parse_record` returns nothing for other costs -/
  cost_pos : 0 < costMicros := by decide
  deriving DecidableEq

/-- A `*.jsonl` file of the log directory. -/
structure CostShard where
  stem : String
  records : List ParsedCostRecord
  deriving DecidableEq

/-- An entry of `_daily_window`. -/
abbrev WindowEntry := ℚ × ℤ

/-- `CapState` as `load_cap_state` returns it. -/
structure CapState where
  monthlyKey : String
  monthlyTotalMicros : ℤ
  dailyWindow : List WindowEntry
  deriving DecidableEq

/-- `_24H_SECONDS` -/
def daySeconds : ℚ := 86400

/-- The names of the months: `%Y-%m` of a time, and of the month before. -/
structure Calendar where
  month : ℚ → String
  prevMonth : ℚ → String

/-- `fname.split("_")[0] if "_" in fname else fname` -/
def fileMonth (fname : String) : String := String.ofList (fname.toList.takeWhile (· ≠ '_'))

/-- `keyed_log_records[key] = record` -/
def setKeyed (key : String) (r : ParsedCostRecord) :
    List (String × ParsedCostRecord) → List (String × ParsedCostRecord)
  | [] => [(key, r)]
  | (k, r') :: rest => if k = key then (k, r) :: rest else (k, r') :: setKeyed key r rest

/-- `unkeyed_log_records` and `keyed_log_records`. -/
structure LogRecords where
  unkeyed : List ParsedCostRecord := []
  keyed : List (String × ParsedCostRecord) := []
  deriving DecidableEq

def LogRecords.add (logs : LogRecords) (r : ParsedCostRecord) : LogRecords :=
  match r.downstreamEventId with
  | some key =>
      if key ≠ "" then { logs with keyed := setKeyed key r logs.keyed }
      else { logs with unkeyed := logs.unkeyed ++ [r] }
  | none => { logs with unkeyed := logs.unkeyed ++ [r] }

/-- `[*unkeyed_log_records, *keyed_log_records.values()]` -/
def LogRecords.all (logs : LogRecords) : List ParsedCostRecord :=
  logs.unkeyed ++ logs.keyed.map Prod.snd

/-- `sorted(log_dir.glob("*.jsonl"))` -/
def sortedShards (shards : List CostShard) : List CostShard :=
  shards.insertionSort fun a b => a.stem ++ ".jsonl" ≤ b.stem ++ ".jsonl"

/-- The records of the two months, of one proxy when its id is given. -/
def readLogs (months : String × String) (proxyId : Option String) (shards : List CostShard) :
    LogRecords :=
  let shards := (sortedShards shards).filter fun shard =>
    fileMonth shard.stem = months.1 ∨ fileMonth shard.stem = months.2
  let records := (shards.flatMap CostShard.records).filter fun r =>
    proxyId = none ∨ r.proxyId = proxyId
  records.foldl LogRecords.add {}

/-- The records that are in the window, as its entries. -/
def logDailyWindow (cutoff : ℚ) (records : List ParsedCostRecord) : List WindowEntry :=
  (records.filter fun r => cutoff ≤ r.tsUnix).map fun r => (r.tsUnix, r.costMicros)

def logMonthlyTotal (month : String) (records : List ParsedCostRecord) : ℤ :=
  ((records.filter fun r => r.monthKey = month).map ParsedCostRecord.costMicros).sum

/-- The total cost of entries. -/
def totalMicros (w : List WindowEntry) : ℤ := (w.map Prod.snd).sum

/-! ## 2. The tracker -/

structure CostTracker where
  dailyCapMicros : Option ℤ := none
  monthlyCapMicros : Option ℤ := none
  dailyWindow : List WindowEntry := []
  monthlyTotal : ℤ := 0
  monthlyKey : String := ""
  proxyId : Option String := none
  dirtyCapRecords : ℕ := 0
  lastCapPersistedAt : ℚ := 0
  /-- a snapshot sink is set; without one the state is written directly -/
  capStatePersister : Bool := false
  /-- a queued snapshot whose outcome has not been applied -/
  pendingCapPersist : Bool := false
  pendingCapRecordCount : ℕ := 0
  capPersistRetryRequired : Bool := false
  deriving DecidableEq

/-- `CostTracker(...)` -/
def CostTracker.new (dailyCapMicros monthlyCapMicros : Option ℤ) (sink : Bool) : CostTracker :=
  { dailyCapMicros, monthlyCapMicros, capStatePersister := sink }

/-- What happens to a snapshot. -/
inductive SinkOutcome where
  /-- written, or taken by the sink -/
  | accepted
  /-- the sink returned `None` -/
  | refused
  | raised
  deriving DecidableEq, Repr

/-- What one call reads from outside. -/
structure Outside where
  /-- `time.time()` in the call itself -/
  now : ℚ
  /-- `datetime.now(timezone.utc)` -/
  today : ℚ
  /-- `time.time()` in `_prune_daily_window` -/
  pruneNow : ℚ
  monotonic : ℚ := 0
  /-- the finished queued writes: none, or whether it succeeded; asked once
  before and once inside `_persist_cap_state` -/
  done : Option Bool := none
  done' : Option Bool := none
  sink : SinkOutcome := .accepted
  /-- the clock does not go back during the call -/
  ordered : now ≤ pruneNow := by decide
  deriving DecidableEq

/-- `_prune_daily_window` -/
def CostTracker.pruneDailyWindow (t : CostTracker) (now : ℚ) : CostTracker :=
  { t with dailyWindow := Window.prune (now - daySeconds) t.dailyWindow }

/-- `_acknowledge_cap_persist` -/
def CostTracker.acknowledgeCapPersist (t : CostTracker) (monotonic : ℚ) (done : Option Bool) :
    CostTracker :=
  if !t.pendingCapPersist then t
  else match done with
    | none => t
    | some true =>
        let dirty := t.dirtyCapRecords - t.pendingCapRecordCount
        { t with
          dirtyCapRecords := dirty
          lastCapPersistedAt := if dirty = 0 then monotonic else t.lastCapPersistedAt
          capPersistRetryRequired := false
          pendingCapPersist := false
          pendingCapRecordCount := 0 }
    | some false =>
        { t with
          capPersistRetryRequired := true
          pendingCapPersist := false
          pendingCapRecordCount := 0 }

/-- Hand a snapshot on. -/
def CostTracker.writeCapState (t : CostTracker) (x : Outside) : CostTracker :=
  if t.capStatePersister then
    match x.sink with
    | .accepted =>
        { t with pendingCapPersist := true, pendingCapRecordCount := t.dirtyCapRecords }
    | _ => { t with capPersistRetryRequired := true }
  else
    match x.sink with
    | .accepted =>
        { t with
          dirtyCapRecords := 0
          lastCapPersistedAt := x.monotonic
          capPersistRetryRequired := false }
    | _ => { t with capPersistRetryRequired := true }

/-- Prune and hand on a snapshot, unless one is still queued. -/
def CostTracker.snapshotCapState (t : CostTracker) (x : Outside) : CostTracker :=
  if t.pendingCapPersist then t else (t.pruneDailyWindow x.pruneNow).writeCapState x

/-- `_persist_cap_state` -/
def CostTracker.persistCapState (t : CostTracker) (x : Outside) : CostTracker :=
  if !nonEmpty t.proxyId then t
  else (t.acknowledgeCapPersist x.monotonic x.done').snapshotCapState x

/-- A snapshot is due after ten records or five seconds. -/
def CostTracker.persistIfDue (t : CostTracker) (x : Outside) : CostTracker :=
  if t.capPersistRetryRequired ∨ 10 ≤ t.dirtyCapRecords ∨
      5 ≤ x.monotonic - t.lastCapPersistedAt then t.persistCapState x
  else t

def CostTracker.countRecord (t : CostTracker) : CostTracker :=
  { t with dirtyCapRecords := t.dirtyCapRecords + 1 }

/-- `_maybe_persist_cap_state` -/
def CostTracker.maybePersistCapState (t : CostTracker) (x : Outside) : CostTracker :=
  if !nonEmpty t.proxyId then t
  else (t.acknowledgeCapPersist x.monotonic x.done).countRecord.persistIfDue x

def CostTracker.persistIfDirty (t : CostTracker) (x : Outside) : CostTracker :=
  if 0 < t.dirtyCapRecords ∨ t.capPersistRetryRequired then t.persistCapState x else t

/-- `flush_cap_state` -/
def CostTracker.flushCapState (t : CostTracker) (x : Outside) : CostTracker :=
  (t.acknowledgeCapPersist x.monotonic x.done).persistIfDirty x

/-- `_roll_month_if_needed` -/
def CostTracker.rollMonthIfNeeded (t : CostTracker) (cal : Calendar) (now : ℚ) : CostTracker :=
  if cal.month now ≠ t.monthlyKey then { t with monthlyTotal := 0, monthlyKey := cal.month now }
  else t

/-- Count a cost in both accounts. -/
def CostTracker.addCost (t : CostTracker) (now : ℚ) (cost : ℤ) : CostTracker :=
  { t with
    monthlyTotal := t.monthlyTotal + cost
    dailyWindow := t.dailyWindow ++ [(now, cost)] }

/-- `record` -/
def CostTracker.record (t : CostTracker) (cal : Calendar) (costMicros : Option ℤ) (x : Outside) :
    CostTracker :=
  match costMicros with
  | none => t
  | some cost =>
      if cost ≤ 0 then t
      else ((t.rollMonthIfNeeded cal x.today).addCost x.now cost).maybePersistCapState x

/-- `daily_spend_micros` -/
def CostTracker.dailySpendMicros (t : CostTracker) (x : Outside) : ℤ × CostTracker :=
  let t := t.pruneDailyWindow x.pruneNow
  (totalMicros t.dailyWindow, t)

/-- `monthly_spend_micros` -/
def CostTracker.monthlySpendMicros (t : CostTracker) (cal : Calendar) (x : Outside) :
    ℤ × CostTracker :=
  let t := t.rollMonthIfNeeded cal x.today
  (t.monthlyTotal, t)

/-- `CapResult` -/
structure CapResult where
  exceeded : Bool
  capType : Option String := none
  currentMicros : ℤ := 0
  limitMicros : ℤ := 0
  deriving DecidableEq, Repr

/-- The monthly half of `check_cap`. -/
def CostTracker.checkMonthlyCap (t : CostTracker) (cal : Calendar) (x : Outside) :
    CapResult × CostTracker :=
  match t.monthlyCapMicros with
  | none => ({ exceeded := false }, t)
  | some cap =>
      let monthly := t.monthlySpendMicros cal x
      if cap ≤ monthly.1 then (⟨true, some "monthly", monthly.1, cap⟩, monthly.2)
      else ({ exceeded := false }, monthly.2)

/-- `check_cap` -/
def CostTracker.checkCap (t : CostTracker) (cal : Calendar) (x : Outside) :
    CapResult × CostTracker :=
  match t.dailyCapMicros with
  | none => t.checkMonthlyCap cal x
  | some cap =>
      let daily := t.dailySpendMicros x
      if cap ≤ daily.1 then (⟨true, some "daily", daily.1, cap⟩, daily.2)
      else daily.2.checkMonthlyCap cal x

/-! ## 3. Bootstrap -/

/-- What `bootstrap_from_logs` reads: its clock, the shards, and the state
`load_cap_state` returns; `none` when there is none or reading it raises. -/
structure BootSource where
  shards : List CostShard
  state : Option CapState := none
  outside : Outside
  deriving DecidableEq

/-- The records of this and the previous month. -/
def BootSource.records (src : BootSource) (cal : Calendar) (proxyId : Option String) :
    List ParsedCostRecord :=
  (readLogs (cal.month src.outside.today, cal.prevMonth src.outside.today) proxyId
    src.shards).all

/-- The state is only read under a proxy id. -/
def BootSource.capState (src : BootSource) (proxyId : Option String) : Option CapState :=
  if nonEmpty proxyId then src.state else none

def BootSource.stateDailyWindow (src : BootSource) (proxyId : Option String) : List WindowEntry :=
  match src.capState proxyId with
  | some state => Window.recent (src.outside.now - daySeconds) state.dailyWindow
  | none => []

def BootSource.stateMonthlyTotal (src : BootSource) (cal : Calendar) (proxyId : Option String) :
    ℤ :=
  match src.capState proxyId with
  | some state =>
      if state.monthlyKey = cal.month src.outside.today then state.monthlyTotalMicros else 0
  | none => 0

/-- The window of the records, or that of the state when it has spent
more. -/
def BootSource.dailyWindow (src : BootSource) (cal : Calendar) (proxyId : Option String) :
    List WindowEntry :=
  let log := logDailyWindow (src.outside.now - daySeconds) (src.records cal proxyId)
  if totalMicros log < totalMicros (src.stateDailyWindow proxyId) then
    src.stateDailyWindow proxyId
  else log

/-- `bootstrap_from_logs` -/
def CostTracker.bootstrapFromLogs (t : CostTracker) (cal : Calendar) (src : BootSource)
    (proxyId : Option String) : CostTracker :=
  CostTracker.persistCapState { t with
    proxyId := proxyId
    monthlyKey := cal.month src.outside.today
    monthlyTotal := max
      (logMonthlyTotal (cal.month src.outside.today) (src.records cal proxyId))
      (src.stateMonthlyTotal cal proxyId)
    dailyWindow := src.dailyWindow cal proxyId } src.outside

end MultiForge.Proxy
