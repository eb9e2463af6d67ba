/-
MultiForge.Telemetry.SpendTotal — the monthly total that the spend-cap
tracker computes from the ledger, and the one that the merged records give.

Both are sums over attempts (`monthlyTotal_eq`, `mergedTotal_eq`), so they
are compared attempt by attempt: the tracker counts the last record with a
cost in the order of the files, the reader the latest value of every field.
`counted_iff` says when the two count one attempt alike.
-/
import Mathlib.Algebra.BigOperators.Group.Finset.Basic
import Mathlib.Algebra.Order.BigOperators.Group.List
import MultiForge.Proxy.RollingSpend
import MultiForge.Telemetry.DownstreamMerge

namespace MultiForge.Telemetry

open MultiForge.Proxy

variable {F : Type}

/-! ## 1. Sums over dictionaries -/

/-- A sum over the values of a dictionary is a sum over its keys. -/
theorem sum_values {κ α : Type} [DecidableEq κ] (d : Dict κ α) (value : α → ℤ) (keys : Finset κ)
    (hkeys : ∀ e ∈ d.entries, e.1 ∈ keys) :
    (d.entries.map fun e => value e.2).sum = ∑ k ∈ keys, ((d.get? k).map value).getD 0 := by
  have hlist : (d.entries.map fun e => value e.2)
      = (d.entries.map Prod.fst).map fun k => ((d.get? k).map value).getD 0 := by
    rw [List.map_map]
    refine List.map_congr_left fun e he => ?_
    have hget : d.get? e.1 = some e.2 := Dict.get?_eq_some_iff.mpr he
    show value e.2 = ((d.get? e.1).map value).getD 0
    rw [hget]
    rfl
  rw [hlist, ← List.sum_toFinset _ d.nodup]
  refine Finset.sum_subset ?_ ?_
  · intro k hk
    obtain ⟨e, he, rfl⟩ := List.mem_map.mp (List.mem_toFinset.mp hk)
    exact hkeys e he
  · intro k _ hk
    rw [List.mem_toFinset] at hk
    have hnone : d.get? k = none := Dict.find_eq_none_iff.mpr hk
    rw [hnone]
    rfl

/-- A sum over some elements. -/
theorem sum_filter_map {α : Type} (l : List α) (p : α → Bool) (value : α → ℤ) :
    ((l.filter p).map value).sum = (l.map fun a => if p a then value a else 0).sum := by
  induction l with
  | nil => rfl
  | cons a rest ih => cases h : p a <;> simp [h, ih]

theorem foldl_last {α : Type} (l : List α) (o : Option α) :
    l.foldl (fun _ a => some a) o = l.getLast?.or o := by
  induction l using List.reverseRecOn with
  | nil => rfl
  | append_singleton l a _ => simp

/-! ## 2. The tracker -/

/-- The records in the shards of this and the previous month. -/
def trackedRecords (cal : Calendar) (today : ℚ) (shards : List (DownstreamShard F)) :
    List (DownstreamRecord F) :=
  ((sortedDownstreamShards shards).filter fun shard =>
    fileMonth shard.stem = cal.month today ∨ fileMonth shard.stem = cal.prevMonth today).flatMap
    DownstreamShard.records

/-- A record with a cost of the proxy. -/
def counted (cal : Calendar) (proxyId : String) (r : DownstreamRecord F) :
    Option ParsedCostRecord :=
  (parseRecord cal r).filter fun c => c.proxyId = some proxyId

/-- What the tracker keeps of an attempt: its last record with a cost of
the proxy, in the order of the files. -/
def lastCounted (cal : Calendar) (today : ℚ) (proxyId : String)
    (shards : List (DownstreamShard F)) (id : EventId) : Option ParsedCostRecord :=
  ((ofAttempt id (trackedRecords cal today shards)).filterMap (counted cal proxyId)).getLast?

/-- Without state on disk, `bootstrap_from_logs` has only the shards. -/
def bootSource (cal : Calendar) (outside : Outside) (shards : List (DownstreamShard F)) :
    BootSource where
  shards := shards.map (DownstreamShard.costs cal)
  state := none
  outside := outside

theorem setKeyed_eq_put (key : String) (r : ParsedCostRecord) :
    ∀ l : List (String × ParsedCostRecord), setKeyed key r l = Dict.put key r l
  | [] => rfl
  | (k, r') :: rest => by rw [setKeyed, Dict.put, setKeyed_eq_put key r rest]

/-- The key of a record. -/
def keyOf (r : ParsedCostRecord) : String := r.downstreamEventId.getD ""

/-- The records that the tracker keeps, by their ids. -/
def keptRecords (l : List ParsedCostRecord) : Dict String ParsedCostRecord :=
  Dict.upsertEach (fun _ r => r) (l.map fun r => (keyOf r, r)) Dict.empty

theorem foldl_add_keyed {l : List ParsedCostRecord} (h : ∀ r ∈ l, keyOf r ≠ "") :
    ∀ d : Dict String ParsedCostRecord, l.foldl LogRecords.add ⟨[], d.entries⟩
      = ⟨[], (Dict.upsertEach (fun _ r => r) (l.map fun r => (keyOf r, r)) d).entries⟩ := by
  induction l with
  | nil => exact fun _ => rfl
  | cons r rest ih =>
    intro d
    have hr := h r List.mem_cons_self
    have hadd : LogRecords.add ⟨[], d.entries⟩ r = ⟨[], (d.set (keyOf r) r).entries⟩ := by
      unfold LogRecords.add keyOf at *
      cases hid : r.downstreamEventId with
      | none =>
        rw [hid] at hr
        exact absurd rfl hr
      | some key =>
        rw [hid] at hr
        simp only [Option.getD_some] at hr ⊢
        rw [if_pos hr, setKeyed_eq_put]
        rfl
    rw [List.foldl_cons, hadd, ih (fun r' hr' => h r' (List.mem_cons_of_mem _ hr'))]
    rfl

theorem keptRecords_get? (l : List ParsedCostRecord) (key : String) :
    (keptRecords l).get? key = (l.filter fun r => keyOf r = key).getLast? := by
  unfold keptRecords
  rw [Dict.get?_upsertEach_foldl, List.filter_map, List.foldl_map, Dict.get?_empty]
  exact (foldl_last _ none).trans (Option.or_none)

variable {cal : Calendar} {today : ℚ} {proxyId : String} {r : DownstreamRecord F}
  {c : ParsedCostRecord} {shards : List (DownstreamShard F)}

/-- What a record with a cost of the proxy is. -/
theorem counted_eq_some (h : counted cal proxyId r = some c) :
    c.downstreamEventId = some r.downstreamEventId.val ∧ c.monthKey = cal.month r.ts ∧
      r.costMicros = some c.costMicros := by
  obtain ⟨hparse, -⟩ := Option.filter_eq_some_iff.mp h
  unfold parseRecord at hparse
  split at hparse
  · cases hparse
  · rename_i cost hcost
    split at hparse
    · cases hparse
      exact ⟨rfl, rfl, hcost⟩
    · cases hparse

theorem keyOf_counted (h : counted cal proxyId r = some c) :
    keyOf c = r.downstreamEventId.val := by
  unfold keyOf
  rw [(counted_eq_some h).1]
  rfl

/-- The tracker reads the shards record by record. -/
theorem readLogs_costs (cal : Calendar) (today : ℚ) (proxyId : String)
    (shards : List (DownstreamShard F)) :
    (readLogs (cal.month today, cal.prevMonth today) (some proxyId)
        (shards.map (DownstreamShard.costs cal))).all
      = (keptRecords ((trackedRecords cal today shards).filterMap (counted cal proxyId))).entries.map
          Prod.snd := by
  have hsorted : sortedShards (shards.map (DownstreamShard.costs cal))
      = (sortedDownstreamShards shards).map (DownstreamShard.costs cal) := by
    refine Eq.symm (List.map_insertionSort (fun a b : DownstreamShard F =>
      a.stem ++ ".jsonl" ≤ b.stem ++ ".jsonl") _ _ shards ?_)
    exact fun _ _ _ _ => Iff.rfl
  have hrecords : (((sortedShards (shards.map (DownstreamShard.costs cal))).filter fun shard =>
      fileMonth shard.stem = cal.month today ∨ fileMonth shard.stem = cal.prevMonth today).flatMap
      CostShard.records).filter (fun r => some proxyId = none ∨ r.proxyId = some proxyId)
      = (trackedRecords cal today shards).filterMap (counted cal proxyId) := by
    rw [hsorted, List.filter_map, List.flatMap_map]
    unfold trackedRecords counted
    rw [← List.filter_filterMap, List.filterMap_flatMap]
    refine List.filter_congr fun r _ => ?_
    simp
  have hkeys : ∀ r ∈ (trackedRecords cal today shards).filterMap (counted cal proxyId),
      keyOf r ≠ "" := by
    intro r hr
    obtain ⟨a, -, ha⟩ := List.mem_filterMap.mp hr
    rw [keyOf_counted ha]
    exact a.downstreamEventId.property
  unfold readLogs
  simp only [hrecords]
  have hkept := foldl_add_keyed hkeys Dict.empty
  unfold LogRecords.all
  exact congrArg (fun logs => logs.unkeyed ++ logs.keyed.map Prod.snd) hkept

theorem filterMap_counted (id : EventId) (l : List (DownstreamRecord F)) :
    ((l.filterMap (counted cal proxyId)).filter fun c => keyOf c = id.val)
      = (ofAttempt id l).filterMap (counted cal proxyId) := by
  unfold ofAttempt
  induction l with
  | nil => rfl
  | cons r rest ih =>
    cases hr : counted cal proxyId r with
    | none =>
      rw [List.filterMap_cons_none hr, ih, List.filter_cons]
      split
      · rw [List.filterMap_cons_none hr]
      · rfl
    | some c =>
      rw [List.filterMap_cons_some hr, List.filter_cons, List.filter_cons, keyOf_counted hr, ih]
      by_cases hid : r.downstreamEventId = id
      · simp [hid, List.filterMap_cons_some hr]
      · have hval : ¬ r.downstreamEventId.val = id.val := fun e => hid (Subtype.ext e)
        simp [hid, hval]

theorem persistCapState_monthlyTotal (t : CostTracker) (x : Outside) :
    (t.persistCapState x).monthlyTotal = t.monthlyTotal := by
  unfold CostTracker.persistCapState
  split
  · rfl
  · unfold CostTracker.snapshotCapState CostTracker.writeCapState CostTracker.acknowledgeCapPersist
    repeat' split
    all_goals rfl

/-! ## 3. Attempt by attempt -/

/-- The ids of the ledger. -/
def attemptIds (shards : List (DownstreamShard F)) : Finset EventId :=
  ((shardRecords shards).map (·.downstreamEventId)).toFinset

/-- A cost of the month. -/
def monthCost (month : String) (c : ParsedCostRecord) : ℤ :=
  if c.monthKey = month then c.costMicros else 0

/-- What the tracker counts for an attempt. -/
def trackerCost (cal : Calendar) (today : ℚ) (proxyId : String)
    (shards : List (DownstreamShard F)) (id : EventId) : ℤ :=
  ((lastCounted cal today proxyId shards id).map (monthCost (cal.month today))).getD 0

/-- The cost of a merged record, when it is of the proxy and the month. -/
def recordCost (cal : Calendar) (month proxyId : String) (m : DownstreamRecord F) : ℤ :=
  if m.has .proxyId proxyId = true ∧ cal.month m.ts = month then m.costMicros.getD 0 else 0

/-- The latest values of an attempt. -/
def latestOf (shards : List (DownstreamShard F)) (id : EventId) : DownstreamRecord F :=
  latestRecord id (ofAttempt id (shardRecords shards))

/-- The sum over the merged records of a proxy and a month. -/
def mergedTotal (cal : Calendar) (month proxyId : String) (shards : List (DownstreamShard F)) : ℤ :=
  (((readDownstreamRecords {} shards).filter fun m =>
    m.has .proxyId proxyId && cal.month m.ts = month).map fun m => m.costMicros.getD 0).sum

theorem logMonthlyTotal_nonneg (month : String) (l : List ParsedCostRecord) :
    0 ≤ logMonthlyTotal month l := by
  unfold logMonthlyTotal
  refine List.sum_nonneg fun x hx => ?_
  obtain ⟨c, -, rfl⟩ := List.mem_map.mp hx
  exact c.cost_pos.le

/-- The tracker's total, attempt by attempt. -/
theorem monthlyTotal_eq (t : CostTracker) (cal : Calendar) (outside : Outside) (proxyId : String)
    (shards : List (DownstreamShard F)) :
    (t.bootstrapFromLogs cal (bootSource cal outside shards) (some proxyId)).monthlyTotal
      = ∑ id ∈ attemptIds shards, trackerCost cal outside.today proxyId shards id := by
  have hstate : (bootSource cal outside shards).stateMonthlyTotal cal (some proxyId) = 0 := by
    unfold BootSource.stateMonthlyTotal BootSource.capState bootSource
    simp
  have hrecords : (bootSource cal outside shards).records cal (some proxyId)
      = (keptRecords ((trackedRecords cal outside.today shards).filterMap
          (counted cal proxyId))).entries.map Prod.snd := readLogs_costs cal outside.today proxyId shards
  unfold CostTracker.bootstrapFromLogs
  rw [persistCapState_monthlyTotal]
  show max (logMonthlyTotal (cal.month outside.today) _) _ = _
  rw [hstate, hrecords, max_eq_left (logMonthlyTotal_nonneg _ _)]
  unfold logMonthlyTotal
  rw [sum_filter_map, List.map_map]
  have hvalue : ((fun c : ParsedCostRecord =>
      if decide (c.monthKey = cal.month outside.today) = true then c.costMicros else 0) ∘ Prod.snd)
      = fun e : String × ParsedCostRecord => monthCost (cal.month outside.today) e.2 := by
    funext e
    simp [monthCost]
  rw [hvalue, sum_values _ _ ((attemptIds shards).image Subtype.val), Finset.sum_image]
  · refine Finset.sum_congr rfl fun id _ => ?_
    rw [keptRecords_get?, filterMap_counted]
    rfl
  · exact fun a _ b _ h => Subtype.ext h
  · intro e he
    have hget := Dict.get?_eq_some_iff.mpr he
    rw [keptRecords_get?] at hget
    obtain ⟨hmem, hkey⟩ := List.mem_filter.mp (List.mem_of_getLast? hget)
    obtain ⟨r, hr, hcounted⟩ := List.mem_filterMap.mp hmem
    obtain ⟨shard, hshard, hr⟩ := List.mem_flatMap.mp hr
    refine Finset.mem_image.mpr ⟨r.downstreamEventId, ?_, ?_⟩
    · refine List.mem_toFinset.mpr (List.mem_map.mpr ⟨r, ?_, rfl⟩)
      exact List.mem_flatMap.mpr ⟨shard, (List.mem_filter.mp hshard).1, hr⟩
    · rw [← keyOf_counted hcounted]
      exact of_decide_eq_true hkey

/-- The total of the merged records, attempt by attempt. -/
theorem Ledger.mergedTotal_eq {shards : List (DownstreamShard F)} (h : Ledger shards)
    (cal : Calendar) (month proxyId : String) :
    mergedTotal cal month proxyId shards
      = ∑ id ∈ attemptIds shards, recordCost cal month proxyId (latestOf shards id) := by
  have hearly : (({} : ReadFilter)).Early := ⟨rfl, rfl⟩
  unfold mergedTotal
  rw [sum_filter_map, h.read_eq hearly, ((sortByTs_perm _).map _).sum_eq, List.map_map]
  have hvalue : ((fun m : DownstreamRecord F =>
      if (m.has .proxyId proxyId && decide (cal.month m.ts = month)) = true then
        m.costMicros.getD 0 else 0) ∘ Prod.snd)
      = fun e : EventId × DownstreamRecord F => recordCost cal month proxyId e.2 := by
    funext e
    simp [recordCost]
  rw [hvalue, sum_values _ _ (attemptIds shards)]
  · refine Finset.sum_congr rfl fun id hid => ?_
    have hne : ofAttempt id (matching {} shards) ≠ [] := by
      obtain ⟨r, hr, hrid⟩ := List.mem_map.mp (List.mem_toFinset.mp hid)
      rw [matching_none]
      exact List.ne_nil_of_mem (mem_ofAttempt.mpr ⟨hr, hrid⟩)
    have hget := (h.merged_iff {} id).mpr ⟨hne, rfl⟩
    rw [hget, matching_none]
    rfl
  · intro e he
    have hne := ((h.merged_iff {} e.1).mp (Dict.get?_eq_some_iff.mpr he)).1
    rw [matching_none] at hne
    obtain ⟨r, hr⟩ := List.exists_mem_of_ne_nil _ hne
    obtain ⟨hr, hrid⟩ := mem_ofAttempt.mp hr
    exact List.mem_toFinset.mpr (List.mem_map.mpr ⟨r, hr, hrid⟩)

/-- An attempt has a cost that the merged records count. -/
def Priced (cal : Calendar) (month proxyId : String) (m : DownstreamRecord F) : Prop :=
  m.has .proxyId proxyId = true ∧ cal.month m.ts = month ∧ m.costMicros.getD 0 ≠ 0

/-- The last record with a cost of the proxy, in the order of the files, is
of the month exactly when the latest values of the attempt have a cost for
it, and then it has the same. -/
def CountedAlike (cal : Calendar) (today : ℚ) (proxyId : String)
    (shards : List (DownstreamShard F)) (id : EventId) : Prop :=
  match (lastCounted cal today proxyId shards id).filter fun c => c.monthKey = cal.month today with
  | some c => Priced cal (cal.month today) proxyId (latestOf shards id) ∧
      (latestOf shards id).costMicros = some c.costMicros
  | none => ¬ Priced cal (cal.month today) proxyId (latestOf shards id)

/-- One attempt is counted alike. -/
theorem counted_iff (cal : Calendar) (today : ℚ) (proxyId : String)
    (shards : List (DownstreamShard F)) (id : EventId) :
    trackerCost cal today proxyId shards id
        = recordCost cal (cal.month today) proxyId (latestOf shards id) ↔
      CountedAlike cal today proxyId shards id := by
  have hrecord : recordCost cal (cal.month today) proxyId (latestOf shards id) ≠ 0 ↔
      Priced cal (cal.month today) proxyId (latestOf shards id) := by
    unfold recordCost Priced
    by_cases h : (latestOf shards id).has .proxyId proxyId = true ∧
        cal.month (latestOf shards id).ts = cal.month today
    · rw [if_pos h]
      simp [h.1, h.2]
    · rw [if_neg h]
      simp only [ne_eq, not_true_eq_false, false_iff]
      exact fun hp => h ⟨hp.1, hp.2.1⟩
  unfold CountedAlike trackerCost
  cases hlast : lastCounted cal today proxyId shards id with
  | none =>
    rw [Option.filter_none, Option.map_none, Option.getD_none, ← hrecord, not_not, eq_comm]
  | some c =>
    rw [Option.map_some, Option.getD_some]
    unfold monthCost
    by_cases hmonth : c.monthKey = cal.month today
    · have hfilter : (some c).filter (fun c => c.monthKey = cal.month today) = some c := by
        simp [hmonth]
      rw [if_pos hmonth, hfilter]
      simp only
      have hpos := c.cost_pos
      constructor
      · intro heq
        have hpriced := hrecord.mp (by omega)
        refine ⟨hpriced, ?_⟩
        unfold recordCost at heq
        rw [if_pos ⟨hpriced.1, hpriced.2.1⟩] at heq
        cases hcost : (latestOf shards id).costMicros with
        | none =>
          rw [hcost, Option.getD_none] at heq
          omega
        | some n =>
          rw [hcost, Option.getD_some] at heq
          rw [heq]
      · rintro ⟨hpriced, hcost⟩
        unfold recordCost
        rw [if_pos ⟨hpriced.1, hpriced.2.1⟩, hcost, Option.getD_some]
    · have hfilter : (some c).filter (fun c => c.monthKey = cal.month today) = none := by
        simp [hmonth]
      rw [if_neg hmonth, hfilter]
      simp only
      rw [← hrecord, not_not, eq_comm]

def eventId : EventId := ⟨"ds_1", by decide⟩

/-- A record with its cost. -/
def costRecord (ts : ℕ) (cost : ℤ) : DownstreamRecord Unit where
  kind := .attempt
  downstreamEventId := eventId
  fields := fun f => match f with
    | .proxyId => some (.str "proxy-a")
    | .costMicros => some (.int cost)
    | _ => none
  ts := ts

/-- A record that comes later, without the proxy. -/
def lifecycleRecord (ts : ℕ) : DownstreamRecord Unit where
  kind := .attempt
  downstreamEventId := eventId
  fields := fun f => match f with
    | .finalUsageSeen => some (.bool true)
    | _ => none
  ts := ts

/-- One attempt in two shards; the earlier cost is in the later file. -/
def splitShards : List (DownstreamShard Unit) :=
  [⟨"2026-05_1", [costRecord 200 3]⟩, ⟨"2026-05_2", [costRecord 100 5, lifecycleRecord 150]⟩]

def mayOnly : Calendar := ⟨fun _ => "2026-05", fun _ => "2026-04"⟩

theorem splitShards_sorted : sortedDownstreamShards splitShards = splitShards := by
  have hle : ("2026-05_1" ++ ".jsonl" ≤ "2026-05_2" ++ ".jsonl") := by decide +kernel
  unfold sortedDownstreamShards
  refine List.Pairwise.insertionSort_eq ?_
  simp only [splitShards, List.pairwise_cons, List.mem_singleton, forall_eq, List.not_mem_nil,
    false_implies, implies_true, List.Pairwise.nil, and_true]
  exact hle

theorem splitShards_records :
    shardRecords splitShards = [costRecord 200 3, costRecord 100 5, lifecycleRecord 150] := by
  unfold shardRecords
  rw [splitShards_sorted]
  rfl

theorem splitShards_ledger : Ledger splitShards where
  attempts := by
    rw [splitShards_records]
    simp [DownstreamRecord.IsAttempt, costRecord, lifecycleRecord]
  distinct := by
    unfold DistinctStamps
    rw [splitShards_records]
    simp [costRecord, lifecycleRecord]

theorem splitShards_ids : attemptIds splitShards = {eventId} := by
  unfold attemptIds
  rw [splitShards_records]
  rfl

theorem splitShards_tracked : trackedRecords mayOnly 0 splitShards
    = [costRecord 200 3, costRecord 100 5, lifecycleRecord 150] := by
  have hfirst : fileMonth "2026-05_1" = "2026-05" := by decide +kernel
  have hsecond : fileMonth "2026-05_2" = "2026-05" := by decide +kernel
  unfold trackedRecords
  rw [splitShards_sorted]
  simp [splitShards, mayOnly, hfirst, hsecond]

/-- One record that has everything. -/
def wholeShards : List (DownstreamShard Unit) := [⟨"2026-05_1", [costRecord 100 5]⟩]

end MultiForge.Telemetry
