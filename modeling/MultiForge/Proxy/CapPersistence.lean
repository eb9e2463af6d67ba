/-
MultiForge.Proxy.CapPersistence — the tracker and the worker that writes
its snapshots.

`ProxyAccountingPersistence` runs what it accepts on one thread, in the
order it was accepted. The tracker keeps the future of one snapshot and
takes no other one before it has applied the outcome. A call reads the
future when it starts, and again when it is about to take a snapshot; the
worker may have finished jobs between the two.

The counts of recorded costs are of the model: each snapshot remembers how
many costs there were when it was taken.
-/
import MultiForge.Proxy.CostTracker

namespace MultiForge.Proxy

/-! ## 1. The tracker with its worker -/

/-- The state that a snapshot takes from the tracker. -/
def CostTracker.capState (t : CostTracker) : CapState :=
  ⟨t.monthlyKey, t.monthlyTotal, t.dailyWindow⟩

/-- A snapshot, and how many costs were recorded before it. -/
structure Snapshot where
  state : CapState
  upTo : ℕ
  deriving DecidableEq

structure CapWorld where
  tracker : CostTracker
  /-- accepted and not yet run, in their order -/
  jobs : List Snapshot := []
  /-- `future.result()` of the newest job, when it is done -/
  outcome : Option Bool := none
  /-- `_closed` -/
  closed : Bool := false
  /-- the snapshots that were taken, and those that were written -/
  taken : List Snapshot := []
  writes : List Snapshot := []
  recorded : ℕ := 0
  deriving DecidableEq

namespace CapWorld

/-- The state in the file, once this process has written it. -/
def stored (w : CapWorld) : Option CapState := w.writes.getLast?.map (·.state)

/-- The recorded costs that are in the file. -/
def contained (w : CapWorld) : ℕ := (w.writes.getLast?.map (·.upTo)).getD 0

/-- The worker runs its next job. -/
def complete (w : CapWorld) (succeeded : Bool) : CapWorld :=
  match w.jobs with
  | [] => w
  | job :: rest =>
      { w with
        jobs := rest
        writes := if succeeded then w.writes ++ [job] else w.writes
        outcome := if rest.isEmpty then some succeeded else w.outcome }

def work (w : CapWorld) (results : List Bool) : CapWorld := results.foldl complete w

/-- `_acknowledge_cap_persist` -/
def acknowledge (w : CapWorld) (monotonic : ℚ) : CapWorld :=
  { w with tracker := w.tracker.acknowledgeCapPersist monotonic w.outcome }

/-- A snapshot goes to the sink, or into the file. -/
def hand (w : CapWorld) (x : Outside) (s : CapState) : CapWorld :=
  if x.sink ≠ .accepted then { w with taken := w.taken ++ [⟨s, w.recorded⟩] }
  else if w.tracker.capStatePersister then
    { w with
      taken := w.taken ++ [⟨s, w.recorded⟩]
      jobs := w.jobs ++ [⟨s, w.recorded⟩]
      outcome := none }
  else
    { w with
      taken := w.taken ++ [⟨s, w.recorded⟩]
      writes := w.writes ++ [⟨s, w.recorded⟩] }

/-- The second half of `_persist_cap_state` -/
def snapshot (w : CapWorld) (x : Outside) : CapWorld :=
  if w.tracker.pendingCapPersist then w
  else
    { w.hand x (w.tracker.pruneDailyWindow x.pruneNow).capState with
      tracker := w.tracker.snapshotCapState x }

/-- `_persist_cap_state`; `results` are of the jobs that finish before it
looks at the future. -/
def persist (w : CapWorld) (x : Outside) (results : List Bool) : CapWorld :=
  if !nonEmpty w.tracker.proxyId then w.work results
  else ((w.work results).acknowledge x.monotonic).snapshot x

def persistIfDue (w : CapWorld) (x : Outside) (results : List Bool) : CapWorld :=
  if w.tracker.capPersistRetryRequired ∨ 10 ≤ w.tracker.dirtyCapRecords ∨
      5 ≤ x.monotonic - w.tracker.lastCapPersistedAt then w.persist x results
  else w.work results

/-- `_maybe_persist_cap_state` -/
def maybePersist (w : CapWorld) (x : Outside) (results : List Bool) : CapWorld :=
  if !nonEmpty w.tracker.proxyId then w.work results
  else
    let w := w.acknowledge x.monotonic
    { w with tracker := w.tracker.countRecord }.persistIfDue x results

/-- `record` -/
def record (w : CapWorld) (cal : Calendar) (costMicros : Option ℤ) (x : Outside)
    (results : List Bool) : CapWorld :=
  match costMicros with
  | none => w.work results
  | some cost =>
      if cost ≤ 0 then w.work results
      else
        { w with
          tracker := (w.tracker.rollMonthIfNeeded cal x.today).addCost x.now cost
          recorded := w.recorded + 1 }.maybePersist x results

def persistIfDirty (w : CapWorld) (x : Outside) (results : List Bool) : CapWorld :=
  if 0 < w.tracker.dirtyCapRecords ∨ w.tracker.capPersistRetryRequired then w.persist x results
  else w.work results

/-- `flush_cap_state` -/
def flush (w : CapWorld) (x : Outside) (results : List Bool) : CapWorld :=
  (w.acknowledge x.monotonic).persistIfDirty x results

/-- `set_cap_state_persister` -/
def setPersister (w : CapWorld) (sink : Bool) : CapWorld :=
  { w with tracker := { w.tracker with capStatePersister := sink } }

/-- `close`, and what becomes of the jobs that were accepted before it -/
def close (w : CapWorld) (results : List Bool) : CapWorld :=
  { w.work results with closed := true }

/-! ## 2. Its tracker is the tracker -/

section Refinement

variable (w : CapWorld) (x : Outside) (results : List Bool) (cal : Calendar)

@[simp] theorem complete_tracker (b : Bool) : (w.complete b).tracker = w.tracker := by
  unfold complete
  split <;> rfl

@[simp] theorem complete_recorded (b : Bool) : (w.complete b).recorded = w.recorded := by
  unfold complete
  split <;> rfl

@[simp] theorem complete_taken (b : Bool) : (w.complete b).taken = w.taken := by
  unfold complete
  split <;> rfl

@[simp] theorem work_tracker : (w.work results).tracker = w.tracker := by
  unfold work
  induction results generalizing w with
  | nil => rfl
  | cons b rest ih => rw [List.foldl_cons, ih, complete_tracker]

@[simp] theorem work_recorded : (w.work results).recorded = w.recorded := by
  unfold work
  induction results generalizing w with
  | nil => rfl
  | cons b rest ih => rw [List.foldl_cons, ih, complete_recorded]

@[simp] theorem work_taken : (w.work results).taken = w.taken := by
  unfold work
  induction results generalizing w with
  | nil => rfl
  | cons b rest ih => rw [List.foldl_cons, ih, complete_taken]

@[simp] theorem snapshot_tracker : (w.snapshot x).tracker = w.tracker.snapshotCapState x := by
  unfold snapshot
  split
  · rename_i hpending
    simp [CostTracker.snapshotCapState, hpending]
  · rfl

/-- What the worker does does not depend on the tracker. -/
theorem work_outcome {v : CapWorld} (hjobs : v.jobs = w.jobs) (houtcome : v.outcome = w.outcome) :
    (v.work results).outcome = (w.work results).outcome := by
  unfold work
  induction results generalizing v w with
  | nil => exact houtcome
  | cons b rest ih =>
    refine ih (v := v.complete b) (w := w.complete b) ?_ ?_
    · unfold complete
      rw [hjobs]
      cases hw : w.jobs with
      | nil => simpa [hw] using hjobs
      | cons job more => rfl
    · unfold complete
      rw [hjobs]
      cases w.jobs with
      | nil => exact houtcome
      | cons job more => simp [houtcome]

/-- What a call reads of the future. -/
def reads (w : CapWorld) (x : Outside) (results : List Bool) : Outside :=
  { x with
    done := w.outcome
    done' := (w.work results).outcome }

theorem persist_tracker {y : Outside} (hy : y = { x with done := y.done, done' := y.done' })
    (hdone : y.done' = (w.work results).outcome) :
    (w.persist x results).tracker = w.tracker.persistCapState y := by
  unfold persist CostTracker.persistCapState
  split
  · simp
  · simp only [snapshot_tracker, acknowledge, work_tracker, ← hdone]
    rw [hy]
    rfl

theorem persistIfDue_tracker {y : Outside} (hy : y = { x with done := y.done, done' := y.done' })
    (hdone : y.done' = (w.work results).outcome) :
    (w.persistIfDue x results).tracker = w.tracker.persistIfDue y := by
  have hmonotonic : y.monotonic = x.monotonic := by rw [hy]
  unfold persistIfDue CostTracker.persistIfDue
  rw [hmonotonic]
  split
  · exact persist_tracker w x results hy hdone
  · exact work_tracker w results

theorem persistIfDirty_tracker {y : Outside} (hy : y = { x with done := y.done, done' := y.done' })
    (hdone : y.done' = (w.work results).outcome) :
    (w.persistIfDirty x results).tracker = w.tracker.persistIfDirty y := by
  unfold persistIfDirty CostTracker.persistIfDirty
  split
  · exact persist_tracker w x results hy hdone
  · exact work_tracker w results

theorem maybePersist_tracker {y : Outside} (hy : y = { x with done := y.done, done' := y.done' })
    (hdone : y.done = w.outcome) (hdone' : y.done' = (w.work results).outcome) :
    (w.maybePersist x results).tracker = w.tracker.maybePersistCapState y := by
  have hmonotonic : y.monotonic = x.monotonic := by rw [hy]
  unfold maybePersist CostTracker.maybePersistCapState
  rw [hmonotonic, hdone]
  split
  · exact work_tracker w results
  · refine persistIfDue_tracker { w.acknowledge x.monotonic with
      tracker := (w.acknowledge x.monotonic).tracker.countRecord } x results hy ?_
    rw [hdone']
    exact Eq.symm (work_outcome w results rfl rfl)

/-- `record` of the world is `record` of its tracker. -/
theorem record_tracker (costMicros : Option ℤ) : (w.record cal costMicros x results).tracker
    = w.tracker.record cal costMicros (w.reads x results) := by
  unfold record CostTracker.record
  cases costMicros with
  | none => exact work_tracker w results
  | some cost =>
    simp only
    split
    · exact work_tracker w results
    · refine maybePersist_tracker { w with
        tracker := (w.tracker.rollMonthIfNeeded cal x.today).addCost x.now cost
        recorded := w.recorded + 1 } x results rfl rfl ?_
      exact Eq.symm (work_outcome w results rfl rfl)

/-- So is `flush_cap_state`. -/
theorem flush_tracker : (w.flush x results).tracker
    = w.tracker.flushCapState (w.reads x results) := by
  refine persistIfDirty_tracker (w.acknowledge x.monotonic) x results rfl ?_
  exact Eq.symm (work_outcome w results rfl rfl)

end Refinement

/-! ## 3. Runs -/

/-- `CostTracker(...)` and `bootstrap_from_logs` under a proxy id. -/
def bootstrap (cal : Calendar) (dailyCapMicros monthlyCapMicros : Option ℤ) (sink : Bool)
    (src : BootSource) (proxyId : String) : CapWorld :=
  let t := CostTracker.new dailyCapMicros monthlyCapMicros sink
  persist ⟨{ t with
    proxyId := some proxyId
    monthlyKey := cal.month src.outside.today
    monthlyTotal := max
      (logMonthlyTotal (cal.month src.outside.today) (src.records cal (some proxyId)))
      (src.stateMonthlyTotal cal (some proxyId))
    dailyWindow := src.dailyWindow cal (some proxyId) }, [], none, false, [], [], 0⟩ src.outside []

theorem bootstrap_tracker (cal : Calendar) (dailyCapMicros monthlyCapMicros : Option ℤ)
    (sink : Bool) (src : BootSource) (proxyId : String) (hfirst : src.outside.done' = none) :
    (bootstrap cal dailyCapMicros monthlyCapMicros sink src proxyId).tracker
      = (CostTracker.new dailyCapMicros monthlyCapMicros sink).bootstrapFromLogs cal src
          (some proxyId) :=
  persist_tracker _ _ _ rfl hfirst

/-- A persister that is closed takes nothing. -/
def Answers (w : CapWorld) (x : Outside) : Prop :=
  w.closed = true → w.tracker.capStatePersister = true → x.sink ≠ .accepted

/-- What can happen next. -/
inductive Step (cal : Calendar) (w : CapWorld) : CapWorld → Prop where
  | complete (succeeded : Bool) : Step cal w (w.complete succeeded)
  | acknowledge (monotonic : ℚ) : Step cal w (w.acknowledge monotonic)
  | record (costMicros : Option ℤ) (x : Outside) (results : List Bool) : w.Answers x →
      Step cal w (w.record cal costMicros x results)
  | flush (x : Outside) (results : List Bool) : w.Answers x → Step cal w (w.flush x results)
  | setPersister (sink : Bool) : Step cal w (w.setPersister sink)
  | close (results : List Bool) : w.jobs.length ≤ results.length → Step cal w (w.close results)

inductive Run (cal : Calendar) : CapWorld → CapWorld → Prop where
  | refl (w : CapWorld) : Run cal w w
  | step {w v u : CapWorld} : Run cal w v → Step cal v u → Run cal w u

/-! ## 4. What every call keeps -/

/-- The newest snapshot, while the tracker waits for its outcome. -/
structure Awaits (w : CapWorld) (s : Snapshot) : Prop where
  count : w.tracker.pendingCapRecordCount ≤ w.tracker.dirtyCapRecords
  upTo : s.upTo + w.tracker.dirtyCapRecords = w.recorded + w.tracker.pendingCapRecordCount
  since : ∃ added, w.tracker.dailyWindow = s.state.dailyWindow ++ added ∧
    added.length + s.upTo = w.recorded
  same : s.upTo = w.recorded → w.tracker.capState = s.state
  fate : w.jobs = [s] ∧ w.outcome = none ∨
    w.jobs = [] ∧ w.outcome = some true ∧ w.writes.getLast? = some s ∨
    w.jobs = [] ∧ w.outcome = some false

/-- The counts of a tracker with a proxy id. -/
structure Sound (w : CapWorld) : Prop where
  proxy : nonEmpty w.tracker.proxyId = true
  covered : w.recorded ≤ w.contained + w.tracker.dirtyCapRecords
  idle : w.tracker.pendingCapPersist = false →
    w.jobs = [] ∧ w.tracker.pendingCapRecordCount = 0
  busy : w.tracker.pendingCapPersist = true → ∃ s, w.Awaits s
  order : (w.writes ++ w.jobs).Sublist w.taken

/-- With nothing to write the file has the state of the tracker. -/
def Settled (w : CapWorld) : Prop :=
  w.tracker.pendingCapPersist = false → w.tracker.dirtyCapRecords = 0 →
    w.tracker.capPersistRetryRequired = false → w.stored = some w.tracker.capState

section Keeping

variable {w : CapWorld} {x : Outside} {cal : Calendar}

theorem complete_last {s : Snapshot} (h : w.jobs = [s]) (b : Bool) : w.complete b
    = { w with
      jobs := []
      writes := if b then w.writes ++ [s] else w.writes
      outcome := some b } := by
  unfold CapWorld.complete
  rw [h]
  rfl

/-- A job in the queue is the snapshot that the tracker waits for. -/
theorem Sound.jobs (h : w.Sound) :
    w.jobs = [] ∨ ∃ s, w.tracker.pendingCapPersist = true ∧ w.Awaits s ∧ w.jobs = [s] := by
  cases hp : w.tracker.pendingCapPersist with
  | false => exact .inl (h.idle hp).1
  | true =>
    obtain ⟨s, hs⟩ := h.busy hp
    rcases hs.fate with ⟨hjob, -⟩ | ⟨hnil, -⟩ | ⟨hnil, -⟩
    · exact .inr ⟨s, rfl, hs, hjob⟩
    · exact .inl hnil
    · exact .inl hnil

theorem Sound.complete (h : w.Sound) (b : Bool) : (w.complete b).Sound := by
  rcases h.jobs with hnil | ⟨s, hpending, hs, hjobs⟩
  · have hsame : w.complete b = w := by
      unfold CapWorld.complete
      rw [hnil]
    rw [hsame]
    exact h
  rw [complete_last hjobs]
  have horder := h.order
  rw [hjobs] at horder
  have hle := hs.count
  have hup := hs.upTo
  refine ⟨h.proxy, ?_, ?_, fun _ => ⟨s, { hs with fate := ?_ }⟩, ?_⟩
  · cases b with
    | true =>
      simp only [contained, if_true, List.getLast?_concat, Option.map_some, Option.getD_some]
      omega
    | false => exact h.covered
  · simp [hpending]
  · cases b with
    | true => exact .inr (.inl ⟨rfl, rfl, List.getLast?_concat⟩)
    | false => exact .inr (.inr ⟨rfl, rfl⟩)
  · cases b with
    | true => simpa using horder
    | false => simpa using (List.sublist_append_left _ _).trans horder

theorem Sound.work (h : w.Sound) (results : List Bool) : (w.work results).Sound := by
  unfold CapWorld.work
  induction results generalizing w with
  | nil => exact h
  | cons b rest ih => exact ih (h.complete b)

theorem Settled.complete (h : w.Settled) (hw : w.Sound) (b : Bool) : (w.complete b).Settled := by
  intro hp
  rw [complete_tracker] at hp
  have hsame : w.complete b = w := by
    unfold CapWorld.complete
    rw [(hw.idle hp).1]
  rw [hsame]
  exact h hp

/-- Both, as one call after another keeps them. -/
def Good (w : CapWorld) : Prop := w.Sound ∧ w.Settled

theorem Good.work (h : w.Good) (results : List Bool) : (w.work results).Good := by
  unfold CapWorld.work
  induction results generalizing w with
  | nil => exact h
  | cons b rest ih => exact ih ⟨h.1.complete b, h.2.complete h.1 b⟩

/-- What `_acknowledge_cap_persist` does to a tracker. -/
theorem acknowledge_cases (t : CostTracker) (monotonic : ℚ) (done : Option Bool) :
    (t.pendingCapPersist = false ∨ done = none) ∧ t.acknowledgeCapPersist monotonic done = t ∨
    t.pendingCapPersist = true ∧ done = some true ∧ t.acknowledgeCapPersist monotonic done
      = { t with
        dirtyCapRecords := t.dirtyCapRecords - t.pendingCapRecordCount
        lastCapPersistedAt := if t.dirtyCapRecords - t.pendingCapRecordCount = 0 then monotonic
          else t.lastCapPersistedAt
        capPersistRetryRequired := false
        pendingCapPersist := false
        pendingCapRecordCount := 0 } ∨
    t.pendingCapPersist = true ∧ done = some false ∧ t.acknowledgeCapPersist monotonic done
      = { t with
        capPersistRetryRequired := true
        pendingCapPersist := false
        pendingCapRecordCount := 0 } := by
  unfold CostTracker.acknowledgeCapPersist
  cases hp : t.pendingCapPersist with
  | false => exact .inl ⟨.inl rfl, rfl⟩
  | true =>
    cases done with
    | none => exact .inl ⟨.inr rfl, rfl⟩
    | some b =>
      cases b with
      | true => exact .inr (.inl ⟨rfl, rfl, rfl⟩)
      | false => exact .inr (.inr ⟨rfl, rfl, rfl⟩)

theorem Good.acknowledge (h : w.Good) (monotonic : ℚ) : (w.acknowledge monotonic).Good := by
  obtain ⟨hw, hsettled⟩ := h
  unfold CapWorld.acknowledge
  rcases acknowledge_cases w.tracker monotonic w.outcome with
    ⟨-, heq⟩ | ⟨hp, hdone, heq⟩ | ⟨hp, hdone, heq⟩
  · rw [heq]
    exact ⟨hw, hsettled⟩
  · obtain ⟨s, hs⟩ := hw.busy hp
    have hlast : w.jobs = [] ∧ w.writes.getLast? = some s := by
      rcases hs.fate with ⟨-, hnone⟩ | ⟨hnil, -, hlast⟩ | ⟨-, hfalse⟩
      · rw [hdone] at hnone
        cases hnone
      · exact ⟨hnil, hlast⟩
      · rw [hdone] at hfalse
        cases hfalse
    have hle := hs.count
    have hup := hs.upTo
    rw [heq]
    constructor
    · refine ⟨hw.proxy, ?_, fun _ => ⟨hlast.1, rfl⟩, fun hbusy => (by cases hbusy), hw.order⟩
      simp only [contained, hlast.2, Option.map_some, Option.getD_some]
      omega
    · intro _ hdirty _
      have hdirty : w.tracker.dirtyCapRecords - w.tracker.pendingCapRecordCount = 0 := hdirty
      have hsame := hs.same (by omega)
      simp only [stored, hlast.2, Option.map_some, ← hsame]
      rfl
  · obtain ⟨s, hs⟩ := hw.busy hp
    have hjobs : w.jobs = [] := by
      rcases hs.fate with ⟨-, hnone⟩ | ⟨hnil, -⟩ | ⟨hnil, -⟩
      · rw [hdone] at hnone
        cases hnone
      · exact hnil
      · exact hnil
    rw [heq]
    constructor
    · exact ⟨hw.proxy, hw.covered, fun _ => ⟨hjobs, rfl⟩, fun hbusy => (by cases hbusy), hw.order⟩
    · intro _ _ hretry
      cases hretry

/-- A cost, in the accounts and in the count. -/
def note (w : CapWorld) (cal : Calendar) (x : Outside) (cost : ℤ) : CapWorld :=
  { w with
    tracker := ((w.tracker.rollMonthIfNeeded cal x.today).addCost x.now cost).countRecord
    recorded := w.recorded + 1 }

theorem roll_fields (t : CostTracker) (cal : Calendar) (now : ℚ) :
    t.rollMonthIfNeeded cal now
      = { t with
        monthlyTotal := (t.rollMonthIfNeeded cal now).monthlyTotal
        monthlyKey := (t.rollMonthIfNeeded cal now).monthlyKey } := by
  unfold CostTracker.rollMonthIfNeeded
  split <;> rfl

theorem Good.note (h : w.Good) (x : Outside) (cost : ℤ) : (w.note cal x cost).Good := by
  obtain ⟨hw, -⟩ := h
  have hroll := roll_fields w.tracker cal x.today
  constructor
  · unfold CapWorld.note
    rw [hroll]
    refine ⟨hw.proxy, ?_, hw.idle, fun hp => ?_, hw.order⟩
    · have hcovered := hw.covered
      simp only [contained, CostTracker.addCost, CostTracker.countRecord] at hcovered ⊢
      omega
    · obtain ⟨s, hs⟩ := hw.busy hp
      obtain ⟨added, hadded, hlength⟩ := hs.since
      have hle := hs.count
      have hup := hs.upTo
      refine ⟨s, ⟨?_, ?_, ⟨added ++ [(x.now, cost)], ?_, ?_⟩, ?_, hs.fate⟩⟩
      · simp only [CostTracker.addCost, CostTracker.countRecord]
        omega
      · simp only [CostTracker.addCost, CostTracker.countRecord]
        omega
      · simp [CostTracker.addCost, CostTracker.countRecord, hadded]
      · simp only [List.length_append, List.length_singleton]
        omega
      · intro hsame
        have hsame : s.upTo = w.recorded + 1 := hsame
        omega
  · intro _ hdirty _
    cases hdirty

/-- Adding a cost and applying an outcome do not meet. -/
theorem acknowledge_addCost (t : CostTracker) (cal : Calendar) (today now : ℚ) (cost : ℤ)
    (monotonic : ℚ) (done : Option Bool) :
    ((t.rollMonthIfNeeded cal today).addCost now cost).acknowledgeCapPersist monotonic done
      = ((t.acknowledgeCapPersist monotonic done).rollMonthIfNeeded cal today).addCost now cost := by
  obtain ⟨_, _, _, _, key, _, _, _, _, pending, _, _⟩ := t
  have hkey : ∀ u : CostTracker, u.monthlyKey = key → u.rollMonthIfNeeded cal today
      = if cal.month today ≠ key then { u with monthlyTotal := 0, monthlyKey := cal.month today }
        else u := by
    intro u hu
    unfold CostTracker.rollMonthIfNeeded
    rw [hu]
  rw [hkey _ rfl]
  cases pending with
  | false =>
    rw [hkey _ rfl]
    split <;> rfl
  | true =>
    cases done with
    | none =>
      rw [hkey _ rfl]
      split <;> rfl
    | some b =>
      cases b with
      | true =>
        rw [hkey _ rfl]
        split <;> rfl
      | false =>
        rw [hkey _ rfl]
        split <;> rfl

/-- `record` applies an outcome, counts the cost and persists if due. -/
theorem record_eq (h : nonEmpty w.tracker.proxyId = true) {cost : ℤ} (hcost : ¬ cost ≤ 0)
    (results : List Bool) : w.record cal (some cost) x results
      = ((w.acknowledge x.monotonic).note cal x cost).persistIfDue x results := by
  have hproxy : nonEmpty ((w.tracker.rollMonthIfNeeded cal x.today).addCost x.now cost).proxyId
      = true := by
    rw [roll_fields]
    exact h
  unfold CapWorld.record maybePersist
  simp only [if_neg hcost, hproxy, Bool.not_true, Bool.false_eq_true, if_false]
  unfold CapWorld.acknowledge CapWorld.note
  simp only [acknowledge_addCost]

/-- What a new snapshot leads to. -/
theorem snapshot_cases (hp : w.tracker.pendingCapPersist = false) (x : Outside) :
    ∃ t : CostTracker, t = w.tracker.pruneDailyWindow x.pruneNow ∧
    (x.sink ≠ .accepted ∧ w.snapshot x = { w with
        tracker := { t with capPersistRetryRequired := true }
        taken := w.taken ++ [⟨t.capState, w.recorded⟩] } ∨
    x.sink = .accepted ∧ w.tracker.capStatePersister = true ∧ w.snapshot x = { w with
        tracker := { t with
          pendingCapPersist := true
          pendingCapRecordCount := t.dirtyCapRecords }
        taken := w.taken ++ [⟨t.capState, w.recorded⟩]
        jobs := w.jobs ++ [⟨t.capState, w.recorded⟩]
        outcome := none } ∨
    x.sink = .accepted ∧ w.tracker.capStatePersister = false ∧ w.snapshot x = { w with
        tracker := { t with
          dirtyCapRecords := 0
          lastCapPersistedAt := x.monotonic
          capPersistRetryRequired := false }
        taken := w.taken ++ [⟨t.capState, w.recorded⟩]
        writes := w.writes ++ [⟨t.capState, w.recorded⟩] }) := by
  refine ⟨_, rfl, ?_⟩
  have hpersister : (w.tracker.pruneDailyWindow x.pruneNow).capStatePersister
      = w.tracker.capStatePersister := rfl
  unfold snapshot CostTracker.snapshotCapState CostTracker.writeCapState hand
  simp only [hp, Bool.false_eq_true, if_false, hpersister]
  cases hsink : w.tracker.capStatePersister with
  | true =>
    cases hx : x.sink with
    | accepted => exact .inr (.inl ⟨rfl, rfl, rfl⟩)
    | refused => exact .inl ⟨by simp, rfl⟩
    | raised => exact .inl ⟨by simp, rfl⟩
  | false =>
    cases hx : x.sink with
    | accepted => exact .inr (.inr ⟨rfl, rfl, rfl⟩)
    | refused => exact .inl ⟨by simp, rfl⟩
    | raised => exact .inl ⟨by simp, rfl⟩

theorem Sound.snapshot (h : w.Sound) (x : Outside) : (w.snapshot x).Good := by
  cases hp : w.tracker.pendingCapPersist with
  | true =>
    have hsame : w.snapshot x = w := by
      unfold CapWorld.snapshot
      rw [if_pos hp]
    rw [hsame]
    refine ⟨h, fun hidle => ?_⟩
    rw [hp] at hidle
    cases hidle
  | false =>
    obtain ⟨hjobs, hcount⟩ := h.idle hp
    have hcovered := h.covered
    have horder := h.order
    rw [hjobs, List.append_nil] at horder
    have hadd : ∀ s : Snapshot, (w.writes ++ [s]).Sublist (w.taken ++ [s]) :=
      fun s => horder.append (List.Sublist.refl [s])
    obtain ⟨t, rfl, ⟨-, heq⟩ | ⟨-, -, heq⟩ | ⟨-, -, heq⟩⟩ := snapshot_cases hp x
    · rw [heq]
      refine ⟨⟨h.proxy, hcovered, fun _ => ⟨hjobs, hcount⟩, fun hbusy => ?_, ?_⟩, fun _ _ hretry => ?_⟩
      · have hbusy : w.tracker.pendingCapPersist = true := hbusy
        rw [hp] at hbusy
        cases hbusy
      · rw [hjobs, List.append_nil]
        exact horder.trans (List.sublist_append_left _ _)
      · cases hretry
    · rw [heq]
      refine ⟨⟨h.proxy, hcovered, fun hidle => ?_, fun _ => ?_, ?_⟩, fun hidle => ?_⟩
      · cases hidle
      · refine ⟨⟨(w.tracker.pruneDailyWindow x.pruneNow).capState, w.recorded⟩, le_rfl, rfl,
          ⟨[], ?_, ?_⟩, fun _ => rfl, .inl ⟨?_, rfl⟩⟩
        · simp [CostTracker.capState]
        · simp
        · simp [hjobs]
      · rw [hjobs]
        exact hadd _
      · cases hidle
    · rw [heq]
      refine ⟨⟨h.proxy, ?_, fun _ => ⟨hjobs, hcount⟩, fun hbusy => ?_, ?_⟩, fun _ _ _ => ?_⟩
      · simp [contained]
      · have hbusy : w.tracker.pendingCapPersist = true := hbusy
        rw [hp] at hbusy
        cases hbusy
      · rw [hjobs, List.append_nil]
        exact hadd _
      · simp only [stored, List.getLast?_concat, Option.map_some]
        rfl

theorem Good.persist (h : w.Good) (x : Outside) (results : List Bool) :
    (w.persist x results).Good := by
  unfold CapWorld.persist
  split
  · exact h.work results
  · exact ((h.work results).acknowledge x.monotonic).1.snapshot x

theorem Good.persistIfDue (h : w.Good) (x : Outside) (results : List Bool) :
    (w.persistIfDue x results).Good := by
  unfold CapWorld.persistIfDue
  split
  · exact h.persist x results
  · exact h.work results

theorem Good.record (h : w.Good) (cal : Calendar) (costMicros : Option ℤ) (x : Outside)
    (results : List Bool) : (w.record cal costMicros x results).Good := by
  cases costMicros with
  | none => exact h.work results
  | some cost =>
    by_cases hcost : cost ≤ 0
    · unfold CapWorld.record
      simp only [if_pos hcost]
      exact h.work results
    · rw [record_eq h.1.proxy hcost]
      exact ((h.acknowledge x.monotonic).note x cost).persistIfDue x results

theorem Good.flush (h : w.Good) (x : Outside) (results : List Bool) : (w.flush x results).Good := by
  unfold CapWorld.flush persistIfDirty
  split
  · exact (h.acknowledge x.monotonic).persist x results
  · exact (h.acknowledge x.monotonic).work results

theorem Good.setPersister (h : w.Good) (sink : Bool) : (w.setPersister sink).Good :=
  ⟨{ h.1 with busy := fun hp => (h.1.busy hp).imp fun _ hs => { hs with } }, h.2⟩

theorem Good.close (h : w.Good) (results : List Bool) : (w.close results).Good := by
  obtain ⟨hw, hsettled⟩ := h.work results
  exact ⟨{ hw with busy := fun hp => (hw.busy hp).imp fun _ hs => { hs with } }, hsettled⟩

theorem Step.good {v : CapWorld} (h : Step cal w v) (hw : w.Good) : v.Good := by
  cases h with
  | complete b => exact ⟨hw.1.complete b, hw.2.complete hw.1 b⟩
  | acknowledge monotonic => exact hw.acknowledge monotonic
  | record costMicros x results => exact hw.record cal costMicros x results
  | flush x results => exact hw.flush x results
  | setPersister sink => exact hw.setPersister sink
  | close results => exact hw.close results

theorem Run.good {v : CapWorld} (h : Run cal w v) (hw : w.Good) : v.Good := by
  induction h with
  | refl => exact hw
  | step _ hstep ih => exact hstep.good ih

theorem bootstrap_good (cal : Calendar) (dailyCapMicros monthlyCapMicros : Option ℤ) (sink : Bool)
    (src : BootSource) {proxyId : String} (hid : proxyId ≠ "") :
    (bootstrap cal dailyCapMicros monthlyCapMicros sink src proxyId).Good := by
  have hproxy : nonEmpty (some proxyId) = true := by simpa [nonEmpty] using hid
  unfold bootstrap CapWorld.persist
  rw [if_neg (by simp [hproxy])]
  refine Sound.snapshot ?_ _
  exact ⟨hproxy, Nat.zero_le _, fun _ => ⟨rfl, rfl⟩, fun hbusy => (by cases hbusy),
    List.nil_sublist _⟩

end Keeping

/-! ## 5. Shutdown -/

section Shutdown

variable {w : CapWorld} {x : Outside} {results : List Bool}

theorem work_idle (h : w.jobs = []) (results : List Bool) : w.work results = w := by
  unfold work
  induction results with
  | nil => rfl
  | cons b rest ih =>
    have hsame : w.complete b = w := by
      unfold complete
      rw [h]
    rw [List.foldl_cons, hsame]
    exact ih

theorem work_last {s : Snapshot} (h : w.jobs = [s]) (b : Bool) (rest : List Bool) :
    w.work (b :: rest) = { w with
      jobs := []
      writes := if b then w.writes ++ [s] else w.writes
      outcome := some b } := by
  show (w.complete b).work rest = _
  rw [work_idle, complete_last h]
  rw [complete_last h]

theorem work_outcome_true (hall : ∀ b ∈ results, b = true) (h : w.outcome ≠ some false) :
    (w.work results).outcome ≠ some false := by
  unfold work
  induction results generalizing w with
  | nil => exact h
  | cons b rest ih =>
    refine ih (fun c hc => hall c (List.mem_cons_of_mem _ hc)) ?_
    have hb := hall b List.mem_cons_self
    unfold complete
    cases w.jobs with
    | nil => exact h
    | cons job more =>
      simp only
      split
      · simp [hb]
      · exact h

/-- A tracker that still waits has not seen an outcome. -/
theorem acknowledge_pending {monotonic : ℚ}
    (h : (w.acknowledge monotonic).tracker.pendingCapPersist = true) :
    (w.acknowledge monotonic).outcome = none := by
  unfold acknowledge at h ⊢
  rcases acknowledge_cases w.tracker monotonic w.outcome with
    ⟨hidle | hnone, heq⟩ | ⟨-, -, heq⟩ | ⟨-, -, heq⟩
  · rw [heq] at h
    rw [hidle] at h
    cases h
  · exact hnone
  · rw [heq] at h
    cases h
  · rw [heq] at h
    cases h

/-- A snapshot that is accepted is on its way, or everything is written. -/
theorem snapshot_accepted (hsink : x.sink = .accepted)
    (hw : w.tracker.pendingCapPersist = true → w.outcome = none) :
    ((w.snapshot x).tracker.pendingCapPersist = true → (w.snapshot x).outcome = none) ∧
    ((w.snapshot x).tracker.pendingCapPersist = false →
      (w.snapshot x).tracker.dirtyCapRecords = 0 ∧
      (w.snapshot x).tracker.capPersistRetryRequired = false) := by
  cases hp : w.tracker.pendingCapPersist with
  | true =>
    have hsame : w.snapshot x = w := by
      unfold snapshot
      rw [if_pos hp]
    rw [hsame]
    refine ⟨hw, fun hidle => ?_⟩
    rw [hp] at hidle
    cases hidle
  | false =>
    obtain ⟨t, rfl, ⟨hrefused, -⟩ | ⟨-, -, heq⟩ | ⟨-, -, heq⟩⟩ := snapshot_cases hp x
    · exact absurd hsink hrefused
    · rw [heq]
      refine ⟨fun _ => rfl, fun hidle => ?_⟩
      cases hidle
    · rw [heq]
      refine ⟨fun hbusy => ?_, fun _ => ⟨rfl, rfl⟩⟩
      have hbusy : w.tracker.pendingCapPersist = true := hbusy
      rw [hp] at hbusy
      cases hbusy

/-- What a flush leaves to do. -/
theorem flush_accepted (h : w.Good) (hsink : x.sink = .accepted) (hall : ∀ b ∈ results, b = true) :
    ((w.flush x results).tracker.pendingCapPersist = true →
      (w.flush x results).outcome ≠ some false) ∧
    ((w.flush x results).tracker.pendingCapPersist = false →
      (w.flush x results).tracker.dirtyCapRecords = 0 ∧
      (w.flush x results).tracker.capPersistRetryRequired = false) := by
  have ha := h.acknowledge x.monotonic
  unfold flush persistIfDirty
  split
  · unfold persist
    rw [if_neg (by simp [ha.1.proxy])]
    obtain ⟨hbusy, hidle⟩ := snapshot_accepted hsink
      (w := ((w.acknowledge x.monotonic).work results).acknowledge x.monotonic) acknowledge_pending
    exact ⟨fun hp => by simp [hbusy hp], hidle⟩
  · rename_i hclean
    rw [work_tracker]
    refine ⟨fun hp => work_outcome_true hall ?_, fun _ => ?_⟩
    · rw [acknowledge_pending hp]
      simp
    · simp only [not_or, Bool.not_eq_true] at hclean
      exact ⟨by omega, hclean.2⟩

/-- The snapshot that the tracker waits for lacks a cost. -/
def Behind (w : CapWorld) : Prop :=
  w.tracker.pendingCapPersist = true ∧
    w.tracker.pendingCapRecordCount < w.tracker.dirtyCapRecords

/-- A flush and the end of the worker store the state of the tracker,
unless a cost came in behind the snapshot that was on its way. -/
theorem flush_close (h : w.Good) (hsink : x.sink = .accepted) {results' : List Bool}
    (hall : ∀ b ∈ results ++ results', b = true)
    (hdrained : (w.flush x results).jobs.length ≤ results'.length) :
    ((w.flush x results).close results').stored
      = some ((w.flush x results).close results').tracker.capState ↔
    ¬ (w.flush x results).Behind := by
  obtain ⟨houtcome, hclean⟩ := flush_accepted h hsink
    (fun b hb => hall b (List.mem_append_left _ hb))
  have hgood := h.flush x results
  generalize w.flush x results = v at *
  have htracker : (v.close results').tracker = v.tracker := work_tracker v results'
  rw [htracker]
  cases hp : v.tracker.pendingCapPersist with
  | false =>
    have hidle := (hgood.1.idle hp).1
    have hstored : (v.close results').stored = v.stored := by
      show (v.work results').stored = v.stored
      rw [work_idle hidle]
    obtain ⟨hdirty, hretry⟩ := hclean hp
    rw [hstored, hgood.2 hp hdirty hretry]
    simp [Behind, hp]
  | true =>
    obtain ⟨s, hs⟩ := hgood.1.busy hp
    have hstored : (v.close results').stored = some s.state := by
      show (v.work results').stored = _
      rcases hs.fate with ⟨hjobs, -⟩ | ⟨hjobs, -, hlast⟩ | ⟨-, hfalse⟩
      · cases results' with
        | nil => simp [hjobs] at hdrained
        | cons b rest =>
          have hb : b = true := hall b (List.mem_append_right _ List.mem_cons_self)
          rw [work_last hjobs, hb]
          simp [stored]
      · rw [work_idle hjobs]
        simp [stored, hlast]
      · exact absurd hfalse (houtcome hp)
    obtain ⟨added, hadded, hlength⟩ := hs.since
    have hle := hs.count
    have hup := hs.upTo
    rw [hstored]
    constructor
    · rintro hsame ⟨-, hlt⟩
      have hwindow : s.state.dailyWindow = v.tracker.dailyWindow :=
        congrArg CapState.dailyWindow (Option.some.inj hsame)
      rw [hadded] at hwindow
      have hnil : added = [] := by simpa using hwindow
      rw [hnil, List.length_nil] at hlength
      omega
    · intro hbehind
      have hupTo : s.upTo = v.recorded := by
        by_contra hne
        exact hbehind ⟨hp, by omega⟩
      rw [hs.same hupTo]

/-- A flush without a sink, after the worker has ended, stores the state
of the tracker. -/
theorem flush_drained (h : w.Good) (hjobs : w.jobs = [])
    (hdirect : w.tracker.capStatePersister = false) (hsink : x.sink = .accepted) :
    (w.flush x []).stored = some (w.flush x []).tracker.capState := by
  have hidle : (w.acknowledge x.monotonic).tracker.pendingCapPersist = false := by
    cases hp : (w.acknowledge x.monotonic).tracker.pendingCapPersist with
    | false => rfl
    | true =>
      have hnone := acknowledge_pending hp
      obtain ⟨s, hs⟩ := (h.acknowledge x.monotonic).1.busy hp
      rcases hs.fate with ⟨hjob, -⟩ | ⟨-, hdone, -⟩ | ⟨-, hdone⟩
      · have hjob : w.jobs = [s] := hjob
        rw [hjobs] at hjob
        cases hjob
      · rw [hnone] at hdone
        cases hdone
      · rw [hnone] at hdone
        cases hdone
  have hp : (w.flush x []).tracker.pendingCapPersist = false := by
    have hsame : ∀ u : CapWorld, u.tracker.pendingCapPersist = false → u.acknowledge x.monotonic = u := by
      intro u hu
      unfold acknowledge CostTracker.acknowledgeCapPersist
      simp [hu]
    have hdirect' : (w.acknowledge x.monotonic).tracker.capStatePersister = false := by
      unfold acknowledge
      rcases acknowledge_cases w.tracker x.monotonic w.outcome with
        ⟨-, heq⟩ | ⟨-, -, heq⟩ | ⟨-, -, heq⟩
      all_goals
        rw [heq]
        exact hdirect
    unfold flush persistIfDirty
    split
    · unfold persist
      split
      · exact hidle
      · show (((w.acknowledge x.monotonic).acknowledge x.monotonic).snapshot x).tracker.pendingCapPersist
          = false
        rw [hsame _ hidle]
        obtain ⟨t, rfl, ⟨hrefused, -⟩ | ⟨-, hset, -⟩ | ⟨-, -, heq⟩⟩ := snapshot_cases hidle x
        · exact absurd hsink hrefused
        · rw [hdirect'] at hset
          cases hset
        · rw [heq]
          exact hidle
    · exact hidle
  have hnone : ∀ b ∈ ([] : List Bool), b = true := by simp
  obtain ⟨hdirty, hretry⟩ := (flush_accepted h hsink hnone).2 hp
  exact (h.flush x []).2 hp hdirty hretry

end Shutdown

/-! ## 6. Snapshots are states the tracker had -/

section Had

variable {w v : CapWorld} {x : Outside} {results : List Bool} {cal : Calendar}

/-- The snapshot of a state. -/
def now (w : CapWorld) : Snapshot := ⟨w.tracker.capState, w.recorded⟩

/-- A call takes no snapshot, or one of the state it leaves. -/
def Takes (w v : CapWorld) : Prop := v.taken = w.taken ∨ v.taken = w.taken ++ [v.now]

theorem snapshot_takes (w : CapWorld) (x : Outside) : w.Takes (w.snapshot x) := by
  cases hp : w.tracker.pendingCapPersist with
  | true =>
    have hsame : w.snapshot x = w := by
      unfold snapshot
      rw [if_pos hp]
    rw [hsame]
    exact .inl rfl
  | false =>
    obtain ⟨t, rfl, ⟨-, heq⟩ | ⟨-, -, heq⟩ | ⟨-, -, heq⟩⟩ := snapshot_cases hp x
    all_goals
      rw [heq]
      exact .inr rfl

theorem persist_takes (w : CapWorld) (x : Outside) (results : List Bool) :
    w.Takes (w.persist x results) := by
  unfold persist
  split
  · exact .inl (work_taken w results)
  · have h := snapshot_takes ((w.work results).acknowledge x.monotonic) x
    unfold Takes at h ⊢
    rwa [show ((w.work results).acknowledge x.monotonic).taken = w.taken from work_taken w results]
      at h

theorem persistIfDue_takes (w : CapWorld) (x : Outside) (results : List Bool) :
    w.Takes (w.persistIfDue x results) := by
  unfold persistIfDue
  split
  · exact persist_takes w x results
  · exact .inl (work_taken w results)

theorem Step.takes (h : Step cal w v) : w.Takes v := by
  cases h with
  | complete b => exact .inl (complete_taken w b)
  | acknowledge monotonic => exact .inl rfl
  | record costMicros x results _ =>
    cases costMicros with
    | none => exact .inl (work_taken w results)
    | some cost =>
      unfold CapWorld.record
      simp only
      split
      · exact .inl (work_taken w results)
      · unfold maybePersist
        split
        · exact .inl (work_taken _ results)
        · exact persistIfDue_takes _ x results
  | flush x results _ =>
    unfold CapWorld.flush persistIfDirty
    split
    · exact persist_takes (w.acknowledge x.monotonic) x results
    · exact .inl (work_taken _ results)
  | setPersister sink => exact .inl rfl
  | close results _ => exact .inl (work_taken w results)

/-- Every snapshot is a state that the tracker has had. -/
theorem Run.had (h : Run cal w v) (hw : ∀ s ∈ w.taken, s = w.now) :
    ∀ s ∈ v.taken, ∃ u, Run cal w u ∧ Run cal u v ∧ s = u.now := by
  induction h with
  | refl => exact fun s hs => ⟨w, .refl w, .refl w, hw s hs⟩
  | @step a b hrun hstep ih =>
    intro s hs
    have hold : s ∈ a.taken → ∃ u, Run cal w u ∧ Run cal u b ∧ s = u.now := by
      intro hs
      obtain ⟨u, hu, hrest, hstate⟩ := ih s hs
      exact ⟨u, hu, hrest.step hstep, hstate⟩
    rcases hstep.takes with hsame | hnew
    · exact hold (hsame ▸ hs)
    · rw [hnew, List.mem_append, List.mem_singleton] at hs
      rcases hs with hs | hs
      · exact hold hs
      · exact ⟨b, hrun.step hstep, .refl b, hs⟩

theorem bootstrap_takes (cal : Calendar) (dailyCapMicros monthlyCapMicros : Option ℤ) (sink : Bool)
    (src : BootSource) (proxyId : String) :
    ∀ s ∈ (bootstrap cal dailyCapMicros monthlyCapMicros sink src proxyId).taken,
      s = (bootstrap cal dailyCapMicros monthlyCapMicros sink src proxyId).now := by
  intro s hs
  unfold bootstrap at hs ⊢
  simp only at hs ⊢
  rcases persist_takes _ src.outside [] with hsame | hnew
  · rw [hsame] at hs
    cases hs
  · rw [hnew, List.mem_append, List.mem_singleton] at hs
    rcases hs with hs | hs
    · cases hs
    · exact hs

end Had

/-! ## 7. The contract -/

/-- **Cap-state persistence forgets no spend.** Of a tracker with a proxy
id: the costs that are not in the file are counted as dirty, the file has a
state the tracker had, in the order of the snapshots, and a shutdown stores
the last state. A flush and `close` do so unless a cost came in behind a
snapshot that was on its way; the flush that `lifespan` makes after them
does so whatever became of the snapshots before. -/
theorem capState_persisted {dailyCapMicros monthlyCapMicros : Option ℤ} {sink : Bool}
    {cal : Calendar} {src : BootSource} {proxyId : String} {w : CapWorld} (hid : proxyId ≠ "")
    (hrun : Run cal (bootstrap cal dailyCapMicros monthlyCapMicros sink src proxyId) w) :
    w.recorded - w.contained ≤ w.tracker.dirtyCapRecords ∧
    w.writes.Sublist w.taken ∧
    (∀ s ∈ w.writes, ∃ u,
      Run cal (bootstrap cal dailyCapMicros monthlyCapMicros sink src proxyId) u ∧ Run cal u w ∧
      s = u.now) ∧
    (∀ x results results', x.sink = .accepted → (∀ b ∈ results ++ results', b = true) →
      (w.flush x results).jobs.length ≤ results'.length →
      (((w.flush x results).close results').stored
          = some ((w.flush x results).close results').tracker.capState ↔
        ¬ (w.flush x results).Behind)) ∧
    (∀ x results results' y, (w.flush x results).jobs.length ≤ results'.length →
      y.sink = .accepted →
      ((((w.flush x results).close results').setPersister false).flush y []).stored
        = some ((((w.flush x results).close results').setPersister false).flush y []).tracker.capState)
    := by
  have hgood := hrun.good (bootstrap_good cal dailyCapMicros monthlyCapMicros sink src hid)
  have hcovered := hgood.1.covered
  have horder : w.writes.Sublist w.taken := (List.sublist_append_left _ _).trans hgood.1.order
  refine ⟨by omega, horder, fun s hs => ?_, fun x results results' hsink hall hdrained => ?_,
    fun x results results' y hdrained hsink => ?_⟩
  · exact hrun.had (bootstrap_takes cal dailyCapMicros monthlyCapMicros sink src proxyId) s
      (horder.subset hs)
  · exact flush_close hgood hsink hall hdrained
  · have hclosed := ((hgood.flush x results).close results').setPersister false
    refine flush_drained hclosed ?_ rfl hsink
    show ((w.flush x results).work results').jobs = []
    rcases (hgood.flush x results).1.jobs with hnil | ⟨s, -, -, hjobs⟩
    · rw [work_idle hnil]
      exact hnil
    · cases results' with
      | nil => simp [hjobs] at hdrained
      | cons b rest => rw [work_last hjobs]

def sampleCalendar : Calendar := ⟨fun _ => "2026-01", fun _ => "2025-12"⟩

def sampleOutside : Outside := { now := 1, today := 1, pruneNow := 1, monotonic := 1 }

/-- A tracker whose first snapshot is on its way. -/
def sampleBooted : CapWorld :=
  bootstrap sampleCalendar none none true ⟨[], none, sampleOutside⟩ "proxy-a"

/-- The same tracker with a cost. -/
def sampleSpent : CapWorld := sampleBooted.record sampleCalendar (some 5) sampleOutside []

theorem sampleSpent_run : Run sampleCalendar sampleBooted sampleSpent := by
  refine .step (.refl _) (.record (some 5) sampleOutside [] fun hclosed => ?_)
  exact absurd hclosed (by decide +kernel)

/-- The cost is counted, and the flush of `lifespan` stores it. -/
theorem sampleSpent_persisted :
    sampleSpent.recorded - sampleSpent.contained ≤ sampleSpent.tracker.dirtyCapRecords ∧
    ((((sampleSpent.flush sampleOutside []).close [true]).setPersister false).flush
        sampleOutside []).stored
      = some ((((sampleSpent.flush sampleOutside []).close [true]).setPersister false).flush
        sampleOutside []).tracker.capState := by
  obtain ⟨hdirty, -, -, -, hshutdown⟩ := capState_persisted (by decide) sampleSpent_run
  exact ⟨hdirty, hshutdown sampleOutside [] [true] sampleOutside (by decide +kernel) rfl⟩

/-- A flush and `close` leave that cost behind, and no write fails. -/
theorem flushClose_behind : ∃ (w : CapWorld) (x : Outside) (results : List Bool),
    Run sampleCalendar (bootstrap sampleCalendar none none true ⟨[], none, sampleOutside⟩ "proxy-a")
      w ∧
    x.sink = .accepted ∧ (∀ b ∈ results, b = true) ∧
    (w.flush x []).jobs.length ≤ results.length ∧
    ((w.flush x []).close results).stored
      ≠ some ((w.flush x []).close results).tracker.capState :=
  ⟨sampleSpent, sampleOutside, [true], sampleSpent_run, rfl, by decide, by decide +kernel,
    by decide +kernel⟩

end CapWorld

end MultiForge.Proxy
