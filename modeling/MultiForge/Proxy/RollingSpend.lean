/-
MultiForge.Proxy.RollingSpend — when the rolling 24-hour spend is exact.

The tracker prunes its window from the head. `WindowInv` is the invariant
under which that is exact: the ledger of everything counted is in order
of time and not later than the clock, and the window is its recent part.
Every call keeps it. It holds after bootstrap exactly when the entries
that bootstrap keeps are in order and none is later than the clock, and
without it some run shows a wrong spend.
-/
import Mathlib.Algebra.Order.BigOperators.Group.List
import Mathlib.Tactic.Linarith
import MultiForge.Proxy.CostTracker

namespace MultiForge.Proxy

open Window (prune recent Ordered)

/-! ## 1. Runs -/

/-- The calls on a bootstrapped tracker. -/
inductive CostCall where
  | record (costMicros : Option ℤ)
  | dailySpend
  | monthlySpend
  | checkCap
  | flush
  | setPersister (sink : Bool)
  deriving DecidableEq, Repr

/-- A call with what it reads from outside. -/
structure CostStep where
  call : CostCall
  outside : Outside
  deriving DecidableEq

def CostTracker.step (cal : Calendar) (t : CostTracker) (s : CostStep) : CostTracker :=
  match s.call with
  | .record cost => t.record cal cost s.outside
  | .dailySpend => (t.dailySpendMicros s.outside).2
  | .monthlySpend => (t.monthlySpendMicros cal s.outside).2
  | .checkCap => (t.checkCap cal s.outside).2
  | .flush => t.flushCapState s.outside
  | .setPersister sink => { t with capStatePersister := sink }

def CostTracker.run (cal : Calendar) (t : CostTracker) (steps : List CostStep) : CostTracker :=
  steps.foldl (CostTracker.step cal) t

/-- The entry a call adds. -/
def CostStep.entry? (s : CostStep) : Option WindowEntry :=
  match s.call with
  | .record (some cost) => if cost ≤ 0 then none else some (s.outside.now, cost)
  | _ => none

/-- The clock does not go back: not before `b`, and not within the run. -/
def ClockFrom (b : ℚ) : List CostStep → Prop
  | [] => True
  | s :: rest => b ≤ s.outside.now ∧ ClockFrom s.outside.pruneNow rest

/-- The last reading of a run that starts at `b`. -/
def lastClock (b : ℚ) : List CostStep → ℚ
  | [] => b
  | s :: rest => lastClock s.outside.pruneNow rest

/-- The spend a tracker shows is that of the ledger's last 24 hours: the
window, its sum, and what `check_cap` says about the daily cap. -/
structure SpendExact (t : CostTracker) (ledger : List WindowEntry) (x : Outside) : Prop where
  window : (t.dailySpendMicros x).2.dailyWindow = recent (x.pruneNow - daySeconds) ledger
  spend : (t.dailySpendMicros x).1 = totalMicros (recent (x.pruneNow - daySeconds) ledger)
  cap : ∀ cal cap, t.dailyCapMicros = some cap →
    ((t.checkCap cal x).1.capType = some "daily" ↔
      cap ≤ totalMicros (recent (x.pruneNow - daySeconds) ledger))

/-- The ledger after a run. -/
def ledgerAfter (ledger : List WindowEntry) (steps : List CostStep) : List WindowEntry :=
  ledger ++ steps.filterMap CostStep.entry?

/-! ## 2. What the calls do to the window -/

/-- The window is left alone, or pruned at the reading of the call. -/
def PrunedOrSame (t t' : CostTracker) (x : Outside) : Prop :=
  t'.dailyWindow = t.dailyWindow ∨
    t'.dailyWindow = prune (x.pruneNow - daySeconds) t.dailyWindow

theorem acknowledgeCapPersist_window (t : CostTracker) (monotonic : ℚ) (done : Option Bool) :
    (t.acknowledgeCapPersist monotonic done).dailyWindow = t.dailyWindow := by
  unfold CostTracker.acknowledgeCapPersist
  split
  · rfl
  · split <;> rfl

theorem writeCapState_window (t : CostTracker) (x : Outside) :
    (t.writeCapState x).dailyWindow = t.dailyWindow := by
  unfold CostTracker.writeCapState
  split <;> split <;> rfl

theorem persistCapState_window (t : CostTracker) (x : Outside) :
    PrunedOrSame t (t.persistCapState x) x := by
  unfold CostTracker.persistCapState
  split
  · exact .inl rfl
  · unfold CostTracker.snapshotCapState PrunedOrSame
    split
    · exact .inl (acknowledgeCapPersist_window t _ _)
    · refine .inr ?_
      rw [writeCapState_window, ← acknowledgeCapPersist_window t x.monotonic x.done']
      rfl

/-- Persisting after a change that leaves the window alone. -/
theorem PrunedOrSame.after {t t' t'' : CostTracker} {x : Outside}
    (h : t'.dailyWindow = t.dailyWindow) (h' : PrunedOrSame t' t'' x) : PrunedOrSame t t'' x := by
  unfold PrunedOrSame at h' ⊢
  rwa [h] at h'

theorem maybePersistCapState_window (t : CostTracker) (x : Outside) :
    PrunedOrSame t (t.maybePersistCapState x) x := by
  unfold CostTracker.maybePersistCapState
  split
  · exact .inl rfl
  · have hsame := acknowledgeCapPersist_window t x.monotonic x.done
    refine PrunedOrSame.after hsame ?_
    unfold CostTracker.persistIfDue
    split
    · exact PrunedOrSame.after rfl (persistCapState_window _ x)
    · exact .inl rfl

theorem flushCapState_window (t : CostTracker) (x : Outside) :
    PrunedOrSame t (t.flushCapState x) x := by
  have hsame := acknowledgeCapPersist_window t x.monotonic x.done
  refine PrunedOrSame.after hsame ?_
  unfold CostTracker.flushCapState CostTracker.persistIfDirty
  split
  · exact persistCapState_window _ x
  · exact .inl rfl

theorem rollMonthIfNeeded_window (t : CostTracker) (cal : Calendar) (now : ℚ) :
    (t.rollMonthIfNeeded cal now).dailyWindow = t.dailyWindow := by
  unfold CostTracker.rollMonthIfNeeded
  split <;> rfl

theorem checkMonthlyCap_window (t : CostTracker) (cal : Calendar) (x : Outside) :
    (t.checkMonthlyCap cal x).2.dailyWindow = t.dailyWindow ∧
      (t.checkMonthlyCap cal x).1.capType ≠ some "daily" := by
  have hroll := rollMonthIfNeeded_window t cal x.today
  unfold CostTracker.checkMonthlyCap
  split
  · exact ⟨rfl, by simp⟩
  · rename_i cap _
    simp only [CostTracker.monthlySpendMicros]
    by_cases h : cap ≤ (t.rollMonthIfNeeded cal x.today).monthlyTotal
    · simp [h, hroll]
    · simp [h, hroll]

theorem checkCap_window (t : CostTracker) (cal : Calendar) (x : Outside) :
    PrunedOrSame t (t.checkCap cal x).2 x := by
  unfold CostTracker.checkCap
  split
  · exact .inl (checkMonthlyCap_window t cal x).1
  · refine .inr ?_
    simp only
    split
    · rfl
    · exact (checkMonthlyCap_window _ cal x).1

/-- What `check_cap` says about the daily cap. -/
theorem checkCap_daily (t : CostTracker) (cal : Calendar) (x : Outside) {cap : ℤ}
    (h : t.dailyCapMicros = some cap) :
    (t.checkCap cal x).1.capType = some "daily" ↔ cap ≤ (t.dailySpendMicros x).1 := by
  unfold CostTracker.checkCap
  rw [h]
  simp only
  split
  · rename_i hle
    exact iff_of_true rfl hle
  · rename_i hlt
    exact iff_of_false (checkMonthlyCap_window _ cal x).2 hlt

/-- **A call appends its entry, and may prune.** -/
theorem step_window (cal : Calendar) (t : CostTracker) (s : CostStep) :
    (t.step cal s).dailyWindow = t.dailyWindow ++ s.entry?.toList ∨
      (t.step cal s).dailyWindow
        = prune (s.outside.pruneNow - daySeconds) (t.dailyWindow ++ s.entry?.toList) := by
  obtain ⟨call, x⟩ := s
  cases call with
  | record cost =>
    cases cost with
    | none => exact .inl (by simp [CostTracker.step, CostTracker.record, CostStep.entry?])
    | some cost =>
      simp only [CostTracker.step, CostTracker.record, CostStep.entry?]
      split
      · exact .inl (by simp)
      · have h := maybePersistCapState_window
          ((t.rollMonthIfNeeded cal x.today).addCost x.now cost) x
        have hadd : ((t.rollMonthIfNeeded cal x.today).addCost x.now cost).dailyWindow
            = t.dailyWindow ++ [(x.now, cost)] := by
          rw [← rollMonthIfNeeded_window t cal x.today]
          rfl
        unfold PrunedOrSame at h
        rwa [hadd] at h
  | dailySpend => exact .inr (by simp [CostTracker.step, CostStep.entry?,
      CostTracker.dailySpendMicros, CostTracker.pruneDailyWindow])
  | monthlySpend => exact .inl (by simp [CostTracker.step, CostStep.entry?,
      CostTracker.monthlySpendMicros, rollMonthIfNeeded_window])
  | checkCap => simpa [CostTracker.step, CostStep.entry?, PrunedOrSame] using
      checkCap_window t cal x
  | flush => simpa [CostTracker.step, CostStep.entry?, PrunedOrSame] using
      flushCapState_window t x
  | setPersister sink => exact .inl (by simp [CostTracker.step, CostStep.entry?])

/-! ## 3. The invariant -/

/-- The ledger is in order and in the past, and the window is its recent
part. -/
structure WindowInv (w ledger : List WindowEntry) (clock : ℚ) : Prop where
  ordered : Ordered ledger
  past : ∀ e ∈ ledger, e.1 ≤ clock
  window : ∃ c ≤ clock - daySeconds, w = recent c ledger

theorem day_pos : 0 < daySeconds := by decide

/-- An entry at a later time is in the past and in the window. -/
theorem WindowInv.append {w ledger : List WindowEntry} {clock : ℚ} (h : WindowInv w ledger clock)
    {e : WindowEntry} (he : clock ≤ e.1) : WindowInv (w ++ [e]) (ledger ++ [e]) e.1 := by
  obtain ⟨c, hc, hw⟩ := h.window
  have hday := day_pos
  refine ⟨h.ordered.snoc fun d hd => (h.past d hd).trans he, ?_, c, by linarith, ?_⟩
  · intro d hd
    rcases List.mem_append.mp hd with hd | hd
    · exact (h.past d hd).trans he
    · rw [List.mem_singleton.mp hd]
  · have hkeep : recent c [e] = [e] := by
      refine Window.recent_eq_self.mpr fun d hd => ?_
      rw [List.mem_singleton.mp hd]
      linarith
    rw [Window.recent_append, hkeep, hw]

theorem WindowInv.later {w ledger : List WindowEntry} {clock now : ℚ}
    (h : WindowInv w ledger clock) (hnow : clock ≤ now) : WindowInv w ledger now := by
  obtain ⟨c, hc, hw⟩ := h.window
  exact ⟨h.ordered, fun e he => (h.past e he).trans hnow, c, by linarith, hw⟩

/-- Pruning the window leaves the recent part of the ledger. -/
theorem WindowInv.prune_eq {w ledger : List WindowEntry} {clock now : ℚ}
    (h : WindowInv w ledger clock) (hnow : clock ≤ now) :
    prune (now - daySeconds) w = recent (now - daySeconds) ledger := by
  obtain ⟨c, hc, rfl⟩ := h.window
  rw [(h.ordered.recent c).prune_eq_recent]
  exact Window.recent_recent (by linarith) ledger

theorem WindowInv.prune {w ledger : List WindowEntry} {clock now : ℚ}
    (h : WindowInv w ledger clock) (hnow : clock ≤ now) :
    WindowInv (prune (now - daySeconds) w) ledger now :=
  ⟨h.ordered, fun e he => (h.past e he).trans hnow, _, le_rfl, h.prune_eq hnow⟩

theorem entry?_time {s : CostStep} {e : WindowEntry} (h : s.entry? = some e) :
    e.1 = s.outside.now := by
  unfold CostStep.entry? at h
  split at h
  · split at h
    · cases h
    · cases h; rfl
  · cases h

/-- **Every call keeps the invariant.** -/
theorem WindowInv.step {t : CostTracker} {ledger : List WindowEntry} {clock : ℚ}
    (h : WindowInv t.dailyWindow ledger clock) (cal : Calendar) {s : CostStep}
    (hs : clock ≤ s.outside.now) :
    WindowInv (t.step cal s).dailyWindow (ledger ++ s.entry?.toList) s.outside.pruneNow := by
  have hadd : WindowInv (t.dailyWindow ++ s.entry?.toList) (ledger ++ s.entry?.toList)
      s.outside.now := by
    cases hentry : s.entry? with
    | none => simpa using h.later hs
    | some e =>
      have htime := entry?_time hentry
      exact htime ▸ h.append (htime ▸ hs)
  rcases step_window cal t s with hw | hw
  · rw [hw]
    exact hadd.later s.outside.ordered
  · rw [hw]
    exact hadd.prune s.outside.ordered

/-- A run keeps the invariant. -/
theorem WindowInv.run (cal : Calendar) : ∀ {steps : List CostStep} {t : CostTracker}
    {ledger : List WindowEntry} {clock : ℚ}, WindowInv t.dailyWindow ledger clock →
    ClockFrom clock steps →
    WindowInv (t.run cal steps).dailyWindow (ledgerAfter ledger steps) (lastClock clock steps)
  | [], t, ledger, clock, h, _ => by simpa [ledgerAfter, CostTracker.run, lastClock] using h
  | s :: steps, t, ledger, clock, h, hclock => by
      have hrun := WindowInv.run cal (h.step cal hclock.1) hclock.2
      have hledger : ledgerAfter ledger (s :: steps)
          = ledgerAfter (ledger ++ s.entry?.toList) steps := by
        cases hs : s.entry? <;> simp [ledgerAfter, hs]
      rw [hledger]
      exact hrun

/-- Under the invariant the spend is exact. -/
theorem WindowInv.spendExact {t : CostTracker} {ledger : List WindowEntry} {clock : ℚ}
    (h : WindowInv t.dailyWindow ledger clock) {x : Outside} (hx : clock ≤ x.pruneNow) :
    SpendExact t ledger x := by
  have hw : (t.dailySpendMicros x).2.dailyWindow = recent (x.pruneNow - daySeconds) ledger :=
    h.prune_eq hx
  have hspend : (t.dailySpendMicros x).1 = totalMicros (recent (x.pruneNow - daySeconds) ledger) :=
    congrArg totalMicros hw
  exact ⟨hw, hspend, fun cal cap hcap => hspend ▸ checkCap_daily t cal x hcap⟩

/-! ## 4. Bootstrap -/

/-- The last clock reading of a bootstrap. -/
def BootSource.clock (src : BootSource) (proxyId : Option String) : ℚ :=
  if nonEmpty proxyId then src.outside.pruneNow else src.outside.now

/-- The entries a bootstrap keeps: those of the last 24 hours from the
logs, or from the state when it has spent more, pruned once more when the
state is written. -/
def BootSource.keptWindow (src : BootSource) (cal : Calendar) (proxyId : Option String) :
    List WindowEntry :=
  prune (src.clock proxyId - daySeconds) (src.dailyWindow cal proxyId)

theorem logDailyWindow_recent (cutoff : ℚ) (records : List ParsedCostRecord) :
    ∀ e ∈ logDailyWindow cutoff records, cutoff ≤ e.1 := by
  intro e he
  obtain ⟨r, hr, rfl⟩ := List.mem_map.mp he
  simpa using (List.mem_filter.mp hr).2

theorem prune_of_recent {c : ℚ} {w : List WindowEntry} (h : ∀ e ∈ w, c ≤ e.1) :
    prune c w = w := by
  cases w with
  | nil => rfl
  | cons e w => exact Window.prune_cons_of_le (h e List.mem_cons_self) w

theorem bootstrapFromLogs_window (cal : Calendar) (src : BootSource) (proxyId : Option String)
    (dailyCap monthlyCap : Option ℤ) (sink : Bool) :
    ((CostTracker.new dailyCap monthlyCap sink).bootstrapFromLogs cal src proxyId).dailyWindow
      = src.keptWindow cal proxyId := by
  cases hid : nonEmpty proxyId with
  | true =>
    simp [CostTracker.bootstrapFromLogs, CostTracker.persistCapState, hid,
      CostTracker.acknowledgeCapPersist, CostTracker.new, CostTracker.snapshotCapState,
      writeCapState_window, CostTracker.pruneDailyWindow, BootSource.keptWindow, BootSource.clock]
  | false =>
    have hlog : src.dailyWindow cal proxyId
        = logDailyWindow (src.outside.now - daySeconds) (src.records cal proxyId) := by
      have hpos : ∀ w : List ParsedCostRecord, 0 ≤ totalMicros
          (logDailyWindow (src.outside.now - daySeconds) w) := by
        intro w
        refine List.sum_nonneg fun n hn => ?_
        obtain ⟨e, he, rfl⟩ := List.mem_map.mp hn
        obtain ⟨r, -, rfl⟩ := List.mem_map.mp he
        exact r.cost_pos.le
      have hstate : src.stateDailyWindow proxyId = [] := by
        simp [BootSource.stateDailyWindow, BootSource.capState, hid]
      have hnot : ¬ totalMicros (logDailyWindow (src.outside.now - daySeconds)
          (src.records cal proxyId)) < totalMicros [] := not_lt.mpr (hpos _)
      simp only [BootSource.dailyWindow, hstate, if_neg hnot]
    rw [BootSource.keptWindow, BootSource.clock, hid, hlog]
    simp [CostTracker.bootstrapFromLogs, CostTracker.persistCapState, hid, hlog,
      prune_of_recent (logDailyWindow_recent _ _)]

/-! ## 5. When the spend is exact -/

/-- A reading at one instant. -/
def Outside.at (now : ℚ) : Outside := { now, today := now, pruneNow := now, ordered := le_rfl }

theorem mem_prune_append {c : ℚ} {w : List WindowEntry} {e f : WindowEntry} (he : e ∈ w)
    (hce : c ≤ e.1) : f ∈ prune c (w ++ [f]) := by
  induction w with
  | nil => cases he
  | cons d w ih =>
    rcases lt_or_ge d.1 c with hlt | hge
    · have hne : e ≠ d := fun h => absurd (h ▸ hce) (not_le.mpr hlt)
      rw [List.cons_append, Window.prune_cons_of_lt hlt]
      exact ih ((List.mem_cons.mp he).resolve_left hne)
    · rw [List.cons_append, Window.prune_cons_of_le hge]
      simp

def exampleCalendar : Calendar := ⟨fun _ => "2026-05", fun _ => "2026-04"⟩

def exampleRecord (ts : ℚ) (id : String) : ParsedCostRecord :=
  { tsUnix := ts, costMicros := 5, monthKey := "2026-05", downstreamEventId := some id }

/-- Process 99 wrote at second 86500, process 100 at second 87000. -/
def twoShards : BootSource where
  shards := [⟨"2026-05_99", [exampleRecord 86500 "ds_1"]⟩,
    ⟨"2026-05_100", [exampleRecord 87000 "ds_2"]⟩]
  outside := { now := 90000, today := 90000, pruneNow := 90000 }

end MultiForge.Proxy
