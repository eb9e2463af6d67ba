/-
MultiForge.Policy.ReviewCoverage — what becomes of observed work.

An outcome that a checkpoint has stored stays accounted for when the
checkpoint moves on: it was assessed, its turn is carried as outstanding
work, or its turn is counted as excluded. `Covered` is that account.

Three kinds of steps break the account. A new turn drops an outcome that
was stored after a `no_changes` verdict: `record_action` puts only a spent
turn back to outstanding. A review that approves drops an outcome that was
stored since its reservation: `finish` overwrites what `record_action` has
put. And a denial takes the outcome of the same call with its request.
`observedWork_kept` is about the runs without such steps, and
`droppedOutcome` is a run of the first kind.
-/
import MultiForge.Policy.ReviewAccounts

namespace MultiForge.Policy

variable {π F : Type}

/-! ## 1. Stored outcomes -/

/-- A stored outcome is accounted for. -/
inductive Covered (c : Checkpoint F) (s : Stored) : Prop where
  | assessed : s.assessed = true → Covered c s
  | excluded : s.turn ∈ c.excludedTurns → Covered c s
  | carried : s.turn ∈ c.provenance → c.outstanding = true → Covered c s
  /-- the turn still goes on, and its review is to come -/
  | current : s.turn = c.turnId → c.status = .collecting ∨ c.status = .noChanges →
      c.actions.any (·.is .outcome s.turn s.id) = true → Covered c s

/-- A `no_changes` verdict is followed by no outcome that counts. -/
def Checkpoint.Verified (c : Checkpoint F) : Prop :=
  c.status = .noChanges → c.resetRequested = false →
    ∀ a ∈ c.actions, a.isOutcome = true → a.turnId ∈ c.excludedTurns

section Coverage

variable {m : Moment} {ctx : TurnContext} {action : Action F} {c c' : Checkpoint F}
  {old : Option (Checkpoint F)} {current : Option SnapshotRef} {s : Stored}

theorem Action.is_iff {phase : Phase} {turn : NativeId} {id : String} :
    action.is phase turn id = true ↔
      action.phase = phase ∧ action.turnId = turn ∧ action.id = id := by
  simp [Action.is, and_assoc]

theorem Covered.turn_mem (h : Covered c s) (hscope : Scoped c) :
    s.assessed = true ∨ s.turn ∈ c.excludedTurns ∨ s.turn ∈ c.provenance := by
  cases h with
  | assessed ha => exact .inl ha
  | excluded he => exact .inr (.inl he)
  | carried hp _ => exact .inr (.inr hp)
  | current ht _ _ =>
    rw [ht]
    exact .inr (.inr hscope.mem_turn)

/-- Outstanding work covers the turns of its provenance. -/
theorem Covered.carry (h : Covered c s) (hscope : Scoped c)
    (hprov : ∀ t ∈ c.provenance, t ∈ c'.provenance)
    (hexcluded : ∀ t ∈ c.excludedTurns, t ∈ c'.excludedTurns) (hout : c'.outstanding = true) :
    Covered c' s := by
  rcases h.turn_mem hscope with ha | he | hp
  · exact .assessed ha
  · exact .excluded (hexcluded _ he)
  · exact .carried (hprov _ hp) hout

/-- Excluded work covers the turns of its provenance. -/
theorem Covered.exclude (h : Covered c s) (hscope : Scoped c)
    (hexcluded : ∀ t ∈ c.excludedTurns ++ c.provenance, t ∈ c'.excludedTurns) :
    Covered c' s := by
  rcases h.turn_mem hscope with ha | he | hp
  · exact .assessed ha
  · exact .excluded (hexcluded _ (List.mem_append_left _ he))
  · exact .excluded (hexcluded _ (List.mem_append_right _ hp))

theorem Covered.congr (h : Covered c s) (hturn : c'.turnId = c.turnId)
    (hprov : c'.provenance = c.provenance) (hexcluded : c'.excludedTurns = c.excludedTurns)
    (hstatus : c'.status = c.status) (hout : c'.outstanding = c.outstanding)
    (hrows : c.actions.any (·.is .outcome s.turn s.id) = true →
      c'.actions.any (·.is .outcome s.turn s.id) = true ∨ s.turn ∈ c.excludedTurns) :
    Covered c' s := by
  cases h with
  | assessed ha => exact .assessed ha
  | excluded he =>
    rw [← hexcluded] at he
    exact .excluded he
  | carried hp ho =>
    rw [← hprov] at hp
    exact .carried hp (hout.trans ho)
  | current ht hs hr =>
    rcases hrows hr with hr | he
    · rw [← hturn] at ht
      rw [← hstatus] at hs
      exact .current ht hs hr
    · rw [← hexcluded] at he
      exact .excluded he

/-- A checkpoint without pending work has excluded or assessed the outcomes
that are left. -/
theorem Covered.settled (h : Covered c s) (hout : c.outstanding = false)
    (hcollecting : c.status = .collecting → c.actions.isEmpty = true)
    (hreset : c.resetRequested = false) (hverified : c.Verified) :
    s.assessed = true ∨ s.turn ∈ c.excludedTurns := by
  cases h with
  | assessed ha => exact .inl ha
  | excluded he => exact .inr he
  | carried _ ho =>
    rw [hout] at ho
    cases ho
  | current ht hs hr =>
    obtain ⟨a, ha, his⟩ := List.any_eq_true.mp hr
    rcases hs with hs | hs
    · have hnil := List.isEmpty_iff.mp (hcollecting hs)
      rw [hnil] at ha
      cases ha
    · obtain ⟨hphase, hturn, -⟩ := Action.is_iff.mp his
      refine .inr ?_
      rw [← hturn]
      refine hverified hs hreset a ha ?_
      simp [Action.isOutcome, hphase]

theorem Started.covered (h : Started ctx current old c') {o : Checkpoint F} (hold : old = some o)
    (hscope : Scoped o) (hcovered : Covered o s) (hverified : o.Verified) : Covered c' s := by
  cases h with
  | first => cases hold
  | reset _ =>
    cases hold
    exact hcovered.exclude hscope fun t ht => ht
  | carried r _ _ _ =>
    cases hold
    unfold MultiForge.Policy.carry
    split
    · exact hcovered.carry hscope (fun t ht => List.mem_append_left _ ht) (fun t ht => ht) rfl
    · exact hcovered.exclude hscope fun t ht => ht
  | unobserved _ =>
    cases hold
    exact hcovered.exclude hscope fun t ht => ht
  | settled changes hreset hpending =>
    cases hold
    simp only [Checkpoint.pending, hreset, Bool.not_false, Bool.true_and, Bool.or_eq_false_iff,
      Bool.and_eq_false_iff, Bool.not_eq_false', beq_eq_false_iff_ne, ne_eq] at hpending
    obtain ⟨hout, hcollecting⟩ := hpending
    have hempty : o.status = .collecting → o.actions.isEmpty = true := by
      intro hstatus
      rcases hcollecting with hne | ⟨⟨hempty, -⟩, -⟩
      · exact absurd hstatus hne
      · exact hempty
    rcases hcovered.settled hout hempty hreset hverified with ha | he
    · exact .assessed ha
    · exact .excluded he

theorem Begun.covered (h : Begun m ctx old c') {o : Checkpoint F} (hold : old = some o)
    (hscope : Scoped o) (hcovered : Covered o s) (hverified : o.Verified) : Covered c' s := by
  cases h with
  | blocked =>
    cases hold
    exact hcovered.carry hscope (fun t ht => ht) (fun t ht => ht) rfl
  | @failed _ b type hs =>
    have hb : Covered b s := hs.covered hold hscope hcovered hverified
    cases hb with
    | assessed ha => exact .assessed ha
    | excluded he => exact .excluded he
    | carried hp _ => exact .carried hp rfl
    | current ht _ _ => exact .carried (ht ▸ hs.turn_mem) rfl
  | started _ hs =>
    have hb := hs.covered hold hscope hcovered hverified
    exact hb.congr rfl rfl rfl rfl rfl .inl

/-- A prompt after settled work starts with its own turn only. -/
theorem Begun.settled {o : Checkpoint F} (h : Begun m ctx (some o) c') (hpending : o.pending = false)
    (hreset : o.resetRequested = false) :
    c'.turnId = ctx.turnId ∧ c'.provenance = [ctx.turnId] ∧ c'.excludedTurns = o.excludedTurns := by
  have hstarted : ∀ (current : Option SnapshotRef) (c : Checkpoint F),
      Started ctx current (some o) c → c.turnId = ctx.turnId ∧ c.provenance = [ctx.turnId] ∧
        c.excludedTurns = o.excludedTurns := by
    intro current c hs
    cases hs with
    | reset hyes =>
      rw [hreset] at hyes
      cases hyes
    | carried r hyes =>
      rw [hpending] at hyes
      cases hyes
    | unobserved hyes =>
      rw [hpending] at hyes
      cases hyes
    | settled => exact ⟨rfl, rfl, rfl⟩
  cases h with
  | blocked hyes =>
    rw [hpending] at hyes
    cases hyes
  | @failed _ c type hs => exact hstarted none c hs
  | @started _ c s hs => exact hstarted _ c hs

theorem missingTurn_covered (ctx : TurnContext) {o : Checkpoint F} (hscope : Scoped o) (hcovered : Covered o s)
    (hreset : o.resetRequested = false) (hverified : o.Verified) :
    Covered (missingTurn ctx (some o)) s := by
  unfold missingTurn
  simp only
  split
  · exact hcovered.exclude hscope fun t ht => List.mem_append_left _ ht
  · rename_i hno
    simp only [Bool.or_eq_true, beq_iff_eq, not_or, Bool.not_eq_true] at hno
    rcases hcovered.settled hno.1 (fun h => absurd h hno.2) hreset hverified with ha | he
    · exact .assessed ha
    · exact .excluded (List.mem_append_left _ he)

variable {frozen : Checkpoint F}

/-- An action keeps the outcomes covered that are there, and the one it
stores. -/
theorem Recorded.covered (h : Recorded m ctx action c c') (hacc : Accounts c)
    (hcovered : Covered c s)
    (hdenied : action.phase = .denied → (c.outstanding = true → c.spent = true) →
      c.actions.any (·.is .outcome action.turnId action.id) = true →
        action.turnId ∈ c.excludedTurns) : Covered c' s := by
  have hscope := hacc.tallied.scope
  have hframe := h.scope
  have hcarry : c'.outstanding = true → Covered c' s := by
    refine hcovered.carry hscope (fun t ht => ?_) (fun t ht => ?_)
    · rw [hframe.provenance]
      exact ht
    · rw [hframe.excluded]
      exact ht
  cases h with
  | reconfigured => exact hcarry rfl
  | denied hphase =>
    by_cases hout : c.outstanding = true ∧ c.spent = false
    · exact hcarry hout.1
    · have hopen : c.outstanding = true → c.spent = true := by
        intro ho
        by_contra hspent
        exact hout ⟨ho, Bool.eq_false_iff.mpr hspent⟩
      refine hcovered.congr rfl rfl rfl rfl rfl fun hr => ?_
      obtain ⟨a, ha, his⟩ := List.any_eq_true.mp hr
      by_cases hsame : a.id = action.id ∧ a.turnId = action.turnId
      · obtain ⟨-, hturn, hid⟩ := Action.is_iff.mp his
        refine .inr ?_
        rw [← hturn, hsame.2]
        refine hdenied hphase hopen ?_
        rw [← hsame.1, ← hsame.2, hturn, hid]
        exact hr
      · refine .inl (List.any_eq_true.mpr ⟨a, List.mem_filter.mpr ⟨ha, ?_⟩, his⟩)
        rw [not_and_or] at hsame
        simpa using hsame
  | @kept b o _ _ _ hb ho =>
    rcases kept_cases hb ho with ⟨hout, -⟩ | ⟨-, -, hstatus, hout, hactions⟩
    · exact hcarry hout
    · refine hcovered.congr hframe.turn hframe.provenance hframe.excluded hstatus hout fun hr => ?_
      refine .inl ?_
      show o.actions.any _ = true
      rw [hactions, List.any_append, hr, Bool.true_or]

theorem Recorded.stores (h : Recorded m ctx action c c') (hacc : Accounts c)
    (hturn : action.turnId = c.turnId) (houtcome : action.isOutcome = true)
    (hrow : c'.actions.any (·.is .outcome action.turnId action.id) = true) :
    Covered c' ⟨action.turnId, action.id, false⟩ := by
  have hframe := h.scope
  have hcarry : c'.outstanding = true → Covered c' ⟨action.turnId, action.id, false⟩ := by
    refine .carried ?_
    show action.turnId ∈ c'.provenance
    rw [hframe.provenance, hturn]
    exact hacc.tallied.scope.mem_turn
  cases h with
  | reconfigured => exact hcarry rfl
  | denied hphase =>
    simp only [Action.isOutcome, hphase] at houtcome
    cases houtcome
  | @kept b o _ _ _ hb ho =>
    rcases kept_cases hb ho with ⟨hout, -⟩ | ⟨hspent, -, hstatus, hout, -⟩
    · exact hcarry hout
    · have hturn' : action.turnId = o.turnId := hturn.trans hframe.turn.symm
      rcases hacc.unspent hspent with hs | hs | hs
      · exact .current hturn' (.inl (hstatus.trans hs)) hrow
      · cases hout' : c.outstanding with
        | true => exact hcarry (hout.trans hout')
        | false =>
          refine .excluded ?_
          show action.turnId ∈ o.excludedTurns
          have hexcluded : o.excludedTurns = c.excludedTurns := hframe.excluded
          rw [hexcluded, hturn]
          exact hacc.settled hspent hs hout'
      · exact .current hturn' (.inr (hstatus.trans hs)) hrow

/-- A step that leaves the turn and its actions alone. -/
structure Rests (c c' : Checkpoint F) : Prop where
  turn : c'.turnId = c.turnId
  provenance : c'.provenance = c.provenance
  excluded : c'.excludedTurns = c.excludedTurns
  actions : c'.actions = c.actions
  status : c'.status = c.status ∧ c'.outstanding = c.outstanding ∨ c'.outstanding = true

theorem Covered.rest (hcovered : Covered c s) (hscope : Scoped c) (h : Rests c c') :
    Covered c' s := by
  obtain ⟨hturn, hprov, hexcluded, hactions, ⟨hstatus, hout⟩ | hout⟩ := h
  · exact hcovered.congr hturn hprov hexcluded hstatus hout fun hr => .inl (hactions ▸ hr)
  · refine hcovered.carry hscope (fun t ht => ?_) (fun t ht => ?_) hout
    · rw [hprov]
      exact ht
    · rw [hexcluded]
      exact ht

theorem StoppedAgain.rests (h : StoppedAgain ctx c c') : Rests c c' := by
  have hframe := h.frame
  refine ⟨?_, ?_, ?_, ?_, ?_⟩
  · rw [hframe]
  · rw [hframe]
  · rw [hframe]
  · rw [hframe]
  · rcases h.status with hsame | ⟨-, hout⟩
    · exact .inl hsame
    · exact .inr hout

variable [PyFloatText F] {sha256 : List Char → Hex 64} {plan : PlanSnapshot} {attempt : Hex 32}
  {result : SupervisorRun F}

/-- A Stop keeps the outcomes covered, or assesses their turns. -/
theorem reserve_covered {r : Reserved F} {o : Checkpoint F} (hscope : Scoped o)
    (hverified : lastSeen (some o) < ctx.turnId.int → o.Verified) (hmark : Marked (some o))
    (h : reserve sha256 m ctx plan attempt (some o) = .ok r) (hsaved : r.saved = some c')
    (hcovered : Covered o s) :
    Covered c' s ∨ r.outcome.complete = true ∧ s.turn ∈ c'.provenance := by
  obtain ⟨-, hr⟩ := reserve_ok h
  cases hr with
  | refused => cases hsaved
  | missing _ hlater hopen =>
    cases hsaved
    have hlater := hlater o rfl
    rw [← lastSeen_of_open hmark rfl (hopen o rfl).2] at hlater
    refine .inl ?_
    have hmissing := missingTurn_covered ctx hscope hcovered (hopen o rfl).1
      (hverified hlater)
    exact hmissing.congr rfl rfl rfl rfl rfl .inl
  | reconfigured =>
    cases hsaved
    exact .inl (hcovered.rest hscope ⟨rfl, rfl, rfl, rfl, .inr rfl⟩)
  | again _ _ ho =>
    cases hsaved
    have hrests := ho.rests
    exact .inl (hcovered.rest hscope ⟨hrests.turn, hrests.provenance, hrests.excluded,
      hrests.actions, hrests.status⟩)
  | assessed snapshot evidence _ _ _ _ _ _ ha =>
    cases ha with
    | excluded =>
      cases hsaved
      exact .inl (hcovered.exclude hscope fun t ht => ht)
    | noChanges =>
      cases hsaved
      rcases hcovered.turn_mem hscope with ha | he | hp
      · exact .inl (.assessed ha)
      · exact .inl (.excluded he)
      · exact .inr ⟨rfl, hp⟩
    | noPlan =>
      cases hsaved
      exact .inl (hcovered.rest hscope ⟨rfl, rfl, rfl, rfl, .inr rfl⟩)
    | reserved planDigest =>
      cases hsaved
      exact .inl (hcovered.rest hscope ⟨rfl, rfl, rfl, rfl, .inr rfl⟩)

omit [PyFloatText F] in
/-- A completion keeps the outcomes covered, or assesses their turns, unless
it approves. -/
theorem conclude_covered (failed stale : Bool) (frozen : Checkpoint F) (result : SupervisorRun F)
    (hscope : Scoped c) (hcovered : Covered c s) :
    Covered (conclude failed stale frozen result c).1 s ∨
      (conclude failed stale frozen result c).2.complete = true ∧
        s.turn ∈ (conclude failed stale frozen result c).1.provenance := by
  have hcases := conclude_cases failed stale frozen result c
  generalize conclude failed stale frozen result c = r at hcases
  cases hcases with
  | ended => exact .inl hcovered
  | unsettled => exact .inl (hcovered.rest hscope ⟨rfl, rfl, rfl, rfl, .inr rfl⟩)
  | inPart => exact .inl (hcovered.exclude hscope fun t ht => ht)
  | reviewed =>
    rcases hcovered.turn_mem hscope with ha | he | hp
    · exact .inl (.assessed ha)
    · exact .inl (.excluded he)
    · exact .inr ⟨rfl, hp⟩

end Coverage

/-! ## 2. Outcomes since a reservation -/

/-- What the checkpoint of a reservation has besides it. -/
structure Watched (frozen : Checkpoint F) (mark : Nat) (c : Checkpoint F) (stored : List Stored) :
    Prop where
  outstanding : c.outstanding = true
  length : mark ≤ stored.length
  rows : ∀ a ∈ frozen.actions, a.isOutcome = true → a ∈ c.actions ∨ a.turnId ∈ c.excludedTurns
  since : ∀ s ∈ stored.drop mark, s.turn ∈ c.excludedTurns ∨
    ∃ a ∈ c.actions, a.is .outcome s.turn s.id = true ∧ a ∉ frozen.actions

/-- The review of `r` is about to approve `c`. -/
structure Reviewer.Approves (r : Reviewer F) (c : Checkpoint F) : Prop where
  held : c.holds r.ctx r.frozen = true
  goesOn : c.resetRequested = false ∧ c.blockedUntilTurn = none
  completed : ∃ result reads, r.stage = .completed result reads false false ∧
    result.conclusive = true ∧ result.decision.decision ≠ .deny
  evidence : r.frozen.evidence.any (·.complete) = true

section Watching

variable {m : Moment} {ctx : TurnContext} {action a : Action F} {frozen c c' : Checkpoint F}
  {mark : Nat} {stored : List Stored} {s : Stored}

theorem Action.is_isOutcome {turn : NativeId} {id : String} (h : a.is .outcome turn id = true) :
    a.isOutcome = true := by
  simp [Action.isOutcome, (Action.is_iff.mp h).1]

theorem Watched.mono (h : Watched frozen mark c stored) (hout : c'.outstanding = true)
    (hexcluded : ∀ t ∈ c.excludedTurns, t ∈ c'.excludedTurns)
    (hrows : ∀ a ∈ c.actions, a.isOutcome = true → a ∈ c'.actions ∨ a.turnId ∈ c'.excludedTurns) :
    Watched frozen mark c' stored where
  outstanding := hout
  length := h.length
  rows := by
    intro a ha houtcome
    rcases h.rows a ha houtcome with hin | he
    · exact hrows a hin houtcome
    · exact .inr (hexcluded _ he)
  since := by
    intro s hs
    rcases h.since s hs with he | ⟨a, ha, his, hnew⟩
    · exact .inl (hexcluded _ he)
    · rcases hrows a ha (Action.is_isOutcome his) with hin | he
      · exact .inr ⟨a, hin, his, hnew⟩
      · rw [(Action.is_iff.mp his).2.1] at he
        exact .inl he

theorem Watched.rest (h : Watched frozen mark c stored) (hrests : Rests c c') :
    Watched frozen mark c' stored := by
  refine h.mono ?_ (fun t ht => ?_) (fun a ha _ => ?_)
  · rcases hrests.status with ⟨-, hout⟩ | hout
    · exact hout.trans h.outstanding
    · exact hout
  · rw [hrests.excluded]
    exact ht
  · rw [hrests.actions]
    exact .inl ha

theorem Watched.append (h : Watched frozen mark c stored)
    (hs : s.turn ∈ c.excludedTurns ∨
      ∃ a ∈ c.actions, a.is .outcome s.turn s.id = true ∧ a ∉ frozen.actions) :
    Watched frozen mark c (stored ++ [s]) where
  outstanding := h.outstanding
  length := by
    rw [List.length_append]
    exact h.length.trans (Nat.le_add_right _ _)
  rows := h.rows
  since := by
    intro x hx
    rw [List.drop_append_of_le_length h.length, List.mem_append, List.mem_singleton] at hx
    rcases hx with hx | rfl
    · exact h.since x hx
    · exact hs

theorem watched_reserved (hout : c.outstanding = true) (hrows : ∀ a ∈ frozen.actions, a ∈ c.actions) :
    Watched frozen stored.length c stored where
  outstanding := hout
  length := le_rfl
  rows := fun a ha _ => .inl (hrows a ha)
  since := by
    intro s hs
    rw [List.drop_length] at hs
    cases hs

/-- The rows of a state stay when an action comes to outstanding work. -/
theorem kept_rows {b o : Checkpoint F} (hb : Continued ctx c b) (hout : c.outstanding = true)
    (ho : Observed ctx (keepAction action (afterReview b)) o) : ∀ a ∈ c.actions, a ∈ o.actions := by
  intro a ha
  have hkeep : a ∈ (keepAction action (afterReview c)).actions := by
    have hafter : (afterReview c).actions = c.actions := by
      unfold afterReview
      split <;> rfl
    unfold keepAction
    split
    · show a ∈ (afterReview c).actions
      rw [hafter]
      exact ha
    · show a ∈ (afterReview c).actions ++ [action]
      rw [hafter]
      exact List.mem_append_left _ ha
  cases hb with
  | same => cases ho <;> exact hkeep
  | fresh _ _ hno =>
    rw [hout] at hno
    cases hno

/-- An action keeps a reservation watched. -/
theorem Recorded.watched (h : Recorded m ctx action c c') (hspent : c.spent = true)
    (hw : Watched frozen mark c stored)
    (hdenied : action.phase = .denied →
      c.actions.any (·.is .outcome action.turnId action.id) = true →
        action.turnId ∈ c.excludedTurns) : Watched frozen mark c' stored := by
  have hframe := h.scope
  have hexcluded : ∀ t ∈ c.excludedTurns, t ∈ c'.excludedTurns := by
    rw [hframe.excluded]
    exact fun t ht => ht
  cases h with
  | reconfigured => exact hw.mono rfl hexcluded fun a ha _ => .inl ha
  | denied hphase =>
    refine hw.mono hw.outstanding hexcluded fun a ha houtcome => ?_
    by_cases hsame : a.id = action.id ∧ a.turnId = action.turnId
    · refine .inr (hexcluded _ ?_)
      rw [hsame.2]
      refine hdenied hphase (List.any_eq_true.mpr ⟨a, ha, Action.is_iff.mpr ?_⟩)
      exact ⟨by simpa [Action.isOutcome] using houtcome, hsame.2, hsame.1⟩
    · refine .inl (List.mem_filter.mpr ⟨ha, ?_⟩)
      rw [not_and_or] at hsame
      simpa using hsame
  | @kept b o _ _ _ hb ho =>
    refine hw.mono ?_ hexcluded fun a ha _ => .inl (kept_rows hb hw.outstanding ho a ha)
    rcases kept_cases hb ho with ⟨hout, -⟩ | ⟨hno, -⟩
    · exact hout
    · rw [hspent] at hno
      cases hno

/-- The outcome that an action stores is not in the reservation. -/
theorem Watched.stores (hw : Watched frozen mark c stored)
    (hexcluded : ∀ t ∈ c.excludedTurns, t ∈ c'.excludedTurns)
    (hold : c.actions.any (·.is .outcome action.turnId action.id) = false)
    (hrow : c'.actions.any (·.is .outcome action.turnId action.id) = true) :
    action.turnId ∈ c'.excludedTurns ∨
      ∃ a ∈ c'.actions, a.is .outcome action.turnId action.id = true ∧ a ∉ frozen.actions := by
  obtain ⟨a, ha, his⟩ := List.any_eq_true.mp hrow
  by_cases hfrozen : a ∈ frozen.actions
  · rcases hw.rows a hfrozen (Action.is_isOutcome his) with hin | he
    · have hany : c.actions.any (·.is .outcome action.turnId action.id) = true :=
        List.any_eq_true.mpr ⟨a, hin, his⟩
      rw [hold] at hany
      cases hany
    · rw [(Action.is_iff.mp his).2.1] at he
      exact .inl (hexcluded _ he)
  · exact .inr ⟨a, ha, his, hfrozen⟩

/-- A completion keeps what was stored since its reservation covered, if it
approves nothing new. -/
theorem conclude_since {r : Reviewer F} {result : SupervisorRun F} {reads : Completion}
    {failed stale : Bool} (hstage : r.stage = .completed result reads failed stale)
    (hholds : c.holds r.ctx r.frozen = true) (hscope : Scoped c)
    (hw : Watched r.frozen mark c stored)
    (happroves : r.Approves c → ∀ a ∈ c.actions, a.isOutcome = true →
      a ∈ r.frozen.actions ∨ a.turnId ∈ c.excludedTurns)
    (hs : s ∈ stored.drop mark) (hcovered : Covered c s) :
    Covered (conclude failed stale r.frozen result (c.decided result)).1 s := by
  have hcases := conclude_cases failed stale r.frozen result (c.decided result)
  generalize conclude failed stale r.frozen result (c.decided result) = out at hcases
  cases hcases with
  | ended => exact hcovered.rest hscope ⟨rfl, rfl, rfl, rfl, .inl ⟨rfl, rfl⟩⟩
  | unsettled => exact hcovered.rest hscope ⟨rfl, rfl, rfl, rfl, .inr rfl⟩
  | inPart => exact hcovered.exclude hscope fun t ht => ht
  | reviewed hreset hblocked hfailed hstale hconclusive hcomplete =>
    by_cases hdeny : result.decision.decision = .deny
    · refine hcovered.rest hscope ⟨rfl, rfl, rfl, rfl, .inr ?_⟩
      simp [hdeny]
    · refine .excluded ?_
      rcases hw.since s hs with he | ⟨a, ha, his, hnew⟩
      · exact he
      · rw [hfailed, hstale] at hstage
        have happ : r.Approves c :=
          ⟨hholds, ⟨hreset, hblocked⟩, ⟨result, reads, hstage, hconclusive, hdeny⟩, hcomplete⟩
        rcases happroves happ a ha (Action.is_isOutcome his) with hin | he
        · exact absurd hin hnew
        · rw [(Action.is_iff.mp his).2.1] at he
          exact he

end Watching

/-! ## 3. Careful runs -/

section Careful

variable [DecidableEq π] [PyFloatText F]

/-- A step that drops no outcome. -/
def Careful (w : World π F) : Call π F → Prop
  | .beginTurn ctx | .stop ctx =>
      -- no outcome was stored after a `no_changes` verdict that a new turn leaves behind
      ∀ c, w.checkpoint = some c → lastSeen (some c) < ctx.turnId.int → c.Verified
  | .recordAction ctx action =>
      -- no stored outcome is denied, unless its turn is outstanding without a review
      action.phase = .denied → ∀ c, w.checkpoint = some c → c.isCurrent ctx = true →
        (c.outstanding = true → c.spent = true) →
        c.actions.any (·.is .outcome action.turnId action.id) = true →
          action.turnId ∈ c.excludedTurns
  | .finish p =>
      -- no outcome was stored between a reservation and its approval
      ∀ r c, w.reviewers p = some r → w.checkpoint = some c → r.Approves c →
        ∀ a ∈ c.actions, a.isOutcome = true → a ∈ r.frozen.actions ∨ a.turnId ∈ c.excludedTurns
  | _ => True

/-- Any number of careful steps. -/
inductive CarefulRun (sha256 : List Char → Hex 64) : World π F → World π F → Prop where
  | refl (w : World π F) : CarefulRun sha256 w w
  | step {w v u : World π F} {call : Call π F} : CarefulRun sha256 w v → Careful v call →
      Step sha256 v call u → CarefulRun sha256 w u

/-- The reservations are watched. -/
def World.Watch (w : World π F) : Prop :=
  ∀ p r c, w.reviewers p = some r → w.checkpoint = some c → r.ctx.turnId = c.turnId →
    Watched r.frozen r.mark c w.stored

structure World.Kept (w : World π F) : Prop where
  accounts : w.Accounted
  unopened : w.checkpoint = none → w.stored = []
  covered : ∀ c, w.checkpoint = some c → ∀ s ∈ w.stored, Covered c s
  watch : w.Watch

variable {sha256 : List Char → Hex 64} {w w' : World π F} {call : Call π F}

theorem CarefulRun.run (h : CarefulRun sha256 w w') : Run sha256 w w' := by
  induction h with
  | refl => exact .refl _
  | step _ _ hs ih => exact .step ih hs

omit [DecidableEq π] [PyFloatText F] in
theorem init_kept : (World.init : World π F).Kept where
  accounts := fun c hc => by cases hc
  unopened := fun _ => rfl
  covered := fun c hc => by cases hc
  watch := fun p r c hp => by cases hp

omit [DecidableEq π] [PyFloatText F] in
theorem noteAction_stored (w : World π F) (action : Action F) (saved : Option (Checkpoint F)) :
    (w.noteAction action saved).stored =
      if storesOutcome action w.checkpoint saved then
        w.stored ++ [⟨action.turnId, action.id, false⟩] else w.stored := by
  unfold World.noteAction
  split <;> rfl

theorem assessFirst_eq (n : Nat) (turns : List NativeId) (l : List Stored) :
    assessFirst n turns l
      = (l.take n).map (fun s => { s with assessed := s.assessed || decide (s.turn ∈ turns) })
        ++ l.drop n := by
  induction l generalizing n with
  | nil => cases n <;> rfl
  | cons s rest ih =>
    cases n with
    | zero => rfl
    | succ n => simp [assessFirst, ih n]

omit [DecidableEq π] [PyFloatText F] in
theorem noteAssessment_incomplete {outcome : StopOutcome F} {mark : Nat}
    {saved : Option (Checkpoint F)} (h : outcome.complete = false) :
    w.noteAssessment outcome mark saved = w := by
  simp [World.noteAssessment, h]

omit [DecidableEq π] [PyFloatText F] in
/-- An assessment covers the turns of its provenance, up to its mark. -/
theorem noteAssessment_covered {outcome : StopOutcome F} {mark : Nat} {c : Checkpoint F}
    (hbefore : ∀ s ∈ w.stored.take mark,
      Covered c s ∨ outcome.complete = true ∧ s.turn ∈ c.provenance)
    (hsince : ∀ s ∈ w.stored.drop mark, Covered c s) :
    ∀ s ∈ (w.noteAssessment outcome mark (some c)).stored, Covered c s := by
  cases hcomplete : outcome.complete with
  | false =>
    rw [noteAssessment_incomplete hcomplete]
    intro s hs
    rw [← List.take_append_drop mark w.stored, List.mem_append] at hs
    rcases hs with hs | hs
    · rcases hbefore s hs with hs | ⟨hno, -⟩
      · exact hs
      · rw [hcomplete] at hno
        cases hno
    · exact hsince s hs
  | true =>
    have hstored : (w.noteAssessment outcome mark (some c)).stored
        = assessFirst mark c.provenance w.stored := by
      unfold World.noteAssessment
      rw [if_pos hcomplete]
      rfl
    intro s hs
    rw [hstored, assessFirst_eq, List.mem_append, List.mem_map] at hs
    rcases hs with ⟨x, hx, rfl⟩ | hs
    · rcases hbefore x hx with hcov | ⟨-, hp⟩
      · cases hcov with
        | assessed ha => exact .assessed (by simp [ha])
        | excluded he => exact .excluded he
        | carried hp ho => exact .carried hp ho
        | current ht hstatus hr => exact .current ht hstatus hr
      · exact .assessed (by simp [hp])
    · exact hsince s hs

/-- The outcomes of a careful step are covered. -/
theorem Step.covered (h : w.Sound) (hk : w.Kept) (hcareful : Careful w call)
    (hs : Step sha256 w call w') : ∀ c', w'.checkpoint = some c' → ∀ s ∈ w'.stored, Covered c' s := by
  cases hs with
  | @beginTurn m ctx saved hbegin =>
    cases saved with
    | none => exact hk.covered
    | some c' =>
      intro d hd s hs
      cases hd
      obtain ⟨-, hseen, hbegun⟩ := beginTurn_ok hbegin
      cases hprev : w.checkpoint with
      | none =>
        have hs : s ∈ w.stored := hs
        rw [hk.unopened hprev] at hs
        cases hs
      | some o =>
        rw [hprev] at hseen
        exact hbegun.covered hprev (hk.accounts o hprev).tallied.scope (hk.covered o hprev s hs)
          (hcareful o hprev hseen)
  | @recordAction m boundary ctx action saved hturn hrecord =>
    cases saved with
    | none =>
      intro c' hc s hs
      rw [noteAction_eq] at hc
      have hs : s ∈ (w.noteAction action none).stored := hs
      rw [noteAction_stored, storesOutcome] at hs
      simp only [Option.any_none, Bool.and_false, Bool.false_and, Bool.false_eq_true,
        if_false] at hs
      exact hk.covered c' hc s hs
    | some c' =>
      intro d hd s hs
      cases hd
      obtain ⟨c, hprev, -, hcurrent, hr⟩ := recordAction_ok hrecord
      have hacc := hk.accounts c hprev
      have hcturn := (isCurrent_iff.mp hcurrent).2
      have hold : ∀ s ∈ w.stored, Covered c' s := by
        intro s hs
        refine hr.covered hacc (hk.covered c hprev s hs) fun hphase hopen hrow => ?_
        exact hcareful hphase c hprev hcurrent hopen hrow
      have hs : s ∈ (w.noteAction action (some c')).stored := hs
      rw [noteAction_stored] at hs
      split at hs
      · rename_i hstores
        simp only [storesOutcome, Option.any_some, Bool.and_eq_true] at hstores
        rcases List.mem_append.mp hs with hs | hs
        · exact hold s hs
        · rw [List.mem_singleton.mp hs]
          exact hr.stores hacc (hturn.trans hcturn.symm) hstores.1.1 hstores.1.2
      · exact hold s hs
  | resetReview m apply =>
    cases hsaved : Policy.resetReview m apply w.checkpoint with
    | none => exact hk.covered
    | some c' =>
      intro d hd s hs
      cases hd
      obtain ⟨c, hprev, rfl⟩ := resetReview_ok hsaved
      exact (hk.covered c hprev s hs).rest (hk.accounts c hprev).tallied.scope
        ⟨rfl, rfl, rfl, rfl, .inr rfl⟩
  | @stop m ctx plan attempt outcome saved hreserve =>
    cases saved with
    | none =>
      have hincomplete : outcome.complete = false := reserve_unsaved hreserve
      rw [noteAssessment_incomplete hincomplete]
      exact hk.covered
    | some c' =>
      intro d hd
      cases hd
      show ∀ s ∈ (w.noteAssessment outcome w.stored.length (some c')).stored, Covered c' s
      cases hprev : w.checkpoint with
      | none =>
        refine noteAssessment_covered ?_ ?_ <;> simp [hk.unopened hprev]
      | some o =>
        have hmark := h.marked
        rw [hprev] at hmark hreserve
        refine noteAssessment_covered (fun s hs => ?_) (fun s hs => ?_)
        · refine reserve_covered (hk.accounts o hprev).tallied.scope (fun hlater => ?_) hmark
            hreserve rfl (hk.covered o hprev s (List.mem_of_mem_take hs))
          exact hcareful o hprev hlater
        · rw [List.drop_length] at hs
          cases hs
  | @reserve p m ctx plan attempt outcome saved frozen _ hreserve =>
    obtain ⟨o, c', hprev, rfl, hincomplete, hr⟩ := reserve_reserves hreserve
    intro d hd s hs
    cases hd
    have hmark := h.marked
    rw [hprev] at hmark hreserve
    have hturn := (isCurrent_iff.mp hr.current).2
    rcases reserve_covered (hk.accounts o hprev).tallied.scope
      (fun hlater => absurd hlater (hturn ▸ (turn_le_lastSeen hmark).not_gt)) hmark hreserve rfl
      (hk.covered o hprev s hs) with hcov | ⟨hcomplete, -⟩
    · exact hcov
    · rw [hincomplete] at hcomplete
      cases hcomplete
  | dispatch => exact hk.covered
  | @saveResult p r result m saved _ _ hresult =>
    cases saved with
    | none => exact hk.covered
    | some c' =>
      intro d hd s hs
      cases hd
      obtain ⟨c, hprev, -, -, rfl⟩ := saveResult_ok hresult
      exact (hk.covered c hprev s hs).rest (hk.accounts c hprev).tallied.scope
        ⟨rfl, rfl, rfl, rfl, .inl ⟨rfl, rfl⟩⟩
  | complete => exact hk.covered
  | @finish p r result reads failed stale m saved outcome hp hstage hfinish =>
    rcases finish_ok hfinish with ⟨rfl, -, hincomplete⟩ | ⟨c, hprev, -, hholds, rfl, rfl⟩
    · rw [noteAssessment_incomplete hincomplete]
      exact hk.covered
    · intro d hd
      cases hd
      have hscope := (hk.accounts c hprev).tallied.scope
      have hdecided : ∀ s, Covered c s → Covered (c.decided result) s :=
        fun s hs => hs.rest hscope ⟨rfl, rfl, rfl, rfl, .inl ⟨rfl, rfl⟩⟩
      refine noteAssessment_covered (fun s hs => ?_) (fun s hs => ?_)
      · have hcov := hdecided s (hk.covered c hprev s (List.mem_of_mem_take hs))
        have hscope' : Scoped (c.decided result) := ⟨hscope.ordered, hscope.last⟩
        rcases conclude_covered failed stale r.frozen result hscope' hcov with hcov | hcomplete
        · exact .inl (hcov.congr rfl rfl rfl rfl rfl .inl)
        · exact .inr hcomplete
      · have hwatched := hk.watch p r c hp hprev (holds_turn hholds).symm
        have hcov := conclude_since hstage hholds hscope hwatched (hcareful r c hp hprev) hs
          (hk.covered c hprev s (List.mem_of_mem_drop hs))
        exact hcov.congr rfl rfl rfl rfl rfl .inl
  | die => exact hk.covered

omit [DecidableEq π] [PyFloatText F] in
/-- A turn that begins is the turn of no reviewer. -/
theorem World.Sound.begins (h : w.Sound) {p : π} {r : Reviewer F} {t : NativeId}
    (hp : w.reviewers p = some r) (hseen : lastSeen w.checkpoint < t.int) : r.ctx.turnId ≠ t := by
  intro heq
  obtain ⟨c, hc, hgone⟩ := h.allotted _ (h.issued hp)
  have hmark := h.marked
  rw [hc] at hmark hseen
  have hturn := (turn_le_lastSeen hmark).trans_lt hseen
  rcases hgone with hlt | ⟨hsame, -⟩
  · rw [heq] at hlt
    omega
  · rw [← hsame, heq] at hturn
    omega

omit [DecidableEq π] [PyFloatText F] in
theorem World.Watch.congr (hw : w.Watch)
    (hreviewers : ∀ p r', w'.reviewers p = some r' → ∃ r, w.reviewers p = some r ∧
      r'.ctx.turnId = r.ctx.turnId ∧ r'.frozen = r.frozen ∧ r'.mark = r.mark)
    (hstep : ∀ p r c', (w'.reviewers p).isSome = true → w.reviewers p = some r →
      w'.checkpoint = some c' → r.ctx.turnId = c'.turnId →
      ∃ c, w.checkpoint = some c ∧ c.turnId = c'.turnId ∧
        (Watched r.frozen r.mark c w.stored → Watched r.frozen r.mark c' w'.stored)) :
    w'.Watch := by
  intro p r' c' hp hc hturn
  obtain ⟨r, hr, hrturn, hfrozen, hmark⟩ := hreviewers p r' hp
  rw [hrturn] at hturn
  obtain ⟨c, hprev, hcturn, hwatched⟩ := hstep p r c' (by rw [hp]; rfl) hr hc hturn
  rw [hfrozen, hmark]
  exact hwatched (hw p r c hr hprev (hturn.trans hcturn.symm))

omit [PyFloatText F] in
/-- A reviewer that goes on has the reservation it had. -/
theorem setReviewer_keeps {p : π} {r r' : Reviewer F} (hp : w.reviewers p = some r)
    (hctx : r'.ctx = r.ctx) (hfrozen : r'.frozen = r.frozen) (hmark : r'.mark = r.mark) :
    ∀ q s', (w.setReviewer p (some r')).reviewers q = some s' → ∃ s, w.reviewers q = some s ∧
      s'.ctx.turnId = s.ctx.turnId ∧ s'.frozen = s.frozen ∧ s'.mark = s.mark := by
  intro q s' hq
  simp only [World.setReviewer] at hq
  split at hq
  · rename_i heq
    cases hq
    rw [heq]
    exact ⟨r, hp, by rw [hctx], hfrozen, hmark⟩
  · exact ⟨s', hq, rfl, rfl, rfl⟩

omit [PyFloatText F] in
theorem setReviewer_none {p q : π} {r : Reviewer F}
    (hq : (w.setReviewer p none).reviewers q = some r) : w.reviewers q = some r := by
  rcases setReviewer_eq hq with hr | hq
  · cases hr
  · exact hq

/-- The reservations stay watched. -/
theorem Step.watch (h : w.Sound) (hk : w.Kept) (hcareful : Careful w call)
    (hs : Step sha256 w call w') : w'.Watch := by
  have hsame : ∀ p r', w.reviewers p = some r' → ∃ r, w.reviewers p = some r ∧
      r'.ctx.turnId = r.ctx.turnId ∧ r'.frozen = r.frozen ∧ r'.mark = r.mark :=
    fun p r hp => ⟨r, hp, rfl, rfl, rfl⟩
  cases hs with
  | @beginTurn m ctx saved hbegin =>
    cases saved with
    | none => exact hk.watch
    | some c' =>
      refine hk.watch.congr hsame fun p r d _ hp hd hturn => ?_
      cases hd
      obtain ⟨-, hseen, hbegun⟩ := beginTurn_ok hbegin
      generalize hprev : w.checkpoint = old at hbegun
      cases hbegun with
      | @blocked o _ _ => exact ⟨o, rfl, rfl, fun hw => hw.rest ⟨rfl, rfl, rfl, rfl, .inr rfl⟩⟩
      | failed type hstarted =>
        exact absurd (hturn.trans hstarted.turn.2.2) (h.begins hp hseen)
      | started s hstarted =>
        exact absurd (hturn.trans hstarted.turn.2.2) (h.begins hp hseen)
  | @recordAction m boundary ctx action saved hturn hrecord =>
    have hreviewers : ∀ p r', ((w.noteAction action saved).save saved).reviewers p = some r' →
        ∃ r, w.reviewers p = some r ∧ r'.ctx.turnId = r.ctx.turnId ∧ r'.frozen = r.frozen ∧
          r'.mark = r.mark := by
      rw [noteAction_eq]
      exact hsame
    refine hk.watch.congr hreviewers fun p r d _ hp hd hrturn => ?_
    cases saved with
    | none =>
      rw [noteAction_eq] at hd
      refine ⟨d, hd, rfl, fun hw => ?_⟩
      show Watched r.frozen r.mark d (w.noteAction action none).stored
      rw [noteAction_stored, storesOutcome]
      simpa using hw
    | some c' =>
      cases hd
      obtain ⟨c, hprev, -, hcurrent, hr⟩ := recordAction_ok hrecord
      have hframe := hr.scope
      refine ⟨c, hprev, hframe.turn.symm, fun hw => ?_⟩
      have hspent := h.spent hp hprev (hrturn.trans hframe.turn)
      have hwatched := hr.watched hspent hw fun hphase hrow =>
        hcareful hphase c hprev hcurrent (fun _ => hspent) hrow
      show Watched r.frozen r.mark d (w.noteAction action (some d)).stored
      rw [noteAction_stored]
      split
      · rename_i hstores
        simp only [storesOutcome, hprev, Option.any_some, Bool.and_eq_true,
          Bool.not_eq_true'] at hstores
        refine hwatched.append (hw.stores (fun t ht => ?_) hstores.2 hstores.1.2)
        rw [hframe.excluded]
        exact ht
      · exact hwatched
  | resetReview m apply =>
    cases hsaved : Policy.resetReview m apply w.checkpoint with
    | none => exact hk.watch
    | some c' =>
      refine hk.watch.congr hsame fun p r d _ hp hd hturn => ?_
      cases hd
      obtain ⟨c, hprev, rfl⟩ := resetReview_ok hsaved
      exact ⟨c, hprev, rfl, fun hw => hw.rest ⟨rfl, rfl, rfl, rfl, .inr rfl⟩⟩
  | @stop m ctx plan attempt outcome saved hreserve =>
    have hreviewers : ∀ p r', (((w.noteAssessment outcome w.stored.length saved).save saved).answer
        ⟨ctx, outcome, none⟩).reviewers p = some r' →
        ∃ r, w.reviewers p = some r ∧ r'.ctx.turnId = r.ctx.turnId ∧ r'.frozen = r.frozen ∧
          r'.mark = r.mark := by
      rw [noteAssessment_eq]
      exact hsame
    cases saved with
    | none =>
      have hincomplete : outcome.complete = false := reserve_unsaved hreserve
      rw [noteAssessment_incomplete hincomplete]
      exact hk.watch
    | some c' =>
      refine hk.watch.congr hreviewers fun p r d _ hp hd hturn => ?_
      cases hd
      show ∃ c, w.checkpoint = some c ∧ c.turnId = c'.turnId ∧
        (Watched r.frozen r.mark c w.stored →
          Watched r.frozen r.mark c' (w.noteAssessment outcome w.stored.length (some c')).stored)
      have hspent : ∀ c, w.checkpoint = some c → r.ctx.turnId = c.turnId → c.spent = true :=
        fun c hc => h.spent hp hc
      cases hprev : w.checkpoint with
      | none =>
        obtain ⟨c, hc, -⟩ := h.allotted _ (h.issued hp)
        rw [hprev] at hc
        cases hc
      | some c =>
        refine ⟨c, rfl, ?_⟩
        rw [hprev] at hreserve hspent
        obtain ⟨-, hr⟩ := reserve_ok hreserve
        cases hr with
        | missing _ hlater hopen =>
          have hmark := h.marked
          rw [hprev] at hmark
          have hlater := hlater c rfl
          rw [← lastSeen_of_open hmark rfl (hopen c rfl).2, ← hprev] at hlater
          exact absurd (hturn.trans (missingTurn_turn ctx (some c)).2.2) (h.begins hp hlater)
        | reconfigured =>
          rw [noteAssessment_incomplete rfl]
          exact ⟨rfl, fun hw => hw.rest ⟨rfl, rfl, rfl, rfl, .inr rfl⟩⟩
        | @again _ o _ _ ho =>
          rw [noteAssessment_incomplete rfl]
          have hrests := ho.rests
          exact ⟨hrests.turn.symm, fun hw => hw.rest ⟨hrests.turn, hrests.provenance,
            hrests.excluded, hrests.actions, hrests.status⟩⟩
        | assessed s evidence _ _ hunspent _ _ _ ha =>
          have hcturn : c'.turnId = c.turnId := by cases ha <;> rfl
          have hgone := hspent c rfl (hturn.trans hcturn)
          rw [hunspent] at hgone
          cases hgone
  | @reserve p m ctx plan attempt outcome saved frozen hp hreserve =>
    obtain ⟨o, c', hprev, rfl, -, hr⟩ := reserve_reserves hreserve
    have hturn := (isCurrent_iff.mp hr.current).2
    have hfresh := h.fresh hprev hr
    obtain ⟨attempt, planDigest, s, evidence, rfl⟩ := hr.shape
    obtain ⟨m, rfl⟩ := hr.saved
    intro q r d hq hd hrturn
    cases hd
    rcases setReviewer_eq (w := w.save _) hq with hnew | hq
    · cases hnew
      exact watched_reserved rfl fun a ha => ha
    · have hissued := h.issued (show w.reviewers q = some r from hq)
      have hrturn : r.ctx.turnId = o.turnId := hrturn
      rw [hrturn, hturn] at hissued
      exact absurd hissued hfresh
  | @dispatch p r result hp _ =>
    refine hk.watch.congr (setReviewer_keeps hp rfl rfl rfl) fun _ _ d _ _ hd _ => ?_
    exact ⟨d, hd, rfl, fun hw => hw⟩
  | @saveResult p r result m saved hp _ hresult =>
    refine hk.watch.congr (setReviewer_keeps (w := w.save saved) hp rfl rfl rfl)
      fun q s d _ _ hd _ => ?_
    cases saved with
    | none => exact ⟨d, hd, rfl, fun hw => hw⟩
    | some c' =>
      cases hd
      obtain ⟨c, hprev, -, -, rfl⟩ := saveResult_ok hresult
      exact ⟨c, hprev, rfl, fun hw => hw.rest ⟨rfl, rfl, rfl, rfl, .inl ⟨rfl, rfl⟩⟩⟩
  | @complete p r result reads failed stale hp _ _ =>
    refine hk.watch.congr (setReviewer_keeps hp rfl rfl rfl) fun _ _ d _ _ hd _ => ?_
    exact ⟨d, hd, rfl, fun hw => hw⟩
  | @finish p r result reads failed stale m saved outcome hp hstage hfinish =>
    rcases finish_ok hfinish with ⟨rfl, -, hincomplete⟩ | ⟨c, hprev, -, hholds, rfl, -⟩
    · rw [noteAssessment_incomplete hincomplete]
      intro q s d hq hd hturn
      exact hk.watch q s d (setReviewer_none (w := w.save none) hq) hd hturn
    · intro q s d hq hd hturn
      rw [noteAssessment_eq] at hq
      -- the holder of the turn has just ended
      have hqr : w.reviewers q = some s := setReviewer_none (w := w) (p := p) hq
      have hsturn : s.ctx.turnId = r.ctx.turnId := by
        have hdturn : d.turnId = c.turnId := by
          cases hd
          have hcases := conclude_cases failed stale r.frozen result (c.decided result)
          show (conclude failed stale r.frozen result (c.decided result)).1.turnId = _
          generalize conclude failed stale r.frozen result (c.decided result) = out at hcases
          cases hcases <;> rfl
        exact hturn.trans (hdturn.trans (holds_turn hholds))
      have hqp : q = p := by
        refine h.ledger.unique q p r.ctx.turnId s.stage.isReserved r.stage.isReserved ?_
          (ledger_holder hp)
        rw [← hsturn]
        exact ledger_holder hqr
      rw [hqp] at hq
      simp [World.setReviewer, World.answer] at hq
  | die p =>
    intro q s d hq hd hturn
    exact hk.watch q s d (setReviewer_none hq) hd hturn

omit [DecidableEq π] [PyFloatText F] in
theorem save_none {saved : Option (Checkpoint F)} (h : (w.save saved).checkpoint = none) :
    saved = none ∧ w.checkpoint = none := by
  cases saved with
  | none => exact ⟨rfl, h⟩
  | some c => cases h

/-- Nothing is stored before the first prompt. -/
theorem Step.unopened (hk : w.Kept) (hs : Step sha256 w call w') (hnone : w'.checkpoint = none) :
    w'.stored = [] := by
  cases hs with
  | beginTurn => exact hk.unopened (save_none hnone).2
  | @recordAction m boundary ctx action saved _ _ =>
    obtain ⟨rfl, hprev⟩ := save_none hnone
    rw [noteAction_eq] at hprev
    show (w.noteAction action none).stored = []
    rw [noteAction_stored, storesOutcome]
    simpa using hk.unopened hprev
  | resetReview => exact hk.unopened (save_none hnone).2
  | @stop m ctx plan attempt outcome saved hreserve =>
    obtain ⟨rfl, hprev⟩ := save_none (w := w.noteAssessment outcome w.stored.length saved) hnone
    rw [noteAssessment_incomplete (reserve_unsaved hreserve)] at hprev ⊢
    exact hk.unopened hprev
  | @reserve p m ctx plan attempt outcome saved frozen _ hreserve =>
    obtain ⟨c, c', -, rfl, -, -⟩ := reserve_reserves hreserve
    cases hnone
  | dispatch => exact hk.unopened hnone
  | saveResult => exact hk.unopened (save_none (w := w) hnone).2
  | complete => exact hk.unopened hnone
  | @finish p r result reads failed stale m saved outcome hp _ hfinish =>
    rcases finish_ok hfinish with ⟨rfl, -, hincomplete⟩ | ⟨c, -, -, -, rfl, -⟩
    · rw [noteAssessment_incomplete hincomplete] at hnone ⊢
      exact hk.unopened hnone
    · cases hnone
  | die => exact hk.unopened hnone

theorem World.Kept.step (h : w.Sound) (hk : w.Kept) (hcareful : Careful w call)
    (hs : Step sha256 w call w') : w'.Kept where
  accounts := hs.accounts h hk.accounts
  unopened := hs.unopened hk
  covered := hs.covered h hk hcareful
  watch := hs.watch h hk hcareful

theorem CarefulRun.kept (h : CarefulRun sha256 (.init : World π F) w) : w.Kept := by
  induction h with
  | refl => exact init_kept
  | step hrun hcareful hs ih => exact ih.step (hrun.run.sound init_sound) hcareful hs

/-- An outcome that an older turn has left: it was assessed, it is carried
as outstanding work, or its turn is counted as excluded. -/
def Stored.SettledIn (s : Stored) (c : Checkpoint F) : Prop :=
  s.assessed = true ∨ (s.turn ∈ c.provenance ∧ c.outstanding = true) ∨ s.turn ∈ c.excludedTurns

/-- **Careful runs drop no observed work.** Every outcome that was stored
in an older turn is assessed, carried or excluded. The count of excluded
work is the number of excluded turns in every run. -/
theorem observedWork_kept (h : CarefulRun sha256 (.init : World π F) w) :
    (∀ c, w.checkpoint = some c → ∀ s ∈ w.stored, s.turn ≠ c.turnId → s.SettledIn c) ∧
    ∀ w' : World π F, Run sha256 .init w' → ∀ c, w'.checkpoint = some c →
      c.excludedCount = c.excludedTurns.toFinset.card := by
  refine ⟨fun c hc s hs hturn => ?_, fun w' hrun c hc => ?_⟩
  · cases h.kept.covered c hc s hs with
    | assessed ha => exact .inl ha
    | excluded he => exact .inr (.inr he)
    | carried hp ho => exact .inr (.inl ⟨hp, ho⟩)
    | current ht _ _ => exact absurd ht hturn
  · exact (hrun.accounts c hc).tallied.tally.count

end Careful

section Example

def secondTurn : NativeId := ⟨"01890000-0000-7000-8000-000000000002", by decide +kernel⟩

def sampleOutcome : Action FloatText :=
  ⟨"call_1", .outcome, firstTurn, "shell", none, none, none, none⟩

variable (sha256 : List Char → Hex 64)

theorem sampleOpened_open : sampleOpened.Open (sampleTurn firstTurn) where
  belongs := ⟨rfl, rfl, rfl⟩
  current := isCurrent_iff.mpr ⟨rfl, rfl⟩
  config := rfl
  reset := rfl
  blocked := rfl
  spent := rfl

theorem sampleOpened_begin : beginTurn sha256 sampleMoment (sampleTurn firstTurn)
    (none : Option (Checkpoint FloatText)) = .ok (some sampleOpened) :=
  beginTurn_first (m := sampleMoment) (s := sampleCaptured) rfl

/-- A checkpoint with an outcome of the first turn. -/
def Checkpoint.worked (c : Checkpoint FloatText) : Checkpoint FloatText :=
  { c with
    actions := [sampleOutcome]
    observedSnapshot := some sampleRef }.stamp sampleMoment

theorem worked_record {c : Checkpoint FloatText} (h : c.Open (sampleTurn firstTurn))
    (hactions : c.actions = []) :
    recordAction sampleMoment sampleMoment.capture (sampleTurn firstTurn) sampleOutcome (some c)
      = .ok (some c.worked) := by
  have hcapture : sampleMoment.capture = .ok sampleCaptured := rfl
  have hnew : c.actions.any (·.is .outcome firstTurn "call_1") = false := by rw [hactions]; rfl
  have hroom : c.actions.length < MAX_ACTIONS := by rw [hactions]; decide
  have hrecord : recordAction sampleMoment (.ok sampleCaptured) (sampleTurn firstTurn)
      sampleOutcome (some c) = _ := recordAction_open h rfl hnew hroom hcapture
  rw [hcapture, hrecord, hactions]
  rfl

/-- The second prompt. -/
theorem worked_next {c : Checkpoint FloatText} (h : c.Belongs (sampleTurn secondTurn))
    (hturn : c.turnId = firstTurn) (hwatermark : c.watermark = firstTurn.int)
    (hblocked : c.blockedUntilTurn = none) (hprov : c.provenance = [firstTurn]) :
    ∃ c', beginTurn sha256 sampleMoment (sampleTurn secondTurn) (some c) = .ok (some c') ∧
      Begun sampleMoment (sampleTurn secondTurn) (some c) c' := by
  have hloads : ∀ ref, ∃ mf, sampleMoment.storage.load ref = .ok mf := fun ref => ⟨_, rfl⟩
  have hseen : lastSeen (some c) < secondTurn.int := by
    rw [lastSeen, hblocked, hturn, hwatermark]
    decide +kernel
  have hcapture : sampleMoment.capture = .ok sampleCaptured := rfl
  obtain ⟨c', hbegin⟩ := beginTurn_next sha256 h hseen (by rw [hprov]; decide) hloads hcapture
  exact ⟨c', hbegin, (beginTurn_ok hbegin).2.2⟩

/-- A world after the first prompt, and after its outcome was stored. -/
def sampleWorld (c : Checkpoint FloatText) : World Nat FloatText := World.init.save (some c)

def World.worked (w : World Nat FloatText) (c : Checkpoint FloatText) : World Nat FloatText :=
  (w.noteAction sampleOutcome (some c.worked)).save (some c.worked)

theorem sampleWorld_begin :
    Step sha256 .init (.beginTurn (sampleTurn firstTurn)) (sampleWorld sampleOpened) :=
  .beginTurn sampleMoment (sampleTurn firstTurn) (sampleOpened_begin sha256)

theorem worked_step {w : World Nat FloatText} {c : Checkpoint FloatText}
    (hc : w.checkpoint = some c) (h : c.Open (sampleTurn firstTurn)) (hactions : c.actions = []) :
    Step sha256 w (.recordAction (sampleTurn firstTurn) sampleOutcome) (w.worked c) := by
  have hrecord := worked_record h hactions
  rw [← hc] at hrecord
  exact .recordAction sampleMoment _ (sampleTurn firstTurn) sampleOutcome rfl hrecord

/-- An outcome of the first turn is carried by the second. -/
theorem sampleWorked_kept : ∃ w : World Nat FloatText, CarefulRun (fun _ => zeros) .init w ∧
    ∃ c s, w.checkpoint = some c ∧ s ∈ w.stored ∧ s.turn ≠ c.turnId ∧ s.SettledIn c := by
  obtain ⟨c', hnext, hbegun⟩ := worked_next (fun _ => zeros) (c := sampleOpened.worked)
    ⟨rfl, rfl, rfl⟩ rfl rfl rfl rfl
  have hworked : CarefulRun (fun _ => zeros) .init ((sampleWorld sampleOpened).worked sampleOpened) := by
    refine .step (.step (.refl _) ?_ (sampleWorld_begin _)) ?_ (worked_step _ rfl sampleOpened_open rfl)
    · intro c hc
      cases hc
    · intro hphase
      cases hphase
  have hverified : Careful ((sampleWorld sampleOpened).worked sampleOpened)
      (.beginTurn (sampleTurn secondTurn)) := by
    intro c hc _ hstatus
    cases hc
    cases hstatus
  have hrun := hworked.step hverified (.beginTurn sampleMoment (sampleTurn secondTurn) hnext)
  have hturn : firstTurn ≠ c'.turnId := by
    rw [hbegun.turn (fun o ho => by cases ho; decide)]
    decide
  exact ⟨_, hrun, c', ⟨firstTurn, "call_1", false⟩, rfl, List.mem_singleton_self _, hturn,
    (observedWork_kept hrun).1 c' rfl _ (List.mem_singleton_self _) hturn⟩

/-- The evidence of a first turn in which nothing happened. -/
def noEvidence : Evidence FloatText := ⟨.full sampleRef sampleRef [] [], [], true, none⟩

theorem sampleOpened_compare :
    compare sampleMoment.storage sampleRef sampleRef (F := FloatText) [] = .ok noEvidence := by
  have hsize : ¬ MAX_EVIDENCE_BYTES < noEvidence.size := by decide +kernel
  unfold noEvidence at hsize
  unfold compare
  simp only [sampleMoment, bind, Except.bind, pure, Except.pure, sampleManifest, Dict.empty,
    List.map_nil, List.append_nil, sortedSet, List.dedup_nil, List.insertionSort_nil,
    List.mapM_nil, sameRepository]
  simp [hsize, noEvidence]

/-- The first turn after its `no_changes` verdict. -/
def sampleUnchanged : Checkpoint FloatText :=
  { (sampleOpened.examined sampleRef (gather sampleOpened noEvidence)) with
    status := .noChanges
    reason := some "complete_unchanged_turn"
    reviewed := some sampleRef }.stamp sampleMoment

theorem sampleOpened_stop :
    reserve sha256 sampleMoment (sampleTurn firstTurn) ⟨none, none⟩
        (sampleTurn firstTurn).sessionIdentity (some sampleOpened)
      = .ok ⟨{ status := .noChanges, complete := true }, some sampleUnchanged, none⟩ := by
  have hcapture : sampleMoment.capture = .ok sampleCaptured := rfl
  have hgather : gather sampleOpened noEvidence
      = { noEvidence with provenanceTurns := some [firstTurn] } := by
    unfold gather
    exact if_neg (by decide +kernel)
  have hbaseline : sampleOpened.baseline = some sampleRef := rfl
  rw [reserve_open sampleOpened_open (fun h => by cases h) hbaseline hcapture
    sampleOpened_compare]
  unfold assess
  rw [show (Captured.reference (sampleTurn firstTurn) sampleCaptured) = sampleRef from rfl]
  rw [if_neg (by rw [hgather]; decide), if_pos (by rw [hgather]; decide)]
  rfl

/-- An outcome that is stored after a `no_changes` verdict is dropped by the
next prompt. -/
theorem droppedOutcome : ∃ w : World Nat FloatText, Run (fun _ => zeros) .init w ∧
    ∃ c s, w.checkpoint = some c ∧ s ∈ w.stored ∧ s.turn ≠ c.turnId ∧ ¬ s.SettledIn c := by
  have hopen : sampleUnchanged.Open (sampleTurn firstTurn) :=
    ⟨⟨rfl, rfl, rfl⟩, isCurrent_iff.mpr ⟨rfl, rfl⟩, rfl, rfl, rfl, rfl⟩
  obtain ⟨c', hnext, hbegun⟩ := worked_next (fun _ => zeros) (c := sampleUnchanged.worked)
    ⟨rfl, rfl, rfl⟩ rfl rfl rfl rfl
  have hstop : Run (fun _ => zeros) (.init : World Nat FloatText) _ :=
    .step (.step (.refl _) (sampleWorld_begin _))
      (.stop sampleMoment (sampleTurn firstTurn) ⟨none, none⟩ _ (sampleOpened_stop _))
  have hrun := (hstop.step (worked_step _ rfl hopen rfl)).step
    (.beginTurn sampleMoment (sampleTurn secondTurn) hnext)
  obtain ⟨hturn, hprov, hexcluded⟩ := hbegun.settled rfl rfl
  refine ⟨_, hrun, c', ⟨firstTurn, "call_1", false⟩, rfl, List.mem_singleton_self _, ?_, ?_⟩
  · show firstTurn ≠ c'.turnId
    rw [hturn]
    decide
  · rintro (hassessed | ⟨hcarried, -⟩ | hcounted)
    · cases hassessed
    · rw [hprov] at hcarried
      revert hcarried
      decide
    · rw [hexcluded] at hcounted
      cases hcounted

end Example

end MultiForge.Policy
