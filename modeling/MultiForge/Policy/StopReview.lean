/-
MultiForge.Policy.StopReview — the checkpoint of a session's Stop reviews.

There is one checkpoint for each session. `beginTurn`, `recordAction`, the
three locked steps of `reviewStop` (`reserve`, `saveResult`, `finish`) and
`resetReview` each replace it at once, or leave it (`none`), or raise. What
a step reads of the world besides the checkpoint is its arguments: a
capture, the storage, a plan, the configuration, the clock.

A configuration is known by its digest. `excludedTurns` is not in the
payload: it lists the turns of everything `exclude` has been given, to
compare the count of `excludedWork` with.
-/
import MultiForge.Policy.TurnEvidence

namespace MultiForge.Policy

open Json

/-! ## 1. Data -/

def MAX_ACTIONS : Nat := 48

def MAX_ACTION_BYTES : Nat := 8000

def MAX_PROVENANCE_TURNS : Nat := 32

/-- `TurnContext`, its paths resolved. -/
structure TurnContext where
  forgeRoot : String
  session : String
  checkout : String
  threadId : NativeId
  turnId : NativeId
  /-- `config_digest` -/
  configDigest : Hex 64
  /-- `reviewer_cache_identity(config, lane)` -/
  reviewerIdentity : String
  sessionIdentity : Hex 32
  absolute : isAbsolute forgeRoot = true ∧ isAbsolute checkout = true

inductive Status where
  | collecting
  | reviewing
  | reviewed
  | unavailable
  | unreviewed
  | incomplete
  | noChanges
  | partialReview
  deriving DecidableEq

def Status.text : Status → String
  | .collecting => "collecting"
  | .reviewing => "reviewing"
  | .reviewed => "reviewed"
  | .unavailable => "unavailable"
  | .unreviewed => "unreviewed"
  | .incomplete => "incomplete"
  | .noChanges => "no_changes"
  | .partialReview => "partial"

inductive ExcludeReason where
  | operatorReset
  | partialEvidence
  | unattributedPendingWork
  | missingTurnStart
  | missingObservation
  deriving DecidableEq

def ExcludeReason.text : ExcludeReason → String
  | .operatorReset => "operator_reset"
  | .partialEvidence => "partial_evidence"
  | .unattributedPendingWork => "unattributed_pending_work"
  | .missingTurnStart => "missing_turn_start"
  | .missingObservation => "missing_observation"

/-- `excluded_work`; its `reviewed` is always false. -/
structure ExcludedWork where
  turns : Nat
  lastTurn : NativeId
  lastThread : NativeId
  reason : ExcludeReason
  deriving DecidableEq

inductive DecisionType where
  | allow
  | deny
  | warn
  | needsReview
  deriving DecidableEq

def DecisionType.text : DecisionType → String
  | .allow => "allow"
  | .deny => "deny"
  | .warn => "warn"
  | .needsReview => "needs_review"

/-- `PolicyDecision`; `details` is what the review does not look at. -/
structure PolicyDecision (F : Type) where
  decision : DecisionType
  failOpen : Bool
  failureType : Option String
  details : List (String × Json F)

/-- `SupervisorRun` -/
structure SupervisorRun (F : Type) where
  decision : PolicyDecision F
  runOk : Bool
  parsed : Bool
  dispatched : Option Bool

/-- `PlanSnapshot`: `read_plan` gives a text and its digest, or neither. -/
structure PlanSnapshot where
  path : Option String
  content : Option (String × Hex 64)

/-- `fingerprint` -/
def PlanSnapshot.fingerprint (p : PlanSnapshot) : String :=
  p.path.getD "None" ++ ":" ++ (p.content.map (·.2.text)).getD "unavailable"

/-- The payload of a checkpoint. -/
structure Checkpoint (F : Type) where
  sessionIdentity : Hex 32
  forgeRoot : String
  checkout : String
  threadId : NativeId
  turnId : NativeId
  watermark : Nat
  configDigest : Hex 64
  spent : Bool
  dispatched : Option Bool
  status : Status
  reason : Option String
  outstanding : Bool
  provenance : List NativeId
  actions : List (Action F)
  correctionConsumed : Bool
  baseline : Option SnapshotRef
  startSnapshot : Option SnapshotRef
  observedSnapshot : Option SnapshotRef
  excludedWork : Option ExcludedWork
  /-- the number of paths and the first of them -/
  unattributedChanges : Nat × List String
  resetRequested : Bool
  reviewed : Option SnapshotRef
  attemptId : Option (Hex 32)
  evidenceDigest : Option (Hex 64)
  evidence : Option (Evidence F)
  decision : Option (PolicyDecision F)
  updatedAt : String
  coverage : Option (Bool × List String)
  carryOmissions : List String
  blockedUntilTurn : Option NativeId
  baselineError : Option String
  planDigest : Option (Hex 64)
  reviewerIdentity : Option String
  excludedTurns : List NativeId

/-- What `capture` finds in a checkout. -/
structure Captured where
  digest : Hex 64
  files : Nat
  omissions : List String

/-- Its reference, with the checkout as the root. -/
def Captured.reference (ctx : TurnContext) (s : Captured) : SnapshotRef :=
  ⟨s.digest, ctx.checkout, s.files, s.omissions⟩

/-- What a step reads: the clock, the storage and a capture (in
`begin_turn`, after the pruning before it). -/
structure Moment where
  now : String
  storage : Storage
  capture : Except Failure Captured

inductive ReviewError where
  | anotherLifetime
  | anotherCheckout
  | evidence (failure : Failure)

variable {F : Type}

/-- `_new_state` -/
def newState (ctx : TurnContext) (snapshot : Option SnapshotRef) : Checkpoint F where
  sessionIdentity := ctx.sessionIdentity
  forgeRoot := ctx.forgeRoot
  checkout := ctx.checkout
  threadId := ctx.threadId
  turnId := ctx.turnId
  watermark := ctx.turnId.int
  configDigest := ctx.configDigest
  spent := false
  dispatched := some false
  status := .collecting
  reason := none
  outstanding := false
  provenance := [ctx.turnId]
  actions := []
  correctionConsumed := false
  baseline := snapshot
  startSnapshot := snapshot
  observedSnapshot := snapshot
  excludedWork := none
  unattributedChanges := (0, [])
  resetRequested := false
  reviewed := none
  attemptId := none
  evidenceDigest := none
  evidence := none
  decision := none
  updatedAt := ""
  coverage := none
  carryOmissions := []
  blockedUntilTurn := none
  baselineError := none
  planDigest := none
  reviewerIdentity := none
  excludedTurns := []

/-- The excluded work of the state before. -/
def Checkpoint.inherit (state : Checkpoint F) (old : Option (Checkpoint F)) : Checkpoint F :=
  { state with
    excludedWork := old.bind (·.excludedWork)
    excludedTurns := (old.map (·.excludedTurns)).getD [] }

/-- `_exclude` -/
def exclude (state source : Checkpoint F) (reason : ExcludeReason) : Checkpoint F :=
  let watermark := (state.excludedWork.map (·.lastTurn.int)).getD 0
  let added := source.provenance.countP (watermark < ·.int)
  let turns := (state.excludedWork.map (·.turns)).getD 0
  { state with
    excludedWork :=
      if state.excludedWork.isSome ∧ added = 0 then state.excludedWork
      else some ⟨turns + added, source.turnId, source.threadId, reason⟩
    excludedTurns := state.excludedTurns ++ source.provenance }

/-- `_event` puts the time on every state it saves. -/
def Checkpoint.stamp (c : Checkpoint F) (m : Moment) : Checkpoint F := { c with updatedAt := m.now }

/-- `state.update(status=..., reason=..., outstanding=True)` -/
def Checkpoint.pend (c : Checkpoint F) (status : Status) (reason : String) : Checkpoint F :=
  { c with
    status := status
    reason := some reason
    outstanding := true }

/-- `_state` -/
def stateOf (ctx : TurnContext) : Option (Checkpoint F) →
    Except ReviewError (Option (Checkpoint F))
  | none => .ok none
  | some c =>
      if c.sessionIdentity ≠ ctx.sessionIdentity then .error .anotherLifetime
      else if c.forgeRoot ≠ ctx.forgeRoot ∨ c.checkout ≠ ctx.checkout then .error .anotherCheckout
      else .ok (some c)

/-- `_current` -/
def Checkpoint.isCurrent (c : Checkpoint F) (ctx : TurnContext) : Bool :=
  c.threadId == ctx.threadId && c.turnId == ctx.turnId

/-! ## 2. `begin_turn` -/

/-- The newest turn a checkpoint has seen. -/
def lastSeen : Option (Checkpoint F) → Nat
  | none => 0
  | some c => max c.watermark (c.blockedUntilTurn.getD c.turnId).int

/-- Is there work that a later turn has to carry? -/
def Checkpoint.pending (c : Checkpoint F) : Bool :=
  !c.resetRequested && (c.outstanding || (c.status == .collecting
    && (!c.actions.isEmpty || !c.carryOmissions.isEmpty || c.baseline != c.observedSnapshot)))

/-- The pending work of an old state, in the state of a new turn. -/
def carryOver (ctx : TurnContext) (old : Checkpoint F) (r : Rebased) (state : Checkpoint F) :
    Checkpoint F :=
  { state with
    baseline := some r.reference
    outstanding := true
    provenance := old.provenance ++ [ctx.turnId]
    actions := old.actions
    carryOmissions := old.carryOmissions
    unattributedChanges := (r.unattributed.length, r.unattributed.take 32) }

/-- Old descriptions do not authorize corrections to a path that was
changed elsewhere. -/
def Checkpoint.ambiguous (c : Checkpoint F) : Checkpoint F :=
  { c with
    actions := []
    carryOmissions := c.carryOmissions ++ ["unattributed_pending_work"] }

def carry (ctx : TurnContext) (old : Checkpoint F) (r : Rebased) (state : Checkpoint F) :
    Checkpoint F :=
  if r.conflicts.isEmpty then carryOver ctx old r state
  else exclude (carryOver ctx old r state).ambiguous old .unattributedPendingWork

variable [PyFloatText F] (sha256 : List Char → Hex 64)

/-- The state of a new turn over an old one. -/
def startTurn (m : Moment) (ctx : TurnContext) (old : Option (Checkpoint F))
    (current : Option SnapshotRef) : Except ReviewError (Checkpoint F) :=
  let state := (newState ctx current).inherit old
  match old with
  | none => .ok state
  | some old =>
      if old.resetRequested then .ok (exclude state old .operatorReset)
      else if old.pending then
        match current, old.baseline, old.observedSnapshot with
        | some now, some baseline, some observed =>
            match rebasePending (F := F) sha256 m.storage baseline observed now with
            | .error e => .error (.evidence e)
            | .ok r => .ok (carry ctx old r state)
        | _, _, _ => .ok (exclude state old .missingObservation)
      else
        match current, old.observedSnapshot with
        | some now, some observed =>
            match rebasePending (F := F) sha256 m.storage observed observed now with
            | .error e => .error (.evidence e)
            | .ok r => .ok { state with
                unattributedChanges := (r.unattributed.length, r.unattributed.take 32) }
        | _, _ => .ok state

/-- `begin_turn` on the state that `_state` returns -/
def beginFrom (m : Moment) (ctx : TurnContext) (old : Option (Checkpoint F)) :
    Except ReviewError (Option (Checkpoint F)) :=
  if ctx.turnId.int ≤ lastSeen old then .ok none
  else if old.any fun c => c.pending && decide (MAX_PROVENANCE_TURNS ≤ c.provenance.length) then
    .ok (old.map fun c => { c.pend .unavailable "carry_limit" with
      blockedUntilTurn := some ctx.turnId }.stamp m)
  else
    match m.capture with
    | .error .other => .error (.evidence .other)
    | .error (.expected type) =>
        (startTurn sha256 m ctx old none).map fun c =>
          some ({ c.pend .unavailable "baseline_unavailable" with
            baselineError := some type }.stamp m)
    | .ok s => (startTurn sha256 m ctx old (some (s.reference ctx))).map fun c => some (c.stamp m)

/-- `begin_turn` -/
def beginTurn (m : Moment) (ctx : TurnContext) (previous : Option (Checkpoint F)) :
    Except ReviewError (Option (Checkpoint F)) :=
  match stateOf ctx previous with
  | .error e => .error e
  | .ok old => beginFrom sha256 m ctx old

/-! ## 3. `record_action` -/

/-- The state from which a continuation after a review is observed. -/
def continueFrom (ctx : TurnContext) (boundary : Except Failure Captured) (c : Checkpoint F) :
    Except ReviewError (Checkpoint F) :=
  if c.spent && !c.outstanding then
    match boundary with
    | .error e => .error (.evidence e)
    | .ok s => .ok { c with
        baseline := some (s.reference ctx)
        actions := []
        observedSnapshot := some (s.reference ctx)
        carryOmissions := [] }
  else .ok c

/-- An action after a reservation is work that no review has seen. -/
def afterReview (c : Checkpoint F) : Checkpoint F :=
  if c.spent then c.pend .unreviewed "actions_after_review" else c

/-- Append an action, within the limit. -/
def keepAction (action : Action F) (c : Checkpoint F) : Checkpoint F :=
  if MAX_ACTIONS ≤ c.actions.length then
    { c.pend .unavailable "action_limit" with
      carryOmissions := sortedSet (c.carryOmissions ++ ["action_limit"]) }
  else { c with actions := c.actions ++ [action] }

/-- The snapshot after an outcome. -/
def observe (m : Moment) (ctx : TurnContext) (action : Action F) (c : Checkpoint F) :
    Except ReviewError (Checkpoint F) :=
  if action.isOutcome then
    match m.capture with
    | .ok s => .ok { c with observedSnapshot := some (s.reference ctx) }
    | .error (.expected _) => .ok { c with
        carryOmissions := sortedSet (c.carryOmissions ++ ["observation_unavailable"]) }
    | .error .other => .error (.evidence .other)
  else .ok c

/-- `record_action` on the state that `_state` returns; `boundary` is the
capture before a continuation. -/
def recordFrom (m : Moment) (boundary : Except Failure Captured) (ctx : TurnContext)
    (action : Action F) : Option (Checkpoint F) → Except ReviewError (Option (Checkpoint F))
  | none => .ok none
  | some c =>
      if !c.isCurrent ctx then .ok none
      else if c.configDigest ≠ ctx.configDigest then
        .ok (some ((c.pend .unavailable "configuration_changed").stamp m))
      else if c.resetRequested || c.blockedUntilTurn.isSome then .ok none
      else if action.phase = .denied then
        .ok (some ({ c with
          actions := c.actions.filter fun row =>
            !(row.id == action.id && row.turnId == action.turnId) }.stamp m))
      else if c.actions.any (·.is action.phase action.turnId action.id) then .ok none
      else
        match continueFrom ctx boundary c with
        | .error e => .error e
        | .ok c =>
            (observe m ctx action (keepAction action (afterReview c))).map fun c =>
              some (c.stamp m)

/-- `record_action` -/
def recordAction (m : Moment) (boundary : Except Failure Captured) (ctx : TurnContext)
    (action : Action F) (previous : Option (Checkpoint F)) :
    Except ReviewError (Option (Checkpoint F)) :=
  match stateOf ctx previous with
  | .error e => .error e
  | .ok old => recordFrom m boundary ctx action old

/-! ## 4. The steps of `review_stop` -/

/-- `StopOutcome` -/
structure StopOutcome (F : Type) where
  status : Status
  reason : Option String := none
  decision : Option (PolicyDecision F) := none
  correction : Bool := false
  complete : Bool := false

/-- What `reserve` leaves behind: the outcome so far, the state it saves and
the reservation. -/
structure Reserved (F : Type) where
  outcome : StopOutcome F
  saved : Option (Checkpoint F)
  reservation : Option (Checkpoint F)

/-- An outcome without a reservation. -/
def answer (status : Status) (reason : Option String) (saved : Option (Checkpoint F)) :
    Reserved F :=
  ⟨{ status := status, reason := reason }, saved, none⟩

/-- Why a checkpoint does not let its turn go on. -/
def Checkpoint.stopReason (c : Checkpoint F) : String :=
  if c.resetRequested then "new_explicit_turn_required" else "carry_limit"

/-- The state of a newer turn that did not begin. -/
def missingTurn (ctx : TurnContext) (old : Option (Checkpoint F)) : Checkpoint F :=
  let missing := (newState ctx none).inherit old
  let missing :=
    match old with
    | some c =>
        if c.outstanding || c.status == .collecting then exclude missing c .missingTurnStart
        else missing
    | none => missing
  { exclude missing missing .missingTurnStart with
    status := .unavailable
    reason := some "missing_turn_start" }

/-- A reservation whose review did not complete. -/
def unfinished (c : Checkpoint F) : Checkpoint F :=
  if c.status = .reviewing then c.pend .incomplete "reserved_without_completed_review" else c

/-- A reviewed checkpoint and the worktree of a later Stop. -/
def recheck (now : Hex 64) (reviewed : SnapshotRef) (c : Checkpoint F) : Checkpoint F :=
  if now ≠ reviewed.digest then c.pend .unreviewed "changes_after_review"
  else if c.correctionConsumed then c.pend .unreviewed "correction_not_reassessed"
  else c

/-- A Stop of a turn whose allowance is spent. -/
def stopAgain (m : Moment) (ctx : TurnContext) (c : Checkpoint F) :
    Except ReviewError (Checkpoint F) :=
  match c.reviewed with
  | none => .ok ((unfinished c).pend .incomplete "reserved_without_completed_review")
  | some reviewed =>
      match m.capture with
      | .error e => .error (.evidence e)
      | .ok s => .ok (recheck s.digest reviewed
          { unfinished c with observedSnapshot := some (s.reference ctx) })

/-- The evidence of a checkpoint, with the gaps it carries. -/
def gather (c : Checkpoint F) (evidence : Evidence F) : Evidence F :=
  let evidence : Evidence F :=
    if c.carryOmissions.isEmpty then evidence
    else
      { evidence with
        omissions := sortedSet (evidence.omissions ++ c.carryOmissions)
        complete := false }
  let evidence : Evidence F := { evidence with provenanceTurns := some c.provenance }
  if MAX_EVIDENCE_BYTES < evidence.size then
    ⟨.counts none evidence.changes.length evidence.actions.length, ["review_prompt_byte_limit"],
      false, some c.provenance⟩
  else evidence

/-- The state after evidence was compared. -/
def Checkpoint.examined (c : Checkpoint F) (now : SnapshotRef) (evidence : Evidence F) :
    Checkpoint F :=
  { c with
    observedSnapshot := some now
    coverage := some (evidence.complete, evidence.omissions) }

/-- The state of a reservation. -/
def Checkpoint.reserved (c : Checkpoint F) (ctx : TurnContext) (attempt : Hex 32)
    (planDigest : Hex 64) (now : SnapshotRef) (evidence : Evidence F) : Checkpoint F :=
  { c with
    spent := true
    dispatched := none
    status := .reviewing
    reason := none
    outstanding := true
    reviewed := some now
    attemptId := some attempt
    evidence := some evidence
    evidenceDigest := some (digest sha256 evidence.toJson)
    planDigest := some planDigest
    reviewerIdentity := some ctx.reviewerIdentity }

/-- What a Stop of a turn with an allowance makes of the evidence. -/
def assess (m : Moment) (ctx : TurnContext) (plan : PlanSnapshot) (attempt : Hex 32)
    (now : SnapshotRef) (evidence : Evidence F) (c : Checkpoint F) : Reserved F :=
  if !evidence.complete && !(!evidence.changes.isEmpty || evidence.actions.any (·.isOutcome)) then
    answer .unavailable (some "incomplete_evidence")
      (some ({ exclude c c .partialEvidence with
        status := .unavailable
        reason := some "incomplete_evidence"
        outstanding := false }.stamp m))
  else if evidence.changes.isEmpty && !c.actions.any (·.isOutcome) && !c.outstanding then
    ⟨{ status := .noChanges, complete := true },
      some ({ c with
        status := .noChanges
        reason := some "complete_unchanged_turn"
        reviewed := some now }.stamp m), none⟩
  else
    match plan.content.filter (·.1 ≠ "") with
    | none =>
        answer .unavailable (some "plan_unavailable")
          (some ((c.pend .unavailable "plan_unavailable").stamp m))
    | some (_, planDigest) =>
        ⟨{ status := .incomplete, reason := some "reserved_without_completed_review" },
          some ((c.reserved sha256 ctx attempt planDigest now evidence).stamp m),
          some (c.reserved sha256 ctx attempt planDigest now evidence)⟩

/-- `reserve` on the state that `_state` returns -/
def reserveFrom (m : Moment) (ctx : TurnContext) (plan : PlanSnapshot) (attempt : Hex 32) :
    Option (Checkpoint F) → Except ReviewError (Reserved F)
  | none =>
      .ok (answer .unavailable (some "missing_turn_start") (some ((missingTurn ctx none).stamp m)))
  | some c =>
      if c.resetRequested || c.blockedUntilTurn.isSome then
        .ok (answer .unavailable (some c.stopReason) none)
      else if !c.isCurrent ctx then
        if c.watermark < ctx.turnId.int then
          .ok (answer .unavailable (some "missing_turn_start")
            (some ((missingTurn ctx (some c)).stamp m)))
        else .ok (answer .unavailable (some "missing_or_stale_turn") none)
      else if c.configDigest ≠ ctx.configDigest then
        .ok (answer .unavailable (some "configuration_changed")
          (some ((c.pend .unavailable "configuration_changed").stamp m)))
      else if c.spent then
        -- a stored block is not replayed: it may have been delivered
        (stopAgain m ctx c).map fun c => answer c.status c.reason (some (c.stamp m))
      else
        match c.baseline, decide (c.reason = some "configuration_changed") with
        | some baseline, false =>
            match m.capture with
            | .error e => .error (.evidence e)
            | .ok s =>
                match compare m.storage baseline (s.reference ctx) c.actions with
                | .error e => .error (.evidence e)
                | .ok evidence =>
                    .ok (assess sha256 m ctx plan attempt (s.reference ctx) (gather c evidence)
                      (c.examined (s.reference ctx) (gather c evidence)))
        | _, _ =>
            .ok (answer .unavailable (some ((c.reason.filter (· ≠ "")).getD "missing_baseline"))
              none)

/-- `reserve` -/
def reserve (m : Moment) (ctx : TurnContext) (plan : PlanSnapshot) (attempt : Hex 32)
    (previous : Option (Checkpoint F)) : Except ReviewError (Reserved F) :=
  match stateOf ctx previous with
  | .error e => .error e
  | .ok old => reserveFrom sha256 m ctx plan attempt old

/-- Is this the checkpoint of a reservation? -/
def Checkpoint.holds (c : Checkpoint F) (ctx : TurnContext) (frozen : Checkpoint F) : Bool :=
  c.isCurrent ctx && c.attemptId == frozen.attemptId

/-- The decision is kept, whatever becomes of the review. -/
def Checkpoint.decided (c : Checkpoint F) (result : SupervisorRun F) : Checkpoint F :=
  { c with
    decision := some result.decision
    dispatched := result.dispatched }

/-- `save_result` -/
def saveResult (m : Moment) (ctx : TurnContext) (frozen : Checkpoint F) (result : SupervisorRun F)
    (previous : Option (Checkpoint F)) : Except ReviewError (Option (Checkpoint F)) :=
  match stateOf ctx previous with
  | .error e => .error e
  | .ok none => .ok none
  | .ok (some c) =>
      if c.holds ctx frozen then .ok (some ((c.decided result).stamp m)) else .ok none

/-- What a completion reads. -/
structure Completion where
  after : Except Failure Captured
  latestPlan : PlanSnapshot
  currentConfig : Except Failure (Option (Hex 64))
  /-- the time is up -/
  late : Bool

/-- `(completion_failed, stale)` -/
def Completion.judge (r : Completion) (ctx : TurnContext) (plan : PlanSnapshot)
    (frozen : Checkpoint F) : Except ReviewError (Bool × Bool) :=
  match r.after with
  | .error .other => .error (.evidence .other)
  | .error (.expected _) => .ok (true, true)
  | .ok after =>
      match r.currentConfig with
      | .error .other => .error (.evidence .other)
      | .error (.expected _) => .ok (true, true)
      | .ok config =>
          if r.late then .ok (true, true)
          else .ok (false, decide (some after.digest ≠ frozen.reviewed.map (·.digest)
            ∨ r.latestPlan.fingerprint ≠ plan.fingerprint ∨ config ≠ some ctx.configDigest))

/-- `failure_type` and its default -/
def SupervisorRun.failure (r : SupervisorRun F) : String :=
  (r.decision.failureType.filter (· ≠ "")).getD "review_unavailable"

/-- A verdict that can be relied on. -/
def SupervisorRun.conclusive (r : SupervisorRun F) : Bool :=
  r.runOk && r.parsed && !r.decision.failOpen && (r.decision.failureType.filter (· ≠ "")).isNone

/-- The state and the outcome of a completed review. -/
def conclude (failed stale : Bool) (frozen : Checkpoint F) (result : SupervisorRun F)
    (c : Checkpoint F) : Checkpoint F × StopOutcome F :=
  if c.resetRequested || c.blockedUntilTurn.isSome then
    (c, { status := .unavailable, reason := some c.stopReason })
  else if failed then
    (c.pend .unavailable "completion_unavailable",
      { status := .unavailable, reason := some "completion_unavailable" })
  else if stale then
    (c.pend .unreviewed "stale_review", { status := .unreviewed, reason := some "stale_review" })
  else if !result.conclusive then
    (c.pend .unavailable result.failure,
      { status := .unavailable, reason := some result.failure })
  else if !frozen.evidence.any (·.complete) then
    -- a verdict on a part neither authorizes a correction nor approves the rest
    ({ exclude c c .partialEvidence with
        status := .partialReview
        reason := some "incomplete_evidence"
        outstanding := false },
      { status := .partialReview, reason := some "incomplete_evidence",
        decision := some result.decision })
  else
    ({ c with
        status := .reviewed
        reason := none
        outstanding := result.decision.decision == .deny
        correctionConsumed := result.decision.decision == .deny },
      { status := .reviewed, decision := some result.decision,
        correction := result.decision.decision == .deny, complete := true })

/-- `finish` -/
def finish (m : Moment) (ctx : TurnContext) (failed stale : Bool) (frozen : Checkpoint F)
    (result : SupervisorRun F) (previous : Option (Checkpoint F)) :
    Except ReviewError (Option (Checkpoint F) × StopOutcome F) :=
  match stateOf ctx previous with
  | .error e => .error e
  | .ok none => .ok (none, { status := .unavailable, reason := some "turn_changed_during_review" })
  | .ok (some c) =>
      if c.holds ctx frozen then
        .ok (some ((conclude failed stale frozen result (c.decided result)).1.stamp m),
          (conclude failed stale frozen result (c.decided result)).2)
      else .ok (none, { status := .unavailable, reason := some "turn_changed_during_review" })

/-! ## 5. `reset_review` -/

/-- `reset_review`; without `apply` it is a preview. -/
def resetReview (m : Moment) (apply : Bool) : Option (Checkpoint F) → Option (Checkpoint F)
  | none => none
  | some c =>
      if apply then
        some ({ c.pend .unavailable "operator_reset" with resetRequested := true }.stamp m)
      else none

/-! ## 6. What a step can do -/

variable {sha256} {m : Moment} {ctx : TurnContext} {plan : PlanSnapshot} {attempt : Hex 32}
  {boundary : Except Failure Captured} {action : Action F} {frozen : Checkpoint F}
  {result : SupervisorRun F} {previous old : Option (Checkpoint F)} {c c' : Checkpoint F}

/-- The checkpoint is of this session, checkout and forge root. -/
structure Checkpoint.Belongs (c : Checkpoint F) (ctx : TurnContext) : Prop where
  sessionIdentity : c.sessionIdentity = ctx.sessionIdentity
  forgeRoot : c.forgeRoot = ctx.forgeRoot
  checkout : c.checkout = ctx.checkout

omit [PyFloatText F] in
theorem stateOf_ok (h : stateOf ctx previous = .ok old) :
    old = previous ∧ ∀ c, previous = some c → c.Belongs ctx := by
  cases previous with
  | none =>
    cases h
    refine ⟨rfl, fun c hc => ?_⟩
    cases hc
  | some c =>
    simp only [stateOf] at h
    split at h
    · cases h
    split at h
    · cases h
    rename_i hid hroot
    cases h
    refine ⟨rfl, fun d hd => ?_⟩
    cases hd
    simp only [not_or, ne_eq, not_not] at hid hroot
    exact ⟨hid, hroot.1, hroot.2⟩

omit [PyFloatText F] in
theorem isCurrent_iff : c.isCurrent ctx = true ↔ c.threadId = ctx.threadId ∧ c.turnId = ctx.turnId := by
  simp [Checkpoint.isCurrent]

omit [PyFloatText F] in
theorem holds_turn (h : c.holds ctx frozen = true) : c.turnId = ctx.turnId := by
  simp only [Checkpoint.holds, Bool.and_eq_true] at h
  exact (isCurrent_iff.mp h.1).2

/-- The states a new turn can start in. -/
inductive Started (ctx : TurnContext) (current : Option SnapshotRef) :
    Option (Checkpoint F) → Checkpoint F → Prop where
  | first : Started ctx current none ((newState ctx current).inherit none)
  | reset {old : Checkpoint F} : old.resetRequested = true →
      Started ctx current (some old)
        (exclude ((newState ctx current).inherit (some old)) old .operatorReset)
  | carried {old : Checkpoint F} {now : SnapshotRef} (r : Rebased) : old.pending = true →
      current = some now → r.reference.root = now.root →
      Started ctx current (some old)
        (carry ctx old r ((newState ctx current).inherit (some old)))
  | unobserved {old : Checkpoint F} : old.pending = true →
      Started ctx current (some old)
        (exclude ((newState ctx current).inherit (some old)) old .missingObservation)
  | settled {old : Checkpoint F} (changes : Nat × List String) : old.resetRequested = false →
      old.pending = false → changes.2.length ≤ 32 →
      Started ctx current (some old)
        { (newState ctx current).inherit (some old) with unattributedChanges := changes }

theorem rebasePending_root {st : Storage} {baseline observed current : SnapshotRef} {r : Rebased}
    (h : rebasePending (F := F) sha256 st baseline observed current = .ok r) :
    r.reference.root = current.root := by
  unfold rebasePending at h
  cases h₁ : st.load baseline with
  | error e => simp [h₁, bind, Except.bind] at h
  | ok before =>
    cases h₂ : st.load observed with
    | error e => simp [h₁, h₂, bind, Except.bind] at h
    | ok finish =>
      cases h₃ : st.load current with
      | error e => simp [h₁, h₂, h₃, bind, Except.bind] at h
      | ok start =>
        simp only [h₁, h₂, h₃, bind, Except.bind, pure, Except.pure, Except.ok.injEq] at h
        rw [← h]

theorem startTurn_ok {current : Option SnapshotRef}
    (h : startTurn sha256 m ctx previous current = .ok c') : Started ctx current previous c' := by
  cases previous with
  | none =>
    cases h
    exact .first
  | some old =>
    simp only [startTurn] at h
    split at h
    · rename_i hreset
      cases h
      exact .reset hreset
    rename_i hreset
    split at h
    · rename_i hpending
      split at h
      · rename_i now baseline observed
        split at h
        · cases h
        rename_i r hr
        cases h
        exact .carried r hpending rfl (rebasePending_root hr)
      · cases h
        exact .unobserved hpending
    · rename_i hpending
      split at h
      · split at h
        · cases h
        rename_i r hr
        cases h
        refine .settled _ (Bool.eq_false_iff.mpr hreset) (Bool.eq_false_iff.mpr hpending) ?_
        simp
      · cases h
        exact .settled (0, []) (Bool.eq_false_iff.mpr hreset) (Bool.eq_false_iff.mpr hpending)
          (Nat.zero_le _)

/-- The states `begin_turn` can save. -/
inductive Begun (m : Moment) (ctx : TurnContext) : Option (Checkpoint F) → Checkpoint F → Prop where
  | blocked {old : Checkpoint F} : old.pending = true →
      MAX_PROVENANCE_TURNS ≤ old.provenance.length →
      Begun m ctx (some old)
        ({ old.pend .unavailable "carry_limit" with
          blockedUntilTurn := some ctx.turnId }.stamp m)
  | failed {old : Option (Checkpoint F)} {c : Checkpoint F} (type : String) :
      Started ctx none old c →
      (∀ o, old = some o → o.pending = true → o.provenance.length < MAX_PROVENANCE_TURNS) →
      Begun m ctx old
        ({ c.pend .unavailable "baseline_unavailable" with baselineError := some type }.stamp m)
  | started {old : Option (Checkpoint F)} {c : Checkpoint F} (s : Captured) :
      Started ctx (some (s.reference ctx)) old c →
      (∀ o, old = some o → o.pending = true → o.provenance.length < MAX_PROVENANCE_TURNS) →
      Begun m ctx old (c.stamp m)

theorem beginTurn_ok (h : beginTurn sha256 m ctx previous = .ok (some c')) :
    (∀ c, previous = some c → c.Belongs ctx) ∧ lastSeen previous < ctx.turnId.int ∧
      Begun m ctx previous c' := by
  unfold beginTurn at h
  split at h
  · cases h
  rename_i old hstate
  obtain ⟨rfl, hbelongs⟩ := stateOf_ok hstate
  refine ⟨hbelongs, ?_⟩
  unfold beginFrom at h
  split at h
  · cases h
  rename_i hseen
  refine ⟨by omega, ?_⟩
  split at h
  · rename_i hlimit
    cases hold : old with
    | none =>
      rw [hold] at hlimit
      cases hlimit
    | some c =>
      rw [hold] at h hlimit
      simp only [Option.any_some, Bool.and_eq_true, decide_eq_true_eq] at hlimit
      cases h
      exact .blocked hlimit.1 hlimit.2
  rename_i hlimit
  have hlimit' : ∀ o, old = some o → o.pending = true →
      o.provenance.length < MAX_PROVENANCE_TURNS := by
    intro o ho hp
    simp only [ho, Option.any_some, hp, Bool.true_and, decide_eq_true_eq] at hlimit
    omega
  split at h
  · cases h
  · rename_i type _
    cases hs : startTurn sha256 m ctx old none with
    | error e => rw [hs] at h; cases h
    | ok c =>
      rw [hs] at h
      cases h
      exact .failed type (startTurn_ok hs) hlimit'
  · rename_i s _
    cases hs : startTurn sha256 m ctx old (some (s.reference ctx)) with
    | error e => rw [hs] at h; cases h
    | ok c =>
      rw [hs] at h
      cases h
      exact .started s (startTurn_ok hs) hlimit'

/-- The state after an action may be a continuation of a finished review. -/
inductive Continued (ctx : TurnContext) (c : Checkpoint F) : Checkpoint F → Prop where
  | same : (c.spent = true → c.outstanding = true) → Continued ctx c c
  | fresh (s : Captured) : c.spent = true → c.outstanding = false →
      Continued ctx c { c with
        baseline := some (s.reference ctx)
        actions := []
        observedSnapshot := some (s.reference ctx)
        carryOmissions := [] }

/-- The state after looking at the worktree, or not. -/
inductive Observed (ctx : TurnContext) (c : Checkpoint F) : Checkpoint F → Prop where
  | same : Observed ctx c c
  | seen (s : Captured) : Observed ctx c { c with observedSnapshot := some (s.reference ctx) }
  | unseen (omissions : List String) : Observed ctx c { c with carryOmissions := omissions }

/-- The states `record_action` can save. -/
inductive Recorded (m : Moment) (ctx : TurnContext) (action : Action F) (c : Checkpoint F) :
    Checkpoint F → Prop where
  | reconfigured : Recorded m ctx action c
      ((c.pend .unavailable "configuration_changed").stamp m)
  | denied : action.phase = .denied → Recorded m ctx action c
      ({ c with
        actions := c.actions.filter fun row =>
          !(row.id == action.id && row.turnId == action.turnId) }.stamp m)
  | kept {b o : Checkpoint F} : c.resetRequested = false → c.blockedUntilTurn = none →
      c.actions.any (·.is action.phase action.turnId action.id) = false →
      Continued ctx c b → Observed ctx (keepAction action (afterReview b)) o →
      Recorded m ctx action c (o.stamp m)

omit [PyFloatText F] in
theorem continueFrom_ok (h : continueFrom ctx boundary c = .ok c') : Continued ctx c c' := by
  unfold continueFrom at h
  split at h
  · rename_i hspent
    rw [Bool.and_eq_true, Bool.not_eq_true'] at hspent
    split at h
    · cases h
    · cases h
      exact .fresh _ hspent.1 hspent.2
  · rename_i hspent
    cases h
    refine .same fun hs => ?_
    simpa [hs] using hspent

omit [PyFloatText F] in
theorem observe_ok (h : observe m ctx action c = .ok c') : Observed ctx c c' := by
  unfold observe at h
  split at h
  · split at h
    · cases h
      exact .seen _
    · cases h
      exact .unseen _
    · cases h
  · cases h
    exact .same

omit [PyFloatText F] in
theorem recordAction_ok (h : recordAction m boundary ctx action previous = .ok (some c')) :
    ∃ c, previous = some c ∧ c.Belongs ctx ∧ c.isCurrent ctx = true ∧
      Recorded m ctx action c c' := by
  unfold recordAction at h
  split at h
  · cases h
  rename_i old hstate
  obtain ⟨rfl, hbelongs⟩ := stateOf_ok hstate
  cases old with
  | none => cases h
  | some c =>
    refine ⟨c, rfl, hbelongs c rfl, ?_⟩
    simp only [recordFrom] at h
    split at h
    · cases h
    rename_i hcurrent
    refine ⟨by simpa using hcurrent, ?_⟩
    split at h
    · cases h
      exact .reconfigured
    split at h
    · cases h
    rename_i hopen
    split at h
    · rename_i hdenied
      cases h
      exact .denied hdenied
    split at h
    · cases h
    rename_i hnew
    split at h
    · cases h
    · rename_i b hb
      cases ho : observe m ctx action (keepAction action (afterReview b)) with
      | error e => rw [ho] at h; cases h
      | ok o =>
        rw [ho] at h
        cases h
        simp only [Bool.or_eq_true, not_or, Bool.not_eq_true, Option.isSome_eq_false_iff,
          Option.isNone_iff_eq_none] at hopen
        exact .kept hopen.1 hopen.2 (Bool.eq_false_iff.mpr hnew) (continueFrom_ok hb)
          (observe_ok ho)

/-- The state after another Stop of a turn whose allowance is spent. -/
structure StoppedAgain (ctx : TurnContext) (c c' : Checkpoint F) : Prop where
  frame : c' = { c with
    status := c'.status
    reason := c'.reason
    outstanding := c'.outstanding
    observedSnapshot := c'.observedSnapshot }
  status : c'.status = c.status ∧ c'.outstanding = c.outstanding ∨
    (c'.status = .incomplete ∨ c'.status = .unreviewed) ∧ c'.outstanding = true
  observed : c'.observedSnapshot = c.observedSnapshot ∨
    ∃ s : Captured, c'.observedSnapshot = some (s.reference ctx)

omit [PyFloatText F] in
theorem stopAgain_ok (h : stopAgain m ctx c = .ok c') : StoppedAgain ctx c c' := by
  have hunfinished : unfinished c = c ∨
      unfinished c = c.pend .incomplete "reserved_without_completed_review" := by
    unfold unfinished
    split
    · exact .inr rfl
    · exact .inl rfl
  unfold stopAgain at h
  split at h
  · cases h
    rcases hunfinished with h | h
    all_goals
      rw [h]
      exact ⟨rfl, .inr ⟨.inl rfl, rfl⟩, .inl rfl⟩
  split at h
  · cases h
  rename_i s _
  cases h
  unfold recheck
  split
  · rcases hunfinished with h | h
    all_goals
      rw [h]
      exact ⟨rfl, .inr ⟨.inr rfl, rfl⟩, .inr ⟨s, rfl⟩⟩
  split
  · rcases hunfinished with h | h
    all_goals
      rw [h]
      exact ⟨rfl, .inr ⟨.inr rfl, rfl⟩, .inr ⟨s, rfl⟩⟩
  · rcases hunfinished with h | h
    · rw [h]
      exact ⟨rfl, .inl ⟨rfl, rfl⟩, .inr ⟨s, rfl⟩⟩
    · rw [h]
      exact ⟨rfl, .inr ⟨.inl rfl, rfl⟩, .inr ⟨s, rfl⟩⟩

/-- What a Stop can make of the evidence. -/
inductive Assessed (sha256 : List Char → Hex 64) (m : Moment) (ctx : TurnContext)
    (attempt : Hex 32) (now : SnapshotRef) (evidence : Evidence F) (c : Checkpoint F) :
    Reserved F → Prop where
  | excluded : Assessed sha256 m ctx attempt now evidence c
      (answer .unavailable (some "incomplete_evidence")
        (some ({ exclude c c .partialEvidence with
          status := .unavailable
          reason := some "incomplete_evidence"
          outstanding := false }.stamp m)))
  | noChanges : c.actions.any (·.isOutcome) = false → c.outstanding = false →
      Assessed sha256 m ctx attempt now evidence c
        ⟨{ status := .noChanges, complete := true },
          some ({ c with
            status := .noChanges
            reason := some "complete_unchanged_turn"
            reviewed := some now }.stamp m), none⟩
  | noPlan : Assessed sha256 m ctx attempt now evidence c
      (answer .unavailable (some "plan_unavailable")
        (some ((c.pend .unavailable "plan_unavailable").stamp m)))
  | reserved (planDigest : Hex 64) : Assessed sha256 m ctx attempt now evidence c
      ⟨{ status := .incomplete, reason := some "reserved_without_completed_review" },
        some ((c.reserved sha256 ctx attempt planDigest now evidence).stamp m),
        some (c.reserved sha256 ctx attempt planDigest now evidence)⟩

theorem assess_cases (now : SnapshotRef) (evidence : Evidence F) (c : Checkpoint F) :
    Assessed sha256 m ctx attempt now evidence c
      (assess sha256 m ctx plan attempt now evidence c) := by
  unfold assess
  split
  · exact .excluded
  split
  · rename_i h
    simp only [Bool.and_eq_true, Bool.not_eq_true'] at h
    exact .noChanges h.1.2 h.2
  split
  · exact .noPlan
  · exact .reserved _

/-- What `reserve` can leave behind. -/
inductive Reserving (sha256 : List Char → Hex 64) (m : Moment) (ctx : TurnContext)
    (attempt : Hex 32) : Option (Checkpoint F) → Reserved F → Prop where
  | refused (old : Option (Checkpoint F)) (reason : Option String) :
      Reserving sha256 m ctx attempt old (answer .unavailable reason none)
  | missing (old : Option (Checkpoint F)) :
      (∀ c, old = some c → c.watermark < ctx.turnId.int) →
      (∀ c, old = some c → c.resetRequested = false ∧ c.blockedUntilTurn = none) →
      Reserving sha256 m ctx attempt old
        (answer .unavailable (some "missing_turn_start") (some ((missingTurn ctx old).stamp m)))
  | reconfigured {c : Checkpoint F} : c.isCurrent ctx = true →
      Reserving sha256 m ctx attempt (some c)
        (answer .unavailable (some "configuration_changed")
          (some ((c.pend .unavailable "configuration_changed").stamp m)))
  | again {c o : Checkpoint F} : c.isCurrent ctx = true → c.spent = true →
      StoppedAgain ctx c o →
      Reserving sha256 m ctx attempt (some c) (answer o.status o.reason (some (o.stamp m)))
  | assessed {c : Checkpoint F} {r : Reserved F} {baseline : SnapshotRef} (s : Captured)
      (evidence : Evidence F) :
      compare m.storage baseline (s.reference ctx) c.actions = .ok evidence →
      c.isCurrent ctx = true → c.spent = false → c.configDigest = ctx.configDigest →
      c.resetRequested = false → c.blockedUntilTurn = none →
      Assessed sha256 m ctx attempt (s.reference ctx) (gather c evidence)
        (c.examined (s.reference ctx) (gather c evidence)) r →
      Reserving sha256 m ctx attempt (some c) r

theorem reserve_ok {r : Reserved F} (h : reserve sha256 m ctx plan attempt previous = .ok r) :
    (∀ c, previous = some c → c.Belongs ctx) ∧ Reserving sha256 m ctx attempt previous r := by
  unfold reserve at h
  split at h
  · cases h
  rename_i old hstate
  obtain ⟨rfl, hbelongs⟩ := stateOf_ok hstate
  refine ⟨hbelongs, ?_⟩
  cases old with
  | none =>
    cases h
    exact .missing none (fun c hc => by cases hc) (fun c hc => by cases hc)
  | some c =>
    simp only [reserveFrom] at h
    split at h
    · cases h
      exact .refused _ _
    rename_i hopen
    simp only [Bool.or_eq_true, not_or, Bool.not_eq_true, Option.isSome_eq_false_iff,
      Option.isNone_iff_eq_none] at hopen
    split at h
    · split at h
      · rename_i hlater
        cases h
        refine .missing (some c) (fun d hd => ?_) (fun d hd => ?_)
        · cases hd
          exact hlater
        · cases hd
          exact hopen
      · cases h
        exact .refused _ _
    rename_i hcurrent
    have hcurrent : c.isCurrent ctx = true := by simpa using hcurrent
    split at h
    · cases h
      exact .reconfigured hcurrent
    rename_i hconfig
    split at h
    · rename_i hspent
      cases ho : stopAgain m ctx c with
      | error e => rw [ho] at h; cases h
      | ok o =>
        rw [ho] at h
        cases h
        exact .again hcurrent hspent (stopAgain_ok ho)
    rename_i hspent
    split at h
    · split at h
      · cases h
      rename_i s _
      split at h
      · cases h
      rename_i evidence hcompare
      cases h
      exact .assessed s evidence hcompare hcurrent (Bool.eq_false_iff.mpr hspent)
        (not_not.mp hconfig) hopen.1 hopen.2 (assess_cases _ _ _)
    · cases h
      exact .refused _ _

omit [PyFloatText F] in
theorem resetReview_ok {apply : Bool} (h : resetReview m apply previous = some c') :
    ∃ c, previous = some c ∧
      c' = { c.pend .unavailable "operator_reset" with resetRequested := true }.stamp m := by
  cases previous with
  | none => cases h
  | some c =>
    simp only [resetReview] at h
    split at h
    · cases h
      exact ⟨c, rfl, rfl⟩
    · cases h

omit [PyFloatText F] in
theorem saveResult_ok (h : saveResult m ctx frozen result previous = .ok (some c')) :
    ∃ c, previous = some c ∧ c.Belongs ctx ∧ c.holds ctx frozen = true ∧
      c' = (c.decided result).stamp m := by
  unfold saveResult at h
  split at h
  · cases h
  · cases h
  rename_i c hstate
  obtain ⟨hprevious, hbelongs⟩ := stateOf_ok hstate
  split at h
  · rename_i hholds
    cases h
    exact ⟨c, hprevious.symm, hbelongs c hprevious.symm, hholds, rfl⟩
  · cases h

omit [PyFloatText F] in
theorem finish_ok {failed stale : Bool} {saved : Option (Checkpoint F)} {outcome : StopOutcome F}
    (h : finish m ctx failed stale frozen result previous = .ok (saved, outcome)) :
    (saved = none ∧ outcome.correction = false ∧ outcome.complete = false) ∨
    ∃ c, previous = some c ∧ c.Belongs ctx ∧ c.holds ctx frozen = true ∧
      saved = some ((conclude failed stale frozen result (c.decided result)).1.stamp m) ∧
      outcome = (conclude failed stale frozen result (c.decided result)).2 := by
  unfold finish at h
  split at h
  · cases h
  · cases h
    exact .inl ⟨rfl, rfl, rfl⟩
  rename_i c hstate
  obtain ⟨hprevious, hbelongs⟩ := stateOf_ok hstate
  split at h
  · rename_i hholds
    cases h
    exact .inr ⟨c, hprevious.symm, hbelongs c hprevious.symm, hholds, rfl, rfl⟩
  · cases h
    exact .inl ⟨rfl, rfl, rfl⟩

/-- The states and outcomes of a completed review. -/
inductive Concluded (failed stale : Bool) (frozen : Checkpoint F) (result : SupervisorRun F)
    (c : Checkpoint F) : Checkpoint F × StopOutcome F → Prop where
  | ended : c.resetRequested = true ∨ c.blockedUntilTurn.isSome = true →
      Concluded failed stale frozen result c
        (c, { status := .unavailable, reason := some c.stopReason })
  | unsettled (status : Status) (reason : String) : status ∈ [Status.unavailable, .unreviewed] →
      Concluded failed stale frozen result c
        (c.pend status reason, { status := status, reason := some reason })
  | inPart : Concluded failed stale frozen result c
      ({ exclude c c .partialEvidence with
          status := .partialReview
          reason := some "incomplete_evidence"
          outstanding := false },
        { status := .partialReview, reason := some "incomplete_evidence",
          decision := some result.decision })
  | reviewed : c.resetRequested = false → c.blockedUntilTurn = none →
      failed = false → stale = false → result.conclusive = true →
      frozen.evidence.any (·.complete) = true →
      Concluded failed stale frozen result c
        ({ c with
            status := .reviewed
            reason := none
            outstanding := result.decision.decision == .deny
            correctionConsumed := result.decision.decision == .deny },
          { status := .reviewed, decision := some result.decision,
            correction := result.decision.decision == .deny, complete := true })

omit [PyFloatText F] in
theorem conclude_cases (failed stale : Bool) (frozen : Checkpoint F) (result : SupervisorRun F)
    (c : Checkpoint F) :
    Concluded failed stale frozen result c (conclude failed stale frozen result c) := by
  unfold conclude
  split
  · rename_i h
    exact .ended (by simpa using h)
  rename_i hopen
  simp only [Bool.or_eq_true, not_or, Bool.not_eq_true, Option.isSome_eq_false_iff,
    Option.isNone_iff_eq_none] at hopen
  split
  · exact .unsettled _ _ (by simp)
  rename_i hfailed
  split
  · exact .unsettled _ _ (by simp)
  rename_i hstale
  split
  · exact .unsettled _ _ (by simp)
  rename_i hconclusive
  split
  · exact .inPart
  · rename_i hcomplete
    exact .reviewed hopen.1 hopen.2 (by simpa using hfailed) (by simpa using hstale)
      (by simpa using hconclusive) (by simpa using hcomplete)

/-! ## 7. What an open turn lets a step do -/

/-- The checkpoint of a turn that has its allowance. -/
structure Checkpoint.Open (c : Checkpoint F) (ctx : TurnContext) : Prop where
  belongs : c.Belongs ctx
  current : c.isCurrent ctx = true
  config : c.configDigest = ctx.configDigest
  reset : c.resetRequested = false
  blocked : c.blockedUntilTurn = none
  spent : c.spent = false

omit [PyFloatText F] in
theorem stateOf_belongs (h : c.Belongs ctx) : stateOf ctx (some c) = .ok (some c) := by
  obtain ⟨hid, hroot, hcheckout⟩ := h
  simp [stateOf, hid, hroot, hcheckout]

/-- A first prompt opens its turn. -/
theorem beginTurn_first {s : Captured} (hcapture : m.capture = .ok s) :
    beginTurn sha256 m ctx (none : Option (Checkpoint F))
      = .ok (some (((newState ctx (some (s.reference ctx))).inherit none).stamp m)) := by
  have hlater : ¬ ctx.turnId.int ≤ 0 := Nat.not_le.mpr ctx.turnId.int_pos
  show beginFrom sha256 m ctx none = _
  unfold beginFrom
  rw [lastSeen, if_neg hlater, hcapture]
  rfl

theorem rebasePending_total (sha256 : List Char → Hex 64) {st : Storage}
    (hloads : ∀ ref, ∃ manifest, st.load ref = .ok manifest)
    (baseline observed current : SnapshotRef) :
    ∃ r, rebasePending (F := F) sha256 st baseline observed current = .ok r := by
  obtain ⟨before, hbefore⟩ := hloads baseline
  obtain ⟨finish, hfinish⟩ := hloads observed
  obtain ⟨start, hstart⟩ := hloads current
  simp only [rebasePending, hbefore, hfinish, hstart, bind, Except.bind, pure, Except.pure,
    Except.ok.injEq, exists_eq']

theorem startTurn_total (sha256 : List Char → Hex 64) (ctx : TurnContext)
    (hloads : ∀ ref, ∃ manifest, m.storage.load ref = .ok manifest)
    (old : Option (Checkpoint F)) (current : Option SnapshotRef) :
    ∃ c', startTurn sha256 m ctx old current = .ok c' := by
  unfold startTurn
  cases old with
  | none => exact ⟨_, rfl⟩
  | some o =>
    simp only
    split
    · exact ⟨_, rfl⟩
    split
    · split
      · rename_i now baseline observed _ _
        obtain ⟨r, hr⟩ := rebasePending_total (F := F) sha256 hloads baseline observed now
        simp only [hr]
        exact ⟨_, rfl⟩
      · exact ⟨_, rfl⟩
    · split
      · rename_i now observed _
        obtain ⟨r, hr⟩ := rebasePending_total (F := F) sha256 hloads observed observed now
        simp only [hr]
        exact ⟨_, rfl⟩
      · exact ⟨_, rfl⟩

/-- A later prompt begins its turn, where the snapshots can be read. -/
theorem beginTurn_next (sha256 : List Char → Hex 64) (h : c.Belongs ctx)
    (hseen : lastSeen (some c) < ctx.turnId.int) (hlimit : c.provenance.length < MAX_PROVENANCE_TURNS)
    (hloads : ∀ ref, ∃ manifest, m.storage.load ref = .ok manifest) {s : Captured}
    (hcapture : m.capture = .ok s) : ∃ c', beginTurn sha256 m ctx (some c) = .ok (some c') := by
  obtain ⟨c', hstart⟩ := startTurn_total sha256 ctx hloads (some c)
    (some (s.reference ctx))
  refine ⟨c'.stamp m, ?_⟩
  unfold beginTurn
  rw [stateOf_belongs h]
  show beginFrom sha256 m ctx (some c) = _
  unfold beginFrom
  rw [if_neg (Nat.not_le.mpr hseen), if_neg (by simp [hlimit]), hcapture]
  simp only [hstart]
  rfl

omit [PyFloatText F] in
/-- An outcome in an open turn is stored. -/
theorem recordAction_open (h : c.Open ctx) (hphase : action.phase = .outcome)
    (hnew : c.actions.any (·.is action.phase action.turnId action.id) = false)
    (hroom : c.actions.length < MAX_ACTIONS) {s : Captured} (hcapture : m.capture = .ok s) :
    recordAction m boundary ctx action (some c)
      = .ok (some ({ c with
          actions := c.actions ++ [action]
          observedSnapshot := some (s.reference ctx) }.stamp m)) := by
  have hdenied : ¬ action.phase = .denied := by simp [hphase]
  have hcontinue : continueFrom ctx boundary c = .ok c := by simp [continueFrom, h.spent]
  have hafter : afterReview c = c := by simp [afterReview, h.spent]
  have hkeep : keepAction action c = { c with actions := c.actions ++ [action] } := by
    unfold keepAction
    rw [if_neg (Nat.not_le.mpr hroom)]
  have hobserve : ∀ d : Checkpoint F, observe m ctx action d
      = .ok { d with observedSnapshot := some (s.reference ctx) } := by
    intro d
    simp [observe, Action.isOutcome, hphase, hcapture]
  unfold recordAction
  rw [stateOf_belongs h.belongs]
  show recordFrom m boundary ctx action (some c) = _
  simp only [recordFrom]
  rw [if_neg (by simp [h.current]), if_neg (not_not.mpr h.config),
    if_neg (by simp [h.reset, h.blocked]), if_neg hdenied, if_neg (by simp [hnew]), hcontinue]
  show (observe m ctx action (keepAction action (afterReview c))).map _ = _
  rw [hafter, hkeep, hobserve]
  rfl

/-- A Stop of an open turn assesses its evidence. -/
theorem reserve_open (h : c.Open ctx) (hreason : c.reason ≠ some "configuration_changed")
    {baseline : SnapshotRef} (hbaseline : c.baseline = some baseline) {s : Captured}
    (hcapture : m.capture = .ok s) {evidence : Evidence F}
    (hcompare : compare m.storage baseline (s.reference ctx) c.actions = .ok evidence) :
    reserve sha256 m ctx plan attempt (some c)
      = .ok (assess sha256 m ctx plan attempt (s.reference ctx) (gather c evidence)
          (c.examined (s.reference ctx) (gather c evidence))) := by
  unfold reserve
  rw [stateOf_belongs h.belongs]
  show reserveFrom sha256 m ctx plan attempt (some c) = _
  simp only [reserveFrom]
  rw [if_neg (by simp [h.reset, h.blocked]), if_neg (by simp [h.current]),
    if_neg (not_not.mpr h.config), if_neg (by simp [h.spent]), hbaseline,
    decide_eq_false hreason]
  simp only [hcapture, hcompare]

end MultiForge.Policy
