/-
MultiForge.Policy.ReviewRuns — the Stop reviews of a session, over time.

Any number of processes replace the checkpoint, one step at a time, in any
order: prompts, tool events, resets, and reviewers that reserve, dispatch,
save, complete and finish, or die in between. Every step reads what it
likes. `dispatches` and `returned` are what the world has seen of the
reviewers, `reservations` the turns that were reserved; `stored` lists the
outcomes that a checkpoint has taken in, and which of them an assessment
has covered.

`stopReview_once` is the contract of the allowance: at most one dispatch
and at most one correction for each turn, corrections only for complete
evidence that has not changed, and no second allowance for a turn that the
checkpoint has seen.
-/
import MultiForge.Lib.OneShot
import MultiForge.Policy.StopReview

namespace MultiForge.Policy

variable {π F : Type} [DecidableEq π] [PyFloatText F]

/-! ## 1. The world -/

/-- Where a review that has a reservation is. -/
inductive Stage (F : Type) where
  | reserved
  | judged (result : SupervisorRun F)
  | saved (result : SupervisorRun F)
  | completed (result : SupervisorRun F) (reads : Completion) (failed stale : Bool)

/-- The owner of a reservation. -/
structure Reviewer (F : Type) where
  ctx : TurnContext
  plan : PlanSnapshot
  /-- the checkpoint as it was reserved -/
  frozen : Checkpoint F
  /-- how many outcomes had been stored then -/
  mark : Nat
  stage : Stage F

/-- An outcome that `review_stop` has returned, with the reservation and
the completion it rests on. -/
structure Returned (F : Type) where
  ctx : TurnContext
  outcome : StopOutcome F
  review : Option (PlanSnapshot × Checkpoint F × Completion)

/-- An outcome action that `record_action` has stored. -/
structure Stored where
  turn : NativeId
  id : String
  assessed : Bool

structure World (π F : Type) where
  checkpoint : Option (Checkpoint F)
  reviewers : π → Option (Reviewer F)
  /-- the threads and turns of the calls of `run_supervisor_check` -/
  dispatches : List (NativeId × NativeId)
  returned : List (Returned F)
  reservations : List NativeId
  stored : List Stored

def World.init : World π F := ⟨none, fun _ => none, [], [], [], []⟩

/-- What a step saves, if it does. -/
def World.save (w : World π F) (saved : Option (Checkpoint F)) : World π F :=
  { w with checkpoint := saved.or w.checkpoint }

def World.setReviewer (w : World π F) (p : π) (r : Option (Reviewer F)) : World π F :=
  { w with reviewers := fun q => if q = p then r else w.reviewers q }

def World.answer (w : World π F) (r : Returned F) : World π F :=
  { w with returned := w.returned ++ [r] }

/-- Has an action been stored that was not there before? -/
def storesOutcome (action : Action F) (previous saved : Option (Checkpoint F)) : Bool :=
  action.isOutcome
    && saved.any (·.actions.any (·.is .outcome action.turnId action.id))
    && !previous.any (·.actions.any (·.is .outcome action.turnId action.id))

/-- The outcomes after an action was recorded. -/
def World.noteAction (w : World π F) (action : Action F) (saved : Option (Checkpoint F)) :
    World π F :=
  if storesOutcome action w.checkpoint saved then
    { w with stored := w.stored ++ [⟨action.turnId, action.id, false⟩] }
  else w

/-- Mark the outcomes of some turns as assessed, among the first ones. -/
def assessFirst : Nat → List NativeId → List Stored → List Stored
  | n + 1, turns, s :: rest =>
      { s with assessed := s.assessed || decide (s.turn ∈ turns) } :: assessFirst n turns rest
  | _, _, rest => rest

/-- A complete assessment covers the outcomes of its turns that had been
stored when its evidence was taken. -/
def World.noteAssessment (w : World π F) (outcome : StopOutcome F) (mark : Nat)
    (c : Option (Checkpoint F)) : World π F :=
  if outcome.complete then
    { w with stored := assessFirst mark ((c.map (·.provenance)).getD []) w.stored }
  else w

section Notes

variable (w : World π F) (action : Action F) (saved : Option (Checkpoint F))
  (outcome : StopOutcome F) (mark : Nat)

omit [DecidableEq π] [PyFloatText F]

theorem noteAction_eq : w.noteAction action saved
    = { w with stored := (w.noteAction action saved).stored } := by
  unfold World.noteAction
  split <;> rfl

theorem noteAssessment_eq : w.noteAssessment outcome mark saved
    = { w with stored := (w.noteAssessment outcome mark saved).stored } := by
  unfold World.noteAssessment
  split <;> rfl

end Notes

/-! ## 2. Steps -/

variable (sha256 : List Char → Hex 64)

/-- What a process does in a step. -/
inductive Call (π F : Type) where
  | beginTurn (ctx : TurnContext)
  | recordAction (ctx : TurnContext) (action : Action F)
  | resetReview
  | stop (ctx : TurnContext)
  | reserve (p : π) (ctx : TurnContext)
  | dispatch (p : π)
  | saveResult (p : π)
  | complete (p : π)
  | finish (p : π)
  | die (p : π)

/-- One step of some process. A step that raises changes nothing, and a
reviewer that raises dies. -/
inductive Step (w : World π F) : Call π F → World π F → Prop where
  | beginTurn (m : Moment) (ctx : TurnContext) {saved : Option (Checkpoint F)} :
      beginTurn sha256 m ctx w.checkpoint = .ok saved →
      Step w (.beginTurn ctx) (w.save saved)
  | recordAction (m : Moment) (boundary : Except Failure Captured) (ctx : TurnContext)
      (action : Action F) {saved : Option (Checkpoint F)} : action.turnId = ctx.turnId →
      recordAction m boundary ctx action w.checkpoint = .ok saved →
      Step w (.recordAction ctx action) ((w.noteAction action saved).save saved)
  | resetReview (m : Moment) (apply : Bool) :
      Step w .resetReview (w.save (resetReview m apply w.checkpoint))
  | stop (m : Moment) (ctx : TurnContext) (plan : PlanSnapshot) (attempt : Hex 32)
      {outcome : StopOutcome F} {saved : Option (Checkpoint F)} :
      reserve sha256 m ctx plan attempt w.checkpoint = .ok ⟨outcome, saved, none⟩ →
      Step w (.stop ctx) (((w.noteAssessment outcome w.stored.length saved).save saved).answer
        ⟨ctx, outcome, none⟩)
  | reserve (p : π) (m : Moment) (ctx : TurnContext) (plan : PlanSnapshot) (attempt : Hex 32)
      {outcome : StopOutcome F} {saved : Option (Checkpoint F)} {frozen : Checkpoint F} :
      w.reviewers p = none →
      reserve sha256 m ctx plan attempt w.checkpoint = .ok ⟨outcome, saved, some frozen⟩ →
      Step w (.reserve p ctx)
        { (w.save saved).setReviewer p (some ⟨ctx, plan, frozen, w.stored.length, .reserved⟩)
          with reservations := w.reservations ++ [ctx.turnId] }
  | dispatch (p : π) {r : Reviewer F} (result : SupervisorRun F) :
      w.reviewers p = some r → r.stage = .reserved →
      Step w (.dispatch p)
        { w.setReviewer p (some { r with stage := .judged result })
          with dispatches := w.dispatches ++ [(r.ctx.threadId, r.ctx.turnId)] }
  | saveResult (p : π) {r : Reviewer F} {result : SupervisorRun F} (m : Moment)
      {saved : Option (Checkpoint F)} :
      w.reviewers p = some r → r.stage = .judged result →
      saveResult m r.ctx r.frozen result w.checkpoint = .ok saved →
      Step w (.saveResult p)
        ((w.save saved).setReviewer p (some { r with stage := .saved result }))
  | complete (p : π) {r : Reviewer F} {result : SupervisorRun F} (reads : Completion)
      {failed stale : Bool} :
      w.reviewers p = some r → r.stage = .saved result →
      reads.judge r.ctx r.plan r.frozen = .ok (failed, stale) →
      Step w (.complete p)
        (w.setReviewer p (some { r with stage := .completed result reads failed stale }))
  | finish (p : π) {r : Reviewer F} {result : SupervisorRun F} {reads : Completion}
      {failed stale : Bool} (m : Moment) {saved : Option (Checkpoint F)}
      {outcome : StopOutcome F} :
      w.reviewers p = some r → r.stage = .completed result reads failed stale →
      finish m r.ctx failed stale r.frozen result w.checkpoint = .ok (saved, outcome) →
      Step w (.finish p)
        ((((w.noteAssessment outcome r.mark saved).save saved).setReviewer p none).answer
          ⟨r.ctx, outcome, some (r.plan, r.frozen, reads)⟩)
  | die (p : π) : Step w (.die p) (w.setReviewer p none)

/-- Any number of steps. -/
inductive Run : World π F → World π F → Prop where
  | refl (w : World π F) : Run w w
  | step {w v u : World π F} {call : Call π F} : Run w v → Step sha256 v call u → Run w u

/-! ## 3. The turn of a checkpoint -/

section Turns

variable {sha256} {m : Moment} {ctx : TurnContext} {plan : PlanSnapshot} {attempt : Hex 32}
  {boundary : Except Failure Captured} {action : Action F} {frozen : Checkpoint F}
  {result : SupervisorRun F} {previous : Option (Checkpoint F)} {c c' : Checkpoint F}

/-- The same turn goes on. -/
structure SameTurn (c c' : Checkpoint F) : Prop where
  turn : c'.turnId = c.turnId
  thread : c'.threadId = c.threadId
  watermark : c'.watermark = c.watermark
  seen : lastSeen (some c) ≤ lastSeen (some c')

/-- A turn newer than any the old checkpoint has seen, with its allowance. -/
structure NewTurn (old : Option (Checkpoint F)) (c' : Checkpoint F) : Prop where
  spent : c'.spent = false
  watermark : c'.watermark = c'.turnId.int
  seen : lastSeen old < c'.turnId.int

/-- What a step that reserves nothing does to the turn. -/
inductive Follows : Option (Checkpoint F) → Checkpoint F → Prop where
  | same {c c' : Checkpoint F} : SameTurn c c' → c'.spent = c.spent → Follows (some c) c'
  | new {old : Option (Checkpoint F)} {c' : Checkpoint F} : NewTurn old c' → Follows old c'

omit [PyFloatText F] in
theorem Started.turn {current : Option SnapshotRef} {old : Option (Checkpoint F)}
    (h : Started ctx current old c) :
    c.spent = false ∧ c.watermark = ctx.turnId.int ∧ c.turnId = ctx.turnId := by
  cases h with
  | first => exact ⟨rfl, rfl, rfl⟩
  | reset => exact ⟨rfl, rfl, rfl⟩
  | carried r =>
    unfold carry
    split
    · exact ⟨rfl, rfl, rfl⟩
    · exact ⟨rfl, rfl, rfl⟩
  | unobserved => exact ⟨rfl, rfl, rfl⟩
  | settled => exact ⟨rfl, rfl, rfl⟩

omit [PyFloatText F] in
/-- The turn of a prompt within the limit. -/
theorem Begun.turn {old : Option (Checkpoint F)} (h : Begun m ctx old c')
    (hlimit : ∀ o, old = some o → o.provenance.length < MAX_PROVENANCE_TURNS) :
    c'.turnId = ctx.turnId := by
  cases h with
  | @blocked o _ hmax => exact absurd hmax (Nat.not_le.mpr (hlimit o rfl))
  | failed type hs => exact hs.turn.2.2
  | started s hs => exact hs.turn.2.2

theorem beginTurn_follows (h : beginTurn sha256 m ctx previous = .ok (some c')) :
    Follows previous c' := by
  obtain ⟨-, hseen, hbegun⟩ := beginTurn_ok h
  cases hbegun with
  | @blocked old hpending _ =>
    refine .same ⟨rfl, rfl, rfl, ?_⟩ rfl
    exact hseen.le.trans (Nat.le_max_right old.watermark ctx.turnId.int)
  | failed type hs =>
    obtain ⟨hspent, hmark, hturn⟩ := hs.turn
    refine .new ⟨hspent, ?_, ?_⟩
    · exact hmark.trans (congrArg NativeId.int hturn).symm
    · exact hseen.trans_eq (congrArg NativeId.int hturn).symm
  | started s hs =>
    obtain ⟨hspent, hmark, hturn⟩ := hs.turn
    refine .new ⟨hspent, ?_, ?_⟩
    · exact hmark.trans (congrArg NativeId.int hturn).symm
    · exact hseen.trans_eq (congrArg NativeId.int hturn).symm

/-- What recording an action leaves alone. -/
structure SameScope (c c' : Checkpoint F) : Prop where
  turn : c'.turnId = c.turnId
  thread : c'.threadId = c.threadId
  watermark : c'.watermark = c.watermark
  blocked : c'.blockedUntilTurn = c.blockedUntilTurn
  spent : c'.spent = c.spent
  provenance : c'.provenance = c.provenance
  attempt : c'.attemptId = c.attemptId
  work : c'.excludedWork = c.excludedWork
  excluded : c'.excludedTurns = c.excludedTurns

omit [PyFloatText F] in
theorem keepAction_scope (action : Action F) (c : Checkpoint F) :
    SameScope c (keepAction action (afterReview c)) := by
  unfold keepAction afterReview
  split <;> split <;> exact ⟨rfl, rfl, rfl, rfl, rfl, rfl, rfl, rfl, rfl⟩

omit [PyFloatText F] in
theorem Recorded.scope (h : Recorded m ctx action c c') : SameScope c c' := by
  cases h with
  | reconfigured => exact ⟨rfl, rfl, rfl, rfl, rfl, rfl, rfl, rfl, rfl⟩
  | denied => exact ⟨rfl, rfl, rfl, rfl, rfl, rfl, rfl, rfl, rfl⟩
  | @kept b o _ _ _ hb ho =>
    obtain ⟨hturn, hthread, hmark, hblocked, hspent, hprov, hattempt, hwork, hexcluded⟩ :=
      keepAction_scope action b
    cases hb with
    | same =>
      cases ho <;> exact ⟨hturn, hthread, hmark, hblocked, hspent, hprov, hattempt, hwork, hexcluded⟩
    | fresh =>
      cases ho <;> exact ⟨hturn, hthread, hmark, hblocked, hspent, hprov, hattempt, hwork, hexcluded⟩

omit [PyFloatText F] in
theorem recordAction_follows (h : recordAction m boundary ctx action previous = .ok (some c')) :
    Follows previous c' := by
  obtain ⟨c, rfl, -, -, hr⟩ := recordAction_ok h
  have hscope := hr.scope
  refine .same ⟨hscope.turn, hscope.thread, hscope.watermark, ?_⟩ hscope.spent
  rw [lastSeen, lastSeen, hscope.watermark, hscope.blocked, hscope.turn]

omit [PyFloatText F] in
theorem resetReview_follows {apply : Bool} (h : resetReview m apply previous = some c') :
    Follows previous c' := by
  obtain ⟨c, rfl, rfl⟩ := resetReview_ok h
  exact .same ⟨rfl, rfl, rfl, le_rfl⟩ rfl

omit [PyFloatText F] in
theorem saveResult_follows (h : saveResult m ctx frozen result previous = .ok (some c')) :
    Follows previous c' := by
  obtain ⟨c, rfl, -, -, rfl⟩ := saveResult_ok h
  exact .same ⟨rfl, rfl, rfl, le_rfl⟩ rfl

omit [PyFloatText F] in
theorem finish_follows {failed stale : Bool} {outcome : StopOutcome F}
    (h : finish m ctx failed stale frozen result previous = .ok (some c', outcome)) :
    Follows previous c' := by
  rcases finish_ok h with ⟨hnone, -⟩ | ⟨c, rfl, -, -, hsaved, -⟩
  · cases hnone
  · cases hsaved
    have hc := conclude_cases failed stale frozen result (c.decided result)
    generalize conclude failed stale frozen result (c.decided result) = r at hc
    cases hc with
    | ended => exact .same ⟨rfl, rfl, rfl, le_rfl⟩ rfl
    | unsettled => exact .same ⟨rfl, rfl, rfl, le_rfl⟩ rfl
    | inPart => exact .same ⟨rfl, rfl, rfl, le_rfl⟩ rfl
    | reviewed => exact .same ⟨rfl, rfl, rfl, le_rfl⟩ rfl

omit [PyFloatText F] in
theorem missingTurn_turn (ctx : TurnContext) (old : Option (Checkpoint F)) :
    (missingTurn ctx old).spent = false ∧ (missingTurn ctx old).watermark = ctx.turnId.int ∧
      (missingTurn ctx old).turnId = ctx.turnId := by
  unfold missingTurn
  cases old with
  | none => exact ⟨rfl, rfl, rfl⟩
  | some c =>
    simp only
    split <;> exact ⟨rfl, rfl, rfl⟩

/-- A checkpoint with the watermark of its turn. -/
def Marked (old : Option (Checkpoint F)) : Prop :=
  ∀ c, old = some c → c.watermark = c.turnId.int

omit [PyFloatText F] in
theorem lastSeen_of_open (hmark : Marked previous) (hp : previous = some c)
    (hblocked : c.blockedUntilTurn = none) : lastSeen previous = c.watermark := by
  rw [hp, lastSeen, hblocked, Option.getD_none, ← hmark c hp, max_self]

theorem reserve_follows (hmark : Marked previous) {outcome : StopOutcome F}
    (h : reserve sha256 m ctx plan attempt previous = .ok ⟨outcome, some c', none⟩) :
    Follows previous c' := by
  obtain ⟨-, hr⟩ := reserve_ok h
  cases hr with
  | missing _ hlater hopen =>
    obtain ⟨hspent, hwater, hturn⟩ := missingTurn_turn ctx previous
    refine .new ⟨hspent, hwater.trans (congrArg NativeId.int hturn).symm, ?_⟩
    show lastSeen previous < (missingTurn ctx previous).turnId.int
    rw [hturn]
    cases previous with
    | none => exact ctx.turnId.int_pos
    | some c =>
      rw [lastSeen_of_open hmark rfl (hopen c rfl).2]
      exact hlater c rfl
  | reconfigured => exact .same ⟨rfl, rfl, rfl, le_rfl⟩ rfl
  | @again c o _ _ ho =>
    have hframe := ho.frame
    rw [hframe]
    exact .same ⟨rfl, rfl, rfl, le_rfl⟩ rfl
  | assessed s evidence _ _ _ _ _ _ ha =>
    cases ha with
    | excluded => exact .same ⟨rfl, rfl, rfl, le_rfl⟩ rfl
    | noChanges => exact .same ⟨rfl, rfl, rfl, le_rfl⟩ rfl
    | noPlan => exact .same ⟨rfl, rfl, rfl, le_rfl⟩ rfl

/-- What a reservation is made of. -/
structure Reserves (sha256 : List Char → Hex 64) (ctx : TurnContext) (c c' frozen : Checkpoint F) :
    Prop where
  belongs : c.Belongs ctx
  current : c.isCurrent ctx = true
  unspent : c.spent = false
  config : c.configDigest = ctx.configDigest
  shape : ∃ (attempt : Hex 32) (planDigest : Hex 64) (s : Captured) (evidence : Evidence F),
    frozen = (c.examined (s.reference ctx) (gather c evidence)).reserved sha256 ctx attempt
      planDigest (s.reference ctx) (gather c evidence)
  saved : ∃ m : Moment, c' = frozen.stamp m

theorem reserve_reserves {outcome : StopOutcome F} {saved : Option (Checkpoint F)}
    (h : reserve sha256 m ctx plan attempt previous = .ok ⟨outcome, saved, some frozen⟩) :
    ∃ c c', previous = some c ∧ saved = some c' ∧ outcome.complete = false ∧
      Reserves sha256 ctx c c' frozen := by
  obtain ⟨hbelongs, hr⟩ := reserve_ok h
  cases hr with
  | @assessed c _ _ s evidence _ hcurrent hspent hconfig _ _ ha =>
    cases ha with
    | reserved planDigest =>
      exact ⟨c, _, rfl, rfl, rfl, hbelongs c rfl, hcurrent, hspent, hconfig,
        ⟨attempt, planDigest, s, evidence, rfl⟩, m, rfl⟩

/-- A Stop that saves nothing assesses nothing. -/
theorem reserve_unsaved {outcome : StopOutcome F} {reservation : Option (Checkpoint F)}
    (h : reserve sha256 m ctx plan attempt previous = .ok ⟨outcome, none, reservation⟩) :
    outcome.complete = false := by
  obtain ⟨-, hr⟩ := reserve_ok h
  cases hr with
  | refused => rfl
  | assessed s evidence _ _ _ _ _ _ ha => cases ha

theorem reserve_correction {r : Reserved F}
    (h : reserve sha256 m ctx plan attempt previous = .ok r) : r.outcome.correction = false := by
  obtain ⟨-, hr⟩ := reserve_ok h
  cases hr with
  | refused => rfl
  | missing => rfl
  | reconfigured => rfl
  | again => rfl
  | assessed s evidence _ _ _ _ _ _ ha => cases ha <;> rfl

end Turns

/-! ## 4. The guard of the allowance -/

/-- What a later checkpoint owes to an earlier one. -/
structure Guards (c c' : Checkpoint F) : Prop where
  watermark : c.watermark ≤ c'.watermark
  seen : lastSeen (some c) ≤ lastSeen (some c')
  turn : c.turnId.int ≤ c'.turnId.int
  /-- a spent turn stays spent until a newer one -/
  spent : c.spent = true →
    (c'.turnId = c.turnId ∧ c'.threadId = c.threadId ∧ c'.spent = true) ∨
      c.turnId.int < c'.turnId.int
  /-- an allowance is an old one, or of a turn newer than any that was seen -/
  allowance : c'.spent = false →
    (c'.turnId = c.turnId ∧ c'.threadId = c.threadId ∧ c.spent = false) ∨
      lastSeen (some c) < c'.turnId.int

section Guard

variable {sha256} {c c' c'' : Checkpoint F} {old : Option (Checkpoint F)} {w w' : World π F}
  {call : Call π F}

omit [PyFloatText F] in
theorem Guards.refl (c : Checkpoint F) : Guards c c where
  watermark := le_rfl
  seen := le_rfl
  turn := le_rfl
  spent := fun h => .inl ⟨rfl, rfl, h⟩
  allowance := fun h => .inl ⟨rfl, rfl, h⟩

omit [PyFloatText F] in
theorem Guards.trans (h : Guards c c') (h' : Guards c' c'') : Guards c c'' where
  watermark := h.watermark.trans h'.watermark
  seen := h.seen.trans h'.seen
  turn := h.turn.trans h'.turn
  spent := by
    intro hspent
    rcases h.spent hspent with ⟨hturn, hthread, hspent'⟩ | hlater
    · rcases h'.spent hspent' with ⟨hturn', hthread', hspent''⟩ | hlater
      · exact .inl ⟨hturn'.trans hturn, hthread'.trans hthread, hspent''⟩
      · exact .inr (hturn ▸ hlater)
    · exact .inr (hlater.trans_le h'.turn)
  allowance := by
    intro hspent
    rcases h'.allowance hspent with ⟨hturn', hthread', hspent'⟩ | hlater
    · rcases h.allowance hspent' with ⟨hturn, hthread, hspent⟩ | hlater
      · exact .inl ⟨hturn'.trans hturn, hthread'.trans hthread, hspent⟩
      · exact .inr (hturn' ▸ hlater)
    · exact .inr (h.seen.trans_lt hlater)

omit [PyFloatText F] in
theorem turn_le_lastSeen (h : Marked (some c)) : c.turnId.int ≤ lastSeen (some c) := by
  rw [lastSeen, ← h c rfl]
  exact Nat.le_max_left _ _

omit [PyFloatText F] in
theorem SameTurn.guards (h : SameTurn c c') (hspent : c.spent = true → c'.spent = true)
    (hback : c'.spent = false → c.spent = false) : Guards c c' where
  watermark := h.watermark.ge
  seen := h.seen
  turn := (congrArg NativeId.int h.turn).ge
  spent := fun hc => .inl ⟨h.turn, h.thread, hspent hc⟩
  allowance := fun hc => .inl ⟨h.turn, h.thread, hback hc⟩

omit [PyFloatText F] in
theorem NewTurn.guards (hmark : Marked (some c)) (h : NewTurn (some c) c') : Guards c c' where
  watermark := by
    have hturn := (turn_le_lastSeen hmark).trans h.seen.le
    rw [hmark c rfl, h.watermark]
    exact hturn
  seen := by
    refine h.seen.le.trans ?_
    rw [← h.watermark]
    exact Nat.le_max_left _ _
  turn := (turn_le_lastSeen hmark).trans h.seen.le
  spent := fun _ => .inr ((turn_le_lastSeen hmark).trans_lt h.seen)
  allowance := fun _ => .inr h.seen

omit [PyFloatText F] in
theorem Follows.guards (hmark : Marked (some c)) (h : Follows (some c) c') : Guards c c' := by
  cases h with
  | same hsame hspent =>
    refine hsame.guards (fun hc => ?_) (fun hc => ?_)
    · rw [hspent, hc]
    · rw [← hspent, hc]
  | new hnew => exact hnew.guards hmark

omit [PyFloatText F] in
theorem Follows.marked (hmark : Marked old) (h : Follows old c') : Marked (some c') := by
  intro d hd
  cases hd
  cases h with
  | @same c _ hsame _ => rw [hsame.watermark, hsame.turn, hmark c rfl]
  | new hnew => exact hnew.watermark

theorem Reserves.guards {ctx : TurnContext} {frozen : Checkpoint F}
    (h : Reserves sha256 ctx c c' frozen) : Guards c c' := by
  obtain ⟨attempt, planDigest, s, evidence, rfl⟩ := h.shape
  obtain ⟨m, rfl⟩ := h.saved
  refine SameTurn.guards ⟨rfl, rfl, rfl, le_rfl⟩ (fun _ => rfl) (fun hc => ?_)
  cases hc

theorem Reserves.marked {ctx : TurnContext} {frozen : Checkpoint F}
    (hmark : Marked (some c)) (h : Reserves sha256 ctx c c' frozen) : Marked (some c') := by
  obtain ⟨attempt, planDigest, s, evidence, rfl⟩ := h.shape
  obtain ⟨m, rfl⟩ := h.saved
  intro d hd
  cases hd
  exact hmark c rfl

/-- How the checkpoint moves in one step. -/
inductive Moves (sha256 : List Char → Hex 64) (old : Option (Checkpoint F)) :
    Option (Checkpoint F) → Prop where
  | stays : Moves sha256 old old
  | follows {c' : Checkpoint F} : Follows old c' → Moves sha256 old (some c')
  | reserves {c c' frozen : Checkpoint F} {ctx : TurnContext} : old = some c →
      Reserves sha256 ctx c c' frozen → Moves sha256 old (some c')

theorem Step.moves (hmark : Marked w.checkpoint) (hs : Step sha256 w call w') :
    Moves sha256 w.checkpoint w'.checkpoint := by
  have hsave : ∀ saved : Option (Checkpoint F),
      (∀ c', saved = some c' → Follows w.checkpoint c') →
      Moves sha256 w.checkpoint (saved.or w.checkpoint) := by
    intro saved h
    cases saved with
    | none => exact .stays
    | some c' => exact .follows (h c' rfl)
  cases hs with
  | beginTurn m ctx h => exact hsave _ fun c' hc => beginTurn_follows (hc ▸ h)
  | recordAction m boundary ctx action _ h =>
    rw [noteAction_eq]
    exact hsave _ fun c' hc => recordAction_follows (hc ▸ h)
  | resetReview m apply => exact hsave _ fun c' hc => resetReview_follows hc
  | stop m ctx plan attempt h =>
    rw [noteAssessment_eq]
    exact hsave _ fun c' hc => reserve_follows hmark (hc ▸ h)
  | reserve p m ctx plan attempt _ h =>
    obtain ⟨c, c', hc, rfl, -, hres⟩ := reserve_reserves h
    exact .reserves hc hres
  | dispatch => exact .stays
  | saveResult p m _ _ h => exact hsave _ fun c' hc => saveResult_follows (hc ▸ h)
  | complete => exact .stays
  | finish p m _ _ h =>
    rw [noteAssessment_eq]
    exact hsave _ fun c' hc => finish_follows (hc ▸ h)
  | die => exact .stays

theorem Moves.marked (hmark : Marked old) {new : Option (Checkpoint F)}
    (h : Moves sha256 old new) : Marked new := by
  cases h with
  | stays => exact hmark
  | follows hf => exact hf.marked hmark
  | reserves hc hr => exact hr.marked (hc ▸ hmark)

theorem Moves.guards (hmark : Marked (some c)) {new : Option (Checkpoint F)}
    (h : Moves sha256 (some c) new) : ∃ c', new = some c' ∧ Guards c c' := by
  cases h with
  | stays => exact ⟨c, rfl, .refl c⟩
  | follows hf => exact ⟨_, rfl, hf.guards hmark⟩
  | reserves hc hr =>
    cases hc
    exact ⟨_, rfl, hr.guards⟩

theorem Run.marked (hmark : Marked w.checkpoint) (h : Run sha256 w w') : Marked w'.checkpoint := by
  induction h with
  | refl => exact hmark
  | step _ hs ih => exact (hs.moves ih).marked ih

/-- A checkpoint owes the guard to every earlier one. -/
theorem Run.guards (hmark : Marked w.checkpoint) (h : Run sha256 w w')
    (hc : w.checkpoint = some c) : ∃ c', w'.checkpoint = some c' ∧ Guards c c' := by
  induction h with
  | refl => exact ⟨c, hc, .refl c⟩
  | step hrun hs ih =>
    obtain ⟨d, hd, hguards⟩ := ih
    have hmark' := hrun.marked hmark
    have hmoves := hs.moves hmark'
    rw [hd] at hmoves hmark'
    obtain ⟨c', hc', hguards'⟩ := hmoves.guards hmark'
    exact ⟨c', hc', hguards.trans hguards'⟩

end Guard

/-! ## 5. The ledger of the reservations -/

/-- The threads and turns of the corrections that were returned. -/
def World.corrections (w : World π F) : List (NativeId × NativeId) :=
  (w.returned.filter (·.outcome.correction)).map fun a => (a.ctx.threadId, a.ctx.turnId)

/-- Has the reviewer not dispatched yet? -/
def Stage.isReserved : Stage F → Bool
  | .reserved => true
  | _ => false

/-- Reservations are tokens: a dispatch uses one, a correction settles it. -/
def World.ledger (w : World π F) : OneShot.Ledger NativeId π where
  issued := w.reservations
  holder p := (w.reviewers p).map fun r => (r.ctx.turnId, r.stage.isReserved)
  used := w.dispatches.map Prod.snd
  settled := w.corrections.map Prod.snd

/-- A correction rests on a completed review of unchanged evidence. -/
def Returned.Justified (a : Returned F) : Prop :=
  a.outcome.correction = true →
    ∃ plan frozen reads after reviewed evidence, a.review = some (plan, frozen, reads) ∧
      frozen.turnId = a.ctx.turnId ∧ frozen.evidence = some evidence ∧
      evidence.complete = true ∧
      -- the snapshot, the plan and the configuration are those of the reservation
      frozen.reviewed = some reviewed ∧ reads.after = .ok after ∧
      after.digest = reviewed.digest ∧
      reads.latestPlan.fingerprint = plan.fingerprint ∧
      reads.currentConfig = .ok (some frozen.configDigest)

/-- A reviewer with what its reservation and its completion have found. -/
structure Reviewer.Sound (r : Reviewer F) : Prop where
  turn : r.frozen.turnId = r.ctx.turnId
  config : r.frozen.configDigest = r.ctx.configDigest
  evidence : ∃ evidence, r.frozen.evidence = some evidence
  reviewed : ∃ reviewed, r.frozen.reviewed = some reviewed
  completed : ∀ result reads failed stale, r.stage = .completed result reads failed stale →
    reads.judge r.ctx r.plan r.frozen = .ok (failed, stale)

/-- Every reservation is of a turn whose allowance is gone. -/
def World.Allotted (w : World π F) : Prop :=
  ∀ t ∈ w.reservations, ∃ c, w.checkpoint = some c ∧
    (t.int < c.turnId.int ∨ t = c.turnId ∧ c.spent = true)

structure World.Sound (w : World π F) : Prop where
  marked : Marked w.checkpoint
  allotted : w.Allotted
  ledger : w.ledger.Sound
  reviewer : ∀ p r, w.reviewers p = some r → r.Sound
  justified : ∀ a ∈ w.returned, a.Justified

section Ledger

variable {sha256} {w w' : World π F} {call : Call π F}

omit [DecidableEq π] [PyFloatText F] in
theorem init_sound : (World.init : World π F).Sound where
  marked := fun c hc => by cases hc
  allotted := fun t ht => by cases ht
  ledger := OneShot.Ledger.init_sound
  reviewer := fun p r hr => by cases hr
  justified := fun a ha => by cases ha

omit [DecidableEq π] [PyFloatText F] in
@[simp] theorem ledger_save (w : World π F) (saved : Option (Checkpoint F)) :
    (w.save saved).ledger = w.ledger := rfl

omit [DecidableEq π] [PyFloatText F] in
@[simp] theorem ledger_noteAction (w : World π F) (action : Action F)
    (saved : Option (Checkpoint F)) : (w.noteAction action saved).ledger = w.ledger := by
  rw [noteAction_eq]
  rfl

omit [DecidableEq π] [PyFloatText F] in
@[simp] theorem ledger_noteAssessment (w : World π F) (outcome : StopOutcome F) (mark : Nat)
    (c : Option (Checkpoint F)) : (w.noteAssessment outcome mark c).ledger = w.ledger := by
  rw [noteAssessment_eq]
  rfl

omit [PyFloatText F] in
theorem ledger_setReviewer (w : World π F) (p : π) (r : Option (Reviewer F)) :
    (w.setReviewer p r).ledger = { w.ledger with
      holder := OneShot.setHolder w.ledger.holder p
        (r.map fun r => (r.ctx.turnId, r.stage.isReserved)) } := by
  have hholder : (w.setReviewer p r).ledger.holder = OneShot.setHolder w.ledger.holder p
      (r.map fun r => (r.ctx.turnId, r.stage.isReserved)) := by
    funext q
    show ((if q = p then r else w.reviewers q).map _) = if q = p then _ else _
    split <;> rfl
  rw [← hholder]
  rfl

omit [DecidableEq π] [PyFloatText F] in
theorem ledger_answer (w : World π F) (a : Returned F) :
    (w.answer a).ledger = { w.ledger with
      settled := w.ledger.settled ++ if a.outcome.correction then [a.ctx.turnId] else [] } := by
  have hsettled : (w.answer a).ledger.settled
      = w.ledger.settled ++ if a.outcome.correction then [a.ctx.turnId] else [] := by
    simp only [World.ledger, World.corrections, World.answer, List.filter_append, List.map_append]
    cases h : a.outcome.correction <;> simp [h]
  rw [← hsettled]
  rfl

omit [PyFloatText F] in
/-- A stage after the first one holds the token it held. -/
theorem ledger_stage {w : World π F} {p : π} {r r' : Reviewer F} (hp : w.reviewers p = some r)
    (hctx : r'.ctx = r.ctx) (hstage : r'.stage.isReserved = r.stage.isReserved) :
    (w.setReviewer p (some r')).ledger = w.ledger := by
  have hholder : OneShot.setHolder w.ledger.holder p
      (some (r'.ctx.turnId, r'.stage.isReserved)) = w.ledger.holder := by
    funext q
    unfold OneShot.setHolder
    split
    · rename_i hq
      show _ = (w.reviewers q).map _
      rw [hq, hp, hctx, hstage]
      rfl
    · rfl
  rw [ledger_setReviewer, Option.map_some, hholder]

omit [DecidableEq π] [PyFloatText F] in
theorem ledger_holder {p : π} {r : Reviewer F} (hp : w.reviewers p = some r) :
    w.ledger.holder p = some (r.ctx.turnId, r.stage.isReserved) := by
  show (w.reviewers p).map _ = _
  rw [hp]
  rfl

omit [DecidableEq π] [PyFloatText F] in
theorem World.Sound.issued (h : w.Sound) {p : π} {r : Reviewer F}
    (hp : w.reviewers p = some r) : r.ctx.turnId ∈ w.reservations :=
  (h.ledger.held p _ _ (ledger_holder hp)).1

omit [DecidableEq π] in
/-- A reserved turn had not been reserved before. -/
theorem World.Sound.fresh (h : w.Sound) {ctx : TurnContext} {c c' frozen : Checkpoint F}
    (hc : w.checkpoint = some c) (hr : Reserves sha256 ctx c c' frozen) :
    ctx.turnId ∉ w.reservations := by
  intro ht
  obtain ⟨d, hd, hgone⟩ := h.allotted _ ht
  rw [hc] at hd
  cases hd
  have hturn := (isCurrent_iff.mp hr.current).2
  rcases hgone with hlt | ⟨-, hspent⟩
  · rw [hturn] at hlt
    exact lt_irrefl _ hlt
  · rw [hr.unspent] at hspent
    cases hspent

/-- **A step of the reviews is a step of the ledger.** -/
theorem Step.ledger (h : w.Sound) (hs : Step sha256 w call w') :
    OneShot.Step w.ledger w'.ledger := by
  cases hs with
  | beginTurn m ctx _ =>
    rw [ledger_save]
    exact .idle
  | recordAction m boundary ctx action _ _ =>
    rw [ledger_save, ledger_noteAction]
    exact .idle
  | resetReview m apply =>
    rw [ledger_save]
    exact .idle
  | @stop m ctx plan attempt outcome saved hreserve =>
    have hcorrection : outcome.correction = false := reserve_correction hreserve
    rw [ledger_answer, ledger_save, ledger_noteAssessment]
    simp only [hcorrection, Bool.false_eq_true, if_false, List.append_nil]
    exact .idle
  | @reserve p m ctx plan attempt _ saved frozen hp hreserve =>
    obtain ⟨c, c', hc, -, -, hr⟩ := reserve_reserves hreserve
    have hidle : w.ledger.holder p = none := by
      show (w.reviewers p).map _ = none
      rw [hp]
      rfl
    have hledger := ledger_setReviewer (w.save saved) p
      (some ⟨ctx, plan, frozen, w.stored.length, .reserved⟩)
    rw [ledger_save, Option.map_some] at hledger
    show OneShot.Step w.ledger { ((w.save saved).setReviewer p
      (some ⟨ctx, plan, frozen, w.stored.length, .reserved⟩)).ledger with
        issued := w.reservations ++ [ctx.turnId] }
    rw [hledger]
    exact .issue p ctx.turnId (h.fresh hc hr) hidle
  | @dispatch p r result hp hstage =>
    have hfresh : w.ledger.holder p = some (r.ctx.turnId, true) := by
      rw [ledger_holder hp, hstage]
      rfl
    have hledger := ledger_setReviewer w p (some { r with stage := .judged result })
    have hused : (w.dispatches ++ [(r.ctx.threadId, r.ctx.turnId)]).map Prod.snd
        = w.ledger.used ++ [r.ctx.turnId] := by
      rw [List.map_append]
      rfl
    show OneShot.Step w.ledger { (w.setReviewer p (some { r with stage := .judged result })).ledger
      with used := (w.dispatches ++ [(r.ctx.threadId, r.ctx.turnId)]).map Prod.snd }
    rw [hledger, hused]
    exact .use p hfresh
  | @saveResult p r result m saved hp hstage _ =>
    have hledger : ((w.save saved).setReviewer p
        (some { r with stage := .saved result })).ledger = (w.save saved).ledger :=
      ledger_stage hp rfl (by rw [hstage]; rfl)
    rw [hledger, ledger_save]
    exact .idle
  | @complete p r result reads failed stale hp hstage _ =>
    have hledger : (w.setReviewer p
        (some { r with stage := .completed result reads failed stale })).ledger = w.ledger :=
      ledger_stage hp rfl (by rw [hstage]; rfl)
    rw [hledger]
    exact .idle
  | @finish p r _ _ _ _ m _ outcome hp hstage hfinish =>
    rw [ledger_answer, ledger_setReviewer, ledger_save, ledger_noteAssessment, Option.map_none]
    cases hcorrection : outcome.correction with
    | false =>
      simp only [Bool.false_eq_true, if_false, List.append_nil]
      exact .lose p
    | true => exact .settle p (ledger_holder hp)
  | die p =>
    rw [ledger_setReviewer, Option.map_none]
    exact .lose p

/-! ## 6. Soundness of every run -/

omit [DecidableEq π] in
theorem Moves.allotted {new : Option (Checkpoint F)} {t : NativeId}
    (hmark : Marked w.checkpoint) (h : Moves sha256 w.checkpoint new)
    (ht : ∃ c, w.checkpoint = some c ∧ (t.int < c.turnId.int ∨ t = c.turnId ∧ c.spent = true)) :
    ∃ c, new = some c ∧ (t.int < c.turnId.int ∨ t = c.turnId ∧ c.spent = true) := by
  obtain ⟨c, hc, hgone⟩ := ht
  rw [hc] at h hmark
  obtain ⟨c', hc', hguards⟩ := h.guards hmark
  refine ⟨c', hc', ?_⟩
  rcases hgone with hlt | ⟨rfl, hspent⟩
  · exact .inl (hlt.trans_le hguards.turn)
  · rcases hguards.spent hspent with ⟨hturn, -, hspent'⟩ | hlater
    · exact .inr ⟨hturn.symm, hspent'⟩
    · exact .inl hlater

/-- The reservations of a step: those before, and the one it makes. -/
theorem Step.reservations (hs : Step sha256 w call w') {t : NativeId} (ht : t ∈ w'.reservations) :
    t ∈ w.reservations ∨ ∃ c, w'.checkpoint = some c ∧ t = c.turnId ∧ c.spent = true := by
  cases hs with
  | beginTurn => exact .inl ht
  | recordAction m boundary ctx action _ _ =>
    rw [noteAction_eq] at ht
    exact .inl ht
  | resetReview => exact .inl ht
  | stop m ctx plan attempt _ =>
    rw [noteAssessment_eq] at ht
    exact .inl ht
  | reserve p m ctx plan attempt hp hreserve =>
    rcases List.mem_append.mp ht with hold | hnew
    · exact .inl hold
    · obtain ⟨c, c', hc, rfl, -, hr⟩ := reserve_reserves hreserve
      obtain ⟨attempt, planDigest, s, evidence, rfl⟩ := hr.shape
      obtain ⟨m, rfl⟩ := hr.saved
      refine .inr ⟨_, rfl, ?_, rfl⟩
      rw [List.mem_singleton.mp hnew]
      exact (isCurrent_iff.mp hr.current).2.symm
  | dispatch => exact .inl ht
  | saveResult => exact .inl ht
  | complete => exact .inl ht
  | finish p m _ _ _ =>
    rw [noteAssessment_eq] at ht
    exact .inl ht
  | die => exact .inl ht

omit [PyFloatText F] in
theorem setReviewer_eq {w : World π F} {p q : π} {r : Option (Reviewer F)} {r' : Reviewer F}
    (h : (w.setReviewer p r).reviewers q = some r') :
    r = some r' ∨ w.reviewers q = some r' := by
  simp only [World.setReviewer] at h
  split at h
  · exact .inl h
  · exact .inr h

/-- A reviewer keeps what it has found. -/
theorem Step.reviewer (h : w.Sound) (hs : Step sha256 w call w') :
    ∀ p r, w'.reviewers p = some r → r.Sound := by
  intro q r' hq
  cases hs with
  | beginTurn => exact h.reviewer q r' hq
  | recordAction m boundary ctx action _ _ =>
    rw [noteAction_eq] at hq
    exact h.reviewer q r' hq
  | resetReview => exact h.reviewer q r' hq
  | stop m ctx plan attempt _ =>
    rw [noteAssessment_eq] at hq
    exact h.reviewer q r' hq
  | @reserve p m ctx plan attempt _ saved frozen hp hreserve =>
    rcases setReviewer_eq (w := w.save saved) hq with hr | hq
    · cases hr
      obtain ⟨c, c', -, -, -, hres⟩ := reserve_reserves hreserve
      obtain ⟨attempt, planDigest, s, evidence, hshape⟩ := hres.shape
      have hturn := (isCurrent_iff.mp hres.current).2
      refine ⟨?_, ?_, ⟨gather c evidence, by rw [hshape]; rfl⟩,
        ⟨s.reference ctx, by rw [hshape]; rfl⟩, fun _ _ _ _ h => by cases h⟩
      · rw [hshape]
        exact hturn
      · rw [hshape]
        exact hres.config
    · exact h.reviewer q r' hq
  | @dispatch p r result hp hstage =>
    rcases setReviewer_eq hq with hr | hq
    · cases hr
      have hsound := h.reviewer p r hp
      exact ⟨hsound.turn, hsound.config, hsound.evidence, hsound.reviewed,
        fun _ _ _ _ h => by cases h⟩
    · exact h.reviewer q r' hq
  | @saveResult p r result m saved hp hstage _ =>
    rcases setReviewer_eq (w := w.save saved) hq with hr | hq
    · cases hr
      have hsound := h.reviewer p r hp
      exact ⟨hsound.turn, hsound.config, hsound.evidence, hsound.reviewed,
        fun _ _ _ _ h => by cases h⟩
    · exact h.reviewer q r' hq
  | @complete p r result reads failed stale hp hstage hjudge =>
    rcases setReviewer_eq hq with hr | hq
    · cases hr
      have hsound := h.reviewer p r hp
      refine ⟨hsound.turn, hsound.config, hsound.evidence, hsound.reviewed, ?_⟩
      intro result' reads' failed' stale' heq
      cases heq
      exact hjudge
    · exact h.reviewer q r' hq
  | @finish p r _ _ _ _ m saved outcome hp hstage _ =>
    rw [noteAssessment_eq] at hq
    rcases setReviewer_eq (w := w.save saved) hq with hr | hq
    · cases hr
    · exact h.reviewer q r' hq
  | die p =>
    rcases setReviewer_eq hq with hr | hq
    · cases hr
    · exact h.reviewer q r' hq

omit [PyFloatText F] in
/-- A completion that is neither failed nor stale has found nothing changed. -/
theorem Completion.judge_fresh {r : Reviewer F} (hr : r.Sound) {reads : Completion}
    (h : reads.judge r.ctx r.plan r.frozen = .ok (false, false)) :
    ∃ after reviewed, r.frozen.reviewed = some reviewed ∧ reads.after = .ok after ∧
      after.digest = reviewed.digest ∧
      reads.latestPlan.fingerprint = r.plan.fingerprint ∧
      reads.currentConfig = .ok (some r.frozen.configDigest) := by
  obtain ⟨reviewed, hreviewed⟩ := hr.reviewed
  unfold Completion.judge at h
  split at h
  · cases h
  · cases h
  rename_i after hafter
  split at h
  · cases h
  · cases h
  rename_i config hconfig
  split at h
  · cases h
  simp only [Except.ok.injEq, Prod.mk.injEq, true_and, decide_eq_false_iff_not, not_or, not_not,
    ne_eq, hreviewed, Option.map_some, Option.some.injEq] at h
  refine ⟨after, reviewed, hreviewed, hafter, h.1, h.2.1, ?_⟩
  rw [hconfig, h.2.2, hr.config]

omit [DecidableEq π] [PyFloatText F] in
theorem finish_justified {m : Moment} {r : Reviewer F} (hr : r.Sound) {failed stale : Bool}
    {result : SupervisorRun F} {reads : Completion} {previous saved : Option (Checkpoint F)}
    {outcome : StopOutcome F} (hstage : r.stage = .completed result reads failed stale)
    (h : finish m r.ctx failed stale r.frozen result previous = .ok (saved, outcome)) :
    Returned.Justified ⟨r.ctx, outcome, some (r.plan, r.frozen, reads)⟩ := by
  intro hcorrection
  have hjudge := hr.completed _ _ _ _ hstage
  rcases finish_ok h with ⟨-, hno, -⟩ | ⟨c, -, -, -, -, houtcome⟩
  · have hcorrection : outcome.correction = true := hcorrection
    rw [hno] at hcorrection
    cases hcorrection
  have hcorrection : outcome.correction = true := hcorrection
  rw [houtcome] at hcorrection
  have hc := conclude_cases failed stale r.frozen result (c.decided result)
  generalize conclude failed stale r.frozen result (c.decided result) = out at hc hcorrection
  cases hc with
  | ended => cases hcorrection
  | unsettled => cases hcorrection
  | inPart => cases hcorrection
  | reviewed _ _ hfailed hstale _ hcomplete =>
    rw [hfailed, hstale] at hjudge
    obtain ⟨after, reviewed, hreviewed, hafter, hdigest, hplan, hconfig⟩ :=
      Completion.judge_fresh hr hjudge
    obtain ⟨evidence, hevidence⟩ := hr.evidence
    rw [hevidence] at hcomplete
    exact ⟨r.plan, r.frozen, reads, after, reviewed, evidence, rfl, hr.turn, hevidence,
      hcomplete, hreviewed, hafter, hdigest, hplan, hconfig⟩

/-- A step returns justified outcomes only. -/
theorem Step.justified (h : w.Sound) (hs : Step sha256 w call w') :
    ∀ a ∈ w'.returned, a.Justified := by
  intro a ha
  cases hs with
  | beginTurn => exact h.justified a ha
  | recordAction m boundary ctx action _ _ =>
    rw [noteAction_eq] at ha
    exact h.justified a ha
  | resetReview => exact h.justified a ha
  | @stop m ctx plan attempt outcome saved hreserve =>
    rw [noteAssessment_eq] at ha
    rcases List.mem_append.mp ha with ha | ha
    · exact h.justified a ha
    · rw [List.mem_singleton.mp ha]
      intro hcorrection
      have hno : outcome.correction = false := reserve_correction hreserve
      have hcorrection : outcome.correction = true := hcorrection
      rw [hno] at hcorrection
      cases hcorrection
  | reserve => exact h.justified a ha
  | dispatch => exact h.justified a ha
  | saveResult => exact h.justified a ha
  | complete => exact h.justified a ha
  | @finish p r result reads failed stale m saved outcome hp hstage hfinish =>
    rw [noteAssessment_eq] at ha
    rcases List.mem_append.mp ha with ha | ha
    · exact h.justified a ha
    · rw [List.mem_singleton.mp ha]
      exact finish_justified (h.reviewer p r hp) hstage hfinish
  | die => exact h.justified a ha

/-- **Every step keeps a sound world sound.** -/
theorem World.Sound.step (h : w.Sound) (hs : Step sha256 w call w') : w'.Sound where
  marked := (hs.moves h.marked).marked h.marked
  allotted := by
    intro t ht
    rcases hs.reservations ht with ht | ⟨c, hc, hturn, hspent⟩
    · exact (hs.moves h.marked).allotted h.marked (h.allotted t ht)
    · exact ⟨c, hc, .inr ⟨hturn, hspent⟩⟩
  ledger := h.ledger.step (hs.ledger h)
  reviewer := hs.reviewer h
  justified := hs.justified h

theorem Run.sound (h : Run sha256 w w') (hw : w.Sound) : w'.Sound := by
  induction h with
  | refl => exact hw
  | step _ hs ih => exact ih.step hs

end Ledger

section Example

def sampleThread : NativeId := ⟨"01890000-0000-7000-8000-0000000000aa", by decide +kernel⟩

theorem firstTurn_native : isNativeId "01890000-0000-7000-8000-000000000001" = true := by
  decide +kernel

def firstTurn : NativeId := ⟨"01890000-0000-7000-8000-000000000001", firstTurn_native⟩

theorem zeros_hex :
    isHex 64 "0000000000000000000000000000000000000000000000000000000000000000" = true := by
  decide +kernel

def zeros : Hex 64 := ⟨"0000000000000000000000000000000000000000000000000000000000000000", zeros_hex⟩

def sampleTurn (turn : NativeId) : TurnContext where
  forgeRoot := "/repo/.forge"
  session := "planner"
  checkout := "/repo"
  threadId := sampleThread
  turnId := turn
  configDigest := zeros
  reviewerIdentity := ""
  sessionIdentity := ⟨"00000000000000000000000000000000", by decide +kernel⟩
  absolute := by decide +kernel

def sampleManifest : Manifest := ⟨"/repo", "/repo/.git", "", "", Dict.empty, []⟩

def sampleCaptured : Captured := ⟨zeros, 0, []⟩

def sampleMoment : Moment where
  now := "2026-01-01T00:00:00Z"
  storage := ⟨fun _ => .ok sampleManifest, fun _ _ _ => .ok none⟩
  capture := .ok sampleCaptured

def sampleRef : SnapshotRef := ⟨zeros, "/repo", 0, []⟩

/-- The first prompt of a session. -/
def sampleOpened : Checkpoint FloatText :=
  ((newState (sampleTurn firstTurn) (some sampleRef)).inherit none).stamp sampleMoment

theorem sampleOpened_run (sha256 : List Char → Hex 64) :
    Run sha256 (.init : World Nat FloatText) (World.init.save (some sampleOpened)) := by
  have hcapture : sampleMoment.capture = .ok sampleCaptured := rfl
  have hbegin : beginTurn sha256 sampleMoment (sampleTurn firstTurn)
      (none : Option (Checkpoint FloatText)) = .ok (some sampleOpened) := beginTurn_first hcapture
  exact .step (.refl _) (.beginTurn sampleMoment (sampleTurn firstTurn) hbegin)

end Example

end MultiForge.Policy
