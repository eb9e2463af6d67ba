/-
MultiForge.Engine.PolicyEngine — `forge.policy.engine`: one decision out of
many policies.

A policy is what its protocol asks for: an identifier, a test whether it
applies, an evaluation, and for a stateful one a way to take its state out
and to put it back. All of these may raise. An instance is a policy in a
state; what it does in one evaluation does not depend on the others, so
the loop over the registered policies is a `map`.

Telemetry and timestamps are left out. `evaluate_composes` is the law of
the composition, for every list of instances in every state.
-/
import Mathlib.Data.List.Perm.Basic
import MultiForge.Lib.Dict
import MultiForge.Policy.StopReview

namespace MultiForge.Engine

open MultiForge.Policy (DecisionType)

/-! ## 1. Decisions -/

inductive Severity where
  | critical
  | high
  | medium
  | low
  deriving DecidableEq

structure Violation where
  ruleId : String
  message : String
  severity : Severity
  evidence : Option String := none
  suggestedFix : Option String := none
  provenance : String := "unknown"
  deriving DecidableEq

structure PolicyDecision where
  decision : DecisionType
  policyId : String
  violations : List Violation := []
  warnings : List String := []
  intent : Option String := none
  failOpen : Bool := false
  failureType : Option String := none
  warningFindings : List Violation := []
  deriving DecidableEq

structure CompositeDecision where
  finalDecision : DecisionType
  decisions : List PolicyDecision := []
  blockingViolations : List Violation := []
  allWarnings : List String := []
  deriving DecidableEq

/-- `"open"` and `"closed"` -/
inductive FailMode where
  | allowing
  | closed
  deriving DecidableEq

/-! ## 2. Policies -/

/-- `get_state` and `set_state` of a stateful policy. -/
structure Memory (St σ : Type) where
  /-- nothing when it raises -/
  getState : σ → Option St
  /-- the state after it, also when it raises -/
  setState : σ → St → σ

structure Policy (Ctx St : Type) where
  policyId : String
  State : Type
  /-- the state of a new instance -/
  initial : State
  appliesTo : State → Ctx → Except String Bool
  evaluate : State → Ctx → Except String PolicyDecision × State
  memory : Option (Memory St State)

/-- A policy in a state. -/
structure Instance (Ctx St : Type) where
  policy : Policy Ctx St
  state : policy.State

/-- What `_run_policy` leaves behind. -/
structure Ran (Ctx St : Type) where
  after : Instance Ctx St
  decision : Option PolicyDecision
  collected : Option (String × St)

variable {Ctx St : Type}

/-- The decision for a policy whose `applies_to` raised. -/
def appliesToFailed (id : String) (e : String) : PolicyDecision where
  decision := .deny
  policyId := id
  warnings := [s!"Policy applies_to() failed (fail-closed): {e}"]
  failureType := some "applies_to_error"

/-- The decision for a policy whose `evaluate` raised. -/
def evaluationFailed (mode : FailMode) (id : String) (e : String) : PolicyDecision :=
  match mode with
  | .allowing =>
      { decision := .allow
        policyId := id
        warnings := [s!"Policy evaluation failed (fail-open): {e}"]
        failOpen := true
        failureType := some "policy_error" }
  | .closed =>
      { decision := .deny
        policyId := id
        warnings := [s!"Policy evaluation failed (fail-closed): {e}"]
        failureType := some "policy_error" }

/-- `_run_policy` -/
def Instance.run (mode : FailMode) (ctx : Ctx) (i : Instance Ctx St) : Ran Ctx St :=
  match i.policy.appliesTo i.state ctx with
  | .ok false => ⟨i, none, none⟩
  | .error e =>
      match mode with
      | .closed => ⟨i, some (appliesToFailed i.policy.policyId e), none⟩
      | .allowing => ⟨i, none, none⟩
  | .ok true =>
      match i.policy.evaluate i.state ctx with
      | (.ok d, s) =>
          ⟨⟨i.policy, s⟩, some d,
            (i.policy.memory.bind fun m => m.getState s).map fun st => (i.policy.policyId, st)⟩
      | (.error e, s) => ⟨⟨i.policy, s⟩, some (evaluationFailed mode i.policy.policyId e), none⟩

/-! ## 3. Composition -/

/-- The running values of the composition loop. -/
structure Composing where
  final : DecisionType := .allow
  needsReview : Bool := false
  blockingViolations : List Violation := []
  allWarnings : List String := []

def Composing.add (c : Composing) (d : PolicyDecision) : Composing :=
  let c := { c with allWarnings := c.allWarnings ++ d.warnings }
  match d.decision with
  | .deny => { c with
      final := .deny
      blockingViolations := c.blockingViolations ++ d.violations }
  | .needsReview => { c with needsReview := true }
  | .warn => if c.final = .allow then { c with final := .warn } else c
  | .allow => c

/-- A supervisor registered as a regular policy resolves review as well. -/
def resolverIds (resolver : Option String) : List String := "semantic.supervisor" :: resolver.toList

def reviewResolved (resolver : Option String) (decisions : List PolicyDecision) : Bool :=
  decisions.any fun d => decide (d.policyId ∈ resolverIds resolver) && d.decision != .needsReview

/-- The decision over all decisions. -/
def compose (resolver : Option String) (decisions : List PolicyDecision) : CompositeDecision :=
  let c := decisions.foldl Composing.add {}
  { finalDecision :=
      if c.needsReview ∧ ¬ reviewResolved resolver decisions ∧ c.final ≠ .deny then .needsReview
      else c.final
    decisions := decisions
    blockingViolations := c.blockingViolations
    allWarnings := c.allWarnings }

structure PolicyEngine (Ctx St : Type) where
  policies : List (Instance Ctx St)
  failMode : FailMode
  resolver : Option (Instance Ctx St)
  collectedState : Dict String St

namespace PolicyEngine

/-- `any(d.decision == "needs_review") and not any(d.decision == "deny")` -/
def escalates (decisions : List PolicyDecision) : Bool :=
  decisions.any (·.decision == .needsReview) && !decisions.any (·.decision == .deny)

/-- The decisions of the registered policies. -/
def regular (e : PolicyEngine Ctx St) (ctx : Ctx) : List PolicyDecision :=
  (e.policies.map (Instance.run e.failMode ctx)).filterMap Ran.decision

/-- The resolver, when it is invoked. -/
def invoked (e : PolicyEngine Ctx St) (ctx : Ctx) : Option (Instance Ctx St) :=
  if escalates (e.regular ctx) then e.resolver else none

/-- The instances that run, in their order. -/
def running (e : PolicyEngine Ctx St) (ctx : Ctx) : List (Instance Ctx St) :=
  e.policies ++ (e.invoked ctx).toList

/-- The result of `evaluate` -/
def composite (e : PolicyEngine Ctx St) (ctx : Ctx) : CompositeDecision :=
  compose (e.resolver.map (·.policy.policyId))
    (((e.running ctx).map (Instance.run e.failMode ctx)).filterMap Ran.decision)

/-- The engine after `evaluate`; what was collected before is gone. -/
def after (e : PolicyEngine Ctx St) (ctx : Ctx) : PolicyEngine Ctx St where
  policies := e.policies.map fun i => (i.run e.failMode ctx).after
  failMode := e.failMode
  resolver := ((e.invoked ctx).map fun i => (i.run e.failMode ctx).after).or e.resolver
  collectedState := Dict.upsertEach (fun _ st => st)
    (((e.running ctx).map (Instance.run e.failMode ctx)).filterMap Ran.collected) Dict.empty

/-- `evaluate` -/
def evaluate (e : PolicyEngine Ctx St) (ctx : Ctx) : CompositeDecision × PolicyEngine Ctx St :=
  (e.composite ctx, e.after ctx)

end PolicyEngine

/-! ## 4. The loop over decisions -/

section Loop

variable (ds : List PolicyDecision) (c : Composing)

theorem foldl_add_final : (ds.foldl Composing.add c).final
    = if c.final = .deny ∨ ∃ d ∈ ds, d.decision = .deny then .deny
      else if c.final = .allow ∧ ∃ d ∈ ds, d.decision = .warn then .warn
      else c.final := by
  induction ds generalizing c with
  | nil => by_cases h : c.final = .deny <;> simp [h]
  | cons d rest ih =>
    rw [List.foldl_cons, ih]
    cases hd : d.decision with
    | allow => simp [Composing.add, hd]
    | deny => simp [Composing.add, hd]
    | needsReview => simp [Composing.add, hd]
    | warn =>
      cases hc : c.final with
      | allow => simp [Composing.add, hd, hc]
      | deny => simp [Composing.add, hd, hc]
      | warn => simp [Composing.add, hd, hc]
      | needsReview => simp [Composing.add, hd, hc]

theorem foldl_add_review : (ds.foldl Composing.add c).needsReview = true ↔
    c.needsReview = true ∨ ∃ d ∈ ds, d.decision = .needsReview := by
  induction ds generalizing c with
  | nil => simp
  | cons d rest ih =>
    rw [List.foldl_cons, ih]
    cases hd : d.decision with
    | allow => simp [Composing.add, hd]
    | deny => simp [Composing.add, hd]
    | needsReview => simp [Composing.add, hd]
    | warn =>
      by_cases hc : c.final = .allow <;> simp [Composing.add, hd, hc]

theorem foldl_add_violations : (ds.foldl Composing.add c).blockingViolations
    = c.blockingViolations ++ (ds.filter (·.decision == .deny)).flatMap (·.violations) := by
  induction ds generalizing c with
  | nil => simp
  | cons d rest ih =>
    rw [List.foldl_cons, ih]
    cases hd : d.decision with
    | allow => simp [Composing.add, hd]
    | deny => simp [Composing.add, hd]
    | needsReview => simp [Composing.add, hd]
    | warn =>
      by_cases hc : c.final = .allow <;> simp [Composing.add, hd, hc]

theorem foldl_add_warnings : (ds.foldl Composing.add c).allWarnings
    = c.allWarnings ++ ds.flatMap (·.warnings) := by
  induction ds generalizing c with
  | nil => simp
  | cons d rest ih =>
    rw [List.foldl_cons, ih]
    cases hd : d.decision with
    | allow => simp [Composing.add, hd]
    | deny => simp [Composing.add, hd]
    | needsReview => simp [Composing.add, hd]
    | warn =>
      by_cases hc : c.final = .allow <;> simp [Composing.add, hd, hc]

end Loop

section Compose

variable {resolver : Option String} {ds ds' : List PolicyDecision}

theorem reviewResolved_iff : reviewResolved resolver ds = true ↔
    ∃ d ∈ ds, d.policyId ∈ resolverIds resolver ∧ d.decision ≠ .needsReview := by
  simp [reviewResolved]

/-- Deny wins over an open review, and that over a warning. -/
theorem compose_final (resolver : Option String) (ds : List PolicyDecision) :
    (compose resolver ds).finalDecision
      = if ∃ d ∈ ds, d.decision = .deny then .deny
        else if (∃ d ∈ ds, d.decision = .needsReview) ∧ ¬ reviewResolved resolver ds then
          .needsReview
        else if ∃ d ∈ ds, d.decision = .warn then .warn
        else .allow := by
  have hfinal := foldl_add_final ds {}
  have hreview := foldl_add_review ds {}
  simp only [reduceCtorEq, false_or, true_and, Bool.false_eq_true] at hfinal hreview
  unfold compose
  simp only [hfinal, hreview]
  by_cases hdeny : ∃ d ∈ ds, d.decision = .deny
  · simp [hdeny]
  · rw [if_neg hdeny, if_neg hdeny]
    have hne : (if ∃ d ∈ ds, d.decision = .warn then DecisionType.warn else .allow) ≠ .deny := by
      split <;> simp
    simp only [hne, ne_eq, not_false_eq_true, and_true]

theorem compose_violations : (compose resolver ds).blockingViolations
    = (ds.filter (·.decision == .deny)).flatMap (·.violations) := foldl_add_violations ds {}

theorem compose_warnings : (compose resolver ds).allWarnings = ds.flatMap (·.warnings) :=
  foldl_add_warnings ds {}

/-- The order of the decisions does not matter. -/
theorem compose_perm (h : ds.Perm ds') :
    (compose resolver ds').finalDecision = (compose resolver ds).finalDecision ∧
    (compose resolver ds').blockingViolations.Perm (compose resolver ds).blockingViolations ∧
    (compose resolver ds').allWarnings.Perm (compose resolver ds).allWarnings := by
  have hmem : ∀ t : DecisionType, (∃ d ∈ ds', d.decision = t) = ∃ d ∈ ds, d.decision = t :=
    fun t => propext (exists_congr fun d => and_congr_left' h.mem_iff.symm)
  have hresolved : reviewResolved resolver ds' = reviewResolved resolver ds := h.any_eq.symm
  refine ⟨?_, ?_, ?_⟩
  · simp only [compose_final, hresolved, hmem]
  · rw [compose_violations, compose_violations]
    exact ((h.filter _).flatMap_right _).symm
  · rw [compose_warnings, compose_warnings]
    exact (h.flatMap_right _).symm

end Compose

/-! ## 5. What an instance does -/

namespace Instance

variable (i : Instance Ctx St) (ctx : Ctx) (mode : FailMode)

/-- It applies and decides. -/
def Decides (d : PolicyDecision) : Prop :=
  i.policy.appliesTo i.state ctx = .ok true ∧ (i.policy.evaluate i.state ctx).1 = .ok d

/-- It raises in `applies_to`. -/
def RaisesApplying : Prop := ∃ e, i.policy.appliesTo i.state ctx = .error e

/-- It applies and raises in `evaluate`. -/
def RaisesEvaluating : Prop :=
  i.policy.appliesTo i.state ctx = .ok true ∧ ∃ e, (i.policy.evaluate i.state ctx).1 = .error e

/-- It denies or, in fail-closed mode, raises. -/
def Blocks : Prop :=
  (∃ d, i.Decides ctx d ∧ d.decision = .deny) ∨
    mode = .closed ∧ (i.RaisesApplying ctx ∨ i.RaisesEvaluating ctx)

/-- It asks for a review. -/
def Requests : Prop := ∃ d, i.Decides ctx d ∧ d.decision = .needsReview

variable {i ctx mode}

/-- The decision of a run is the policy's own, or stands for an error. -/
theorem run_decision {d : PolicyDecision} (h : (i.run mode ctx).decision = some d) :
    i.Decides ctx d ∨
    mode = .closed ∧ i.RaisesApplying ctx ∧ d.decision = .deny ∨
    i.RaisesEvaluating ctx ∧ d.policyId = i.policy.policyId ∧
      (mode = .closed ∧ d.decision = .deny ∨ mode = .allowing ∧ d.decision = .allow) := by
  unfold run at h
  split at h
  · cases h
  · rename_i e he
    split at h
    · cases h
      exact .inr (.inl ⟨rfl, ⟨e, he⟩, rfl⟩)
    · cases h
  · rename_i happlies
    split at h
    · rename_i d' s heval
      cases h
      exact .inl ⟨happlies, by rw [heval]⟩
    · rename_i e s heval
      cases h
      refine .inr (.inr ⟨⟨happlies, e, by rw [heval]⟩, ?_⟩)
      cases mode with
      | allowing => exact ⟨rfl, .inr ⟨rfl, rfl⟩⟩
      | closed => exact ⟨rfl, .inl ⟨rfl, rfl⟩⟩

theorem run_of_decides {d : PolicyDecision} (h : i.Decides ctx d) :
    (i.run mode ctx).decision = some d := by
  obtain ⟨happlies, heval⟩ := h
  unfold run
  rw [happlies]
  simp only
  split
  · rename_i d' s hd
    rw [hd] at heval
    cases heval
    rfl
  · rename_i e s he
    rw [he] at heval
    cases heval

theorem blocks_iff :
    (∃ d, (i.run mode ctx).decision = some d ∧ d.decision = .deny) ↔ i.Blocks ctx mode := by
  constructor
  · rintro ⟨d, hrun, hdeny⟩
    rcases run_decision hrun with hd | ⟨hmode, hraise, -⟩ | ⟨hraise, -, ⟨hmode, -⟩ | ⟨-, hallow⟩⟩
    · exact .inl ⟨d, hd, hdeny⟩
    · exact .inr ⟨hmode, .inl hraise⟩
    · exact .inr ⟨hmode, .inr hraise⟩
    · rw [hallow] at hdeny
      cases hdeny
  · rintro (⟨d, hd, hdeny⟩ | ⟨rfl, ⟨e, he⟩ | ⟨happlies, e, he⟩⟩)
    · exact ⟨d, run_of_decides hd, hdeny⟩
    · refine ⟨appliesToFailed i.policy.policyId e, ?_, rfl⟩
      unfold run
      rw [he]
    · refine ⟨evaluationFailed .closed i.policy.policyId e, ?_, rfl⟩
      unfold run
      rw [happlies]
      simp only
      split
      · rename_i d s hd
        rw [hd] at he
        cases he
      · rename_i e' s he'
        rw [he'] at he
        cases he
        rfl

theorem requests_iff :
    (∃ d, (i.run mode ctx).decision = some d ∧ d.decision = .needsReview) ↔ i.Requests ctx := by
  constructor
  · rintro ⟨d, hrun, hreview⟩
    rcases run_decision hrun with hd | ⟨-, -, hdeny⟩ | ⟨-, -, ⟨-, hdeny⟩ | ⟨-, hallow⟩⟩
    · exact ⟨d, hd, hreview⟩
    · rw [hdeny] at hreview
      cases hreview
    · rw [hdeny] at hreview
      cases hreview
    · rw [hallow] at hreview
      cases hreview
  · rintro ⟨d, hd, hreview⟩
    exact ⟨d, run_of_decides hd, hreview⟩

end Instance

/-! ## 6. The law of the composition -/

namespace PolicyEngine

variable {e e' : PolicyEngine Ctx St} {ctx : Ctx}

theorem mem_decisions {is : List (Instance Ctx St)} {mode : FailMode} {d : PolicyDecision} :
    d ∈ (is.map (Instance.run mode ctx)).filterMap Ran.decision ↔
      ∃ i ∈ is, (i.run mode ctx).decision = some d := by
  simp only [List.mem_filterMap, List.mem_map]
  constructor
  · rintro ⟨_, ⟨i, hi, rfl⟩, hd⟩
    exact ⟨i, hi, hd⟩
  · rintro ⟨i, hi, hd⟩
    exact ⟨_, ⟨i, hi, rfl⟩, hd⟩

theorem exists_deny_iff {is : List (Instance Ctx St)} {mode : FailMode} :
    (∃ d ∈ (is.map (Instance.run mode ctx)).filterMap Ran.decision, d.decision = .deny) ↔
      ∃ i ∈ is, i.Blocks ctx mode := by
  constructor
  · rintro ⟨d, hd, hdeny⟩
    obtain ⟨i, hi, hrun⟩ := mem_decisions.mp hd
    exact ⟨i, hi, Instance.blocks_iff.mp ⟨d, hrun, hdeny⟩⟩
  · rintro ⟨i, hi, hblocks⟩
    obtain ⟨d, hrun, hdeny⟩ := Instance.blocks_iff.mpr hblocks
    exact ⟨d, mem_decisions.mpr ⟨i, hi, hrun⟩, hdeny⟩

theorem exists_review_iff {is : List (Instance Ctx St)} (mode : FailMode) :
    (∃ d ∈ (is.map (Instance.run mode ctx)).filterMap Ran.decision, d.decision = .needsReview) ↔
      ∃ i ∈ is, i.Requests ctx := by
  constructor
  · rintro ⟨d, hd, hreview⟩
    obtain ⟨i, hi, hrun⟩ := mem_decisions.mp hd
    exact ⟨i, hi, Instance.requests_iff.mp ⟨d, hrun, hreview⟩⟩
  · rintro ⟨i, hi, hrequests⟩
    obtain ⟨d, hrun, hreview⟩ := Instance.requests_iff.mpr hrequests
    exact ⟨d, mem_decisions.mpr ⟨i, hi, hrun⟩, hreview⟩

/-- The resolver is invoked for an open review, never past a denial. -/
theorem invoked_some {r : Instance Ctx St} : e.invoked ctx = some r ↔
    e.resolver = some r ∧ (∃ i ∈ e.policies, i.Requests ctx) ∧
      ∀ i ∈ e.policies, ¬ i.Blocks ctx e.failMode := by
  have hescalates : escalates (e.regular ctx) = true ↔
      (∃ i ∈ e.policies, i.Requests ctx) ∧ ∀ i ∈ e.policies, ¬ i.Blocks ctx e.failMode := by
    unfold escalates
    rw [Bool.and_eq_true, List.any_eq_true, Bool.not_eq_true', List.any_eq_false]
    simp only [beq_iff_eq]
    rw [← exists_review_iff e.failMode, regular]
    refine and_congr Iff.rfl ?_
    rw [← not_iff_not]
    push Not
    exact exists_deny_iff
  unfold invoked
  split
  · rename_i h
    exact ⟨fun hr => ⟨hr, hescalates.mp h⟩, fun hr => hr.1⟩
  · rename_i h
    exact ⟨fun hr => (by cases hr), fun hr => absurd (hescalates.mpr hr.2) h⟩

/-- A resolver that has settled a review, in its own words or by failing
open. -/
def Settles (e : PolicyEngine Ctx St) (ctx : Ctx) (i : Instance Ctx St) : Prop :=
  (∃ d, i.Decides ctx d ∧ d.decision ≠ .needsReview ∧
    d.policyId ∈ resolverIds (e.resolver.map (·.policy.policyId))) ∨
  e.failMode = .allowing ∧ i.RaisesEvaluating ctx ∧
    i.policy.policyId ∈ resolverIds (e.resolver.map (·.policy.policyId))

theorem evaluate_deny (e : PolicyEngine Ctx St) (ctx : Ctx) :
    (e.evaluate ctx).1.finalDecision = .deny ↔ ∃ i ∈ e.running ctx, i.Blocks ctx e.failMode := by
  rw [← exists_deny_iff]
  show (compose _ _).finalDecision = .deny ↔ _
  rw [compose_final]
  split
  · rename_i h
    exact ⟨fun _ => h, fun _ => rfl⟩
  · rename_i h
    refine ⟨fun hfinal => ?_, fun hdeny => absurd hdeny h⟩
    split at hfinal
    · cases hfinal
    · split at hfinal <;> cases hfinal

/-- A review that was asked for is settled before the action goes on. -/
theorem evaluate_settled (hrequest : ∃ i ∈ e.running ctx, i.Requests ctx)
    (hfinal : (e.evaluate ctx).1.finalDecision = .allow ∨
      (e.evaluate ctx).1.finalDecision = .warn) : ∃ i ∈ e.running ctx, e.Settles ctx i := by
  have hreview := (exists_review_iff e.failMode).mpr hrequest
  have hdeny : ¬ (e.evaluate ctx).1.finalDecision = .deny := by
    rcases hfinal with h | h
    all_goals
      rw [h]
      simp
  have hblocks : ∀ i ∈ e.running ctx, ¬ i.Blocks ctx e.failMode := by
    intro i hi hb
    exact hdeny ((evaluate_deny e ctx).mpr ⟨i, hi, hb⟩)
  have hresolved : reviewResolved (e.resolver.map (·.policy.policyId))
      (((e.running ctx).map (Instance.run e.failMode ctx)).filterMap Ran.decision) = true := by
    by_contra hopen
    have hcomposed : (e.evaluate ctx).1.finalDecision = .needsReview := by
      show (compose _ _).finalDecision = _
      rw [compose_final, if_neg ?_, if_pos ⟨hreview, hopen⟩]
      intro h
      obtain ⟨i, hi, hb⟩ := exists_deny_iff.mp h
      exact hblocks i hi hb
    rw [hcomposed] at hfinal
    simp at hfinal
  obtain ⟨d, hd, hid, hdecision⟩ := reviewResolved_iff.mp hresolved
  obtain ⟨i, hi, hrun⟩ := mem_decisions.mp hd
  refine ⟨i, hi, ?_⟩
  rcases Instance.run_decision hrun with
    hdecides | ⟨hmode, hraise, -⟩ | ⟨hraise, hpolicy, ⟨hmode, -⟩ | ⟨hmode, -⟩⟩
  · exact .inl ⟨d, hdecides, hdecision, hid⟩
  · exact absurd (.inr ⟨hmode, .inl hraise⟩) (hblocks i hi)
  · exact absurd (.inr ⟨hmode, .inr hraise⟩) (hblocks i hi)
  · exact .inr ⟨hmode, hraise, hpolicy ▸ hid⟩

/-- The registered policies in another order. -/
theorem running_perm {ps : List (Instance Ctx St)} (h : ps.Perm e.policies) :
    (({ e with policies := ps } : PolicyEngine Ctx St).running ctx).Perm (e.running ctx) := by
  have hregular : (({ e with policies := ps } : PolicyEngine Ctx St).regular ctx).Perm
      (e.regular ctx) := (h.map _).filterMap _
  have hinvoked : ({ e with policies := ps } : PolicyEngine Ctx St).invoked ctx = e.invoked ctx := by
    unfold invoked escalates
    rw [hregular.any_eq, hregular.any_eq]
  unfold running
  rw [hinvoked]
  exact h.append_right _

/-- **Composition.** A denial blocks, and so does an error in fail-closed
mode; a review is settled by a resolver, which runs once and never past a
denial; violations and warnings are those of the decisions, in order; and
the order of the policies does not matter. -/
theorem evaluate_composes (e : PolicyEngine Ctx St) (ctx : Ctx) :
    ((e.evaluate ctx).1.finalDecision = .deny ↔ ∃ i ∈ e.running ctx, i.Blocks ctx e.failMode) ∧
    ((∃ i ∈ e.running ctx, i.Requests ctx) → (e.evaluate ctx).1.finalDecision = .allow ∨
      (e.evaluate ctx).1.finalDecision = .warn → ∃ i ∈ e.running ctx, e.Settles ctx i) ∧
    (e.running ctx = e.policies ∨ ∃ r, e.resolver = some r ∧ e.running ctx = e.policies ++ [r] ∧
      (∃ i ∈ e.policies, i.Requests ctx) ∧ ∀ i ∈ e.policies, ¬ i.Blocks ctx e.failMode) ∧
    (e.evaluate ctx).1.decisions
      = ((e.running ctx).map (Instance.run e.failMode ctx)).filterMap Ran.decision ∧
    (e.evaluate ctx).1.blockingViolations
      = ((e.evaluate ctx).1.decisions.filter (·.decision == .deny)).flatMap (·.violations) ∧
    (e.evaluate ctx).1.allWarnings = (e.evaluate ctx).1.decisions.flatMap (·.warnings) ∧
    ∀ ps : List (Instance Ctx St), ps.Perm e.policies →
      (({ e with policies := ps } : PolicyEngine Ctx St).evaluate ctx).1.finalDecision
        = (e.evaluate ctx).1.finalDecision ∧
      (({ e with policies := ps } : PolicyEngine Ctx St).evaluate ctx).1.blockingViolations.Perm
        (e.evaluate ctx).1.blockingViolations ∧
      (({ e with policies := ps } : PolicyEngine Ctx St).evaluate ctx).1.allWarnings.Perm
        (e.evaluate ctx).1.allWarnings := by
  refine ⟨evaluate_deny e ctx, evaluate_settled, ?_, rfl, compose_violations, compose_warnings, ?_⟩
  · unfold running
    cases hr : e.invoked ctx with
    | none => exact .inl (List.append_nil _)
    | some r =>
      obtain ⟨hresolver, hrequest, hblocks⟩ := invoked_some.mp hr
      exact .inr ⟨r, hresolver, rfl, hrequest, hblocks⟩
  · intro ps hps
    exact compose_perm (((running_perm hps).map _).filterMap _).symm

end PolicyEngine

/-- A policy that answers every action in the same way. -/
def constantPolicy (id : String) (answer : Except String PolicyDecision) : Policy Unit Unit where
  policyId := id
  State := Unit
  initial := ()
  appliesTo := fun _ _ => .ok true
  evaluate := fun s _ => (answer, s)
  memory := none

/-- A plan check that asks for a review, and a supervisor that crashes. -/
def crashingSupervisor : PolicyEngine Unit Unit where
  policies := [⟨constantPolicy "semantic.plan-check"
    (.ok ⟨.needsReview, "semantic.plan-check", [], [], none, false, none, []⟩), ()⟩]
  failMode := .allowing
  resolver := some ⟨constantPolicy "semantic.supervisor" (.error "boom"), ()⟩
  collectedState := Dict.empty

/-- In fail-open mode its crash settles the review: nobody has decided, and
the action is allowed. -/
theorem crashingSupervisor_allowed : ∃ e : PolicyEngine Unit Unit,
    (∃ i ∈ e.policies, i.Requests ()) ∧ (e.evaluate ()).1.finalDecision = .allow ∧
    ∀ i ∈ e.running (), ∀ d, i.Decides () d → d.decision = .needsReview := by
  refine ⟨crashingSupervisor, ⟨_, List.mem_singleton_self _, _, ⟨rfl, rfl⟩, rfl⟩, by decide, ?_⟩
  intro i hi d hd
  have hrunning : crashingSupervisor.running () = crashingSupervisor.policies
      ++ crashingSupervisor.resolver.toList := rfl
  rw [hrunning] at hi
  simp only [crashingSupervisor, Option.toList_some, List.mem_append, List.mem_singleton] at hi
  rcases hi with rfl | rfl
  · cases hd.2
    rfl
  · cases hd.2

end MultiForge.Engine
