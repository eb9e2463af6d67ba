/-
MultiForge.Engine.HookState — `forge.policy.store`: policy state across
hooks.

A hook is a process of its own: it builds an engine, restores into it the
states that the session has confirmed, evaluates one action, and stores the
collected states over the confirmed ones, with one more entry in the
decision log. `hooks_eq_evaluateAll` says that a sequence of hooks decides
as one engine that lives through all of them.

What a policy must do for that is `Policy.Restorable`; states are compared
by what a policy answers from them (`Machine.Alike`), so a policy may save
its state in any form. Policy identifiers are unique, as the protocol says;
a policy may still be registered twice.
-/
import Mathlib.Data.List.DropRight
import MultiForge.Engine.PolicyEngine
import MultiForge.Lib.Machine

namespace MultiForge.Engine

variable {Ctx St : Type}

/-! ## 1. Restoring an engine -/

/-- A new instance of a policy. -/
def Policy.start (p : Policy Ctx St) : Instance Ctx St := ⟨p, p.initial⟩

/-- `set_state`, for a stateful policy with a persisted state. -/
def Policy.restoreState (p : Policy Ctx St) (s : p.State) (persisted : Dict String St) : p.State :=
  match p.memory, persisted.get? p.policyId with
  | some m, some st => m.setState s st
  | _, _ => s

theorem Policy.restoreState_stored {p : Policy Ctx St} {s : p.State} {persisted : Dict String St}
    {m : Memory St p.State} {st : St} (hm : p.memory = some m)
    (hst : persisted.get? p.policyId = some st) : p.restoreState s persisted = m.setState s st := by
  unfold restoreState
  rw [hm, hst]

def Instance.restore (persisted : Dict String St) (i : Instance Ctx St) : Instance Ctx St :=
  ⟨i.policy, i.policy.restoreState i.state persisted⟩

namespace PolicyEngine

/-- `_all_policies` -/
def allPolicies (e : PolicyEngine Ctx St) : List (Instance Ctx St) :=
  e.policies ++ e.resolver.toList

def registeredPolicyIds (e : PolicyEngine Ctx St) : List String :=
  e.allPolicies.map (·.policy.policyId)

/-- `restore_state` -/
def restoreState (e : PolicyEngine Ctx St) : Option (Dict String St) → PolicyEngine Ctx St
  | none => e
  | some persisted => { e with
      policies := e.policies.map (Instance.restore persisted)
      resolver := e.resolver.map (Instance.restore persisted) }

/-- One engine for a sequence of actions. -/
def evaluateAll (e : PolicyEngine Ctx St) : List Ctx → List CompositeDecision
  | [] => []
  | ctx :: rest => (e.evaluate ctx).1 :: (e.evaluate ctx).2.evaluateAll rest

end PolicyEngine

/-! ## 2. The confirmed state of a session -/

/-- `MAX_DECISION_LOG` -/
def maxDecisionLog : Nat := 100

/-- `serialize_composite_decision` -/
structure LogEntry where
  composite : CompositeDecision
  contextSummary : Option String
  deriving DecidableEq

/-- `confirmed.policy` -/
structure PolicyConfirmed (St : Type) where
  forgeVersion : Option String
  bundles : List String
  rulesActive : List String
  decisions : List LogEntry
  policyStates : Dict String St

/-- The log with one more entry, cut to the last `MAX_DECISION_LOG`. -/
def appendDecision (log : List LogEntry) (entry : LogEntry) : List LogEntry :=
  if (log ++ [entry]).length > maxDecisionLog then (log ++ [entry]).rtake maxDecisionLog
  else log ++ [entry]

/-- `build_policy_state_update` -/
def buildPolicyStateUpdate (result : CompositeDecision) (engineState : Dict String St)
    (existing : Option (PolicyConfirmed St)) (forgeVersion : Option String)
    (bundles rulesActive : List String) (contextSummary : Option String) :
    PolicyConfirmed St where
  forgeVersion :=
    (forgeVersion.filter (· ≠ "")).or (existing.bind (·.forgeVersion))
  bundles := if bundles = [] then (existing.map (·.bundles)).getD [] else bundles
  rulesActive := if rulesActive = [] then (existing.map (·.rulesActive)).getD [] else rulesActive
  decisions := appendDecision ((existing.map (·.decisions)).getD []) ⟨result, contextSummary⟩
  policyStates := Dict.upsertEach (fun _ st => st) engineState.entries
    ((existing.map (·.policyStates)).getD Dict.empty)

/-! ## 3. Hooks -/

/-- What the configuration of a session makes every hook build. -/
structure Setup (Ctx St : Type) where
  policies : List (Policy Ctx St)
  failMode : FailMode
  resolver : Option (Policy Ctx St)
  bundles : List String
  /-- the summary of an action in the log -/
  summary : Ctx → Option String

namespace Setup

/-- A new engine. -/
def engine (setup : Setup Ctx St) : PolicyEngine Ctx St where
  policies := setup.policies.map Policy.start
  failMode := setup.failMode
  resolver := setup.resolver.map Policy.start
  collectedState := Dict.empty

/-- The engine of a hook. -/
def restored (setup : Setup Ctx St) (confirmed : Option (PolicyConfirmed St)) :
    PolicyEngine Ctx St :=
  setup.engine.restoreState (confirmed.map (·.policyStates))

/-- What a hook persists. -/
def persisted (setup : Setup Ctx St) (confirmed : Option (PolicyConfirmed St)) (ctx : Ctx) :
    PolicyConfirmed St :=
  let e := setup.restored confirmed
  buildPolicyStateUpdate (e.evaluate ctx).1 (e.evaluate ctx).2.collectedState confirmed none
    setup.bundles e.registeredPolicyIds (setup.summary ctx)

/-- The decisions of a sequence of hooks. -/
def hooks (setup : Setup Ctx St) : Option (PolicyConfirmed St) → List Ctx →
    List CompositeDecision
  | _, [] => []
  | confirmed, ctx :: rest =>
      ((setup.restored confirmed).evaluate ctx).1 ::
        setup.hooks (some (setup.persisted confirmed ctx)) rest

/-- The confirmed state after a sequence of hooks. -/
def confirmedAfter (setup : Setup Ctx St) : Option (PolicyConfirmed St) → List Ctx →
    Option (PolicyConfirmed St)
  | confirmed, [] => confirmed
  | confirmed, ctx :: rest => setup.confirmedAfter (some (setup.persisted confirmed ctx)) rest

end Setup

/-! ## 4. Restorable policies -/

/-- What the engine sees of a policy: whether it applies, and its answer. -/
def Policy.machine (p : Policy Ctx St) :
    Machine p.State Ctx (Except String (Option (Except String PolicyDecision))) where
  observe s ctx :=
    match p.appliesTo s ctx with
    | .error e => .error e
    | .ok false => .ok none
    | .ok true => .ok (some (p.evaluate s ctx).1)
  step s ctx :=
    match p.appliesTo s ctx with
    | .ok true => (p.evaluate s ctx).2
    | _ => s

/-- What a policy needs so that its state survives a hook. -/
structure Policy.Restorable (p : Policy Ctx St) : Prop where
  /-- `set_state(get_state())` restores an equivalent policy -/
  round_trip : ∀ m, p.memory = some m → ∀ s, ∃ st, m.getState s = some st ∧
    p.machine.Alike (m.setState p.initial st) s
  /-- a policy without `get_state` has no state to lose -/
  stateless : p.memory = none → ∀ s ctx, p.machine.Alike (p.machine.step s ctx) s
  /-- `evaluate` does not change the state when it raises -/
  raising : ∀ s ctx e, p.appliesTo s ctx = .ok true → (p.evaluate s ctx).1 = .error e →
    p.machine.Alike (p.evaluate s ctx).2 s

/-- One policy in two states that are alike. -/
inductive Instance.Alike : Instance Ctx St → Instance Ctx St → Prop where
  | mk {p : Policy Ctx St} {s t : p.State} (h : p.machine.Alike s t) : Alike ⟨p, s⟩ ⟨p, t⟩

theorem Instance.Alike.refl (i : Instance Ctx St) : i.Alike i := .mk (Machine.Alike.refl _ _)

/-- Everything a policy can do in one evaluation. -/
theorem run_cases (mode : FailMode) (ctx : Ctx) (p : Policy Ctx St) (s : p.State) :
    p.appliesTo s ctx ≠ .ok true ∧ ((⟨p, s⟩ : Instance Ctx St).run mode ctx).after = ⟨p, s⟩ ∧
      ((⟨p, s⟩ : Instance Ctx St).run mode ctx).collected = none ∨
    (∃ e, p.appliesTo s ctx = .ok true ∧ (p.evaluate s ctx).1 = .error e ∧
      ((⟨p, s⟩ : Instance Ctx St).run mode ctx).after = ⟨p, (p.evaluate s ctx).2⟩ ∧
      ((⟨p, s⟩ : Instance Ctx St).run mode ctx).collected = none) ∨
    p.appliesTo s ctx = .ok true ∧
      ((⟨p, s⟩ : Instance Ctx St).run mode ctx).after = ⟨p, (p.evaluate s ctx).2⟩ ∧
      ((⟨p, s⟩ : Instance Ctx St).run mode ctx).collected
        = (p.memory.bind fun m => m.getState (p.evaluate s ctx).2).map fun st => (p.policyId, st) := by
  unfold Instance.run
  cases happlies : p.appliesTo s ctx with
  | error e => cases mode <;> exact .inl ⟨by simp, rfl, rfl⟩
  | ok b =>
    cases b with
    | false => exact .inl ⟨by simp, rfl, rfl⟩
    | true =>
      rcases heval : p.evaluate s ctx with ⟨answer, s'⟩
      cases answer with
      | error e => exact .inr (.inl ⟨e, rfl, rfl, rfl, rfl⟩)
      | ok d => exact .inr (.inr ⟨rfl, rfl, rfl⟩)

/-- What a policy decides can be seen from outside. -/
theorem run_decision_eq (mode : FailMode) (ctx : Ctx) (p : Policy Ctx St) (s : p.State) :
    ((⟨p, s⟩ : Instance Ctx St).run mode ctx).decision
      = match p.machine.observe s ctx with
        | .ok none => none
        | .error e => if mode = .closed then some (appliesToFailed p.policyId e) else none
        | .ok (some (.ok d)) => some d
        | .ok (some (.error e)) => some (evaluationFailed mode p.policyId e) := by
  unfold Instance.run Policy.machine
  cases happlies : p.appliesTo s ctx with
  | error e => cases mode <;> simp [happlies]
  | ok b =>
    cases b with
    | false => simp [happlies]
    | true =>
      rcases heval : p.evaluate s ctx with ⟨answer, s'⟩
      cases answer <;> simp [happlies, heval]

theorem run_after_eq (mode : FailMode) (ctx : Ctx) (p : Policy Ctx St) (s : p.State) :
    ((⟨p, s⟩ : Instance Ctx St).run mode ctx).after = ⟨p, p.machine.step s ctx⟩ := by
  rcases run_cases mode ctx p s with ⟨happlies, hafter, -⟩ | ⟨e, happlies, -, hafter, -⟩ |
    ⟨happlies, hafter, -⟩
  · rw [hafter]
    simp only [Policy.machine]
  · rw [hafter]
    simp only [Policy.machine, happlies]
  · rw [hafter]
    simp only [Policy.machine, happlies]

namespace Instance

variable {i j : Instance Ctx St} {mode : FailMode} {ctx : Ctx}

theorem Alike.decision (h : i.Alike j) :
    (i.run mode ctx).decision = (j.run mode ctx).decision := by
  obtain ⟨h⟩ := h
  rw [run_decision_eq, run_decision_eq, h.observe]

theorem Alike.after (h : i.Alike j) : (i.run mode ctx).after.Alike (j.run mode ctx).after := by
  obtain ⟨h⟩ := h
  rw [run_after_eq, run_after_eq]
  exact .mk (h.step ctx)

theorem Alike.policyId (h : i.Alike j) : i.policy.policyId = j.policy.policyId := by
  obtain ⟨-⟩ := h
  rfl

end Instance

/-! ## 5. Engines that cannot be told apart -/

namespace PolicyEngine

/-- The engine as a machine. -/
def machine : Machine (PolicyEngine Ctx St) Ctx CompositeDecision where
  observe := composite
  step := after

/-- The same policies in states that are alike. -/
structure Pointwise (e e' : PolicyEngine Ctx St) : Prop where
  policies : List.Forall₂ Instance.Alike e.policies e'.policies
  failMode : e.failMode = e'.failMode
  resolver : Option.Rel Instance.Alike e.resolver e'.resolver

variable {e e' : PolicyEngine Ctx St} {ctx : Ctx}

theorem decisions_alike {is js : List (Instance Ctx St)} (h : List.Forall₂ Instance.Alike is js)
    (mode : FailMode) :
    (is.map (Instance.run mode ctx)).filterMap Ran.decision
      = (js.map (Instance.run mode ctx)).filterMap Ran.decision := by
  induction h with
  | nil => rfl
  | cons hij _ ih =>
    rw [List.map_cons, List.map_cons, List.filterMap_cons, List.filterMap_cons, hij.decision, ih]

theorem Pointwise.invoked (h : e.Pointwise e') (ctx : Ctx) :
    Option.Rel Instance.Alike (e.invoked ctx) (e'.invoked ctx) := by
  have hregular : e.regular ctx = e'.regular ctx := by
    unfold regular
    rw [decisions_alike h.policies, h.failMode]
  unfold PolicyEngine.invoked
  rw [hregular]
  split
  · exact h.resolver
  · exact .none

theorem Pointwise.running (h : e.Pointwise e') :
    List.Forall₂ Instance.Alike (e.running ctx) (e'.running ctx) := by
  have hinvoked := h.invoked ctx
  unfold PolicyEngine.running
  refine List.rel_append h.policies ?_
  generalize e.invoked ctx = a, e'.invoked ctx = b at hinvoked
  cases hinvoked with
  | none => exact .nil
  | some hr => exact .cons hr .nil

theorem Pointwise.composite (h : e.Pointwise e') : e.composite ctx = e'.composite ctx := by
  have hresolver : e.resolver.map (·.policy.policyId) = e'.resolver.map (·.policy.policyId) := by
    have hrel := h.resolver
    generalize e.resolver = a, e'.resolver = b at hrel
    cases hrel with
    | none => rfl
    | some hr => exact congrArg some hr.policyId
  unfold PolicyEngine.composite
  rw [hresolver, decisions_alike h.running, h.failMode]

theorem Pointwise.after (h : e.Pointwise e') : (e.after ctx).Pointwise (e'.after ctx) where
  policies := by
    unfold PolicyEngine.after
    rw [h.failMode]
    exact List.rel_map (fun _ _ hij => hij.after) h.policies
  failMode := h.failMode
  resolver := by
    have hinvoked := h.invoked ctx
    unfold PolicyEngine.after
    rw [h.failMode]
    generalize e.invoked ctx = a, e'.invoked ctx = b at hinvoked
    cases hinvoked with
    | none => exact h.resolver
    | some hr => exact .some hr.after

theorem Pointwise.alike (h : e.Pointwise e') : machine.Alike e e' :=
  Machine.Alike.of_bisimulation (fun _ _ _ hR => hR.composite) (fun _ _ _ hR => hR.after) h

theorem evaluateAll_alike (h : machine.Alike e e') (ctxs : List Ctx) :
    e.evaluateAll ctxs = e'.evaluateAll ctxs := by
  induction ctxs generalizing e e' with
  | nil => rfl
  | cons ctx rest ih =>
    rw [evaluateAll, evaluateAll]
    exact congrArg₂ List.cons (h.observe ctx) (ih (h.step ctx))

end PolicyEngine

/-! ## 6. Saving and restoring -/

namespace PolicyEngine

variable {e : PolicyEngine Ctx St} {ctx : Ctx}

theorem collected_policyId {i : Instance Ctx St} {mode : FailMode} {c : String × St}
    (h : (i.run mode ctx).collected = some c) : c.1 = i.policy.policyId := by
  rcases run_cases mode ctx i.policy i.state with ⟨-, -, hc⟩ | ⟨e, -, -, -, hc⟩ | ⟨-, -, hc⟩
  · rw [hc] at h
    cases h
  · rw [hc] at h
    cases h
  · rw [hc] at h
    obtain ⟨st, -, rfl⟩ := Option.map_eq_some_iff.mp h
    rfl

theorem mem_collected {is : List (Instance Ctx St)} {mode : FailMode} {c : String × St} :
    c ∈ (is.map (Instance.run mode ctx)).filterMap Ran.collected ↔
      ∃ i ∈ is, (i.run mode ctx).collected = some c := by
  simp only [List.mem_filterMap, List.mem_map]
  constructor
  · rintro ⟨_, ⟨i, hi, rfl⟩, hc⟩
    exact ⟨i, hi, hc⟩
  · rintro ⟨i, hi, hc⟩
    exact ⟨_, ⟨i, hi, rfl⟩, hc⟩

/-- What is collected under an identifier, when one instance at most has
it: possibly several times. -/
theorem collected_get? {i : Instance Ctx St} (hi : i ∈ e.running ctx)
    (hunique : ∀ j ∈ e.running ctx, j.policy.policyId = i.policy.policyId → j = i) :
    (e.after ctx).collectedState.get? i.policy.policyId
      = ((i.run e.failMode ctx).collected).map Prod.snd := by
  have hmem : ∀ st, (i.policy.policyId, st) ∈
      ((e.running ctx).map (Instance.run e.failMode ctx)).filterMap Ran.collected ↔
      (i.run e.failMode ctx).collected = some (i.policy.policyId, st) := by
    intro st
    rw [mem_collected]
    constructor
    · rintro ⟨j, hj, hc⟩
      exact (hunique j hj (collected_policyId hc).symm) ▸ hc
    · exact fun hc => ⟨i, hi, hc⟩
  unfold PolicyEngine.after
  cases hc : (i.run e.failMode ctx).collected with
  | none =>
    refine Dict.get?_upsertEach_not_mem fun hkey => ?_
    obtain ⟨⟨k, st⟩, hst, rfl⟩ := List.mem_map.mp hkey
    rw [(hmem st).mp hst] at hc
    cases hc
  | some c =>
    obtain ⟨k, st⟩ := c
    obtain rfl : k = i.policy.policyId := collected_policyId hc
    refine Dict.get?_upsertEach_const (fun st' hst' => ?_) (.inl ((hmem st).mpr hc))
    rw [(hmem st').mp hst'] at hc
    cases hc
    rfl

theorem collected_get?_none {id : String} (h : ∀ j ∈ e.running ctx, j.policy.policyId ≠ id) :
    (e.after ctx).collectedState.get? id = none := by
  unfold PolicyEngine.after
  refine Dict.get?_upsertEach_not_mem fun hkey => ?_
  obtain ⟨c, hc, rfl⟩ := List.mem_map.mp hkey
  obtain ⟨j, hj, hc⟩ := mem_collected.mp hc
  exact h j hj (collected_policyId hc).symm

end PolicyEngine

namespace Setup

variable {setup : Setup Ctx St}

/-- The states that a session has confirmed. -/
def statesOf (confirmed : Option (PolicyConfirmed St)) : Dict String St :=
  (confirmed.map (·.policyStates)).getD Dict.empty

/-- A policy as a hook restores it. -/
def restoredPolicy (confirmed : Option (PolicyConfirmed St)) (p : Policy Ctx St) :
    Instance Ctx St := ⟨p, p.restoreState p.initial (statesOf confirmed)⟩

theorem restored_eq (setup : Setup Ctx St) (confirmed : Option (PolicyConfirmed St)) :
    setup.restored confirmed = { setup.engine with
      policies := setup.policies.map (restoredPolicy confirmed)
      resolver := setup.resolver.map (restoredPolicy confirmed) } := by
  cases confirmed with
  | none =>
    have hnone : (restoredPolicy none : Policy Ctx St → Instance Ctx St) = Policy.start := by
      funext p
      cases hm : p.memory <;> simp [restoredPolicy, statesOf, Policy.restoreState, Policy.start, hm]
    rw [hnone]
    rfl
  | some c =>
    show PolicyEngine.restoreState _ (some _) = _
    simp only [PolicyEngine.restoreState, engine, List.map_map, Option.map_map]
    rfl

theorem statesOf_persisted (confirmed : Option (PolicyConfirmed St)) (ctx : Ctx) (id : String) :
    (statesOf (some (setup.persisted confirmed ctx))).get? id
      = (((setup.restored confirmed).after ctx).collectedState.get? id).or
          ((statesOf confirmed).get? id) := Dict.get?_update _ _ _

/-- Policies are told apart by their identifiers, and the resolver is not
among the registered ones. -/
structure UniqueIds (setup : Setup Ctx St) : Prop where
  policies : ∀ p ∈ setup.policies, ∀ q ∈ setup.policies, p.policyId = q.policyId → p = q
  resolver : ∀ r, setup.resolver = some r → ∀ p ∈ setup.policies, p.policyId ≠ r.policyId

/-- What a hook runs is restored. -/
theorem mem_running {confirmed : Option (PolicyConfirmed St)} {ctx : Ctx} {i : Instance Ctx St}
    (h : i ∈ (setup.restored confirmed).running ctx) :
    ∃ p, (p ∈ setup.policies ∨ setup.resolver = some p ∧
      (setup.restored confirmed).invoked ctx = some i) ∧ i = restoredPolicy confirmed p := by
  unfold PolicyEngine.running at h
  rcases List.mem_append.mp h with h | h
  · rw [restored_eq] at h
    obtain ⟨p, hp, rfl⟩ := List.mem_map.mp h
    exact ⟨p, .inl hp, rfl⟩
  · rw [Option.mem_toList] at h
    have hresolver := (PolicyEngine.invoked_some.mp h).1
    rw [restored_eq] at hresolver
    obtain ⟨p, hp, rfl⟩ := Option.map_eq_some_iff.mp hresolver
    exact ⟨p, .inr ⟨hp, h⟩, rfl⟩

theorem UniqueIds.eq_of_running (hids : setup.UniqueIds) {confirmed : Option (PolicyConfirmed St)}
    {ctx : Ctx} {p : Policy Ctx St} (hp : p ∈ setup.policies ∨ setup.resolver = some p)
    {j : Instance Ctx St} (hj : j ∈ (setup.restored confirmed).running ctx)
    (hid : j.policy.policyId = p.policyId) : j = restoredPolicy confirmed p := by
  obtain ⟨q, hq, rfl⟩ := mem_running hj
  rcases hp with hp | hp
  · rcases hq with hq | ⟨hq, -⟩
    · rw [hids.policies q hq p hp hid]
    · exact absurd hid.symm (hids.resolver q hq p hp)
  · rcases hq with hq | ⟨hq, -⟩
    · exact absurd hid (hids.resolver p hp q hq)
    · rw [hp] at hq
      cases hq
      rfl

/-- What is stored for a policy that has run. -/
theorem stored_of_running (hids : setup.UniqueIds) {confirmed : Option (PolicyConfirmed St)}
    {ctx : Ctx} {p : Policy Ctx St} (hp : p ∈ setup.policies ∨ setup.resolver = some p)
    (hrun : restoredPolicy confirmed p ∈ (setup.restored confirmed).running ctx) :
    (statesOf (some (setup.persisted confirmed ctx))).get? p.policyId
      = (((restoredPolicy confirmed p).run setup.failMode ctx).collected.map Prod.snd).or
          ((statesOf confirmed).get? p.policyId) := by
  rw [statesOf_persisted]
  have hget := PolicyEngine.collected_get? hrun fun j hj hid => hids.eq_of_running hp hj hid
  have hmode : (setup.restored confirmed).failMode = setup.failMode := by
    rw [restored_eq]
    rfl
  rw [hmode] at hget
  rw [← hget]
  rfl

/-- What is stored for a policy that has not run. -/
theorem stored_of_not_running (hids : setup.UniqueIds)
    {confirmed : Option (PolicyConfirmed St)} {ctx : Ctx} {p : Policy Ctx St}
    (hp : p ∈ setup.policies ∨ setup.resolver = some p)
    (hrun : restoredPolicy confirmed p ∉ (setup.restored confirmed).running ctx) :
    (statesOf (some (setup.persisted confirmed ctx))).get? p.policyId
      = (statesOf confirmed).get? p.policyId := by
  rw [statesOf_persisted, PolicyEngine.collected_get?_none, Option.none_or]
  intro j hj hid
  exact hrun (hids.eq_of_running hp hj hid ▸ hj)

/-- Restoring what was stored gives a state like the one that was left. -/
theorem restoredPolicy_after (hids : setup.UniqueIds) {confirmed : Option (PolicyConfirmed St)}
    {ctx : Ctx} {p : Policy Ctx St} (hp : p ∈ setup.policies ∨ setup.resolver = some p)
    (hrestorable : p.Restorable)
    (hrun : restoredPolicy confirmed p ∈ (setup.restored confirmed).running ctx) :
    (restoredPolicy (some (setup.persisted confirmed ctx)) p).Alike
      ((restoredPolicy confirmed p).run setup.failMode ctx).after := by
  have hstored := stored_of_running hids hp hrun
  have hsame : ((restoredPolicy confirmed p).run setup.failMode ctx).collected = none →
      restoredPolicy (some (setup.persisted confirmed ctx)) p = restoredPolicy confirmed p := by
    intro hnone
    rw [hnone, Option.map_none, Option.none_or] at hstored
    unfold restoredPolicy Policy.restoreState
    rw [hstored]
  rcases run_cases setup.failMode ctx p (p.restoreState p.initial (statesOf confirmed)) with
    ⟨-, hafter, hcollected⟩ | ⟨e, happlies, hraise, hafter, hcollected⟩ |
    ⟨happlies, hafter, hcollected⟩
  · rw [hsame hcollected]
    unfold restoredPolicy
    rw [hafter]
    exact .refl _
  · rw [hsame hcollected]
    unfold restoredPolicy
    rw [hafter]
    exact .mk (hrestorable.raising _ ctx e happlies hraise).symm
  · cases hm : p.memory with
    | none =>
      rw [hm] at hcollected
      rw [hsame hcollected]
      have hstateless := hrestorable.stateless hm
        (p.restoreState p.initial (statesOf confirmed)) ctx
      unfold restoredPolicy
      rw [run_after_eq]
      exact .mk hstateless.symm
    | some m =>
      obtain ⟨st, hst, halike⟩ := hrestorable.round_trip m hm
        (p.evaluate (p.restoreState p.initial (statesOf confirmed)) ctx).2
      rw [hm, Option.bind_some, hst] at hcollected
      unfold restoredPolicy at hstored ⊢
      rw [hcollected] at hstored
      rw [hafter, Policy.restoreState_stored hm hstored]
      exact .mk halike

/-- A policy that has not run is restored as before. -/
theorem restoredPolicy_same (hids : setup.UniqueIds) {confirmed : Option (PolicyConfirmed St)}
    {ctx : Ctx} {p : Policy Ctx St} (hp : p ∈ setup.policies ∨ setup.resolver = some p)
    (hrun : restoredPolicy confirmed p ∉ (setup.restored confirmed).running ctx) :
    restoredPolicy (some (setup.persisted confirmed ctx)) p = restoredPolicy confirmed p := by
  unfold restoredPolicy Policy.restoreState
  rw [stored_of_not_running hids hp hrun]

/-- One hook: the engine of the next one is like the engine of this one
after its action. -/
theorem restored_persisted (hids : setup.UniqueIds)
    (hrestorable : ∀ p, p ∈ setup.policies ∨ setup.resolver = some p → p.Restorable)
    (confirmed : Option (PolicyConfirmed St)) (ctx : Ctx) :
    (setup.restored (some (setup.persisted confirmed ctx))).Pointwise
      ((setup.restored confirmed).after ctx) := by
  have hpolicies : (setup.restored confirmed).policies
      = setup.policies.map (restoredPolicy confirmed) := by rw [restored_eq]
  have hmode : (setup.restored confirmed).failMode = setup.failMode := by rw [restored_eq]; rfl
  have hresolver : (setup.restored confirmed).resolver
      = setup.resolver.map (restoredPolicy confirmed) := by rw [restored_eq]
  rw [restored_eq]
  refine ⟨?_, hmode.symm, ?_⟩
  · unfold PolicyEngine.after
    simp only [hpolicies, hmode, List.map_map]
    rw [List.forall₂_map_left_iff, List.forall₂_map_right_iff, List.forall₂_same]
    intro p hp
    refine restoredPolicy_after hids (.inl hp) (hrestorable p (.inl hp)) ?_
    exact List.mem_append_left _ (hpolicies ▸ List.mem_map_of_mem hp)
  · unfold PolicyEngine.after
    simp only [hresolver, hmode]
    cases hr : setup.resolver with
    | none =>
      have hinvoked : (setup.restored confirmed).invoked ctx = none := by
        cases hi : (setup.restored confirmed).invoked ctx with
        | none => rfl
        | some i =>
          have hsome := (PolicyEngine.invoked_some.mp hi).1
          rw [hresolver, hr] at hsome
          cases hsome
      rw [hinvoked]
      exact .none
    | some r =>
      cases hi : (setup.restored confirmed).invoked ctx with
      | none =>
        have hrun : restoredPolicy confirmed r ∉ (setup.restored confirmed).running ctx := by
          intro hrun
          obtain ⟨q, hq | ⟨-, hq⟩, heq⟩ := mem_running hrun
          · refine hids.resolver r hr q hq ?_
            exact (congrArg (fun i => i.policy.policyId) heq).symm
          · rw [hi] at hq
            cases hq
        simp only [Option.map_some, Option.map_none, Option.none_or]
        rw [restoredPolicy_same hids (.inr hr) hrun]
        exact .some (.refl _)
      | some i =>
        have hsome := (PolicyEngine.invoked_some.mp hi).1
        rw [hresolver, hr] at hsome
        cases hsome
        refine .some (restoredPolicy_after hids (.inr hr) (hrestorable r (.inr hr)) ?_)
        unfold PolicyEngine.running
        rw [hi]
        exact List.mem_append_right _ (List.mem_singleton_self _)

/-- A sequence of hooks decides as one engine. -/
theorem hooks_eq (hids : setup.UniqueIds)
    (hrestorable : ∀ p, p ∈ setup.policies ∨ setup.resolver = some p → p.Restorable)
    (ctxs : List Ctx) : ∀ confirmed : Option (PolicyConfirmed St),
    setup.hooks confirmed ctxs = (setup.restored confirmed).evaluateAll ctxs := by
  induction ctxs with
  | nil => exact fun _ => rfl
  | cons ctx rest ih =>
    intro confirmed
    rw [hooks, PolicyEngine.evaluateAll, ih]
    have halike := (restored_persisted hids hrestorable confirmed ctx).alike
    rw [PolicyEngine.evaluateAll_alike halike rest]
    rfl

/-! ## 7. The decision log -/

theorem appendDecision_eq (log : List LogEntry) (entry : LogEntry) :
    appendDecision log entry = (log ++ [entry]).rtake maxDecisionLog := by
  unfold appendDecision
  split
  · rfl
  · rename_i h
    have hzero : (log ++ [entry]).length - maxDecisionLog = 0 := by omega
    rw [List.rtake, hzero, List.drop_zero]

theorem rtake_append_rtake {α : Type} (n : Nat) (l m : List α) :
    (l.rtake n ++ m).rtake n = (l ++ m).rtake n := by
  unfold List.rtake
  have hdrop : l.drop (l.length - n) ++ m = (l ++ m).drop (l.length - n) := by
    rw [List.drop_append_of_le_length (by omega)]
  rw [hdrop, List.drop_drop, List.length_drop, List.length_append]
  congr 1
  omega

/-- The entries of a sequence of hooks. -/
def entries (setup : Setup Ctx St) (confirmed : Option (PolicyConfirmed St)) (ctxs : List Ctx) :
    List LogEntry :=
  List.zipWith (fun result ctx => ⟨result, setup.summary ctx⟩) (setup.hooks confirmed ctxs) ctxs

def logOf (confirmed : Option (PolicyConfirmed St)) : List LogEntry :=
  (confirmed.map (·.decisions)).getD []

theorem log_persisted (confirmed : Option (PolicyConfirmed St)) (ctx : Ctx) :
    logOf (some (setup.persisted confirmed ctx))
      = (logOf confirmed ++ setup.entries confirmed [ctx]).rtake maxDecisionLog :=
  appendDecision_eq _ _

theorem log_confirmedAfter (ctxs : List Ctx) : ∀ confirmed : Option (PolicyConfirmed St),
    ctxs ≠ [] → logOf (setup.confirmedAfter confirmed ctxs)
      = (logOf confirmed ++ setup.entries confirmed ctxs).rtake maxDecisionLog := by
  induction ctxs with
  | nil => exact fun _ h => absurd rfl h
  | cons ctx rest ih =>
    intro confirmed _
    have hentries : setup.entries confirmed (ctx :: rest) = setup.entries confirmed [ctx]
        ++ setup.entries (some (setup.persisted confirmed ctx)) rest := rfl
    rw [confirmedAfter, hentries, ← List.append_assoc]
    cases rest with
    | nil =>
      rw [confirmedAfter, log_persisted]
      simp [entries, hooks]
    | cons ctx' rest' => rw [ih _ (by simp), log_persisted, rtake_append_rtake]

/-- **Hooks and engine.** A sequence of hooks decides as one engine that
lives through it; a policy that does not apply to an action keeps its
stored state; and the log holds the last decisions in order. -/
theorem hooks_eq_evaluateAll (setup : Setup Ctx St) (hids : setup.UniqueIds)
    (hrestorable : ∀ p, p ∈ setup.policies ∨ setup.resolver = some p → p.Restorable)
    (confirmed : Option (PolicyConfirmed St)) (ctxs : List Ctx) :
    setup.hooks confirmed ctxs = (setup.restored confirmed).evaluateAll ctxs ∧
    (∀ c ctx, ∀ i ∈ (setup.restored c).allPolicies,
      i.policy.appliesTo i.state ctx ≠ .ok true →
      (setup.persisted c ctx).policyStates.get? i.policy.policyId
        = (statesOf c).get? i.policy.policyId) ∧
    (ctxs ≠ [] → logOf (setup.confirmedAfter confirmed ctxs)
      = (logOf confirmed ++ setup.entries confirmed ctxs).rtake maxDecisionLog) := by
  refine ⟨hooks_eq hids hrestorable ctxs confirmed, ?_, log_confirmedAfter ctxs confirmed⟩
  intro c ctx i hi happlies
  obtain ⟨p, hp, rfl⟩ : ∃ p, (p ∈ setup.policies ∨ setup.resolver = some p) ∧
      i = restoredPolicy c p := by
    rw [restored_eq] at hi
    rcases List.mem_append.mp hi with hi | hi
    · obtain ⟨p, hp, rfl⟩ := List.mem_map.mp hi
      exact ⟨p, .inl hp, rfl⟩
    · obtain ⟨p, hp, rfl⟩ := Option.map_eq_some_iff.mp (Option.mem_toList.mp hi)
      exact ⟨p, .inr hp, rfl⟩
  show (statesOf (some (setup.persisted c ctx))).get? p.policyId = _
  by_cases hrun : restoredPolicy c p ∈ (setup.restored c).running ctx
  · rw [stored_of_running hids hp hrun]
    have hcollected : ((restoredPolicy c p).run setup.failMode ctx).collected = none := by
      rcases run_cases setup.failMode ctx p (p.restoreState p.initial (statesOf c)) with
        ⟨-, -, hc⟩ | ⟨e, h, -⟩ | ⟨h, -⟩
      · exact hc
      · exact absurd h happlies
      · exact absurd h happlies
    rw [hcollected, Option.map_none, Option.none_or]
    rfl
  · exact stored_of_not_running hids hp hrun

end Setup

/-- Tests before implementation, on actions that only say whether they
touch a test. -/
def testsFirst : Policy Bool Bool where
  policyId := "tdd.tests-before-impl"
  State := Bool
  initial := false
  appliesTo := fun _ _ => .ok true
  evaluate := fun touched isTest =>
    if isTest then (.ok ⟨.allow, "tdd.tests-before-impl", [], [], none, false, none, []⟩, true)
    else if touched then
      (.ok ⟨.allow, "tdd.tests-before-impl", [], [], none, false, none, []⟩, touched)
    else (.ok ⟨.deny, "tdd.tests-before-impl", [], [], none, false, none, []⟩, touched)
  memory := some ⟨some, fun _ st => st⟩

theorem testsFirst_restorable : testsFirst.Restorable where
  round_trip := by
    intro m hm s
    cases hm
    exact ⟨s, rfl, .refl _ _⟩
  stateless := by
    intro h
    cases h
  raising := by
    intro s ctx e _ h
    cases s <;> cases ctx <;> cases h

def testsFirstSetup : Setup Bool Bool where
  policies := [testsFirst]
  failMode := .allowing
  resolver := none
  bundles := ["tdd"]
  summary := fun _ => none

/-- The second and the third hook see what the first ones have stored. -/
theorem testsFirst_hooks :
    testsFirstSetup.hooks none [false, true, false]
      = (testsFirstSetup.restored none).evaluateAll [false, true, false] ∧
    (testsFirstSetup.hooks none [false, true, false]).map (·.finalDecision)
      = [.deny, .allow, .allow] := by
  refine ⟨(testsFirstSetup.hooks_eq_evaluateAll ⟨?_, ?_⟩ ?_ none [false, true, false]).1, by decide⟩
  · intro p hp q hq _
    rw [List.mem_singleton.mp hp, List.mem_singleton.mp hq]
  · intro r hr
    cases hr
  · rintro p (hp | hp)
    · rw [List.mem_singleton.mp hp]
      exact testsFirst_restorable
    · cases hp

end MultiForge.Engine
