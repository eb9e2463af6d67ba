/-
MultiForge.Engine.PolicyMemory — `policy_check` and `codex_policy_check`:
concurrent hooks on one session.

A hook reads the manifest, evaluates its contexts with one engine restored
from what it has read, and persists: a decision-log entry for every context
and, when nothing blocks the action, the states its policies have
collected. Only the last step holds the lock of the manifest, so the
persisted states may be built on a manifest that others have changed since.

A schedule is the list of hooks in the order of their steps, each hook
taking its next step. `policyMemory_iff` says when the remembered test
paths are right in every state of a schedule: exactly when no hook puts its
copy over test paths it has not seen.
-/
import MultiForge.Engine.TddPolicy

namespace MultiForge.Engine

variable {F : Type}

/-! ## 1. One hook -/

/-- What a hook has been called for. -/
inductive Call where
  /-- `policy_check`, on the one context of a Write or an Edit -/
  | claude (context : ActionContext)
  /-- `codex_policy_check`, on the contexts of a patch -/
  | codex (contexts : List ActionContext)

def Call.contexts : Call → List ActionContext
  | .claude context => [context]
  | .codex contexts => sortContextsTestsFirst contexts

/-- A hook whose configuration has the `tdd` bundle. -/
structure Hook (F : Type) where
  strict : Bool
  setup : Setup ActionContext (Json F)
  call : Call
  registered : tddEnforcement strict ∈ setup.policies
  uniqueIds : setup.UniqueIds

/-- What a session has confirmed. -/
abbrev Confirmed (F : Type) : Type := Option (PolicyConfirmed (Json F))

/-- `aggregated_state`: `evaluate` clears what it has collected before. -/
def PolicyEngine.collectAll {Ctx St : Type} (e : PolicyEngine Ctx St) :
    List Ctx → Dict String St → Dict String St
  | [], aggregated => aggregated
  | ctx :: rest, aggregated => (e.after ctx).collectAll rest
      (Dict.upsertEach (fun _ st => st) (e.after ctx).collectedState.entries aggregated)

/-- A deny or an open review. -/
def blocked (results : List CompositeDecision) : Bool :=
  results.any fun r => r.finalDecision == .deny || r.finalDecision == .needsReview

namespace Hook

def contexts (hook : Hook F) : List ActionContext := hook.call.contexts

def engine (hook : Hook F) (snapshot : Confirmed F) : PolicyEngine ActionContext (Json F) :=
  hook.setup.restored snapshot

def results (hook : Hook F) (snapshot : Confirmed F) : List CompositeDecision :=
  (hook.engine snapshot).evaluateAll hook.contexts

/-- `engine_state={}` when the action is blocked. -/
def engineState (hook : Hook F) (snapshot : Confirmed F) : Dict String (Json F) :=
  if blocked (hook.results snapshot) then Dict.empty
  else (hook.engine snapshot).collectAll hook.contexts Dict.empty

/-- `_persist_policy_decisions`, under the lock. -/
def persist (hook : Hook F) (results : List CompositeDecision) (engineState : Dict String (Json F))
    (confirmed : Confirmed F) : Confirmed F :=
  (List.zip results hook.contexts).foldl (fun state entry =>
    some (buildPolicyStateUpdate entry.1 engineState state none hook.setup.bundles
      hook.setup.engine.registeredPolicyIds (hook.setup.summary entry.2))) confirmed

/-- The log entries of a hook. -/
def entries (hook : Hook F) (results : List CompositeDecision) : List LogEntry :=
  List.zipWith (fun result ctx => ⟨result, hook.setup.summary ctx⟩) results hook.contexts

/-- The test paths of the action. -/
def testPaths (hook : Hook F) : List (Item F) := hook.contexts.flatMap (Tdd.testPaths F)

/-- Whether tests-before-impl takes part. -/
def runsTdd (hook : Hook F) : Bool := hook.contexts.any Tdd.appliesTo

end Hook

/-! ## 2. All hooks of a session -/

inductive Phase (F : Type) where
  | idle
  | read (snapshot : Confirmed F)
  | evaluated (snapshot : Confirmed F) (results : List CompositeDecision)
      (engineState : Dict String (Json F))
  | done

structure HookWorld (F : Type) where
  confirmed : Confirmed F
  phase : ℕ → Phase F
  /-- the hooks that have persisted, in that order, with their results -/
  persisted : List (ℕ × List CompositeDecision)

namespace HookWorld

def start (initial : Confirmed F) : HookWorld F where
  confirmed := initial
  phase := fun _ => .idle
  persisted := []

/-- The next step of a hook. -/
def step (hooks : ℕ → Hook F) (w : HookWorld F) (h : ℕ) : HookWorld F :=
  match w.phase h with
  | .idle => { w with phase := Function.update w.phase h (.read w.confirmed) }
  | .read snapshot =>
      { w with
        phase := Function.update w.phase h
          (.evaluated snapshot ((hooks h).results snapshot) ((hooks h).engineState snapshot)) }
  | .evaluated _ results engineState =>
      { confirmed := (hooks h).persist results engineState w.confirmed
        phase := Function.update w.phase h .done
        persisted := w.persisted ++ [(h, results)] }
  | .done => w

/-- Hooks that take their steps in the order of a schedule. -/
def run (hooks : ℕ → Hook F) (initial : Confirmed F) (schedule : List ℕ) : HookWorld F :=
  schedule.foldl (step hooks) (start initial)

end HookWorld

/-- The test paths that a hook restores from what a session has confirmed. -/
def testsTouched (confirmed : Confirmed F) : List (Item F) :=
  match (Setup.statesOf confirmed).get? Tdd.policyId with
  | none => []
  | some state => Tdd.setState [] state

namespace HookWorld

/-- What has to hold before a step: a hook that is not blocked and that has
run tests-before-impl knows the stored test paths when it persists. -/
def Current (hooks : ℕ → Hook F) (w : HookWorld F) (h : ℕ) : Prop :=
  ∀ snapshot results engineState, w.phase h = .evaluated snapshot results engineState →
    blocked results = false → (hooks h).runsTdd = true →
    ∀ x ∈ testsTouched w.confirmed, x ∈ testsTouched snapshot ∨ x ∈ (hooks h).testPaths

/-- The remembered test paths are those of the actions that were not
blocked, and the initial ones. -/
def Remembers (hooks : ℕ → Hook F) (initial : Confirmed F) (w : HookWorld F) : Prop :=
  ∀ x, x ∈ testsTouched w.confirmed ↔ x ∈ testsTouched initial ∨
    ∃ p ∈ w.persisted, blocked p.2 = false ∧ x ∈ (hooks p.1).testPaths

/-- The log has the last entries in the order of their persists. -/
def Logs (hooks : ℕ → Hook F) (initial : Confirmed F) (w : HookWorld F) : Prop :=
  Setup.logOf w.confirmed = Setup.logOf initial ∧
      w.persisted.flatMap (fun p => (hooks p.1).entries p.2) = [] ∨
    Setup.logOf w.confirmed = (Setup.logOf initial ++
      w.persisted.flatMap fun p => (hooks p.1).entries p.2).rtake maxDecisionLog

/-- Once a test action has persisted that was not blocked, tests-before-impl
denies nothing in a hook that starts. -/
def Admits (hooks : ℕ → Hook F) (w : HookWorld F) : Prop :=
  (∃ p ∈ w.persisted, blocked p.2 = false ∧ (hooks p.1).testPaths ≠ []) →
    ∀ (hook : Hook F) pre ctx post, hook.contexts = pre ++ ctx :: post →
    ∀ i ∈ (pre.foldl PolicyEngine.after (hook.engine w.confirmed)).policies,
    i.policy.policyId = Tdd.policyId →
    ∀ d, (i.run hook.setup.failMode ctx).decision = some d → d.decision ≠ .deny

end HookWorld

/-! ## 3. Tests-before-impl in an engine -/

namespace Tdd

/-- The engine has the policy in one state. -/
structure In (e : PolicyEngine ActionContext (Json F)) (strict : Bool)
    (touched : List (Item F)) : Prop where
  mem : (⟨tddEnforcement strict, touched⟩ : Instance ActionContext (Json F)) ∈ e.policies
  unique : ∀ i ∈ e.policies, i.policy.policyId = policyId → i = ⟨tddEnforcement strict, touched⟩
  resolver : ∀ r, e.resolver = some r → r.policy.policyId ≠ policyId

variable {e : PolicyEngine ActionContext (Json F)} {strict : Bool} {touched : List (Item F)}
  {ctx : ActionContext}

theorem run_after (mode : FailMode) :
    ((⟨tddEnforcement strict, touched⟩ : Instance ActionContext (Json F)).run mode ctx).after
      = ⟨tddEnforcement strict, touched ++ testPaths F ctx⟩ := by
  rw [run_after_eq]
  congr 1
  cases happlies : appliesTo ctx with
  | false =>
    rw [testPaths_eq_nil happlies, List.append_nil]
    simp only [Policy.machine, happlies]
  | true =>
    simp only [Policy.machine, happlies]
    exact evaluate_touched touched happlies

theorem run_collected (mode : FailMode) :
    ((⟨tddEnforcement strict, touched⟩ : Instance ActionContext (Json F)).run mode ctx).collected
      = if appliesTo ctx then some (policyId, getState (touched ++ testPaths F ctx)) else none := by
  have happliesTo : (tddEnforcement strict : Policy ActionContext (Json F)).appliesTo touched ctx
      = .ok (appliesTo ctx) := rfl
  unfold Instance.run
  rw [happliesTo]
  cases happlies : appliesTo ctx with
  | false => rfl
  | true =>
    rw [← evaluate_touched touched happlies]
    rfl

theorem run_decision (mode : FailMode) :
    ((⟨tddEnforcement strict, touched⟩ : Instance ActionContext (Json F)).run mode ctx).decision
      = if appliesTo ctx then some (evaluate strict touched ctx).1 else none := by
  have happliesTo : (tddEnforcement strict : Policy ActionContext (Json F)).appliesTo touched ctx
      = .ok (appliesTo ctx) := rfl
  unfold Instance.run
  rw [happliesTo]
  cases appliesTo ctx <;> rfl

theorem In.after (h : In e strict touched) (ctx : ActionContext) :
    In (e.after ctx) strict (touched ++ testPaths F ctx) where
  mem := by
    rw [← run_after e.failMode]
    exact List.mem_map.mpr ⟨_, h.mem, rfl⟩
  unique := by
    intro i hi hid
    obtain ⟨j, hj, rfl⟩ := List.mem_map.mp hi
    have hpolicy : (j.run e.failMode ctx).after.policy = j.policy := by
      rw [run_after_eq e.failMode ctx j.policy j.state]
    rw [hpolicy] at hid
    rw [h.unique j hj hid, run_after]
  resolver := by
    intro r hr
    unfold PolicyEngine.after at hr
    cases hinvoked : e.invoked ctx with
    | none =>
      rw [hinvoked] at hr
      exact h.resolver r hr
    | some i =>
      rw [hinvoked] at hr
      cases hr
      show (i.run e.failMode ctx).after.policy.policyId ≠ policyId
      rw [run_after_eq e.failMode ctx i.policy i.state]
      exact h.resolver i (PolicyEngine.invoked_some.mp hinvoked).1

theorem In.foldl_after (h : In e strict touched) (ctxs : List ActionContext) :
    In (ctxs.foldl PolicyEngine.after e) strict (touched ++ ctxs.flatMap (testPaths F)) := by
  induction ctxs generalizing e touched with
  | nil =>
    rw [List.flatMap_nil, List.append_nil]
    exact h
  | cons ctx rest ih =>
    rw [List.foldl_cons, List.flatMap_cons, ← List.append_assoc]
    exact ih (h.after ctx)

theorem In.collected (h : In e strict touched) (ctx : ActionContext) :
    (e.after ctx).collectedState.get? policyId
      = if appliesTo ctx then some (getState (touched ++ testPaths F ctx)) else none := by
  have hrun : (⟨tddEnforcement strict, touched⟩ : Instance ActionContext (Json F))
      ∈ e.running ctx := List.mem_append_left _ h.mem
  have hget := PolicyEngine.collected_get? hrun fun j hj hid => by
    rcases List.mem_append.mp hj with hj | hj
    · exact h.unique j hj hid
    · have hresolver := (PolicyEngine.invoked_some.mp (Option.mem_toList.mp hj)).1
      exact absurd hid (h.resolver j hresolver)
  rw [run_collected] at hget
  refine Eq.trans hget ?_
  split <;> rfl

/-- What is aggregated over the contexts of a patch. -/
theorem In.collectAll (h : In e strict touched) (ctxs : List ActionContext)
    (aggregated : Dict String (Json F)) :
    (e.collectAll ctxs aggregated).get? policyId
      = if ctxs.any appliesTo then some (getState (touched ++ ctxs.flatMap (testPaths F)))
        else aggregated.get? policyId := by
  induction ctxs generalizing e touched aggregated with
  | nil => rfl
  | cons ctx rest ih =>
    have hupdate : (Dict.upsertEach (fun _ st => st) (e.after ctx).collectedState.entries
        aggregated).get? policyId = ((e.after ctx).collectedState.get? policyId).or
          (aggregated.get? policyId) := Dict.get?_update _ _ _
    rw [PolicyEngine.collectAll, ih (h.after ctx), hupdate, h.collected, List.any_cons,
      List.flatMap_cons, ← List.append_assoc]
    by_cases hrest : rest.any appliesTo = true
    · simp [hrest]
    · have hnone : rest.flatMap (testPaths F) = [] := by
        rw [List.flatMap_eq_nil_iff]
        intro c hc
        refine testPaths_eq_nil ?_
        by_contra happlies
        exact hrest (List.any_eq_true.mpr ⟨c, hc, by simpa using happlies⟩)
      rw [Bool.not_eq_true] at hrest
      rw [hnone, hrest, List.append_nil]
      cases happlies : appliesTo ctx <;> simp

end Tdd

/-! ## 4. One persist -/

theorem restoredPolicy_tdd (confirmed : Confirmed F) (strict : Bool) :
    Setup.restoredPolicy confirmed (tddEnforcement strict)
      = ⟨tddEnforcement strict, testsTouched confirmed⟩ := by
  unfold Setup.restoredPolicy Policy.restoreState testsTouched
  cases (Setup.statesOf confirmed).get? Tdd.policyId <;> rfl

theorem testsTouched_of_stored {confirmed : Confirmed F} {touched : List (Item F)}
    (h : (Setup.statesOf confirmed).get? Tdd.policyId = some (Tdd.getState touched)) :
    testsTouched confirmed = touched := by
  unfold testsTouched
  rw [h]
  exact Tdd.setState_getState [] touched

theorem testsTouched_congr {c c' : Confirmed F}
    (h : (Setup.statesOf c).get? Tdd.policyId = (Setup.statesOf c').get? Tdd.policyId) :
    testsTouched c = testsTouched c' := by
  unfold testsTouched
  rw [h]

namespace Hook

variable (hook : Hook F) (snapshot confirmed : Confirmed F)

theorem engine_in : Tdd.In (hook.engine snapshot) hook.strict (testsTouched snapshot) := by
  have hpolicies : (hook.engine snapshot).policies
      = hook.setup.policies.map (Setup.restoredPolicy snapshot) := by
    unfold engine
    rw [Setup.restored_eq]
  refine ⟨?_, ?_, ?_⟩
  · rw [hpolicies, ← restoredPolicy_tdd]
    exact List.mem_map_of_mem hook.registered
  · intro i hi hid
    rw [hpolicies] at hi
    obtain ⟨p, hp, rfl⟩ := List.mem_map.mp hi
    rw [hook.uniqueIds.policies p hp _ hook.registered hid, restoredPolicy_tdd]
  · intro r hr
    unfold engine at hr
    rw [Setup.restored_eq] at hr
    obtain ⟨p, hp, rfl⟩ := Option.map_eq_some_iff.mp hr
    exact (hook.uniqueIds.resolver p hp _ hook.registered).symm

theorem length_results : (hook.results snapshot).length = hook.contexts.length := by
  unfold results
  generalize hook.engine snapshot = e
  induction hook.contexts generalizing e with
  | nil => rfl
  | cons ctx rest ih => rw [PolicyEngine.evaluateAll, List.length_cons, List.length_cons, ih]

/-- The states after a persist of at least one entry. -/
theorem statesOf_persist (results : List CompositeDecision) (engineState : Dict String (Json F))
    (id : String) :
    (Setup.statesOf (hook.persist results engineState confirmed)).get? id
      = if List.zip results hook.contexts = [] then (Setup.statesOf confirmed).get? id
        else (engineState.get? id).or ((Setup.statesOf confirmed).get? id) := by
  unfold persist
  generalize List.zip results hook.contexts = l
  induction l generalizing confirmed with
  | nil => rfl
  | cons entry rest ih =>
    rw [List.foldl_cons, ih, if_neg (List.cons_ne_nil _ _)]
    have hone : (Setup.statesOf (some (buildPolicyStateUpdate entry.1 engineState confirmed none
        hook.setup.bundles hook.setup.engine.registeredPolicyIds (hook.setup.summary entry.2)))).get? id
        = (engineState.get? id).or ((Setup.statesOf confirmed).get? id) := Dict.get?_update _ _ _
    rw [hone]
    split
    · rfl
    · cases engineState.get? id <;> rfl

/-- What a persist makes of the test paths. -/
theorem testsTouched_persist :
    testsTouched (hook.persist (hook.results snapshot) (hook.engineState snapshot) confirmed)
      = if blocked (hook.results snapshot) = false ∧ hook.runsTdd = true then
          testsTouched snapshot ++ hook.testPaths
        else testsTouched confirmed := by
  have hstates := hook.statesOf_persist confirmed (hook.results snapshot)
    (hook.engineState snapshot) Tdd.policyId
  have hcollect := (hook.engine_in snapshot).collectAll hook.contexts Dict.empty
  cases hblocked : blocked (hook.results snapshot) with
  | true =>
    have hempty : hook.engineState snapshot = Dict.empty := if_pos hblocked
    rw [if_neg (by simp)]
    refine testsTouched_congr ?_
    rw [hstates, hempty, Dict.get?_empty, Option.none_or, ite_self]
  | false =>
    have hstate : hook.engineState snapshot
        = (hook.engine snapshot).collectAll hook.contexts Dict.empty := if_neg (by simp [hblocked])
    rw [hstate, hcollect] at hstates
    cases hruns : hook.runsTdd with
    | false =>
      rw [if_neg (by simp)]
      refine testsTouched_congr ?_
      unfold runsTdd at hruns
      rw [hstate, hstates, hruns, if_neg Bool.false_ne_true, Dict.get?_empty, Option.none_or, ite_self]
    | true =>
      rw [if_pos ⟨rfl, rfl⟩]
      refine testsTouched_of_stored ?_
      unfold runsTdd at hruns
      have hne : List.zip (hook.results snapshot) hook.contexts ≠ [] := by
        intro hnil
        have hlength := congrArg List.length hnil
        rw [List.length_zip, hook.length_results, Nat.min_self, List.length_nil] at hlength
        rw [List.length_eq_zero_iff.mp hlength] at hruns
        cases hruns
      rw [hstate, hstates, if_neg hne, if_pos hruns]
      rfl

theorem logOf_persist (results : List CompositeDecision) (engineState : Dict String (Json F)) :
    hook.entries results = [] ∧ hook.persist results engineState confirmed = confirmed ∨
    Setup.logOf (hook.persist results engineState confirmed)
      = (Setup.logOf confirmed ++ hook.entries results).rtake maxDecisionLog := by
  have hentries : hook.entries results = (List.zip results hook.contexts).map fun entry =>
      (⟨entry.1, hook.setup.summary entry.2⟩ : LogEntry) := by
    unfold entries
    rw [List.zip_eq_zipWith, List.map_zipWith]
  rw [hentries]
  unfold persist
  generalize List.zip results hook.contexts = l
  induction l generalizing confirmed with
  | nil => exact .inl ⟨rfl, rfl⟩
  | cons entry rest ih =>
    right
    rw [List.foldl_cons, List.map_cons]
    have hone : Setup.logOf (some (buildPolicyStateUpdate entry.1 engineState confirmed none
        hook.setup.bundles hook.setup.engine.registeredPolicyIds (hook.setup.summary entry.2)))
        = (Setup.logOf confirmed ++ [LogEntry.mk entry.1 (hook.setup.summary entry.2)]).rtake
          maxDecisionLog :=
      Setup.appendDecision_eq _ _
    rcases ih (some (buildPolicyStateUpdate entry.1 engineState confirmed none hook.setup.bundles
      hook.setup.engine.registeredPolicyIds (hook.setup.summary entry.2))) with ⟨hnil, hsame⟩ | hlog
    · rw [hsame, hone, hnil]
    · rw [hlog, hone, Setup.rtake_append_rtake, List.append_assoc, List.singleton_append]

theorem testPaths_of_not_runsTdd {hook : Hook F} (h : hook.runsTdd = false) :
    hook.testPaths = [] := by
  unfold testPaths
  rw [List.flatMap_eq_nil_iff]
  intro ctx hctx
  refine Tdd.testPaths_eq_nil ?_
  unfold runsTdd at h
  exact Bool.not_eq_true _ ▸ List.any_eq_false.mp h ctx hctx

end Hook

/-! ## 5. Any order of steps -/

namespace HookWorld

variable {hooks : ℕ → Hook F} {initial : Confirmed F} {w : HookWorld F} {h : ℕ}

/-- Everything a step can do. -/
theorem step_cases (hooks : ℕ → Hook F) (w : HookWorld F) (h : ℕ) :
    (w.phase h = .idle ∧ step hooks w h =
      ⟨w.confirmed, Function.update w.phase h (.read w.confirmed), w.persisted⟩) ∨
    (∃ snapshot, w.phase h = .read snapshot ∧ step hooks w h =
      ⟨w.confirmed, Function.update w.phase h (.evaluated snapshot ((hooks h).results snapshot)
        ((hooks h).engineState snapshot)), w.persisted⟩) ∨
    (∃ snapshot results engineState, w.phase h = .evaluated snapshot results engineState ∧
      step hooks w h = ⟨(hooks h).persist results engineState w.confirmed,
        Function.update w.phase h .done, w.persisted ++ [(h, results)]⟩) ∨
    w.phase h = .done ∧ step hooks w h = w := by
  unfold step
  cases w.phase h with
  | idle => exact .inl ⟨rfl, rfl⟩
  | read snapshot => exact .inr (.inl ⟨snapshot, rfl, rfl⟩)
  | evaluated snapshot results engineState =>
    exact .inr (.inr (.inl ⟨snapshot, results, engineState, rfl, rfl⟩))
  | done => exact .inr (.inr (.inr ⟨rfl, rfl⟩))

/-- A test path that may be remembered. -/
def Accounted (hooks : ℕ → Hook F) (initial : Confirmed F)
    (persisted : List (ℕ × List CompositeDecision)) (x : Item F) : Prop :=
  x ∈ testsTouched initial ∨ ∃ p ∈ persisted, blocked p.2 = false ∧ x ∈ (hooks p.1).testPaths

theorem Accounted.append {l m : List (ℕ × List CompositeDecision)} {x : Item F}
    (hx : Accounted hooks initial l x) : Accounted hooks initial (l ++ m) x := by
  rcases hx with hx | ⟨p, hp, hx⟩
  · exact .inl hx
  · exact .inr ⟨p, List.mem_append_left _ hp, hx⟩

theorem accounted_snoc {l : List (ℕ × List CompositeDecision)} {results : List CompositeDecision}
    {x : Item F} : Accounted hooks initial (l ++ [(h, results)]) x ↔
      Accounted hooks initial l x ∨ blocked results = false ∧ x ∈ (hooks h).testPaths := by
  unfold Accounted
  simp only [List.mem_append, List.mem_singleton, or_and_right, exists_or, exists_eq_left, or_assoc]

/-- What holds in every state, whatever the steps: a hook persists what it
has computed from its snapshot, and nothing is remembered that was not
touched. -/
structure Inv (hooks : ℕ → Hook F) (initial : Confirmed F) (w : HookWorld F) : Prop where
  stored : ∀ x ∈ testsTouched w.confirmed, Accounted hooks initial w.persisted x
  read : ∀ h snapshot, w.phase h = .read snapshot →
    ∀ x ∈ testsTouched snapshot, Accounted hooks initial w.persisted x
  evaluated : ∀ h snapshot results engineState, w.phase h = .evaluated snapshot results engineState →
    results = (hooks h).results snapshot ∧ engineState = (hooks h).engineState snapshot ∧
    ∀ x ∈ testsTouched snapshot, Accounted hooks initial w.persisted x
  logs : Logs hooks initial w

theorem inv_start (hooks : ℕ → Hook F) (initial : Confirmed F) :
    Inv hooks initial (start initial) where
  stored := fun _ hx => .inl hx
  read := fun _ _ hphase => (by cases hphase)
  evaluated := fun _ _ _ _ hphase => (by cases hphase)
  logs := .inl ⟨rfl, rfl⟩

theorem logs_persist {results : List CompositeDecision} {engineState : Dict String (Json F)}
    {phase : ℕ → Phase F} (hlogs : Logs hooks initial w) :
    Logs hooks initial ⟨(hooks h).persist results engineState w.confirmed, phase,
      w.persisted ++ [(h, results)]⟩ := by
  have hsnoc : (w.persisted ++ [(h, results)]).flatMap (fun p => (hooks p.1).entries p.2)
      = w.persisted.flatMap (fun p => (hooks p.1).entries p.2) ++ (hooks h).entries results := by
    simp
  unfold Logs at hlogs ⊢
  simp only
  rw [hsnoc]
  rcases (hooks h).logOf_persist w.confirmed results engineState with ⟨hnil, hsame⟩ | hlog
  · rw [hnil, hsame, List.append_nil]
    exact hlogs
  · right
    rw [hlog]
    rcases hlogs with ⟨hlogs, hnone⟩ | hlogs
    · rw [hlogs, hnone, List.nil_append]
    · rw [hlogs, Setup.rtake_append_rtake, List.append_assoc]

/-- The phases after a step: the new one, or an old one. -/
theorem phase_update {phase : ℕ → Phase F} {new p : Phase F} {h h' : ℕ}
    (hp : Function.update phase h new h' = p) : h' = h ∧ new = p ∨ phase h' = p := by
  by_cases hh : h' = h
  · rw [hh, Function.update_self] at hp
    exact .inl ⟨hh, hp⟩
  · rw [Function.update_of_ne hh] at hp
    exact .inr hp

theorem inv_step (hinv : Inv hooks initial w) (h : ℕ) : Inv hooks initial (step hooks w h) := by
  rcases step_cases hooks w h with ⟨-, hstep⟩ | ⟨snapshot, hphase, hstep⟩ |
    ⟨snapshot, results, engineState, hphase, hstep⟩ | ⟨-, hstep⟩
  · rw [hstep]
    refine ⟨hinv.stored, ?_, ?_, hinv.logs⟩
    · intro h' snapshot hread
      rcases phase_update hread with ⟨-, hnew⟩ | hread
      · cases hnew
        exact hinv.stored
      · exact hinv.read h' snapshot hread
    · intro h' snapshot results engineState hevaluated
      rcases phase_update hevaluated with ⟨-, hnew⟩ | hevaluated
      · cases hnew
      · exact hinv.evaluated h' snapshot results engineState hevaluated
  · rw [hstep]
    refine ⟨hinv.stored, ?_, ?_, hinv.logs⟩
    · intro h' snapshot' hread
      rcases phase_update hread with ⟨-, hnew⟩ | hread
      · cases hnew
      · exact hinv.read h' snapshot' hread
    · intro h' snapshot' results engineState hevaluated
      rcases phase_update hevaluated with ⟨rfl, hnew⟩ | hevaluated
      · cases hnew
        exact ⟨rfl, rfl, hinv.read h' snapshot hphase⟩
      · exact hinv.evaluated h' snapshot' results engineState hevaluated
  · obtain ⟨rfl, rfl, hsnapshot⟩ := hinv.evaluated h snapshot results engineState hphase
    rw [hstep]
    refine ⟨?_, ?_, ?_, logs_persist hinv.logs⟩
    · intro x hx
      rw [Hook.testsTouched_persist] at hx
      rw [accounted_snoc]
      split at hx
      · rename_i hruns
        rcases List.mem_append.mp hx with hx | hx
        · exact .inl (hsnapshot x hx)
        · exact .inr ⟨hruns.1, hx⟩
      · exact .inl (hinv.stored x hx)
    · intro h' snapshot' hread x hx
      rcases phase_update hread with ⟨-, hnew⟩ | hread
      · cases hnew
      · exact (hinv.read h' snapshot' hread x hx).append
    · intro h' snapshot' results engineState hevaluated
      rcases phase_update hevaluated with ⟨-, hnew⟩ | hevaluated
      · cases hnew
      · obtain ⟨hresults, hstate, hseen⟩ :=
          hinv.evaluated h' snapshot' results engineState hevaluated
        exact ⟨hresults, hstate, fun x hx => (hseen x hx).append⟩
  · rw [hstep]
    exact hinv

theorem inv_run (hooks : ℕ → Hook F) (initial : Confirmed F) (schedule : List ℕ) :
    Inv hooks initial (run hooks initial schedule) := by
  induction schedule using List.reverseRecOn with
  | nil => exact inv_start hooks initial
  | append_singleton rest h ih =>
    unfold run
    rw [List.foldl_append]
    exact inv_step ih h

/-- A step keeps the memory right exactly when it is not made on an old
copy. -/
theorem remembers_step (hinv : Inv hooks initial w) (hremembers : Remembers hooks initial w) :
    Remembers hooks initial (step hooks w h) ↔ Current hooks w h := by
  rcases step_cases hooks w h with ⟨hphase, hstep⟩ | ⟨snapshot, hphase, hstep⟩ |
    ⟨snapshot, results, engineState, hphase, hstep⟩ | ⟨hphase, hstep⟩
  · rw [hstep]
    refine ⟨fun _ _ _ _ hevaluated => ?_, fun _ => hremembers⟩
    rw [hphase] at hevaluated
    cases hevaluated
  · rw [hstep]
    refine ⟨fun _ _ _ _ hevaluated => ?_, fun _ => hremembers⟩
    rw [hphase] at hevaluated
    cases hevaluated
  · obtain ⟨rfl, rfl, hsnapshot⟩ := hinv.evaluated h snapshot results engineState hphase
    have hstored : ∀ x, Accounted hooks initial w.persisted x ↔ x ∈ testsTouched w.confirmed :=
      fun x => (hremembers x).symm
    rw [hstep]
    have hafter : Remembers hooks initial ⟨(hooks h).persist ((hooks h).results snapshot)
        ((hooks h).engineState snapshot) w.confirmed, Function.update w.phase h .done,
        w.persisted ++ [(h, (hooks h).results snapshot)]⟩ ↔
        ∀ x, x ∈ testsTouched ((hooks h).persist ((hooks h).results snapshot)
          ((hooks h).engineState snapshot) w.confirmed) ↔ x ∈ testsTouched w.confirmed ∨
          blocked ((hooks h).results snapshot) = false ∧ x ∈ (hooks h).testPaths := by
      refine forall_congr' fun x => iff_congr Iff.rfl ?_
      rw [← hstored]
      exact accounted_snoc
    rw [hafter, Hook.testsTouched_persist]
    constructor
    · intro hall snapshot' results engineState hevaluated hblocked hruns x hx
      rw [hphase] at hevaluated
      cases hevaluated
      have hmem := (hall x).mpr (.inl hx)
      rw [if_pos ⟨hblocked, hruns⟩] at hmem
      exact List.mem_append.mp hmem
    · intro hcurrent x
      split
      · rename_i hruns
        rw [List.mem_append]
        constructor
        · rintro (hx | hx)
          · exact .inl ((hstored x).mp (hsnapshot x hx))
          · exact .inr ⟨hruns.1, hx⟩
        · rintro (hx | ⟨-, hx⟩)
          · exact hcurrent snapshot _ _ hphase hruns.1 hruns.2 x hx
          · exact .inr hx
      · rename_i hruns
        refine ⟨.inl, ?_⟩
        rintro (hx | ⟨hblocked, hx⟩)
        · exact hx
        · have hnot : (hooks h).runsTdd = false := by
            rw [← Bool.not_eq_true]
            exact fun hr => hruns ⟨hblocked, hr⟩
          rw [Hook.testPaths_of_not_runsTdd hnot] at hx
          cases hx
  · rw [hstep]
    refine ⟨fun _ _ _ _ hevaluated => ?_, fun _ => hremembers⟩
    rw [hphase] at hevaluated
    cases hevaluated

/-- A memory that is right admits implementation after tests. -/
theorem Remembers.admits (hremembers : Remembers hooks initial w) : Admits hooks w := by
  rintro ⟨p, hp, hblocked, hpaths⟩ hook pre ctx post - i hi hid d hd
  obtain ⟨x, hx⟩ := List.exists_mem_of_ne_nil _ hpaths
  have hmem : x ∈ testsTouched w.confirmed := (hremembers x).mpr (.inr ⟨p, hp, hblocked, hx⟩)
  have hin := (hook.engine_in w.confirmed).foldl_after pre
  rw [hin.unique i hi hid, Tdd.run_decision] at hd
  split at hd
  · cases hd
    refine Tdd.evaluate_ne_deny ?_ ctx
    exact List.ne_nil_of_mem (List.mem_append_left _ hmem)
  · cases hd

theorem run_snoc (hooks : ℕ → Hook F) (initial : Confirmed F) (pre : List ℕ) (h : ℕ) :
    run hooks initial (pre ++ [h]) = step hooks (run hooks initial pre) h := by
  unfold run
  rw [List.foldl_append]
  rfl

/-- **Memory of concurrent hooks.** In a schedule, the remembered test paths
are right in every state, the log is, and implementation is admitted after
tests, exactly when no hook persists on an old copy. -/
theorem policyMemory_iff (hooks : ℕ → Hook F) (initial : Confirmed F) (schedule : List ℕ) :
    (∀ pre post, schedule = pre ++ post → Remembers hooks initial (run hooks initial pre) ∧
      Logs hooks initial (run hooks initial pre) ∧ Admits hooks (run hooks initial pre)) ↔
    ∀ pre h post, schedule = pre ++ h :: post → Current hooks (run hooks initial pre) h := by
  constructor
  · intro hall pre h post hschedule
    have hbefore := (hall pre (h :: post) hschedule).1
    have hafter := (hall (pre ++ [h]) post (by rw [hschedule, List.append_assoc]; rfl)).1
    rw [run_snoc] at hafter
    exact (remembers_step (inv_run hooks initial pre) hbefore).mp hafter
  · intro hcurrent pre post hschedule
    have hremembers : Remembers hooks initial (run hooks initial pre) := by
      induction pre using List.reverseRecOn generalizing post with
      | nil => exact fun x => ⟨.inl, fun hx => hx.resolve_right (by rintro ⟨p, hp, -⟩; cases hp)⟩
      | append_singleton pre h ih =>
        rw [List.append_assoc] at hschedule
        rw [run_snoc]
        refine (remembers_step (inv_run hooks initial pre) (ih _ hschedule)).mpr ?_
        exact hcurrent pre h post hschedule
    exact ⟨hremembers, (inv_run hooks initial pre).logs, hremembers.admits⟩

end HookWorld

/-- A session with tests-before-impl alone. -/
def tddSetup : Setup ActionContext (Json Unit) where
  policies := [tddEnforcement true]
  failMode := .allowing
  resolver := none
  bundles := ["tdd"]
  summary := fun _ => none

/-- `policy_check` for a Write. -/
def writeHook (path : String) : Hook Unit where
  strict := true
  setup := tddSetup
  call := .claude
    { origin := "claude_code"
      event := "PreToolUse.Write"
      toolName := "Write"
      repoRoot := "/repo"
      sessionName := "feature"
      targetPath := some path }
  registered := List.mem_singleton_self _
  uniqueIds :=
    ⟨fun _ hp _ hq _ => (List.mem_singleton.mp hp).trans (List.mem_singleton.mp hq).symm,
      fun _ hr => (by cases hr)⟩

/-- Two hooks for tests. -/
def twoTests (h : ℕ) : Hook Unit :=
  if h = 0 then writeHook "tests/test_a.py" else writeHook "tests/test_b.py"

/-- Both read before either persists: the path of the first is lost. -/
theorem twoTests_lost : ∃ schedule : List ℕ,
    (HookWorld.run twoTests none schedule).persisted.map (fun p => (p.1, blocked p.2))
      = [(0, false), (1, false)] ∧
    (Item.str "tests/test_a.py" : Item Unit) ∈ (twoTests 0).testPaths ∧
    (Item.str "tests/test_a.py" : Item Unit) ∉
      testsTouched (HookWorld.run twoTests none schedule).confirmed :=
  ⟨[0, 1, 0, 1, 0, 1], by decide +kernel, by decide +kernel, by decide +kernel⟩

end MultiForge.Engine
