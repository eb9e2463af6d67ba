/-
MultiForge.Engine.TddPolicy — `forge.policy.deterministic`: what the
deterministic policies share, and `TDDEnforcementPolicy`.

The policy remembers the test paths that a session has touched. Its state
is a Python set, here a list whose order and repetitions nobody looks at;
the elements of a set are hashable, so they are never lists or dicts. What
is persisted of it is JSON, and `set_state` takes any JSON that it can make
a set of.
-/
import MultiForge.Engine.HookState
import MultiForge.Json.Value

namespace MultiForge.Engine

variable {F : Type}

/-! ## 1. Actions -/

/-- `ActionContext`: what a runtime is about to do. -/
structure ActionContext where
  origin : String
  event : String
  toolName : String
  repoRoot : String
  sessionName : String
  targetPath : Option String := none
  newContent : Option String := none
  rawDiff : Option String := none
  actionFingerprint : Option String := none
  deriving DecidableEq

/-- `is_under_directory`, top-level or nested. -/
def isUnderDirectory (path : Option String) (directory : String) : Bool :=
  match path with
  | none => false
  | some p =>
      let normalized := p.toList.map fun c => if c = '\\' then '/' else c
      decide (directory.toList ++ ['/'] <+: normalized ∨
        '/' :: directory.toList ++ ['/'] <:+: normalized)

/-- `tests_first_sort_key` -/
def testsFirstSortKey (path : Option String) : Nat :=
  if isUnderDirectory path "tests" then 0 else if isUnderDirectory path "src" then 2 else 1

/-- `sort_contexts_tests_first`; the sort is stable. -/
def sortContextsTestsFirst (contexts : List ActionContext) : List ActionContext :=
  contexts.mergeSort fun a b =>
    decide (testsFirstSortKey a.targetPath ≤ testsFirstSortKey b.targetPath)

/-- `context.tool_name in ("Write", "Edit")` -/
def ActionContext.isWriteOrEdit (ctx : ActionContext) : Bool :=
  ctx.toolName == "Write" || ctx.toolName == "Edit"

/-! ## 2. Decisions of a deterministic policy -/

/-- `_allow` -/
def allowed (id : String) : PolicyDecision where
  decision := .allow
  policyId := id

/-- `_deny` -/
def denied (id intent : String) (violations : List Violation) : PolicyDecision where
  decision := .deny
  policyId := id
  violations := violations.map fun v => { v with provenance := "policy" }
  intent := some intent

/-- `_warn` -/
def warned (id intent : String) (findings : List Violation) : PolicyDecision where
  decision := .warn
  policyId := id
  warnings := findings.map (·.message)
  warningFindings := findings.map fun v => { v with provenance := "policy" }
  intent := some intent

/-! ## 3. Tests before implementation -/

def Json.hashable : Json F → Bool
  | .list _ | .obj _ => false
  | _ => true

/-- An element of a Python set. -/
abbrev Item (F : Type) : Type := { j : Json F // Json.hashable j = true }

def Item.str (s : String) : Item F := ⟨.str s, rfl⟩

def item? (j : Json F) : Option (Item F) :=
  if h : Json.hashable j = true then some ⟨j, h⟩ else none

/-- `set(state.get("tests_touched", []))`, nothing where it raises. -/
def testsTouched? : Json F → Option (List (Item F))
  | .obj items =>
      match Json.getD items "tests_touched" (.list []) with
      | .list xs => xs.mapM item?
      | .str s => some (s.toList.map fun c => Item.str (String.singleton c))
      | .obj entries => some (entries.map fun e => Item.str e.1)
      | _ => none
  | _ => none

namespace Tdd

def policyId : String := "tdd.tests-before-impl"

def intent : String :=
  "Test-driven development: write tests first to define expected behavior, " ++
  "then implement. This catches design issues early and ensures every change " ++
  "has test coverage from the start."

def appliesTo (ctx : ActionContext) : Bool :=
  ctx.isWriteOrEdit &&
    (isUnderDirectory ctx.targetPath "tests" || isUnderDirectory ctx.targetPath "src")

def violation (path : String) : Violation where
  ruleId := policyId
  message := "Implementation changes require test changes first"
  severity := .high
  evidence := some s!"Writing to {path} without touching any test files"
  suggestedFix := some "Write or update tests in tests/ directory before modifying src/ code"

/-- `_evaluate` -/
def evaluate (strict : Bool) (touched : List (Item F)) (ctx : ActionContext) :
    PolicyDecision × List (Item F) :=
  match ctx.targetPath with
  | none => (allowed policyId, touched)
  | some path =>
      if isUnderDirectory (some path) "tests" then (allowed policyId, touched ++ [Item.str path])
      else if isUnderDirectory (some path) "src" ∧ touched.isEmpty then
        (if strict then denied policyId intent [violation path]
          else warned policyId intent [violation path], touched)
      else (allowed policyId, touched)

def getState (touched : List (Item F)) : Json F :=
  .obj [("tests_touched", .list (touched.map Subtype.val))]

/-- `set_state`; the state stays where it raises. -/
def setState (touched : List (Item F)) (state : Json F) : List (Item F) :=
  (testsTouched? state).getD touched

end Tdd

/-- `TDDEnforcementPolicy(strict=strict)` -/
@[reducible] def tddEnforcement (strict : Bool) : Policy ActionContext (Json F) where
  policyId := Tdd.policyId
  State := List (Item F)
  initial := []
  appliesTo := fun _ ctx => .ok (Tdd.appliesTo ctx)
  evaluate := fun touched ctx =>
    (.ok (Tdd.evaluate strict touched ctx).1, (Tdd.evaluate strict touched ctx).2)
  memory := some ⟨fun touched => some (Tdd.getState touched), Tdd.setState⟩

/-! ## 4. What the policy remembers -/

namespace Tdd

theorem testsTouched?_getState (touched : List (Item F)) :
    testsTouched? (getState touched) = some touched := by
  show (touched.map Subtype.val).mapM item? = some touched
  induction touched with
  | nil => rfl
  | cons x rest ih =>
    have hx : item? x.val = some x := dif_pos x.property
    rw [List.map_cons, List.mapM_cons, hx, ih]
    rfl

theorem setState_getState (touched touched' : List (Item F)) :
    setState touched (getState touched') = touched' := by
  unfold setState
  rw [testsTouched?_getState]
  rfl

/-- The test path of an action, if it has one. -/
def testPaths (F : Type) (ctx : ActionContext) : List (Item F) :=
  match ctx.targetPath with
  | none => []
  | some path =>
      if ctx.isWriteOrEdit && isUnderDirectory (some path) "tests" then [Item.str path] else []

theorem testPaths_eq_nil {ctx : ActionContext} (h : appliesTo ctx = false) :
    testPaths F ctx = [] := by
  unfold appliesTo at h
  unfold testPaths
  split
  · rfl
  · rename_i path hpath
    rw [hpath] at h
    rw [if_neg]
    intro htest
    simp only [Bool.and_eq_true] at htest
    simp [htest.1, htest.2] at h

theorem evaluate_touched {strict : Bool} {ctx : ActionContext} (touched : List (Item F))
    (h : appliesTo ctx = true) : (evaluate strict touched ctx).2 = touched ++ testPaths F ctx := by
  have hwrite : ctx.isWriteOrEdit = true := by
    unfold appliesTo at h
    simp only [Bool.and_eq_true] at h
    exact h.1
  unfold evaluate testPaths
  rw [hwrite]
  cases ctx.targetPath with
  | none => simp
  | some path =>
    by_cases htests : isUnderDirectory (some path) "tests" = true
    · simp [htests]
    · simp only [htests, Bool.and_false, Bool.false_eq_true, if_false, List.append_nil]
      split <;> rfl

/-- Nothing is denied once a test has been touched. -/
theorem evaluate_ne_deny {strict : Bool} {touched : List (Item F)} (h : touched ≠ [])
    (ctx : ActionContext) : (evaluate strict touched ctx).1.decision ≠ .deny := by
  unfold evaluate
  split
  · simp [allowed]
  · split
    · simp [allowed]
    · rename_i path _ _
      have hempty : ¬ (isUnderDirectory (some path) "src" = true ∧ touched.isEmpty = true) :=
        fun hboth => h (List.isEmpty_iff.mp hboth.2)
      rw [if_neg hempty]
      simp [allowed]

end Tdd

theorem tddEnforcement_restorable (strict : Bool) :
    (tddEnforcement strict : Policy ActionContext (Json F)).Restorable where
  round_trip := by
    intro m hm touched
    cases hm
    exact ⟨Tdd.getState touched, rfl, .of_eq (Tdd.setState_getState [] touched)⟩
  stateless := by
    intro h
    cases h
  raising := by
    intro s ctx e _ h
    cases h

end MultiForge.Engine
