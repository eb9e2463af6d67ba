/-
MultiForge.Proxy.ReasoningFloor — `effort_to_budget_floor` and
`pin_reasoning` of `proxy/intercept.py`.

An override-mode proxy may be configured with a reasoning effort floor.
On the legacy path the floor becomes a minimum for the request's
`thinking.budget_tokens`. `Guaranteed` is what the docstring promises of
the pinned value: thinking is on, with a budget that Anthropic accepts,
that reaches the floor as far as `max_tokens` allows and that is never
below the client's own. Two early decisions break it: a budget that
reaches the floor is passed on whatever `type` stands next to it, and the
clamp to `max_tokens - 1` also applies to a client's budget between that
bound and the floor. `Kept` is the exact set of requests for which the
promise is kept.
-/
import MultiForge.Json.Float

namespace MultiForge.Proxy

open Json

/-! ## 1. The code -/

/-- `_ANTHROPIC_MIN_THINKING_BUDGET` -/
def anthropicMinThinkingBudget : Int := 1024

/-- `_EFFORT_BUDGET_FLOOR` -/
def effortBudgetFloor : List (String × Int) :=
  [("minimal", 1), ("low", 500), ("medium", 2000), ("high", 10000), ("xhigh", 25000)]

def effortToBudgetFloor (effort : Option String) : Option Int :=
  match effort with
  | none => none
  | some name => if name = "" then none else effortBudgetFloor.lookup name

/-- `thinking.get("budget_tokens") if isinstance(thinking, dict) else None` -/
def budgetTokens : Json FloatValue → Json FloatValue
  | .obj items => get items "budget_tokens"
  | _ => .null

/-- `int(current) if isinstance(current, (int, float)) and current > 0 else None`,
or an error where `int()` raises (a JSON body may hold `Infinity`). -/
def positiveInt : Json FloatValue → Except String (Option Int)
  | .bool b => .ok (if b then some 1 else none)
  | .int n => .ok (if 0 < n then some n else none)
  | .float x =>
      if PyFloat.pos x then
        match x.int? with
        | some n => .ok (some n)
        | none => .error "OverflowError"
      else .ok none
  | _ => .ok none

/-- `isinstance(v, int)`: a `bool` is an `int`. -/
def asInt? : Json FloatValue → Option Int
  | .bool b => some (if b then 1 else 0)
  | .int n => some n
  | _ => none

/-- The result of `pin_reasoning`. -/
structure PinnedThinking where
  thinking : Json FloatValue
  changed : Bool
  before : Option Int
  after : Option Int
  deriving DecidableEq

/-- The budget a raised request gets. -/
def targetBudget (floor : Int) (maxTokens : Json FloatValue) : Int :=
  let target := max floor anthropicMinThinkingBudget
  match asInt? maxTokens with
  | some m => min target (m - 1)
  | none => target

/-- `max_tokens` is an integer too small to host any thinking budget. -/
def cannotHost (maxTokens : Json FloatValue) : Bool :=
  match asInt? maxTokens with
  | some m => m ≤ anthropicMinThinkingBudget
  | none => false

/-- `dict(thinking) if isinstance(thinking, dict) else {}` -/
def thinkingItems : Json FloatValue → List (String × Json FloatValue)
  | .obj items => items
  | _ => []

def pinReasoning (thinking : Json FloatValue) (floorEffort : Option String)
    (maxTokens : Json FloatValue) : Except String PinnedThinking := do
  match effortToBudgetFloor floorEffort with
  | none => return ⟨thinking, false, none, none⟩
  | some floor =>
      if floor = 0 then
        return ⟨thinking, false, none, none⟩
      let current ← positiveInt (budgetTokens thinking)
      if current.any (floor ≤ ·) || cannotHost maxTokens then
        return ⟨thinking, false, current, current⟩
      let target := targetBudget floor maxTokens
      let pinned := insert "type" (.str "enabled") (thinkingItems thinking)
      return ⟨.obj (insert "budget_tokens" (.int target) pinned), true, current, some target⟩

/-! ## 2. What is promised -/

/-- The value of a finite number. -/
def number? : Json FloatValue → Option ℚ
  | .bool b => some (if b then 1 else 0)
  | .int n => some n
  | .float (.finite q) => some q
  | _ => none

/-- `type` is `"enabled"`. -/
def isEnabled (thinking : Json FloatValue) : Prop :=
  lookup "type" (thinkingItems thinking) = some (.str "enabled")

instance (thinking : Json FloatValue) : Decidable (isEnabled thinking) :=
  inferInstanceAs (Decidable (_ = _))

/-- The promise for a request with floor `f` and `max_tokens` `m`. -/
structure Guaranteed (thinking : Json FloatValue) (f m : Int) (out : Json FloatValue) : Prop where
  /-- Thinking is on: with a budget in Anthropic's range, or as the client
  asked for it with a budget that reaches the floor. -/
  enabled :
    (isEnabled out ∧ ∃ b : Int, budgetTokens out = .int b ∧ anthropicMinThinkingBudget ≤ b ∧ b < m) ∨
      (isEnabled thinking ∧ out = thinking ∧ ∃ q, number? (budgetTokens thinking) = some q ∧ f ≤ q)
  /-- The floor is reached, as far as `max_tokens` allows. -/
  reached : ∃ q, number? (budgetTokens out) = some q ∧ (min f (m - 1) : Int) ≤ q
  /-- The client's own budget is not lowered. -/
  notLowered : ∀ q, number? (budgetTokens thinking) = some q → 0 < q →
    ∃ q', number? (budgetTokens out) = some q' ∧ q ≤ q'

/-- What `pin_reasoning` promises of its outcome. -/
def FloorPromise (thinking : Json FloatValue) (f m : Int)
    (outcome : Except String PinnedThinking) : Prop :=
  ∃ pinned, outcome = .ok pinned ∧
    if anthropicMinThinkingBudget < m then Guaranteed thinking f m pinned.thinking
    else pinned.thinking = thinking

/-- The requests for which the promise is kept. The client's budget is not
`Infinity`; where `max_tokens` can host thinking, a budget that reaches
the floor comes with thinking enabled, and one below the floor is below
`max_tokens`. -/
def Kept (thinking : Json FloatValue) (f m : Int) : Prop :=
  budgetTokens thinking ≠ .float (.infinity false) ∧
    (anthropicMinThinkingBudget < m →
      ∀ q, number? (budgetTokens thinking) = some q → 0 < q →
        if f ≤ q then isEnabled thinking else q ≤ (m - 1 : Int))

/-! ## 3. The client's budget -/

theorem one_le_floor {effort : Option String} {f : Int}
    (h : effortToBudgetFloor effort = some f) : 1 ≤ f := by
  cases effort with
  | none => simp [effortToBudgetFloor] at h
  | some name =>
    simp only [effortToBudgetFloor] at h
    split at h
    · cases h
    · simp only [effortBudgetFloor, List.lookup_cons, List.lookup_nil] at h
      repeat' split at h
      all_goals simp_all <;> omega

theorem number?_positive {v : Json FloatValue} {q : ℚ} (hv : number? v = some q) (hq : 0 < q) :
    positiveInt v = .ok (some ⌊q⌋) := by
  cases v with
  | bool b =>
    cases b with
    | false => simp [number?] at hv; exact absurd hv hq.ne
    | true => simp [number?] at hv; subst hv; simp [positiveInt]
  | int n =>
    simp [number?] at hv
    subst hv
    have hn : 0 < n := by exact_mod_cast hq
    simp [positiveInt, hn]
  | float x =>
    cases x with
    | finite r =>
      simp [number?] at hv
      subst hv
      simp [positiveInt, PyFloat.pos, hq, FloatValue.int?_finite hq]
    | infinity negative => simp [number?] at hv
    | nan => simp [number?] at hv
  | null => simp [number?] at hv
  | str s => simp [number?] at hv
  | list xs => simp [number?] at hv
  | obj items => simp [number?] at hv

theorem number?_not_positive {v : Json FloatValue} (hinf : v ≠ .float (.infinity false))
    (hv : ∀ q, number? v = some q → ¬ 0 < q) : positiveInt v = .ok none := by
  cases v with
  | bool b =>
    cases b with
    | false => rfl
    | true => exact absurd one_pos (hv 1 rfl)
  | int n =>
    have hn : ¬ 0 < n := by
      intro h
      exact hv n rfl (by exact_mod_cast h)
    simp [positiveInt, hn]
  | float x =>
    cases x with
    | finite r => simp [positiveInt, PyFloat.pos, hv r rfl]
    | infinity negative =>
      cases negative with
      | false => exact absurd rfl hinf
      | true => rfl
    | nan => rfl
  | null => rfl
  | str s => rfl
  | list xs => rfl
  | obj items => rfl

/-! ## 4. The raised request -/

/-- The `thinking` value of a request that is raised. -/
def raised (thinking : Json FloatValue) (f m : Int) : Json FloatValue :=
  .obj (insert "budget_tokens" (.int (targetBudget f (.int m)))
    (insert "type" (.str "enabled") (thinkingItems thinking)))

theorem isEnabled_raised (thinking : Json FloatValue) (f m : Int) :
    isEnabled (raised thinking f m) := by
  simp [isEnabled, raised, thinkingItems, lookup_insert]

theorem budgetTokens_raised (thinking : Json FloatValue) (f m : Int) :
    budgetTokens (raised thinking f m) = .int (targetBudget f (.int m)) := by
  simp [budgetTokens, raised, Json.get, getD, lookup_insert]

theorem targetBudget_eq (f m : Int) :
    targetBudget f (.int m) = min (max f anthropicMinThinkingBudget) (m - 1) := rfl

/-- What one call does with an integer `max_tokens`, by the client's
budget. -/
theorem pinReasoning_of {effort : Option String} {f : Int}
    (heff : effortToBudgetFloor effort = some f) (thinking : Json FloatValue) (m : Int)
    {current : Option Int} (hcurrent : positiveInt (budgetTokens thinking) = .ok current) :
    pinReasoning thinking effort (.int m) =
      if current.any (f ≤ ·) ∨ m ≤ anthropicMinThinkingBudget then
        .ok ⟨thinking, false, current, current⟩
      else .ok ⟨raised thinking f m, true, current, some (targetBudget f (.int m))⟩ := by
  have hf : f ≠ 0 := by
    have := one_le_floor heff
    omega
  simp only [pinReasoning, heff, hf, hcurrent, cannotHost, asInt?, Bool.or_eq_true,
    decide_eq_true_eq]
  rfl

/-- A raised request keeps every promise but, perhaps, the last one. -/
theorem guaranteed_raised {thinking : Json FloatValue} {f m : Int}
    (hm : anthropicMinThinkingBudget < m)
    (hclient : ∀ q, number? (budgetTokens thinking) = some q → 0 < q →
      q ≤ (targetBudget f (.int m) : ℚ)) :
    Guaranteed thinking f m (raised thinking f m) := by
  have htarget := targetBudget_eq f m
  have hnumber : number? (budgetTokens (raised thinking f m))
      = some (targetBudget f (.int m) : ℚ) := by
    rw [budgetTokens_raised]
    rfl
  constructor
  · left
    refine ⟨isEnabled_raised thinking f m, _, budgetTokens_raised thinking f m, ?_, ?_⟩ <;> omega
  · refine ⟨_, hnumber, ?_⟩
    have h : min f (m - 1) ≤ targetBudget f (.int m) := by omega
    exact_mod_cast h
  · intro q hq hpos
    exact ⟨_, hnumber, hclient q hq hpos⟩

/-- A request whose budget reaches the floor is passed on with every
promise kept when thinking is enabled in it. -/
theorem guaranteed_same {thinking : Json FloatValue} {f m : Int} {q : ℚ}
    (hq : number? (budgetTokens thinking) = some q) (hfloor : f ≤ q)
    (henabled : isEnabled thinking) : Guaranteed thinking f m thinking := by
  constructor
  · right
    exact ⟨henabled, rfl, q, hq, hfloor⟩
  · refine ⟨q, hq, le_trans ?_ hfloor⟩
    exact_mod_cast min_le_left f (m - 1)
  · intro q' hq' hpos
    exact ⟨q', hq', le_rfl⟩

/-- The promise names an enabled type in both of its cases. -/
theorem Guaranteed.isEnabled_out {thinking : Json FloatValue} {f m : Int} {out : Json FloatValue}
    (h : Guaranteed thinking f m out) : isEnabled out := by
  obtain ⟨hout, -⟩ | ⟨hthinking, hsame, -⟩ := h.enabled
  · exact hout
  · rwa [hsame]

/-! ## 5. When the promise is kept -/

theorem promise_infinity {effort : Option String} {f : Int}
    (heff : effortToBudgetFloor effort = some f) {thinking : Json FloatValue} {m : Int}
    (hinf : budgetTokens thinking = .float (.infinity false)) :
    ¬ FloorPromise thinking f m (pinReasoning thinking effort (.int m)) := by
  have hf : f ≠ 0 := by
    have := one_le_floor heff
    omega
  have herror : pinReasoning thinking effort (.int m) = .error "OverflowError" := by
    simp only [pinReasoning, heff, hf, hinf]
    rfl
  intro h
  obtain ⟨pinned, hpinned, -⟩ := h
  rw [herror] at hpinned
  cases hpinned

/-- A budget above zero, by its place: at the floor or below it. -/
theorem promise_positive {effort : Option String} {f : Int}
    (heff : effortToBudgetFloor effort = some f) {thinking : Json FloatValue} {m : Int} {q : ℚ}
    (hq : number? (budgetTokens thinking) = some q) (hpos : 0 < q) :
    FloorPromise thinking f m (pinReasoning thinking effort (.int m)) ↔
      (anthropicMinThinkingBudget < m → if f ≤ q then isEnabled thinking else q ≤ (m - 1 : Int)) := by
  rw [pinReasoning_of heff thinking m (number?_positive hq hpos)]
  have hany : (some ⌊q⌋).any (fun n => decide (f ≤ n)) = true ↔ (f : ℚ) ≤ q := by
    simp [Int.le_floor]
  simp only [hany]
  by_cases hm : anthropicMinThinkingBudget < m
  · have hm' : ¬ m ≤ anthropicMinThinkingBudget := by omega
    by_cases hfloor : (f : ℚ) ≤ q
    · -- passed on as it came
      simp only [hfloor, true_or, if_true, FloorPromise, hm, forall_const]
      constructor
      · intro h
        obtain ⟨pinned, hpinned, hguaranteed⟩ := h
        cases hpinned
        exact hguaranteed.isEnabled_out
      · intro henabled
        exact ⟨_, rfl, guaranteed_same hq hfloor henabled⟩
    · -- raised: what is left is whether the clamp went below the client's budget
      simp only [hfloor, hm', or_self, if_false, FloorPromise, hm, if_true, forall_const]
      have hlt : q < f := not_le.mp hfloor
      have htarget := targetBudget_eq f m
      constructor
      · intro h
        obtain ⟨pinned, hpinned, hguaranteed⟩ := h
        cases hpinned
        obtain ⟨q', hq', hle⟩ := hguaranteed.notLowered q hq hpos
        rw [budgetTokens_raised] at hq'
        cases hq'
        have hbound : targetBudget f (.int m) ≤ m - 1 := by omega
        exact hle.trans (by exact_mod_cast hbound)
      · intro hle
        refine ⟨_, rfl, guaranteed_raised hm ?_⟩
        intro q' hq' _
        rw [hq] at hq'
        cases hq'
        rw [htarget, Int.cast_min, le_min_iff]
        refine ⟨hlt.le.trans ?_, hle⟩
        exact_mod_cast le_max_left f anthropicMinThinkingBudget
  · have hm' : m ≤ anthropicMinThinkingBudget := by omega
    simp [FloorPromise, hm, hm']

theorem promise_no_budget {effort : Option String} {f : Int}
    (heff : effortToBudgetFloor effort = some f) {thinking : Json FloatValue} {m : Int}
    (hinf : budgetTokens thinking ≠ .float (.infinity false))
    (hnone : ∀ q, number? (budgetTokens thinking) = some q → ¬ 0 < q) :
    FloorPromise thinking f m (pinReasoning thinking effort (.int m)) := by
  rw [pinReasoning_of heff thinking m (number?_not_positive hinf hnone)]
  by_cases hm : anthropicMinThinkingBudget < m
  · have hm' : ¬ m ≤ anthropicMinThinkingBudget := by omega
    simp only [Option.any_none, Bool.false_eq_true, hm', or_self, if_false, FloorPromise, hm,
      if_true]
    refine ⟨_, rfl, guaranteed_raised hm ?_⟩
    intro q hq hpos
    exact absurd hpos (hnone q hq)
  · have hm' : m ≤ anthropicMinThinkingBudget := by omega
    simp [FloorPromise, hm, hm']

/-- For every request and every configured floor, the promise is kept
exactly for the requests that are `Kept`. -/
theorem floor_promise_iff {effort : Option String} {f : Int}
    (heff : effortToBudgetFloor effort = some f) (thinking : Json FloatValue) (m : Int) :
    FloorPromise thinking f m (pinReasoning thinking effort (.int m)) ↔ Kept thinking f m := by
  by_cases hinf : budgetTokens thinking = .float (.infinity false)
  · simp [Kept, hinf, promise_infinity heff hinf]
  by_cases hpos : ∃ q, number? (budgetTokens thinking) = some q ∧ 0 < q
  · obtain ⟨q, hq, hpos⟩ := hpos
    rw [promise_positive heff hq hpos, Kept]
    simp [hinf, hq, hpos]
  · have hnone : ∀ q, number? (budgetTokens thinking) = some q → ¬ 0 < q := by
      intro q hq h
      exact hpos ⟨q, hq, h⟩
    simp only [promise_no_budget heff hinf hnone, true_iff]
    refine ⟨hinf, ?_⟩
    intro _ q hq h
    exact absurd h (hnone q hq)

/-- A floor of 10000 for a request that sends no thinking at all. -/
theorem floor_promise_absent :
    effortToBudgetFloor (some "high") = some 10000 ∧
      (FloorPromise .null 10000 64000 (pinReasoning .null (some "high") (.int 64000)) ↔
        Kept .null 10000 64000) :=
  ⟨by decide, floor_promise_iff (by decide) .null 64000⟩

/-- A client that disables thinking and leaves a large budget beside it is
not raised: the request goes out with thinking off. -/
theorem disabled_with_budget :
    let thinking : Json FloatValue :=
      .obj [("type", .str "disabled"), ("budget_tokens", .int 16000)]
    effortToBudgetFloor (some "high") = some 10000 ∧
      pinReasoning thinking (some "high") (.int 64000)
        = .ok ⟨thinking, false, some 16000, some 16000⟩ ∧
      ¬ FloorPromise thinking 10000 64000 (pinReasoning thinking (some "high") (.int 64000)) := by
  refine ⟨by decide, rfl, ?_⟩
  intro h
  obtain ⟨pinned, hpinned, hpromise⟩ := h
  cases hpinned
  rw [if_pos (by decide)] at hpromise
  obtain ⟨hout, -⟩ | ⟨hthinking, -⟩ := hpromise.enabled
  · exact absurd hout (by decide)
  · exact absurd hthinking (by decide)

end MultiForge.Proxy
