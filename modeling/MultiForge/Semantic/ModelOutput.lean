/-
MultiForge.Semantic.ModelOutput — what parsing the output of a model can
raise.

`extract_json_from_response` and `parse_headless_envelope` read text that
they do not control and are documented not to raise. They catch
`JSONDecodeError`, which is not all that `json.loads` raises: a limit of
the interpreter escapes them, unless an object was found before. And the
cost of an envelope passes through `decimal`, where an infinite number
raises `OverflowError`, which is not among what `usd_to_micros` catches.
`never_raises_iff` says for which texts and costs nothing escapes.

The code fences are those of `StructuredOutput`, where the values that are
found are described; here it is `json.loads` with everything it does.
-/
import MultiForge.Json.PyValue
import MultiForge.Lib.DecimalContext
import MultiForge.Lib.Except
import MultiForge.Semantic.StructuredOutput

namespace MultiForge.ModelOutput

open PyValue StructuredOutput

variable {F : Type} [PyFloatText F]

/-- What escapes. -/
inductive OutputError where
  /-- `RecursionError` of `json.loads` -/
  | recursion
  /-- `ValueError` of `json.loads`: an integer has too many digits -/
  | digits
  /-- `OverflowError`: `int()` of an infinite decimal -/
  | overflowError
  /-- `decimal.Overflow` -/
  | decimalOverflow
  deriving DecidableEq, Repr

section

variable (limits : Limits)

/-! ## 1. The object of a response -/

/-- `json.loads(text)`, where a `JSONDecodeError` is caught. -/
def loadsCaught (text : List Char) : Except OutputError (Option (PyValue F)) :=
  match pyLoads limits text with
  | .ok v => .ok (some v)
  | .error .decode => .ok none
  | .error .digits => .error .digits
  | .error .recursion => .error .recursion

/-- The loop over the texts that may be an object. -/
def firstObject : List (List Char) → Except OutputError (Option (List (PyStr × PyValue F)))
  | [] => .ok none
  | text :: texts =>
      match loadsCaught limits (Lines.strip text) with
      | .error e => .error e
      | .ok (some (.obj items)) => .ok (some items)
      | .ok _ => firstObject texts

/-- What stands in the code fences of a response. -/
def fencedTexts (response : List Char) : List (List Char) :=
  codeFencePatterns.flatMap fun label => findall label response

/-- `extract_json_from_response` -/
def extractJsonFromResponse (response : List Char) :
    Except OutputError (Option (List (PyStr × PyValue F))) :=
  if response = [] then .ok none
  else
    match firstObject limits (fencedTexts response) with
    | .error e => .error e
    | .ok (some data) => .ok (some data)
    | .ok none => firstObject limits [response]

/-! ## 2. Costs -/

/-- The context that a thread starts with. -/
def defaultContext : DecimalContext := ⟨28, 999999⟩

/-- `Decimal(str(x))` -/
def decimalOf : FloatText → PyDecimal
  | .nan => .nan
  | .posInf => .infinity false
  | .negInf => .infinity true
  | .decimal d => .finite d.neg d.mantissa d.scale

/-- `int(usd * 1_000_000)`, where `InvalidOperation` and `ValueError` are
caught. -/
def toMicros (usd : PyDecimal) : Except OutputError (Option Int) :=
  match PyDecimal.mul defaultContext usd (.finite false 1000000 0) with
  | .error .invalidOperation => .ok none
  | .error .overflow => .error .decimalOverflow
  | .ok micros => match micros.toInt with
      | .ok n => .ok (some n)
      | .error .valueError => .ok none
      | .error .overflowError => .error .overflowError

/-- `usd_to_micros`. `str()` of an integer with too many digits raises a
`ValueError`, which is caught. -/
def usdToMicros : PyValue F → Except OutputError (Option Int)
  | .int n =>
      if PyDecimal.digitCount n.natAbs ≤ limits.digits then
        toMicros (.finite (n < 0) n.natAbs 0)
      else .ok none
  | .float x => toMicros (decimalOf (PyFloatText.repr x))
  | _ => .ok none

/-! ## 3. The envelope -/

/-- `_find_result_object` -/
def findResultObject (stdout : List Char) :
    Except OutputError (Option (List (PyStr × PyValue F))) :=
  match loadsCaught limits stdout with
  | .error e => .error e
  | .ok (some (.list xs)) => .ok (xs.filterMap fun
      | .obj items => if (get items "type").isStr "result" then some items else none
      | _ => none).getLast?
  | .ok (some (.obj items)) => .ok (some items)
  | .ok _ => .ok none

end

/-- `HeadlessEnvelope` -/
structure HeadlessEnvelope where
  resultText : PyStr
  costMicroUsd : Option Int := none
  inputTokens : Option Int := none
  outputTokens : Option Int := none
  cachedTokens : Option Int := none
  cacheWriteTokens : Option Int := none
  isError : Bool := false
  parsed : Bool := false
  deriving DecidableEq, Repr

/-- `_coerce_token_count` -/
def coerceTokenCount : PyValue F → Option Int
  | .int n => some n
  | _ => none

/-- The envelope of a text that is none. -/
def rawEnvelope (stdout : List Char) : HeadlessEnvelope := { resultText := pyText stdout }

/-- The items of `usage`. -/
def usageItems : PyValue F → List (PyStr × PyValue F)
  | .obj items => items
  | _ => []

/-- `parse_headless_envelope` -/
def parseHeadlessEnvelope (limits : Limits) (stdout : List Char) :
    Except OutputError HeadlessEnvelope :=
  if Lines.strip stdout = [] then .ok (rawEnvelope stdout)
  else
    match (findResultObject limits stdout :
      Except OutputError (Option (List (PyStr × PyValue F)))) with
    | .error e => .error e
    | .ok none => .ok (rawEnvelope stdout)
    | .ok (some result) => match get result "result" with
        | .str text =>
            let usage := usageItems (get result "usage")
            let cacheReads := coerceTokenCount (get usage "cache_read_input_tokens")
            let cacheWrites := coerceTokenCount (get usage "cache_creation_input_tokens")
            match usdToMicros limits (get result "total_cost_usd") with
            | .error e => .error e
            | .ok cost => .ok {
                resultText := text
                costMicroUsd := cost
                inputTokens := (coerceTokenCount (get usage "input_tokens")).map fun fresh =>
                  fresh + cacheReads.getD 0 + cacheWrites.getD 0
                outputTokens := coerceTokenCount (get usage "output_tokens")
                cachedTokens := cacheReads
                cacheWriteTokens := cacheWrites
                isError := (get result "is_error").truthy
                parsed := true }
        | _ => .ok (rawEnvelope stdout)

/-! ## 4. What is promised -/

/-- Nothing is raised for a text of a model and a reported cost; an
envelope that is not parsed is the text itself. -/
structure NeverRaises (limits : Limits) (text : List Char) (usd : PyValue F) : Prop where
  extract : ∃ data : Option (List (PyStr × PyValue F)),
    extractJsonFromResponse limits text = .ok data
  envelope : ∃ envelope, parseHeadlessEnvelope (F := F) limits text = .ok envelope ∧
    (envelope.parsed = false → envelope = rawEnvelope text)
  micros : ∃ cost, usdToMicros limits usd = .ok cost

section

variable (F) (limits : Limits)

/-- `json.loads` stays within the limits of the interpreter. -/
def WithinLimits (text : List Char) : Prop :=
  ∀ e, (pyLoads limits text : Except LoadError (PyValue F)) = .error e → e = .decode

/-- A text is read as an object. -/
def IsObject (text : List Char) : Prop :=
  ∃ items : List (PyStr × PyValue F), pyLoads limits (Lines.strip text) = .ok (.obj items)

/-- The limits are kept by each text up to the first object. -/
def TriedWithinLimits (texts : List (List Char)) : Prop :=
  ∀ before text after, texts = before ++ text :: after →
    (∀ t ∈ before, ¬ IsObject F limits t) → WithinLimits F limits (Lines.strip text)

/-- The responses for which nothing escapes: the code fences are tried
first, then the response as a whole. -/
def ResponseWithinLimits (response : List Char) : Prop :=
  response = [] ∨ TriedWithinLimits F limits (fencedTexts response ++ [response])

end

/-- The decimals whose millions are finite. -/
def IsFiniteCost : PyDecimal → Prop
  | .nan => True
  | .infinity _ => False
  | .finite _ coeff exp => PyDecimal.overflows defaultContext (coeff * 1000000) exp = false

/-- The costs for which nothing escapes. -/
def IsFiniteUsd (limits : Limits) : PyValue F → Prop
  | .int n => PyDecimal.digitCount n.natAbs ≤ limits.digits → IsFiniteCost (.finite (n < 0) n.natAbs 0)
  | .float x => IsFiniteCost (decimalOf (PyFloatText.repr x))
  | _ => True

/-- The envelopes for which nothing escapes. -/
def EnvelopeWithinLimits (F : Type) [PyFloatText F] (limits : Limits) (stdout : List Char) : Prop :=
  Lines.strip stdout ≠ [] → WithinLimits F limits stdout ∧
    ∀ (result : List (PyStr × PyValue F)) (text : PyStr),
      findResultObject limits stdout = .ok (some result) → get result "result" = .str text →
        IsFiniteUsd limits (get result "total_cost_usd")

/-! ## 5. The object of a response -/

section

variable {limits : Limits}

theorem loadsCaught_ok_iff {text : List Char} :
    (∃ v : Option (PyValue F), loadsCaught limits text = .ok v) ↔ WithinLimits F limits text := by
  unfold loadsCaught WithinLimits
  cases pyLoads (F := F) limits text with
  | ok v => simp
  | error e => cases e <;> simp

/-- The loop goes on behind a text that is no object. -/
theorem firstObject_cons {text : List Char} (h : WithinLimits F limits (Lines.strip text))
    (hobject : ¬ IsObject F limits text) (texts : List (List Char)) :
    firstObject (F := F) limits (text :: texts) = firstObject limits texts := by
  obtain ⟨v, hv⟩ := loadsCaught_ok_iff.mpr h
  have hnone : ∀ items, v ≠ some (.obj items) := by
    intro items hitems
    refine hobject ⟨items, ?_⟩
    rw [hitems] at hv
    unfold loadsCaught at hv
    split at hv <;> simp_all
  rw [firstObject, hv]
  split
  · rename_i heq
    cases heq
  · rename_i items heq
    cases heq
    exact absurd rfl (hnone items)
  · rfl

/-- At an object the loop ends. -/
theorem firstObject_object {text : List Char} {items : List (PyStr × PyValue F)}
    (h : pyLoads limits (Lines.strip text) = .ok (.obj items)) (texts : List (List Char)) :
    firstObject limits (text :: texts) = .ok (some items) := by
  simp [firstObject, loadsCaught, h]

theorem firstObject_error {text : List Char} (h : ¬ WithinLimits F limits (Lines.strip text))
    (texts : List (List Char)) :
    ¬ ∃ data : Option (List (PyStr × PyValue F)), firstObject limits (text :: texts) = .ok data := by
  intro hok
  obtain ⟨data, hdata⟩ := hok
  refine h (loadsCaught_ok_iff.mp ?_)
  rw [firstObject] at hdata
  split at hdata
  · cases hdata
  · rename_i items heq
    exact ⟨_, heq⟩
  · rename_i v heq
    exact ⟨_, heq⟩

/-- **The loop** ends with a value exactly when the texts it tries keep
the limits. -/
theorem firstObject_ok_iff (texts : List (List Char)) :
    (∃ data : Option (List (PyStr × PyValue F)), firstObject limits texts = .ok data)
      ↔ TriedWithinLimits F limits texts := by
  induction texts with
  | nil => simp [firstObject, TriedWithinLimits]
  | cons text texts ih =>
    by_cases hwithin : WithinLimits F limits (Lines.strip text)
    · by_cases hobject : IsObject F limits text
      · obtain ⟨items, hitems⟩ := hobject
        rw [firstObject_object hitems]
        simp only [Except.ok.injEq, exists_eq', true_iff]
        intro before t after heq hbefore
        cases before with
        | nil =>
          cases heq
          exact hwithin
        | cons b before =>
          cases heq
          exact absurd ⟨items, hitems⟩ (hbefore text List.mem_cons_self)
      · rw [firstObject_cons hwithin hobject, ih]
        constructor
        · intro h before t after heq hbefore
          cases before with
          | nil =>
            cases heq
            exact hwithin
          | cons b before =>
            cases heq
            exact h before t after rfl fun t ht => hbefore t (List.mem_cons_of_mem _ ht)
        · intro h before t after heq hbefore
          refine h (text :: before) t after (by rw [heq]; rfl) ?_
          intro t' ht'
          obtain rfl | ht' := List.mem_cons.mp ht'
          · exact hobject
          · exact hbefore t' ht'
    · refine iff_of_false (firstObject_error hwithin texts) ?_
      intro h
      exact hwithin (h [] text texts rfl (by simp))

/-- Two parts of the texts are tried one after the other. -/
theorem firstObject_append (texts texts' : List (List Char)) :
    firstObject (F := F) limits (texts ++ texts') =
      match firstObject (F := F) limits texts with
      | .error e => .error e
      | .ok (some data) => .ok (some data)
      | .ok none => firstObject limits texts' := by
  induction texts with
  | nil => rfl
  | cons text texts ih =>
    rw [List.cons_append, firstObject, firstObject, ih]
    split <;> rfl

theorem extract_ok_iff (response : List Char) :
    (∃ data : Option (List (PyStr × PyValue F)), extractJsonFromResponse limits response = .ok data)
      ↔ ResponseWithinLimits F limits response := by
  by_cases hempty : response = []
  · simp [extractJsonFromResponse, ResponseWithinLimits, hempty]
  · have hall : extractJsonFromResponse (F := F) limits response
        = firstObject limits (fencedTexts response ++ [response]) := by
      rw [firstObject_append, extractJsonFromResponse, if_neg hempty]
    rw [hall, firstObject_ok_iff, ResponseWithinLimits]
    simp [hempty]

/-! ## 6. Costs and envelopes -/

theorem toMicros_ok_iff (usd : PyDecimal) :
    (∃ cost, toMicros usd = .ok cost) ↔ IsFiniteCost usd := by
  cases usd with
  | nan => simp [toMicros, PyDecimal.mul, PyDecimal.toInt, IsFiniteCost]
  | infinity neg =>
    rw [toMicros, PyDecimal.mul_infinity neg false (by decide)]
    simp [PyDecimal.toInt, IsFiniteCost]
  | finite neg coeff exp =>
    rw [toMicros, IsFiniteCost, ← Int.add_zero exp]
    cases hoverflows : PyDecimal.overflows defaultContext (coeff * 1000000) (exp + 0) with
    | false =>
      obtain ⟨product, scale, hmul⟩ := PyDecimal.mul_finite neg false hoverflows
      rw [Int.add_zero, hmul]
      simp [PyDecimal.toInt]
    | true =>
      rw [Int.add_zero, PyDecimal.mul_overflow neg false hoverflows]
      simp

theorem usdToMicros_ok_iff (usd : PyValue F) :
    (∃ cost, usdToMicros limits usd = .ok cost) ↔ IsFiniteUsd limits usd := by
  cases usd with
  | int n =>
    by_cases hdigits : PyDecimal.digitCount n.natAbs ≤ limits.digits
    · simpa [usdToMicros, IsFiniteUsd, hdigits] using toMicros_ok_iff _
    · simp [usdToMicros, IsFiniteUsd, hdigits]
  | float x => exact toMicros_ok_iff _
  | null => simp [usdToMicros, IsFiniteUsd]
  | bool b => simp [usdToMicros, IsFiniteUsd]
  | str s => simp [usdToMicros, IsFiniteUsd]
  | list xs => simp [usdToMicros, IsFiniteUsd]
  | obj items => simp [usdToMicros, IsFiniteUsd]

/-- No integer is too large, where the interpreter has its usual limit. -/
theorem isFiniteUsd_int (h : limits.digits ≤ 999993) (n : Int) :
    IsFiniteUsd limits (.int n : PyValue F) := by
  intro hdigits
  have hcount := PyDecimal.digitCount_mul_pow n.natAbs 6
  refine PyDecimal.not_overflows (by decide) ?_
  have hemax : defaultContext.emax = 999999 := rfl
  have hmillion : (10 : Nat) ^ 6 = 1000000 := by norm_num
  rw [hmillion] at hcount
  omega

theorem findResultObject_ok_iff (stdout : List Char) :
    (∃ result : Option (List (PyStr × PyValue F)), findResultObject limits stdout = .ok result)
      ↔ WithinLimits F limits stdout := by
  rw [← loadsCaught_ok_iff]
  constructor
  · intro h
    obtain ⟨result, hresult⟩ := h
    unfold findResultObject at hresult
    split at hresult
    · cases hresult
    all_goals
      rename_i heq
      exact ⟨_, heq⟩
  · intro h
    obtain ⟨v, hv⟩ := h
    unfold findResultObject
    rw [hv]
    split
    · rename_i heq
      cases heq
    all_goals exact ⟨_, rfl⟩

/-- What an envelope is parsed to, by the result object of its text. -/
theorem envelope_of_result {stdout : List Char} (hblank : Lines.strip stdout ≠ [])
    {result : Option (List (PyStr × PyValue F))} (hresult : findResultObject limits stdout = .ok result) :
    (∃ envelope, parseHeadlessEnvelope (F := F) limits stdout = .ok envelope ∧
        (envelope.parsed = false → envelope = rawEnvelope stdout)) ↔
      ∀ items text, result = some items → get items "result" = .str text →
        IsFiniteUsd limits (get items "total_cost_usd") := by
  rw [parseHeadlessEnvelope, if_neg hblank, hresult]
  cases result with
  | none => simp [rawEnvelope]
  | some items =>
    constructor
    · intro h items' text heq htext
      cases heq
      obtain ⟨envelope, henvelope, -⟩ := h
      rw [← usdToMicros_ok_iff]
      simp only [htext] at henvelope
      cases hcost : usdToMicros limits (get items "total_cost_usd") with
      | error e => simp [hcost] at henvelope
      | ok cost => exact ⟨cost, rfl⟩
    · intro h
      cases htext : get items "result" with
      | str text =>
        obtain ⟨cost, hcost⟩ := (usdToMicros_ok_iff _).mpr (h items text rfl htext)
        simp [htext, hcost]
      | null => simp [htext, rawEnvelope]
      | bool b => simp [htext, rawEnvelope]
      | int n => simp [htext, rawEnvelope]
      | float x => simp [htext, rawEnvelope]
      | list xs => simp [htext, rawEnvelope]
      | obj fields => simp [htext, rawEnvelope]

theorem envelope_ok_iff (stdout : List Char) :
    (∃ envelope, parseHeadlessEnvelope (F := F) limits stdout = .ok envelope ∧
        (envelope.parsed = false → envelope = rawEnvelope stdout)) ↔
      EnvelopeWithinLimits F limits stdout := by
  by_cases hblank : Lines.strip stdout = []
  · simp [parseHeadlessEnvelope, EnvelopeWithinLimits, hblank]
  by_cases hwithin : WithinLimits F limits stdout
  · obtain ⟨result, hresult⟩ := (findResultObject_ok_iff (F := F) stdout).mpr hwithin
    rw [envelope_of_result hblank hresult]
    simp only [EnvelopeWithinLimits, ne_eq, hblank, not_false_eq_true, forall_const, hwithin,
      true_and, hresult, Except.ok.injEq]
  · refine iff_of_false ?_ ?_
    · intro h
      obtain ⟨envelope, henvelope, -⟩ := h
      refine hwithin ((findResultObject_ok_iff stdout).mp ?_)
      rw [parseHeadlessEnvelope, if_neg hblank] at henvelope
      split at henvelope
      · cases henvelope
      all_goals
        rename_i heq
        exact ⟨_, heq⟩
    · intro h
      exact hwithin (h hblank).1

/-- For every text and every reported cost, nothing is raised exactly when
the texts that are tried keep the limits of the interpreter and the costs
are finite. -/
theorem never_raises_iff (limits : Limits) (text : List Char) (usd : PyValue F) :
    NeverRaises limits text usd ↔
      ResponseWithinLimits F limits text ∧ EnvelopeWithinLimits F limits text ∧
        IsFiniteUsd limits usd := by
  rw [← extract_ok_iff, ← envelope_ok_iff, ← usdToMicros_ok_iff]
  constructor
  · intro h
    exact ⟨h.extract, h.envelope, h.micros⟩
  · intro h
    obtain ⟨hextract, henvelope, hmicros⟩ := h
    exact ⟨hextract, henvelope, hmicros⟩

/-! ## 7. What escapes -/

/-- One bracket more than the interpreter allows. -/
def brackets (depth : Nat) : List Char := List.replicate (depth + 1) '['

theorem scanOnce_brackets (limits : Limits) (depth : Nat) : ∀ fuel, 2 * depth + 1 ≤ fuel →
    scanOnce (F := F) limits fuel depth (brackets depth) = .error .recursion := by
  induction depth with
  | zero =>
    intro fuel hfuel
    obtain ⟨fuel, rfl⟩ := Nat.exists_eq_add_of_le' hfuel
    rfl
  | succ depth ih =>
    intro fuel hfuel
    obtain ⟨fuel, rfl⟩ := Nat.exists_eq_add_of_le' (show 2 ≤ fuel by omega)
    have hinner := ih fuel (by omega)
    have hskip : Json.skipWs (brackets depth) = brackets depth := rfl
    rw [show brackets (depth + 1) = '[' :: brackets depth from rfl, scanOnce, hskip]
    have hvalues : scanValues (F := F) limits (fuel + 1) depth (brackets depth)
        = .error .recursion := by
      rw [scanValues, hinner]
      rfl
    simp only [brackets, List.replicate_succ] at hvalues ⊢
    split
    · rename_i heq
      cases heq
    · rw [hvalues]
      rfl

/-- For every limit there is a response that raises a `RecursionError`. -/
theorem brackets_raise (limits : Limits) :
    extractJsonFromResponse (F := F) limits (brackets limits.depth) = .error .recursion := by
  have hloads : pyLoads (F := F) limits (brackets limits.depth) = .error .recursion := by
    have hscan := scanOnce_brackets (F := F) limits limits.depth
      (2 * (brackets limits.depth).length + 1) (by simp [brackets])
    rw [pyLoads, show Json.skipWs (brackets limits.depth) = brackets limits.depth from rfl, hscan]
    rfl
  have hfenced : fencedTexts (brackets limits.depth) = [] := by
    have hticks : ¬ ticks <:+: brackets limits.depth := by
      intro hinfix
      have hmem : '`' ∈ brackets limits.depth := hinfix.subset (by simp [ticks])
      exact absurd (List.eq_of_mem_replicate hmem) (by decide)
    simp [fencedTexts, findall, findallFrom_no_fence, hticks, codeFencePatterns]
  have hstrip : Lines.strip (brackets limits.depth) = brackets limits.depth := by
    simp [brackets, Lines.strip, List.rdropWhile, Lines.isSpace]
  have hne : brackets limits.depth ≠ [] := by simp [brackets]
  rw [extractJsonFromResponse, if_neg hne, hfenced]
  simp [firstObject, loadsCaught, hstrip, hloads]

end

/-- An envelope whose cost is infinite. -/
def infiniteCost : List Char :=
  ['{', '"', 'r', 'e', 's', 'u', 'l', 't', '"', ':', '"', 'o', 'k', '"', ',', '"', 't', 'o', 't', 'a',
    'l', '_', 'c', 'o', 's', 't', '_', 'u', 's', 'd', '"', ':', 'I', 'n', 'f', 'i', 'n', 'i', 't', 'y',
    '}']

/-- The infinite cost escapes as an `OverflowError`. -/
theorem infinite_cost_raises :
    parseHeadlessEnvelope (F := FloatText) ⟨1000, 4300⟩ infiniteCost = .error .overflowError ∧
      ¬ NeverRaises ⟨1000, 4300⟩ infiniteCost (.null : PyValue FloatText) := by
  have hraises : parseHeadlessEnvelope (F := FloatText) ⟨1000, 4300⟩ infiniteCost
      = .error .overflowError := by decide +kernel
  refine ⟨hraises, ?_⟩
  intro h
  obtain ⟨envelope, henvelope, -⟩ := h.envelope
  rw [hraises] at henvelope
  cases henvelope

end MultiForge.ModelOutput
