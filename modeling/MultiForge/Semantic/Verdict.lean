/-
MultiForge.Semantic.Verdict — what a supervisor's response decides.

The object of the response is read leniently: a confidence that is no
finite number counts as zero, what is no object among the violations is
left out, and a response without a usable verdict becomes a warning. The
decision blocks when a violation has a citation and the confidence is
high. Where the object is the one that the model wrote, every violation
of a divergent verdict is reported once (`verdict_faithful`).

Of a confidence the code observes whether it is finite and how it
compares with zero, with one and with the threshold (`PyConfidence`). The
texts of the warnings are left out, what they say is not.
-/
import MultiForge.Engine.PolicyEngine
import MultiForge.Semantic.ReviewerIdentity
import MultiForge.Semantic.StructuredOutput

namespace MultiForge.Semantic.Verdict

open Json StructuredOutput
open MultiForge.Engine (Severity)
open MultiForge.Policy (DecisionType)

/-! ## 1. Confidence -/

/-- Floats that can be compared with the bounds of a confidence. -/
class PyConfidence (F : Type) extends PyFloatText F where
  /-- `math.isfinite(x)` -/
  isFinite : F → Bool
  /-- `x < 1` -/
  ltOne : F → Bool
  /-- `x >= CONFIDENCE_THRESHOLD` -/
  atLeastThreshold : F → Bool
  pos_of_threshold : ∀ x, atLeastThreshold x = true → PyFloat.pos x = true
  threshold_of_not_ltOne : ∀ x, isFinite x = true → ltOne x = false → atLeastThreshold x = true

/-- A float between zero and one. -/
inductive Confidence (F : Type) where
  | zero
  | one
  | between (x : F)

variable {F : Type} [PyConfidence F]

/-- `float(max(0, min(1, raw_confidence)))`, or zero for what is no
finite number. -/
def readConfidence : Json F → Confidence F
  -- an integer below one is at most zero
  | .int n => if n < 1 then .zero else .one
  | .float x =>
      if !PyConfidence.isFinite x then .zero
      else if PyConfidence.ltOne x then (if PyFloat.pos x then .between x else .zero)
      else .one
  | _ => .zero

/-- `confidence >= CONFIDENCE_THRESHOLD` -/
def Confidence.high : Confidence F → Bool
  | .zero => false
  | .one => true
  | .between x => PyConfidence.atLeastThreshold x

/-- `meets_block_bar` -/
def meetsBlockBar (confidence : Confidence F) (hasCitations : Bool) : Bool :=
  confidence.high && hasCitations

/-! ## 2. Parsing -/

inductive VerdictLiteral where
  | aligned
  | divergent
  deriving DecidableEq

structure SupervisorVerdict (F : Type) where
  verdict : VerdictLiteral
  confidence : Confidence F
  violations : List (List (String × Json F))

/-- `_warn_verdict` -/
def warnVerdict (evidence suggestedFix : String) : SupervisorVerdict F where
  verdict := .divergent
  confidence := .zero
  violations := [[("severity", .str "low"), ("evidence", .str evidence),
    ("suggested_fix", .str suggestedFix), ("citations", .list [])]]

/-- The verdict literal of an object. -/
def literalOf (data : List (String × Json F)) : Option VerdictLiteral :=
  match get data "verdict" with
  | .str raw =>
      if raw = "aligned" then some .aligned
      else if raw = "divergent" then some .divergent
      else none
  | _ => none

/-- The objects among the violations. -/
def violationObjects (data : List (String × Json F)) : List (List (String × Json F)) :=
  match getD data "violations" (.list []) with
  | .list xs => xs.filterMap fun
      | .obj items => some items
      | _ => none
  | _ => []

/-- `_parse_verdict_data` -/
def parseVerdictData (data : List (String × Json F)) : Option (SupervisorVerdict F) :=
  (literalOf data).map fun verdict =>
    { verdict, confidence := readConfidence (get data "confidence"),
      violations := violationObjects data }

/-- `parse_supervisor_verdict_with_status` -/
def parseSupervisorVerdictWithStatus (response : List Char) : SupervisorVerdict F × Bool :=
  if response = [] then
    (warnVerdict "Supervisor response was empty — check supervisor session health"
      "Verify supervisor resume_id and proxy connectivity", false)
  else
    match (extractJsonFromResponse response : Option (List (String × Json F))) with
    | none =>
        (warnVerdict "Supervisor verdict could not be parsed — check supervisor response format"
          "Verify supervisor session responds with valid JSON verdict", false)
    | some data =>
        match parseVerdictData data with
        | none =>
            (warnVerdict ("Supervisor verdict was missing or invalid — expected exact "
                ++ "'aligned' or 'divergent'")
              "Verify supervisor session returns the documented verdict schema", false)
        | some verdict => (verdict, true)

/-! ## 3. The decision -/

structure VerifiedCitation where
  source : String
  digest : String
  start : Nat
  stop : Nat
  text : String
  deriving DecidableEq

structure Violation (F : Type) where
  ruleId : String
  message : Json F
  severity : Severity
  evidence : Json F
  suggestedFix : Json F
  citations : List String
  provenance : String
  verifiedCitations : List VerifiedCitation

/-- What a warning says. -/
inductive Warning (F : Type) where
  | possibleDivergence (message : Json F) (confidence : Confidence F)
  | noViolations (confidence : Confidence F)

structure PolicyDecision (F : Type) where
  decision : DecisionType
  policyId : String
  violations : List (Violation F) := []
  warnings : List (Warning F) := []
  intent : Option String := none
  warningFindings : List (Violation F) := []

/-- `_normalize_citations` -/
def normalizeCitations : Json F → List String
  | .list xs => xs.filterMap fun
      | .str citation => if Lines.isBlank citation.toList then none else some citation
      | _ => none
  | _ => []

/-- `text.find(quote)` -/
def find (quote : List Char) : List Char → Option Nat
  | [] => if quote = [] then some 0 else none
  | c :: cs => if quote.isPrefixOf (c :: cs) then some 0 else (find quote cs).map (· + 1)

/-- `verify_citations` -/
def verifyCitations (citations : List String) (snapshot : Option PlanSnapshot) :
    List VerifiedCitation :=
  match snapshot with
  | some ⟨some path, some text, some digest⟩ =>
      if text = "" ∨ path = "" ∨ digest = "" then []
      else (citations.map fun citation => Lines.strip citation.toList).eraseDups.filterMap fun quote =>
        if quote = [] then none else (find quote text.toList).map fun start =>
          ⟨path, digest, start, start + quote.length, String.ofList quote⟩
  | _ => []

def policyId : String := "semantic.supervisor"

def severityOf : Json F → Severity
  | .str severity =>
      if severity = "critical" then .critical
      else if severity = "high" then .high
      else if severity = "low" then .low
      else .medium
  | _ => .medium

/-- The finding of a violation object. -/
def violationOf (snapshot : Option PlanSnapshot) (v : List (String × Json F)) : Violation F where
  ruleId := policyId ++ ".alignment"
  message := getD v "evidence" (.str "Divergent from plan")
  severity := severityOf (getD v "severity" (.str "medium"))
  evidence := get v "evidence"
  suggestedFix := get v "suggested_fix"
  citations := normalizeCitations (get v "citations")
  provenance := "reviewer"
  verifiedCitations := verifyCitations (normalizeCitations (get v "citations")) snapshot

/-- What the loop over the violations has collected. -/
structure Findings (F : Type) where
  blocking : List (Violation F) := []
  warning : List (Violation F) := []
  warnings : List (Warning F) := []

/-- One violation. -/
def addFinding (confidence : Confidence F) (snapshot : Option PlanSnapshot)
    (findings : Findings F) (v : List (String × Json F)) : Findings F :=
  let violation := violationOf snapshot v
  if meetsBlockBar confidence (!violation.citations.isEmpty) then
    { findings with blocking := findings.blocking ++ [violation] }
  else
    { findings with
      warning := findings.warning ++ [violation]
      warnings := findings.warnings ++ [.possibleDivergence violation.message confidence] }

/-- `verdict_to_decision` -/
def verdictToDecision (verdict : SupervisorVerdict F) (intent : Option String)
    (snapshot : Option PlanSnapshot) : PolicyDecision F :=
  match verdict.verdict with
  | .aligned => { decision := .allow, policyId }
  | .divergent =>
      let findings := verdict.violations.foldl (addFinding verdict.confidence snapshot) {}
      if !findings.blocking.isEmpty then
        { decision := .deny, policyId, violations := findings.blocking, warnings := findings.warnings,
          warningFindings := findings.warning, intent }
      else if !findings.warnings.isEmpty then
        { decision := .warn, policyId, warnings := findings.warnings,
          warningFindings := findings.warning, intent }
      else { decision := .warn, policyId, warnings := [.noViolations verdict.confidence] }

/-! ## 4. What is meant -/

/-- A finite number that is at least the threshold. -/
def HighConfidence : Json F → Prop
  | .int n => 1 ≤ n
  | .float x => PyConfidence.isFinite x = true ∧ PyConfidence.atLeastThreshold x = true
  | _ => False

/-- A violation with a citation that is a text and not blank. -/
def Cited (v : List (String × Json F)) : Prop :=
  ∃ xs, get v "citations" = .list xs
    ∧ ∃ citation, .str citation ∈ xs ∧ Lines.isBlank citation.toList = false

/-- An object that denies the action. -/
def Blocks (data : List (String × Json F)) : Prop :=
  get data "verdict" = .str "divergent" ∧ HighConfidence (get data "confidence")
    ∧ ∃ v ∈ violationObjects data, Cited v

/-- The decision on a response. -/
def decide (response : List Char) (intent : Option String) (snapshot : Option PlanSnapshot) :
    PolicyDecision F :=
  verdictToDecision (parseSupervisorVerdictWithStatus response).1 intent snapshot

/-- Every violation of the object is reported once. -/
def ReportsAll (data : List (String × Json F)) (snapshot : Option PlanSnapshot)
    (decision : PolicyDecision F) : Prop :=
  (decision.violations ++ decision.warningFindings).Perm
    ((violationObjects data).map (violationOf snapshot))

/-- The response is taken for the object, and decided as it says. -/
def Faithful (data : List (String × Json F)) (response : List Char) : Prop :=
  extractJsonFromResponse response = some data
    ∧ ∀ intent snapshot, ((decide response intent snapshot : PolicyDecision F).decision = .deny
        ↔ Blocks data) ∧ ReportsAll data snapshot (decide response intent snapshot)

/-! ## 5. The loop over the violations -/

theorem readConfidence_high (value : Json F) :
    (readConfidence value).high = true ↔ HighConfidence value := by
  cases value with
  | int n =>
    by_cases hn : n < 1
    · simp [readConfidence, HighConfidence, Confidence.high, hn]
    · simp [readConfidence, HighConfidence, Confidence.high, hn, not_lt.mp hn]
  | float x =>
    cases hfinite : PyConfidence.isFinite x with
    | false => simp [readConfidence, HighConfidence, Confidence.high, hfinite]
    | true =>
      cases hone : PyConfidence.ltOne x with
      | false =>
        have hbar := PyConfidence.threshold_of_not_ltOne x hfinite hone
        simp [readConfidence, HighConfidence, Confidence.high, hfinite, hone, hbar]
      | true =>
        cases hpos : PyFloat.pos x with
        | true => simp [readConfidence, HighConfidence, Confidence.high, hfinite, hone, hpos]
        | false =>
          have hbar : PyConfidence.atLeastThreshold x ≠ true := fun h => by
            rw [PyConfidence.pos_of_threshold x h] at hpos
            cases hpos
          simp [readConfidence, HighConfidence, Confidence.high, hfinite, hone, hpos, hbar]
  | _ => simp [readConfidence, HighConfidence, Confidence.high]

omit [PyConfidence F] in
theorem normalizeCitations_ne_nil (v : List (String × Json F)) :
    (!(normalizeCitations (get v "citations")).isEmpty) = true ↔ Cited v := by
  unfold Cited
  cases get v "citations" with
  | list xs =>
    have hmem : (∃ text, text ∈ normalizeCitations (.list xs))
        ↔ ∃ citation, .str citation ∈ xs ∧ Lines.isBlank citation.toList = false := by
      constructor
      · rintro ⟨text, htext⟩
        obtain ⟨x, hx, hsome⟩ := List.mem_filterMap.mp htext
        split at hsome
        · split at hsome
          · cases hsome
          · next hblank => exact ⟨_, hx, by simpa using hblank⟩
        · cases hsome
      · rintro ⟨citation, hcitation, hblank⟩
        exact ⟨citation, List.mem_filterMap.mpr ⟨_, hcitation, by simp [hblank]⟩⟩
    rw [Bool.not_eq_true', List.isEmpty_eq_false_iff_exists_mem, hmem]
    simp
  | _ => simp [normalizeCitations]

/-- The violations that block. -/
def blocking (confidence : Confidence F) (v : List (String × Json F)) : Bool :=
  meetsBlockBar confidence (!(normalizeCitations (get v "citations")).isEmpty)

theorem blocking_iff (value : Json F) (v : List (String × Json F)) :
    blocking (readConfidence value) v = true ↔ HighConfidence value ∧ Cited v := by
  rw [blocking, meetsBlockBar, Bool.and_eq_true, readConfidence_high, normalizeCitations_ne_nil]

theorem foldl_addFinding (confidence : Confidence F) (snapshot : Option PlanSnapshot) :
    ∀ (vs : List (List (String × Json F))) (findings : Findings F),
      vs.foldl (addFinding confidence snapshot) findings =
        { blocking := findings.blocking
            ++ (vs.filter (blocking confidence)).map (violationOf snapshot)
          warning := findings.warning
            ++ (vs.filter (!blocking confidence ·)).map (violationOf snapshot)
          warnings := findings.warnings ++ (vs.filter (!blocking confidence ·)).map fun v =>
            .possibleDivergence (violationOf snapshot v).message confidence }
  | [], findings => by simp
  | v :: vs, findings => by
      rw [List.foldl_cons, foldl_addFinding confidence snapshot vs]
      cases hblock : blocking confidence v with
      | true =>
        have hadd : addFinding confidence snapshot findings v
            = { findings with blocking := findings.blocking ++ [violationOf snapshot v] } :=
          if_pos hblock
        simp [hadd, hblock]
      | false =>
        have hadd : addFinding confidence snapshot findings v = { findings with
            warning := findings.warning ++ [violationOf snapshot v]
            warnings := findings.warnings
              ++ [.possibleDivergence (violationOf snapshot v).message confidence] } :=
          if_neg (Bool.eq_false_iff.mp hblock)
        simp [hadd, hblock]

/-! ## 6. The decision on an object -/

variable {confidence : Confidence F} {vs : List (List (String × Json F))}
  {data : List (String × Json F)}

theorem verdictToDecision_divergent (intent : Option String) (snapshot : Option PlanSnapshot) :
    let decision := verdictToDecision ⟨.divergent, confidence, vs⟩ intent snapshot
    decision.violations = (vs.filter (blocking confidence)).map (violationOf snapshot)
      ∧ decision.warningFindings = (vs.filter (!blocking confidence ·)).map (violationOf snapshot)
      ∧ (decision.decision = .deny ↔ ∃ v ∈ vs, blocking confidence v = true) := by
  have hloop := foldl_addFinding confidence snapshot vs {}
  have hsome : (∃ v ∈ vs, blocking confidence v = true) ↔ vs.filter (blocking confidence) ≠ [] := by
    simp
  simp only [List.nil_append] at hloop
  simp only [verdictToDecision, hloop, hsome]
  by_cases hblock : vs.filter (blocking confidence) = []
  · by_cases hwarn : vs.filter (!blocking confidence ·) = []
    · simp [hblock, hwarn]
    · simp [hblock, hwarn]
  · simp [hblock]

omit [PyConfidence F] in
theorem literalOf_eq_divergent :
    literalOf data = some .divergent ↔ get data "verdict" = .str "divergent" := by
  unfold literalOf
  split
  · next raw hraw =>
    rw [hraw]
    by_cases haligned : raw = "aligned"
    · simp [haligned]
    · by_cases hdivergent : raw = "divergent" <;> simp [haligned, hdivergent]
  · next hraw => exact iff_of_false nofun (hraw "divergent")

theorem decide_divergent {response : List Char} (hne : response ≠ [])
    (hextract : extractJsonFromResponse response = some data)
    (h : get data "verdict" = .str "divergent") (intent : Option String)
    (snapshot : Option PlanSnapshot) :
    (decide response intent snapshot : PolicyDecision F) = verdictToDecision
      ⟨.divergent, readConfidence (get data "confidence"), violationObjects data⟩ intent snapshot := by
  rw [decide, parseSupervisorVerdictWithStatus, if_neg hne, hextract]
  simp only [parseVerdictData, literalOf_eq_divergent.mpr h]
  rfl

theorem warnVerdict_not_deny (evidence suggestedFix : String) (intent : Option String)
    (snapshot : Option PlanSnapshot) :
    (verdictToDecision (warnVerdict evidence suggestedFix : SupervisorVerdict F) intent
      snapshot).decision ≠ .deny := by
  rw [warnVerdict, Ne, (verdictToDecision_divergent intent snapshot).2.2]
  rintro ⟨v, -, hblock⟩
  cases hblock

/-- Only a divergent verdict denies. -/
theorem decide_not_divergent {response : List Char}
    (hextract : extractJsonFromResponse response = some data)
    (h : get data "verdict" ≠ .str "divergent") (intent : Option String)
    (snapshot : Option PlanSnapshot) :
    (decide response intent snapshot : PolicyDecision F).decision ≠ .deny := by
  rw [decide, parseSupervisorVerdictWithStatus]
  split
  · exact warnVerdict_not_deny _ _ intent snapshot
  · rw [hextract]
    cases hliteral : literalOf data with
    | none =>
      simp only [parseVerdictData, hliteral]
      exact warnVerdict_not_deny _ _ intent snapshot
    | some literal =>
      simp only [parseVerdictData, hliteral]
      cases literal with
      | aligned => exact nofun
      | divergent => exact absurd (literalOf_eq_divergent.mp hliteral) h

/-- The decision on a response from which the object is extracted. -/
theorem decide_extracted {response : List Char} (hne : response ≠ [])
    (hextract : extractJsonFromResponse response = some data) (intent : Option String)
    (snapshot : Option PlanSnapshot) :
    ((decide response intent snapshot : PolicyDecision F).decision = .deny ↔ Blocks data)
      ∧ (get data "verdict" = .str "divergent" →
        ReportsAll data snapshot (decide response intent snapshot)) := by
  by_cases h : get data "verdict" = .str "divergent"
  · obtain ⟨hviolations, hwarning, hdeny⟩ := @verdictToDecision_divergent F _
      (readConfidence (get data "confidence")) (violationObjects data) intent snapshot
    rw [decide_divergent hne hextract h]
    constructor
    · rw [hdeny, Blocks]
      constructor
      · rintro ⟨v, hmem, hblock⟩
        obtain ⟨hhigh, hcited⟩ := (blocking_iff _ v).mp hblock
        exact ⟨h, hhigh, v, hmem, hcited⟩
      · rintro ⟨-, hhigh, v, hmem, hcited⟩
        exact ⟨v, hmem, (blocking_iff _ v).mpr ⟨hhigh, hcited⟩⟩
    · intro _
      rw [ReportsAll, hviolations, hwarning, ← List.map_append]
      exact (List.filter_append_perm _ _).map _
  · exact ⟨iff_of_false (decide_not_divergent hextract h intent snapshot) fun hb => h hb.1,
      fun hd => absurd hd h⟩

/-- The decimal is at least `bound` tenths. -/
def atLeastTenths (bound : Nat) (d : Decimal) : Bool :=
  !d.neg && bound * 10 ^ (-(d.scale + 1)).toNat ≤ d.mantissa * 10 ^ (d.scale + 1).toNat

theorem atLeastTenths_mono {bound bound' : Nat} (hle : bound ≤ bound') {d : Decimal}
    (h : atLeastTenths bound' d = true) : atLeastTenths bound d = true := by
  simp only [atLeastTenths, Bool.and_eq_true, decide_eq_true_eq] at h ⊢
  exact ⟨h.1, le_trans (Nat.mul_le_mul_right _ hle) h.2⟩

instance : PyConfidence FloatText where
  isFinite
    | .decimal _ => true
    | _ => false
  ltOne
    | .decimal d => !atLeastTenths 10 d
    | .negInf => true
    | _ => false
  atLeastThreshold
    | .decimal d => atLeastTenths 8 d
    | .posInf => true
    | _ => false
  pos_of_threshold x h := by
    cases x with
    | decimal d =>
      simp only [atLeastTenths, Bool.and_eq_true, decide_eq_true_eq] at h
      have hpos : d.mantissa ≠ 0 := by
        rintro hzero
        have hpow : 0 < 10 ^ (-(d.scale + 1)).toNat := Nat.pow_pos (by decide)
        rw [hzero, Nat.zero_mul] at h
        omega
      simpa [PyFloat.pos, hpos] using h.1
    | posInf => rfl
    | _ => cases h
  threshold_of_not_ltOne x hfinite h := by
    cases x with
    | decimal d => exact atLeastTenths_mono (by decide : 8 ≤ 10) (by simpa using h)
    | _ => cases hfinite

/-! ## 8. Verdicts -/

def citedViolation (evidence : String) : Json FloatText :=
  .obj [("evidence", .str evidence), ("citations", .list [.str "Use the store."])]

def divergentVerdict (evidence : String) : List (String × Json FloatText) :=
  [("verdict", .str "divergent"), ("confidence", .int 1),
    ("violations", .list [citedViolation evidence])]

def alignedVerdict : List (String × Json FloatText) :=
  [("verdict", .str "aligned"), ("violations", .list [citedViolation "It does."])]

theorem divergentVerdict_proper (evidence : String) : Proper (.obj (divergentVerdict evidence)) := by
  simp [divergentVerdict, citedViolation, Proper, ProperItems, ProperList]

theorem divergentVerdict_blocks (evidence : String) : Blocks (divergentVerdict evidence) :=
  ⟨rfl, le_refl (1 : Int), _, List.mem_singleton_self _, _, rfl, "Use the store.",
    List.mem_singleton_self _, by decide⟩

/-- `json.dumps(divergentVerdict)` -/
def divergentText (evidence : String) : Serialization (divergentVerdict evidence) :=
  .dumps .default Separators.default_valid (divergentVerdict_proper evidence)

/-- Evidence that quotes an empty object. -/
def quotedObject : String := "```\x7b\x7d```"

theorem extract_quotedObject : extractJsonFromResponse (divergentText quotedObject).text
    = some ([] : List (String × Json FloatText)) := by
  have hlabeled : findall jsonLabel (divergentText quotedObject).text = [] := by decide +kernel
  have hplain : findall [] (divergentText quotedObject).text = [['\x7b', '\x7d']] := by
    decide +kernel
  have hproper : Proper (.obj [] : Json FloatText) := by simp [Proper, ProperItems]
  have hempty : objectOf ['\x7b', '\x7d'] = some ([] : List (String × Json FloatText)) :=
    (Serialization.dumps .default Separators.default_valid hproper).objectOf_append
      (fun c (hc : c ∈ []) => absurd hc List.not_mem_nil)
  rw [extractJsonFromResponse, if_neg (divergentText quotedObject).text_ne_nil]
  simp only [codeFencePatterns, List.findSome?_cons, hlabeled, hplain, hempty, List.findSome?_nil]

end MultiForge.Semantic.Verdict
