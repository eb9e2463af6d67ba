/-
MultiForge.Engine.ContentPolicies — the deterministic policies that read
the introduced text.

Three of them look for patterns with `re.search`; a pattern is the text it
is written as, which the evidence quotes, together with the expression it
means. The fourth looks for emoji in code files. `judge` is the decision a
policy takes part in an evaluation with, none when it does not apply.
-/
import MultiForge.Engine.TddPolicy
import MultiForge.Lib.Lines
import MultiForge.Lib.Regex

namespace MultiForge.Engine

open Regex

variable {F : Type}

/-! ## 1. Patterns -/

/-- A pattern as it is written and what it means. -/
structure Pattern where
  source : String
  regex : Regex

/-- `\s` -/
def space : Char → Bool := Lines.isSpace

/-- `.` -/
def dot : Char → Bool := fun c => c != '\n'

/-- `SKIP_PATTERNS` -/
def skipPatterns : List Pattern :=
  [⟨"pytest\\.skip\\(", lit "pytest.skip("⟩,
    ⟨"@pytest\\.mark\\.skip\\b", cat [lit "@pytest.mark.skip", .boundary]⟩,
    ⟨"@pytest\\.mark\\.skipif\\b", cat [lit "@pytest.mark.skipif", .boundary]⟩,
    ⟨"unittest\\.skip\\b", cat [lit "unittest.skip", .boundary]⟩,
    ⟨"@unittest\\.skip\\b", cat [lit "@unittest.skip", .boundary]⟩]

/-- `TYPE_CHECKING_PATTERNS` -/
def typeCheckingPatterns : List Pattern :=
  [⟨"if\\s+TYPE_CHECKING\\s*:",
      cat [lit "if", plus space, lit "TYPE_CHECKING", .star space, lit ":"]⟩,
    ⟨"from\\s+typing\\s+import.*TYPE_CHECKING",
      cat [lit "from", plus space, lit "typing", plus space, lit "import", .star dot,
        lit "TYPE_CHECKING"]⟩]

/-- `BACKWARD_COMPAT_PATTERNS` -/
def backwardCompatPatterns : List Pattern :=
  [⟨"#\\s*backward\\s*compat",
      cat [lit "#", .star space, lit "backward", .star space, lit "compat"]⟩,
    ⟨"#\\s*backwards?\\s*compat",
      cat [lit "#", .star space, lit "backward", opt (lit "s"), .star space, lit "compat"]⟩,
    ⟨"#\\s*legacy\\b", cat [lit "#", .star space, lit "legacy", .boundary]⟩,
    ⟨"#\\s*deprecated\\b", cat [lit "#", .star space, lit "deprecated", .boundary]⟩,
    ⟨"#\\s*TODO.*remove.*later",
      cat [lit "#", .star space, lit "TODO", .star dot, lit "remove", .star dot, lit "later"]⟩,
    ⟨"#\\s*for\\s+backward", cat [lit "#", .star space, lit "for", plus space, lit "backward"]⟩,
    ⟨"#\\s*DEPRECATED\\b", cat [lit "#", .star space, lit "DEPRECATED", .boundary]⟩,
    ⟨"#\\s*LEGACY\\b", cat [lit "#", .star space, lit "LEGACY", .boundary]⟩,
    ⟨"#\\s*compat(?:ibility)?\\s*(?:layer|shim|wrapper)",
      cat [lit "#", .star space, lit "compat", opt (lit "ibility"), .star space,
        .alt (lit "layer") (.alt (lit "shim") (lit "wrapper"))]⟩]

/-- `_matches_any_pattern` -/
def matchesAnyPattern (W : WordClass) (content : Option String) (patterns : List Pattern) :
    List String :=
  match content with
  | none => []
  | some text => (patterns.filter fun p => search W p.regex text.toList).map (·.source)

/-! ## 2. Policies that look for patterns -/

/-- `', '.join(xs)` -/
def commaJoin (xs : List String) : String := ", ".intercalate xs

/-- What a policy that looks for patterns is made of. -/
structure PatternRule where
  policyId : String
  intent : String
  appliesTo : ActionContext → Bool
  patterns : List Pattern
  message : String
  severity : Severity
  evidence : String
  suggestedFix : String

/-- The decision on the patterns that are found. -/
def PatternRule.decide (rule : PatternRule) (matched : List String) : PolicyDecision :=
  if matched.isEmpty then allowed rule.policyId
  else denied rule.policyId rule.intent [{
    ruleId := rule.policyId
    message := rule.message
    severity := rule.severity
    evidence := some (rule.evidence ++ commaJoin matched)
    suggestedFix := some rule.suggestedFix }]

/-- A policy that denies text with one of its patterns. -/
@[reducible] def patternPolicy (W : WordClass) (rule : PatternRule) :
    Policy ActionContext (Json F) where
  policyId := rule.policyId
  State := Unit
  initial := ()
  appliesTo := fun _ ctx => .ok (rule.appliesTo ctx)
  evaluate := fun _ ctx =>
    (.ok (rule.decide (matchesAnyPattern W ctx.newContent rule.patterns)), ())
  memory := none

/-- `path.endswith(suffix)`, for a path that may be missing. -/
def pathEndsWith (path : Option String) (suffix : String) : Bool :=
  match path with
  | none => false
  | some p => suffix.toList.isSuffixOf p.toList

/-- `NoSkipTestsPolicy.applies_to` -/
def skipAppliesTo (ctx : ActionContext) : Bool := ctx.isWriteOrEdit && ctx.newContent.isSome

/-- `applies_to` of the policies for Python files. -/
def pythonAppliesTo (ctx : ActionContext) : Bool :=
  ctx.isWriteOrEdit && ctx.newContent.isSome && pathEndsWith ctx.targetPath ".py"

def skipRule : PatternRule where
  policyId := "tdd.no-skip-tests"
  intent :=
    "Skipped tests hide broken functionality. Every test should either pass or "
      ++ "be deleted. If a test cannot run, fix the environment or the code rather "
      ++ "than skipping it."
  appliesTo := skipAppliesTo
  patterns := skipPatterns
  message := "Test skip patterns are not allowed"
  severity := .high
  evidence := "Found skip pattern(s): "
  suggestedFix := "Remove the skip pattern and fix the underlying issue"

/-- `NoSkipTestsPolicy` -/
@[reducible] def noSkipTests (W : WordClass) : Policy ActionContext (Json F) :=
  patternPolicy W skipRule

def typeCheckingRule : PatternRule where
  policyId := "coding_standards.no-type-checking"
  intent :=
    "Circular imports indicate an architectural problem. TYPE_CHECKING blocks "
      ++ "hide the symptom instead of fixing the dependency structure. This policy "
      ++ "ensures clean module boundaries."
  appliesTo := pythonAppliesTo
  patterns := typeCheckingPatterns
  message := "TYPE_CHECKING blocks are not allowed"
  severity := .medium
  evidence := "Found TYPE_CHECKING pattern(s): "
  suggestedFix :=
    "Fix circular imports architecturally by:\n"
      ++ "1. Moving shared types to a separate types.py module\n"
      ++ "2. Using dependency injection\n"
      ++ "3. Restructuring the module hierarchy"

/-- `NoTypeCheckingPolicy` -/
@[reducible] def noTypeChecking (W : WordClass) : Policy ActionContext (Json F) :=
  patternPolicy W typeCheckingRule

def backwardCompatRule : PatternRule where
  policyId := "coding_standards.no-backward-compat"
  intent :=
    "Compatibility layers accumulate technical debt. This project prefers clean "
      ++ "breaks: update all callers directly and remove old code completely rather "
      ++ "than maintaining shims or fallback logic."
  appliesTo := pythonAppliesTo
  patterns := backwardCompatPatterns
  message := "Backward compatibility patterns are not allowed"
  severity := .medium
  evidence := "Found backward-compat pattern(s): "
  suggestedFix :=
    "Instead of compatibility layers:\n"
      ++ "1. Update all callers directly\n"
      ++ "2. Remove the old implementation completely\n"
      ++ "3. Delete obsolete tests (don't skip them)"

/-- `NoBackwardCompatPolicy` -/
@[reducible] def noBackwardCompat (W : WordClass) : Policy ActionContext (Json F) :=
  patternPolicy W backwardCompatRule

/-! ## 3. Emoji -/

/-- `_EMOJI_RANGES` -/
def emojiRanges : List (Nat × Nat) :=
  [(0x1F300, 0x1F5FF), (0x1F600, 0x1F64F), (0x1F680, 0x1F6FF), (0x1F700, 0x1F77F),
    (0x1F900, 0x1F9FF), (0x1FA00, 0x1FAFF)]

/-- `_is_colorful_emoji` -/
def isColorfulEmoji (ch : Char) : Bool :=
  let cp := ch.toNat
  if cp < 0x10000 then false else emojiRanges.any fun r => r.1 ≤ cp && cp ≤ r.2

/-- `_CODE_EXTENSIONS` -/
def codeExtensions : List String :=
  [".py", ".js", ".ts", ".jsx", ".tsx", ".sh", ".bash", ".java", ".go", ".rs", ".c", ".cpp",
    ".h", ".hpp", ".rb", ".swift", ".kt", ".scala"]

/-- Whether the path is that of a code file. -/
def isCodePath (path : Option String) : Bool := codeExtensions.any (pathEndsWith path)

/-- `list(dict.fromkeys(found))` -/
def dedupe (found : List Char) : List Char :=
  found.foldl (fun unique ch => if ch ∈ unique then unique else unique ++ [ch]) []

/-- The emoji of a text. -/
def foundEmoji (content : Option String) : List Char :=
  match content with
  | none => []
  | some text => text.toList.filter isColorfulEmoji

/-- `str(n)` -/
def natText (n : Nat) : String := String.ofList (Json.natChars n)

/-- The decision on the emoji that are found. -/
def emojiDecision (found : List Char) : PolicyDecision :=
  let sample := " ".intercalate (((dedupe found).take 5).map String.singleton)
  if found.isEmpty then allowed "coding_standards.no-emoji"
  else denied "coding_standards.no-emoji"
    ("Double-width emoji break alignment in terminals, diffs, and code review "
      ++ "tools. Source code should stay ASCII-clean for consistent monospace "
      ++ "rendering. This includes Unicode escapes that produce emoji at runtime.")
    [{ ruleId := "coding_standards.no-emoji"
       message := "Emoji characters found in code: " ++ sample
       severity := .low
       evidence := some ("Found " ++ natText found.length ++ " emoji character(s): " ++ sample)
       suggestedFix :=
         some "Use ASCII equivalents or text-safe symbols instead of colorful emoji." }]

/-- `NoEmojiPolicy` -/
@[reducible] def noEmoji : Policy ActionContext (Json F) where
  policyId := "coding_standards.no-emoji"
  State := Unit
  initial := ()
  appliesTo := fun _ ctx =>
    .ok (ctx.isWriteOrEdit && ctx.newContent.isSome && isCodePath ctx.targetPath)
  evaluate := fun _ ctx => (.ok (emojiDecision (foundEmoji ctx.newContent)), ())
  memory := none

/-! ## 4. Judging -/

/-- The decision an instance of a policy takes part with. -/
def Instance.judge (i : Instance ActionContext (Json F)) (ctx : ActionContext) :
    Option PolicyDecision := (i.run .closed ctx).decision

/-- The deterministic policies of the bundles `tdd` and
`coding_standards`. -/
def deterministicPolicies (W : WordClass) (strict : Bool) :
    List (Policy ActionContext (Json F)) :=
  [tddEnforcement strict, noSkipTests W, noTypeChecking W, noBackwardCompat W, noEmoji]

end MultiForge.Engine
