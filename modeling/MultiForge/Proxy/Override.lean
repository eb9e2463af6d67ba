/-
MultiForge.Proxy.Override — `apply_override` of `proxy/intercept.py`.

In override mode a proxy rewrites the system prompt and the reasoning
fields of a request body before it passes it on. `planOverride` is what is
computed from the body and from copies of its parts: guards, the inserted
augment, the reasoning pin, and the check that the messages are the same.
`applyOverride` then replaces the contents of the caller's dict, and only
after that computes the hash of the new system prompt, which raises where
the text cannot be encoded. The second component of its result is the
caller's dict as it is left, also when the first is an error.

`AllOrNothing` is what a caller relies on, and `all_or_nothing_iff` says of
which requests it holds. An augment that cannot be encoded breaks it. An
entry of a system list that is no block is dropped from the cached prefix,
which matters where the prefix is read entry by entry.

Regular expressions, the model catalog, SHA-256, `repr`, `json.dumps` and
the depth that `deepcopy` can follow are parameters.
-/
import Mathlib.Data.List.Sort
import MultiForge.Json.PyValue
import MultiForge.Lib.Except
import MultiForge.Proxy.ReasoningFloor

namespace MultiForge.Proxy.Override

open PyValue PyStr

abbrev Value := PyValue FloatValue
abbrev Items := List (PyStr × Value)

/-- What `apply_override` raises. -/
inductive OverrideError where
  | reasoningConfigError (message : PyStr)
  | reasoningOverrideError (message : PyStr)
  | reasoningModeConflictError (message : PyStr)
  /-- a block whose text is no string -/
  | typeError
  | unicodeEncodeError
  /-- `int()` of an infinite budget -/
  | overflowError
  /-- `json.dumps` or `deepcopy` beyond a limit of the interpreter -/
  | recursionError
  /-- the messages are not the same -/
  | runtimeError
  deriving DecidableEq, Repr

/-- A compiled guard pattern: whether it matches, and the text without its
matches with their number. -/
structure Pattern where
  search : PyStr → Bool
  subn : PyStr → PyStr × Nat
  subn_mem : ∀ text, ∀ c ∈ (subn text).1, c ∈ text

/-- The fields of a catalog entry that the native path reads. -/
structure ModelSpec where
  nativeThinkingParam : Option String
  betweenToolsReasoningEfforts : Option (List String)
  litellmReasoningEfforts : Option (List String)
  thinkingModes : Option (List String)

/-- What the code calls outside of this module. -/
structure Env where
  compile : PyStr → Option Pattern
  getModelSpec : PyStr → Option ModelSpec
  sha256 : PyStr → PyStr
  pyRepr : Value → PyStr
  /-- `json.dumps(v, sort_keys=True)`; `none` beyond a limit of the interpreter -/
  dumps : Value → Option PyStr
  canCopy : Value → Bool

variable (env : Env)

/-- `deepcopy(v)` -/
def deepcopy (v : Value) : Except OverrideError Value :=
  if env.canCopy v then .ok v else .error .recursionError

/-! ## 1. Hashes -/

/-- `text.encode("utf-8")` raises on a lone surrogate. -/
def digest (text : PyStr) : Except OverrideError PyStr :=
  if hasSurrogate text then .error .unicodeEncodeError else .ok (py "sha256:" ++ env.sha256 text)

/-- `_pattern_hash` of a pattern -/
def patternHash (pattern : PyStr) : Except OverrideError PyStr := do
  return (← digest env pattern).take 23

/-- `messages_fingerprint` -/
def messagesFingerprint (messages : Value) : Except OverrideError PyStr :=
  match env.dumps messages with
  | some canonical => .ok (py "sha256:" ++ env.sha256 canonical)
  | none => .error .recursionError

/-- `text.replace("\r\n", "\n")` -/
def replaceCrlf : PyStr → PyStr
  | [] => []
  | 0x0d :: 0x0a :: cs => 0x0a :: replaceCrlf cs
  | c :: cs => c :: replaceCrlf cs

/-- The text of which the hash is taken: the lines without the blanks at
their ends. -/
def normalizedPrompt (text : PyStr) : PyStr :=
  [0x0a].intercalate (((replaceCrlf text).splitOn 0x0a).map (·.rdropWhile PyStr.isSpace))

/-- `block.get("type") in (None, "text")` -/
def isTextKind (block : Items) : Bool :=
  (get block "type").isStr "text" || get block "type" matches .null

/-- The value that a block adds to the prompt, if it is a text block with
one. -/
def blockPart : Value → Option Value
  | .obj block =>
      if isTextKind block then
        let value := get block "text"
        if value.truthy then some value else none
      else none
  | _ => none

/-- `"\n".join(parts)` raises on a part that is no string. -/
def joinPart : Value → Except OverrideError PyStr
  | .str s => .ok s
  | _ => .error .typeError

/-- The text of a prompt: the string, or its text blocks line by line. -/
def promptText : Value → Except OverrideError PyStr
  | .str s => .ok s
  | .list blocks => do
      let parts ← (blocks.filterMap blockPart).mapM joinPart
      return [0x0a].intercalate parts
  | _ => .ok []

/-- `hash_system_prompt` -/
def hashSystemPrompt (system : Value) : Except OverrideError (Option PyStr) := do
  let text ← promptText system
  if text = [] then return none
  return some (← digest env (normalizedPrompt text))

/-! ## 2. System-prompt mutations -/

/-- `{"type": "text", "text": text}` -/
def textBlock (text : PyStr) : Items := [(py "type", .str (py "text")), (py "text", .str text)]

/-- `_system_to_blocks` -/
def systemToBlocks : Value → List Items
  | .str s => if s = [] then [] else [textBlock s]
  | .list xs => xs.filterMap fun
      | .obj block => some block
      | _ => none
  | _ => []

/-- `block.get("cache_control") is not None` -/
def isMarked (block : Items) : Bool := !(get block "cache_control" matches .null)

/-- The blocks up to and including the last marked one, and the rest. -/
def splitAtLastMarked : List Items → Option (List Items × List Items)
  | [] => none
  | block :: blocks => match splitAtLastMarked blocks with
      | some (cached, rest) => some (block :: cached, rest)
      | none => if isMarked block then some ([block], blocks) else none

/-- `insert_augment_cache_aware` -/
def insertAugmentCacheAware (system : Value) (augment : PyStr) : Value × Bool :=
  if augment = [] then (system, false)
  else
    let blocks := systemToBlocks system
    match splitAtLastMarked blocks with
    | some (cached, rest) =>
        (.list ((cached ++ [textBlock augment] ++ rest).map .obj), false)
    | none => (.list ((blocks ++ [textBlock augment]).map .obj), true)

/-- `_compile` -/
def compilePattern : Value → Option Pattern
  | .str (c :: cs) => env.compile (c :: cs)
  | _ => none

/-- `any(rx.search(block.get("text", "")) for block in blocks)` -/
def anyMatch (rx : Pattern) : List Items → Except OverrideError Bool
  | [] => .ok false
  | block :: blocks => match getD block "text" (.str []) with
      | .str text => if rx.search text then .ok true else anyMatch rx blocks
      | _ => .error .typeError

/-- The first pass of `apply_guards`: the pattern of a block guard that
matches. -/
def blockingPattern (blocks : List Items) : List Items → Except OverrideError (Option PyStr)
  | [] => .ok none
  | guard :: guards =>
      if (get guard "action").isStr "block" then
        match get guard "pattern" with
        | .str pattern => match compilePattern env (.str pattern) with
            | some rx => do
                if ← anyMatch rx blocks then return some pattern
                blockingPattern blocks guards
            | none => blockingPattern blocks guards
        | _ => blockingPattern blocks guards
      else blockingPattern blocks guards

/-- One block without the matches of a pattern, and their number. -/
def stripBlock (rx : Pattern) (block : Items) : Except OverrideError (Items × Nat) :=
  let text := get block "text"
  if text.truthy then
    match text with
    | .str s =>
        let (newText, n) := rx.subn s
        .ok (if n = 0 then block else insert (py "text") (.str newText) block, n)
    | _ => .error .typeError
  else .ok (block, 0)

/-- What the second pass of `apply_guards` has done so far. -/
structure Guarding where
  blocks : List Items
  warnedPatterns : List PyStr
  strippedCount : Nat

/-- One guard of the second pass. -/
def applyGuard (guard : Items) (s : Guarding) : Except OverrideError Guarding :=
  match get guard "pattern" with
  | .str pattern => match compilePattern env (.str pattern) with
      | some rx =>
          let action := getD guard "action" (.str (py "warn"))
          if action.isStr "strip" then do
            let stripped ← s.blocks.mapM (stripBlock rx)
            return { s with
              blocks := stripped.map Prod.fst
              strippedCount := s.strippedCount + (stripped.map Prod.snd).sum }
          else if action.isStr "warn" then do
            if ← anyMatch rx s.blocks then
              return { s with warnedPatterns := s.warnedPatterns ++ [pattern] }
            return s
          else .ok s
      | none => .ok s
  | _ => .ok s

/-- `GuardOutcome`, with the system prompt that goes with it -/
structure GuardOutcome where
  system : Value
  blockedPattern : Option PyStr
  warnedPatterns : List PyStr
  strippedCount : Nat

/-- `apply_guards` -/
def applyGuards (system : Value) (guards : List Items) : Except OverrideError GuardOutcome := do
  let blocks := systemToBlocks system
  match ← blockingPattern env blocks guards with
  | some pattern => return ⟨system, some pattern, [], 0⟩
  | none => do
      let s ← guards.foldlM (fun s guard => applyGuard env guard s) ⟨blocks, [], 0⟩
      let system := if s.strippedCount = 0 then system else .list (s.blocks.map .obj)
      return ⟨system, none, s.warnedPatterns, s.strippedCount⟩

/-! ## 3. The reasoning pin -/

/-- `SUPPORTED_FLOOR_EFFORTS` -/
def supportedFloorEfforts : List String := ["minimal", "low", "medium", "high", "xhigh", "max"]

/-- `_NO_FLOOR_EFFORTS` -/
def noFloorEfforts : List String := ["disable", "none"]

/-- `EFFORT_RANK.get(effort, 3)` -/
def effortRank (effort : String) : Nat :=
  (([("none", 0), ("disable", 0), ("minimal", 1), ("low", 2), ("medium", 3), ("high", 4),
    ("xhigh", 5), ("max", 6)] : List (String × Nat)).lookup effort).getD 3

/-- The keys of `EFFORT_RANK` that are strings. -/
def rankedEfforts : List String :=
  ["none", "disable", "minimal", "low", "medium", "high", "xhigh", "max"]

/-- `", ".join(names)` -/
def commaList (names : List String) : PyStr := py (", ".intercalate names)

/-- `_validate_reasoning_floor_effort` -/
def validateReasoningFloorEffort (value : Value) : Except OverrideError (Option String) :=
  match value with
  | .null => .ok none
  | _ =>
      if noFloorEfforts.any fun effort => value.isStr effort then .ok none
      else match supportedFloorEfforts.find? fun effort => value.isStr effort with
        | some effort => .ok (some effort)
        | none => .error (.reasoningConfigError (py "reasoning effort floor must be one of: " ++
            commaList supportedFloorEfforts ++ py " (or " ++ commaList noFloorEfforts ++
            py " for no floor)"))

/-- The efforts and the thinking modes of a model with native effort. -/
structure NativeSupport where
  efforts : Option (List String)
  thinkingModes : Option (List String)

/-- `value.removesuffix("[1m]")` -/
def stripTransportModelSuffix (value : PyStr) : PyStr :=
  if py "[1m]" <:+ value then value.take (value.length - 4) else value

/-- The items of a `dict`; other values have none. -/
def itemsOf : Value → Items
  | .obj items => items
  | _ => []

/-- `thinking.get("type") == "between_tools"`, for a `dict` -/
def isBetweenTools (thinking : Value) : Bool :=
  (get (itemsOf thinking) "type").isStr "between_tools"

/-- `_native_effort_support` -/
def nativeEffortSupport (model thinking : Value) : Option NativeSupport :=
  match model with
  | .str (c :: cs) =>
      let lookupModel := stripTransportModelSuffix (c :: cs)
      let candidates := if 0x2f ∈ lookupModel
        then [lookupModel, (lookupModel.dropWhile (· ≠ 0x2f)).drop 1] else [lookupModel]
      (candidates.findSome? env.getModelSpec).bind fun spec =>
        if spec.nativeThinkingParam = some "output_config.effort" then
          match isBetweenTools thinking, spec.betweenToolsReasoningEfforts with
          | true, some efforts => some ⟨some efforts, spec.thinkingModes⟩
          | _, _ => some ⟨spec.litellmReasoningEfforts, spec.thinkingModes⟩
        else none
  | _ => none

/-- The check of manual thinking against the thinking modes of the model. -/
def checkManualThinking (native : Option NativeSupport) (body : Items) :
    Except OverrideError Unit :=
  match native.bind (·.thinkingModes), get body "thinking" with
  | some modes, .obj thinking =>
      if "enabled" ∉ modes ∧
          ((get thinking "type").isStr "enabled" ∨ hasKey thinking "budget_tokens") then
        .error (.reasoningOverrideError (py "model " ++ env.pyRepr (get body "model") ++
          py " does not support manual thinking; remove manual thinking.type/budget_tokens"))
      else .ok ()
  | _, _ => .ok ()

/-- `raise_effort_to_supported` -/
def raiseEffortToSupported (effort : String) (supported : Option (List String)) : Option String :=
  match supported with
  | none => some effort
  | some levels =>
      if effort ∈ levels then some effort
      else (levels.insertionSort fun a b => effortRank a ≤ effortRank b).find? fun level =>
        effortRank effort ≤ effortRank level

/-- `max_effort` -/
def maxEffort (a : Option String) (b : String) : String :=
  match a with
  | none => b
  | some a => if effortRank b ≤ effortRank a then a else b

/-- The effort of an `output_config`, checked against the model. -/
def currentEffort (pinned : Items) (supported : Option (List String)) :
    Except OverrideError (Option String) :=
  match get pinned "effort" with
  | .null => .ok none
  | .str s => match rankedEfforts.find? fun effort => py effort = s with
      | none => .error (.reasoningOverrideError (py "unsupported output_config.effort " ++
          env.pyRepr (.str s)))
      | some current =>
          if supported.any (current ∉ ·) then
            .error (.reasoningOverrideError (py "output_config.effort " ++ env.pyRepr (.str s) ++
              py " is not supported by this model (supported: " ++
              commaList (supported.getD []) ++ py ")"))
          else .ok (some current)
  | _ => .error (.reasoningOverrideError (py "output_config.effort must be a string"))

/-- `_normalize_native_effort_floor` -/
def normalizeNativeEffortFloor (floor : String) (supported : Option (List String)) :
    Except OverrideError String :=
  match raiseEffortToSupported floor supported with
  | some effort => .ok effort
  | none => .error (.reasoningOverrideError (py "reasoning effort floor " ++
      env.pyRepr (.str (py floor)) ++ py " cannot be represented safely (model supports: " ++
      commaList (supported.getD []) ++ py ")"))

/-- What `pin_native_effort` changes; `none` where the effort is kept. -/
structure PinnedEffort where
  outputConfig : Value
  before : Option String
  after : String

/-- `pin_native_effort` -/
def pinNativeEffort (outputConfig : Value) (floor : String) (supported : Option (List String)) :
    Except OverrideError (Option PinnedEffort) := do
  let pinned ← match outputConfig with
    | .null => pure []
    | .obj items => pure items
    | _ => .error (.reasoningOverrideError
        (py "output_config must be an object when a passthrough reasoning floor is configured"))
  let current ← currentEffort env pinned supported
  let effectiveFloor ← normalizeNativeEffortFloor env floor supported
  let target := maxEffort current effectiveFloor
  if current = some target then return none
  return some ⟨.obj (insert (py "effort") (.str (py target)) pinned), current, target⟩

/-- A value as far as it is a number. -/
def number : Value → Json FloatValue
  | .bool b => .bool b
  | .int n => .int n
  | .float x => .float x
  | _ => .null

/-- What `pin_reasoning` changes; `none` where the budget is kept. -/
structure PinnedBudget where
  thinking : Value
  before : Option Int
  after : Int

/-- `pin_reasoning`; the arithmetic is that of `ReasoningFloor`. -/
def pinReasoning (thinking : Value) (floorEffort : String) (maxTokens : Value) :
    Except OverrideError (Option PinnedBudget) :=
  match effortToBudgetFloor (some floorEffort) with
  | none => .ok none
  | some floor => match positiveInt (number (get (itemsOf thinking) "budget_tokens")) with
      | .error _ => .error .overflowError
      | .ok current =>
          if floor = 0 || current.any (floor ≤ ·) || cannotHost (number maxTokens) then .ok none
          else
            let target := targetBudget floor (number maxTokens)
            let pinned := insert (py "type") (.str (py "enabled")) (itemsOf thinking)
            .ok (some ⟨.obj (insert (py "budget_tokens") (.int target) pinned), current, target⟩)

/-- An entry of the mutation record. -/
inductive Mutation where
  | warn (patternHash : PyStr)
  | strip (strippedCount : Nat)
  | augment (augmentLen : Nat) (cacheInvalidationExpected : Bool)
  | effortPin (floor : String) (before : Option String) (after : String)
      (removedSamplingParameters : List String)
  | budgetPin (floor : String) (before : Option Int) (after : Int)
      (removedSamplingParameters : List String)
  deriving DecidableEq, Repr

/-- A pin that changes something: the key it sets, the value, and its
entry. -/
structure Pin where
  key : String
  value : Value
  mutation : Mutation

/-- The sampling parameters of a body, in their sorted order. -/
def samplingParameters (body : Items) : List String :=
  ["temperature", "top_k", "top_p"].filter fun parameter => hasKey body parameter

/-- The reasoning pin of a request. -/
def planPin (native : Option NativeSupport) (floor : Option String) (body : Items) :
    Except OverrideError (Option Pin) :=
  match floor with
  | none => .ok none
  | some floor => match native with
      | some support =>
          if isBetweenTools (get body "thinking") ∧
              raiseEffortToSupported floor support.efforts = none then
            .error (.reasoningModeConflictError (py "reasoning effort floor " ++
              env.pyRepr (.str (py floor)) ++ py (" conflicts with between_tools; " ++
              "use adaptive thinking or lower the proxy's reasoning floor")))
          else do
            let pinned ← pinNativeEffort env (get body "output_config") floor support.efforts
            return pinned.map fun p => ⟨"output_config", p.outputConfig,
              .effortPin floor p.before p.after (samplingParameters body)⟩
      | none =>
          if effortToBudgetFloor (some floor) = none then
            .error (.reasoningOverrideError (py "reasoning effort floor " ++
              env.pyRepr (.str (py floor)) ++
              py " cannot be represented safely for passthrough model " ++
              env.pyRepr (get body "model")))
          else do
            let pinned ← pinReasoning (get body "thinking") floor (get body "max_tokens")
            return pinned.map fun p => ⟨"thinking", p.thinking,
              .budgetPin floor p.before p.after (samplingParameters body)⟩

/-! ## 4. Orchestration -/

/-- `d.pop(key)` -/
def pop (items : Items) (key : String) : Items := items.filter fun kv => kv.1 ≠ py key

/-- The candidate body. -/
def candidateBody (body : Items) (augment : PyStr) (guarded : GuardOutcome) (pin : Option Pin) :
    Items :=
  let body' := if guarded.strippedCount ≠ 0 ∨ augment ≠ [] then
      insert (py "system") (insertAugmentCacheAware guarded.system augment).1 body else body
  match pin with
  | none => body'
  | some pin =>
      (samplingParameters body).foldl pop (insert (py pin.key) pin.value body')

/-- The entries of the mutation record. -/
def mutationsOf (augment : PyStr) (guarded : GuardOutcome) (warnedHashes : List PyStr)
    (pin : Option Pin) : List Mutation :=
  warnedHashes.map .warn
    ++ (if guarded.strippedCount = 0 then [] else [.strip guarded.strippedCount])
    ++ (if augment = [] then [] else
      [.augment augment.length (insertAugmentCacheAware guarded.system augment).2])
    ++ (pin.map (·.mutation)).toList

/-- The warnings of a result. -/
def warningsOf (augment : PyStr) (guarded : GuardOutcome) (warnedHashes : List PyStr) :
    List PyStr :=
  warnedHashes.map (py "system_prompt_guard matched (warn): " ++ ·)
    ++ (if (insertAugmentCacheAware guarded.system augment).2 then
      [py "system_prompt_augment: no post-cache anchor, expected cache invalidation"] else [])

/-- What is known before the caller's dict is touched. -/
inductive Plan where
  | blocked (patternHash : PyStr)
  | unchanged (warnings : List PyStr)
  | commit (candidate : Items) (hashBefore : Option PyStr) (mutations : List Mutation)
      (warnings : List PyStr)

/-- `apply_override` up to the commit -/
def planOverride (body : Items) (augment : PyStr) (guards : List Items) (floor : Value) :
    Except OverrideError Plan := do
  let floor ← validateReasoningFloorEffort floor
  let native := nativeEffortSupport env (get body "model") (get body "thinking")
  checkManualThinking env native body
  let beforeFp ← messagesFingerprint env (get body "messages")
  let hashBefore ← hashSystemPrompt env (get body "system")
  let system ← deepcopy env (get body "system")
  let guarded ← applyGuards env system guards
  match guarded.blockedPattern with
  | some pattern => return .blocked (← patternHash env pattern)
  | none => do
      let warnedHashes ← guarded.warnedPatterns.mapM (patternHash env)
      let pin ← planPin env native floor body
      let candidate := candidateBody body augment guarded pin
      let afterFp ← messagesFingerprint env (get candidate "messages")
      let mutations := mutationsOf augment guarded warnedHashes pin
      let warnings := warningsOf augment guarded warnedHashes
      if beforeFp ≠ afterFp then .error .runtimeError
      else if mutations = [] then return .unchanged warnings
      else return .commit candidate hashBefore mutations warnings

/-- A mutation record. -/
inductive Record where
  | blocked (patternHash : PyStr)
  | mutated (hashBefore hashAfter : Option PyStr) (mutations : List Mutation)
  deriving DecidableEq, Repr

/-- `OverrideResult`; its body is the caller's. -/
structure OverrideResult where
  blocked : Bool
  blockedReason : Option PyStr
  mutationRecord : Option Record
  warnings : List PyStr
  deriving DecidableEq, Repr

/-- `apply_override`: the result, or what is raised, and the caller's dict
as it is left. -/
def applyOverride (body : Items) (augment : PyStr) (guards : List Items) (floor : Value) :
    Except OverrideError OverrideResult × Items :=
  match planOverride env body augment guards floor with
  | .error e => (.error e, body)
  | .ok (.blocked hash) =>
      (.ok ⟨true, some (py "system_prompt_guard blocked request (pattern hash " ++ hash ++ py ")"),
        some (.blocked hash), []⟩, body)
  | .ok (.unchanged warnings) => (.ok ⟨false, none, none, warnings⟩, body)
  | .ok (.commit candidate hashBefore mutations warnings) =>
      match hashSystemPrompt env (get candidate "system") with
      | .error e => (.error e, candidate)
      | .ok hashAfter =>
          (.ok ⟨false, none, some (.mutated hashBefore hashAfter mutations), warnings⟩, candidate)

/-! ## 5. What a caller relies on -/

/-- How the entries of a system prompt are read: one by one, or as the
blocks among them. -/
inductive Reading where
  | entries
  | blocks
  deriving DecidableEq, Repr

def Reading.view : Reading → Value → List Value
  | .entries, .list xs => xs
  | .entries, _ => []
  | .blocks, system => (systemToBlocks system).map .obj

/-- `m` is the last marked block of a system prompt. -/
def LastMarked (entries before : List Value) (m : Items) (rest : List Value) : Prop :=
  entries = before ++ .obj m :: rest ∧ isMarked m = true ∧
    ∀ block, .obj block ∈ rest → isMarked block = false

def Mutation.isStrip : Mutation → Bool
  | .strip _ => true
  | _ => false

def Mutation.isPin : Mutation → Bool
  | .effortPin .. => true
  | .budgetPin .. => true
  | _ => false

def samplingKeys : List String := ["temperature", "top_k", "top_p"]

def rewrittenKeys : List String := ["system", "thinking", "output_config"]

/-- The caller's dict was changed where an override may change it. -/
structure Confined (reading : Reading) (augment : PyStr) (mutations : List Mutation)
    (body left : Items) : Prop where
  frame : ∀ key, key ∉ (rewrittenKeys ++ samplingKeys).map py → lookup key left = lookup key body
  sampling : ∀ key ∈ samplingKeys, lookup (py key) left = lookup (py key) body ∨
    lookup (py key) left = none ∧ ∃ mutation ∈ mutations, mutation.isPin = true
  /-- Without a strip, the cached prefix is as it was, and the augment is
  the next block. -/
  anchored : mutations.any (·.isStrip) = false → ∀ before m rest,
    LastMarked (reading.view (get body "system")) before m rest →
      if augment = [] then get left "system" = get body "system"
      else ∃ rest', reading.view (get left "system") =
        before ++ .obj m :: .obj (textBlock augment) :: rest'

/-- An override is applied and confined, or the caller's dict is as it
was. -/
def AllOrNothing (reading : Reading) (body : Items) (augment : PyStr) (guards : List Items)
    (floor : Value) : Prop :=
  match applyOverride env body augment guards floor with
  | (.ok ⟨false, _, some (.mutated _ _ mutations), _⟩, left) =>
      Confined reading augment mutations body left
  | (_, left) => left = body

/-- The efforts of the request's model. -/
def nativeOf (body : Items) : Option NativeSupport :=
  nativeEffortSupport env (get body "model") (get body "thinking")

/-- A request for which nothing raises or blocks before the commit. -/
structure Reached (body : Items) (guards : List Items) (floor : Value) (guarded : GuardOutcome)
    (pin : Option Pin) (warnedHashes : List PyStr) : Prop where
  pinned : ∃ effort, validateReasoningFloorEffort floor = .ok effort ∧
    checkManualThinking env (nativeOf env body) body = .ok () ∧
      planPin env (nativeOf env body) effort body = .ok pin
  fingerprint : ∃ fp, messagesFingerprint env (get body "messages") = .ok fp
  hashed : ∃ hash, hashSystemPrompt env (get body "system") = .ok hash
  copied : deepcopy env (get body "system") = .ok (get body "system")
  applied : applyGuards env (get body "system") guards = .ok guarded
  notBlocked : guarded.blockedPattern = none
  warned : guarded.warnedPatterns.mapM (patternHash env) = .ok warnedHashes

/-- What stands before the last marked block is blocks. -/
def PrefixIsBlocks (entries : List Value) : Prop :=
  ∀ before m rest, LastMarked entries before m rest → ∀ v ∈ before, ∃ block, v = .obj block

/-- The requests for which the dict is safe: where the augment is inserted,
it can be encoded, and nothing is dropped from the cached prefix. -/
def Safe (reading : Reading) (body : Items) (augment : PyStr) (guards : List Items)
    (floor : Value) : Prop :=
  augment ≠ [] → ∀ guarded pin warnedHashes, Reached env body guards floor guarded pin warnedHashes →
    hasSurrogate augment = false ∧
      (guarded.strippedCount = 0 → PrefixIsBlocks (reading.view (get body "system")))

/-! ## 6. Hashing a system prompt -/

variable {env}

/-- The values that are joined to the prompt's text. -/
def partsOf : Value → List Value
  | .str s => [.str s]
  | .list xs => xs.filterMap blockPart
  | _ => []

/-- A part that can be joined and encoded. -/
def CleanPart (v : Value) : Prop := ∃ s, v = .str s ∧ hasSurrogate s = false

theorem digest_ok (env : Env) {text : PyStr} :
    (∃ d, digest env text = .ok d) ↔ hasSurrogate text = false := by
  unfold digest
  cases hasSurrogate text <;> simp

theorem hasSurrogate_iff {text : PyStr} :
    hasSurrogate text = false ↔ ∀ c ∈ text, isSurrogate c = false := by
  simp [hasSurrogate]

theorem hasSurrogate_replaceCrlf (text : PyStr) :
    hasSurrogate (replaceCrlf text) = hasSurrogate text := by
  induction text using replaceCrlf.induct with
  | case1 => rfl
  | case2 cs ih => simp [replaceCrlf, ih, isSurrogate]
  | case3 c cs hne ih =>
    rw [replaceCrlf, hasSurrogate_cons, hasSurrogate_cons, ih]
    exact hne

theorem hasSurrogate_intercalate (parts : List PyStr) :
    hasSurrogate ([0x0a].intercalate parts) = parts.any hasSurrogate := by
  induction parts with
  | nil => rfl
  | cons part parts ih =>
    cases parts with
    | nil => simp [List.intercalate]
    | cons next rest =>
      rw [List.intercalate_cons_cons, hasSurrogate_append, hasSurrogate_append, ih]
      simp [isSurrogate]

theorem hasSurrogate_splitOn (text : PyStr) :
    (text.splitOn 0x0a).any hasSurrogate = hasSurrogate text := by
  rw [← hasSurrogate_intercalate, List.intercalate_splitOn]

theorem isSurrogate_of_isSpace {c : Nat} (h : PyStr.isSpace c = true) : isSurrogate c = false := by
  simp only [PyStr.isSpace, Bool.or_eq_true, Bool.and_eq_true, decide_eq_true_eq] at h
  simp only [isSurrogate, Bool.and_eq_false_iff, decide_eq_false_iff_not]
  omega

theorem hasSurrogate_rstrip (line : PyStr) :
    hasSurrogate (line.rdropWhile PyStr.isSpace) = hasSurrogate line := by
  induction line using List.reverseRecOn with
  | nil => rfl
  | append_singleton line c ih =>
    cases hc : PyStr.isSpace c with
    | true =>
      rw [List.rdropWhile_concat_pos _ _ _ hc, ih, hasSurrogate_append]
      simp [isSurrogate_of_isSpace hc]
    | false => rw [List.rdropWhile_concat_neg _ _ _ (by simp [hc])]

theorem hasSurrogate_normalizedPrompt (text : PyStr) :
    hasSurrogate (normalizedPrompt text) = hasSurrogate text := by
  rw [normalizedPrompt, hasSurrogate_intercalate, List.any_map]
  have hline : (hasSurrogate ∘ fun line : PyStr => line.rdropWhile PyStr.isSpace) = hasSurrogate :=
    funext hasSurrogate_rstrip
  rw [hline, hasSurrogate_splitOn, hasSurrogate_replaceCrlf]

theorem mapM_joinPart {parts : List Value} {texts : List PyStr} :
    parts.mapM joinPart = .ok texts ↔ parts = texts.map .str := by
  constructor
  · intro h
    have hall := mapM_ok h
    clear h
    induction hall with
    | nil => rfl
    | cons hx _ ih =>
      rw [List.map_cons, ← ih]
      unfold joinPart at hx
      split at hx
      · cases hx
        rfl
      · cases hx
  · rintro rfl
    induction texts with
    | nil => rfl
    | cons text texts ih =>
      rw [List.map_cons, List.mapM_cons, ih]
      rfl

theorem promptText_ok {system : Value} {text : PyStr} (h : promptText system = .ok text) :
    (∀ v ∈ partsOf system, CleanPart v) ↔ hasSurrogate text = false := by
  unfold promptText at h
  split at h
  · cases h
    simp [partsOf, CleanPart]
  · obtain ⟨texts, htexts, h⟩ := bind_ok.mp h
    cases h
    rw [hasSurrogate_intercalate]
    simp [partsOf, mapM_joinPart.mp htexts, CleanPart]
  · rename_i hstr hlist
    cases h
    cases system with
    | str s => exact absurd rfl (hstr s)
    | list xs => exact absurd rfl (hlist xs)
    | _ => simp [partsOf]

theorem exists_promptText {system : Value} (h : ∀ v ∈ partsOf system, CleanPart v) :
    ∃ text, promptText system = .ok text := by
  cases system with
  | list xs =>
    have hparts : ∃ texts, (xs.filterMap blockPart).mapM joinPart = .ok texts := by
      rw [exists_mapM_ok]
      intro v hv
      obtain ⟨s, rfl, -⟩ := h v hv
      exact ⟨s, rfl⟩
    exact exists_bind_ok.mpr (hparts.imp fun _ htexts => ⟨htexts, _, rfl⟩)
  | _ => exact ⟨_, rfl⟩

/-- A hash is taken exactly when every part of the prompt can be joined and
encoded. -/
theorem hashSystemPrompt_ok {system : Value} :
    (∃ hash, hashSystemPrompt env system = .ok hash) ↔ ∀ v ∈ partsOf system, CleanPart v := by
  have htext : ∀ text, (∃ hash, (if text = [] then pure none
      else do return some (← digest env (normalizedPrompt text)) :
        Except OverrideError (Option PyStr)) = .ok hash) ↔ hasSurrogate text = false := by
    intro text
    split
    · rename_i hempty
      simp [hempty, pure, Except.pure]
    · rw [exists_bind_ok, ← hasSurrogate_normalizedPrompt, ← digest_ok env]
      simp [pure, Except.pure]
  unfold hashSystemPrompt
  rw [exists_bind_ok]
  constructor
  · rintro ⟨text, hprompt, hhash⟩
    exact (promptText_ok hprompt).mpr ((htext text).mp hhash)
  · intro h
    obtain ⟨text, hprompt⟩ := exists_promptText h
    exact ⟨text, hprompt, (htext text).mpr ((promptText_ok hprompt).mp h)⟩

/-! ## 7. Guards keep a prompt clean -/

/-- What a block adds to the prompt can be joined and encoded. -/
def CleanBlock (block : Items) : Prop := ∀ v, blockPart (.obj block) = some v → CleanPart v

theorem filterMap_blockPart (xs : List Value) : xs.filterMap blockPart =
    (systemToBlocks (.list xs)).filterMap fun block => blockPart (.obj block) := by
  induction xs with
  | nil => rfl
  | cons v xs ih =>
    cases v <;> simp_all [systemToBlocks, List.filterMap_cons, blockPart]

theorem blockPart_some {block : Items} {v : Value} : blockPart (.obj block) = some v ↔
    isTextKind block = true ∧ (get block "text").truthy = true ∧ get block "text" = v := by
  unfold blockPart
  dsimp only
  split
  · split <;> simp_all
  · simp_all

theorem blockPart_textBlock {text : PyStr} (h : text ≠ []) :
    blockPart (.obj (textBlock text)) = some (.str text) := by
  cases text with
  | nil => exact absurd rfl h
  | cons c cs =>
    have htype : get (textBlock (c :: cs)) "type" = .str (py "text") := by
      simp [textBlock, PyValue.get, PyValue.getD, lookup]
    have htext : get (textBlock (c :: cs)) "text" = .str (c :: cs) := by
      simp [textBlock, PyValue.get, PyValue.getD, lookup, py_inj]
    rw [blockPart_some, isTextKind, htype, htext]
    simp [truthy]

theorem cleanBlock_textBlock {text : PyStr} (h : text ≠ []) :
    CleanBlock (textBlock text) ↔ hasSurrogate text = false := by
  simp [CleanBlock, blockPart_textBlock h, CleanPart]

/-- The prompt is clean when its blocks are. -/
theorem clean_iff_blocks {system : Value} :
    (∀ v ∈ partsOf system, CleanPart v) ↔ ∀ block ∈ systemToBlocks system, CleanBlock block := by
  cases system with
  | str s =>
    by_cases hs : s = []
    · simp [partsOf, systemToBlocks, hs, CleanPart]
    · simp [partsOf, systemToBlocks, hs, cleanBlock_textBlock hs, CleanPart]
  | list xs =>
    rw [partsOf, filterMap_blockPart]
    simp only [List.mem_filterMap, CleanBlock]
    constructor
    · exact fun h block hblock v hv => h v ⟨block, hblock, hv⟩
    · exact fun h v ⟨block, hblock, hv⟩ => h block hblock v hv
  | _ => simp [partsOf, systemToBlocks]

theorem systemToBlocks_objs (blocks : List Items) :
    systemToBlocks (.list (blocks.map .obj)) = blocks := by
  induction blocks with
  | nil => rfl
  | cons block blocks ih =>
    simp only [systemToBlocks, List.map_cons, List.filterMap_cons] at ih ⊢
    rw [ih]

theorem get_insert (key key' : String) (v : Value) (items : Items) :
    get (insert (py key) v items) key' = if key = key' then v else get items key' := by
  simp only [PyValue.get, PyValue.getD, lookup_insert, py_inj]
  split <;> rfl

/-- Taking matches out of a block leaves it clean. -/
theorem CleanBlock.strip {rx : Pattern} {block : Items} (h : CleanBlock block)
    {stripped : Items × Nat} (hstrip : stripBlock rx block = .ok stripped) :
    CleanBlock stripped.1 := by
  unfold stripBlock at hstrip
  dsimp only at hstrip
  split at hstrip
  · rename_i htruthy
    split at hstrip
    · rename_i s htext
      cases hstrip
      dsimp only
      split
      · exact h
      intro v hv
      have htype : get (insert (py "text") (.str (rx.subn s).1) block) "type" = get block "type" := by
        rw [get_insert, if_neg (by decide)]
      have hvalue : get (insert (py "text") (.str (rx.subn s).1) block) "text" =
          .str (rx.subn s).1 := by
        rw [get_insert, if_pos rfl]
      rw [blockPart_some, isTextKind, htype, hvalue] at hv
      obtain ⟨hkind, -, rfl⟩ := hv
      -- the text it comes from is a part of the prompt too
      obtain ⟨s', hs', hclean⟩ := h (.str s) (blockPart_some.mpr ⟨hkind, htruthy, htext⟩)
      cases hs'
      refine ⟨_, rfl, hasSurrogate_iff.mpr ?_⟩
      exact fun c hc => hasSurrogate_iff.mp hclean c (rx.subn_mem s c hc)
    · cases hstrip
  · cases hstrip
    exact h

theorem applyGuard_clean {guard : Items} {s s' : Guarding} (h : applyGuard env guard s = .ok s')
    (hclean : ∀ block ∈ s.blocks, CleanBlock block) : ∀ block ∈ s'.blocks, CleanBlock block := by
  unfold applyGuard at h
  split at h
  · split at h
    · dsimp only at h
      split at h
      · obtain ⟨stripped, hstripped, h⟩ := bind_ok.mp h
        cases h
        intro block hblock
        obtain ⟨result, hresult, rfl⟩ := List.mem_map.mp hblock
        obtain ⟨block', hblock', hstrip⟩ := mem_of_mapM_ok hstripped result hresult
        exact (hclean block' hblock').strip hstrip
      · split at h
        · obtain ⟨found, -, h⟩ := bind_ok.mp h
          split at h <;> cases h <;> exact hclean
        · cases h
          exact hclean
    · cases h
      exact hclean
  · cases h
    exact hclean

theorem deepcopy_ok {v v' : Value} (h : deepcopy env v = .ok v') : v = v' := by
  unfold deepcopy at h
  split at h <;> cases h
  rfl

theorem applyGuards_clean {system : Value} {guards : List Items} {guarded : GuardOutcome}
    (h : applyGuards env system guards = .ok guarded)
    (hclean : ∀ block ∈ systemToBlocks system, CleanBlock block) :
    ∀ block ∈ systemToBlocks guarded.system, CleanBlock block := by
  unfold applyGuards at h
  obtain ⟨blocking, -, h⟩ := bind_ok.mp h
  split at h
  · cases h
    exact hclean
  · obtain ⟨s, hs, h⟩ := bind_ok.mp h
    cases h
    have hfold : ∀ (guards : List Items) (s s' : Guarding),
        guards.foldlM (fun s guard => applyGuard env guard s) s = .ok s' →
          (∀ block ∈ s.blocks, CleanBlock block) → ∀ block ∈ s'.blocks, CleanBlock block := by
      intro guards
      induction guards with
      | nil =>
        intro s s' h hclean
        cases h
        exact hclean
      | cons guard guards ih =>
        intro s s' h hclean
        rw [List.foldlM_cons] at h
        obtain ⟨s'', hguard, h⟩ := bind_ok.mp h
        exact ih s'' s' h (applyGuard_clean hguard hclean)
    dsimp only
    split
    · exact hclean
    · rw [systemToBlocks_objs]
      exact hfold guards _ s hs hclean

theorem applyGuards_not_stripped {system : Value} {guards : List Items} {guarded : GuardOutcome}
    (h : applyGuards env system guards = .ok guarded) (hcount : guarded.strippedCount = 0) :
    guarded.system = system := by
  unfold applyGuards at h
  obtain ⟨blocking, -, h⟩ := bind_ok.mp h
  split at h
  · cases h
    rfl
  · obtain ⟨s, hs, h⟩ := bind_ok.mp h
    cases h
    exact if_pos hcount

/-! ## 8. The augment and the candidate body -/

theorem splitAtLastMarked_none {blocks : List Items} (h : splitAtLastMarked blocks = none) :
    ∀ block ∈ blocks, isMarked block = false := by
  induction blocks with
  | nil => simp
  | cons block blocks ih =>
    unfold splitAtLastMarked at h
    split at h
    · cases h
    · rename_i hrest
      split at h
      · cases h
      · rename_i hmark
        intro block' hmem
        obtain rfl | hmem := List.mem_cons.mp hmem
        · simpa using hmark
        · exact ih hrest block' hmem

theorem splitAtLastMarked_some {blocks cached rest : List Items}
    (h : splitAtLastMarked blocks = some (cached, rest)) : ∃ before m, cached = before ++ [m] ∧
      blocks = before ++ m :: rest ∧ isMarked m = true ∧ ∀ block ∈ rest, isMarked block = false := by
  induction blocks generalizing cached rest with
  | nil => cases h
  | cons block blocks ih =>
    unfold splitAtLastMarked at h
    split at h
    · rename_i cached' rest' hrest
      cases h
      obtain ⟨before, m, rfl, rfl, hm, hmarks⟩ := ih hrest
      exact ⟨block :: before, m, rfl, rfl, hm, hmarks⟩
    · rename_i hrest
      split at h
      · rename_i hmark
        cases h
        exact ⟨[], block, rfl, rfl, hmark, splitAtLastMarked_none hrest⟩
      · cases h

/-- Where the last marked block is. -/
theorem splitAtLastMarked_eq (before : List Items) {rest : List Items} {m : Items}
    (hm : isMarked m = true)
    (hrest : ∀ block ∈ rest, isMarked block = false) :
    splitAtLastMarked (before ++ m :: rest) = some (before ++ [m], rest) := by
  induction before with
  | nil =>
    cases hsplit : splitAtLastMarked rest with
    | none => simp [splitAtLastMarked, hsplit, hm]
    | some found =>
      obtain ⟨cached, rest'⟩ := found
      obtain ⟨before', m', -, rfl, hm', -⟩ := splitAtLastMarked_some hsplit
      have hunmarked := hrest m' (by simp)
      rw [hm'] at hunmarked
      cases hunmarked
  | cons block before ih =>
    rw [List.cons_append, splitAtLastMarked, ih]
    rfl

/-- The augment is one block among the others, which keep their order. -/
theorem insertAugment_blocks (system : Value) {augment : PyStr} (h : augment ≠ []) :
    ∃ pre post, systemToBlocks system = pre ++ post ∧ (insertAugmentCacheAware system augment).1 =
      .list ((pre ++ textBlock augment :: post).map .obj) := by
  unfold insertAugmentCacheAware
  rw [if_neg h]
  dsimp only
  split
  · rename_i cached rest hsplit
    obtain ⟨before, m, rfl, hblocks, -⟩ := splitAtLastMarked_some hsplit
    exact ⟨before ++ [m], rest, by simp [hblocks], by simp⟩
  · exact ⟨systemToBlocks system, [], by simp, by simp⟩

theorem clean_insertAugment (system : Value) {augment : PyStr} (h : augment ≠ []) :
    (∀ v ∈ partsOf (insertAugmentCacheAware system augment).1, CleanPart v) ↔
      (∀ block ∈ systemToBlocks system, CleanBlock block) ∧ hasSurrogate augment = false := by
  obtain ⟨pre, post, hblocks, hinserted⟩ := insertAugment_blocks system h
  rw [clean_iff_blocks, hinserted, systemToBlocks_objs, hblocks, ← cleanBlock_textBlock h]
  simp only [List.mem_append, List.mem_cons]
  constructor
  · intro hclean
    refine ⟨?_, hclean _ (.inr (.inl rfl))⟩
    intro block hblock
    exact hclean block (hblock.imp_right .inr)
  · rintro ⟨hclean, haugment⟩ block (hblock | rfl | hblock)
    · exact hclean block (.inl hblock)
    · exact haugment
    · exact hclean block (.inr hblock)

theorem pop_cons (item : PyStr × Value) (items : Items) (key : String) :
    pop (item :: items) key = if item.1 = py key then pop items key else item :: pop items key := by
  unfold pop
  rw [List.filter_cons]
  by_cases hk : item.1 = py key <;> simp [hk]

theorem lookup_pop (items : Items) (key : String) (key' : PyStr) :
    lookup key' (pop items key) = if py key = key' then none else lookup key' items := by
  induction items with
  | nil => simp [pop, lookup]
  | cons item items ih =>
    obtain ⟨k, v⟩ := item
    rw [pop_cons]
    by_cases hk : k = py key
    · subst hk
      rw [if_pos rfl, ih, lookup]
      split <;> rfl
    · rw [if_neg hk, lookup, ih, lookup]
      by_cases hkey : k = key'
      · subst hkey
        rw [if_pos rfl, if_pos rfl, if_neg (Ne.symm hk)]
      · rw [if_neg hkey, if_neg hkey]

theorem lookup_foldl_pop (keys : List String) (items : Items) (key : PyStr) :
    lookup key (keys.foldl pop items) = if key ∈ keys.map py then none else lookup key items := by
  induction keys generalizing items with
  | nil => simp
  | cons k keys ih =>
    rw [List.foldl_cons, ih, lookup_pop, List.map_cons]
    by_cases hmem : key ∈ keys.map py
    · rw [if_pos hmem, if_pos (List.mem_cons_of_mem _ hmem)]
    · rw [if_neg hmem]
      by_cases hk : py k = key
      · rw [if_pos hk, if_pos (hk ▸ List.mem_cons_self)]
      · rw [if_neg hk, if_neg]
        intro hin
        obtain rfl | hin := List.mem_cons.mp hin
        · exact hk rfl
        · exact hmem hin

/-- What a pin may change. -/
structure PinAllowed (pin : Option Pin) : Prop where
  key : ∀ p, pin = some p → p.key = "thinking" ∨ p.key = "output_config"
  mutation : ∀ p, pin = some p → p.mutation.isPin = true ∧ p.mutation.isStrip = false

theorem planPin_allowed {native : Option NativeSupport} {effort : Option String} {body : Items}
    {pin : Option Pin} (h : planPin env native effort body = .ok pin) : PinAllowed pin := by
  unfold planPin at h
  split at h
  · cases h
    exact ⟨by simp, by simp⟩
  · split at h
    · split at h
      · cases h
      · obtain ⟨pinned, -, h⟩ := bind_ok.mp h
        cases h
        constructor
        · intro p hp
          obtain ⟨_, -, rfl⟩ := Option.map_eq_some_iff.mp hp
          exact .inr rfl
        · intro p hp
          obtain ⟨_, -, rfl⟩ := Option.map_eq_some_iff.mp hp
          exact ⟨rfl, rfl⟩
    · split at h
      · cases h
      · obtain ⟨pinned, -, h⟩ := bind_ok.mp h
        cases h
        constructor
        · intro p hp
          obtain ⟨_, -, rfl⟩ := Option.map_eq_some_iff.mp hp
          exact .inl rfl
        · intro p hp
          obtain ⟨_, -, rfl⟩ := Option.map_eq_some_iff.mp hp
          exact ⟨rfl, rfl⟩

/-- The system prompt of the candidate. -/
def newSystem (body : Items) (augment : PyStr) (guarded : GuardOutcome) : Option Value :=
  if guarded.strippedCount ≠ 0 ∨ augment ≠ [] then
    some (insertAugmentCacheAware guarded.system augment).1 else lookup (py "system") body

section

variable {body : Items} {augment : PyStr} {guarded : GuardOutcome} {pin : Option Pin}

theorem lookup_withSystem (key : PyStr) :
    lookup key (if guarded.strippedCount ≠ 0 ∨ augment ≠ [] then
      insert (py "system") (insertAugmentCacheAware guarded.system augment).1 body else body) =
      if key = py "system" then newSystem body augment guarded else lookup key body := by
  unfold newSystem
  by_cases hchanged : guarded.strippedCount ≠ 0 ∨ augment ≠ []
  · rw [if_pos hchanged, if_pos hchanged, lookup_insert]
    by_cases hkey : key = py "system" <;> simp [hkey, eq_comm]
  · rw [if_neg hchanged, if_neg hchanged]
    by_cases hkey : key = py "system" <;> simp [hkey]

theorem samplingParameters_subset : ∀ key ∈ samplingParameters body, key ∈ samplingKeys :=
  fun _ h => (List.mem_filter.mp h).1

theorem lookup_candidate_system (h : PinAllowed pin) :
    lookup (py "system") (candidateBody body augment guarded pin) =
      newSystem body augment guarded := by
  unfold candidateBody
  dsimp only
  cases pin with
  | none => rw [lookup_withSystem, if_pos rfl]
  | some p =>
    have hsampling : py "system" ∉ (samplingParameters body).map py := by
      intro hmem
      obtain ⟨key, hkey, heq⟩ := List.mem_map.mp hmem
      have hkeys := samplingParameters_subset key hkey
      rw [py_inj.mp heq] at hkeys
      exact absurd hkeys (by decide)
    have hpin : py p.key ≠ py "system" := by
      rw [ne_eq, py_inj]
      obtain hkey | hkey := h.key p rfl <;> rw [hkey] <;> decide
    dsimp only
    rw [lookup_foldl_pop, if_neg hsampling, lookup_insert, if_neg hpin, lookup_withSystem,
      if_pos rfl]

theorem lookup_candidate_frame (h : PinAllowed pin) {key : PyStr}
    (hkey : key ∉ (rewrittenKeys ++ samplingKeys).map py) :
    lookup key (candidateBody body augment guarded pin) = lookup key body := by
  have hmem : ∀ name ∈ rewrittenKeys ++ samplingKeys, key ≠ py name :=
    fun name hname heq => hkey (heq ▸ List.mem_map_of_mem hname)
  have hsystem : key ≠ py "system" := hmem _ (by decide)
  unfold candidateBody
  dsimp only
  cases pin with
  | none => rw [lookup_withSystem, if_neg hsystem]
  | some p =>
    have hsampling : key ∉ (samplingParameters body).map py := by
      intro hin
      obtain ⟨name, hname, heq⟩ := List.mem_map.mp hin
      exact hmem name (List.mem_append_right _ (samplingParameters_subset name hname)) heq.symm
    have hpin : py p.key ≠ key := by
      obtain hp | hp := h.key p rfl <;> rw [hp] <;> exact (hmem _ (by decide)).symm
    dsimp only
    rw [lookup_foldl_pop, if_neg hsampling, lookup_insert, if_neg hpin, lookup_withSystem,
      if_neg hsystem]

theorem lookup_candidate_sampling (body : Items) (augment : PyStr) (guarded : GuardOutcome)
    (h : PinAllowed pin) {key : String} (hkey : key ∈ samplingKeys) :
    lookup (py key) (candidateBody body augment guarded pin) = lookup (py key) body ∨
      lookup (py key) (candidateBody body augment guarded pin) = none ∧ pin.isSome = true := by
  have hsystem : py key ≠ py "system" := by
    rw [ne_eq, py_inj]
    rintro rfl
    exact absurd hkey (by decide)
  unfold candidateBody
  dsimp only
  cases pin with
  | none => exact .inl (by rw [lookup_withSystem, if_neg hsystem])
  | some p =>
    have hpin : py p.key ≠ py key := by
      rw [ne_eq, py_inj]
      rintro rfl
      obtain hp | hp := h.key p rfl <;> rw [hp] at hkey <;> exact absurd hkey (by decide)
    dsimp only
    rw [lookup_foldl_pop, lookup_insert, if_neg hpin, lookup_withSystem, if_neg hsystem]
    by_cases hin : py key ∈ (samplingParameters body).map py
    · exact .inr ⟨by rw [if_pos hin], rfl⟩
    · exact .inl (by rw [if_neg hin])

end

/-! ## 9. The commit -/

section

variable {body : Items} {augment : PyStr} {guards : List Items} {floor : Value}

theorem get_eq (items : Items) (key : String) :
    get items key = (lookup (py key) items).getD .null := rfl

theorem messages_kept (body : Items) (augment : PyStr) (guarded : GuardOutcome) {pin : Option Pin}
    (h : PinAllowed pin) :
    get (candidateBody body augment guarded pin) "messages" = get body "messages" := by
  rw [get_eq, get_eq, lookup_candidate_frame h (by decide +kernel)]

/-- What a plan that commits was made of. -/
theorem planOverride_commit {candidate : Items} {hashBefore : Option PyStr}
    {mutations : List Mutation} {warnings : List PyStr}
    (h : planOverride env body augment guards floor =
      .ok (.commit candidate hashBefore mutations warnings)) :
    ∃ guarded pin warnedHashes, Reached env body guards floor guarded pin warnedHashes ∧
      candidate = candidateBody body augment guarded pin ∧
        mutations = mutationsOf augment guarded warnedHashes pin := by
  unfold planOverride at h
  obtain ⟨effort, heffort, h⟩ := bind_ok.mp h
  obtain ⟨⟨⟩, hmanual, h⟩ := bind_ok.mp h
  obtain ⟨beforeFp, hfp, h⟩ := bind_ok.mp h
  obtain ⟨hashBefore, hhash, h⟩ := bind_ok.mp h
  obtain ⟨system, hcopy, h⟩ := bind_ok.mp h
  obtain rfl := deepcopy_ok hcopy
  obtain ⟨guarded, hguarded, h⟩ := bind_ok.mp h
  split at h
  · obtain ⟨_, _, h⟩ := bind_ok.mp h
    cases h
  rename_i hnotBlocked
  obtain ⟨warnedHashes, hwarned, h⟩ := bind_ok.mp h
  obtain ⟨pin, hpin, h⟩ := bind_ok.mp h
  obtain ⟨afterFp, -, h⟩ := bind_ok.mp h
  dsimp only at h
  split at h
  · cases h
  · split at h
    · cases h
    · cases h
      exact ⟨guarded, pin, warnedHashes, ⟨⟨effort, heffort, hmanual, hpin⟩, ⟨beforeFp, hfp⟩,
        ⟨hashBefore, hhash⟩, hcopy, hguarded, hnotBlocked, hwarned⟩, rfl, rfl⟩

/-- With an augment, a request that gets so far is committed. -/
theorem Reached.commit {guarded : GuardOutcome} {pin : Option Pin} {warnedHashes : List PyStr}
    (h : Reached env body guards floor guarded pin warnedHashes) (haugment : augment ≠ []) :
    ∃ hashBefore warnings, planOverride env body augment guards floor =
      .ok (.commit (candidateBody body augment guarded pin) hashBefore
        (mutationsOf augment guarded warnedHashes pin) warnings) := by
  obtain ⟨effort, heffort, hmanual, hpin⟩ := h.pinned
  obtain ⟨fp, hfp⟩ := h.fingerprint
  obtain ⟨hashBefore, hhash⟩ := h.hashed
  have hmessages := messages_kept body augment guarded (planPin_allowed hpin)
  have hmutations : mutationsOf augment guarded warnedHashes pin ≠ [] := by
    simp [mutationsOf, haugment]
  refine ⟨hashBefore, warningsOf augment guarded warnedHashes, ?_⟩
  unfold nativeOf at hmanual hpin
  simp only [planOverride, bind, Except.bind, heffort, hmanual, hfp, hhash, h.copied, h.applied,
    h.notBlocked, h.warned, hpin, hmessages, ne_eq, not_true_eq_false, if_false, hmutations]
  rfl

variable {guarded : GuardOutcome} {pin : Option Pin} {warnedHashes : List PyStr}

theorem Reached.allowed (h : Reached env body guards floor guarded pin warnedHashes) :
    PinAllowed pin := by
  obtain ⟨effort, -, -, hpin⟩ := h.pinned
  exact planPin_allowed hpin

/-- The new prompt can be hashed exactly when the augment can be encoded. -/
theorem Reached.hash_iff (h : Reached env body guards floor guarded pin warnedHashes) :
    (∃ hashAfter, hashSystemPrompt env (get (candidateBody body augment guarded pin) "system") =
      .ok hashAfter) ↔ (augment ≠ [] → hasSurrogate augment = false) := by
  have hbefore := clean_iff_blocks.mp (hashSystemPrompt_ok.mp h.hashed)
  have hblocks := applyGuards_clean h.applied hbefore
  rw [get_eq, lookup_candidate_system h.allowed, newSystem, hashSystemPrompt_ok]
  by_cases haugment : augment = []
  · simp only [haugment, ne_eq, not_true_eq_false, or_false, false_implies, iff_true]
    split
    · simpa [insertAugmentCacheAware] using clean_iff_blocks.mpr hblocks
    · exact clean_iff_blocks.mpr hbefore
  · rw [if_pos (.inr haugment), Option.getD_some, clean_insertAugment _ haugment]
    exact ⟨fun hclean _ => hclean.2, fun hclean => ⟨hblocks, hclean haugment⟩⟩

/-- The blocks among the entries of a list. -/
def objs (entries : List Value) : List Items :=
  entries.filterMap fun
    | .obj block => some block
    | _ => none

theorem mem_objs {entries : List Value} {block : Items} :
    block ∈ objs entries ↔ .obj block ∈ entries := by
  unfold objs
  rw [List.mem_filterMap]
  constructor
  · rintro ⟨v, hv, hblock⟩
    split at hblock
    · cases hblock
      exact hv
    · cases hblock
  · exact fun h => ⟨.obj block, h, rfl⟩

theorem map_objs {entries : List Value} (h : ∀ v ∈ entries, ∃ block, v = .obj block) :
    (objs entries).map .obj = entries := by
  induction entries with
  | nil => rfl
  | cons v entries ih =>
    obtain ⟨block, rfl⟩ := h v List.mem_cons_self
    have := ih fun w hw => h w (List.mem_cons_of_mem _ hw)
    simp only [objs, List.filterMap_cons, List.map_cons] at this ⊢
    rw [this]

/-- The blocks of a prompt, where one of them is marked. -/
theorem LastMarked.blocks {reading : Reading} {system : Value} {before rest : List Value} {m : Items}
    (h : LastMarked (reading.view system) before m rest) :
    systemToBlocks system = objs before ++ m :: objs rest := by
  have hobjs : objs (before ++ .obj m :: rest) = objs before ++ m :: objs rest := by
    simp [objs]
  rw [← hobjs, ← h.1]
  cases reading with
  | blocks =>
    have hall : ∀ v ∈ (systemToBlocks system).map PyValue.obj, ∃ block, v = PyValue.obj block :=
      fun v hv => (List.mem_map.mp hv).imp fun _ hblock => hblock.2.symm
    have hmap := map_objs hall
    exact (List.map_injective_iff.mpr (fun _ _ heq => PyValue.obj.inj heq) hmap).symm
  | entries =>
    cases system with
    | list xs => rfl
    | _ => simp [LastMarked, Reading.view] at h

/-- Where the augment goes. -/
theorem LastMarked.view_insert {reading : Reading} {system : Value} {before rest : List Value}
    {m : Items} (h : LastMarked (reading.view system) before m rest) (haugment : augment ≠ []) :
    reading.view (insertAugmentCacheAware system augment).1 =
      (objs before).map .obj ++ .obj m :: .obj (textBlock augment) :: (objs rest).map .obj := by
  have hrest : ∀ block ∈ objs rest, isMarked block = false :=
    fun block hblock => h.2.2 block (mem_objs.mp hblock)
  have hsplit := splitAtLastMarked_eq (objs before) h.2.1 hrest
  rw [← h.blocks] at hsplit
  have hinsert : (insertAugmentCacheAware system augment).1 =
      .list ((objs before ++ [m] ++ [textBlock augment] ++ objs rest).map .obj) := by
    rw [insertAugmentCacheAware, if_neg haugment]
    dsimp only
    rw [hsplit]
  rw [hinsert]
  cases reading with
  | entries => simp [Reading.view]
  | blocks =>
    rw [Reading.view, systemToBlocks_objs]
    simp

/-- Nothing is dropped in front of the augment exactly when there are only
blocks. -/
theorem anchored_iff {entries before : List Value} {m aug : Items} {after : List Value}
    (h : entries = (objs before).map .obj ++ .obj m :: .obj aug :: after)
    (hafter : ∀ v ∈ after, ∃ block, v = .obj block) :
    (∃ rest', entries = before ++ .obj m :: .obj aug :: rest') ↔
      ∀ v ∈ before, ∃ block, v = .obj block := by
  constructor
  · rintro ⟨rest', heq⟩ v hv
    have hmem : v ∈ entries := by
      rw [heq]
      exact List.mem_append_left _ hv
    rw [h] at hmem
    obtain hmem | hmem := List.mem_append.mp hmem
    · exact (List.mem_map.mp hmem).imp fun _ hblock => hblock.2.symm
    · obtain rfl | hmem := List.mem_cons.mp hmem
      · exact ⟨m, rfl⟩
      · obtain rfl | hmem := List.mem_cons.mp hmem
        · exact ⟨aug, rfl⟩
        · exact hafter v hmem
  · intro hbefore
    exact ⟨after, by rw [h, map_objs hbefore]⟩

theorem mutationsOf_strip (h : PinAllowed pin) :
    (mutationsOf augment guarded warnedHashes pin).any (·.isStrip) = false ↔
      guarded.strippedCount = 0 := by
  have hpin : (pin.map (·.mutation)).toList.any (·.isStrip) = false := by
    cases pin with
    | none => rfl
    | some p => simpa using (h.mutation p rfl).2
  have hwarn : (warnedHashes.map Mutation.warn).any (·.isStrip) = false := by
    simp [Mutation.isStrip]
  rw [mutationsOf, List.any_append, List.any_append, List.any_append, hpin, hwarn]
  by_cases hcount : guarded.strippedCount = 0 <;> by_cases haugment : augment = [] <;>
    simp [hcount, haugment, Mutation.isStrip]

/-- What is committed is confined exactly when nothing is dropped from the
cached prefix. -/
theorem Reached.confined_iff {reading : Reading}
    (h : Reached env body guards floor guarded pin warnedHashes) :
    Confined reading augment (mutationsOf augment guarded warnedHashes pin) body
        (candidateBody body augment guarded pin) ↔
      (augment ≠ [] → guarded.strippedCount = 0 →
        PrefixIsBlocks (reading.view (get body "system"))) := by
  have hallowed := h.allowed
  have hsystem : get (candidateBody body augment guarded pin) "system" =
      (newSystem body augment guarded).getD .null := by
    rw [get_eq, lookup_candidate_system hallowed]
  constructor
  · intro hconfined haugment hcount before m rest hmarked
    have hanchored := hconfined.anchored ((mutationsOf_strip hallowed).mpr hcount) before m rest
      hmarked
    rw [if_neg haugment, hsystem, newSystem, if_pos (.inr haugment), Option.getD_some,
      applyGuards_not_stripped h.applied hcount] at hanchored
    exact (anchored_iff (hmarked.view_insert haugment) (by simp)).mp hanchored
  · intro hbegins
    refine ⟨fun key hkey => lookup_candidate_frame hallowed hkey, ?_, ?_⟩
    · intro key hkey
      obtain hsame | ⟨hnone, hsome⟩ := lookup_candidate_sampling body augment guarded
        hallowed hkey
      · exact .inl hsame
      · obtain ⟨p, rfl⟩ := Option.isSome_iff_exists.mp hsome
        exact .inr ⟨hnone, p.mutation, by simp [mutationsOf], (hallowed.mutation p rfl).1⟩
    · intro hstrip before m rest hmarked
      have hcount := (mutationsOf_strip hallowed).mp hstrip
      split
      · rename_i haugment
        rw [hsystem, newSystem, if_neg (by simp [hcount, haugment])]
        rfl
      · rename_i haugment
        rw [hsystem, newSystem, if_pos (.inr haugment), Option.getD_some,
          applyGuards_not_stripped h.applied hcount]
        exact (anchored_iff (hmarked.view_insert haugment) (by simp)).mpr
          (hbegins haugment hcount before m rest hmarked)

/-- Where the new prompt cannot be hashed, the caller's dict is not as it
was. -/
theorem Reached.candidate_ne (h : Reached env body guards floor guarded pin warnedHashes)
    (haugment : ¬ (augment ≠ [] → hasSurrogate augment = false)) :
    candidateBody body augment guarded pin ≠ body := by
  intro heq
  refine haugment (h.hash_iff.mp ?_)
  rw [heq]
  exact h.hashed

theorem safe_of_not_commit {reading : Reading}
    (h : ∀ candidate hashBefore mutations warnings, planOverride env body augment guards floor ≠
      .ok (.commit candidate hashBefore mutations warnings)) :
    Safe env reading body augment guards floor := by
  intro haugment guarded pin warnedHashes hreached
  obtain ⟨hashBefore, warnings, hcommit⟩ := hreached.commit haugment
  exact absurd hcommit (h _ _ _ _)

theorem Reached.safe_iff {reading : Reading}
    (h : Reached env body guards floor guarded pin warnedHashes) :
    Safe env reading body augment guards floor ↔ (augment ≠ [] → hasSurrogate augment = false ∧
      (guarded.strippedCount = 0 → PrefixIsBlocks (reading.view (get body "system")))) := by
  constructor
  · exact fun hsafe haugment => hsafe haugment guarded pin warnedHashes h
  · intro hsafe haugment guarded' pin' warnedHashes' h'
    cases h.applied.symm.trans h'.applied
    exact hsafe haugment

/-- A request that gets as far as the commit. -/
theorem Reached.allOrNothing_iff {reading : Reading}
    (h : Reached env body guards floor guarded pin warnedHashes) {hashBefore : Option PyStr}
    {warnings : List PyStr} (hplan : planOverride env body augment guards floor =
      .ok (.commit (candidateBody body augment guarded pin) hashBefore
        (mutationsOf augment guarded warnedHashes pin) warnings)) :
    AllOrNothing env reading body augment guards floor ↔ (augment ≠ [] →
      hasSurrogate augment = false ∧
        (guarded.strippedCount = 0 → PrefixIsBlocks (reading.view (get body "system")))) := by
  unfold AllOrNothing applyOverride
  rw [hplan]
  dsimp only
  cases hhash : hashSystemPrompt env (get (candidateBody body augment guarded pin) "system") with
  | error e =>
    -- the dict is replaced already when the hash raises
    have hraises : ¬ (augment ≠ [] → hasSurrogate augment = false) := by
      intro hclean
      obtain ⟨hashAfter, hok⟩ := h.hash_iff.mpr hclean
      rw [hhash] at hok
      cases hok
    constructor
    · exact fun heq => absurd heq (h.candidate_ne hraises)
    · exact fun hsafe => absurd (fun haugment => (hsafe haugment).1) hraises
  | ok hashAfter =>
    have hclean := h.hash_iff.mp ⟨hashAfter, hhash⟩
    dsimp only
    rw [h.confined_iff]
    constructor
    · exact fun hbegins haugment => ⟨hclean haugment, hbegins haugment⟩
    · exact fun hsafe haugment => (hsafe haugment).2

end

/-- For every request: the override is applied and confined or changes
nothing exactly when the request is safe. -/
theorem all_or_nothing_iff (env : Env) (reading : Reading) (body : Items) (augment : PyStr)
    (guards : List Items) (floor : Value) :
    AllOrNothing env reading body augment guards floor ↔
      Safe env reading body augment guards floor := by
  cases hplan : planOverride env body augment guards floor with
  | error e =>
    have hsafe : Safe env reading body augment guards floor := safe_of_not_commit (by simp [hplan])
    simp [AllOrNothing, applyOverride, hplan, hsafe]
  | ok plan =>
    cases plan with
    | blocked patternHash =>
      have hsafe : Safe env reading body augment guards floor := safe_of_not_commit (by simp [hplan])
      simp [AllOrNothing, applyOverride, hplan, hsafe]
    | unchanged warnings =>
      have hsafe : Safe env reading body augment guards floor := safe_of_not_commit (by simp [hplan])
      simp [AllOrNothing, applyOverride, hplan, hsafe]
    | commit candidate hashBefore mutations warnings =>
      obtain ⟨guarded, pin, warnedHashes, hreached, rfl, rfl⟩ := planOverride_commit hplan
      rw [hreached.safe_iff, hreached.allOrNothing_iff hplan]

/-! ## 10. Two requests that are not safe -/

/-- No guard pattern compiles, and no model is in the catalog. -/
def plainEnv : Env where
  compile _ := none
  getModelSpec _ := none
  sha256 text := text
  pyRepr _ := []
  dumps _ := some []
  canCopy _ := true

/-- A body without a system prompt. -/
def promptless : Items := [(py "messages", .list [])]

/-- A block that is cached. -/
def cachedBlock : Items := [(py "text", .str (py "y")), (py "cache_control", .obj [])]

/-- A prompt with an entry that is no block in front of it. -/
def mixed : Items := [(py "system", .list [.str (py "x"), .obj cachedBlock])]

theorem reached_promptless :
    Reached plainEnv promptless [] .null ⟨.null, none, [], 0⟩ none [] :=
  ⟨⟨none, rfl, rfl, rfl⟩, ⟨_, rfl⟩, ⟨_, rfl⟩, rfl, rfl, rfl, rfl⟩

theorem get_mixed : get mixed "system" = .list [.str (py "x"), .obj cachedBlock] := by
  simp [PyValue.get, PyValue.getD, mixed, lookup]

theorem reached_mixed : Reached plainEnv mixed [] .null
    ⟨.list [.str (py "x"), .obj cachedBlock], none, [], 0⟩ none [] := by
  refine ⟨⟨none, rfl, rfl, rfl⟩, ⟨_, rfl⟩, ?_, rfl, ?_, rfl, rfl⟩
  · rw [hashSystemPrompt_ok, get_mixed, clean_iff_blocks]
    intro block hblock
    have hblock : block ∈ [cachedBlock] := hblock
    rw [List.mem_singleton] at hblock
    subst hblock
    intro v hv
    have htext : get cachedBlock "text" = .str (py "y") := by
      simp [PyValue.get, PyValue.getD, cachedBlock, lookup]
    rw [blockPart_some, htext] at hv
    exact ⟨py "y", hv.2.2.symm, hasSurrogate_py "y"⟩
  · rw [get_mixed]
    rfl

/-- An augment that is a lone surrogate changes the dict and raises; one in
front of a cached block drops what is no block. -/
theorem unsafe_requests :
    ¬ AllOrNothing plainEnv .blocks promptless [0xd800] [] .null ∧
      ¬ AllOrNothing plainEnv .entries promptless [0xd800] [] .null ∧
        ¬ AllOrNothing plainEnv .entries mixed (py "a") [] .null := by
  have hsurrogate : ∀ reading, ¬ AllOrNothing plainEnv reading promptless [0xd800] [] .null := by
    intro reading hall
    obtain ⟨hashBefore, warnings, hplan⟩ := reached_promptless.commit
      (show ([0xd800] : PyStr) ≠ [] by simp)
    have hclean := (reached_promptless.allOrNothing_iff hplan).mp hall (by simp)
    exact absurd hclean.1 (by decide)
  refine ⟨hsurrogate .blocks, hsurrogate .entries, ?_⟩
  intro hall
  obtain ⟨hashBefore, warnings, hplan⟩ := reached_mixed.commit (show py "a" ≠ [] by decide)
  obtain ⟨-, hbegins⟩ := (reached_mixed.allOrNothing_iff hplan).mp hall (by decide)
  have hmarked : LastMarked (Reading.entries.view (get mixed "system")) [.str (py "x")] cachedBlock
      [] := by
    refine ⟨by rw [get_mixed]; rfl, ?_, by simp⟩
    simp [isMarked, PyValue.get, PyValue.getD, cachedBlock, lookup, py_inj]
  obtain ⟨block, hblock⟩ := hbegins rfl _ _ _ hmarked _ (List.mem_singleton_self _)
  cases hblock

end MultiForge.Proxy.Override
