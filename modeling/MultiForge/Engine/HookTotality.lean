/-
MultiForge.Engine.HookTotality — the hook adapters on every payload.

`policy_check` and `codex_policy_check` call their adapter outside of any
handler, so what the adapter raises ends the process with neither of the
documented results, and the runtime goes on with the tool call. The
payload is whatever JSON the runtime sends: the adapters meet values of
every type, and strings with lone surrogates that the fingerprint cannot
encode. `ClaudeSafe` and `CodexSafe` are the payloads on which they return
(`hook_adapters_total_iff`).

`resolve` is `Path(...).resolve()`, which asks the file system and raises
on what cannot be a path; `evaluate` is the policy engine. The limits of
the interpreter bound what `json.dumps` can write.
-/
import MultiForge.Engine.HookAdapters
import MultiForge.Json.PyDumps
import MultiForge.Lib.Except

namespace MultiForge.Hooks

open PyValue PyStr
open Engine (EditTool PatchOpKind)

variable {F : Type}

/-- What an adapter raises. -/
inductive HookError where
  /-- `TypeError`, or `KeyError` for a slice of a `dict` -/
  | typeError
  | unicodeEncodeError
  /-- `json.dumps` beyond a limit of the interpreter -/
  | encoder
  /-- `Path.resolve` on a text that names no path -/
  | resolve
  deriving DecidableEq, Repr

/-! ## 1. The fingerprint -/

def optStr : Option PyStr → PyValue F
  | some s => .str s
  | none => .null

/-- `value if isinstance(value, str) else default` -/
def strOr (value default : PyValue F) : PyValue F :=
  match value with
  | .str s => .str s
  | _ => default

/-- `value is True` -/
def isTrue : PyValue F → Bool
  | .bool b => b
  | _ => false

/-- `payload["content"]` -/
def actionContent (toolName : String) (args : List (PyStr × PyValue F)) (newContent : PyValue F)
    (rawDiff : Option PyStr) : PyValue F :=
  match rawDiff with
  | some diff => .obj [(py "kind", .str (py "raw_diff")), (py "raw_diff", .str diff)]
  | none =>
      if toolName = "Edit" ∧ (hasKey args "old_string" ∨ hasKey args "new_string") then
        .obj [(py "kind", .str (py "edit_fragments")),
          (py "old_string", strOr (get args "old_string") .null),
          (py "new_string", strOr (get args "new_string") newContent),
          (py "replace_all", .bool (isTrue (get args "replace_all")))]
      else
        .obj [(py "kind", .str (py (if toolName = "Write" then "write_content" else "new_content"))),
          (py "content", strOr newContent (strOr (get args "content") .null))]

/-- The payload of `compute_action_fingerprint`. -/
def actionPayload (toolName : String) (targetPath : Option PyStr)
    (toolArgs : List (PyStr × PyValue F)) (newContent : PyValue F) (rawDiff : Option PyStr) :
    PyValue F :=
  .obj [(py "schema", .str (py Engine.actionIdentitySchema)),
    (py "tool_name", .str (py toolName)), (py "target_path", optStr targetPath),
    (py "content", actionContent toolName toolArgs newContent rawDiff)]

section

variable [PyFloatText F]

/-- `compute_action_fingerprint` -/
def computeActionFingerprint (limits : Limits) (sha256 : PyStr → PyStr) (toolName : String)
    (targetPath : Option PyStr) (toolArgs : List (PyStr × PyValue F)) (newContent : PyValue F)
    (rawDiff : Option PyStr) : Except HookError PyStr :=
  let payload := actionPayload toolName targetPath toolArgs newContent rawDiff
  if !fits limits limits.depth payload then .error .encoder
  else
    let canonical := pyDumps payload
    if hasSurrogate canonical then .error .unicodeEncodeError
    else .ok (sha256 canonical)

end

/-! ## 2. Paths and the prompt budget -/

/-- The root of a path: `//` is one of its own. -/
def pathRoot : PyStr → PyStr
  | 0x2f :: 0x2f :: 0x2f :: _ => [0x2f]
  | 0x2f :: 0x2f :: _ => [0x2f, 0x2f]
  | 0x2f :: _ => [0x2f]
  | _ => []

/-- The parts of a path. -/
def pathParts (p : PyStr) : List PyStr :=
  (p.splitOn 0x2f).filter fun part => part ≠ [] ∧ part ≠ [0x2e]

/-- `str(Path(p).relative_to(cwd))`; `none` is its `ValueError`. -/
def relativeTo (p cwd : PyStr) : Option PyStr :=
  let rest := (pathParts p).drop (pathParts cwd).length
  if pathRoot p = pathRoot cwd ∧ pathParts cwd <+: pathParts p then
    some (if rest = [] then [0x2e] else [0x2f].intercalate rest)
  else none

/-- A target path, relative to the working directory where it is under it. -/
def normalizeTarget (cwd targetPath : PyStr) : PyStr :=
  if pathRoot targetPath ≠ [] then (relativeTo targetPath cwd).getD targetPath else targetPath

def truncated : PyStr := py "\n... (truncated)"

/-- `if new_content and len(new_content) > 5000: new_content = new_content[:5000] + "..."` -/
def cutContent [PyFloat F] (newContent : PyValue F) : Except HookError (PyValue F) :=
  if !newContent.truthy then .ok newContent
  else match newContent with
    | .str s => .ok (.str (if 5000 < s.length then s.take 5000 ++ truncated else s))
    | .list xs => if 5000 < xs.length then .error .typeError else .ok newContent
    | .obj items => if 5000 < items.length then .error .typeError else .ok newContent
    | _ => .error .typeError

/-! ## 3. Claude -/

/-- `NativeReviewBoundary` -/
structure NativeReviewBoundary where
  threadId : PyStr
  turnId : PyStr
  transcriptPath : PyStr
  event : PyStr
  lastAssistantMessage : Option PyStr
  deriving DecidableEq, Repr

/-- `ActionContext` -/
structure ActionContext (F : Type) where
  origin : String
  toolName : String
  toolArgs : List (PyStr × PyValue F)
  repoRoot : PyStr
  sessionName : PyStr
  targetPath : Option PyStr
  newContent : PyValue F
  rawDiff : Option PyStr
  actionFingerprint : PyStr
  nativeBoundary : Option NativeReviewBoundary

/-- `event` -/
def ActionContext.event (context : ActionContext F) : String := "PreToolUse." ++ context.toolName

section

variable [PyFloatText F]

/-- `tool_input.get("file_path") or tool_input.get("path")`, if that is a
string, relative to the working directory. -/
def claudeTarget (cwd : PyStr) (toolInput : List (PyStr × PyValue F)) : Option PyStr :=
  let filePath := get toolInput "file_path"
  match (if filePath.truthy then filePath else get toolInput "path") with
  | .str s => some (normalizeTarget cwd s)
  | _ => none

/-- `ClaudeHookAdapter.build_contexts` for a tool it serves -/
def claudeBuildContexts (limits : Limits) (sha256 : PyStr → PyStr) (cwd sessionName : PyStr)
    (payload : List (PyStr × PyValue F)) (tool : EditTool) :
    Except HookError (List (ActionContext F)) :=
  match getD payload "tool_input" (.obj []) with
  | .obj toolInput => do
      let targetPath := claudeTarget cwd toolInput
      let newContent := get toolInput tool.contentKey
      let actionFingerprint ←
        computeActionFingerprint limits sha256 tool.name targetPath toolInput newContent none
      let newContent ← cutContent newContent
      return [{ origin := "claude_code"
                toolName := tool.name
                toolArgs := toolInput
                repoRoot := cwd
                sessionName := sessionName
                targetPath := targetPath
                newContent := newContent
                rawDiff := none
                actionFingerprint := actionFingerprint
                nativeBoundary := none }]
  | _ => .ok []

end

/-! ## 4. The patch envelope -/

/-- `PatchFileOp` -/
structure PatchFileOp where
  kind : PatchOpKind
  path : PyStr
  moveTo : Option PyStr
  addedContent : PyStr
  rawSection : PyStr
  sourcePath : Option PyStr
  deriving DecidableEq, Repr

/-- `_Section` -/
structure PatchSection where
  kind : PatchOpKind
  path : PyStr
  moveTo : Option PyStr := none
  headerLines : List PyStr := []
  body : List PyStr := []
  deriving DecidableEq, Repr

/-- `"\n".join(lines)` -/
def joinLines (lines : List PyStr) : PyStr := [0x0a].intercalate lines

/-- `_extract_codex_added_lines` -/
def extractCodexAddedLines (body : List PyStr) : PyStr :=
  joinLines (body.filterMap fun line => match line with
    | 0x2b :: rest => some rest
    | _ => none)

/-- `_Section.finalize` -/
def PatchSection.finalize (s : PatchSection) : PatchFileOp where
  kind := s.kind
  path := s.moveTo.getD s.path
  moveTo := s.moveTo
  addedContent := if s.kind = .delete then [] else extractCodexAddedLines s.body
  rawSection := joinLines (s.headerLines ++ s.body)
  sourcePath := s.moveTo.map fun _ => s.path

/-- `_HEADERS` -/
def patchHeaders : List (PyStr × PatchOpKind) :=
  [(py "*** Add File: ", .add), (py "*** Update File: ", .update), (py "*** Delete File: ", .delete)]

def moveToPrefix : PyStr := py "*** Move to: "

/-- `_match_header` -/
def matchHeader (line : PyStr) : Option (PatchOpKind × PyStr) :=
  (patchHeaders.find? fun h => h.1.isPrefixOf line).map fun h =>
    (h.2, PyStr.strip (line.drop h.1.length))

/-- Whether a line may stand in the body of a section. -/
def isBodyLine : PyStr → Bool
  | [] => true
  | 0x40 :: 0x40 :: _ => true
  | c :: _ => c = 0x2b || c = 0x2d || c = 0x20

/-- The body of the loop of `parse_apply_patch`; `none` is its early
return. -/
def parseLine (state : List PatchFileOp × Option PatchSection) (line : PyStr) :
    Option (List PatchFileOp × Option PatchSection) :=
  match matchHeader line with
  | some (kind, path) =>
      if path = [] then none
      else some (state.1 ++ (state.2.map PatchSection.finalize).toList,
        some { kind := kind, path := path, headerLines := [line] })
  | none =>
      if moveToPrefix.isPrefixOf line then
        let target := PyStr.strip (line.drop moveToPrefix.length)
        match state.2 with
        | none => none
        | some current =>
            if current.kind ≠ .update ∨ current.body ≠ [] ∨ current.moveTo.isSome ∨ target = [] then
              none
            else some (state.1, some { current with
              moveTo := some target
              headerLines := current.headerLines ++ [line] })
      else match state.2 with
        | none => none
        | some current =>
            if current.kind = .delete then none
            else if line = py "*** End of File" ∨ isBodyLine line then
              some (state.1, some { current with body := current.body ++ [line] })
            else none

/-- `parse_apply_patch` -/
def parseApplyPatch (command : PyStr) : Option (List PatchFileOp) :=
  let blank := fun line : PyStr => line.all PyStr.isSpace
  let lines := (command.splitOn 0x0a).map (·.rdropWhile (· = 0x0d))
  let lines := (lines.dropWhile blank).rdropWhile blank
  if lines.head? ≠ some (py "*** Begin Patch") ∨ lines.getLast? ≠ some (py "*** End Patch")
      ∨ lines.length < 2 then none
  else (lines.tail.dropLast.foldlM parseLine ([], none)).map fun state =>
    state.1 ++ (state.2.map PatchSection.finalize).toList

/-! ## 5. Codex -/

/-- What the process of a hook supplies: its working directory, how paths
resolve, and whether the executor is admitted for native review. -/
structure Process where
  cwd : PyStr
  resolve : PyStr → Except HookError PyStr
  stopReviewSupported : Bool
  isThreadId : PyStr → Bool

/-- The path that patch paths are relative to. -/
def Process.payloadCwd (process : Process) (payload : List (PyStr × PyValue F)) :
    Except HookError PyStr :=
  match get payload "cwd" with
  | .str (c :: cs) => process.resolve (c :: cs)
  | _ => process.resolve process.cwd

/-- A value that is a non-empty string. -/
def nonEmpty : PyValue F → Option PyStr
  | .str (c :: cs) => some (c :: cs)
  | _ => none

/-- `boundary_from_hook` -/
def Process.boundaryFromHook (process : Process) (payload : List (PyStr × PyValue F)) :
    Option NativeReviewBoundary := do
  if !process.stopReviewSupported then none
  let threadId ← nonEmpty (get payload "session_id")
  let turnId ← nonEmpty (get payload "turn_id")
  let transcriptPath ← nonEmpty (get payload "transcript_path")
  let event ← nonEmpty (get payload "hook_event_name")
  if !process.isThreadId threadId || !process.isThreadId turnId || pathRoot transcriptPath = [] then
    none
  let lastAssistantMessage := match get payload "last_assistant_message" with
    | .str answer => some answer
    | _ => none
  return ⟨threadId, turnId, transcriptPath, event, lastAssistantMessage⟩

/-- The file operations of a payload; `none` where the adapter has nothing
to evaluate. -/
def codexOps (payload : List (PyStr × PyValue F)) (toolName : PyValue F) :
    Option (List PatchFileOp) :=
  if toolName.isStr "apply_patch" then
    match getD payload "tool_input" (.obj []) with
    | .obj toolInput => match get toolInput "command" with
        | .str command => parseApplyPatch command
        | _ => none
    | _ => none
  else none

/-- The arguments a patch operation is recorded with. -/
def codexToolArgs (op : PatchFileOp) : List (PyStr × PyValue F) :=
  [(py "codex_tool_name", .str (py "apply_patch")), (py "path", .str op.path),
    (py "move_to", optStr op.moveTo), (py "kind", .str (py op.kind.text))]

/-- The tool name that policies expect. -/
def normalizedTool (op : PatchFileOp) : String := if op.kind = .add then "Write" else "Edit"

section

variable [PyFloatText F]

/-- `CodexHookAdapter._context_for_op`, with the boundary that
`build_contexts` puts in -/
def contextForOp (limits : Limits) (sha256 : PyStr → PyStr) (cwd sessionName : PyStr)
    (boundary : Option NativeReviewBoundary) (op : PatchFileOp) :
    Except HookError (ActionContext F) := do
  let targetPath := normalizeTarget cwd op.path
  let toolArgs := codexToolArgs op
  let fullNewContent : PyValue F := if op.addedContent = [] then .null else .str op.addedContent
  let fullRawDiff := if op.kind = .update then some op.rawSection else none
  let actionFingerprint ← computeActionFingerprint limits sha256 (normalizedTool op)
    (some targetPath) toolArgs fullNewContent fullRawDiff
  let newContent := if 5000 < op.addedContent.length then op.addedContent.take 5000 ++ truncated
    else op.addedContent
  return { origin := "codex"
           toolName := normalizedTool op
           toolArgs := toolArgs
           repoRoot := cwd
           sessionName := sessionName
           targetPath := some targetPath
           newContent := if newContent = [] then .null else .str newContent
           rawDiff := if op.kind = .update then some (op.rawSection.take 5000) else none
           actionFingerprint := actionFingerprint
           nativeBoundary := boundary }

/-- `CodexHookAdapter.build_contexts` -/
def codexBuildContexts (limits : Limits) (sha256 : PyStr → PyStr) (process : Process)
    (nativeReview : Bool) (sessionName : PyStr) (payload : List (PyStr × PyValue F))
    (toolName : PyValue F) : Except HookError (List (ActionContext F)) :=
  match codexOps payload toolName with
  | none => .ok []
  | some ops => do
      let cwd ← process.payloadCwd payload
      let boundary := if nativeReview then process.boundaryFromHook payload else none
      (ops.filter (·.kind ≠ .delete)).mapM (contextForOp limits sha256 cwd sessionName boundary)

end

/-! ## 6. The hooks -/

/-- A verdict of the policy engine. -/
inductive Verdict where
  | allow
  | needsReview
  | deny
  deriving DecidableEq, Repr

/-- The policies of a session: what `engine.evaluate` says, `none` where
it raises, and the fail mode. -/
structure Policies (F : Type) where
  evaluate : ActionContext F → Option Verdict
  failClosed : Bool

/-- How a hook process ends. -/
inductive Exit where
  | allow
  | block
  /-- a traceback and an exit code that the runtime does not take for a
  block -/
  | crash
  deriving DecidableEq, Repr

/-- The end of `policy_check`, from the adapter on -/
def policyCheck (policies : Policies F) : Except HookError (List (ActionContext F)) → Exit
  | .error _ => .crash
  | .ok [] => .allow
  | .ok (context :: _) => match policies.evaluate context with
      | none => if policies.failClosed then .block else .allow
      | some .allow => .allow
      | some .needsReview => .block
      | some .deny => .block

/-- The verdicts of the files of a patch; `none` is the denial of a
session that fails closed. An evaluation that raises otherwise counts as
an allow. -/
def fileVerdicts (policies : Policies F) : List (ActionContext F) → Option (List Verdict)
  | [] => some []
  | context :: contexts => match policies.evaluate context with
      | none => if policies.failClosed then none
          else (fileVerdicts policies contexts).map (.allow :: ·)
      | some verdict => (fileVerdicts policies contexts).map (verdict :: ·)

/-- The end of `codex_policy_check`, from the adapter on -/
def codexPolicyCheck (policies : Policies F) : Except HookError (List (ActionContext F)) → Exit
  | .error _ => .crash
  | .ok contexts => match fileVerdicts policies contexts with
      | none => .block
      | some verdicts => if verdicts.any (· ≠ .allow) then .block else .allow

/-! ## 7. The payloads on which the adapters return -/

/-- A string without lone surrogates, or no string. -/
def CleanStr (v : PyValue F) : Prop := ∀ s, v = .str s → hasSurrogate s = false

/-- What `new_content` has to be for the cut: empty, a string, or a
container that is not cut. -/
def Cuttable [PyFloat F] (v : PyValue F) : Prop :=
  v.truthy = true → match v with
    | .str _ => True
    | .list xs => xs.length ≤ 5000
    | .obj items => items.length ≤ 5000
    | _ => False

section

variable [PyFloatText F]

/-- The texts that the fingerprint of a Claude action is made of. -/
def TextsEncode (limits : Limits) (tool : EditTool) (toolInput : List (PyStr × PyValue F)) : Prop :=
  if tool = .edit ∧ (hasKey toolInput "old_string" ∨ hasKey toolInput "new_string") then
    CleanStr (get toolInput "old_string") ∧ hasLone (get toolInput "new_string") = false ∧
      fits limits (limits.depth - 2) (get toolInput "new_string") = true
  else CleanStr (get toolInput "content")

/-- The Claude payloads whose context can be built: the target path and the
texts can be encoded, and the introduced text can be cut. -/
def ClaudeSafe (limits : Limits) (cwd : PyStr) (payload : List (PyStr × PyValue F))
    (tool : EditTool) : Prop :=
  ∀ toolInput, getD payload "tool_input" (.obj []) = .obj toolInput →
    2 ≤ limits.depth ∧
    (∀ target, claudeTarget cwd toolInput = some target → hasSurrogate target = false) ∧
    TextsEncode limits tool toolInput ∧ Cuttable (get toolInput tool.contentKey)

/-- The context of a patch operation can be built. -/
def OpSafe (limits : Limits) (cwd : PyStr) (op : PatchFileOp) : Prop :=
  2 ≤ limits.depth ∧ hasSurrogate (normalizeTarget cwd op.path) = false ∧
    hasSurrogate (if op.kind = .update then op.rawSection else op.addedContent) = false

/-- The Codex payloads whose contexts can be built: a patch comes with a
directory that resolves, and what is recorded of each of its operations
can be encoded. -/
def CodexSafe (limits : Limits) (process : Process) (payload : List (PyStr × PyValue F))
    (toolName : PyValue F) : Prop :=
  ∀ ops, codexOps payload toolName = some ops →
    ∃ cwd, process.payloadCwd payload = .ok cwd ∧
      ∀ op ∈ ops, op.kind ≠ .delete → OpSafe limits cwd op

/-! ## 8. The fingerprint -/

omit [PyFloatText F] in
theorem hasLone_optStr (s : Option PyStr) :
    hasLone (optStr s : PyValue F) = false ↔ ∀ t, s = some t → hasSurrogate t = false := by
  cases s <;> simp [optStr, hasLone]

omit [PyFloatText F] in
theorem hasLone_strOr_null (v : PyValue F) : hasLone (strOr v .null) = false ↔ CleanStr v := by
  cases v <;> simp [strOr, hasLone, CleanStr]

omit [PyFloatText F] in
/-- The payload of a fingerprint is one level around its content. -/
theorem fits_actionPayload (limits : Limits) (toolName : String) (targetPath : Option PyStr)
    {toolArgs : List (PyStr × PyValue F)} {newContent : PyValue F} {rawDiff : Option PyStr} :
    fits limits limits.depth (actionPayload toolName targetPath toolArgs newContent rawDiff) = true
      ↔ 0 < limits.depth ∧ fits limits (limits.depth - 1)
        (actionContent toolName toolArgs newContent rawDiff) = true := by
  have htarget : fits limits (limits.depth - 1) (optStr targetPath : PyValue F) = true := by
    cases targetPath <;> rfl
  simp [actionPayload, fits, fitsItems, htarget]

omit [PyFloatText F] in
theorem hasLone_actionPayload {toolName : String} {targetPath : Option PyStr}
    {toolArgs : List (PyStr × PyValue F)} {newContent : PyValue F} {rawDiff : Option PyStr} :
    hasLone (actionPayload toolName targetPath toolArgs newContent rawDiff) = false ↔
      (∀ t, targetPath = some t → hasSurrogate t = false) ∧
        hasLone (actionContent toolName toolArgs newContent rawDiff) = false := by
  simp [actionPayload, hasLone, hasLoneItems, hasLone_optStr]

/-- A fingerprint is computed of a payload that can be written and
encoded. -/
theorem computeActionFingerprint_ok_iff (limits : Limits) (sha256 : PyStr → PyStr)
    (toolName : String) (targetPath : Option PyStr) (toolArgs : List (PyStr × PyValue F))
    (newContent : PyValue F) (rawDiff : Option PyStr) :
    (∃ digest, computeActionFingerprint limits sha256 toolName targetPath toolArgs newContent
        rawDiff = .ok digest) ↔
      (0 < limits.depth ∧ fits limits (limits.depth - 1)
          (actionContent toolName toolArgs newContent rawDiff) = true) ∧
        (∀ t, targetPath = some t → hasSurrogate t = false) ∧
        hasLone (actionContent toolName toolArgs newContent rawDiff) = false := by
  rw [← fits_actionPayload limits toolName targetPath, ← hasLone_actionPayload,
    ← hasSurrogate_pyDumps]
  simp only [computeActionFingerprint]
  cases fits limits limits.depth
      (actionPayload toolName targetPath toolArgs newContent rawDiff) with
  | false => simp
  | true =>
    cases hasSurrogate (pyDumps
        (actionPayload toolName targetPath toolArgs newContent rawDiff)) <;> simp

omit [PyFloatText F] in
theorem get_of_not_hasKey {items : List (PyStr × PyValue F)} {key : String}
    (h : hasKey items key = false) : get items key = .null := by
  have hnone : lookup (py key) items = none := by simpa [hasKey] using h
  simp [PyValue.get, getD, hnone]

omit [PyFloatText F] in
/-- The content of an action that is not an edit of fragments. -/
theorem actionContent_text (limits : Limits) (depth : Nat) {toolName : String}
    {args : List (PyStr × PyValue F)} {newContent v : PyValue F}
    (hkeys : ¬ (toolName = "Edit" ∧ (hasKey args "old_string" ∨ hasKey args "new_string")))
    (hv : strOr newContent (strOr (get args "content") .null) = strOr v .null) :
    (fits limits depth (actionContent toolName args newContent none) = true ↔ 0 < depth) ∧
      (hasLone (actionContent toolName args newContent none) = false ↔ CleanStr v) := by
  have hfits : fits limits (depth - 1) (strOr v .null) = true := by
    cases v <;> rfl
  constructor
  · simp [actionContent, hkeys, hv, fits, fitsItems, hfits]
  · simp [actionContent, hkeys, hv, hasLone, hasLoneItems, hasLone_strOr_null]

omit [PyFloatText F] in
theorem actionContent_fragments (limits : Limits) (depth : Nat) {args : List (PyStr × PyValue F)}
    (hkeys : hasKey args "old_string" = true ∨ hasKey args "new_string" = true) :
    (fits limits depth (actionContent "Edit" args (get args "new_string") none) = true ↔
      0 < depth ∧ fits limits (depth - 1) (get args "new_string") = true) ∧
      (hasLone (actionContent "Edit" args (get args "new_string") none) = false ↔
        CleanStr (get args "old_string") ∧ hasLone (get args "new_string") = false) := by
  have hself : strOr (get args "new_string") (get args "new_string") = get args "new_string" := by
    cases get args "new_string" <;> rfl
  have hold : fits limits (depth - 1) (strOr (get args "old_string") .null) = true := by
    cases get args "old_string" <;> rfl
  constructor
  · simp [actionContent, hkeys, hself, fits, fitsItems, hold]
  · simp [actionContent, hkeys, hself, hasLone, hasLoneItems, hasLone_strOr_null]

omit [PyFloatText F] in
/-- What a Claude action is made of can be written and encoded. -/
theorem claude_content (limits : Limits) (tool : EditTool) (toolInput : List (PyStr × PyValue F)) :
    (0 < limits.depth ∧ fits limits (limits.depth - 1) (actionContent tool.name toolInput
        (get toolInput tool.contentKey) none) = true) ∧
      hasLone (actionContent tool.name toolInput (get toolInput tool.contentKey) none) = false ↔
    2 ≤ limits.depth ∧ TextsEncode limits tool toolInput := by
  have hlevels : 0 < limits.depth ∧ 0 < limits.depth - 1 ↔ 2 ≤ limits.depth := by omega
  have hdepth : limits.depth - 1 - 1 = limits.depth - 2 := rfl
  cases tool with
  | write =>
    have hv : strOr (get toolInput "content") (strOr (get toolInput "content") .null)
        = strOr (get toolInput "content") .null := by
      cases get toolInput "content" <;> rfl
    have hkeys : ¬ ("Write" = "Edit" ∧ (hasKey toolInput "old_string" = true ∨
        hasKey toolInput "new_string" = true)) := by simp
    obtain ⟨hfits, hlone⟩ := actionContent_text limits (limits.depth - 1) hkeys hv
    have htexts : TextsEncode limits .write toolInput ↔ CleanStr (get toolInput "content") := by
      simp [TextsEncode]
    rw [EditTool.name, EditTool.contentKey, hfits, hlone, htexts, hlevels]
  | edit =>
    by_cases hkeys : hasKey toolInput "old_string" = true ∨ hasKey toolInput "new_string" = true
    · obtain ⟨hfits, hlone⟩ := actionContent_fragments limits (limits.depth - 1) hkeys
      have htexts : TextsEncode limits .edit toolInput ↔ CleanStr (get toolInput "old_string") ∧
          hasLone (get toolInput "new_string") = false ∧
          fits limits (limits.depth - 2) (get toolInput "new_string") = true := by
        simp [TextsEncode, hkeys]
      rw [EditTool.name, EditTool.contentKey, hfits, hlone, htexts, hdepth, ← hlevels]
      constructor
      · intro h
        obtain ⟨⟨hone, htwo, hnew⟩, hold, hclean⟩ := h
        exact ⟨⟨hone, htwo⟩, hold, hclean, hnew⟩
      · intro h
        obtain ⟨⟨hone, htwo⟩, hold, hclean, hnew⟩ := h
        exact ⟨⟨hone, htwo, hnew⟩, hold, hclean⟩
    · have hnew : get toolInput "new_string" = .null := by
        refine get_of_not_hasKey ?_
        simpa using (not_or.mp hkeys).2
      have hv : strOr (get toolInput "new_string") (strOr (get toolInput "content") .null)
          = strOr (get toolInput "content") .null := by
        rw [hnew]
        rfl
      have hnot : ¬ ("Edit" = "Edit" ∧ (hasKey toolInput "old_string" = true ∨
          hasKey toolInput "new_string" = true)) := by simpa using hkeys
      obtain ⟨hfits, hlone⟩ := actionContent_text limits (limits.depth - 1) hnot hv
      have htexts : TextsEncode limits .edit toolInput ↔ CleanStr (get toolInput "content") := by
        simp [TextsEncode, hkeys]
      rw [EditTool.name, EditTool.contentKey, hfits, hlone, htexts, hlevels]

/-! ## 9. The adapters -/

theorem cutContent_ok_iff (v : PyValue F) : (∃ cut, cutContent v = .ok cut) ↔ Cuttable v := by
  cases htruthy : v.truthy with
  | false => simp [cutContent, Cuttable, htruthy]
  | true =>
    cases v with
    | list xs =>
      by_cases hlong : 5000 < xs.length
      · simp [cutContent, Cuttable, htruthy, hlong]
      · simp [cutContent, Cuttable, htruthy, hlong, Nat.not_lt.mp hlong]
    | obj items =>
      by_cases hlong : 5000 < items.length
      · simp [cutContent, Cuttable, htruthy, hlong]
      · simp [cutContent, Cuttable, htruthy, hlong, Nat.not_lt.mp hlong]
    | _ => simp [cutContent, Cuttable, htruthy]

/-- **Claude**: the adapter returns exactly on the safe payloads. -/
theorem claude_ok_iff (limits : Limits) (sha256 : PyStr → PyStr) (cwd sessionName : PyStr)
    (payload : List (PyStr × PyValue F)) (tool : EditTool) :
    (∃ contexts, claudeBuildContexts limits sha256 cwd sessionName payload tool = .ok contexts) ↔
      ClaudeSafe limits cwd payload tool := by
  cases hinput : getD payload "tool_input" (.obj []) with
  | obj toolInput =>
    have hfingerprint := computeActionFingerprint_ok_iff limits sha256 tool.name
      (claudeTarget cwd toolInput) toolInput (get toolInput tool.contentKey) none
    have hcontent := claude_content limits tool toolInput
    have hcut := cutContent_ok_iff (get toolInput tool.contentKey)
    have hsafe : ClaudeSafe limits cwd payload tool ↔ (2 ≤ limits.depth ∧
        (∀ target, claudeTarget cwd toolInput = some target → hasSurrogate target = false) ∧
        TextsEncode limits tool toolInput ∧ Cuttable (get toolInput tool.contentKey)) := by
      simp [ClaudeSafe, hinput]
    simp only [claudeBuildContexts, hinput, exists_bind_ok]
    rw [hsafe, ← hcut]
    constructor
    · intro h
      obtain ⟨digest, hdigest, cut, hcutOk, -⟩ := h
      obtain ⟨hfits, htarget, hlone⟩ := hfingerprint.mp ⟨digest, hdigest⟩
      obtain ⟨hdepth, htexts⟩ := hcontent.mp ⟨hfits, hlone⟩
      exact ⟨hdepth, htarget, htexts, cut, hcutOk⟩
    · intro h
      obtain ⟨hdepth, htarget, htexts, cut, hcutOk⟩ := h
      obtain ⟨hfits, hlone⟩ := hcontent.mpr ⟨hdepth, htexts⟩
      obtain ⟨digest, hdigest⟩ := hfingerprint.mpr ⟨hfits, htarget, hlone⟩
      exact ⟨digest, hdigest, cut, hcutOk, _, rfl⟩
  | _ => simp [claudeBuildContexts, ClaudeSafe, hinput]

omit [PyFloatText F] in
/-- What a patch operation is recorded with has no texts of its own. -/
theorem codexToolArgs_get (op : PatchFileOp) :
    get (codexToolArgs op : List (PyStr × PyValue F)) "content" = .null := by
  simp [codexToolArgs, PyValue.get, getD, lookup, py_inj]

omit [PyFloatText F] in
/-- The content of a patch operation. -/
theorem codex_content (limits : Limits) (op : PatchFileOp) (hkind : op.kind ≠ .delete) :
    let content : PyValue F := actionContent (normalizedTool op) (codexToolArgs op)
      (if op.addedContent = [] then .null else .str op.addedContent)
      (if op.kind = .update then some op.rawSection else none)
    (fits limits (limits.depth - 1) content = true ↔ 0 < limits.depth - 1) ∧
      (hasLone content = false ↔
        hasSurrogate (if op.kind = .update then op.rawSection else op.addedContent) = false) := by
  by_cases hupdate : op.kind = .update
  · simp [actionContent, hupdate, fits, fitsItems, hasLone, hasLoneItems]
  · have hadd : op.kind = .add := by
      cases hop : op.kind with
      | add => rfl
      | update => exact absurd hop hupdate
      | delete => exact absurd hop hkind
    have hv : strOr (if op.addedContent = [] then .null else .str op.addedContent)
        (strOr (get (codexToolArgs op : List (PyStr × PyValue F)) "content") .null)
        = strOr (if op.addedContent = [] then .null else .str op.addedContent) .null := by
      rw [codexToolArgs_get]
      rfl
    have hkeys : ¬ (normalizedTool op = "Edit" ∧
        (hasKey (codexToolArgs op : List (PyStr × PyValue F)) "old_string" = true ∨
          hasKey (codexToolArgs op : List (PyStr × PyValue F)) "new_string" = true)) := by
      simp [normalizedTool, hadd]
    obtain ⟨hfits, hlone⟩ := actionContent_text limits (limits.depth - 1) hkeys hv
    simp only [hupdate, if_false]
    refine ⟨hfits, hlone.trans ?_⟩
    by_cases hempty : op.addedContent = []
    · simp [hempty, CleanStr]
    · simp [hempty, CleanStr]

/-- A patch operation has a context exactly when it is safe. -/
theorem contextForOp_ok_iff (limits : Limits) (sha256 : PyStr → PyStr) (cwd sessionName : PyStr)
    (boundary : Option NativeReviewBoundary) (op : PatchFileOp) (hkind : op.kind ≠ .delete) :
    (∃ context : ActionContext F,
        contextForOp limits sha256 cwd sessionName boundary op = .ok context) ↔
      OpSafe limits cwd op := by
  have hlevels : 0 < limits.depth ∧ 0 < limits.depth - 1 ↔ 2 ≤ limits.depth := by omega
  have hdigest := computeActionFingerprint_ok_iff limits sha256 (normalizedTool op)
    (some (normalizeTarget cwd op.path)) (codexToolArgs op : List (PyStr × PyValue F))
    (if op.addedContent = [] then .null else .str op.addedContent)
    (if op.kind = .update then some op.rawSection else none)
  obtain ⟨hfits, hlone⟩ := codex_content (F := F) limits op hkind
  rw [hfits, hlone, hlevels] at hdigest
  have hsafe : OpSafe limits cwd op ↔ 2 ≤ limits.depth ∧
      (∀ t, some (normalizeTarget cwd op.path) = some t → hasSurrogate t = false) ∧
      hasSurrogate (if op.kind = .update then op.rawSection else op.addedContent) = false := by
    simp [OpSafe]
  rw [hsafe, ← hdigest, contextForOp, exists_bind_ok]
  constructor
  · intro h
    obtain ⟨digest, hok, -⟩ := h
    exact ⟨digest, hok⟩
  · intro h
    obtain ⟨digest, hok⟩ := h
    exact ⟨digest, hok, _, rfl⟩

/-- **Codex**: the adapter returns exactly on the safe payloads. -/
theorem codex_ok_iff (limits : Limits) (sha256 : PyStr → PyStr) (process : Process)
    (nativeReview : Bool) (sessionName : PyStr) (payload : List (PyStr × PyValue F))
    (toolName : PyValue F) :
    (∃ contexts, codexBuildContexts limits sha256 process nativeReview sessionName payload toolName
        = .ok contexts) ↔ CodexSafe limits process payload toolName := by
  cases hops : codexOps payload toolName with
  | none => simp [codexBuildContexts, CodexSafe, hops]
  | some ops =>
    simp only [codexBuildContexts, CodexSafe, hops, exists_bind_ok, exists_mapM_ok]
    constructor
    · intro h
      obtain ⟨cwd, hcwd, hall⟩ := h
      intro ops' hops'
      cases hops'
      refine ⟨cwd, hcwd, ?_⟩
      intro op hmem hkind
      have hkept : op ∈ ops.filter (·.kind ≠ .delete) := by simp [hmem, hkind]
      exact (contextForOp_ok_iff limits sha256 cwd sessionName _ op hkind).mp (hall op hkept)
    · intro h
      obtain ⟨cwd, hcwd, hall⟩ := h ops rfl
      refine ⟨cwd, hcwd, ?_⟩
      intro op hkept
      have hop : op ∈ ops ∧ op.kind ≠ .delete := by simpa using hkept
      exact (contextForOp_ok_iff limits sha256 cwd sessionName _ op hop.2).mpr
        (hall op hop.1 hop.2)

end

/-! ## 10. The hooks -/

theorem policyCheck_crash_iff (policies : Policies F)
    (r : Except HookError (List (ActionContext F))) :
    policyCheck policies r ≠ .crash ↔ ∃ contexts, r = .ok contexts := by
  cases r with
  | error e => simp [policyCheck]
  | ok contexts =>
    cases contexts with
    | nil => simp [policyCheck]
    | cons context contexts =>
      cases hverdict : policies.evaluate context with
      | none => cases hclosed : policies.failClosed <;> simp [policyCheck, hverdict, hclosed]
      | some verdict => cases verdict <;> simp [policyCheck, hverdict]

theorem codexPolicyCheck_crash_iff (policies : Policies F)
    (r : Except HookError (List (ActionContext F))) :
    codexPolicyCheck policies r ≠ .crash ↔ ∃ contexts, r = .ok contexts := by
  cases r with
  | error e => simp [codexPolicyCheck]
  | ok contexts =>
    cases hverdicts : fileVerdicts policies contexts with
    | none => simp [codexPolicyCheck, hverdicts]
    | some verdicts =>
      simp only [codexPolicyCheck, hverdicts]
      split <;> simp

/-- A Write whose text is one lone surrogate. -/
def surrogateInput : List (PyStr × PyValue FloatText) :=
  [(py "file_path", .str (py "a.py")), (py "content", .str [0xd800])]

def surrogateWrite : List (PyStr × PyValue FloatText) := [(py "tool_input", .obj surrogateInput)]

/-- Policies that deny every action, in a session that fails closed. -/
def denyAll : Policies FloatText := ⟨fun _ => some .deny, true⟩

end MultiForge.Hooks
