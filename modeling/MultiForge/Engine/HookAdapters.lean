/-
MultiForge.Engine.HookAdapters — from a hook's payload to the actions that
policies judge: `ClaudeHookAdapter`, `CodexHookAdapter` and the parser of
Codex's patch envelope.

Both adapters keep the first 5000 characters of the introduced text for
the context and compute the fingerprint before that. What the process
supplies (the resolved working directory, the session's name, the hash)
is a parameter.
-/
import Mathlib.Data.List.DropRight
import MultiForge.Engine.ActionIdentity
import MultiForge.Engine.TddPolicy
import MultiForge.Lib.Lines

namespace MultiForge.Engine

open MultiForge.Json MultiForge.Lines

variable {F : Type}

/-! ## 1. Paths -/

/-- The root of a path: `//` is one of its own. -/
def pathRoot (p : String) : String :=
  match p.toList with
  | '/' :: '/' :: '/' :: _ => "/"
  | '/' :: '/' :: _ => "//"
  | '/' :: _ => "/"
  | _ => ""

/-- The parts of a path. -/
def pathParts (p : String) : List (List Char) :=
  (p.toList.splitOn '/').filter fun part => part ≠ [] ∧ part ≠ ['.']

/-- `str(Path(p).relative_to(cwd))`; `none` is its `ValueError`. -/
def relativeTo (p cwd : String) : Option String :=
  let rest := (pathParts p).drop (pathParts cwd).length
  if pathRoot p = pathRoot cwd ∧ pathParts cwd <+: pathParts p then
    some (if rest = [] then "." else String.ofList (['/'].intercalate rest))
  else none

/-- A target path, relative to the working directory where it is under it. -/
def normalizeTarget (cwd targetPath : String) : String :=
  if targetPath ≠ "" ∧ pathRoot targetPath ≠ "" then (relativeTo targetPath cwd).getD targetPath
  else targetPath

/-! ## 2. The prompt budget -/

/-- The cut of `new_content`. -/
def cutContent (newContent : String) : String :=
  if 5000 < newContent.length then
    String.ofList (newContent.toList.take 5000) ++ "\n... (truncated)"
  else newContent

/-! ## 3. Claude -/

/-- The tools whose payload introduces text. -/
inductive EditTool where
  | write
  | edit
  deriving DecidableEq, Repr

def EditTool.name : EditTool → String
  | .write => "Write"
  | .edit => "Edit"

/-- The key of the introduced text. -/
def EditTool.contentKey : EditTool → String
  | .write => "content"
  | .edit => "new_string"

/-- A Write or Edit payload; the introduced text is a text if it is there. -/
structure ClaudePayload (F : Type) where
  tool : EditTool
  toolInput : Json F
  text : Option String
  isText : ∀ items, toolInput = .obj items → Json.get items tool.contentKey = optText text

/-- A path of the payload that is a text. -/
def textPath : Json F → Option String
  | .str s => some s
  | _ => none

section

variable [PyFloatText F]

/-- `ClaudeHookAdapter.build_contexts` -/
def claudeBuildContexts (sha256 : String → String) (cwd sessionName : String)
    (payload : ClaudePayload F) : List ActionContext :=
  match payload.toolInput with
  | .obj toolInput =>
      let targetPath := (textPath ((Json.get toolInput "file_path").orElse
        (Json.get toolInput "path"))).map (normalizeTarget cwd)
      let newContent := payload.text
      [{ origin := "claude_code"
         event := "PreToolUse." ++ payload.tool.name
         toolName := payload.tool.name
         repoRoot := cwd
         sessionName := sessionName
         targetPath := targetPath
         newContent := newContent.map cutContent
         actionFingerprint := some (computeActionFingerprint sha256 payload.tool.name targetPath
           toolInput newContent none) }]
  | _ => []

end

/-! ## 4. The patch envelope -/

inductive PatchOpKind where
  | add
  | update
  | delete
  deriving DecidableEq, Repr

def PatchOpKind.text : PatchOpKind → String
  | .add => "add"
  | .update => "update"
  | .delete => "delete"

/-- `PatchFileOp` -/
structure PatchFileOp where
  kind : PatchOpKind
  path : List Char
  moveTo : Option (List Char)
  addedContent : List Char
  rawSection : List Char
  sourcePath : Option (List Char)
  deriving DecidableEq, Repr

/-- `_Section` -/
structure PatchSection where
  kind : PatchOpKind
  path : List Char
  moveTo : Option (List Char) := none
  headerLines : List (List Char) := []
  body : List (List Char) := []
  deriving DecidableEq, Repr

/-- `"\n".join(lines)` -/
def joinLines (lines : List (List Char)) : List Char := ['\n'].intercalate lines

/-- `_extract_codex_added_lines` -/
def extractCodexAddedLines (body : List (List Char)) : List Char :=
  joinLines (body.filterMap fun line => match line with
    | '+' :: rest => some rest
    | _ => none)

/-- `_Section.finalize` -/
def PatchSection.finalize (s : PatchSection) : PatchFileOp where
  kind := s.kind
  path := s.moveTo.getD s.path
  moveTo := s.moveTo
  addedContent := if s.kind = .delete then [] else extractCodexAddedLines s.body
  rawSection := joinLines (s.headerLines ++ s.body)
  sourcePath := s.moveTo.map fun _ => s.path

def beginPatch : List Char := "*** Begin Patch".toList
def endPatch : List Char := "*** End Patch".toList
def eofMarker : List Char := "*** End of File".toList
def moveToPrefix : List Char := "*** Move to: ".toList

/-- `_HEADERS` -/
def patchHeaders : List (List Char × PatchOpKind) :=
  [("*** Add File: ".toList, .add), ("*** Update File: ".toList, .update),
    ("*** Delete File: ".toList, .delete)]

/-- `line.strip()` -/
def strip (line : List Char) : List Char := (line.dropWhile isSpace).rdropWhile isSpace

/-- `_match_header` -/
def matchHeader (line : List Char) : Option (PatchOpKind × List Char) :=
  (patchHeaders.find? fun h => h.1.isPrefixOf line).map fun h =>
    (h.2, strip (line.drop h.1.length))

/-- Whether a line may stand in the body of a section. -/
def isBodyLine (line : List Char) : Bool :=
  match line with
  | [] => true
  | '+' :: _ => true
  | '-' :: _ => true
  | ' ' :: _ => true
  | '@' :: '@' :: _ => true
  | _ => false

/-- The body of the loop of `parse_apply_patch`; `none` is its early
return. -/
def parseLine (state : List PatchFileOp × Option PatchSection) (line : List Char) :
    Option (List PatchFileOp × Option PatchSection) :=
  match matchHeader line with
  | some (kind, path) =>
      if path = [] then none
      else some (state.1 ++ (state.2.map PatchSection.finalize).toList,
        some { kind := kind, path := path, headerLines := [line] })
  | none =>
      if moveToPrefix.isPrefixOf line then
        let target := strip (line.drop moveToPrefix.length)
        match state.2 with
        | none => none
        | some current =>
            if current.kind ≠ .update ∨ current.body ≠ [] ∨ current.moveTo.isSome ∨ target = [] then
              none
            else some (state.1, some { current with
              moveTo := some target
              headerLines := current.headerLines ++ [line] })
      else match state.2 with
        | none => none
        | some current =>
            if current.kind = .delete then none
            else if line = eofMarker ∨ isBodyLine line then
              some (state.1, some { current with body := current.body ++ [line] })
            else none

/-- `parse_apply_patch` -/
def parseApplyPatch (command : String) : Option (List PatchFileOp) :=
  let lines := (command.toList.splitOn '\n').map (·.rdropWhile (· = '\r'))
  let lines := (lines.dropWhile isBlank).rdropWhile isBlank
  if lines.head? ≠ some beginPatch ∨ lines.getLast? ≠ some endPatch ∨ lines.length < 2 then none
  else (lines.tail.dropLast.foldlM parseLine ([], none)).map fun state =>
    state.1 ++ (state.2.map PatchSection.finalize).toList

/-! ## 5. Codex -/

/-- The introduced text of a patch operation, if there is any. -/
def PatchFileOp.introduced (op : PatchFileOp) : Option String :=
  if op.addedContent = [] then none else some (String.ofList op.addedContent)

section

variable [PyFloatText F]

/-- The arguments a patch operation is recorded with. -/
def codexToolArgs (op : PatchFileOp) : List (String × Json F) :=
  [("codex_tool_name", .str "apply_patch"), ("path", .str (String.ofList op.path)),
    ("move_to", optText (op.moveTo.map String.ofList)), ("kind", .str op.kind.text)]

/-- `CodexHookAdapter._context_for_op` -/
def contextForOp (F : Type) [PyFloatText F] (sha256 : String → String) (cwd sessionName : String)
    (op : PatchFileOp) : ActionContext :=
  let normalizedTool := if op.kind = .add then "Write" else "Edit"
  let targetPath := normalizeTarget cwd (String.ofList op.path)
  let fullNewContent := op.introduced
  let fullRawDiff := if op.kind = .update then some (String.ofList op.rawSection) else none
  { origin := "codex"
    event := "PreToolUse." ++ normalizedTool
    toolName := normalizedTool
    repoRoot := cwd
    sessionName := sessionName
    targetPath := some targetPath
    newContent := fullNewContent.map cutContent
    rawDiff := if op.kind = .update then some (String.ofList (op.rawSection.take 5000)) else none
    actionFingerprint := some (computeActionFingerprint sha256 normalizedTool (some targetPath)
      (codexToolArgs (F := F) op) fullNewContent fullRawDiff) }

/-- The operations a Codex payload is evaluated for. -/
def codexOps (toolName : String) (toolInput : Json F) : List PatchFileOp :=
  if toolName ≠ "apply_patch" then []
  else match toolInput with
    | .obj items => match Json.get items "command" with
      | .str command => ((parseApplyPatch command).getD []).filter (·.kind ≠ .delete)
      | _ => []
    | _ => []

/-- `CodexHookAdapter.build_contexts` -/
def codexBuildContexts (sha256 : String → String) (cwd sessionName toolName : String)
    (toolInput : Json F) : List ActionContext :=
  (codexOps toolName toolInput).map (contextForOp F sha256 cwd sessionName)

end

end MultiForge.Engine
