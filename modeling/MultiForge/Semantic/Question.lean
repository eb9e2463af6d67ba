/-
MultiForge.Semantic.Question — what an action asks a reviewer.

A question is a context together with the complete action whose digest the
context carries: what an adapter had before it cut the text for the prompt.
The digest's text determines the tool, the target path as it is written and
the complete change (`Question.eq_of_canonical_eq`). It does not determine
the file on disk, which the working directory decides as well.
-/
import MultiForge.Semantic.ReviewerIdentity

namespace MultiForge.Semantic

open MultiForge.Engine

variable {F : Type}

/-! ## 1. Changes -/

/-- What an action introduces or replaces, complete. -/
inductive Change where
  | diff (rawDiff : String)
  | fragments (oldString newString : Option String) (replaceAll : Bool)
  | content (text : Option String)
  deriving DecidableEq

/-- The change an action is recorded with. -/
def changeOf (toolName : String) (args : List (String × Json F))
    (newContent rawDiff : Option String) : Change :=
  match rawDiff with
  | some diff => .diff diff
  | none =>
      if toolName = "Edit" ∧ (Json.hasKey args "old_string" ∨ Json.hasKey args "new_string") then
        .fragments (textPath (Json.get args "old_string"))
          ((textPath (Json.get args "new_string")).or newContent)
          (match Json.get args "replace_all" with
            | .bool b => b
            | _ => false)
      else .content (newContent.or (textPath (Json.get args "content")))

/-- The JSON of a change. -/
def Change.json (toolName : String) : Change → Json F
  | .diff rawDiff => .obj [("kind", .str "raw_diff"), ("raw_diff", .str rawDiff)]
  | .fragments oldString newString replaceAll => .obj [("kind", .str "edit_fragments"),
      ("old_string", optText oldString), ("new_string", optText newString),
      ("replace_all", .bool replaceAll)]
  | .content text =>
      .obj [("kind", .str (if toolName = "Write" then "write_content" else "new_content")),
        ("content", optText text)]

theorem strOr_optText (value : Json F) (default : Option String) :
    strOr value (optText default) = optText ((textPath value).or default) := by
  cases value <;> rfl

theorem strOr_null (value : Json F) : strOr value .null = optText (textPath value) := by
  cases value <;> rfl

theorem actionContent_eq (toolName : String) (args : List (String × Json F))
    (newContent rawDiff : Option String) :
    actionContent toolName args newContent rawDiff
      = (changeOf toolName args newContent rawDiff).json toolName := by
  unfold actionContent changeOf
  cases rawDiff with
  | some diff => rfl
  | none =>
    dsimp only
    split
    · rw [strOr_null, strOr_optText]
      rfl
    · cases newContent with
      | some text => rfl
      | none =>
        rw [strOr_null]
        rfl

theorem Change.json_proper (toolName : String) (change : Change) :
    Json.Proper (change.json toolName : Json F) := by
  have hdiff : ["kind", "raw_diff"].Nodup := by decide
  have hfragments : ["kind", "old_string", "new_string", "replace_all"].Nodup := by decide
  have hcontent : ["kind", "content"].Nodup := by decide
  cases change with
  | diff rawDiff => exact ⟨hdiff, trivial, trivial, trivial⟩
  | fragments oldString newString replaceAll =>
    exact ⟨hfragments, trivial, optText_proper _, optText_proper _, trivial, trivial⟩
  | content text => exact ⟨hcontent, trivial, optText_proper _, trivial⟩

/-- The change can be read off its sorted JSON. -/
theorem Change.json_injective {toolName : String} {a b : Change}
    (h : Json.sortKeys (a.json toolName : Json F) = Json.sortKeys (b.json toolName)) : a = b := by
  cases a with
  | diff d =>
    cases b with
    | diff d' =>
      have hd := Json.lookup_eq_of_sortKeys_eq h "raw_diff"
      simp [Json.sortKeys] at hd
      rw [hd]
    | fragments o n r =>
      have hk := Json.lookup_eq_of_sortKeys_eq h "kind"
      simp [Json.sortKeys] at hk
    | content t =>
      have hk := Json.lookup_eq_of_sortKeys_eq h "kind"
      by_cases hw : toolName = "Write" <;> simp [Json.sortKeys, hw] at hk
  | fragments o n r =>
    cases b with
    | diff d' =>
      have hk := Json.lookup_eq_of_sortKeys_eq h "kind"
      simp [Json.sortKeys] at hk
    | fragments o' n' r' =>
      have ho := Json.lookup_eq_of_sortKeys_eq h "old_string"
      have hn := Json.lookup_eq_of_sortKeys_eq h "new_string"
      have hr := Json.lookup_eq_of_sortKeys_eq h "replace_all"
      simp [Json.sortKeys] at ho hn hr
      rw [optText_injective ho, optText_injective hn, hr]
    | content t =>
      have hk := Json.lookup_eq_of_sortKeys_eq h "kind"
      by_cases hw : toolName = "Write" <;> simp [Json.sortKeys, hw] at hk
  | content t =>
    cases b with
    | diff d' =>
      have hk := Json.lookup_eq_of_sortKeys_eq h "kind"
      by_cases hw : toolName = "Write" <;> simp [Json.sortKeys, hw] at hk
    | fragments o' n' r' =>
      have hk := Json.lookup_eq_of_sortKeys_eq h "kind"
      by_cases hw : toolName = "Write" <;> simp [Json.sortKeys, hw] at hk
    | content t' =>
      have ht := Json.lookup_eq_of_sortKeys_eq h "content"
      simp at ht
      rw [optText_injective ht]

/-! ## 2. Fingerprints -/

variable [PyFloatText F]

/-- `action_fingerprint` -/
def actionFingerprint (sha : Sha256) (ctx : ActionContext) (toolArgs : List (String × Json F)) :
    String :=
  let recomputed := computeActionFingerprint sha.hexdigest ctx.toolName ctx.targetPath toolArgs
    ctx.newContent ctx.rawDiff
  match ctx.actionFingerprint with
  | some value => if isSha256 value then value else recomputed
  | none => recomputed

theorem actionFingerprint_of_some {sha : Sha256} {ctx : ActionContext}
    {toolArgs : List (String × Json F)} {value : String} (h : ctx.actionFingerprint = some value)
    (hvalue : isSha256 value = true) : actionFingerprint sha ctx toolArgs = value := by
  simp [actionFingerprint, h, hvalue]

/-- A context and the complete action that its fingerprint is of. -/
structure Question (F : Type) [PyFloatText F] (sha : Sha256) where
  ctx : ActionContext
  toolArgs : List (String × Json F)
  newContent : Option String
  rawDiff : Option String
  complete : actionFingerprint sha ctx toolArgs
    = computeActionFingerprint sha.hexdigest ctx.toolName ctx.targetPath toolArgs newContent rawDiff

namespace Question

variable {sha : Sha256}

/-- What the action introduces or replaces, complete. -/
def change (q : Question F sha) : Change :=
  changeOf q.ctx.toolName q.toolArgs q.newContent q.rawDiff

/-- The file on disk: `Path(repo_root) / target_path`. -/
def file (q : Question F sha) : Option String := q.ctx.targetPath.map (joinPath q.ctx.repoRoot)

def fingerprint (q : Question F sha) : String := actionFingerprint sha q.ctx q.toolArgs

/-- The text whose digest the fingerprint is. -/
def canonical (q : Question F sha) : String :=
  canonicalText (actionPayload q.ctx.toolName q.ctx.targetPath q.toolArgs q.newContent q.rawDiff)

theorem fingerprint_eq (q : Question F sha) : q.fingerprint = sha.hexdigest q.canonical :=
  q.complete

theorem payload_proper (q : Question F sha) :
    Json.Proper (actionPayload q.ctx.toolName q.ctx.targetPath q.toolArgs q.newContent
      q.rawDiff) := by
  have hkeys : ["schema", "tool_name", "target_path", "content"].Nodup := by decide
  have hcontent : Json.Proper (actionContent q.ctx.toolName q.toolArgs q.newContent
      q.rawDiff) := by
    rw [actionContent_eq]
    exact Change.json_proper _ _
  exact ⟨hkeys, trivial, trivial, optText_proper _, hcontent, trivial⟩

/-- **The text of an action tells its tool, its target path and its
change.** -/
theorem eq_of_canonical_eq {q q' : Question F sha} (h : q.canonical = q'.canonical) :
    q.ctx.toolName = q'.ctx.toolName ∧ q.ctx.targetPath = q'.ctx.targetPath
      ∧ q.change = q'.change := by
  have hsorted := Json.unicodeDumps_injective Json.Separators.compact_valid
    Json.Separators.compact_printable q.payload_proper.sortKeys q'.payload_proper.sortKeys h
  have hkeys : ["schema", "tool_name", "target_path", "content"].Nodup := by decide
  have hvalues := Json.sortItems_values hsorted rfl hkeys
  simp only [List.map_cons, List.map_nil, List.cons.injEq, Json.sortKeys, Json.str.injEq,
    sortKeys_optText, actionContent_eq, and_true, true_and] at hvalues
  obtain ⟨htool, htarget, hcontent⟩ := hvalues
  refine ⟨htool, optText_injective htarget, ?_⟩
  rw [htool] at hcontent
  unfold change
  rw [htool]
  exact Change.json_injective hcontent

end Question

/-! ## 3. Questions of the hooks -/

/-- The question of a Claude payload about one of its contexts. -/
theorem exists_question_claude (sha : Sha256) {cwd sessionName : String} {payload : ClaudePayload F}
    {ctx : ActionContext}
    (hctx : ctx ∈ claudeBuildContexts sha.hexdigest cwd sessionName payload) :
    ∃ q : Question F sha, q.ctx = ctx ∧ q.newContent = payload.text ∧ q.rawDiff = none := by
  unfold claudeBuildContexts at hctx
  split at hctx
  · rename_i toolInput _
    obtain rfl := List.mem_singleton.mp hctx
    refine ⟨⟨_, toolInput, payload.text, none, ?_⟩, rfl, rfl, rfl⟩
    exact actionFingerprint_of_some rfl (sha.isSha256 _)
  · cases hctx

/-- The question of a Codex patch operation. -/
theorem exists_question_codex (sha : Sha256) (cwd sessionName : String) (op : PatchFileOp) :
    ∃ q : Question F sha, q.ctx = contextForOp F sha.hexdigest cwd sessionName op
      ∧ q.newContent = op.introduced
      ∧ q.rawDiff = if op.kind = .update then some (String.ofList op.rawSection) else none := by
  refine ⟨⟨contextForOp F sha.hexdigest cwd sessionName op, codexToolArgs op, op.introduced, _, ?_⟩,
    rfl, rfl, rfl⟩
  exact actionFingerprint_of_some rfl (sha.isSha256 _)

end MultiForge.Semantic
