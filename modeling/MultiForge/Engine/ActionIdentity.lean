/-
MultiForge.Engine.ActionIdentity — `forge.policy.action_identity`: the
digest of one action.

The payload is written as canonical JSON with sorted keys, so two actions
have the same text only if they have the same payload. The hash is a
function on texts.
-/
import MultiForge.Json.Unicode

namespace MultiForge.Engine

open MultiForge.Json

variable {F : Type}

/-- `ACTION_IDENTITY_SCHEMA` -/
def actionIdentitySchema : String := "forge-policy-action-v1"

/-- A string or `None`. -/
def optText : Option String → Json F
  | some s => .str s
  | none => .null

/-- `value if isinstance(value, str) else default` -/
def strOr (value default : Json F) : Json F :=
  match value with
  | .str s => .str s
  | _ => default

/-- `payload["content"]` -/
def actionContent (toolName : String) (args : List (String × Json F))
    (newContent rawDiff : Option String) : Json F :=
  match rawDiff with
  | some diff => .obj [("kind", .str "raw_diff"), ("raw_diff", .str diff)]
  | none =>
      if toolName = "Edit" ∧ (hasKey args "old_string" ∨ hasKey args "new_string") then
        .obj [("kind", .str "edit_fragments"),
          ("old_string", strOr (Json.get args "old_string") .null),
          ("new_string", strOr (Json.get args "new_string") (optText newContent)),
          ("replace_all", .bool (match Json.get args "replace_all" with
            | .bool b => b
            | _ => false))]
      else
        .obj [("kind", .str (if toolName = "Write" then "write_content" else "new_content")),
          ("content", match newContent with
            | some text => .str text
            | none => strOr (Json.get args "content") .null)]

/-- The payload of `compute_action_fingerprint`. -/
def actionPayload (toolName : String) (targetPath : Option String)
    (toolArgs : List (String × Json F)) (newContent rawDiff : Option String) : Json F :=
  .obj [("schema", .str actionIdentitySchema), ("tool_name", .str toolName),
    ("target_path", optText targetPath),
    ("content", actionContent toolName toolArgs newContent rawDiff)]

variable [PyFloatText F]

/-- The canonical text of a payload. -/
def canonicalText (payload : Json F) : String := unicodeDumps (sortKeys payload) .compact

/-- `compute_action_fingerprint` -/
def computeActionFingerprint (sha256 : String → String) (toolName : String)
    (targetPath : Option String) (toolArgs : List (String × Json F))
    (newContent rawDiff : Option String) : String :=
  sha256 (canonicalText (actionPayload toolName targetPath toolArgs newContent rawDiff))

/-- `_is_sha256` -/
def isSha256 (value : String) : Bool :=
  value.length == 64 && value.toList.all fun char => char ∈ "0123456789abcdef".toList

end MultiForge.Engine
