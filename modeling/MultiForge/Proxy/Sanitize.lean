/-
MultiForge.Proxy.Sanitize — the tool-argument sanitizer and the usage
splitter of `forge.proxy.converters`.

Both the streaming and the non-streaming response path call these two,
so everything that is said about "the same input" and "the same usage"
of the two paths is said through the definitions here.
-/
import MultiForge.Json.RoundTrip

namespace MultiForge.Proxy

open Json

variable {F : Type} [DecidableEq F] [PyFloatText F]

/-! ## Tool arguments -/

/-- `_STRIP_EMPTY_PARAMS["Read"]`: the parameters checked, in order. Each
has the empty values `(None, "", 0)`. -/
def stripEmptyParams : List String := ["pages", "offset", "limit"]

/-- `value in (None, "", 0)` -/
def isEmptyParam (v : Json F) : Bool :=
  v.pyEq .null || v.pyEq (.str "") || v.pyEq (.int 0)

/-- `_is_pdf_path` -/
def isPdfPath : Json F → Bool
  | .str s => ['.', 'p', 'd', 'f'].isSuffixOf (s.toList.map Char.toLower)
  | _ => false

/-- `tool_name in _STRIP_EMPTY_PARAMS`; `none` where hashing the name
raises `TypeError`. -/
def shouldBufferStreamingToolArgs (toolName : Json F) : Option Bool :=
  toolName.key?.map fun k => k = .str "Read"

/-- `strip_param` -/
def stripParam (param : String) (r : List (String × Json F) × List String) :
    List (String × Json F) × List String :=
  if hasKey r.1 param then (erase param r.1, r.2 ++ [param]) else r

/-- The loop over `params_to_check.items()`. -/
def stripEmpty : List String → List (String × Json F) × List String →
    List (String × Json F) × List String
  | [], r => r
  | p :: ps, r =>
      stripEmpty ps (match lookup p r.1 with
        | some v => if isEmptyParam v then stripParam p r else r
        | none => r)

/-- `sanitize_tool_input_with_report` -/
def sanitizeToolInputWithReport (toolName : Json F) (toolInput : List (String × Json F)) :
    List (String × Json F) × List String :=
  if toolName = .str "Read" then
    let r := (toolInput, [])
    let r := if hasKey toolInput "pages" && !isPdfPath (get toolInput "file_path") then
        stripParam "pages" r
      else r
    stripEmpty stripEmptyParams r
  else (toolInput, [])

/-- `sanitize_tool_input` -/
def sanitizeToolInput (toolName : Json F) (toolInput : List (String × Json F)) :
    List (String × Json F) :=
  (sanitizeToolInputWithReport toolName toolInput).1

/-- `_sanitize_tool_arguments_json_with_report` -/
def sanitizeToolArgumentsJsonWithReport (toolName : Json F) (argsJson : String) :
    String × List String :=
  if !toolName.truthy || toolName ≠ .str "Read" || argsJson = "" then (argsJson, [])
  else match (loads argsJson : Option (Json F)) with
    | some (.obj parsed) =>
        let r := sanitizeToolInputWithReport toolName parsed
        (dumps (.obj r.1) .compact, r.2)
    | _ => (argsJson, [])

/-- `_sanitize_tool_arguments_json` -/
def sanitizeToolArgumentsJson (toolName : Json F) (argsJson : String) : String :=
  (sanitizeToolArgumentsJsonWithReport toolName argsJson).1

/-! ## Distinct keys -/

omit [DecidableEq F] [PyFloatText F] in
theorem proper_stripParam {param : String} {r : List (String × Json F) × List String}
    (h : Proper (Json.obj r.1)) : Proper (Json.obj (stripParam param r).1) := by
  unfold stripParam
  split
  · exact proper_erase h
  · exact h

omit [DecidableEq F] in
theorem proper_stripEmpty : ∀ (ps : List String) {r : List (String × Json F) × List String},
    Proper (Json.obj r.1) → Proper (Json.obj (stripEmpty ps r).1)
  | [], _, h => h
  | p :: ps, r, h => by
      rw [stripEmpty]
      refine proper_stripEmpty ps ?_
      split
      · split
        · exact proper_stripParam h
        · exact h
      · exact h

/-- Sanitizing keeps the keys distinct. -/
theorem proper_sanitize {name : Json F} {items : List (String × Json F)}
    (h : Proper (Json.obj items)) : Proper (Json.obj (sanitizeToolInput name items)) := by
  unfold sanitizeToolInput sanitizeToolInputWithReport
  split
  · refine proper_stripEmpty _ ?_
    split
    · exact proper_stripParam (r := (items, [])) h
    · exact h
  · exact h

/-! ## Usage -/

/-- The fields `_anthropic_cache_usage` returns. -/
structure CacheUsage (F : Type) where
  inputTokens : Json F
  cacheCreationInputTokens : Json F
  cacheReadInputTokens : Json F
  deriving DecidableEq, Repr

/-- `_anthropic_cache_usage`: counts that are not all plain integers pass
through unchanged. -/
def anthropicCacheUsage (promptTokens cachedTokens cacheWriteTokens : Json F) : CacheUsage F :=
  match promptTokens, cachedTokens, cacheWriteTokens with
  | .int p, .int c, .int w => ⟨.int (max (p - c - w) 0), .int w, .int c⟩
  | p, c, w => ⟨p, w, c⟩

end MultiForge.Proxy
