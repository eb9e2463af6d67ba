/-
MultiForge.Proxy.Response — `convert_openai_to_anthropic`, the conversion
of a complete response.

`none` is the `None` the function returns from its last `except` clause:
any operation that raises outside the parsing of tool arguments, and any
value the response models reject. The response models are pydantic's; a
`Pydantic` instance says which values they accept as `int` and as `str`,
and its two laws say that an `int` and a `str` are accepted as they are.
-/
import MultiForge.Proxy.Sanitize
import MultiForge.Proxy.Stream

namespace MultiForge.Proxy

open Json

/-- The lax conversions of pydantic fields. -/
class Pydantic (F : Type) where
  int : Json F → Option Int
  str : Json F → Option String
  int_int : ∀ n, int (.int n) = some n
  str_str : ∀ s, str (.str s) = some s

/-- A content block of `MessagesResponse`. -/
inductive ResponseBlock (F : Type) where
  | text (text : String)
  | toolUse (id name : String) (input : List (String × Json F))
  deriving DecidableEq, Repr

/-- `Usage` -/
structure Usage where
  inputTokens : Int
  outputTokens : Int
  cacheCreationInputTokens : Int := 0
  cacheReadInputTokens : Int := 0
  deriving DecidableEq, Repr

/-- `MessagesResponse` -/
structure MessagesResponse (F : Type) where
  id : String
  model : String
  content : List (ResponseBlock F)
  stopReason : String
  usage : Usage
  deriving DecidableEq, Repr

variable {F : Type} [DecidableEq F] [PyFloatText F]

/-- What the converter takes from outside: the ids it makes up where the
response has none, and the text of an exception raised while arguments
are parsed. -/
structure ResponseContext (F : Type) where
  messageUuid : String
  toolUuid : Json F → String
  exceptionText : Json F → String

/-- The input of a tool call: its parsed and sanitized arguments, the raw
text when they are not JSON, or an error record. -/
def responseToolInput (ctx : ResponseContext F) (toolName argsStr : Json F) : Json F :=
  match argsStr with
  | .str text =>
      match (loads text : Option (Json F)) with
      | none => .obj [("raw_arguments", argsStr)]
      | some (.obj args) =>
          if toolName.key?.isSome then .obj (sanitizeToolInput toolName args)
          else .obj [("error_parsing_arguments", .str (ctx.exceptionText toolName)),
            ("raw_arguments", argsStr)]
      | some v => v
  | _ => .obj [("error_parsing_arguments", .str (ctx.exceptionText argsStr)),
      ("raw_arguments", argsStr)]

variable [Pydantic F]

/-- `ContentBlockToolUse(...)` -/
def toolUseBlock (id name input : Json F) : Option (ResponseBlock F) :=
  match Pydantic.str id, Pydantic.str name, input with
  | some id, some name, .obj input => some (.toolUse id name input)
  | _, _, _ => none

/-- One entry of `message["tool_calls"]`; entries that are not functions
are skipped. -/
def responseToolCall (ctx : ResponseContext F) (tc : Json F) :
    Option (List (ResponseBlock F)) :=
  match tc with
  | .obj items =>
      if get items "type" = .str "function" then
        match getD items "function" (.obj []) with
        | .obj func =>
            let toolName := getD func "name" (.str "unknown_tool")
            (toolUseBlock (getD items "id" (.str (ctx.toolUuid tc))) toolName
              (responseToolInput ctx toolName (getD func "arguments" (.str "\x7b\x7d")))).map
              fun b => [b]
        | _ => none
      else some []
  | _ => some []

def responseToolCalls (ctx : ResponseContext F) : List (Json F) → Option (List (ResponseBlock F))
  | [] => some []
  | tc :: tcs => do return (← responseToolCall ctx tc) ++ (← responseToolCalls ctx tcs)

/-- The text and the tool calls of a message. -/
def responseContent (ctx : ResponseContext F) (message : List (String × Json F)) :
    Option (List (ResponseBlock F)) := do
  let text := match get message "content" with
    | .str t => if t ≠ "" then [ResponseBlock.text t] else []
    | _ => []
  let tools ← match get message "tool_calls" with
    | .list tcs => responseToolCalls ctx tcs
    | _ => some []
  return text ++ tools

/-- The first choice: its content and its finish reason. -/
def responseChoice (ctx : ResponseContext F) (choices : Json F) :
    Option (List (ResponseBlock F) × Json F) :=
  if choices.truthy then
    match choices with
    | .list (.obj choice :: _) =>
        match (getD choice "message" (.obj [])).orElse (.obj []) with
        | .obj message =>
            (responseContent ctx message).map fun content =>
              (content, getD choice "finish_reason" (.str "stop"))
        | _ => none
    | _ => none
  else some ([], .str "stop")

/-- `Usage(...)` from the usage of the response. -/
def responseUsage (usage : List (String × Json F)) : Option Usage := do
  let u := anthropicCacheUsage (getD usage "prompt_tokens" (.int 0))
    (getD usage "cached_tokens" (.int 0)) (getD usage "cache_write_tokens" (.int 0))
  return {
    inputTokens := ← Pydantic.int u.inputTokens
    outputTokens := ← Pydantic.int (getD usage "completion_tokens" (.int 0))
    cacheCreationInputTokens := ← Pydantic.int u.cacheCreationInputTokens
    cacheReadInputTokens := ← Pydantic.int u.cacheReadInputTokens }

/-- `original_model_name or "claude-3.7-sonnet"` -/
def responseModel : Option String → String
  | some m => if m ≠ "" then m else "claude-3.7-sonnet"
  | none => "claude-3.7-sonnet"

/-- `convert_openai_to_anthropic` on a `dict`. -/
def convertOpenaiToAnthropic (ctx : ResponseContext F) (originalModelName : Option String)
    (response : List (String × Json F)) : Option (MessagesResponse F) := do
  let id := (get response "id").orElse (.str ctx.messageUuid)
  let usage ← match (getD response "usage" (.obj [])).orElse (.obj []) with
    | .obj usage => some usage
    | _ => none
  let (content, finishReason) ← responseChoice ctx (getD response "choices" (.list []))
  let _ ← finishReason.key?
  return {
    id := ← Pydantic.str id
    model := responseModel originalModelName
    -- Anthropic requires content to be a non-empty list
    content := if content.isEmpty then [.text ""] else content
    stopReason := stopReasonMap finishReason
    usage := ← responseUsage usage }

end MultiForge.Proxy
