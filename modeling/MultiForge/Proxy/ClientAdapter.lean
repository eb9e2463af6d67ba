/-
MultiForge.Proxy.ClientAdapter — `CoreLLMClientAdapter`: core-LLM
responses and stream events in OpenAI format.

`createStreamingCompletion` is the generator run over the events a client
yields: the chunks it has yielded and, when an error event ends it, the
`ProxyStreamError` it raises. The clock is a parameter read once per
chunk. Of `accumulated_tool_calls` only its emptiness is ever read, so
the model keeps its keys. `cost_usd` is a float that is only ever
rounded to micros, so the model carries the rounded number.
-/
import MultiForge.Json.Text

namespace MultiForge.Proxy

open Json

/-! ## 1. Core-LLM types -/

/-- `ToolCall`: `arguments` is a `dict`. -/
structure ToolCall (F : Type) where
  id : String
  name : String
  arguments : List (String × Json F)
  deriving DecidableEq, Repr

/-- `ToolCallDelta` -/
structure ToolCallDelta where
  index : Option Int := none
  id : Option String := none
  name : Option String := none
  argumentsJson : String := ""
  deriving DecidableEq, Repr

/-- A `dict[str, int]` of token counts. -/
abbrev TokenUsage := List (String × Int)

/-- `CompletionResponse` -/
structure CompletionResponse (F : Type) where
  text : String
  toolCalls : Option (List (ToolCall F)) := none
  finishReason : Option String := none
  usage : Option TokenUsage := none
  costMicros : Option Int := none
  providerMeta : Option (List (String × Json F)) := none
  deriving DecidableEq, Repr

/-- `StreamEventType` -/
inductive StreamEventType where
  | textDelta
  | toolCallDelta
  | responseEnd
  | usage
  | error
  deriving DecidableEq, Repr

/-- `StreamEvent` -/
structure StreamEvent (F : Type) where
  type : StreamEventType
  text : Option String := none
  toolCallDelta : Option ToolCallDelta := none
  finishReason : Option String := none
  usage : Option TokenUsage := none
  costMicros : Option Int := none
  providerMeta : Option (List (String × Json F)) := none
  error : Option String := none
  deriving DecidableEq, Repr

variable {F : Type}

/-- The truth of an optional string: `None` and `""` are false. -/
def nonEmpty : Option String → Bool
  | some s => s ≠ ""
  | none => false

/-- An optional string as a JSON value. -/
def optStr : Option String → Json F
  | some s => .str s
  | none => .null

/-- `usage.get(key, 0) if usage else 0` -/
def tokenCount (usage : Option TokenUsage) (key : String) : Int :=
  match usage with
  | none => 0
  | some u => ((u.find? fun kv => kv.1 = key).map Prod.snd).getD 0

/-- The usage entries both conversions send on. -/
def usageItems (usage : Option TokenUsage) : List (String × Json F) :=
  [("prompt_tokens", .int (tokenCount usage "prompt_tokens")),
    ("completion_tokens", .int (tokenCount usage "completion_tokens")),
    ("total_tokens", .int (tokenCount usage "total_tokens")),
    ("cached_tokens", .int (tokenCount usage "cached_tokens")),
    ("cache_write_tokens", .int (tokenCount usage "cache_write_tokens"))]

/-! ## 2. Non-streaming responses -/

section Response

variable [PyFloatText F]

/-- One entry of the message's `tool_calls`. -/
def toolCallToOpenai (tc : ToolCall F) : Json F :=
  .obj [("id", .str tc.id), ("type", .str "function"),
    ("function", .obj [("name", .str tc.name), ("arguments", .str (dumps (.obj tc.arguments)))])]

/-- The truth of `response.tool_calls`. -/
def hasToolCalls (response : CompletionResponse F) : Bool :=
  match response.toolCalls with
  | some tcs => !tcs.isEmpty
  | none => false

/-- `finish_reason or ("tool_calls" if tool_calls else "stop")` -/
def finishReasonOr (finishReason : Option String) (toolCalls : Bool) : String :=
  if nonEmpty finishReason then finishReason.getD ""
  else if toolCalls then "tool_calls" else "stop"

/-- `_core_response_to_openai` -/
def coreResponseToOpenai (created : Int) (model : String) (response : CompletionResponse F) :
    List (String × Json F) :=
  let toolCalls := (response.toolCalls.getD []).map toolCallToOpenai
  [("id", .str ("chatcmpl-" ++ String.ofList (intChars created))),
    ("object", .str "chat.completion"),
    ("created", .int created),
    ("model", .str model),
    ("choices", .list [.obj [
      ("index", .int 0),
      ("message", .obj ([("role", .str "assistant"), ("content", .str response.text)]
        ++ if hasToolCalls response then [("tool_calls", .list toolCalls)] else [])),
      ("finish_reason", .str (finishReasonOr response.finishReason (hasToolCalls response)))]]),
    ("usage", .obj (usageItems response.usage))]
  ++ (match response.costMicros with
      | some c => [("_reported_cost_micros", .int c)]
      | none => [])
  ++ (match response.providerMeta with
      | some m => [("_provider_meta", .obj m)]
      | none => [])

end Response

/-! ## 3. Streaming -/

/-- `ProxyStreamError` -/
structure ProxyStreamError where
  message : String
  errorType : String
  deriving DecidableEq, Repr

def isInfix (needle hay : List Char) : Bool :=
  hay.tails.any fun t => needle.isPrefixOf t

/-- The error type read off an error message. -/
def streamErrorTypeOf (message : String) : String :=
  let lower := message.toList.map Char.toLower
  let mentions (s : String) : Bool := isInfix s.toList lower
  if mentions "authentication" || mentions "unauthorized" then "authentication_error"
  else if mentions "rate limit" || mentions "rate_limit" then "rate_limit_error"
  else if mentions "invalid" || mentions "bad request" then "invalid_request_error"
  else "api_error"

/-- What is fixed for all chunks of a stream. -/
structure ChunkSource where
  responseId : String
  model : String
  /-- the clock reading at each chunk -/
  clock : Nat → Int

structure AdapterState where
  /-- the keys of `accumulated_tool_calls` -/
  accumulatedToolCalls : List Int := []
  providerMetaCarried : Bool := false
  yielded : Nat := 0
  deriving DecidableEq, Repr

/-- A chunk with the fields every chunk has. -/
def completionChunk (src : ChunkSource) (n : Nat) (fields : List (String × Json F)) : Json F :=
  .obj ([("id", .str src.responseId), ("object", .str "chat.completion.chunk"),
    ("created", .int (src.clock n)), ("model", .str src.model)] ++ fields)

/-- The `choices` of a chunk with one choice. -/
def oneChoice (delta : List (String × Json F)) (finishReason : Json F) :
    List (String × Json F) :=
  [("choices", .list [.obj [("index", .int 0), ("delta", .obj delta),
    ("finish_reason", finishReason)]])]

/-- The delta of a chunk that carries one tool-call fragment. -/
def toolCallFields (index : Int) (d : ToolCallDelta) : List (String × Json F) :=
  [("tool_calls", .list [.obj [
    ("index", .int index),
    ("id", optStr d.id),
    ("type", if nonEmpty d.id then .str "function" else .null),
    ("function", .obj [("name", optStr d.name), ("arguments", .str d.argumentsJson)])]])]

/-- The fields of the chunk an event is turned into; `none` when it yields
no chunk. -/
def eventFields (acc : List Int) (event : StreamEvent F) :
    Except ProxyStreamError (Option (List (String × Json F))) :=
  match event.type with
  | .textDelta => .ok (some (oneChoice [("content", optStr event.text)] .null))
  | .toolCallDelta =>
      match event.toolCallDelta with
      | some d =>
          match d.index with
          | some index => .ok (some (oneChoice (toolCallFields index d) .null))
          | none => .ok none
      | none => .ok none
  | .usage =>
      .ok (some [("choices", .list []), ("usage", .obj (usageItems event.usage
        ++ match event.costMicros with
          | some c => [("reported_cost_micros", .int c)]
          | none => []))])
  | .responseEnd =>
      .ok (some (oneChoice [] (.str (finishReasonOr event.finishReason (!acc.isEmpty)))))
  | .error =>
      let message := match event.error with
        | some e => if e ≠ "" then e else "Unknown streaming error"
        | none => "Unknown streaming error"
      .error ⟨message, streamErrorTypeOf message⟩

/-- The keys of `accumulated_tool_calls` after an event. -/
def accumulateKey (acc : List Int) (event : StreamEvent F) : List Int :=
  if event.type = .toolCallDelta then
    match event.toolCallDelta.bind ToolCallDelta.index with
    | some index => if index ∈ acc then acc else acc ++ [index]
    | none => acc
  else acc

/-- The provider metadata is carried once, on its own chunk, the first
time an event has it. -/
def carrierChunks (src : ChunkSource) (s : AdapterState) (event : StreamEvent F) :
    List (Json F) :=
  match event.providerMeta with
  | some m =>
      if s.providerMetaCarried then []
      else [completionChunk src s.yielded [("choices", .list []), ("_provider_meta", .obj m)]]
  | none => []

/-- The chunks one event adds. -/
def eventChunks (src : ChunkSource) (s : AdapterState) (event : StreamEvent F) :
    Except ProxyStreamError (List (Json F)) :=
  match eventFields (accumulateKey s.accumulatedToolCalls event) event with
  | .ok (some fields) =>
      .ok [completionChunk src (s.yielded + (carrierChunks src s event).length) fields]
  | .ok none => .ok []
  | .error e => .error e

/-- `create_streaming_completion` over the events of `self._client.stream`. -/
def createStreamingCompletion (src : ChunkSource) (s : AdapterState) :
    List (StreamEvent F) → List (Json F) × Option ProxyStreamError
  | [] => ([], none)
  | event :: events =>
      let carriers := carrierChunks src s event
      match eventChunks src s event with
      | .error e => (carriers, some e)
      | .ok chunks =>
          let rest := createStreamingCompletion src
            { accumulatedToolCalls := accumulateKey s.accumulatedToolCalls event
              providerMetaCarried := s.providerMetaCarried || event.providerMeta.isSome
              yielded := s.yielded + carriers.length + chunks.length } events
          (carriers ++ chunks ++ rest.1, rest.2)

end MultiForge.Proxy
