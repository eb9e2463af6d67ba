/-
MultiForge.Proxy.RequestConversion — the way of a request's messages to an
OpenAI-compatible upstream.

Three translations follow one another: `convertAnthropicToOpenai` splits
the blocks of every message over OpenAI messages, `openaiMessagesToCore`
reads those into core-LLM messages, and `messageToOpenai` writes these for
the upstream. Between them the messages are plain dicts, so every
translation inspects its input with `.get` as the source does.

The message loop keeps three accumulators for each message: the content
parts so far, the tool calls so far, and whether a tool result was seen.
-/
import MultiForge.Lib.Lines
import MultiForge.Json.RoundTrip
import MultiForge.Proxy.ClientAdapter
import MultiForge.Proxy.Sanitize

namespace MultiForge.Proxy.Conversion

open Json Lines

variable {F : Type}

/-! ## 1. Anthropic messages -/

/-- `CacheControl` -/
structure CacheControl where
  type : String := "ephemeral"
  ttl : Option String := none
  deriving DecidableEq, Repr

variable [PyFloatText F]

/-- A `dict[str, Any]`: its keys are distinct, at every depth. -/
structure PyDict (F : Type) [PyFloatText F] where
  items : List (String × Json F)
  proper : Proper (.obj items)

/-- The content of a tool result. -/
inductive ToolContent (F : Type) [PyFloatText F] where
  | str (s : String)
  | parts (ps : List (PyDict F))

/-- The content as a JSON value. -/
def ToolContent.value : ToolContent F → Json F
  | .str s => .str s
  | .parts ps => .list (ps.map fun p => .obj p.items)

/-- `ContentBlock` -/
inductive ContentBlock (F : Type) [PyFloatText F] where
  | text (text : String) (cacheControl : Option CacheControl)
  | image (mediaType data : String)
  | toolUse (id name : String) (input : PyDict F)
  | toolResult (toolUseId : String) (content : ToolContent F) (isError : Option Bool)
      (cacheControl : Option CacheControl)
  | thinking (thinking : String) (signature : Option String)
  | redactedThinking (data : String)

/-- The roles of a message. -/
inductive Role where
  | system
  | user
  | assistant
  deriving DecidableEq, Repr

/-- The word for a role. -/
def Role.text : Role → String
  | .system => "system"
  | .user => "user"
  | .assistant => "assistant"

/-- The content of a message. -/
inductive MessageContent (F : Type) [PyFloatText F] where
  | str (s : String)
  | blocks (bs : List (ContentBlock F))

/-- `Message` of the proxy's data models. -/
structure Message (F : Type) [PyFloatText F] where
  role : Role
  content : MessageContent F

/-- `request.system` -/
inductive SystemPrompt where
  | str (s : String)
  | blocks (bs : List (String × Option CacheControl))
  deriving DecidableEq, Repr

/-- What the conversion reads besides the messages: the provider, whether
cache markers are forwarded, and the token bound of a configured
`auto_inject` policy. -/
structure ConversionConfig where
  provider : String
  forwardCacheMarkers : Bool
  autoCacheMinTokens : Option Nat
  deriving DecidableEq, Repr

/-! ## 2. To OpenAI messages -/

/-- A message in OpenAI format. -/
abbrev OpenaiMessage (F : Type) := List (String × Json F)

/-- `_cache_marker` -/
def cacheMarker (cc : CacheControl) : Json F :=
  .obj ([("type", .str cc.type)] ++ match cc.ttl with
    | some ttl => [("ttl", .str ttl)]
    | none => [])

/-- `_SYSTEM_REMINDER_OPEN` -/
def systemReminderOpen : String := "<system-reminder>"

/-- `_as_system_reminder` -/
def asSystemReminder (text : String) : String :=
  if systemReminderOpen.toList.isPrefixOf (text.toList.dropWhile isSpace) then text
  else systemReminderOpen ++ "\n" ++ text ++ "\n</system-reminder>"

/-- The marker of a block, where markers are forwarded. -/
def markerItems (forwardCacheMarkers : Bool) (cc : Option CacheControl) : List (String × Json F) :=
  match cc, forwardCacheMarkers with
  | some cc, true => [("cache_control", cacheMarker cc)]
  | _, _ => []

/-- A text part. -/
def textPart (text : String) (marker : List (String × Json F)) : Json F :=
  .obj ([("type", .str "text"), ("text", .str text)] ++ marker)

/-- An image part. -/
def imagePart (mediaType data : String) : Json F :=
  .obj [("type", .str "image_url"),
    ("image_url", .obj [("url", .str ("data:" ++ mediaType ++ ";base64," ++ data))])]

/-- An entry of `tool_calls`. -/
def toolCallEntry (id name arguments : String) : Json F :=
  .obj [("id", .str id), ("type", .str "function"),
    ("function", .obj [("name", .str name), ("arguments", .str arguments)])]

/-- The three accumulators of one message, and the messages so far. -/
structure MessageState (F : Type) where
  openaiMessages : List (OpenaiMessage F)
  contentList : List (Json F)
  toolCallsList : List (Json F)
  isToolResponseMessage : Bool

/-- `if content_list: openai_messages.append({"role": "user", ...})` -/
def MessageState.flush (st : MessageState F) : MessageState F :=
  if st.contentList = [] then st
  else { st with
    openaiMessages := st.openaiMessages
      ++ [[("role", .str "user"), ("content", .list st.contentList)]]
    contentList := [] }

/-- The text of a tool result's content. -/
def toolContentText : ToolContent F → String
  | .str s => s
  | content => dumps content.value

/-- The tool message of a tool result. -/
def toolMessage (forwardCacheMarkers : Bool) (toolUseId : String) (content : ToolContent F)
    (cc : Option CacheControl) : OpenaiMessage F :=
  let toolContent := toolContentText content
  let marker := markerItems forwardCacheMarkers cc
  [("role", .str "tool"), ("tool_call_id", .str toolUseId),
    ("content", if marker = [] then .str toolContent else .list [textPart toolContent marker])]

variable [DecidableEq F]

/-- The body of the block loop. -/
def convertBlock (forwardCacheMarkers : Bool) (role : Role) (asReminder : Bool)
    (st : MessageState F) : ContentBlock F → MessageState F
  | .thinking _ _ => st
  | .redactedThinking _ => st
  | .text text cc =>
      let text := if asReminder then asSystemReminder text else text
      { st with contentList := st.contentList ++ [textPart text (markerItems forwardCacheMarkers cc)] }
  | .image mediaType data =>
      if role = .user then { st with contentList := st.contentList ++ [imagePart mediaType data] }
      else st
  | .toolUse id name input =>
      if role = .assistant then
        let cleanedInput := sanitizeToolInput (.str name) input.items
        { st with toolCallsList := st.toolCallsList
            ++ [toolCallEntry id name (dumps (.obj cleanedInput))] }
      else st
  | .toolResult toolUseId content _ cc =>
      if role = .user then
        let st := st.flush
        { st with
          openaiMessages := st.openaiMessages ++ [toolMessage forwardCacheMarkers toolUseId content cc]
          isToolResponseMessage := true }
      else st

/-- The content of a message that is not a tool response: plain text where
a single text part carries nothing else. -/
def simplifiedContent : List (Json F) → Json F
  | [] => .null
  | [.obj first] =>
      if get first "type" = .str "text" ∧ (∀ k ∈ first.map Prod.fst, k = "type" ∨ k = "text")
          ∧ hasKey first "type" ∧ hasKey first "text" then
        getD first "text" (.str "")
      else .list [.obj first]
  | parts => .list parts

/-- The message a block list leaves when it holds no tool result. -/
def plainMessage (role : Role) (asReminder : Bool) (st : MessageState F) :
    List (OpenaiMessage F) :=
  let content := simplifiedContent st.contentList
  let openaiRole : Json F := .str (if asReminder then "user" else role.text)
  let toolCalls : List (String × Json F) :=
    if st.toolCallsList = [] then [] else [("tool_calls", .list st.toolCallsList)]
  if content ≠ .null ∨ st.toolCallsList ≠ [] then
    [[("role", openaiRole), ("content", content)] ++ toolCalls]
  else if role = .assistant then [[("role", openaiRole), ("content", .str "")]]
  else []

/-- The end of the message loop's body: what is left after tool results is
flushed, and a message without any is written whole. -/
def finishMessage (role : Role) (asReminder : Bool) (st : MessageState F) :
    List (OpenaiMessage F) :=
  if st.isToolResponseMessage then st.flush.openaiMessages
  else st.openaiMessages ++ plainMessage role asReminder st

/-- What the message loop carries from one message to the next. -/
structure LoopState (F : Type) where
  openaiMessages : List (OpenaiMessage F)
  conversationStarted : Bool

/-- The body of the message loop. -/
def convertMessage (forwardCacheMarkers : Bool) (loop : LoopState F) (msg : Message F) :
    LoopState F :=
  let asReminder := decide (msg.role = .system) && loop.conversationStarted
  let started := loop.conversationStarted || decide (msg.role ≠ .system)
  let start : MessageState F := ⟨loop.openaiMessages, [], [], false⟩
  let st := match msg.content with
    | .str s =>
        { start with contentList := [textPart (if asReminder then asSystemReminder s else s) []] }
    | .blocks bs => bs.foldl (convertBlock forwardCacheMarkers msg.role asReminder) start
  ⟨finishMessage msg.role asReminder st, started⟩

/-- The text of the system prompt and its cache marker. -/
def systemText (forwardCacheMarkers : Bool) : SystemPrompt → Option String × Option CacheControl
  | .str s => (some s, none)
  | .blocks bs =>
      (if bs = [] then none else some ("\n".intercalate (bs.map Prod.fst)),
        if forwardCacheMarkers then (bs.filterMap Prod.snd).getLast? else none)

/-- The message of the system prompt. -/
def systemMessages (config : ConversionConfig) (system : Option SystemPrompt) :
    List (OpenaiMessage F) :=
  match system with
  | none => []
  | some prompt => match systemText config.forwardCacheMarkers prompt with
    | (some text, marker) =>
        if text = "" ∨ config.provider ∉ ["openai", "litellm", "openrouter"] then []
        else
          let marker := match marker, config.forwardCacheMarkers, config.autoCacheMinTokens with
            | some cc, _, _ => some cc
            | none, true, some minTokens =>
                if minTokens ≤ text.length / 4 then some { type := "ephemeral" } else none
            | none, _, _ => none
          match marker with
          | some cc => [[("role", .str "system"),
              ("content", .list [textPart text [("cache_control", cacheMarker cc)]])]]
          | none => [[("role", .str "system"), ("content", .str text)]]
    | (none, _) => []

/-- The `messages` of `convert_anthropic_to_openai`. -/
def convertAnthropicToOpenai (config : ConversionConfig) (system : Option SystemPrompt)
    (messages : List (Message F)) : List (OpenaiMessage F) :=
  (messages.foldl (convertMessage config.forwardCacheMarkers)
    ⟨systemMessages config system, false⟩).openaiMessages

/-! ## 3. To core-LLM messages and on -/

/-- `Message` of the core-LLM types. -/
structure CoreMessage (F : Type) where
  role : String
  content : Json F
  toolCallId : Option String
  toolCalls : Option (List (ToolCall F))

/-- The arguments of a tool call. -/
def argumentsToCore : Json F → List (String × Json F)
  | .str raw =>
      if isBlank raw.toList then []
      else match (loads raw : Option (Json F)) with
        | some (.obj parsed) => parsed
        | some parsed => [("_raw", parsed)]
        | none => [("raw_arguments", .str raw)]
  | .obj items => items
  | _ => []

/-- The body of the loop of `_tool_calls_to_core`; `none` is `continue`. -/
def toolCallToCore : Json F → Option (ToolCall F)
  | .obj tc =>
      if get tc "type" ≠ .str "function" then none
      else match (get tc "function").orElse (.obj []) with
        | .obj func => match get tc "id", get func "name" with
          | .str tcId, .str name => some ⟨tcId, name, argumentsToCore (get func "arguments")⟩
          | _, _ => none
        | _ => none
  | _ => none

/-- `_tool_calls_to_core` -/
def toolCallsToCore : Json F → Option (List (ToolCall F))
  | .list toolCalls =>
      let out := toolCalls.filterMap toolCallToCore
      if out.isEmpty then none else some out
  | _ => none

/-- Whether a value is a `str | list[dict]`. -/
def isContent : Json F → Bool
  | .str _ => true
  | .list parts => parts.all fun p => match p with
      | .obj _ => true
      | _ => false
  | _ => false

/-- `""` for content that is `None`. -/
def contentOrEmpty : Json F → Json F
  | .null => .str ""
  | content => content

/-- The body of the loop of `_openai_messages_to_core`; `none` is the
model's validation error. -/
def messageToCore (msg : OpenaiMessage F) : Option (CoreMessage F) :=
  let content := contentOrEmpty (getD msg "content" (.str ""))
  let role := match getD msg "role" (.str "user") with
    | .str role => if role ∈ ["system", "user", "assistant", "tool"] then role else "user"
    | _ => "user"
  let toolCalls := toolCallsToCore (get msg "tool_calls")
  if isContent content then
    match get msg "tool_call_id" with
    | .str id => some ⟨role, content, some id, toolCalls⟩
    | .null => some ⟨role, content, none, toolCalls⟩
    | _ => none
  else none

/-- `_openai_messages_to_core` -/
def openaiMessagesToCore (openaiMessages : List (OpenaiMessage F)) :
    Option (List (CoreMessage F)) := openaiMessages.mapM messageToCore

/-- `message_to_openai` -/
def messageToOpenai (msg : CoreMessage F) : OpenaiMessage F :=
  [("role", .str msg.role), ("content", msg.content)]
  ++ (if nonEmpty msg.toolCallId then [("tool_call_id", optStr msg.toolCallId)] else [])
  ++ (match msg.toolCalls with
      | some (tc :: tcs) => [("tool_calls", .list ((tc :: tcs).map toolCallToOpenai))]
      | _ => [])

/-- All three translations. -/
def translate (config : ConversionConfig) (system : Option SystemPrompt)
    (messages : List (Message F)) : Option (List (OpenaiMessage F)) :=
  (openaiMessagesToCore (convertAnthropicToOpenai config system messages)).map
    (·.map messageToOpenai)

end MultiForge.Proxy.Conversion
