/-
MultiForge.Proxy.RequestLossless — request conversion loses and duplicates
nothing.

A conversation is a list of items: texts with the role they are sent
under, images, tool uses and tool results. `itemsFrom` lists those of the
Anthropic messages, `Carries` says which items one upstream message holds,
and a translation is `Lossless` when its messages hold the items in order,
each once.

The last two translations change little: a message arrives with its
content and its tool calls (`forward_plain`), and a tool result with its
id unless that is empty (`forward_toolMessage`).
-/
import MultiForge.Proxy.RequestConversion
import MultiForge.Proxy.ResponseAgreement

namespace MultiForge.Proxy.Conversion

open Json Lines

variable {F : Type} [PyFloatText F]

/-! ## 1. Items of a conversation -/

/-- What a conversation consists of. -/
inductive Item (F : Type) where
  | text (role text : String)
  | image (url : String)
  | toolUse (id name : String) (input : List (String × Json F))
  | toolResult (id : String) (content : Json F)
  deriving DecidableEq, Repr

/-- The id of a tool use. -/
def Item.callId : Item F → Option String
  | .toolUse id _ _ => some id
  | _ => none

/-- The role a message is sent under. -/
def sentRole (role : Role) (asReminder : Bool) : String := if asReminder then "user" else role.text

/-- The text a text block is sent as. -/
def sentText (asReminder : Bool) (text : String) : String :=
  if asReminder then asSystemReminder text else text

/-- The item of a block that is sent as content. -/
def contentItems (role : Role) (asReminder : Bool) : ContentBlock F → List (Item F)
  | .text text _ => [.text (sentRole role asReminder) (sentText asReminder text)]
  | .image mediaType data =>
      if role = .user then [.image ("data:" ++ mediaType ++ ";base64," ++ data)] else []
  | .toolResult toolUseId content _ _ =>
      if role = .user then [.toolResult toolUseId content.value] else []
  | _ => []

/-- The ids of a user message's tool results. -/
def resultIds (msg : Message F) : List String :=
  match msg.role, msg.content with
  | .user, .blocks bs => bs.filterMap fun b => match b with
      | .toolResult toolUseId _ _ _ => some toolUseId
      | _ => none
  | _, _ => []

/-- The ids of an assistant message's tool uses. -/
def toolUseIds (msg : Message F) : List String :=
  match msg.role, msg.content with
  | .assistant, .blocks bs => bs.filterMap fun b => match b with
      | .toolUse id _ _ => some id
      | _ => none
  | _, _ => []

section

variable [DecidableEq F]

/-- The tool call of an assistant's block. -/
def blockCall (role : Role) : ContentBlock F → List (ToolCall F)
  | .toolUse id name input =>
      if role = .assistant then [⟨id, name, sanitizeToolInput (.str name) input.items⟩] else []
  | _ => []

end

/-- A tool call as an item. -/
def callItem (call : ToolCall F) : Item F := .toolUse call.id call.name call.arguments

section

variable [DecidableEq F]

/-- The items of a message: its content in block order, and its tool uses
in block order. -/
def messageItems (asReminder : Bool) (msg : Message F) : List (Item F) :=
  match msg.content with
  | .str s => [.text (sentRole msg.role asReminder) (sentText asReminder s)]
  | .blocks bs =>
      bs.flatMap (contentItems msg.role asReminder)
        ++ (bs.flatMap (blockCall msg.role)).map callItem

/-- Whether a system message is sent as a reminder. -/
def isReminder (started : Bool) (msg : Message F) : Bool := decide (msg.role = .system) && started

/-- Whether the conversation has started after a message. -/
def startedAfter (started : Bool) (msg : Message F) : Bool :=
  started || decide (msg.role ≠ .system)

/-- The items of a message list. -/
def itemsFrom : Bool → List (Message F) → List (Item F)
  | _, [] => []
  | started, msg :: rest =>
      messageItems (isReminder started msg) msg ++ itemsFrom (startedAfter started msg) rest

end

/-- The item of the system prompt. -/
def promptItems (config : ConversionConfig) (system : Option SystemPrompt) : List (Item F) :=
  match system.bind fun prompt => (systemText config.forwardCacheMarkers prompt).1 with
  | some text =>
      if text = "" ∨ config.provider ∉ ["openai", "litellm", "openrouter"] then []
      else [.text "system" text]
  | none => []

/-! ## 2. Items of an upstream message -/

/-- The item of a content part. -/
def partItem (role : String) : Json F → Option (Item F)
  | .obj part => match get part "type", get part "text", get part "image_url" with
      | .str type, .str text, _ => if type = "text" then some (.text role text) else none
      | .str type, _, .obj image => match get image "url" with
          | .str url => if type = "image_url" then some (.image url) else none
          | _ => none
      | _, _, _ => none
  | _ => none

/-- The item of an entry of `tool_calls`. -/
def entryItem : Json F → Option (Item F)
  | .obj entry => match get entry "id", get entry "function" with
      | .str id, .obj func => match get func "name", get func "arguments" with
          | .str name, .str arguments => match (loads arguments : Option (Json F)) with
              | some (.obj input) => some (.toolUse id name input)
              | _ => none
          | _, _ => none
      | _, _ => none
  | _ => none

/-- The items a message's content holds. Empty text may also stand for no
content. -/
def ContentCarries (role : String) (content : Json F) (items : List (Item F)) : Prop :=
  (∃ s, content = .str s ∧ (items = [.text role s] ∨ s = "" ∧ items = []))
  ∨ ∃ parts, content = .list parts ∧ parts.mapM (partItem role) = some items

/-- The items a message's tool calls hold. -/
def CallsCarry (toolCalls : Option (Json F)) (items : List (Item F)) : Prop :=
  (toolCalls = none ∧ items = [])
  ∨ ∃ entries, toolCalls = some (.list entries) ∧ entries.mapM entryItem = some items

/-- The items an upstream message holds: one tool result, whose content is
the text or what the text decodes to, or content and tool calls. -/
def Carries (msg : OpenaiMessage F) (items : List (Item F)) : Prop :=
  (∃ id text value, lookup "role" msg = some (.str "tool")
    ∧ lookup "tool_call_id" msg = some (.str id) ∧ lookup "tool_calls" msg = none
    ∧ ContentCarries "tool" (get msg "content") [.text "tool" text]
    ∧ (value = .str text ∨ loads text = some value) ∧ items = [.toolResult id value])
  ∨ ∃ role content calls, lookup "role" msg = some (.str role) ∧ role ≠ "tool"
    ∧ lookup "tool_call_id" msg = none ∧ ContentCarries role (get msg "content") content
    ∧ CallsCarry (lookup "tool_calls" msg) calls ∧ items = content ++ calls

/-- The messages hold the items in order, each once. -/
def Lossless (out : List (OpenaiMessage F)) (items : List (Item F)) : Prop :=
  ∃ carried, List.Forall₂ Carries out carried ∧ carried.flatten = items

/-! ## 3. Pairing -/

/-- Every assistant message with tool uses is followed by a user message
whose first blocks are the tool results for exactly their ids. -/
def Paired : List (Message F) → Prop
  | [] => True
  | msg :: rest =>
      (toolUseIds msg ≠ [] → ∃ next after bs others, rest = next :: after ∧ next.role = .user
        ∧ next.content = .blocks (bs ++ others)
        ∧ (∀ b ∈ bs, ∃ id content err cc, b = .toolResult id content err cc)
        ∧ (resultIds ⟨.user, .blocks bs⟩).Perm (toolUseIds msg)) ∧ Paired rest

/-- The id of an entry of `tool_calls`. -/
def entryId : Json F → Option String
  | .obj entry => match get entry "id" with
      | .str id => some id
      | _ => none
  | _ => none

/-- The ids of an upstream message's tool calls. -/
def callIds (msg : OpenaiMessage F) : List String :=
  match lookup "tool_calls" msg with
  | some (.list entries) => entries.filterMap entryId
  | _ => []

/-- Every message with tool calls is followed by tool messages that answer
exactly their ids. -/
def PairedOut : List (OpenaiMessage F) → Prop
  | [] => True
  | msg :: rest =>
      (callIds msg ≠ [] → ∃ answers others, rest = answers ++ others
        ∧ (∀ a ∈ answers, lookup "role" a = some (.str "tool"))
        ∧ (answers.map (lookup "tool_call_id")).Perm
            ((callIds msg).map fun id => some (.str id))) ∧ PairedOut rest

/-! ## 4. One message through the last two translations -/

/-- The text of a dict is not blank. -/
theorem not_isBlank_dumps (items : List (String × Json F)) :
    isBlank (dumps (.obj items)).toList = false := by
  unfold isBlank dumps
  rw [String.toList_ofList]
  cases items with
  | nil => rfl
  | cons item rest =>
    obtain ⟨k, v⟩ := item
    rw [dumpChars, List.all_cons]
    simp [isSpace]

theorem argumentsToCore_dumps {items : List (String × Json F)} (h : Proper (.obj items)) :
    argumentsToCore (.str (dumps (.obj items))) = items := by
  simp only [argumentsToCore, not_isBlank_dumps, loads_dumps Separators.default_valid h]
  rfl

omit [PyFloatText F] in
@[simp] theorem contentOrEmpty_str (text : String) :
    contentOrEmpty (.str text : Json F) = .str text := rfl

omit [PyFloatText F] in
@[simp] theorem contentOrEmpty_list (parts : List (Json F)) :
    contentOrEmpty (.list parts) = .list parts := rfl

omit [PyFloatText F] in
@[simp] theorem isContent_str (text : String) : isContent (.str text : Json F) = true := rfl

omit [PyFloatText F] in
/-- Content parts are dicts. -/
theorem isContent_of_parts {role : String} : ∀ {parts : List (Json F)} {items : List (Item F)},
    parts.mapM (partItem role) = some items → isContent (.list parts) = true
  | [], _, _ => rfl
  | part :: rest, items, h => by
      rw [List.mapM_cons] at h
      obtain ⟨item, hitem, h⟩ := Option.bind_eq_some_iff.mp h
      obtain ⟨items', hitems, -⟩ := Option.bind_eq_some_iff.mp h
      have ih := isContent_of_parts hitems
      cases part with
      | obj part => exact ih
      | _ => cases hitem

section

variable [DecidableEq F]

/-- `_openai_messages_to_core` and `message_to_openai` on one message. -/
def forward (msg : OpenaiMessage F) : Option (OpenaiMessage F) :=
  (messageToCore msg).map messageToOpenai

theorem mapM_forward : ∀ msgs : List (OpenaiMessage F),
    (openaiMessagesToCore msgs).map (·.map messageToOpenai) = msgs.mapM forward
  | [] => rfl
  | msg :: rest => by
      have ih := mapM_forward rest
      unfold openaiMessagesToCore at ih ⊢
      rw [List.mapM_cons, List.mapM_cons, ← ih, forward]
      cases messageToCore msg with
      | none => rfl
      | some core =>
        cases rest.mapM messageToCore with
        | none => rfl
        | some cores => rfl

/-- A message with content and tool calls. -/
def plain (role : String) (content : Json F) (calls : List (ToolCall F)) : OpenaiMessage F :=
  [("role", .str role), ("content", content)]
    ++ if calls = [] then [] else [("tool_calls", .list (calls.map toolCallToOpenai))]

/-- The arguments of a call can be read back. -/
def ProperCalls (calls : List (ToolCall F)) : Prop := ∀ c ∈ calls, Proper (.obj c.arguments)

theorem toolCallToCore_toOpenai {call : ToolCall F} (h : Proper (.obj call.arguments)) :
    toolCallToCore (toolCallToOpenai call) = some call := by
  have hargs := argumentsToCore_dumps h
  simp [toolCallToCore, toolCallToOpenai, Json.get, Json.getD, orElse, truthy, hargs]

theorem filterMap_toolCallToCore : ∀ {calls : List (ToolCall F)}, ProperCalls calls →
    (calls.map toolCallToOpenai).filterMap toolCallToCore = calls
  | [], _ => rfl
  | call :: rest, h => by
      rw [List.map_cons, List.filterMap_cons,
        toolCallToCore_toOpenai (h call List.mem_cons_self),
        filterMap_toolCallToCore fun c hc => h c (List.mem_cons_of_mem _ hc)]

/-- Content and tool calls arrive as they are. -/
theorem forward_plain {role : String} {content : Json F} {calls : List (ToolCall F)}
    (hrole : role ∈ ["system", "user", "assistant", "tool"]) (hcontent : isContent (contentOrEmpty content))
    (hcalls : ProperCalls calls) :
    forward (plain role content calls) = some (plain role (contentOrEmpty content) calls) := by
  cases calls with
  | nil =>
    simp [forward, plain, messageToCore, Json.get, Json.getD, hcontent, hrole, toolCallsToCore,
      messageToOpenai, nonEmpty]
  | cons call rest =>
    have hcore := filterMap_toolCallToCore hcalls
    simp only [List.map_cons] at hcore
    simp [forward, plain, messageToCore, Json.get, Json.getD, hcontent, hrole, toolCallsToCore,
      messageToOpenai, nonEmpty, hcore]

/-- A tool result arrives with its id, unless the id is empty. -/
theorem forward_toolMessage (forwardCacheMarkers : Bool) (id : String) (content : ToolContent F)
    (cc : Option CacheControl) :
    ∃ body, forward (toolMessage forwardCacheMarkers id content cc)
        = some ([("role", .str "tool"), ("content", body)]
            ++ if id = "" then [] else [("tool_call_id", .str id)])
      ∧ ContentCarries "tool" body [.text "tool" (toolContentText content)] := by
  have hsent : ∀ body : Json F, body ≠ .null → isContent body = true →
      forward [("role", .str "tool"), ("tool_call_id", .str id), ("content", body)]
        = some ([("role", .str "tool"), ("content", body)]
            ++ if id = "" then [] else [("tool_call_id", .str id)]) := by
    intro body hbody hcontent
    have hfilled : contentOrEmpty body = body := by
      cases body <;> first | rfl | exact absurd rfl hbody
    by_cases hid : id = ""
    · simp [forward, messageToCore, Json.get, Json.getD, hfilled, hcontent, toolCallsToCore,
        messageToOpenai, nonEmpty, hid]
    · simp [forward, messageToCore, Json.get, Json.getD, hfilled, hcontent, toolCallsToCore,
        messageToOpenai, nonEmpty, hid, optStr]
  simp only [toolMessage]
  by_cases hmarker : markerItems (F := F) forwardCacheMarkers cc = []
  · rw [if_pos hmarker]
    exact ⟨_, hsent _ (by simp) rfl, .inl ⟨_, rfl, .inl rfl⟩⟩
  · rw [if_neg hmarker]
    exact ⟨_, hsent _ (by simp) rfl, .inr ⟨_, rfl, rfl⟩⟩

/-! ## 5. What the loop writes carries its items -/

/-- The message arrives, and holds the items then. -/
def Sent (msg : OpenaiMessage F) (items : List (Item F)) : Prop :=
  ∃ msg', forward msg = some msg' ∧ Carries msg' items

omit [DecidableEq F] in
theorem entryItem_toOpenai {call : ToolCall F} (h : Proper (.obj call.arguments)) :
    entryItem (toolCallToOpenai call) = some (callItem call) := by
  have hloads := loads_dumps Separators.default_valid h
  simp [entryItem, toolCallToOpenai, Json.get, Json.getD, hloads, callItem]

omit [DecidableEq F] in
theorem mapM_entryItem : ∀ {calls : List (ToolCall F)}, ProperCalls calls →
    (calls.map toolCallToOpenai).mapM entryItem = some (calls.map callItem)
  | [], _ => rfl
  | call :: rest, h => by
      rw [List.map_cons, List.mapM_cons, entryItem_toOpenai (h call List.mem_cons_self),
        mapM_entryItem fun c hc => h c (List.mem_cons_of_mem _ hc)]
      rfl

omit [PyFloatText F] [DecidableEq F] in
/-- A list of parts. -/
theorem ContentCarries.list {role : String} {parts : List (Json F)} {items : List (Item F)}
    (h : parts.mapM (partItem role) = some items) :
    ContentCarries role (contentOrEmpty (.list parts)) items := .inr ⟨parts, rfl, h⟩

omit [PyFloatText F] [DecidableEq F] in
theorem ContentCarries.isContent {role : String} {content : Json F} {items : List (Item F)}
    (h : ContentCarries role content items) : isContent content = true := by
  rcases h with ⟨s, rfl, -⟩ | ⟨parts, rfl, hparts⟩
  · rfl
  · exact isContent_of_parts hparts

/-- A message with content and calls. -/
theorem sent_plain {role : String} {content : Json F} {calls : List (ToolCall F)}
    {items : List (Item F)} (hrole : role ∈ ["system", "user", "assistant"])
    (hcontent : ContentCarries role (contentOrEmpty content) items) (hcalls : ProperCalls calls) :
    Sent (plain role content calls) (items ++ calls.map callItem) := by
  have hrole' : role ∈ ["system", "user", "assistant", "tool"] := by
    simp only [List.mem_cons, List.not_mem_nil, or_false] at hrole ⊢
    tauto
  have hne : role ≠ "tool" := by
    rintro rfl
    revert hrole
    decide
  refine ⟨_, forward_plain hrole' hcontent.isContent hcalls, ?_⟩
  refine .inr ⟨role, items, calls.map callItem, ?_, hne, ?_, ?_, ?_, rfl⟩
  · simp [plain]
  · unfold plain
    split <;> simp
  · simpa [plain, Json.get, Json.getD] using hcontent
  · by_cases hnil : calls = []
    · subst hnil
      exact .inl ⟨by simp [plain], rfl⟩
    · refine .inr ⟨calls.map toolCallToOpenai, by simp [plain, hnil], mapM_entryItem hcalls⟩

omit [DecidableEq F] in
theorem properList_parts : ∀ ps : List (PyDict F), ProperList (ps.map fun p => .obj p.items)
  | [] => trivial
  | p :: rest => ⟨p.proper, properList_parts rest⟩

omit [DecidableEq F] in
/-- The text of a tool result is its content or decodes to it. -/
theorem toolContentText_decodes (content : ToolContent F) :
    content.value = .str (toolContentText content)
      ∨ loads (toolContentText content) = some content.value := by
  cases content with
  | str s => exact .inl rfl
  | parts ps => exact .inr (loads_dumps Separators.default_valid (properList_parts ps))

/-- A tool result with an id. -/
theorem sent_toolMessage (forwardCacheMarkers : Bool) {id : String} (hid : id ≠ "")
    (content : ToolContent F) (cc : Option CacheControl) :
    Sent (toolMessage forwardCacheMarkers id content cc) [.toolResult id content.value] := by
  obtain ⟨body, hforward, hbody⟩ := forward_toolMessage forwardCacheMarkers id content cc
  rw [if_neg hid] at hforward
  refine ⟨_, hforward, .inl ⟨id, _, content.value, rfl, rfl, rfl, hbody, ?_, rfl⟩⟩
  exact toolContentText_decodes content

/-- A tool result without an id is no answer to any call. -/
theorem not_carries_toolMessage (forwardCacheMarkers : Bool) (content : ToolContent F)
    (cc : Option CacheControl) {msg' : OpenaiMessage F} {items : List (Item F)}
    (h : forward (toolMessage forwardCacheMarkers "" content cc) = some msg') :
    ¬ Carries msg' items := by
  obtain ⟨body, hforward, -⟩ := forward_toolMessage forwardCacheMarkers "" content cc
  rw [if_pos rfl, h] at hforward
  obtain rfl := Option.some.inj hforward
  rintro (⟨id, -, -, -, hid, -⟩ | ⟨role, -, -, hrole, hne, -⟩)
  · cases hid
  · exact hne (Json.str.inj (Option.some.inj hrole)).symm

omit [PyFloatText F] [DecidableEq F] in
/-- A part with a text type holds a text. -/
theorem partItem_text {role : String} {part : List (String × Json F)} {item : Item F}
    (htype : Json.get part "type" = .str "text") (h : partItem role (.obj part) = some item) :
    ∃ s, Json.get part "text" = .str s ∧ item = .text role s := by
  simp only [partItem, htype] at h
  split at h
  · rename_i type text htype' htext
    obtain rfl := Json.str.inj htype'
    exact ⟨text, htext, by simpa using h.symm⟩
  · -- an image is not of that type
    rename_i type image htype' himage hnot
    obtain rfl := Json.str.inj htype'
    split at h
    · simp at h
    · cases h
  · cases h

omit [PyFloatText F] in
/-- A single text part that is sent as plain text says the same. -/
theorem simplifiedContent_carries {role : String} {parts : List (Json F)} {items : List (Item F)}
    (h : parts.mapM (partItem role) = some items) :
    ContentCarries role (contentOrEmpty (simplifiedContent parts)) items := by
  unfold simplifiedContent
  split
  · obtain rfl : items = [] := by
      cases h
      rfl
    exact .inl ⟨"", rfl, .inr ⟨rfl, rfl⟩⟩
  · rename_i first
    split
    · rename_i htext
      obtain ⟨htype, -, -, hkey⟩ := htext
      obtain ⟨v, hv⟩ := Option.isSome_iff_exists.mp hkey
      have hpart : ∃ s, v = .str s ∧ items = [.text role s] := by
        rw [List.mapM_cons] at h
        obtain ⟨item, hitem, h⟩ := Option.bind_eq_some_iff.mp h
        obtain rfl : items = [item] := by
          cases h
          rfl
        have hget : Json.get first "text" = v := by
          rw [Json.get, Json.getD, hv]
          rfl
        obtain ⟨s, hs, rfl⟩ := partItem_text htype hitem
        exact ⟨s, hget ▸ hs, rfl⟩
      obtain ⟨s, rfl, rfl⟩ := hpart
      refine .inl ⟨s, ?_, .inl rfl⟩
      rw [Json.getD, hv]
      rfl
    · exact .inr ⟨_, rfl, h⟩
  · exact .inr ⟨_, rfl, h⟩

end

end MultiForge.Proxy.Conversion
