/-
MultiForge.Proxy.ResponseAgreement — the streaming and the non-streaming
path give the client the same response.

`StreamOf` says that a stream is a cutting of a response: texts first,
then fragments of the calls, whose first fragments carry the id and the
name, then the usage and the end. Both paths are computed and compared:
content blocks, stop reason and usage. They differ in one thing: a stream
whose prompt and completion counts are both zero reports no usage.
-/
import MultiForge.Json.RoundTrip
import MultiForge.Proxy.Response
import MultiForge.Proxy.ToolCallDelivery

set_option linter.unusedSectionVars false

namespace MultiForge.Proxy

open Json

variable {F : Type} [DecidableEq F] [PyFloatText F] [Pydantic F]

/-! ## 1. What is compared -/

/-- The tool input a client reads from the JSON of a block. -/
def clientInput (partialJson : String) : Option (List (String × Json F)) :=
  if partialJson = "" then some []
  else match loads partialJson with
    | some (.obj items) => some items
    | _ => none

def ClientBlock.toResponseBlock : ClientBlock F → Option (ResponseBlock F)
  | .text t => some (.text t)
  | .toolUse (.str id) (.str name) json => (clientInput json).map (.toolUse id name)
  | .toolUse _ _ _ => none

/-- The content of a received message. -/
def ClientMessage.content (m : ClientMessage F) : Option (List (ResponseBlock F)) :=
  m.blocks.mapM fun b => b.2.toResponseBlock

/-- Content without empty text blocks. -/
def nonEmptyContent (content : List (ResponseBlock F)) : List (ResponseBlock F) :=
  content.filter fun b => b ≠ .text ""

def Usage.toClient (u : Usage) : ClientUsage F where
  inputTokens := .int u.inputTokens
  cacheCreationInputTokens := .int u.cacheCreationInputTokens
  cacheReadInputTokens := .int u.cacheReadInputTokens
  outputTokens := .int u.outputTokens

/-- The fragments of the call with an index: they agree with the call on
the id and the name, and their argument texts together are its arguments. -/
structure CutOf (ds : List ToolCallDelta) (i : Int) (call : ToolCall F) : Prop where
  id : ∀ d ∈ deltasAt i ds, nonEmpty d.id → d.id = some call.id
  name : ∀ d ∈ deltasAt i ds, nonEmpty d.name → d.name = some call.name
  arguments : loads (String.join ((deltasAt i ds).map ToolCallDelta.argumentsJson))
    = some (.obj call.arguments)

/-- A stream that delivers a response: `texts`, `tools`, `usage`, `fin`. -/
structure StreamOf (resp : CompletionResponse F) (order : List Int)
    (texts tools : List (StreamEvent F)) (usage fin : StreamEvent F) : Prop where
  texts_type : ∀ e ∈ texts, e.type = .textDelta
  text : streamText texts = resp.text
  tools_type : ∀ e ∈ tools, e.type = .toolCallDelta ∧
    ∃ d i, e.toolCallDelta = some d ∧ d.index = some i
  /-- the calls appear in the order of the response -/
  in_order : tools.foldl accumulateKey [] = order
  calls : List.Forall₂ (CutOf (toolCallDeltas tools)) order (resp.toolCalls.getD [])
  /-- the first fragment of a call carries its id and its name -/
  first : ∀ pre d post i, toolCallDeltas tools = pre ++ d :: post → d.index = some i →
    (∀ d' ∈ pre, d'.index ≠ some i) → d.opens
  usage_type : usage.type = .usage
  counts : usage.usage = resp.usage
  fin_type : fin.type = .responseEnd
  reason : fin.finishReason = resp.finishReason

/-- A response as the client libraries build it: the arguments are dicts
with distinct keys, and no count is negative. -/
structure CompletionResponse.Valid (resp : CompletionResponse F) : Prop where
  arguments : ∀ call ∈ resp.toolCalls.getD [], Proper (Json.obj call.arguments)
  usage : ∀ key, 0 ≤ tokenCount resp.usage key

/-! ## 2. The non-streaming path -/

/-- The block both paths deliver for a call. -/
def ToolCall.responseBlock (call : ToolCall F) : ResponseBlock F :=
  .toolUse call.id call.name (sanitizeToolInput (.str call.name) call.arguments)

theorem responseToolCalls_eq (ctx : ResponseContext F) : ∀ {calls : List (ToolCall F)},
    (∀ call ∈ calls, Proper (Json.obj call.arguments)) →
    responseToolCalls ctx (calls.map toolCallToOpenai) = some (calls.map ToolCall.responseBlock)
  | [], _ => rfl
  | call :: calls, h => by
      have ih := responseToolCalls_eq ctx fun c hc => h c (List.mem_cons_of_mem _ hc)
      have hload := loads_dumps Separators.default_valid (h call List.mem_cons_self)
      have hone : responseToolCall ctx (toolCallToOpenai call)
          = some [call.responseBlock] := by
        simp [responseToolCall, toolCallToOpenai, Json.get, getD, responseToolInput, hload,
          toolUseBlock, Pydantic.str_str, key?, ToolCall.responseBlock]
      rw [List.map_cons, responseToolCalls, hone, ih]
      rfl

/-- The usage both paths report when they report one. -/
def splitUsage (usage : Option TokenUsage) : Usage where
  inputTokens := max (tokenCount usage "prompt_tokens" - tokenCount usage "cached_tokens"
    - tokenCount usage "cache_write_tokens") 0
  outputTokens := tokenCount usage "completion_tokens"
  cacheCreationInputTokens := tokenCount usage "cache_write_tokens"
  cacheReadInputTokens := tokenCount usage "cached_tokens"

/-- The content of a response. -/
def responseBlocks (resp : CompletionResponse F) : List (ResponseBlock F) :=
  (if resp.text = "" then [] else [.text resp.text])
    ++ (resp.toolCalls.getD []).map ToolCall.responseBlock

theorem hasToolCalls_eq (resp : CompletionResponse F) :
    hasToolCalls resp = !(resp.toolCalls.getD []).isEmpty := by
  cases h : resp.toolCalls <;> simp [hasToolCalls, h]

/-- The message of the response in OpenAI format. -/
def openaiMessage (resp : CompletionResponse F) : List (String × Json F) :=
  [("role", .str "assistant"), ("content", .str resp.text)]
    ++ if hasToolCalls resp then
      [("tool_calls", .list ((resp.toolCalls.getD []).map toolCallToOpenai))] else []

theorem responseContent_eq (ctx : ResponseContext F) {resp : CompletionResponse F}
    (h : resp.Valid) : responseContent ctx (openaiMessage resp) = some (responseBlocks resp) := by
  have htext : get (openaiMessage resp) "content" = .str resp.text := by
    simp [openaiMessage, Json.get, getD]
  have htools : get (openaiMessage resp) "tool_calls" = if hasToolCalls resp then
      .list ((resp.toolCalls.getD []).map toolCallToOpenai) else .null := by
    cases hb : hasToolCalls resp <;> simp [openaiMessage, Json.get, getD, hb]
  unfold responseContent
  rw [htext, htools, hasToolCalls_eq]
  cases hc : resp.toolCalls.getD [] with
  | nil => simp [responseBlocks, hc]
  | cons call calls =>
    have hcalls := responseToolCalls_eq ctx (fun c hmem => h.arguments c (hc ▸ hmem))
    simp only [List.isEmpty_cons, Bool.not_false, if_true, hcalls]
    simp [responseBlocks, hc]

theorem responseUsage_eq (usage : Option TokenUsage) :
    responseUsage (F := F) (usageItems usage) = some (splitUsage usage) := by
  simp [responseUsage, usageItems, getD, anthropicCacheUsage, Pydantic.int_int, splitUsage]

/-- The non-streaming path, computed. -/
theorem convertOpenaiToAnthropic_eq (ctx : ResponseContext F) (orig : Option String)
    (created : Int) (model : String) {resp : CompletionResponse F} (h : resp.Valid) :
    ∃ r, convertOpenaiToAnthropic ctx orig (coreResponseToOpenai created model resp) = some r ∧
      r.content = (if (responseBlocks resp).isEmpty then [.text ""] else responseBlocks resp) ∧
      r.stopReason
        = stopReasonMap (F := F) (.str (finishReasonOr resp.finishReason (hasToolCalls resp))) ∧
      r.usage = splitUsage resp.usage := by
  have hget : ∀ key d, key = "id" ∨ key = "choices" ∨ key = "usage" →
      getD (coreResponseToOpenai created model resp) key d
        = getD [("id", .str ("chatcmpl-" ++ String.ofList (intChars created))),
          ("choices", .list [.obj [("index", .int 0), ("message", .obj (openaiMessage resp)),
            ("finish_reason",
              .str (finishReasonOr resp.finishReason (hasToolCalls resp)))]]),
          ("usage", .obj (usageItems resp.usage))] key d := by
    rintro key d (rfl | rfl | rfl) <;> simp [coreResponseToOpenai, getD, openaiMessage]
  have hid : (.str ("chatcmpl-" ++ String.ofList (intChars created)) : Json F).truthy = true := by
    simp [truthy]
  have hchoice : responseChoice ctx (.list [.obj [("index", .int 0),
      ("message", .obj (openaiMessage resp)), ("finish_reason",
        .str (finishReasonOr resp.finishReason (hasToolCalls resp)))]])
      = some (responseBlocks resp,
        .str (finishReasonOr resp.finishReason (hasToolCalls resp))) := by
    have hmsg : (.obj (openaiMessage resp) : Json F).orElse (.obj []) = .obj (openaiMessage resp) :=
      orElse_of_truthy (by simp [truthy, openaiMessage]) _
    simp [responseChoice, truthy, getD, hmsg, responseContent_eq ctx h]
  have husage : (.obj (usageItems resp.usage) : Json F).orElse (.obj [])
      = .obj (usageItems resp.usage) := orElse_of_truthy (by simp [truthy, usageItems]) _
  refine ⟨{
    id := "chatcmpl-" ++ String.ofList (intChars created)
    model := responseModel orig
    content := if (responseBlocks resp).isEmpty then [.text ""] else responseBlocks resp
    stopReason :=
      stopReasonMap (F := F) (.str (finishReasonOr resp.finishReason (hasToolCalls resp)))
    usage := splitUsage resp.usage }, ?_, rfl, rfl, rfl⟩
  unfold convertOpenaiToAnthropic
  rw [Json.get, hget "id" _ (by simp), hget "choices" _ (by simp), hget "usage" _ (by simp)]
  simp only [getD, lookup_cons, if_true, String.reduceEq, if_false, Option.getD_some,
    orElse_of_truthy hid, husage, hchoice, key?, responseUsage_eq, Pydantic.str_str,
    Option.bind_eq_bind, Option.bind_some, Option.pure_def]

/-! ## 3. The streaming path -/

/-- Names that give every call of a list its own id and name. -/
theorem exists_callNames {order : List Int} (hnd : order.Nodup) :
    ∀ {calls : List (ToolCall F)}, order.length = calls.length →
      ∃ names : CallNames,
        List.Forall₂ (fun i call => names.id i = call.id ∧ names.name i = call.name) order calls := by
  induction order with
  | nil =>
    intro calls hlen
    obtain rfl := List.length_eq_zero_iff.mp hlen.symm
    exact ⟨⟨fun _ => "", fun _ => ""⟩, .nil⟩
  | cons i order ih =>
    intro calls hlen
    obtain ⟨hi, hnd⟩ := List.nodup_cons.mp hnd
    cases calls with
    | nil => cases hlen
    | cons call calls =>
      obtain ⟨names, hnames⟩ := ih hnd (Nat.succ.inj hlen)
      refine ⟨⟨Function.update names.id i call.id, Function.update names.name i call.name⟩,
        .cons (by simp) ?_⟩
      refine List.Forall₂.imp ?_ ((List.forall₂_and_left _ _).mpr ⟨fun j hj => hj, hnames⟩)
      rintro j c ⟨hj, hid, hname⟩
      have hne : j ≠ i := fun e => hi (e ▸ hj)
      simp [Function.update_of_ne hne, hid, hname]

theorem ne_empty_of_loads {text : String} {v : Json F} (h : loads text = some v) :
    text ≠ "" := by
  rintro rfl
  simp [loads, scanOnce, skipWs, scanUnsigned, scanWhole, scanDigits] at h

/-- What a client reads of the arguments of a call. -/
theorem clientInput_of_loads {text : String} {items : List (String × Json F)}
    (h : loads text = some (.obj items)) : clientInput text = some items := by
  rw [clientInput, if_neg (ne_empty_of_loads h), h]

/-- The sanitized text of the arguments reads back as the sanitized
arguments. -/
theorem clientInput_sanitize (name : String) {text : String} {items : List (String × Json F)}
    (h : loads text = some (.obj items)) (hp : Proper (Json.obj items)) :
    clientInput (sanitizeToolArgumentsJson (F := F) (.str name) text)
      = some (sanitizeToolInput (.str name) items) := by
  by_cases hname : name = "Read"
  · subst hname
    have hne := ne_empty_of_loads h
    have hjson : sanitizeToolArgumentsJson (F := F) (.str "Read") text
        = dumps (.obj (sanitizeToolInput (.str "Read") items)) .compact := by
      simp [sanitizeToolArgumentsJson, sanitizeToolArgumentsJsonWithReport, truthy, hne, h,
        sanitizeToolInput]
    rw [hjson]
    exact clientInput_of_loads (loads_dumps Separators.compact_valid (proper_sanitize hp))
  · have hsame : sanitizeToolInput (.str name) items = items := by
      simp [sanitizeToolInput, sanitizeToolInputWithReport, hname]
    rw [sanitize_other hname, hsame]
    exact clientInput_of_loads h

/-- The item a delta with an index is. -/
def ToolCallDelta.item (d : ToolCallDelta) : Fragments.Item String Int String :=
  .frag (d.index.getD 0) d.opens d.argumentsJson

/-- An event that carries a fragment of a call. -/
def IsFragment (e : StreamEvent F) : Prop :=
  e.type = .toolCallDelta ∧ ∃ d i, e.toolCallDelta = some d ∧ d.index = some i

theorem exists_index {tools : List (StreamEvent F)} (h : ∀ e ∈ tools, IsFragment e) :
    ∀ d ∈ toolCallDeltas tools, ∃ i, d.index = some i := by
  intro d hd
  obtain ⟨e, he, hed⟩ := List.mem_filterMap.mp hd
  obtain ⟨htype, d', i, hd', hi⟩ := h e he
  rw [if_pos htype, hd', Option.some.injEq] at hed
  exact ⟨i, hed ▸ hi⟩

theorem items_tools {tools : List (StreamEvent F)} (h : ∀ e ∈ tools, IsFragment e) :
    tools.filterMap eventItem = (toolCallDeltas tools).map ToolCallDelta.item := by
  induction tools with
  | nil => rfl
  | cons e tools ih =>
    obtain ⟨htype, d, i, hd, hi⟩ := h e List.mem_cons_self
    have ih := ih fun e he => h e (List.mem_cons_of_mem _ he)
    simp only [toolCallDeltas] at ih
    simp [toolCallDeltas, eventItem, htype, hd, hi, ih, ToolCallDelta.item]

theorem firstKeys_tools {tools : List (StreamEvent F)} :
    (∀ e ∈ tools, IsFragment e) →
    Fragments.firstKeys (tools.filterMap eventItem) = tools.foldl accumulateKey [] := by
  induction tools using List.reverseRecOn with
  | nil => exact fun _ => rfl
  | append_singleton tools e ih =>
    intro h
    obtain ⟨htype, d, i, hd, hi⟩ := h e (by simp)
    have ih := ih fun e he => h e (List.mem_append_left _ he)
    have hitem : [e].filterMap eventItem = [.frag i d.opens d.argumentsJson] := by
      simp [eventItem, htype, hd, hi]
    rw [List.filterMap_append, hitem, Fragments.firstKeys_snoc, ih, List.foldl_append]
    simp [accumulateKey, htype, hd, hi]

theorem items_texts {texts : List (StreamEvent F)} (h : ∀ e ∈ texts, e.type = .textDelta) :
    ∃ ts : List String, texts.filterMap eventItem = ts.map .text ∧ (∀ t ∈ ts, t ≠ "") ∧
      String.join ts = streamText texts := by
  obtain ⟨ts, hts, hne⟩ : ∃ ts : List String,
      texts.filterMap eventItem = ts.map .text ∧ ∀ t ∈ ts, t ≠ "" := by
    induction texts with
    | nil => exact ⟨[], rfl, by simp⟩
    | cons e texts ih =>
      obtain ⟨ts, hts, hne⟩ := ih fun e he => h e (List.mem_cons_of_mem _ he)
      have htype := h e List.mem_cons_self
      by_cases ht : nonEmpty e.text
      · refine ⟨e.text.getD "" :: ts, by simp [eventItem, htype, ht, hts], ?_⟩
        rw [List.forall_mem_cons]
        refine ⟨?_, hne⟩
        cases htext : e.text <;> simp_all [nonEmpty]
      · exact ⟨ts, by simp [eventItem, htype, ht, hts], hne⟩
  refine ⟨ts, hts, hne, ?_⟩
  rw [← streamText_eq, hts, List.filterMap_map]
  simp [Function.comp_def, Fragments.Item.text?]

section StreamOf

variable {resp : CompletionResponse F} {order : List Int} {texts tools : List (StreamEvent F)}
  {usage fin : StreamEvent F}

/-- The keys of the calls: each once, and those of the fragments. -/
theorem StreamOf.keys (h : StreamOf resp order texts tools usage fin) :
    Fragments.firstKeys (tools.filterMap eventItem) = order ∧ order.Nodup ∧
      ∀ i, i ∈ order ↔ ∃ d ∈ toolCallDeltas tools, d.index = some i := by
  have hkeys := (firstKeys_tools h.tools_type).trans h.in_order
  obtain ⟨hnd, hmem⟩ := Fragments.mem_firstKeys (tools.filterMap eventItem) (by
    rw [items_tools h.tools_type]
    simp [ToolCallDelta.item, Fragments.Item.isText])
  rw [hkeys] at hnd hmem
  refine ⟨hkeys, hnd, fun i => ?_⟩
  rw [hmem, items_tools h.tools_type]
  simp only [List.mem_map, exists_exists_and_eq_and, ToolCallDelta.item, Fragments.Item.key?]
  refine exists_congr fun d => and_congr_right fun hd => ?_
  obtain ⟨j, hj⟩ := exists_index h.tools_type d hd
  simp [hj]

/-- The first fragment of every call opens it. -/
theorem StreamOf.opensFirst (h : StreamOf resp order texts tools usage fin) :
    Fragments.OpensFirst (tools.filterMap eventItem) := by
  intro pre k opens p post hsplit hpre
  rw [items_tools h.tools_type, List.map_eq_append_iff] at hsplit
  obtain ⟨ds, rest, hds, rfl, hrest⟩ := hsplit
  obtain ⟨d, ds', rfl, hd, -⟩ := List.map_eq_cons_iff.mp hrest
  obtain ⟨i, hi⟩ := exists_index h.tools_type d (by rw [hds]; simp)
  simp only [ToolCallDelta.item, hi, Option.getD_some, Fragments.Item.frag.injEq] at hd
  obtain ⟨rfl, rfl, rfl⟩ := hd
  refine h.first ds d ds' i hds hi fun d' hd' he => ?_
  refine hpre d'.item (List.mem_map.mpr ⟨d', hd', rfl⟩) ?_
  simp [ToolCallDelta.item, Fragments.Item.key?, he]

/-- The events of the body agree with names that fit the calls. -/
theorem StreamOf.bodyEvent (h : StreamOf resp order texts tools usage fin) {names : CallNames}
    (hnames : List.Forall₂ (fun i call => names.id i = call.id ∧ names.name i = call.name) order
      (resp.toolCalls.getD [])) :
    ∀ e ∈ texts ++ tools ++ [usage], BodyEvent names e := by
  intro e he
  rcases List.mem_append.mp he with he | he
  · rcases List.mem_append.mp he with he | he
    · have htype := h.texts_type e he
      exact ⟨by simp [htype], by simp [htype]⟩
    · have htype := (h.tools_type e he).1
      refine ⟨by simp [htype], fun _ d i hd hi => ?_⟩
      have hmem : d ∈ toolCallDeltas tools :=
        List.mem_filterMap.mpr ⟨e, he, by rw [if_pos htype, hd]⟩
      have hat : d ∈ deltasAt i (toolCallDeltas tools) :=
        List.mem_filter.mpr ⟨hmem, by simpa using hi⟩
      obtain ⟨call, hcut, hid, hname⟩ :
          ∃ call, CutOf (toolCallDeltas tools) i call ∧ names.id i = call.id ∧
            names.name i = call.name := by
        obtain ⟨n, hn, rfl⟩ := List.getElem_of_mem ((h.keys.2.2 i).mpr ⟨d, hmem, hi⟩)
        have hlen := h.calls.length_eq
        exact ⟨_, h.calls.get hn (hlen ▸ hn), hnames.get hn (hlen ▸ hn)⟩
      exact ⟨fun hne => hid ▸ hcut.id d hat hne, fun hne => hname ▸ hcut.name d hat hne⟩
  · obtain rfl := List.mem_singleton.mp he
    exact ⟨by simp [h.usage_type], by simp [h.usage_type]⟩

/-- What the reader sees of the body. -/
theorem StreamOf.blocks (h : StreamOf resp order texts tools usage fin) :
    ∃ ts : List String, (∀ t ∈ ts, t ≠ "") ∧ String.join ts = resp.text ∧
      (Fragments.run {} ((texts ++ tools ++ [usage]).filterMap eventItem)).blocks
        = (if ts = [] then [] else [.text ts]) ++ order.map fun i => .call i
            ((deltasAt i (toolCallDeltas tools)).map ToolCallDelta.argumentsJson) := by
  obtain ⟨ts, hts, hne, hjoin⟩ := items_texts h.texts_type
  refine ⟨ts, hne, hjoin.trans h.text, ?_⟩
  have husage : [usage].filterMap eventItem = [] := by simp [eventItem, h.usage_type]
  have htext : ∀ i ∈ tools.filterMap eventItem, i.isText = false := by
    rw [items_tools h.tools_type]
    simp [ToolCallDelta.item, Fragments.Item.isText]
  have hcalls := Fragments.blocks_texts_calls ts htext h.opensFirst
  rw [List.filterMap_append, husage, List.append_nil, List.filterMap_append, hts, hcalls,
    h.keys.1]
  simp only [filterMap_deltas]

/-- The only event that counts is the usage event. -/
theorem StreamOf.accountOf_eq (h : StreamOf resp order texts tools usage fin) :
    accountOf (texts ++ tools ++ [usage])
      = Account.afterUsage ({}, {}) resp.usage usage.costMicros := by
  have hskip : ∀ (es : List (StreamEvent F)) (acct : Account F), (∀ e ∈ es, e.type ≠ .usage) →
      es.foldl Account.afterEvent acct = acct := by
    intro es
    induction es with
    | nil => exact fun _ _ => rfl
    | cons e es ih =>
      intro acct hes
      rw [List.foldl_cons, Account.afterEvent, if_neg (hes e List.mem_cons_self)]
      exact ih acct fun e he => hes e (List.mem_cons_of_mem _ he)
  have hbody : ∀ e ∈ texts ++ tools, e.type ≠ .usage := by
    intro e he
    rcases List.mem_append.mp he with he | he
    · simp [h.texts_type e he]
    · simp [(h.tools_type e he).1]
  rw [accountOf, List.foldl_append, hskip _ _ hbody, List.foldl_cons, List.foldl_nil,
    Account.afterEvent, if_pos h.usage_type, h.counts]

/-- Whether the stream has calls is whether the response has. -/
theorem StreamOf.accumulated (h : StreamOf resp order texts tools usage fin) :
    ((texts ++ tools ++ [usage]).foldl accumulateKey []).isEmpty
      = (resp.toolCalls.getD []).isEmpty := by
  have hskip : ∀ es : List (StreamEvent F), (∀ e ∈ es, e.type ≠ .toolCallDelta) →
      ∀ acc, es.foldl accumulateKey acc = acc := by
    intro es
    induction es with
    | nil => exact fun _ _ => rfl
    | cons e es ih =>
      intro hes acc
      rw [List.foldl_cons, accumulateKey, if_neg (hes e List.mem_cons_self)]
      exact ih (fun e he => hes e (List.mem_cons_of_mem _ he)) acc
  have htexts := hskip texts (fun e he => by simp [h.texts_type e he]) []
  have husage := hskip [usage] (by simp [h.usage_type]) order
  rw [List.foldl_append, List.foldl_append, htexts, h.in_order, husage]
  have hlen := h.calls.length_eq
  rw [Bool.eq_iff_iff, List.isEmpty_iff_length_eq_zero, List.isEmpty_iff_length_eq_zero, hlen]

end StreamOf

theorem Account.when_eq {acct : Account F} {n : Int} (hn : 0 ≤ n) {f : Account F → Account F}
    (hf : n = 0 → f acct = acct) : acct.when n f = f acct := by
  unfold Account.when
  split
  · rfl
  · exact (hf (by omega)).symm

/-- The account after the one usage event. -/
theorem afterUsage_eq (usage : Option TokenUsage) (cost : Option Int)
    (h : ∀ key, 0 ≤ tokenCount usage key) :
    ∃ total : FinalUsage F, Account.afterUsage ({}, {}) usage cost
        = (total, if tokenCount usage "prompt_tokens" = 0 then {}
            else { (splitUsage usage).toClient with outputTokens := .int 0 }) ∧
      total.inputTokens = .int (tokenCount usage "prompt_tokens") ∧
      total.outputTokens = .int (tokenCount usage "completion_tokens") ∧
      total.cachedTokens = .int (tokenCount usage "cached_tokens") ∧
      total.cacheWriteTokens = .int (tokenCount usage "cache_write_tokens") := by
  have hp := h "prompt_tokens"
  unfold Account.afterUsage
  simp only
  rw [Account.when_eq (h "cached_tokens") (by intro e; rw [e]),
    Account.when_eq (h "cache_write_tokens") (by intro e; rw [e])]
  by_cases hzero : tokenCount usage "prompt_tokens" = 0
  · have hskip : ∀ (acct : Account F) f, acct.when (tokenCount usage "prompt_tokens") f = acct :=
      fun _ _ => if_neg (by omega)
    rw [hskip, Account.when_eq (h "completion_tokens") (by intro e; rw [e]), if_pos hzero]
    cases cost <;> exact ⟨_, rfl, by rw [hzero], rfl, rfl, rfl⟩
  · have hdo : ∀ (acct : Account F) f, acct.when (tokenCount usage "prompt_tokens") f = f acct :=
      fun _ _ => if_pos (by omega)
    have hreport : ∀ {acct : Account F} (n k w : Int), acct.1.inputTokens = .int 0 →
        acct.reportInput n k w = ({ acct.1 with inputTokens := .int n },
          acct.2.update ⟨.int (max (n - k - w) 0), .int w, .int k, none⟩) :=
      fun _ _ _ he => if_pos (by simp [he, eqZero])
    rw [hdo, hreport _ _ _ rfl, Account.when_eq (h "completion_tokens") (by intro e; rw [e]),
      if_neg hzero]
    cases cost <;> exact ⟨_, rfl, rfl, rfl, rfl, rfl⟩

/-- The usage shown at the end: that of the response, or zeros when the
stream reports none. -/
theorem shownUsage_eq (usage : Option TokenUsage) (cost : Option Int)
    (h : ∀ key, 0 ≤ tokenCount usage key) {final : Option (EventUsage F)}
    (hfinal : finalDeltaUsage
      { finalUsage := (Account.afterUsage (F := F) ({}, {}) usage cost).1 } = .ok final) :
    (match final with
      | some u => (Account.afterUsage ({}, {}) usage cost).2.update u
      | none => (Account.afterUsage ({}, {}) usage cost).2)
    = if tokenCount usage "prompt_tokens" = 0 ∧ tokenCount usage "completion_tokens" = 0 then {}
      else (splitUsage usage).toClient := by
  obtain ⟨total, hacct, hp, hc, hk, hw⟩ := afterUsage_eq (F := F) usage cost h
  have hp0 := h "prompt_tokens"
  have hc0 := h "completion_tokens"
  rw [hacct] at hfinal ⊢
  simp only [finalDeltaUsage, hp, hc, hk, hw, gtZero?, orRaise, bind, Except.bind, pure,
    Except.pure, Bool.or_eq_true, decide_eq_true_eq] at hfinal
  split at hfinal
  · rename_i hpos
    have hne : ¬ (tokenCount usage "prompt_tokens" = 0 ∧
        tokenCount usage "completion_tokens" = 0) := by omega
    rw [if_neg hne]
    cases hfinal
    rfl
  · rename_i hpos
    cases hfinal
    have hzero : tokenCount usage "prompt_tokens" = 0 := by omega
    have hzero' : tokenCount usage "completion_tokens" = 0 := by omega
    simp [hzero, hzero']

/-! ## 4. The two paths agree -/

/-- The placeholder of a response without content is no content. -/
theorem nonEmptyContent_placeholder (blocks : List (ResponseBlock F)) :
    nonEmptyContent (if blocks.isEmpty then [.text ""] else blocks) = nonEmptyContent blocks := by
  split
  · rename_i hempty
    rw [List.isEmpty_iff.mp hempty]
    simp [nonEmptyContent]
  · rfl

/-- The blocks of the stream, read by a client. -/
theorem StreamOf.content {resp : CompletionResponse F} {order : List Int}
    {texts tools : List (StreamEvent F)} {usage fin : StreamEvent F} (hresp : resp.Valid)
    (h : StreamOf resp order texts tools usage fin) {names : CallNames}
    (hnames : List.Forall₂ (fun i call => names.id i = call.id ∧ names.name i = call.name) order
      (resp.toolCalls.getD []))
    {m : ClientMessage F} (hm : m.blocks = numbered 0 ((Fragments.run {}
      ((texts ++ tools ++ [usage]).filterMap eventItem)).blocks.map names.render)) :
    m.content = some (responseBlocks resp) := by
  obtain ⟨ts, hne, hjoin, hblocks⟩ := h.blocks
  have htext : ((if ts = [] then [] else [Fragments.Block.text ts]).map
      (names.render (F := F))).mapM ClientBlock.toResponseBlock
      = some (if resp.text = "" then [] else [.text resp.text]) := by
    cases ts with
    | nil =>
      have : resp.text = "" := by rw [← hjoin]; rfl
      simp [this]
    | cons t ts =>
      have : resp.text ≠ "" := by
        rw [← hjoin, String.join_cons]
        simp [hne t List.mem_cons_self]
      simp [this, CallNames.render, ClientBlock.toResponseBlock, hjoin]
  have hcalls : ∀ {order : List Int} {calls : List (ToolCall F)},
      List.Forall₂ (fun i call => CutOf (toolCallDeltas tools) i call ∧
        names.id i = call.id ∧ names.name i = call.name ∧
        Proper (Json.obj call.arguments)) order calls →
      ((order.map fun i => Fragments.Block.call i
        ((deltasAt i (toolCallDeltas tools)).map ToolCallDelta.argumentsJson)).map
          (names.render (F := F))).mapM ClientBlock.toResponseBlock
        = some (calls.map ToolCall.responseBlock) := by
    intro order calls hall
    induction hall with
    | nil => rfl
    | cons hone _ ih =>
      obtain ⟨hcut, hid, hname, hproper⟩ := hone
      simp only [List.map_cons, List.mapM_cons, ih, CallNames.render, CallNames.block,
        ClientBlock.toResponseBlock, hid, hname, clientInput_sanitize _ hcut.arguments hproper]
      rfl
  have hall : List.Forall₂ (fun i call => CutOf (toolCallDeltas tools) i call ∧
      names.id i = call.id ∧ names.name i = call.name ∧ Proper (Json.obj call.arguments)) order
      (resp.toolCalls.getD []) := by
    refine List.forall₂_iff_get.mpr ⟨h.calls.length_eq, fun n hn hn' => ?_⟩
    obtain ⟨hid, hname⟩ := hnames.get hn hn'
    exact ⟨h.calls.get hn hn', hid, hname, hresp.arguments _ (List.getElem_mem hn')⟩
  have hmap : m.content = (((Fragments.run {}
      ((texts ++ tools ++ [usage]).filterMap eventItem)).blocks.map
        (names.render (F := F))).mapM ClientBlock.toResponseBlock) := by
    conv_rhs => rw [← numbered_map_snd 0 (List.map _ _), ← hm]
    rw [ClientMessage.content, List.mapM_map]
    rfl
  rw [hmap, hblocks, List.map_append, List.mapM_append, htext, hcalls hall]
  rfl

/-- **The two paths agree.** For every response and every stream that
delivers it, both paths give the same content, the same stop reason and
the same usage, but that a stream with neither prompt nor completion
tokens reports zeros. -/
theorem streaming_nonStreaming_agree (ctx : ResponseContext F) (orig : Option String)
    (created : Int) (model messageId sseModel : String) (src : ChunkSource)
    {resp : CompletionResponse F} (hresp : resp.Valid) {order : List Int}
    {texts tools : List (StreamEvent F)} {usage fin : StreamEvent F}
    (h : StreamOf resp order texts tools usage fin) :
    ∃ r m, convertOpenaiToAnthropic ctx orig (coreResponseToOpenai created model resp) = some r ∧
      receive (convertOpenaiToAnthropicSse messageId sseModel
        (createStreamingCompletion src {} (texts ++ tools ++ [usage, fin])).1).events = m ∧
      m.content.map nonEmptyContent = some (nonEmptyContent r.content) ∧
      m.stopReason = some r.stopReason ∧
      m.usage = if tokenCount resp.usage "prompt_tokens" = 0 ∧
          tokenCount resp.usage "completion_tokens" = 0 then {} else r.usage.toClient := by
  obtain ⟨r, hr, hcontent, hstop, husage⟩ :=
    convertOpenaiToAnthropic_eq ctx orig created model hresp
  obtain ⟨-, hnd, hmem⟩ := h.keys
  obtain ⟨names, hnames⟩ := exists_callNames hnd h.calls.length_eq
  have hend : ∀ e ∈ some fin, e.type = .responseEnd := by
    rintro e ⟨rfl⟩
    exact h.fin_type
  obtain ⟨final, hfinal, hrec⟩ :=
    receive_stream messageId sseModel src (h.bodyEvent hnames) hend
  refine ⟨r, _, hr, rfl, ?_⟩
  have hevents : texts ++ tools ++ [usage, fin]
      = texts ++ tools ++ [usage] ++ (some fin).toList := by simp
  rw [hevents, hrec]
  refine ⟨?_, ?_, ?_⟩
  · rw [h.content hresp hnames rfl, hcontent, nonEmptyContent_placeholder]
    rfl
  · simp only [endReason, h.accumulated, hstop, hasToolCalls_eq, h.reason, Option.getD_some]
  · rw [husage]
    rw [h.accountOf_eq] at hfinal ⊢
    exact shownUsage_eq resp.usage usage.costMicros hresp.usage hfinal

/-! On concrete responses. -/

instance : Pydantic FloatText where
  int
    | .int n => some n
    | .bool b => some (if b then 1 else 0)
    | _ => none
  str
    | .str s => some s
    | _ => none
  int_int _ := rfl
  str_str _ := rfl

def exampleContext : ResponseContext FloatText := ⟨"msg_1", fun _ => "toolu_1", fun _ => "error"⟩

/-- A response that only read the cache. -/
def cacheOnlyResponse : CompletionResponse FloatText :=
  { text := "", usage := some [("cached_tokens", 5)] }

def cacheOnlyUsage : StreamEvent FloatText :=
  { type := .usage, usage := some [("cached_tokens", 5)] }

/-- Its cached tokens are reported without streaming, and not with it. -/
theorem cacheOnlyResponse_disagrees :
    cacheOnlyResponse.Valid ∧
    StreamOf cacheOnlyResponse [] [] [] cacheOnlyUsage { type := .responseEnd } ∧
    (convertOpenaiToAnthropic exampleContext none
        (coreResponseToOpenai 0 "model" cacheOnlyResponse)).map (fun r => r.usage.toClient)
      ≠ some (receive (convertOpenaiToAnthropicSse "msg_1" "claude" (createStreamingCompletion
        exampleSource {} [cacheOnlyUsage, { type := .responseEnd }]).1).events).usage := by
  have hvalid : cacheOnlyResponse.Valid := by
    refine ⟨by simp [cacheOnlyResponse], fun key => ?_⟩
    by_cases h : "cached_tokens" = key <;> simp [tokenCount, cacheOnlyResponse, h]
  refine ⟨hvalid, ?_, ?_⟩
  · constructor <;> simp [cacheOnlyResponse, cacheOnlyUsage, toolCallDeltas, streamText]
  · decide

/-- A response with text and a call, and a stream that cuts it up. -/
def textAndCallResponse : CompletionResponse FloatText :=
  { text := "Hello", toolCalls := some [⟨"call_1", "Bash", []⟩]
    usage := some [("prompt_tokens", 7)] }

def textEvents : List (StreamEvent FloatText) :=
  [{ type := .textDelta, text := some "Hel" }, { type := .textDelta, text := some "lo" }]

def callEvents : List (StreamEvent FloatText) :=
  [{ type := .toolCallDelta, toolCallDelta := some
      { index := some 0, id := some "call_1", name := some "Bash", argumentsJson := "\x7b" } },
   { type := .toolCallDelta, toolCallDelta := some { index := some 0, argumentsJson := "\x7d" } }]

theorem textAndCallResponse_agrees :
    ∃ r m, convertOpenaiToAnthropic exampleContext none
        (coreResponseToOpenai 0 "model" textAndCallResponse) = some r ∧
      receive (convertOpenaiToAnthropicSse "msg_1" "claude" (createStreamingCompletion
        exampleSource {} (textEvents ++ callEvents
          ++ [{ type := .usage, usage := textAndCallResponse.usage },
            { type := .responseEnd }])).1).events = m ∧
      m.content.map nonEmptyContent = some (nonEmptyContent r.content) ∧
      m.stopReason = some r.stopReason ∧ m.usage = r.usage.toClient := by
  have hstream : StreamOf textAndCallResponse [0] textEvents callEvents
      { type := .usage, usage := textAndCallResponse.usage } { type := .responseEnd } := by
    have hdeltas : toolCallDeltas callEvents
        = [{ index := some 0, id := some "call_1", name := some "Bash", argumentsJson := "\x7b" },
          { index := some 0, argumentsJson := "\x7d" }] := rfl
    constructor
    · simp [textEvents]
    · simp [textEvents, streamText, textAndCallResponse]
    · simp [callEvents]
    · decide
    · rw [hdeltas]
      refine .cons ⟨?_, ?_, ?_⟩ .nil
      · simp [deltasAt, nonEmpty]
      · simp [deltasAt, nonEmpty]
      · decide
    · rw [hdeltas]
      intro pre d post i hsplit hi hfirst
      cases pre with
      | nil =>
        obtain ⟨rfl, -⟩ := List.cons.inj hsplit
        rfl
      | cons d₀ pre =>
        -- every later fragment has the index of the first
        obtain ⟨rfl, hrest⟩ := List.cons.inj hsplit
        have hmem : d ∈ [({ index := some 0, argumentsJson := "\x7d" } : ToolCallDelta)] := by
          rw [hrest]; exact List.mem_append_right _ List.mem_cons_self
        rw [List.mem_singleton.mp hmem] at hi
        exact absurd (hi ▸ rfl) (hfirst _ List.mem_cons_self)
    · rfl
    · rfl
    · rfl
    · rfl
  refine streaming_nonStreaming_agree exampleContext none 0 "model" "msg_1" "claude" exampleSource
    ⟨?_, fun key => ?_⟩ hstream
  · simp [textAndCallResponse, Proper, ProperItems]
  · by_cases h : "prompt_tokens" = key <;> simp [tokenCount, textAndCallResponse, h]

end MultiForge.Proxy
