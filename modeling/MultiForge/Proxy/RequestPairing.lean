/-
MultiForge.Proxy.RequestPairing — the pairing of tool calls and tool
results, and what a whole request keeps.

The tool calls of an upstream message are those of its items
(`Carries.callIds`), and tool results at the start of a user message are
the first messages it becomes (`segment_results`), so a paired
conversation arrives paired. `translate_lossless_iff` says when all of a
request arrives: `message_to_openai` sends no `tool_call_id` where it is
the empty string.
-/
import MultiForge.Proxy.RequestBlocks

namespace MultiForge.Proxy.Conversion

open Json

variable {F : Type} [PyFloatText F] [DecidableEq F]

/-! ## 1. Ids of tool calls -/

omit [PyFloatText F] [DecidableEq F] in
/-- Content parts are no tool calls. -/
theorem partItem_callId {role : String} {part : Json F} {item : Item F}
    (h : partItem role part = some item) : item.callId = none := by
  cases part with
  | obj part =>
    simp only [partItem] at h
    split at h
    · split at h
      · cases h
        rfl
      · cases h
    · split at h
      · split at h
        · cases h
          rfl
        · cases h
      · cases h
    · cases h
  | _ => cases h

omit [PyFloatText F] [DecidableEq F] in
theorem mapM_partItem_callIds {role : String} : ∀ {parts : List (Json F)} {items : List (Item F)},
    parts.mapM (partItem role) = some items → items.filterMap Item.callId = []
  | [], items, h => by
      cases h
      rfl
  | part :: rest, items, h => by
      rw [List.mapM_cons] at h
      obtain ⟨item, hitem, h⟩ := Option.bind_eq_some_iff.mp h
      obtain ⟨others, hothers, h⟩ := Option.bind_eq_some_iff.mp h
      obtain rfl : item :: others = items := Option.some.inj h
      rw [List.filterMap_cons, partItem_callId hitem, mapM_partItem_callIds hothers]

omit [PyFloatText F] [DecidableEq F] in
theorem ContentCarries.callIds {role : String} {content : Json F} {items : List (Item F)}
    (h : ContentCarries role content items) : items.filterMap Item.callId = [] := by
  rcases h with ⟨s, -, rfl | ⟨-, rfl⟩⟩ | ⟨parts, -, hparts⟩
  · rfl
  · rfl
  · exact mapM_partItem_callIds hparts

omit [DecidableEq F] in
theorem entryItem_callId {entry : Json F} {item : Item F} (h : entryItem entry = some item) :
    entryId entry = item.callId := by
  cases entry with
  | obj entry =>
    simp only [entryItem] at h
    split at h
    · rename_i id func hid hfunc
      split at h
      · split at h
        · cases h
          simp [entryId, hid, Item.callId]
        · cases h
      · cases h
    · cases h
  | _ => cases h

omit [DecidableEq F] in
theorem mapM_entryItem_callIds : ∀ {entries : List (Json F)} {items : List (Item F)},
    entries.mapM entryItem = some items →
    entries.filterMap entryId = items.filterMap Item.callId
  | [], items, h => by
      cases h
      rfl
  | entry :: rest, items, h => by
      rw [List.mapM_cons] at h
      obtain ⟨item, hitem, h⟩ := Option.bind_eq_some_iff.mp h
      obtain ⟨others, hothers, h⟩ := Option.bind_eq_some_iff.mp h
      obtain rfl : item :: others = items := Option.some.inj h
      rw [List.filterMap_cons, List.filterMap_cons, entryItem_callId hitem,
        mapM_entryItem_callIds hothers]

omit [DecidableEq F] in
/-- The tool calls of an upstream message are those of its items. -/
theorem Carries.callIds {msg : OpenaiMessage F} {items : List (Item F)} (h : Carries msg items) :
    callIds msg = items.filterMap Item.callId := by
  rcases h with ⟨id, text, value, -, -, hcalls, -, -, rfl⟩
    | ⟨role, content, calls, -, -, -, hcontent, hcalls, rfl⟩
  · rw [Conversion.callIds, hcalls]
    rfl
  · rw [List.filterMap_append, hcontent.callIds, List.nil_append, Conversion.callIds]
    rcases hcalls with ⟨hnone, rfl⟩ | ⟨entries, hsome, hentries⟩
    · rw [hnone]
      rfl
    · rw [hsome]
      exact mapM_entryItem_callIds hentries

omit [DecidableEq F] in
theorem flatMap_callIds {out : List (OpenaiMessage F)} {carried : List (List (Item F))}
    (h : List.Forall₂ Carries out carried) :
    out.flatMap callIds = carried.flatten.filterMap Item.callId := by
  induction h with
  | nil => rfl
  | cons hmsg _ ih =>
    rw [List.flatMap_cons, List.flatten_cons, List.filterMap_append, hmsg.callIds, ih]

omit [DecidableEq F] in
theorem contentItems_callIds (role : Role) (asReminder : Bool) (bs : List (ContentBlock F)) :
    (bs.flatMap (contentItems role asReminder)).filterMap Item.callId = [] := by
  rw [List.filterMap_eq_nil_iff]
  intro item hitem
  obtain ⟨b, -, hb⟩ := List.mem_flatMap.mp hitem
  cases b with
  | text text cc =>
    rw [List.mem_singleton.mp hb]
    rfl
  | image mediaType data =>
    simp only [contentItems] at hb
    split at hb
    · rw [List.mem_singleton.mp hb]
      rfl
    · cases hb
  | toolResult id content err cc =>
    simp only [contentItems] at hb
    split at hb
    · rw [List.mem_singleton.mp hb]
      rfl
    · cases hb
  | _ => cases hb

/-- The tool uses of a message's items are those of its blocks. -/
theorem messageItems_callIds (asReminder : Bool) (msg : Message F) :
    (messageItems asReminder msg).filterMap Item.callId = toolUseIds msg := by
  obtain ⟨role, content⟩ := msg
  cases content with
  | str s => cases role <;> rfl
  | blocks bs =>
    rw [messageItems_blocks, List.filterMap_append, contentItems_callIds, List.nil_append]
    induction bs with
    | nil => cases role <;> rfl
    | cons b rest ih =>
      rw [List.flatMap_cons, List.map_append, List.filterMap_append, ih]
      cases b <;> cases role <;> rfl

/-! ## 2. Pairing -/

omit [PyFloatText F] [DecidableEq F] in
theorem pairedOut_append : ∀ {out rest : List (OpenaiMessage F)}, out.flatMap callIds = [] →
    PairedOut rest → PairedOut (out ++ rest)
  | [], _, _, h => h
  | msg :: out, rest, hids, h => by
      rw [List.flatMap_cons, List.append_eq_nil_iff] at hids
      exact ⟨fun hne => absurd hids.1 hne, pairedOut_append hids.2 h⟩

/-- The tool message of a tool result. -/
def resultMessage (forwardCacheMarkers : Bool) : ContentBlock F → OpenaiMessage F
  | .toolResult id content _ cc => toolMessage forwardCacheMarkers id content cc
  | _ => []

/-- The blocks are tool results. -/
def AllResults (bs : List (ContentBlock F)) : Prop :=
  ∀ b ∈ bs, ∃ id content err cc, b = .toolResult id content err cc

/-- Tool results at the start become tool messages, one for one. -/
theorem foldl_results (forwardCacheMarkers asReminder : Bool) : ∀ (bs : List (ContentBlock F))
    (tool : Bool), AllResults bs →
    ∃ tool', bs.foldl (convertBlock forwardCacheMarkers .user asReminder) ⟨[], [], [], tool⟩
      = ⟨bs.map (resultMessage forwardCacheMarkers), [], [], tool'⟩
  | [], tool, _ => ⟨tool, rfl⟩
  | b :: rest, tool, h => by
      obtain ⟨id, content, err, cc, rfl⟩ := h b List.mem_cons_self
      obtain ⟨tool', hrest⟩ := foldl_results forwardCacheMarkers asReminder rest true
        fun b' hb' => h b' (List.mem_cons_of_mem _ hb')
      have hfirst : convertBlock forwardCacheMarkers .user asReminder
            (⟨[], [], [], tool⟩ : MessageState F) (.toolResult id content err cc)
          = (⟨[], [], [], true⟩ : MessageState F).after
              [toolMessage forwardCacheMarkers id content cc] := rfl
      refine ⟨tool', ?_⟩
      rw [List.foldl_cons, hfirst, foldl_after, hrest]
      rfl

theorem segment_results (forwardCacheMarkers started : Bool) {bs : List (ContentBlock F)}
    (h : AllResults bs) (others : List (ContentBlock F)) :
    ∃ more, segment forwardCacheMarkers started ⟨.user, .blocks (bs ++ others)⟩
      = bs.map (resultMessage forwardCacheMarkers) ++ more := by
  obtain ⟨tool, hfold⟩ := foldl_results forwardCacheMarkers
    (isReminder started (F := F) ⟨.user, .blocks (bs ++ others)⟩) bs false h
  have hafter : (⟨bs.map (resultMessage forwardCacheMarkers), [], [], tool⟩ : MessageState F)
      = (⟨[], [], [], tool⟩ : MessageState F).after
          (bs.map (resultMessage forwardCacheMarkers)) := by
    simp [MessageState.after]
  rw [segment_blocks, List.foldl_append, hfold, hafter, foldl_after, finishMessage_after]
  exact ⟨_, rfl⟩

/-- The tool messages arrive with their ids. -/
theorem mapM_results (forwardCacheMarkers : Bool) : ∀ {bs : List (ContentBlock F)}
    {answers : List (OpenaiMessage F)}, AllResults bs →
    (∀ id ∈ resultIds ⟨.user, .blocks bs⟩, id ≠ "") →
    (bs.map (resultMessage forwardCacheMarkers)).mapM forward = some answers →
    (∀ a ∈ answers, lookup "role" a = some (.str "tool"))
      ∧ answers.map (lookup "tool_call_id")
        = (resultIds ⟨.user, .blocks bs⟩).map fun id => some (.str id)
  | [], answers, _, _, hanswers => by
      cases hanswers
      exact ⟨nofun, rfl⟩
  | b :: rest, answers, h, hids, hanswers => by
      obtain ⟨id, content, err, cc, rfl⟩ := h b List.mem_cons_self
      rw [List.map_cons, List.mapM_cons] at hanswers
      obtain ⟨a, ha, hanswers⟩ := Option.bind_eq_some_iff.mp hanswers
      obtain ⟨others, hothers, hanswers⟩ := Option.bind_eq_some_iff.mp hanswers
      obtain rfl : a :: others = answers := Option.some.inj hanswers
      obtain ⟨hroles, hmap⟩ := mapM_results forwardCacheMarkers
        (fun b' hb' => h b' (List.mem_cons_of_mem _ hb'))
        (fun id' hid' => hids id' (List.mem_cons_of_mem id hid')) hothers
      obtain ⟨body, hforward, -⟩ := forward_toolMessage forwardCacheMarkers id content cc
      rw [if_neg (hids id List.mem_cons_self)] at hforward
      obtain rfl := Option.some.inj (ha.symm.trans hforward)
      constructor
      · intro a' ha'
        rcases List.mem_cons.mp ha' with rfl | ha'
        · rfl
        · exact hroles a' ha'
      · rw [List.map_cons, hmap]
        rfl

omit [PyFloatText F] [DecidableEq F] in
theorem mapM_append_some {α β : Type} {f : α → Option β} {as bs : List α} {out : List β}
    (h : (as ++ bs).mapM f = some out) :
    ∃ out₁ out₂, as.mapM f = some out₁ ∧ bs.mapM f = some out₂ ∧ out = out₁ ++ out₂ := by
  rw [List.mapM_append] at h
  obtain ⟨out₁, h₁, h⟩ := Option.bind_eq_some_iff.mp h
  obtain ⟨out₂, h₂, h⟩ := Option.bind_eq_some_iff.mp h
  exact ⟨out₁, out₂, h₁, h₂, (Option.some.inj h).symm⟩

/-- What arrives of one message has the tool calls of its blocks. -/
theorem segment_callIds {forwardCacheMarkers started : Bool} {msg : Message F}
    {out : List (OpenaiMessage F)} (hids : ∀ id ∈ resultIds msg, id ≠ "")
    (hout : (segment forwardCacheMarkers started msg).mapM forward = some out) :
    out.flatMap callIds = toolUseIds msg ∧ (msg.role ≠ .user → out.length ≤ 1) := by
  obtain ⟨carried, hsent, hflat, hlen⟩ := segment_sent forwardCacheMarkers started msg hids
  obtain ⟨out', hout', hcarries⟩ := mapM_of_sent hsent
  obtain rfl := Option.some.inj (hout.symm.trans hout')
  refine ⟨by rw [flatMap_callIds hcarries, hflat, messageItems_callIds], fun hrole => ?_⟩
  rw [hcarries.length_eq, ← hsent.length_eq]
  exact hlen hrole

/-- A paired conversation arrives paired. -/
theorem segments_paired {forwardCacheMarkers : Bool} : ∀ {messages : List (Message F)}
    {started : Bool} {out : List (OpenaiMessage F)}, Paired messages →
    (∀ msg ∈ messages, ∀ id ∈ resultIds msg, id ≠ "") →
    (segments forwardCacheMarkers started messages).mapM forward = some out → PairedOut out
  | [], _, out, _, _, hout => by
      cases hout
      trivial
  | msg :: rest, started, out, hpaired, hids, hout => by
      obtain ⟨first, others, hfirst, hothers, rfl⟩ := mapM_append_some hout
      have hids' : ∀ m ∈ rest, ∀ id ∈ resultIds m, id ≠ "" := fun m hm =>
        hids m (List.mem_cons_of_mem _ hm)
      have ih : PairedOut others := segments_paired hpaired.2 hids' hothers
      obtain ⟨hcalls, hlen⟩ := segment_callIds (hids msg List.mem_cons_self) hfirst
      by_cases hnone : toolUseIds msg = []
      · exact pairedOut_append (hcalls.trans hnone) ih
      · obtain ⟨next, after, bs, tail, rfl, hrole, hcontent, hresults, hperm⟩ := hpaired.1 hnone
        have huser : msg.role ≠ .user := by
          intro h
          apply hnone
          unfold toolUseIds
          rw [h]
        -- the assistant message is one message upstream
        obtain ⟨d, rfl⟩ : ∃ d, first = [d] := by
          match first, hlen huser, hcalls with
          | [], _, hcalls => exact absurd hcalls.symm hnone
          | [d], _, _ => exact ⟨d, rfl⟩
          | _ :: _ :: _, hlen, _ => simp at hlen
        rw [List.flatMap_singleton] at hcalls
        -- and the tool results are the next ones
        obtain ⟨next_role, next_content⟩ := next
        obtain rfl : next_role = .user := hrole
        obtain rfl : next_content = .blocks (bs ++ tail) := hcontent
        obtain ⟨more, hmore⟩ := segment_results forwardCacheMarkers (startedAfter started msg)
          hresults tail
        rw [segments, hmore, List.append_assoc] at hothers
        obtain ⟨answers, after', hanswers, -, rfl⟩ := mapM_append_some hothers
        have hbs : ∀ id ∈ resultIds ⟨.user, .blocks bs⟩, id ≠ "" := by
          intro id hid
          refine hids' _ List.mem_cons_self id ?_
          simp only [resultIds, List.filterMap_append, List.mem_append]
          exact .inl hid
        obtain ⟨hroles, hmap⟩ := mapM_results forwardCacheMarkers hresults hbs hanswers
        refine ⟨fun _ => ⟨answers, after', rfl, hroles, ?_⟩, ih⟩
        rw [hmap, hcalls]
        exact hperm.map _

/-! ## 3. Tool results without an id -/

omit [PyFloatText F] [DecidableEq F] in
theorem mem_flush {m : OpenaiMessage F} {st : MessageState F} (h : m ∈ st.openaiMessages) :
    m ∈ st.flush.openaiMessages := by
  unfold MessageState.flush
  split
  · exact h
  · exact List.mem_append_left _ h

/-- What is written stays. -/
theorem mem_convertBlock {m : OpenaiMessage F} {st : MessageState F} (forwardCacheMarkers : Bool)
    (role : Role) (asReminder : Bool) (b : ContentBlock F) (h : m ∈ st.openaiMessages) :
    m ∈ (convertBlock forwardCacheMarkers role asReminder st b).openaiMessages := by
  cases b with
  | thinking thinking signature => exact h
  | redactedThinking data => exact h
  | text text cc => exact h
  | image mediaType data =>
    simp only [convertBlock]
    split <;> exact h
  | toolUse id name input =>
    simp only [convertBlock]
    split <;> exact h
  | toolResult id content err cc =>
    simp only [convertBlock]
    split
    · exact List.mem_append_left _ (mem_flush h)
    · exact h

theorem mem_foldl_convertBlock {m : OpenaiMessage F} (forwardCacheMarkers : Bool) (role : Role)
    (asReminder : Bool) : ∀ (bs : List (ContentBlock F)) {st : MessageState F},
    m ∈ st.openaiMessages →
    m ∈ (bs.foldl (convertBlock forwardCacheMarkers role asReminder) st).openaiMessages
  | [], _, h => h
  | b :: rest, _, h => mem_foldl_convertBlock forwardCacheMarkers role asReminder rest
      (mem_convertBlock forwardCacheMarkers role asReminder b h)

/-- Every tool result of a user message is written as a tool message. -/
theorem toolMessage_mem_segment (forwardCacheMarkers started : Bool) {msg : Message F} {id : String}
    (h : id ∈ resultIds msg) :
    ∃ content cc, toolMessage forwardCacheMarkers id content cc
      ∈ segment forwardCacheMarkers started msg := by
  obtain ⟨role, content⟩ := msg
  unfold resultIds at h
  split at h
  · rename_i bs hrole hcontent
    obtain rfl : role = .user := hrole
    obtain rfl : content = .blocks bs := hcontent
    obtain ⟨b, hb, hid⟩ := List.mem_filterMap.mp h
    cases b with
    | toolResult id' content' err cc =>
      obtain rfl : id' = id := Option.some.inj hid
      refine ⟨content', cc, ?_⟩
      obtain ⟨before, after, rfl⟩ := List.append_of_mem hb
      rw [segment_blocks, List.foldl_append, List.foldl_cons]
      generalize isReminder (F := F) started _ = asReminder
      generalize before.foldl _ _ = st
      have hwritten : toolMessage forwardCacheMarkers id' content' cc
          ∈ (convertBlock forwardCacheMarkers .user asReminder st
              (.toolResult id' content' err cc)).openaiMessages :=
        List.mem_append_right _ (List.mem_singleton_self _)
      have hend := mem_foldl_convertBlock forwardCacheMarkers .user asReminder after hwritten
      unfold finishMessage
      split
      · exact mem_flush hend
      · exact List.mem_append_left _ hend
    | _ => cases hid
  · cases h

theorem mem_segments (forwardCacheMarkers : Bool) {id : String} : ∀ {messages : List (Message F)}
    (started : Bool) {msg : Message F}, msg ∈ messages → id ∈ resultIds msg →
    ∃ content cc, toolMessage forwardCacheMarkers id content cc
      ∈ segments forwardCacheMarkers started messages
  | m :: rest, started, msg, hmem, hid => by
      rcases List.mem_cons.mp hmem with rfl | hmem
      · obtain ⟨content, cc, h⟩ := toolMessage_mem_segment forwardCacheMarkers started hid
        exact ⟨content, cc, List.mem_append_left _ h⟩
      · obtain ⟨content, cc, h⟩ := mem_segments forwardCacheMarkers (startedAfter started m) hmem
          hid
        exact ⟨content, cc, List.mem_append_right _ h⟩

/-- A message among others arrives among them, and carries something
where they do. -/
theorem carries_of_mem {msgs out : List (OpenaiMessage F)} {carried : List (List (Item F))}
    {m : OpenaiMessage F} (hout : msgs.mapM forward = some out)
    (hcarries : List.Forall₂ Carries out carried) (hm : m ∈ msgs) :
    ∃ m' items, forward m = some m' ∧ Carries m' items := by
  induction msgs generalizing out carried with
  | nil => cases hm
  | cons first rest ih =>
    rw [List.mapM_cons] at hout
    obtain ⟨first', hfirst, hout⟩ := Option.bind_eq_some_iff.mp hout
    obtain ⟨rest', hrest, hout⟩ := Option.bind_eq_some_iff.mp hout
    obtain rfl : first' :: rest' = out := Option.some.inj hout
    cases hcarries with
    | cons hhead htail =>
      rcases List.mem_cons.mp hm with rfl | hm
      · exact ⟨first', _, hfirst, hhead⟩
      · exact ih hrest htail hm

/-! ## 4. A whole request -/

omit [PyFloatText F] [DecidableEq F] in
theorem promptItems_callIds (config : ConversionConfig) (system : Option SystemPrompt) :
    (promptItems (F := F) config system).filterMap Item.callId = [] := by
  unfold promptItems
  split
  · split <;> rfl
  · rfl

/-- **Request conversion keeps everything, unless a tool result has no
id.** The three translations succeed with messages that hold the items of
the system prompt and of the conversation in order, each once, and a
paired conversation arrives paired, if and only if the id of every tool
result is not empty. -/
theorem translate_lossless_iff (config : ConversionConfig) (system : Option SystemPrompt)
    (messages : List (Message F)) :
    (∃ out, translate config system messages = some out
      ∧ Lossless out (promptItems config system ++ itemsFrom false messages)
      ∧ (Paired messages → PairedOut out))
    ↔ ∀ msg ∈ messages, ∀ id ∈ resultIds msg, id ≠ "" := by
  rw [translate_eq]
  constructor
  · rintro ⟨out, hout, ⟨carried, hcarries, -⟩, -⟩ msg hmsg id hid rfl
    obtain ⟨content, cc, hmem⟩ := mem_segments config.forwardCacheMarkers false hmsg hid
    obtain ⟨m', items, hm', hitems⟩ := carries_of_mem hout hcarries
      (List.mem_append_right (systemMessages config system) hmem)
    exact not_carries_toolMessage _ _ _ hm' hitems
  · intro hids
    obtain ⟨prompt, hprompt, hpromptItems⟩ := systemMessages_sent (F := F) config system
    obtain ⟨carried, hcarried, hitems⟩ := segments_sent config.forwardCacheMarkers messages false
      hids
    obtain ⟨out, hout, hcarries⟩ := mapM_of_sent (List.rel_append hprompt hcarried)
    refine ⟨out, hout, ⟨_, hcarries, by rw [List.flatten_append, hpromptItems, hitems]⟩, ?_⟩
    intro hpaired
    obtain ⟨first, rest, hfirst, hrest, rfl⟩ := mapM_append_some hout
    obtain ⟨first', hfirst', hpromptCarries⟩ := mapM_of_sent hprompt
    obtain rfl := Option.some.inj (hfirst.symm.trans hfirst')
    refine pairedOut_append ?_ (segments_paired hpaired hids hrest)
    rw [flatMap_callIds hpromptCarries, hpromptItems, promptItems_callIds]

/-- A tool call without an id and its result. -/
def unnamedCall : List (Message FloatText) :=
  [⟨.assistant, .blocks [.toolUse "" "Bash" ⟨[], ⟨.nil, trivial⟩⟩]⟩,
    ⟨.user, .blocks [.toolResult "" (.str "done") none none]⟩]

/-- The answer to a call whose id is empty arrives as a tool message that
answers nothing, though the call itself arrives with its id. -/
theorem unnamedCall_lost :
    translate ⟨"openai", false, none⟩ none unnamedCall
      = some [[("role", .str "assistant"), ("content", .str ""),
            ("tool_calls", .list [toolCallEntry "" "Bash" "\x7b\x7d"])],
          [("role", .str "tool"), ("content", .str "done")]]
    ∧ ¬ ∃ out, translate ⟨"openai", false, none⟩ none unnamedCall = some out
      ∧ Lossless out (promptItems ⟨"openai", false, none⟩ none ++ itemsFrom false unnamedCall)
      ∧ (Paired unnamedCall → PairedOut out) := by
  have hout : translate ⟨"openai", false, none⟩ none unnamedCall
      = some [[("role", .str "assistant"), ("content", .str ""),
            ("tool_calls", .list [toolCallEntry "" "Bash" "\x7b\x7d"])],
          [("role", .str "tool"), ("content", .str "done")]] := by
    decide +kernel
  refine ⟨hout, ?_⟩
  rintro ⟨out, hout', ⟨carried, hcarries, -⟩, -⟩
  rw [hout] at hout'
  obtain rfl := Option.some.inj hout'
  obtain _ | ⟨-, _ | ⟨htool, -⟩⟩ := hcarries
  rcases htool with ⟨id, -, -, -, hid, -⟩ | ⟨role, -, -, hrole, hne, -⟩
  · cases hid
  · exact hne (Json.str.inj (Option.some.inj hrole)).symm

end MultiForge.Proxy.Conversion
