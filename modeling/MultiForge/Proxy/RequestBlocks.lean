/-
MultiForge.Proxy.RequestBlocks — the message loop of request conversion,
and the whole way of a request.

The block loop of one message keeps an invariant (`BlockInv`): what was
flushed and what is still pending are the items of the blocks so far.
`segment` is what one message appends; it holds the items of the message
(`segment_sent`), and the whole translation is the segments one after
another. Empty ids are the one exception: `message_to_openai` drops them.
-/
import MultiForge.Proxy.RequestLossless

namespace MultiForge.Proxy.Conversion

open Json

variable {F : Type} [PyFloatText F] [DecidableEq F]

/-! ## 1. The block loop -/

/-- The blocks so far: what was flushed and what is pending are their
items, the tool calls are theirs, and only a user message flushes. -/
structure BlockInv (role : Role) (asReminder : Bool) (bs : List (ContentBlock F))
    (st : MessageState F) : Prop where
  sent : ∃ carried ps, List.Forall₂ Sent st.openaiMessages carried
    ∧ st.contentList.mapM (partItem (sentRole role asReminder)) = some ps
    ∧ carried.flatten ++ ps = bs.flatMap (contentItems role asReminder)
  calls : st.toolCallsList = (bs.flatMap (blockCall role)).map toolCallToOpenai
  unflushed : st.isToolResponseMessage = false → st.openaiMessages = []
  user : st.isToolResponseMessage = true → role = .user

/-- The tool calls of blocks can be read back. -/
theorem properCalls_blocks (role : Role) (bs : List (ContentBlock F)) :
    ProperCalls (bs.flatMap (blockCall role)) := by
  intro c hc
  obtain ⟨b, -, hb⟩ := List.mem_flatMap.mp hc
  cases b with
  | toolUse id name input =>
    by_cases hrole : role = .assistant
    · rw [blockCall, if_pos hrole] at hb
      rw [List.mem_singleton.mp hb]
      exact proper_sanitize input.proper
    · rw [blockCall, if_neg hrole] at hb
      cases hb
  | _ => cases hb

theorem blockInv_start (role : Role) (asReminder : Bool) :
    BlockInv (F := F) role asReminder [] ⟨[], [], [], false⟩ where
  sent := ⟨[], [], .nil, rfl, rfl⟩
  calls := rfl
  unflushed := fun _ => rfl
  user := nofun

omit [PyFloatText F] [DecidableEq F] in
theorem mapM_concat {α β : Type} {f : α → Option β} {as : List α} {bs : List β} {a : α} {b : β}
    (h : as.mapM f = some bs) (ha : f a = some b) : (as ++ [a]).mapM f = some (bs ++ [b]) := by
  rw [List.mapM_append, h, List.mapM_cons, ha]
  rfl

/-- Flushing sends what is pending as a user message. -/
theorem flush_sent {st : MessageState F} {carried : List (List (Item F))} {ps : List (Item F)}
    (hsent : List.Forall₂ Sent st.openaiMessages carried)
    (hps : st.contentList.mapM (partItem "user") = some ps) :
    ∃ carried', List.Forall₂ Sent st.flush.openaiMessages carried'
      ∧ carried'.flatten = carried.flatten ++ ps ∧ st.flush.contentList = []
      ∧ st.flush.toolCallsList = st.toolCallsList := by
  unfold MessageState.flush
  split
  · rename_i hnil
    rw [hnil] at hps
    obtain rfl : ps = [] := by
      cases hps
      rfl
    exact ⟨carried, hsent, (List.append_nil _).symm, hnil, rfl⟩
  · have hmsg : Sent [("role", .str "user"), ("content", .list st.contentList)] ps := by
      have h : Sent (plain "user" (.list st.contentList) []) (ps ++ [].map callItem) :=
        sent_plain (by simp) (ContentCarries.list hps) nofun
      simpa [plain] using h
    refine ⟨carried ++ [ps], List.rel_append hsent (.cons hmsg .nil), ?_, rfl, rfl⟩
    rw [List.flatten_append, List.flatten_singleton]

theorem sentRole_user {asReminder : Bool} :
    sentRole .user asReminder = "user" := by
  unfold sentRole
  split <;> rfl

/-- A block keeps the invariant. -/
theorem BlockInv.step {role : Role} {asReminder : Bool} {bs : List (ContentBlock F)}
    {st : MessageState F} (h : BlockInv role asReminder bs st) (forwardCacheMarkers : Bool)
    (b : ContentBlock F)
    (hid : ∀ id content err cc, b = .toolResult id content err cc → role = .user → id ≠ "") :
    BlockInv role asReminder (bs ++ [b]) (convertBlock forwardCacheMarkers role asReminder st b) := by
  obtain ⟨carried, ps, hsent, hps, hitems⟩ := h.sent
  have hcontent : (bs ++ [b]).flatMap (contentItems role asReminder)
      = carried.flatten ++ ps ++ contentItems role asReminder b := by
    rw [List.flatMap_append, ← hitems, List.flatMap_singleton]
  have hcalls : (bs ++ [b]).flatMap (blockCall role)
      = bs.flatMap (blockCall role) ++ blockCall role b := by
    rw [List.flatMap_append, List.flatMap_singleton]
  -- a block that adds no item and no call
  have hskip : contentItems role asReminder b = [] → blockCall role b = [] →
      BlockInv role asReminder (bs ++ [b]) st := fun hi hc =>
    { sent := ⟨carried, ps, hsent, hps, by rw [hcontent, hi, List.append_nil]⟩
      calls := by rw [hcalls, hc, List.append_nil, h.calls]
      unflushed := h.unflushed
      user := h.user }
  -- a block that adds a content part
  have hpart : ∀ part item, partItem (sentRole role asReminder) part = some item →
      contentItems role asReminder b = [item] → blockCall role b = [] →
      BlockInv role asReminder (bs ++ [b]) { st with contentList := st.contentList ++ [part] } :=
    fun part item hpart hi hc =>
      { sent := ⟨carried, ps ++ [item], hsent, mapM_concat hps hpart,
          by rw [hcontent, hi, List.append_assoc]⟩
        calls := by rw [hcalls, hc, List.append_nil]; exact h.calls
        unflushed := h.unflushed
        user := h.user }
  cases b with
  | thinking thinking signature => exact hskip rfl rfl
  | redactedThinking data => exact hskip rfl rfl
  | text text cc => exact hpart _ _ rfl rfl rfl
  | image mediaType data =>
    by_cases hrole : role = .user
    · rw [convertBlock, if_pos hrole]
      exact hpart _ _ rfl (by rw [contentItems, if_pos hrole]) rfl
    · rw [convertBlock, if_neg hrole]
      exact hskip (by rw [contentItems, if_neg hrole]) rfl
  | toolUse id name input =>
    by_cases hrole : role = .assistant
    · rw [convertBlock, if_pos hrole]
      refine { sent := ⟨carried, ps, hsent, hps, ?_⟩, calls := ?_, unflushed := h.unflushed,
               user := h.user }
      · rw [hcontent]
        exact (List.append_nil _).symm
      · rw [hcalls, blockCall, if_pos hrole, List.map_append, ← h.calls]
        rfl
    · rw [convertBlock, if_neg hrole]
      exact hskip rfl (by rw [blockCall, if_neg hrole])
  | toolResult id content err cc =>
    by_cases hrole : role = .user
    · subst hrole
      rw [sentRole_user] at hps
      obtain ⟨carried', hsent', hflat, hnil, hcalls'⟩ := flush_sent hsent hps
      have hmsg := sent_toolMessage forwardCacheMarkers (hid id content err cc rfl rfl) content cc
      rw [convertBlock, if_pos rfl]
      refine { sent := ⟨carried' ++ [[.toolResult id content.value]], [],
                 List.rel_append hsent' (.cons hmsg .nil), ?_, ?_⟩,
               calls := ?_, unflushed := nofun, user := fun _ => rfl }
      · rw [hnil]
        rfl
      · rw [hcontent, List.flatten_append, hflat, List.append_nil]
        rfl
      · rw [hcalls, List.map_append, ← h.calls]
        exact hcalls'.trans (List.append_nil _).symm
    · rw [convertBlock, if_neg hrole]
      exact hskip (by rw [contentItems, if_neg hrole]) rfl

/-- So do all blocks. -/
theorem BlockInv.loop {role : Role} {asReminder : Bool} (forwardCacheMarkers : Bool) :
    ∀ (rest bs : List (ContentBlock F)) {st : MessageState F}, BlockInv role asReminder bs st →
    (∀ id content err cc, .toolResult id content err cc ∈ rest → role = .user → id ≠ "") →
    BlockInv role asReminder (bs ++ rest)
      (rest.foldl (convertBlock forwardCacheMarkers role asReminder) st)
  | [], bs, st, h, _ => by rwa [List.append_nil]
  | b :: rest, bs, st, h, hids => by
      have hstep := h.step forwardCacheMarkers b fun id content err cc hb =>
        hids id content err cc (hb ▸ List.mem_cons_self)
      have ih := BlockInv.loop forwardCacheMarkers rest (bs ++ [b]) hstep
        fun id content err cc hb => hids id content err cc (List.mem_cons_of_mem _ hb)
      rwa [List.append_assoc] at ih

/-! ## 2. One message -/

/-- What one message appends. -/
def segment (forwardCacheMarkers started : Bool) (msg : Message F) : List (OpenaiMessage F) :=
  (convertMessage forwardCacheMarkers ⟨[], started⟩ msg).openaiMessages

theorem sentRole_mem (role : Role) (asReminder : Bool) :
    sentRole role asReminder ∈ ["system", "user", "assistant"] := by
  cases asReminder <;> cases role <;> decide

omit [PyFloatText F] in
/-- Content that is written as `null` holds nothing. -/
theorem items_of_simplified_null {role : String} {parts : List (Json F)} {items : List (Item F)}
    (h : parts.mapM (partItem role) = some items) (hnull : simplifiedContent parts = .null) :
    items = [] := by
  unfold simplifiedContent at hnull
  split at hnull
  · cases h
    rfl
  · rename_i first
    split at hnull
    · rename_i htext
      have hitem : ∃ item, partItem role (.obj first) = some item := by
        rw [List.mapM_cons] at h
        obtain ⟨item, hitem, -⟩ := Option.bind_eq_some_iff.mp h
        exact ⟨item, hitem⟩
      obtain ⟨item, hitem⟩ := hitem
      obtain ⟨s, hs, -⟩ := partItem_text htext.1 hitem
      obtain ⟨v, hv⟩ := Option.isSome_iff_exists.mp htext.2.2.2
      rw [Json.getD, hv] at hnull
      rw [Json.get, Json.getD, hv] at hs
      cases hnull
      cases hs
    · cases hnull
  · cases hnull

/-- A message without tool results is one message upstream, or none if it
holds nothing. -/
theorem plainMessage_sent {role : Role} {asReminder : Bool} {st : MessageState F}
    {ps : List (Item F)} {calls : List (ToolCall F)}
    (hps : st.contentList.mapM (partItem (sentRole role asReminder)) = some ps)
    (hcalls : st.toolCallsList = calls.map toolCallToOpenai) (hproper : ProperCalls calls) :
    ∃ carried, List.Forall₂ Sent (plainMessage role asReminder st) carried
      ∧ carried.flatten = ps ++ calls.map callItem ∧ (plainMessage role asReminder st).length ≤ 1 := by
  have hcontent := simplifiedContent_carries hps
  have hrole := sentRole_mem role asReminder
  have hplain : plainMessage role asReminder st
      = if simplifiedContent st.contentList ≠ .null ∨ calls ≠ [] then
          [plain (sentRole role asReminder) (simplifiedContent st.contentList) calls]
        else if role = .assistant then [plain (sentRole role asReminder) (.str "") []] else [] := by
    simp only [plainMessage, plain, sentRole, hcalls, List.map_eq_nil_iff, ne_eq, if_true,
      List.append_nil]
  rw [hplain]
  by_cases hholds : simplifiedContent st.contentList ≠ .null ∨ calls ≠ []
  · -- content or tool calls
    rw [if_pos hholds]
    exact ⟨[ps ++ calls.map callItem], .cons (sent_plain hrole hcontent hproper) .nil,
      List.flatten_singleton, Nat.le_refl _⟩
  · rw [if_neg hholds]
    rw [not_or, not_not, not_not] at hholds
    obtain ⟨hnull, rfl⟩ := hholds
    by_cases hassistant : role = .assistant
    · -- an assistant message is sent with empty content
      rw [hnull] at hcontent
      rw [if_pos hassistant]
      have hsent : Sent (plain (sentRole role asReminder) (.str "") []) (ps ++ [].map callItem) :=
        sent_plain hrole hcontent hproper
      exact ⟨[ps ++ ([] : List (ToolCall F)).map callItem], .cons hsent .nil,
        List.flatten_singleton, Nat.le_refl _⟩
    · rw [if_neg hassistant, items_of_simplified_null hps hnull]
      exact ⟨[], .nil, rfl, Nat.zero_le _⟩

theorem messageItems_blocks (asReminder : Bool) (role : Role) (bs : List (ContentBlock F)) :
    messageItems asReminder ⟨role, .blocks bs⟩
      = bs.flatMap (contentItems role asReminder)
        ++ (bs.flatMap (blockCall role)).map callItem := rfl

theorem segment_blocks (forwardCacheMarkers started : Bool) (role : Role)
    (bs : List (ContentBlock F)) :
    segment forwardCacheMarkers started ⟨role, .blocks bs⟩
      = finishMessage role (isReminder started (F := F) ⟨role, .blocks bs⟩)
          (bs.foldl (convertBlock forwardCacheMarkers role
            (isReminder started (F := F) ⟨role, .blocks bs⟩)) ⟨[], [], [], false⟩) := rfl

/-- What one message appends holds its items. Only a user message appends
more than one. -/
theorem segment_sent (forwardCacheMarkers started : Bool) (msg : Message F)
    (hids : ∀ id ∈ resultIds msg, id ≠ "") :
    ∃ carried, List.Forall₂ Sent (segment forwardCacheMarkers started msg) carried
      ∧ carried.flatten = messageItems (isReminder started msg) msg
      ∧ (msg.role ≠ .user → (segment forwardCacheMarkers started msg).length ≤ 1) := by
  obtain ⟨role, content⟩ := msg
  cases content with
  | str s =>
    have hps : ([textPart (sentText (isReminder started ⟨role, .str s⟩) s) []] :
        List (Json F)).mapM (partItem (sentRole role (isReminder started (F := F) ⟨role, .str s⟩)))
          = some [.text (sentRole role (isReminder started (F := F) ⟨role, .str s⟩))
              (sentText (isReminder started (F := F) ⟨role, .str s⟩) s)] := rfl
    have hsent := @plainMessage_sent F _ _ role (isReminder started (F := F) ⟨role, .str s⟩)
      ⟨[], _, [], false⟩ _ [] hps rfl nofun
    obtain ⟨carried, hcarried, hflat, hlen⟩ := hsent
    exact ⟨carried, hcarried, hflat, fun _ => hlen⟩
  | blocks bs =>
    have hblocks : ∀ id content err cc, .toolResult id content err cc ∈ bs → role = .user →
        id ≠ "" := by
      rintro id content err cc hmem rfl
      exact hids id (List.mem_filterMap.mpr ⟨_, hmem, rfl⟩)
    have hinv := (blockInv_start role (isReminder started (F := F) ⟨role, .blocks bs⟩)).loop
      forwardCacheMarkers bs [] hblocks
    rw [List.nil_append] at hinv
    generalize hst : bs.foldl (convertBlock forwardCacheMarkers role
      (isReminder started (F := F) ⟨role, .blocks bs⟩)) ⟨[], [], [], false⟩ = st at hinv
    obtain ⟨carried, ps, hsent, hps, hitems⟩ := hinv.sent
    cases htool : st.isToolResponseMessage with
    | true =>
      have hrole := hinv.user htool
      subst hrole
      rw [sentRole_user] at hps
      obtain ⟨carried', hsent', hflat, -, -⟩ := flush_sent hsent hps
      have hseg : segment forwardCacheMarkers started ⟨.user, .blocks bs⟩
          = st.flush.openaiMessages := by
        rw [segment_blocks, hst, finishMessage, if_pos htool]
      rw [hseg]
      refine ⟨carried', hsent', ?_, fun h => absurd rfl h⟩
      have hnocalls : bs.flatMap (blockCall (F := F) .user) = [] := by
        rw [List.flatMap_eq_nil_iff]
        intro b _
        cases b <;> rfl
      rw [hflat, hitems, messageItems_blocks, hnocalls]
      exact (List.append_nil _).symm
    | false =>
      have hnone := hinv.unflushed htool
      rw [hnone] at hsent
      cases hsent
      obtain ⟨carried', hsent', hflat, hlen⟩ := plainMessage_sent hps hinv.calls
        (properCalls_blocks role bs)
      have hseg : segment forwardCacheMarkers started ⟨role, .blocks bs⟩
          = plainMessage role (isReminder started (F := F) ⟨role, .blocks bs⟩) st := by
        rw [segment_blocks, hst, finishMessage, htool, hnone]
        rfl
      rw [hseg]
      refine ⟨carried', hsent', ?_, fun _ => hlen⟩
      rw [hflat, messageItems_blocks, ← hitems]
      rfl

/-! ## 3. All messages -/

/-- The same accumulators after earlier messages. -/
def MessageState.after (earlier : List (OpenaiMessage F)) (st : MessageState F) :
    MessageState F := { st with openaiMessages := earlier ++ st.openaiMessages }

omit [PyFloatText F] [DecidableEq F] in
theorem flush_after (earlier : List (OpenaiMessage F)) (st : MessageState F) :
    (st.after earlier).flush = st.flush.after earlier := by
  unfold MessageState.flush MessageState.after
  by_cases hnil : st.contentList = []
  · simp [hnil]
  · simp [hnil]

theorem convertBlock_after (forwardCacheMarkers : Bool) (role : Role) (asReminder : Bool)
    (earlier : List (OpenaiMessage F)) (st : MessageState F) (b : ContentBlock F) :
    convertBlock forwardCacheMarkers role asReminder (st.after earlier) b
      = (convertBlock forwardCacheMarkers role asReminder st b).after earlier := by
  cases b with
  | thinking thinking signature => rfl
  | redactedThinking data => rfl
  | text text cc => rfl
  | image mediaType data =>
    simp only [convertBlock]
    split <;> rfl
  | toolUse id name input =>
    simp only [convertBlock]
    split <;> rfl
  | toolResult id content err cc =>
    simp only [convertBlock, flush_after]
    split
    · simp [MessageState.after]
    · rfl

theorem foldl_after (forwardCacheMarkers : Bool) (role : Role) (asReminder : Bool)
    (earlier : List (OpenaiMessage F)) : ∀ (bs : List (ContentBlock F)) (st : MessageState F),
    bs.foldl (convertBlock forwardCacheMarkers role asReminder) (st.after earlier)
      = (bs.foldl (convertBlock forwardCacheMarkers role asReminder) st).after earlier
  | [], _ => rfl
  | b :: rest, st => by
      rw [List.foldl_cons, convertBlock_after, foldl_after forwardCacheMarkers role asReminder
        earlier rest, List.foldl_cons]

omit [PyFloatText F] in
theorem finishMessage_after (role : Role) (asReminder : Bool) (earlier : List (OpenaiMessage F))
    (st : MessageState F) :
    finishMessage role asReminder (st.after earlier)
      = earlier ++ finishMessage role asReminder st := by
  unfold finishMessage
  cases htool : st.isToolResponseMessage with
  | true =>
    rw [flush_after]
    simp [MessageState.after, htool]
  | false => simp [MessageState.after, htool, plainMessage]

/-- A message appends its segment to what is there. -/
theorem convertMessage_eq (forwardCacheMarkers : Bool) (loop : LoopState F) (msg : Message F) :
    convertMessage forwardCacheMarkers loop msg
      = ⟨loop.openaiMessages ++ segment forwardCacheMarkers loop.conversationStarted msg,
          startedAfter loop.conversationStarted msg⟩ := by
  obtain ⟨earlier, started⟩ := loop
  obtain ⟨role, content⟩ := msg
  have hstart : ∀ parts : List (Json F), (⟨earlier, parts, [], false⟩ : MessageState F)
      = (⟨[], parts, [], false⟩ : MessageState F).after earlier := by
    intro parts
    simp [MessageState.after]
  cases content with
  | str s =>
    simp only [convertMessage, segment, hstart, finishMessage_after]
    rfl
  | blocks bs =>
    simp only [convertMessage, segment, hstart, foldl_after, finishMessage_after]
    rfl

/-- The segments of a message list. -/
def segments (forwardCacheMarkers : Bool) : Bool → List (Message F) → List (OpenaiMessage F)
  | _, [] => []
  | started, msg :: rest =>
      segment forwardCacheMarkers started msg
        ++ segments forwardCacheMarkers (startedAfter started msg) rest

theorem foldl_convertMessage (forwardCacheMarkers : Bool) : ∀ (messages : List (Message F))
    (loop : LoopState F),
    (messages.foldl (convertMessage forwardCacheMarkers) loop).openaiMessages
      = loop.openaiMessages ++ segments forwardCacheMarkers loop.conversationStarted messages
  | [], loop => (List.append_nil _).symm
  | msg :: rest, loop => by
      rw [List.foldl_cons, convertMessage_eq, foldl_convertMessage forwardCacheMarkers rest,
        List.append_assoc]
      rfl

/-- The message of the system prompt holds its text. -/
theorem systemMessages_sent (config : ConversionConfig) (system : Option SystemPrompt) :
    ∃ carried, List.Forall₂ (Sent (F := F)) (systemMessages config system) carried
      ∧ carried.flatten = promptItems config system := by
  cases system with
  | none => exact ⟨[], .nil, rfl⟩
  | some prompt =>
    simp only [systemMessages, promptItems, Option.bind_some]
    generalize systemText config.forwardCacheMarkers prompt = parsed
    obtain ⟨_ | text, marker⟩ := parsed
    · exact ⟨[], .nil, rfl⟩
    · dsimp only
      by_cases hskip : text = "" ∨ config.provider ∉ ["openai", "litellm", "openrouter"]
      · rw [if_pos hskip, if_pos hskip]
        exact ⟨[], .nil, rfl⟩
      · rw [if_neg hskip, if_neg hskip]
        have hsent : ∀ content : Json F,
            ContentCarries "system" (contentOrEmpty content) [.text "system" text] →
            Sent [("role", .str "system"), ("content", content)] [.text "system" text] := by
          intro content hcontent
          have h : Sent (plain "system" content []) ([.text "system" text] ++ [].map callItem) :=
            sent_plain (by simp) hcontent nofun
          simpa [plain] using h
        split
        · exact ⟨[[.text "system" text]], .cons (hsent _ (ContentCarries.list rfl)) .nil, rfl⟩
        · have hplain : ContentCarries "system" (contentOrEmpty (.str text : Json F))
              [.text "system" text] := .inl ⟨text, rfl, .inl rfl⟩
          exact ⟨[[.text "system" text]], .cons (hsent _ hplain) .nil, rfl⟩

theorem segments_sent (forwardCacheMarkers : Bool) : ∀ (messages : List (Message F))
    (started : Bool), (∀ msg ∈ messages, ∀ id ∈ resultIds msg, id ≠ "") →
    ∃ carried, List.Forall₂ Sent (segments forwardCacheMarkers started messages) carried
      ∧ carried.flatten = itemsFrom started messages
  | [], _, _ => ⟨[], .nil, rfl⟩
  | msg :: rest, started, hids => by
      obtain ⟨first, hfirst, hflat, -⟩ := segment_sent forwardCacheMarkers started msg
        (hids msg List.mem_cons_self)
      obtain ⟨others, hothers, hflat'⟩ := segments_sent forwardCacheMarkers rest
        (startedAfter started msg) fun m hm => hids m (List.mem_cons_of_mem _ hm)
      refine ⟨first ++ others, List.rel_append hfirst hothers, ?_⟩
      rw [List.flatten_append, hflat, hflat']
      rfl

/-- Messages that are sent arrive together. -/
theorem mapM_of_sent {msgs : List (OpenaiMessage F)} {carried : List (List (Item F))}
    (h : List.Forall₂ Sent msgs carried) :
    ∃ out, msgs.mapM forward = some out ∧ List.Forall₂ Carries out carried := by
  induction h with
  | nil => exact ⟨[], rfl, .nil⟩
  | cons hmsg _ ih =>
    obtain ⟨msg', hforward, hcarries⟩ := hmsg
    obtain ⟨out, hout, hrest⟩ := ih
    refine ⟨msg' :: out, ?_, .cons hcarries hrest⟩
    rw [List.mapM_cons, hforward, hout]
    rfl

/-- The whole way of a request. -/
theorem translate_eq (config : ConversionConfig) (system : Option SystemPrompt)
    (messages : List (Message F)) :
    translate config system messages
      = (systemMessages config system
          ++ segments config.forwardCacheMarkers false messages).mapM forward := by
  rw [translate, mapM_forward, convertAnthropicToOpenai, foldl_convertMessage]

end MultiForge.Proxy.Conversion
