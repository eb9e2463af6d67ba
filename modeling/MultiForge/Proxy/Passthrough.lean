/-
MultiForge.Proxy.Passthrough — `forward` of both passthrough wire shapes.

A passthrough proxy returns what the upstream sent and accounts for it on
the side. Accounting is guarded in some places only: the Anthropic wire
converts the counts of a body before the guarded callback, the Responses
wire rounds the cost header before it, and `json.loads` may raise more
than the handlers catch. `bodyAgnostic_iff` says which responses arrive.

`json.loads` and the construction of a response are parameters. Provider
traces and log lines are left out; they cannot raise.
-/
import MultiForge.Proxy.ClientAdapter
import MultiForge.Proxy.StreamRelay
import MultiForge.Proxy.Usage

namespace MultiForge.Proxy.Passthrough

open MultiForge.Json Utf8 SseFraming StreamRelay Usage

/-! ## 1. Response headers -/

/-- Headers in order; the names of an upstream response are distinct. -/
abbrev Headers := List (String × String)

def header (headers : Headers) (name : String) : Option String := Dict.find name headers

def responseHeaderDenylist : List String :=
  ["authentication-info", "authorization", "connection", "content-encoding", "content-length",
    "cookie", "keep-alive", "openai-organization", "openai-project", "proxy-authenticate",
    "proxy-authentication-info", "proxy-authorization", "proxy-connection", "set-cookie",
    "set-cookie2", "te", "trailer", "transfer-encoding", "upgrade", "www-authenticate",
    "x-api-key", "x-cumulative-cost", "x-request-id", "x-request-cost", "x-resolved-model",
    "x-resolved-tier", "x-spend-warning"]

def proxyOwnedHeaderPrefix : String := "x-forge-"

/-- `name.lower()`: header names are ASCII. -/
def lower (name : String) : String := String.ofList (name.toList.map Char.toLower)

/-- The header names that a `Connection` value lists. -/
def connectionTokens (value : String) : List String :=
  ((value.toList.splitOn ',').map Lines.strip).filterMap fun token =>
    if token = [] then none else some (lower (String.ofList token))

def relayResponseHeaders (upstream : Headers) (requestId : String) : Headers :=
  let denied := responseHeaderDenylist ++ upstream.flatMap fun (name, value) =>
    if lower name = "connection" then connectionTokens value else []
  upstream.foldl (fun relayed (name, value) =>
    if lower name ∉ denied
        ∧ proxyOwnedHeaderPrefix.toList.isPrefixOf (lower name).toList = false then
      Dict.put name value relayed
    else relayed) [("X-Request-ID", requestId)]

def mergeResponseHeaders (headers overlay : Headers) : Headers :=
  if overlay = [] then headers
  else overlay.foldl (fun merged (name, value) => Dict.put name value merged)
    (headers.filter fun (name, _) => lower name ∉ overlay.map (lower ∘ Prod.fst))

/-! ## 2. Forwarding -/

/-- What the forwarders call outside the repository. -/
structure Runtime (F : Type) where
  /-- `json.loads` of a text -/
  loads : List Char → Loaded (Json F)
  /-- `json.loads` of bytes -/
  loadsBytes : List UInt8 → Loaded (Json F)
  /-- whether a response with this status, media type and these headers
  can be built -/
  accepts : Nat → String → Headers → Bool

/-- The arguments of `forward` that concern the response. -/
structure Call where
  requestId : String
  extraHeaders : Headers
  /-- `on_complete is not None` -/
  accounting : Bool
  /-- `provider_trace_ctx is not None` -/
  traced : Bool

/-- A response of the upstream, its body as it arrives. -/
structure Upstream where
  status : Nat
  headers : Headers
  chunks : List (List UInt8)

def Upstream.content (upstream : Upstream) : List UInt8 := upstream.chunks.flatten

/-- What a request comes to: the status and the bytes the client receives,
`none` if `forward` raises; the calls of `on_complete`; and whether a
`feed` of the accumulator raised. -/
structure Outcome (C : Type) where
  reply : Option (Nat × List UInt8)
  completions : List C
  feedRaised : Bool
  deriving DecidableEq

variable {F : Type} [PyReal F] (rt : Runtime F) (call : Call)

/-- `_safe_on_complete`: whatever the callback raises stays in there. -/
def safeOnComplete {C : Type} (completion : C) : List C :=
  if call.accounting then [completion] else []

/-- `Response(...)` -/
def respond (status : Nat) (mediaType : String) (headers : Headers) (content : List UInt8) :
    Option (Nat × List UInt8) :=
  if rt.accepts status mediaType headers then some (status, content) else none

/-- The answer to a transport failure. -/
def unreachable (errorBody : List UInt8) : Option (Nat × List UInt8) :=
  respond rt 502 "application/json"
    (mergeResponseHeaders [("X-Request-ID", call.requestId)] call.extraHeaders) errorBody

def relayedHeaders (upstream : Upstream) : Headers :=
  mergeResponseHeaders (relayResponseHeaders upstream.headers call.requestId) call.extraHeaders

def streamHeaders (upstream : Upstream) : Headers :=
  mergeResponseHeaders (relayedHeaders call upstream) [("Cache-Control", "no-cache")]

def mediaType (upstream : Upstream) : String :=
  (header upstream.headers "content-type").getD "application/json"

/-- The answer that repeats an upstream response. -/
def relayed (upstream : Upstream) : Option (Nat × List UInt8) :=
  respond rt upstream.status (mediaType upstream) (relayedHeaders call upstream) upstream.content

/-- `StreamingResponse(...)`, with what the relay sends. -/
def streamed (upstream : Upstream) (sent : List UInt8) : Option (Nat × List UInt8) :=
  respond rt 200 "text/event-stream" (streamHeaders call upstream) sent

/-- `"json" in resp.headers.get("content-type", "")` -/
def claimsJson (upstream : Upstream) : Bool :=
  isInfix "json".toList ((header upstream.headers "content-type").getD "").toList

/-- `response_body` of a response that arrives whole: an object or `None`,
and `none` where `json.loads` raises what the handler does not catch. -/
def responseBody (upstream : Upstream) : Option (Json F) :=
  if claimsJson upstream then
    match rt.loadsBytes upstream.content with
    | .value (.obj items) => some (.obj items)
    | .value _ => some .null
    | .malformed => some .null
    | .raises => none
  else some .null

/-- The answer with a relay's effects, and `on_complete` at each of its
ends. -/
def answerStream {S C : Type} (upstream : Upstream) (relay : List (Effect S) × Bool)
    (completion : S → Bool → C) : Outcome C :=
  match streamed rt call upstream (sentBytes relay.1) with
  | none => ⟨none, [], false⟩
  | some reply =>
      ⟨some reply, (ends relay.1).flatMap fun (acc, failed, _) =>
        safeOnComplete call (completion acc failed), relay.2⟩

namespace Anthropic

/-- The arguments of `on_complete`. -/
structure Completion (F : Type) where
  usage : Counts
  responseBody : Json F
  failed : Bool

def upstreamStreamErrorBody : String :=
  "\x7b\"type\":\"error\",\"error\":\x7b\"type\":\"upstream_error\",\"message\":\"passthrough upstream stream failed\"\x7d\x7d"

def upstreamRequestErrorBody : String :=
  "\x7b\"type\":\"error\",\"error\":\x7b\"type\":\"upstream_error\",\"message\":\"passthrough upstream request failed\"\x7d\x7d"

/-- The body and its usage, or `none` where reading them raises. -/
def readBody (upstream : Upstream) : Option (Json F × Counts) := do
  let body ← responseBody rt upstream
  let usage ← Usage.Anthropic.extractUsageFromMessage body
  some (body, usage)

def forwardWhole (upstream : Upstream) : Outcome (Completion F) :=
  if call.accounting then
    match readBody rt upstream with
    | none => ⟨none, [], false⟩
    | some (body, usage) =>
        ⟨relayed rt call upstream,
          safeOnComplete call ⟨usage, body, decide (400 ≤ upstream.status)⟩, false⟩
  else ⟨relayed rt call upstream, [], false⟩

/-- The relay of a stream that was opened with status 200. -/
def streamOpenedUpstream (upstream : Upstream) (ending : Ending) :
    List (Effect Usage.Anthropic.Accumulator) × Bool :=
  relayUpstream rt.loads Usage.Anthropic.merge ending (encode upstreamStreamErrorBody.toList)
    ⟨⟨[], false, false⟩, [], false⟩ upstream.chunks

def forwardStream (upstream : Upstream) (ending : Ending) : Outcome (Completion F) :=
  if upstream.status ≠ 200 then
    match ending with
    | .complete => ⟨relayed rt call upstream, safeOnComplete call ⟨[], .null, true⟩, false⟩
    | .upstreamError =>
        ⟨unreachable rt call (encode upstreamStreamErrorBody.toList),
          safeOnComplete call ⟨[], .null, true⟩, false⟩
    | .disconnected => ⟨none, [], false⟩
  else
    answerStream rt call upstream (streamOpenedUpstream rt upstream ending)
      fun acc failed => ⟨acc.usage, .null, failed⟩

/-- `forward`, for an upstream that answers; `ending` is how its body
ends. -/
def forward (stream : Bool) (upstream : Upstream) (ending : Ending) : Outcome (Completion F) :=
  if stream then forwardStream rt call upstream ending
  else match ending with
    | .complete => forwardWhole rt call upstream
    | .upstreamError =>
        ⟨unreachable rt call (encode upstreamRequestErrorBody.toList),
          safeOnComplete call ⟨[], .null, true⟩, false⟩
    | .disconnected => ⟨none, [], false⟩

end Anthropic

namespace Responses

/-- The arguments of `on_complete`. -/
structure Completion where
  usage : Counts
  reportedCostMicros : Option Int
  failed : Bool
  errorType : Option String
  deriving DecidableEq, Repr

def litellmCostHeader : String := "x-litellm-response-cost"

def errorBody : String :=
  "\x7b\"type\":\"error\",\"error\":\x7b\"type\":\"upstream_error\",\"message\":\"responses passthrough upstream stream failed\"\x7d\x7d"

/-- `reported_cost_micros_from_headers` -/
def reportedCost (F : Type) [PyReal F] (upstream : Upstream) : Option (Option Int) :=
  Usage.Responses.reportedCostMicros F (header upstream.headers litellmCostHeader)

/-- The `status` of a body. -/
def terminalStatus : Json F → Json F
  | .obj body => get body "status"
  | _ => .null

def forwardWhole (upstream : Upstream) : Outcome Completion :=
  if call.accounting ∨ call.traced then
    match responseBody rt upstream, reportedCost F upstream with
    | some body, some cost =>
        let httpFailed := decide (400 ≤ upstream.status)
        let (statusFailed, statusError) :=
          Usage.Responses.failureFromTerminalStatus (terminalStatus body)
        ⟨relayed rt call upstream,
          safeOnComplete call ⟨Usage.Responses.extractUsageFromResponse body, cost,
            httpFailed || statusFailed,
            if httpFailed then some "upstream_error" else statusError⟩, false⟩
    | _, _ => ⟨none, [], false⟩
  else ⟨relayed rt call upstream, [], false⟩

/-- The relay of a stream that was opened with status 200. -/
def streamOpenedUpstream (upstream : Upstream) (ending : Ending) :
    List (Effect Usage.Responses.Accumulator) × Bool :=
  relayUpstream rt.loads (fun acc event => some (Usage.Responses.merge acc event)) ending
    (encode errorBody.toList) ⟨⟨[], false, false, none⟩, [], false⟩ upstream.chunks

/-- What `_on_end` reports of a stream. -/
def streamCompletion (cost : Option Int) (acc : Usage.Responses.Accumulator) (failed : Bool) :
    Completion :=
  let (statusFailed, statusError) := match acc.terminalStatus with
    | some status => Usage.Responses.failureFromTerminalStatus (.str status : Json Empty)
    | none => (false, none)
  ⟨acc.usage, cost, failed || statusFailed, if failed then some "upstream_error" else statusError⟩

def forwardStream (upstream : Upstream) (ending : Ending) : Outcome Completion :=
  match reportedCost F upstream with
  | none => ⟨none, [], false⟩
  | some cost =>
      if upstream.status ≠ 200 then
        let failure : Completion := ⟨[], none, true, some "upstream_error"⟩
        match ending with
        | .complete => ⟨relayed rt call upstream, safeOnComplete call failure, false⟩
        | .upstreamError =>
            ⟨unreachable rt call (encode errorBody.toList), safeOnComplete call failure, false⟩
        | .disconnected => ⟨none, [], false⟩
      else
        answerStream rt call upstream (streamOpenedUpstream rt upstream ending)
          (streamCompletion cost)

/-- `forward`, for an upstream that answers; `ending` is how its body
ends. -/
def forward (stream : Bool) (upstream : Upstream) (ending : Ending) : Outcome Completion :=
  if stream then forwardStream rt call upstream ending
  else match ending with
    | .complete => forwardWhole rt call upstream
    | .upstreamError =>
        ⟨unreachable rt call (encode errorBody.toList),
          safeOnComplete call ⟨[], none, true, some "upstream_error"⟩, false⟩
    | .disconnected => ⟨none, [], false⟩

end Responses
/-! ## 3. Which responses arrive -/

/-- The client receives the status and the bytes of the upstream,
`on_complete` is called once, and no `feed` raises. -/
def BodyAgnostic {C : Type} (upstream : Upstream) (outcome : Outcome C) : Prop :=
  outcome.reply = some (upstream.status, upstream.content)
    ∧ outcome.completions.length = 1 ∧ outcome.feedRaised = false

/-- The response for the client can be built. -/
def Accepted (stream : Bool) (upstream : Upstream) : Prop :=
  if stream = true ∧ upstream.status = 200 then
    rt.accepts 200 "text/event-stream" (streamHeaders call upstream) = true
  else rt.accepts upstream.status (mediaType upstream) (relayedHeaders call upstream) = true

/-- The text of the chunks as the tap decodes it. -/
def Upstream.text (upstream : Upstream) : List Char := upstream.chunks.flatMap decodeIgnore

/-- What the Anthropic wire reads of a response does not raise: of a
stream, the events of its text, and of a body said to be JSON, the counts
of its usage. -/
def Anthropic.Readable (stream : Bool) (upstream : Upstream) : Prop :=
  if stream then
    upstream.status = 200 → TameText rt.loads Usage.Anthropic.Tame upstream.text
  else
    claimsJson upstream = true → rt.loadsBytes upstream.content ≠ .raises
      ∧ ∀ payload, rt.loadsBytes upstream.content = .value (.obj payload) →
        Usage.Anthropic.Countable (get payload "usage")

/-- The cost header is missing, no number, negative, or a number of
microdollars. -/
def Responses.CostReadable (F : Type) [PyReal F] (upstream : Upstream) : Prop :=
  ∀ usd : F, (header upstream.headers Responses.litellmCostHeader).bind PyReal.ofText? = some usd →
    PyReal.neg usd = true ∨ PyReal.micros? usd ≠ none

/-- What the Responses wire reads of a response does not raise. -/
def Responses.Readable (stream : Bool) (upstream : Upstream) : Prop :=
  Responses.CostReadable F upstream
    ∧ if stream then
        upstream.status = 200 → TameText rt.loads (fun _ => True) upstream.text
      else claimsJson upstream = true → rt.loadsBytes upstream.content ≠ .raises

section
variable {rt call}

omit [PyReal F] in
theorem relayed_eq_some_iff {upstream : Upstream} :
    relayed rt call upstream = some (upstream.status, upstream.content)
      ↔ rt.accepts upstream.status (mediaType upstream) (relayedHeaders call upstream) = true := by
  unfold relayed respond
  split <;> simp_all

theorem safeOnComplete_length (h : call.accounting = true) {C : Type} (completion : C) :
    (safeOnComplete call completion).length = 1 := by
  simp [safeOnComplete, h]

omit [PyReal F] in
/-- A response that is relayed whole with one completion. -/
theorem bodyAgnostic_relayed_iff (h : call.accounting = true) {C : Type} (completion : C)
    {upstream : Upstream} :
    BodyAgnostic upstream ⟨relayed rt call upstream, safeOnComplete call completion, false⟩
      ↔ rt.accepts upstream.status (mediaType upstream) (relayedHeaders call upstream) = true := by
  simp [BodyAgnostic, relayed_eq_some_iff, safeOnComplete_length h]

omit [PyReal F] in
theorem not_bodyAgnostic_none {C : Type} {upstream : Upstream} (completions : List C) :
    ¬ BodyAgnostic upstream ⟨none, completions, false⟩ := by
  rintro ⟨hreply, -⟩
  cases hreply

variable (rt) in
omit [PyReal F] in
/-- A relayed stream: the bytes and the one completion are given, so the
rest depends on the response and on the tap. -/
theorem bodyAgnostic_stream_iff (h : call.accounting = true) {S C : Type}
    {merge : S → Json F → Option S} {Tame : Json F → Prop}
    (htame : ∀ acc v, merge acc v ≠ none ↔ Tame v) (errorBody : List UInt8) (acc : S)
    (completion : S → Bool → C) {upstream : Upstream} (hstatus : upstream.status = 200) :
    BodyAgnostic upstream (answerStream rt call upstream
        (relayUpstream rt.loads merge .complete errorBody ⟨acc, [], false⟩ upstream.chunks)
        completion)
      ↔ rt.accepts 200 "text/event-stream" (streamHeaders call upstream) = true
        ∧ TameText rt.loads Tame upstream.text := by
  have hsent := relay_sent rt.loads merge errorBody .complete upstream.chunks ⟨acc, [], false⟩
  obtain ⟨last, hends⟩ := relay_ends rt.loads merge errorBody .complete upstream.chunks
    ⟨acc, [], false⟩
  have hraised := relay_raised_iff rt.loads merge htame .complete errorBody upstream.chunks
    (show (⟨acc, [], false⟩ : Tap S).raised = false from rfl) (by simp)
  rw [answerStream, hsent, hends, BodyAgnostic, Upstream.text]
  by_cases haccepts : rt.accepts 200 "text/event-stream" (streamHeaders call upstream) = true
  · simp [streamed, respond, haccepts, hstatus, Upstream.content, safeOnComplete_length h]
    exact hraised
  · simp [streamed, respond, haccepts]

/-- Reading a body raises nothing when its counts are numbers. -/
theorem Anthropic.readBody_isSome_iff {upstream : Upstream} :
    Anthropic.readBody rt upstream ≠ none ↔ Anthropic.Readable rt false upstream := by
  unfold Anthropic.readBody Anthropic.Readable responseBody
  by_cases hjson : claimsJson upstream = true
  · cases hloads : rt.loadsBytes upstream.content with
    | value v =>
      cases v with
      | obj payload =>
        have hcount := Usage.Anthropic.normalizeUsage_isSome_iff (get payload "usage")
        cases husage : Usage.Anthropic.normalizeUsage (get payload "usage") with
        | none =>
          simp only [hjson, if_true]
          simpa [hloads, Usage.Anthropic.extractUsageFromMessage, husage] using hcount
        | some usage =>
          simp only [hjson, if_true]
          simpa [hloads, Usage.Anthropic.extractUsageFromMessage, husage] using hcount
      | _ => simp [hjson, Usage.Anthropic.extractUsageFromMessage]
    | malformed => simp [hjson, Usage.Anthropic.extractUsageFromMessage]
    | raises => simp [hjson]
  · simp [hjson, Usage.Anthropic.extractUsageFromMessage]

theorem Anthropic.bodyAgnostic_iff (h : call.accounting = true) (stream : Bool)
    (upstream : Upstream) :
    BodyAgnostic upstream (Anthropic.forward rt call stream upstream .complete)
      ↔ Accepted rt call stream upstream ∧ Anthropic.Readable rt stream upstream := by
  cases stream with
  | true =>
    rw [Anthropic.forward, if_pos rfl, Anthropic.forwardStream, Accepted, Anthropic.Readable]
    by_cases hstatus : upstream.status = 200
    · rw [if_neg (by simpa using hstatus)]
      have hstream := bodyAgnostic_stream_iff rt h Usage.Anthropic.merge_isSome_iff
        (encode Anthropic.upstreamStreamErrorBody.toList) ⟨[], false, false⟩
        (fun acc failed => (⟨acc.usage, .null, failed⟩ : Anthropic.Completion F)) hstatus
      simpa [hstatus, Anthropic.streamOpenedUpstream] using hstream
    · rw [if_pos hstatus]
      simpa [hstatus] using bodyAgnostic_relayed_iff h _
  | false =>
    have hread := @Anthropic.readBody_isSome_iff F _ rt upstream
    rw [Anthropic.forward, if_neg (by simp), Accepted, if_neg (by simp), ← hread,
      Anthropic.forwardWhole, if_pos h]
    cases Anthropic.readBody rt upstream with
    | none => simpa using not_bodyAgnostic_none _
    | some read => simpa using bodyAgnostic_relayed_iff h _

theorem Responses.reportedCost_isSome_iff {upstream : Upstream} :
    Responses.reportedCost F upstream ≠ none ↔ Responses.CostReadable F upstream := by
  unfold Responses.reportedCost Usage.Responses.reportedCostMicros
    Usage.Responses.costFromResponseHeaders Responses.CostReadable
  cases (header upstream.headers Responses.litellmCostHeader).bind
      (PyReal.ofText? : String → Option F) with
  | none => simp
  | some usd =>
    simp only [Option.some.injEq, forall_eq']
    cases hneg : PyReal.neg usd with
    | true => simp
    | false => cases PyReal.micros? usd <;> simp

omit [PyReal F] in
theorem responseBody_isSome_iff {upstream : Upstream} :
    responseBody rt upstream ≠ none
      ↔ (claimsJson upstream = true → rt.loadsBytes upstream.content ≠ .raises) := by
  unfold responseBody
  by_cases hjson : claimsJson upstream = true
  · cases hloads : rt.loadsBytes upstream.content with
    | value v => cases v <;> simp [hjson]
    | malformed => simp [hjson]
    | raises => simp [hjson]
  · simp [hjson]

theorem Responses.bodyAgnostic_iff (h : call.accounting = true) (stream : Bool)
    (upstream : Upstream) :
    BodyAgnostic upstream (Responses.forward rt call stream upstream .complete)
      ↔ Accepted rt call stream upstream ∧ Responses.Readable rt stream upstream := by
  have hcost := @Responses.reportedCost_isSome_iff F _ upstream
  rw [Responses.Readable, ← hcost]
  cases stream with
  | true =>
    rw [Responses.forward, if_pos rfl, Responses.forwardStream, Accepted]
    cases Responses.reportedCost F upstream with
    | none => simpa using not_bodyAgnostic_none _
    | some cost =>
      by_cases hstatus : upstream.status = 200
      · have hstream := bodyAgnostic_stream_iff rt h
          (fun acc event => by simp : ∀ acc event,
            some (Usage.Responses.merge acc event) ≠ none ↔ (fun _ : Json F => True) event)
          (encode Responses.errorBody.toList) ⟨[], false, false, none⟩
          (Responses.streamCompletion cost) hstatus
        simpa [hstatus, Responses.streamOpenedUpstream] using hstream
      · simpa [hstatus] using bodyAgnostic_relayed_iff h _
  | false =>
    have hread := @responseBody_isSome_iff F rt upstream
    rw [Responses.forward, if_neg (by simp), Accepted, if_neg (by simp), if_neg (by simp),
      ← hread, Responses.forwardWhole, if_pos (Or.inl h)]
    cases responseBody rt upstream with
    | none => simpa using not_bodyAgnostic_none _
    | some body =>
      cases Responses.reportedCost F upstream with
      | none => simpa using not_bodyAgnostic_none _
      | some cost => simpa using bodyAgnostic_relayed_iff h _

/-- **Which responses pass through both wires.** Those that the client's
response can be built from, and of which nothing that is read raises. -/
theorem passes_through_iff (rt : Runtime F) {call : Call} (h : call.accounting = true)
    (stream : Bool) (upstream : Upstream) :
    (BodyAgnostic upstream (Anthropic.forward rt call stream upstream .complete)
        ↔ Accepted rt call stream upstream ∧ Anthropic.Readable rt stream upstream)
      ∧ (BodyAgnostic upstream (Responses.forward rt call stream upstream .complete)
        ↔ Accepted rt call stream upstream ∧ Responses.Readable rt stream upstream) :=
  ⟨Anthropic.bodyAgnostic_iff h stream upstream, Responses.bodyAgnostic_iff h stream upstream⟩

end

/-- One body that is JSON, without floats. -/
def Runtime.ofBody (body : List UInt8) (v : Json Empty) : Runtime Empty where
  loads := fun _ => .malformed
  loadsBytes := fun bytes => if bytes = body then .value v else .malformed
  accepts := fun _ _ _ => true

def jsonResponse (body : List UInt8) : Upstream :=
  ⟨200, [("content-type", "application/json")], [body]⟩

theorem ofBody_loadsBytes (body : List UInt8) (v : Json Empty) :
    (Runtime.ofBody body v).loadsBytes (jsonResponse body).content = .value v := by
  simp [Runtime.ofBody, jsonResponse, Upstream.content]

/-- A count that is no number: the response does not arrive. -/
theorem usage_text_raises :
    ¬ BodyAgnostic (jsonResponse (encode "\x7b\"usage\":\x7b\"input_tokens\":\"abc\"\x7d\x7d".toList))
      (Anthropic.forward
        (Runtime.ofBody (encode "\x7b\"usage\":\x7b\"input_tokens\":\"abc\"\x7d\x7d".toList)
          (.obj [("usage", .obj [("input_tokens", .str "abc")])]))
        ⟨"r1", [], true, false⟩ false
        (jsonResponse (encode "\x7b\"usage\":\x7b\"input_tokens\":\"abc\"\x7d\x7d".toList))
        .complete) := by
  rintro ⟨hreply, -⟩
  revert hreply
  decide

theorem passes_through_iff_counts :
    BodyAgnostic (jsonResponse (encode "\x7b\"usage\":\x7b\"input_tokens\":5\x7d\x7d".toList))
      (Anthropic.forward
        (Runtime.ofBody (encode "\x7b\"usage\":\x7b\"input_tokens\":5\x7d\x7d".toList)
          (.obj [("usage", .obj [("input_tokens", .int 5)])]))
        ⟨"r1", [], true, false⟩ false
        (jsonResponse (encode "\x7b\"usage\":\x7b\"input_tokens\":5\x7d\x7d".toList)) .complete) := by
  refine (passes_through_iff _ (by rfl) false _).1.mpr ⟨by rfl, ?_⟩
  intro _
  rw [ofBody_loadsBytes]
  refine ⟨by simp, ?_⟩
  intro payload hpayload
  cases hpayload
  intro field hfield
  revert field
  decide

end MultiForge.Proxy.Passthrough
