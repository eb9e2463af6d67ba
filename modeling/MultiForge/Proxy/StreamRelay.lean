/-
MultiForge.Proxy.StreamRelay — `relay_upstream` and the tap it feeds.

The relay yields every chunk after it fed a copy to the tap, whatever the
tap raises, and calls `on_end` once at the end. So the bytes do not depend
on the tap (`relay_sent`) and the tap raises exactly when a complete line
of the decoded text does (`relay_raised_iff`).
-/
import MultiForge.Proxy.SseFraming

namespace MultiForge.Proxy.StreamRelay

open Lines Utf8 SseFraming

/-! ## 1. The relay -/

variable {S V : Type}

/-- An accumulator, the text its framer holds back, and whether a `feed`
has raised. -/
structure Tap (S : Type) where
  acc : S
  buffer : List Char
  raised : Bool
  deriving DecidableEq, Repr

/-- The loop of `SseJsonDataFramer.feed` over the complete lines, with the
callback `merge`; an exception leaves the later lines in the buffer. -/
def tapLines (loads : List Char → Loaded V) (merge : S → V → Option S) (rest : List Char)
    (acc : S) : List (List Char) → Tap S
  | [] => ⟨acc, rest, false⟩
  | line :: lines => match lineEvent loads line with
    | .ignored => tapLines loads merge rest acc lines
    | .deliver v => match merge acc v with
      | some acc' => tapLines loads merge rest acc' lines
      | none => ⟨acc, lines.flatMap (· ++ ['\n']) ++ rest, true⟩
    | .raises => ⟨acc, lines.flatMap (· ++ ['\n']) ++ rest, true⟩

/-- `accumulator.feed(chunk)` inside the relay's `try`. -/
def Tap.feed (loads : List Char → Loaded V) (merge : S → V → Option S) (tap : Tap S)
    (chunk : List UInt8) : Tap S :=
  let (lines, rest) := completeLines (tap.buffer ++ decoded chunk)
  let fed := tapLines loads merge rest tap.acc lines
  { fed with raised := tap.raised || fed.raised }

/-- How the chunks end: after the last one, with an `httpx.HTTPError`, or
because the client has gone. -/
inductive Ending where
  | complete
  | upstreamError
  | disconnected
  deriving DecidableEq, Repr

/-- What the relay does that others see. -/
inductive Effect (S : Type) where
  | sent (bytes : List UInt8)
  | ended (acc : S) (failed clientDisconnected : Bool)
  deriving DecidableEq, Repr

/-- `relay_upstream` from here on: its effects, and whether a `feed`
raised. -/
def relayUpstream (loads : List Char → Loaded V) (merge : S → V → Option S) (ending : Ending)
    (errorBody : List UInt8) (tap : Tap S) : List (List UInt8) → List (Effect S) × Bool
  | [] => (match ending with
      | .complete => [.ended tap.acc false false]
      | .upstreamError => [.sent errorBody, .ended tap.acc true false]
      | .disconnected => [.ended tap.acc false true], tap.raised)
  | chunk :: chunks =>
      let (effects, raised) :=
        relayUpstream loads merge ending errorBody (tap.feed loads merge chunk) chunks
      (.sent chunk :: effects, raised)

/-- The bytes the client receives. -/
def sentBytes (effects : List (Effect S)) : List UInt8 :=
  effects.flatMap fun
    | .sent bytes => bytes
    | .ended .. => []

/-- The calls of `on_end`. -/
def ends (effects : List (Effect S)) : List (S × Bool × Bool) :=
  effects.filterMap fun
    | .sent _ => none
    | .ended acc failed clientDisconnected => some (acc, failed, clientDisconnected)

/-! ## 2. Bytes and ends -/

section
variable (loads : List Char → Loaded V) (merge : S → V → Option S) (errorBody : List UInt8)

/-- The client receives the chunks, and the error body after a failure. -/
theorem relay_sent (ending : Ending) : ∀ (chunks : List (List UInt8)) (tap : Tap S),
    sentBytes (relayUpstream loads merge ending errorBody tap chunks).1
      = chunks.flatten ++ (if ending = .upstreamError then errorBody else [])
  | [], tap => by cases ending <;> simp [relayUpstream, sentBytes]
  | chunk :: chunks, tap => by
      have ih := relay_sent ending chunks (tap.feed loads merge chunk)
      rw [relayUpstream, List.flatten_cons, List.append_assoc, ← ih]
      rfl

/-- `on_end` is called once, however the chunks end. -/
theorem relay_ends (ending : Ending) : ∀ (chunks : List (List UInt8)) (tap : Tap S),
    ∃ acc, ends (relayUpstream loads merge ending errorBody tap chunks).1
      = [(acc, decide (ending = .upstreamError), decide (ending = .disconnected))]
  | [], tap => ⟨tap.acc, by cases ending <;> simp [relayUpstream, ends]⟩
  | chunk :: chunks, tap => relay_ends ending chunks (tap.feed loads merge chunk)

end

/-! ## 3. When a `feed` raises -/

section
variable (loads : List Char → Loaded V) (merge : S → V → Option S) {Tame : V → Prop}

/-- A line that the tap takes without an exception. -/
def TameLine (Tame : V → Prop) (line : List Char) : Prop :=
  match lineEvent loads line with
  | .ignored => True
  | .deliver v => Tame v
  | .raises => False

/-- Text whose complete lines the tap takes without an exception. -/
def TameText (Tame : V → Prop) (text : List Char) : Prop :=
  ∀ line ∈ (completeLines text).1, TameLine loads Tame line

theorem tapLines_raised_iff (htame : ∀ acc v, merge acc v ≠ none ↔ Tame v) (rest : List Char) :
    ∀ (lines : List (List Char)) (acc : S),
    (tapLines loads merge rest acc lines).raised = false ↔ ∀ line ∈ lines, TameLine loads Tame line
  | [], acc => by simp [tapLines]
  | line :: lines, acc => by
      rw [tapLines, List.forall_mem_cons, TameLine]
      cases lineEvent loads line with
      | ignored => simpa using tapLines_raised_iff htame rest lines acc
      | raises => simp
      | deliver v =>
        have hv := htame acc v
        simp only
        cases hmerge : merge acc v with
        | none =>
          have hwild : ¬ Tame v := by simpa [hmerge] using hv
          simp [hwild]
        | some acc' =>
          have hthis : Tame v := hv.mp (by simp [hmerge])
          simpa [hthis] using tapLines_raised_iff htame rest lines acc'

/-- Without an exception the text after the last line feed is held back. -/
theorem tapLines_buffer {rest : List Char} : ∀ {lines : List (List Char)} {acc : S},
    (tapLines loads merge rest acc lines).raised = false →
      (tapLines loads merge rest acc lines).buffer = rest
  | [], _, _ => rfl
  | line :: lines, acc, h => by
      rw [tapLines] at h ⊢
      cases hline : lineEvent loads line with
      | ignored =>
        rw [hline] at h
        exact tapLines_buffer h
      | raises =>
        rw [hline] at h
        cases h
      | deliver v =>
        rw [hline] at h
        simp only at h ⊢
        cases hmerge : merge acc v with
        | none =>
          rw [hmerge] at h
          cases h
        | some acc' =>
          rw [hmerge] at h
          exact tapLines_buffer h

/-- Once a `feed` has raised, the relay reports it at its end. -/
theorem relay_raised_of_raised (ending : Ending) (errorBody : List UInt8) :
    ∀ (chunks : List (List UInt8)) {tap : Tap S}, tap.raised = true →
    (relayUpstream loads merge ending errorBody tap chunks).2 = true
  | [], tap, h => h
  | chunk :: chunks, tap, h =>
      relay_raised_of_raised ending errorBody chunks (by simp [Tap.feed, h])

/-- **When no `feed` raises**: when the complete lines of all the text
that the chunks decode to are tame. -/
theorem relay_raised_iff (htame : ∀ acc v, merge acc v ≠ none ↔ Tame v) (ending : Ending)
    (errorBody : List UInt8) : ∀ (chunks : List (List UInt8)) {tap : Tap S},
    tap.raised = false → '\n' ∉ tap.buffer →
    ((relayUpstream loads merge ending errorBody tap chunks).2 = false
      ↔ TameText loads Tame (tap.buffer ++ chunks.flatMap decodeIgnore))
  | [], tap, hraised, hbuffer => by
      rw [List.flatMap_nil, List.append_nil, TameText, completeLines_hold hbuffer]
      simpa [relayUpstream] using hraised
  | chunk :: chunks, tap, hraised, hbuffer => by
      have hsplit := completeLines_append (chunks.flatMap decodeIgnore)
        (tap.buffer ++ decodeIgnore chunk)
      have hlines := tapLines_raised_iff loads merge htame
        (completeLines (tap.buffer ++ decodeIgnore chunk)).2
        (completeLines (tap.buffer ++ decodeIgnore chunk)).1 tap.acc
      rw [relayUpstream, List.flatMap_cons, ← List.append_assoc, TameText, hsplit]
      simp only [List.forall_mem_append, ← hlines]
      cases hnow : (tapLines loads merge (completeLines (tap.buffer ++ decodeIgnore chunk)).2
        tap.acc (completeLines (tap.buffer ++ decodeIgnore chunk)).1).raised with
      | true =>
        have hlater := relay_raised_of_raised loads merge ending errorBody chunks
          (show (tap.feed loads merge chunk).raised = true by
            simp [Tap.feed, decoded_eq, hnow])
        simp [hlater]
      | false =>
        have hkept : (tap.feed loads merge chunk).buffer
            = (completeLines (tap.buffer ++ decodeIgnore chunk)).2 := by
          rw [Tap.feed, decoded_eq]
          exact tapLines_buffer loads merge hnow
        have hquiet : (tap.feed loads merge chunk).raised = false := by
          simp [Tap.feed, decoded_eq, hnow, hraised]
        have ih := relay_raised_iff htame ending errorBody chunks hquiet
          (by rw [hkept]; exact completeLines_rest _)
        rw [ih, hkept, TameText]
        simp

end

end MultiForge.Proxy.StreamRelay
