/-
MultiForge.Proxy.SseFraming — `SseJsonDataFramer`.

The framer decodes each chunk by itself, joins what it got to the text it
holds back, and delivers the value of every complete `data:` line.
`json.loads` is a parameter: it gives a value, or rejects the text with an
exception that `feed` catches, or raises another one, which leaves `feed`.

What is delivered are the data values of the decoded text
(`feedAll_events`), so nothing but decoding depends on the chunks. A chunk
that ends inside a character loses it (`framing_independent_iff`).
-/
import MultiForge.Lib.Lines
import MultiForge.Lib.Utf8

namespace MultiForge.Proxy.SseFraming

open Lines Utf8

/-! ## 1. The framer -/

/-- What `json.loads` does with a text; `malformed` is a `TypeError` or a
`ValueError`. -/
inductive Loaded (V : Type) where
  | value (v : V)
  | malformed
  | raises
  deriving DecidableEq, Repr

/-- What a line comes to. -/
inductive LineEvent (V : Type) where
  | ignored
  | deliver (v : V)
  | raises
  deriving DecidableEq, Repr

variable {V : Type} (loads : List Char → Loaded V)

/-- The body of the loop, for the line before a line feed. -/
def lineEvent (line : List Char) : LineEvent V :=
  let line := strip line
  if "data:".toList.isPrefixOf line = false then .ignored
  else
    let data := strip (line.drop "data:".toList.length)
    if data = [] ∨ data = "[DONE]".toList then .ignored
    else match loads data with
      | .value v => .deliver v
      | .malformed => .ignored
      | .raises => .raises

/-- The lines of a buffer that a line feed ends, and what is left. -/
def completeLines : List Char → List (List Char) × List Char
  | [] => ([], [])
  | c :: cs =>
      let (lines, rest) := completeLines cs
      if c = '\n' then ([] :: lines, rest)
      else match lines with
        | [] => ([], c :: rest)
        | line :: lines => ((c :: line) :: lines, rest)

/-- What feeding came to: the delivered values, the text held back, and
whether an exception left `feed`. -/
structure Fed (V : Type) where
  events : List V
  buffer : List Char
  raised : Bool
  deriving DecidableEq, Repr

/-- The loop over the complete lines. When a line raises, the lines after
it are still in the buffer. -/
def deliver (rest : List Char) : List (List Char) → Fed V
  | [] => ⟨[], rest, false⟩
  | line :: lines => match lineEvent loads line with
    | .ignored => deliver rest lines
    | .deliver v =>
        let fed := deliver rest lines
        { fed with events := v :: fed.events }
    | .raises => ⟨[], lines.flatMap (· ++ ['\n']) ++ rest, true⟩

/-- The text of a chunk. -/
def decoded (chunk : List UInt8) : List Char := (decode chunk).getD (decodeIgnore chunk)

/-- `SseJsonDataFramer.feed`, with a callback that does not raise. -/
def feed (buffer : List Char) (chunk : List UInt8) : Fed V :=
  let (lines, rest) := completeLines (buffer ++ decoded chunk)
  deliver loads rest lines

/-- Chunks fed one after another, up to an exception. -/
def feedAll (buffer : List Char) : List (List UInt8) → Fed V
  | [] => ⟨[], buffer, false⟩
  | chunk :: chunks =>
      let fed := feed loads buffer chunk
      if fed.raised then fed
      else
        let later := feedAll fed.buffer chunks
        { later with events := fed.events ++ later.events }

/-! ## 2. Lines -/

/-- The data values of a text, up to a line that raises. -/
def dataValues (text : List Char) : List V := (deliver loads [] (completeLines text).1).events

theorem completeLines_rest : ∀ text : List Char, '\n' ∉ (completeLines text).2
  | [] => by simp [completeLines]
  | c :: cs => by
      have ih := completeLines_rest cs
      rw [completeLines]
      generalize completeLines cs = split at ih ⊢
      obtain ⟨lines, rest⟩ := split
      by_cases hc : c = '\n'
      · simpa [hc] using ih
      · cases lines with
        | nil => simpa [hc, Ne.symm hc] using ih
        | cons line lines => simpa [hc] using ih

/-- A buffer without a line feed is the beginning of the next line. -/
theorem completeLines_hold : ∀ {buffer : List Char}, '\n' ∉ buffer →
    completeLines buffer = ([], buffer)
  | [], _ => rfl
  | c :: cs, h => by
      rw [List.mem_cons, not_or] at h
      rw [completeLines, completeLines_hold h.2]
      simp only
      rw [if_neg (Ne.symm h.1)]

/-- The complete lines of a text come first, whatever follows. -/
theorem completeLines_append (text' : List Char) : ∀ text : List Char,
    completeLines (text ++ text')
      = ((completeLines text).1 ++ (completeLines ((completeLines text).2 ++ text')).1,
        (completeLines ((completeLines text).2 ++ text')).2)
  | [] => rfl
  | c :: cs => by
      have ih := completeLines_append text' cs
      rw [List.cons_append, completeLines, ih, completeLines]
      by_cases hc : c = '\n'
      · simp only [if_pos hc, List.cons_append]
      · cases hlines : (completeLines cs).1 with
        | nil =>
          simp only [if_neg hc, hlines, List.nil_append, List.cons_append]
          rw [completeLines]
          simp only [if_neg hc]
        | cons line lines => simp only [if_neg hc, hlines, List.cons_append]

theorem deliver_events (rest rest' : List Char) : ∀ lines : List (List Char),
    (deliver loads rest lines).events = (deliver loads rest' lines).events
      ∧ (deliver loads rest lines).raised = (deliver loads rest' lines).raised
  | [] => ⟨rfl, rfl⟩
  | line :: lines => by
      have ih := deliver_events rest rest' lines
      rw [deliver, deliver]
      cases lineEvent loads line with
      | ignored => exact ih
      | deliver v => exact ⟨congrArg (v :: ·) ih.1, ih.2⟩
      | raises => exact ⟨rfl, rfl⟩

/-- Without an exception the text after the last line feed is held back. -/
theorem deliver_buffer {rest : List Char} : ∀ {lines : List (List Char)},
    (deliver loads rest lines).raised = false → (deliver loads rest lines).buffer = rest
  | [], _ => rfl
  | line :: lines, h => by
      rw [deliver] at h ⊢
      cases hline : lineEvent loads line with
      | ignored =>
        rw [hline] at h
        exact deliver_buffer h
      | deliver v =>
        rw [hline] at h
        exact @deliver_buffer rest lines h
      | raises =>
        rw [hline] at h
        cases h

theorem deliver_append (rest : List Char) (lines' : List (List Char)) :
    ∀ lines : List (List Char),
    (deliver loads rest (lines ++ lines')).events
      = (deliver loads rest lines).events
        ++ (if (deliver loads rest lines).raised then []
            else (deliver loads rest lines').events)
  | [] => by simp [deliver]
  | line :: lines => by
      have ih := deliver_append rest lines' lines
      rw [List.cons_append, deliver, deliver]
      cases lineEvent loads line with
      | ignored => exact ih
      | deliver v => exact congrArg (v :: ·) ih
      | raises => rfl

/-! ## 3. Chunks -/

variable {loads}

theorem decoded_eq (chunk : List UInt8) : decoded chunk = decodeIgnore chunk := by
  unfold decoded
  cases h : decode chunk with
  | none => rfl
  | some text => exact (decodeIgnore_of_decode h).symm

/-- Chunks deliver the data values of all the text they decode to. -/
theorem feedAll_events : ∀ (chunks : List (List UInt8)) {buffer : List Char}, '\n' ∉ buffer →
    (feedAll loads buffer chunks).events
      = dataValues loads (buffer ++ chunks.flatMap decodeIgnore)
  | [], buffer, h => by
      rw [feedAll, List.flatMap_nil, List.append_nil, dataValues, completeLines_hold h]
      rfl
  | chunk :: chunks, buffer, h => by
      have hsplit := completeLines_append (chunks.flatMap decodeIgnore) (buffer ++ decodeIgnore chunk)
      have hrest := completeLines_rest (buffer ++ decodeIgnore chunk)
      have hdeliver := deliver_append loads []
        (completeLines ((completeLines (buffer ++ decodeIgnore chunk)).2
          ++ chunks.flatMap decodeIgnore)).1
        (completeLines (buffer ++ decodeIgnore chunk)).1
      have hsame := deliver_events loads (completeLines (buffer ++ decodeIgnore chunk)).2 []
        (completeLines (buffer ++ decodeIgnore chunk)).1
      rw [feedAll, List.flatMap_cons, ← List.append_assoc, dataValues, hsplit, hdeliver, feed,
        decoded_eq, ← hsame.1, ← hsame.2]
      simp only
      cases hraised : (deliver loads (completeLines (buffer ++ decodeIgnore chunk)).2
        (completeLines (buffer ++ decodeIgnore chunk)).1).raised with
      | true => simp
      | false =>
        rw [if_neg (by simp), if_neg (by simp), deliver_buffer loads hraised,
          feedAll_events chunks hrest]
        rfl

/-- The chunks deliver what the whole text delivers in one chunk. -/
def ChunkIndependent (loads : List Char → Loaded V) (text : List Char)
    (chunks : List (List UInt8)) : Prop :=
  (feedAll loads [] chunks).events = (feedAll loads [] [encode text]).events

/-- **When framing does not depend on the chunks.** It does not exactly
when the data lines keep their values without the characters that a chunk
boundary falls into: these are lost. -/
theorem framing_independent_iff (loads : List Char → Loaded V) (text : List Char)
    (chunks : List (List UInt8)) (h : chunks.flatten = encode text) :
    ChunkIndependent loads text chunks
      ↔ dataValues loads (uncut (boundaries 0 chunks) text) = dataValues loads text := by
  have hwhole : decodeIgnore (encode text) = text := decodeIgnore_of_decode (decode_encode text)
  unfold ChunkIndependent
  rw [feedAll_events chunks (by simp), feedAll_events [encode text] (by simp),
    decodeIgnore_chunks h]
  simp [hwhole]

/-- Boundaries between characters do not matter. -/
theorem framing_of_whole {text : List Char} {chunks : List (List UInt8)}
    (h : chunks.flatten = encode text)
    (hwhole : ∀ e ∈ spans 0 text, isWhole (boundaries 0 chunks) e = true) :
    ChunkIndependent loads text chunks := by
  rw [framing_independent_iff loads text chunks h, uncut, List.filter_eq_self.mpr hwhole,
    map_snd_spans]

/-- JSON strings without escapes. -/
def loadsPlain : List Char → Loaded String
  | '"' :: rest =>
      if rest.getLast? = some '"' ∧ '\\' ∉ rest then .value (String.ofList rest.dropLast)
      else .malformed
  | _ => .malformed

/-- The two bytes of the character arrive in different chunks. -/
theorem framing_cut_character :
    ¬ ChunkIndependent loadsPlain "data: \"é\"\n".toList
      [encode "data: \"".toList ++ [0xC3], [0xA9] ++ encode "\"\n".toList] := by
  rw [framing_independent_iff loadsPlain _ _ (by decide)]
  decide

/-- The same text cut between characters, and inside the line feed's line. -/
theorem framing_independent_iff_plain :
    ChunkIndependent loadsPlain "data: \"é\"\r\n".toList
      [encode "da".toList, encode "ta: \"é\"\r".toList, encode "\n".toList] :=
  (framing_independent_iff loadsPlain _ _ (by decide)).mpr (by decide)

end MultiForge.Proxy.SseFraming
