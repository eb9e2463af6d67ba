/-
MultiForge.Proxy.Usage — what the passthrough proxies read of a response.

Both wire shapes tap token counts from bodies and events that come from
outside. The Anthropic tap converts every count with `int`, which raises
on many values (`normalizeUsage_isSome_iff`); the Responses tap coerces
each count to a number or to nothing, and the cost header to a float,
which it then rounds.
-/
import MultiForge.Json.Value
import MultiForge.Lib.Dict
import MultiForge.Lib.Lines

namespace MultiForge.Proxy.Usage

open MultiForge.Json

/-! ## 1. `int(text)` -/

/-- The decimal zeros of Unicode 14; nine digits follow each of them. -/
def decimalZeros : List Nat :=
  [0x30, 0x660, 0x6f0, 0x7c0, 0x966, 0x9e6, 0xa66, 0xae6, 0xb66, 0xbe6, 0xc66, 0xce6, 0xd66,
    0xde6, 0xe50, 0xed0, 0xf20, 0x1040, 0x1090, 0x17e0, 0x1810, 0x1946, 0x19d0, 0x1a80, 0x1a90,
    0x1b50, 0x1bb0, 0x1c40, 0x1c50, 0xa620, 0xa8d0, 0xa900, 0xa9d0, 0xa9f0, 0xaa50, 0xabf0,
    0xff10, 0x104a0, 0x10d30, 0x11066, 0x110f0, 0x11136, 0x111d0, 0x112f0, 0x11450, 0x114d0,
    0x11650, 0x116c0, 0x11730, 0x118e0, 0x11950, 0x11c50, 0x11d50, 0x11da0, 0x16a60, 0x16ac0,
    0x16b50, 0x1d7ce, 0x1d7d8, 0x1d7e2, 0x1d7ec, 0x1d7f6, 0x1e140, 0x1e2f0, 0x1e950, 0x1fbf0]

/-- The value of a decimal digit. -/
def decimal? (c : Char) : Option Nat :=
  decimalZeros.findSome? fun first =>
    if first ≤ c.toNat ∧ c.toNat < first + 10 then some (c.toNat - first) else none

/-- Digits, with single underscores between them. -/
def digits? : List Char → Option (List Nat)
  | [] => none
  | [c] => (decimal? c).map ([·])
  | c :: '_' :: rest => do
      let d ← decimal? c
      let ds ← digits? rest
      some (d :: ds)
  | c :: rest => do
      let d ← decimal? c
      let ds ← digits? rest
      some (d :: ds)

/-- `sys.int_info.default_max_str_digits` -/
def maxStrDigits : Nat := 4300

/-- The separators U+001C to U+001F are spaces to `str.strip` but not to
`int`. -/
def isIntSpace (c : Char) : Bool := Lines.isSpace c && !('\x1c' ≤ c && c ≤ '\x1f')

/-- `int(text)`, or `none` where it raises `ValueError`. -/
def intOf? (text : List Char) : Option Int :=
  let signed := (text.dropWhile isIntSpace).rdropWhile isIntSpace
  let (negative, unsigned) := match signed with
    | '-' :: rest => (true, rest)
    | '+' :: rest => (false, rest)
    | rest => (false, rest)
  match digits? unsigned with
  | none => none
  | some ds =>
      if maxStrDigits < ds.length then none
      else
        let n : Int := (ds.foldl (fun n d => 10 * n + d) 0 : Nat)
        some (if negative then -n else n)

/-- What the taps do with a `float`. -/
class PyReal (F : Type) extends PyFloat F where
  /-- `int(x)`, or `none` where it raises: for NaN and the infinities -/
  trunc? : F → Option Int
  /-- `x < 0` -/
  neg : F → Bool
  /-- `float(text)`, or `none` where it raises `ValueError` -/
  ofText? : String → Option F
  /-- `round(x * 1_000_000)`, or `none` where it raises -/
  micros? : F → Option Int

/-- JSON without floats. -/
instance : PyReal Empty where
  toInt? := nofun
  pos := nofun
  eq := nofun
  trunc? := nofun
  neg := nofun
  ofText? := fun _ => none
  micros? := nofun

variable {F : Type} [PyReal F]

/-- Token counts by name, in the order they were set. -/
abbrev Counts := List (String × Int)

/-! ## 2. The Anthropic tap -/

namespace Anthropic

/-- `int(v or 0)`, or `none` where it raises. -/
def intOr0? (v : Json F) : Option Int :=
  if v.truthy = false then some 0
  else match v with
    | .bool b => some (if b then 1 else 0)
    | .int n => some n
    | .float x => PyReal.trunc? x
    | .str s => intOf? s.toList
    | _ => none

/-- One entry, unless the value is `None`. -/
def entry (name : String) (n : Int) : Json F → Counts
  | .null => []
  | _ => [(name, n)]

/-- `_normalize_usage`, or `none` where it raises. Where the code passes
over `None`, converting it gives 0. -/
def normalizeUsage : Json F → Option Counts
  | .obj usage => do
      let reads ← intOr0? (get usage "cache_read_input_tokens")
      let writes ← intOr0? (get usage "cache_creation_input_tokens")
      let input ← intOr0? (get usage "input_tokens")
      let output ← intOr0? (get usage "output_tokens")
      some (entry "input_tokens" (input + reads + writes) (get usage "input_tokens")
        ++ entry "output_tokens" output (get usage "output_tokens")
        ++ entry "cached_tokens" reads (get usage "cache_read_input_tokens")
        ++ entry "cache_write_tokens" writes (get usage "cache_creation_input_tokens"))
  | _ => some []

def extractUsageFromMessage : Json F → Option Counts
  | .obj payload => normalizeUsage (get payload "usage")
  | _ => some []

/-- `_UsageAccumulator` without its framer. -/
structure Accumulator where
  usage : Counts := []
  sawContent : Bool := false
  sawFinalUsage : Bool := false
  deriving DecidableEq, Repr

/-- `(v or {}).get("usage")`, or `none` where it raises. -/
def messageUsage (v : Json F) : Option (Json F) :=
  if v.truthy = false then some .null
  else match v with
    | .obj message => some (get message "usage")
    | _ => none

/-- The loop over the names that `message_start` sets. -/
def setFrom (parsed usage : Counts) : Counts :=
  ["input_tokens", "cached_tokens", "cache_write_tokens", "output_tokens"].foldl
    (fun usage key => match Dict.find key parsed with
      | some n => Dict.put key n usage
      | none => usage) usage

/-- `_merge`, or `none` where it raises; it has changed nothing then. -/
def merge (acc : Accumulator) : Json F → Option Accumulator
  | .obj event => match get event "type" with
    | .str "message_start" => do
        let usage ← messageUsage (get event "message")
        let parsed ← normalizeUsage usage
        some { acc with usage := setFrom parsed acc.usage }
    | .str "message_delta" => do
        let parsed ← normalizeUsage (get event "usage")
        some (match Dict.find "output_tokens" parsed with
          | some n =>
              { acc with usage := Dict.put "output_tokens" n acc.usage, sawFinalUsage := true }
          | none => acc)
    | .str "content_block_start" => some { acc with sawContent := true }
    | .str "content_block_delta" => some { acc with sawContent := true }
    | _ => some acc
  | _ => some acc

/-- The counts that `_normalize_usage` converts. -/
def countFields : List String :=
  ["cache_read_input_tokens", "cache_creation_input_tokens", "input_tokens", "output_tokens"]

/-- A usage value whose counts are numbers to `int`. -/
def Countable : Json F → Prop
  | .obj usage => ∀ field ∈ countFields, intOr0? (get usage field) ≠ none
  | _ => True

theorem normalizeUsage_isSome_iff : ∀ usage : Json F,
    normalizeUsage usage ≠ none ↔ Countable usage
  | .obj usage => by
      simp only [normalizeUsage, Countable, countFields, List.forall_mem_cons]
      cases intOr0? (get usage "cache_read_input_tokens") with
      | none => simp
      | some reads =>
        cases intOr0? (get usage "cache_creation_input_tokens") with
        | none => simp
        | some writes =>
          cases intOr0? (get usage "input_tokens") with
          | none => simp
          | some input =>
            cases intOr0? (get usage "output_tokens") with
            | none => simp
            | some output => simp
  | .null | .bool _ | .int _ | .float _ | .str _ | .list _ => by simp [normalizeUsage, Countable]

/-- The usage object that `_merge` reads of an event. -/
def eventUsage : Json F → Option (Json F)
  | .obj event => match get event "type" with
    | .str "message_start" => messageUsage (get event "message")
    | .str "message_delta" => some (get event "usage")
    | _ => some .null
  | _ => some .null

/-- An event whose message is an object, if it is read, and whose counts
are numbers. -/
def Tame (event : Json F) : Prop := ∃ usage, eventUsage event = some usage ∧ Countable usage

/-- Whether `_merge` raises does not depend on what came before. -/
theorem merge_isSome_iff (acc : Accumulator) : ∀ event : Json F,
    merge acc event ≠ none ↔ Tame event
  | .obj event => by
      rw [merge, Tame, eventUsage]
      split
      · rename_i htype
        simp only [htype]
        cases messageUsage (get event "message") with
        | none => simp
        | some usage =>
          have hcount := normalizeUsage_isSome_iff usage
          cases hparsed : normalizeUsage usage with
          | none => simpa [hparsed] using hcount
          | some parsed => simpa [hparsed] using hcount
      · rename_i htype
        simp only [htype]
        have hcount := normalizeUsage_isSome_iff (get event "usage")
        cases hparsed : normalizeUsage (get event "usage") with
        | none => simpa [hparsed] using hcount
        | some parsed => simpa [hparsed] using hcount
      · rename_i htype
        simp [htype, Countable]
      · rename_i htype
        simp [htype, Countable]
      · rename_i hstart hdelta _ _
        split
        · exact absurd ‹_› hstart
        · exact absurd ‹_› hdelta
        · simp [Countable]
  | .null | .bool _ | .int _ | .float _ | .str _ | .list _ => by
      simp [merge, Tame, eventUsage, Countable]

end Anthropic

/-! ## 3. The Responses tap -/

namespace Responses

/-- `_coerce_int` -/
def coerceInt : Json F → Option Int
  | .int n => if 0 ≤ n then some n else none
  | .float x => match PyReal.trunc? x with
    | some n => if PyReal.neg x then none else some n
    | none => none
  | .str s => match intOf? (Lines.strip s.toList) with
    | some n => if 0 ≤ n then some n else none
    | none => none
  | _ => none

def counted (name : String) (v : Json F) : Counts :=
  match coerceInt v with
  | some n => [(name, n)]
  | none => []

def normalizeUsage : Json F → Counts
  | .obj usage =>
      counted "input_tokens" (get usage "input_tokens")
        ++ counted "output_tokens" (get usage "output_tokens")
        ++ match get usage "input_tokens_details" with
          | .obj details => counted "cached_tokens" (get details "cached_tokens")
          | _ => []
  | _ => []

def extractUsageFromResponse : Json F → Counts
  | .obj payload => normalizeUsage (get payload "usage")
  | _ => []

/-- `_failure_from_terminal_status` -/
def failureFromTerminalStatus : Json F → Bool × Option String
  | .str "failed" => (true, some "response_failed")
  | _ => (false, none)

/-- `_ResponsesUsageAccumulator` without its framer. -/
structure Accumulator where
  usage : Counts := []
  firstChunkSeen : Bool := false
  finalUsageSeen : Bool := false
  terminalStatus : Option String := none
  deriving DecidableEq, Repr

/-- The end of a stream with the status `status`. -/
def Accumulator.terminal (acc : Accumulator) (status : String) (event : List (String × Json F)) :
    Accumulator :=
  let parsed := match get event "response" with
    | .obj response => normalizeUsage (get response "usage")
    | _ => []
  let acc := { acc with terminalStatus := some status }
  if parsed = [] then acc else { acc with usage := parsed, finalUsageSeen := true }

/-- `_merge` -/
def merge (acc : Accumulator) : Json F → Accumulator
  | .obj event => match get event "type" with
    | .str "response.output_text.delta" => { acc with firstChunkSeen := true }
    | .str "response.output_item.added" => { acc with firstChunkSeen := true }
    | .str "response.completed" => acc.terminal "completed" event
    | .str "response.incomplete" => acc.terminal "incomplete" event
    | .str "response.failed" => acc.terminal "failed" event
    | _ => acc
  | _ => acc

/-- `cost_from_response_headers`, for the header's value. -/
def costFromResponseHeaders (raw : Option String) : Option F := raw.bind PyReal.ofText?

/-- `reported_cost_micros_from_headers`, or `none` where it raises. -/
def reportedCostMicros (F : Type) [PyReal F] (raw : Option String) : Option (Option Int) :=
  match costFromResponseHeaders raw with
  | none => some none
  | some (usd : F) => if PyReal.neg usd then some none else (PyReal.micros? usd).map some

end Responses

end MultiForge.Proxy.Usage
