/-
MultiForge.Diff.SplitDiff — one diff cut into the sections of its files.

`split_diff_per_file` gives every policy the sections that it checks. In a
diff with `diff --git` lines a section reaches from one such line to the
next, and the path is read from the `+++` line or else from the metadata.
In a diff without them the sections begin at the `+++` lines. An added
line can look like one, so `_headerless_plus_headers` walks through the
lines and counts those of each hunk.

The patterns are matched at line starts, and these come after line feeds
only, while the walk goes by the lines of `str.splitlines`.
-/
import MultiForge.Diff.GitPath
import MultiForge.Lib.LineEnds
import MultiForge.Lib.Sections
import MultiForge.Lib.Except

namespace MultiForge.Diff

open FsCodec Lines Sections

/-- Why a diff is refused. -/
inductive SplitError where
  /-- `DiffParseError(unattributed_chunks)` -/
  | unattributed (chunks : Nat)
  /-- `int()` of too many digits -/
  | digits
  deriving DecidableEq, Repr

/-! ## 1. Patterns -/

/-- The zeros of the decimal digits of Unicode: `\d` and `int()` take each
of them and the nine characters after it. -/
def decimalZeros : List Nat :=
  [0x30, 0x660, 0x6f0, 0x7c0, 0x966, 0x9e6, 0xa66, 0xae6, 0xb66, 0xbe6, 0xc66, 0xce6, 0xd66, 0xde6,
   0xe50, 0xed0, 0xf20, 0x1040, 0x1090, 0x17e0, 0x1810, 0x1946, 0x19d0, 0x1a80, 0x1a90, 0x1b50,
   0x1bb0, 0x1c40, 0x1c50, 0xa620, 0xa8d0, 0xa900, 0xa9d0, 0xa9f0, 0xaa50, 0xabf0, 0xff10, 0x104a0,
   0x10d30, 0x11066, 0x110f0, 0x11136, 0x111d0, 0x112f0, 0x11450, 0x114d0, 0x11650, 0x116c0,
   0x11730, 0x118e0, 0x11950, 0x11c50, 0x11d50, 0x11da0, 0x16a60, 0x16ac0, 0x16b50, 0x1d7ce,
   0x1d7d8, 0x1d7e2, 0x1d7ec, 0x1d7f6, 0x1e140, 0x1e2f0, 0x1e950, 0x1fbf0]

/-- The value of a decimal digit. -/
def decimalValue? (c : Char) : Option Nat :=
  (decimalZeros.find? fun start => start ≤ c.toNat && c.toNat < start + 10).map (c.toNat - ·)

/-- `\d` -/
def isDigit (c : Char) : Bool := (decimalValue? c).isSome

/-- The text up to its first line feed. -/
def lineText (text : List Char) : List Char := text.takeWhile (· ≠ '\n')

/-- What `^<word>(.+)$` captures at a line start. -/
def capture (word text : List Char) : Option (List Char) :=
  match text.dropPrefix? word with
  | some rest => if lineText rest = [] then none else some (lineText rest)
  | none => none

/-- The lines at which a pattern can match. -/
def patternLines (text : List Char) : List (List Char) := splitAfter (· = '\n') text

/-- `pattern.search(chunk)` -/
def searchLine (word chunk : List Char) : Option (List Char) :=
  (patternLines chunk).findSome? (capture word)

/-- `pattern.match(diff, offset)`: only a line feed makes a line start. -/
def matchAt (word diff : List Char) (offset : Nat) : Option (List Char) :=
  if offset = 0 ∨ diff[offset - 1]? = some '\n' then capture word (diff.drop offset) else none

/-- The words of a file header. -/
inductive HeaderKind where
  | git
  | combined
  deriving DecidableEq, Repr

/-- `_DIFF_FILE_HEADER_RE`: the kind of header, and its body. -/
def fileHeader? (line : List Char) : Option (HeaderKind × List Char) :=
  ((capture "diff --git ".toList line).map (.git, ·)).or
    (((capture "diff --cc ".toList line).or (capture "diff --combined ".toList line)).map
      (.combined, ·))

/-- `_DIFF_DELETED_FILE_MODE_RE` -/
def isDeletedMode (line : List Char) : Bool :=
  match capture "deleted file mode ".toList line with
  | some mode =>
      !(mode.takeWhile isDigit).isEmpty
        && (mode.dropWhile isDigit = [] || mode.dropWhile isDigit = ['\r'])
  | none => false

/-- `\d+` and what follows it. -/
def digitRun (text : List Char) : Option (List Char × List Char) :=
  match text.takeWhile isDigit with
  | [] => none
  | digits => some (digits, text.dropWhile isDigit)

/-- `\d+(?:,(?P<count>\d+))?`: the count, and what follows. -/
def rangeRun (text : List Char) : Option (Option (List Char) × List Char) :=
  match digitRun text with
  | some (_, ',' :: rest) => match digitRun rest with
    | some (count, after) => some (some count, after)
    | none => some (none, ',' :: rest)
  | some (_, rest) => some (none, rest)
  | none => none

/-- `_UNIFIED_HUNK_HEADER_RE`: the two counts. -/
def hunkHeader? (text : List Char) : Option (Option (List Char) × Option (List Char)) := do
  let (old, rest) ← rangeRun (← text.dropPrefix? "@@ -".toList)
  let (new, rest) ← rangeRun (← rest.dropPrefix? " +".toList)
  let _ ← rest.dropPrefix? " @@".toList
  some (old, new)

/-- `sys.get_int_max_str_digits()` -/
def maxStrDigits : Nat := 4300

/-- `int(count or "1")` -/
def readCount : Option (List Char) → Except SplitError Int
  | none => .ok 1
  | some digits =>
      if digits.length ≤ maxStrDigits then
        .ok (digits.foldl (fun value c => value * 10 + (decimalValue? c).getD 0) 0)
      else .error .digits

/-! ## 2. Paths -/

/-- A text of the diff as text that can hold undecoded bytes. -/
def scalars (text : List Char) : Text := text.map .scalar

/-- `path.removesuffix("\r")` -/
def removeCr (text : List Char) : List Char :=
  if text.getLast? = some '\r' then text.dropLast else text

/-- `_metadata_destination`; no path where it does not decode -/
def metadataDestination (captured : List Char) : Text :=
  (decodeGitPathToken (scalars (removeCr captured))).getD []

/-- `_combined_header_destination` -/
def combinedHeaderDestination (body : List Char) : Text :=
  (decodeGitPathToken (scalars (removeCr body))).getD []

/-! ## 3. The walk -/

/-- A destination header: where it starts, and the path if it decodes. -/
structure PlusHeader where
  start : Nat
  path : Option Text
  deriving DecidableEq

/-- The state of `_headerless_plus_headers`. -/
structure Walk where
  headers : List PlusHeader
  sourceHeaderPending : Bool
  /-- `old_remaining` and `new_remaining`; they are set together -/
  remaining : Option (Int × Int)
  offset : Nat

/-- A hunk that is not done. -/
def stillOpen (old new : Int) : Option (Int × Int) :=
  if old ≤ 0 ∧ new ≤ 0 then none else some (old, new)

/-- The counts after a line of the hunk. -/
def countLine (text : List Char) (old new : Int) : Option (Int × Int) :=
  if text.head? = some '\\' then some (old, new)
  else
    stillOpen (if text.head? = some ' ' ∨ text.head? = some '-' then old - 1 else old)
      (if text.head? = some ' ' ∨ text.head? = some '+' then new - 1 else new)

/-- The counts of a hunk header; a hunk of nothing is over at once. -/
def openHunk (old new : Int) : Option (Int × Int) :=
  if old = 0 ∧ new = 0 then none else some (old, new)

/-- One line of `_headerless_plus_headers`. -/
def walkLine (diff : List Char) (walk : Walk) (line : List Char) : Except SplitError Walk :=
  let text := chomp line
  let offset := walk.offset + line.length
  match walk.remaining with
  | some (old, new) => .ok { walk with remaining := countLine text old new, offset }
  | none => match hunkHeader? text with
    | some (oldCount, newCount) => do
        let old ← readCount oldCount
        let new ← readCount newCount
        .ok { walk with remaining := openHunk old new, sourceHeaderPending := false, offset }
    | none => match matchAt "+++ ".toList diff walk.offset with
      | some captured =>
          -- a later destination without a source is kept, without its path
          let path := if walk.sourceHeaderPending || walk.headers.isEmpty then
            plusHeaderPath (scalars captured) else none
          .ok { walk with
            headers := walk.headers ++ [⟨walk.offset, path⟩], sourceHeaderPending := false, offset }
      | none =>
          .ok { walk with
            sourceHeaderPending := (matchAt "--- ".toList diff walk.offset).isSome, offset }

/-- `_headerless_plus_headers` -/
def headerlessPlusHeaders (diff : List Char) : Except SplitError (List PlusHeader) :=
  Walk.headers <$> (splitLines diff).foldlM (walkLine diff) ⟨[], false, none, 0⟩

/-! ## 4. `split_diff_per_file` -/

/-- What is made of a section. -/
inductive Attribution where
  | kept (path : Text)
  | deleted
  | unattributed
  deriving DecidableEq

/-- A path, where an empty one is none. -/
def attributePath (path : Text) : Attribution := if path = [] then .unattributed else .kept path

/-- The attribution of a section that a `+++` line begins. -/
def plusAttribution : Option Text → Attribution
  | none => .unattributed
  | some path => if path = ascii "/dev/null" then .deleted else .kept path

/-- The sections at the destination headers. -/
def plusSections (diff : List Char) : List PlusHeader → List (Attribution × List Char)
  | [] => []
  | [header] => [(plusAttribution header.path, diff.drop header.start)]
  | header :: next :: rest =>
      (plusAttribution header.path, (diff.drop header.start).take (next.start - header.start))
        :: plusSections diff (next :: rest)

/-- The path of a section without a `+++` path. -/
def metadataPath (header : HeaderKind × List Char) (chunk : List Char) : Text :=
  let renamed := ((searchLine "rename to ".toList chunk).map metadataDestination).getD []
  let copied := ((searchLine "copy to ".toList chunk).map metadataDestination).getD []
  if renamed ≠ [] then renamed
  else if copied ≠ [] then copied
  else match header with
    | (.git, body) => gitHeaderDestination (scalars body)
    | (.combined, body) => combinedHeaderDestination body

/-- The attribution of a section that a file header begins. -/
def chunkAttribution (header : HeaderKind × List Char) (chunk : List Char) : Attribution :=
  let plusPath := (searchLine "+++ ".toList chunk).map fun captured =>
    plusHeaderPath (scalars captured)
  if plusPath = some (some (ascii "/dev/null")) then .deleted
  else if (patternLines chunk).any isDeletedMode then .deleted
  else
    let path := (plusPath.bind id).getD []
    attributePath (if path ≠ [] then path else metadataPath header chunk)

/-- The sections at the file headers. -/
def chunks (diff : List Char) : List (Attribution × List Char) :=
  (sections fileHeader? (patternLines diff)).map fun (header, lines) =>
    (chunkAttribution header lines.flatten, lines.flatten)

/-- The section, if it is kept. -/
def keptSection : Attribution × List Char → Option (Text × List Char)
  | (.kept path, text) => some (path, text)
  | _ => none

/-- The kept sections, unless one has no path. -/
def collect (parts : List (Attribution × List Char)) :
    Except SplitError (List (Text × List Char)) :=
  match parts.countP fun part => part.1 = .unattributed with
  | 0 => .ok (parts.filterMap keptSection)
  | count => .error (.unattributed count)

/-- `split_diff_per_file` -/
def splitDiffPerFile (diff : List Char) : Except SplitError (List (Text × List Char)) :=
  if isBlank diff then .ok []
  else if (patternLines diff).any fun line => (fileHeader? line).isSome then collect (chunks diff)
  else do collect (plusSections diff (← headerlessPlusHeaders diff))

end MultiForge.Diff
