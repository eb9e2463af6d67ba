/-
MultiForge.Install.CodexConfig — the managed block in `config.toml`.

Forge appends its Codex hooks to the user's configuration as a block
between two marker lines and takes the block out again. The text outside
the block is the user's: appending works on the decoded bytes and keeps
them, but planning and removing read the file with universal newlines, so
removing writes a file with `\r\n` back with `\n`
(`codex_config_restored_iff`).

The TOML parser is a parameter with its two rules about carriage returns.
Errors are told apart by kind; their wording is left out, and so are
backups and file modes.
-/
import Mathlib.Data.List.Lex
import Mathlib.Data.Char
import MultiForge.Json.RoundTrip
import MultiForge.Lib.LineEnds
import MultiForge.Lib.PosixPath
import MultiForge.Lib.Shlex
import MultiForge.Lib.Utf8

namespace MultiForge.Install.CodexConfig

open MultiForge.Json Lines Utf8

/-! ## 1. Entries and their rendering -/

structure CodexHookEntry where
  event : List Char
  command : List Char
  timeout : Nat := 60
  matcher : Option (List Char) := none
  deriving DecidableEq

def codexBlockBegin : List Char := "# >>> forge hooks >>>".toList

def codexBlockEnd : List Char := "# <<< forge hooks <<<".toList

def codexHookEvents : List String :=
  ["SessionStart", "SubagentStart", "PreToolUse", "PostToolUse", "PermissionRequest",
    "PreCompact", "PostCompact", "UserPromptSubmit", "SubagentStop", "Stop"]

/-- `_toml_str` -/
def tomlStr (value : List Char) : List Char :=
  '"' :: (value.flatMap (fun c => if c = '\\' ∨ c = '"' then ['\\', c] else [c]) ++ ['"'])

/-- The lines of one entry. -/
def entryRows (entry : CodexHookEntry) : List (List Char) :=
  ["[[hooks.".toList ++ entry.event ++ "]]".toList]
    ++ (match entry.matcher with
      | some m => ["matcher = ".toList ++ tomlStr m]
      | none => [])
    ++ ["[[hooks.".toList ++ entry.event ++ ".hooks]]".toList,
      "type = \"command\"".toList,
      "command = ".toList ++ tomlStr entry.command,
      "timeout = ".toList ++ natChars entry.timeout]

/-- The lines of all entries, with an empty one between them. -/
def entriesRows : List CodexHookEntry → List (List Char)
  | [] => []
  | [entry] => entryRows entry
  | entry :: rest => entryRows entry ++ [] :: entriesRows rest

def bodyRows (entries : List CodexHookEntry) : List (List Char) :=
  "# Managed by 'forge extension enable'. Do not edit: Codex trust enrollment".toList
    :: "# hashes these definitions; any change silently disables the hooks.".toList
    :: entriesRows entries

/-- Lines, each with its line feed. -/
def unlines (rows : List (List Char)) : List Char := rows.flatMap (· ++ ['\n'])

/-- `render_codex_block` -/
def renderCodexBlock (entries : List CodexHookEntry) : List Char :=
  unlines (codexBlockBegin :: bodyRows entries ++ [codexBlockEnd])

/-- The path of the installed dispatcher: a text without line ends whose
last component is `forge-hook`. -/
structure DispatcherPath where
  text : List Char
  name_eq : (PosixPath.parse text).name = "forge-hook".toList
  oneLine : ∀ c ∈ text, isEol c = false

/-- `render_dispatcher_command` -/
def renderDispatcherCommand (path : DispatcherPath) (handler : String) : List Char :=
  Shlex.quote path.text ++ ' ' :: Shlex.quote handler.toList

/-- The events of `get_builtin_codex_entries`, with their handlers. -/
def builtinHandlers : List (String × String) :=
  [("SessionStart", "codex-session-start"), ("PreToolUse", "codex-policy-check"),
    ("UserPromptSubmit", "codex-turn-start"), ("PostToolUse", "codex-turn-tool"),
    ("Stop", "codex-stop")]

def getBuiltinCodexEntries (path : DispatcherPath) : List CodexHookEntry :=
  builtinHandlers.map fun (event, handler) =>
    { event := event.toList, command := renderDispatcherCommand path handler }

/-! ## 2. Marker lines -/

/-- `_split_block`: no block, a block with what is around it, or a begin
marker without an end marker. -/
inductive Split where
  | absent
  | block (before block after : List Char)
  | halfDeleted
  deriving DecidableEq

def splitBlock (text : List Char) : Split :=
  let lines := splitLines text
  let before := lines.takeWhile (chomp · ≠ codexBlockBegin)
  match lines.dropWhile (chomp · ≠ codexBlockBegin) with
  | [] => .absent
  | first :: rest =>
      let inner := rest.takeWhile (chomp · ≠ codexBlockEnd)
      match rest.dropWhile (chomp · ≠ codexBlockEnd) with
      | [] => .halfDeleted
      | last :: after =>
          .block before.flatten (first :: inner ++ [last]).flatten after.flatten

/-! ## 3. Registrations -/

/-- A TOML value; the parameter stands for numbers with a point and for
dates, which nothing here looks at. -/
abbrev Toml (F : Type) := Json F

variable {F : Type}

/-- The command of a hook table. -/
def hookCommand : Toml F → Option String
  | .obj hook => match get hook "type", get hook "command" with
    | .str "command", .str command => some command
    | _, _ => none
  | _ => none

/-- `_collect_registrations`: events with their commands. -/
def collectRegistrations (parsed : List (String × Toml F)) : List (String × String) :=
  match get parsed "hooks" with
  | .obj hooks => hooks.flatMap fun (event, eventEntries) => match eventEntries with
    | .list entries => entries.flatMap fun
      | .obj entry => match get entry "hooks" with
        | .list inner => (inner.filterMap hookCommand).map fun command => (event, command)
        | _ => []
      | _ => []
    | _ => []
  | _ => []

/-- `forge_hook_handler` -/
def forgeHookHandler (command : List Char) : Option (List Char) :=
  match Shlex.split (strip command) with
  | none => none
  | some [] => none
  | some (program :: arguments) =>
      let name := (PosixPath.parse program).name
      if name = "forge-hook".toList then arguments[0]?
      else if name = "forge".toList ∧ arguments[0]? = some "hook".toList then arguments[1]?
      else none

/-- The kind of a command and its value. -/
inductive Identity where
  | forgeHook (handler : List Char)
  | command (text : List Char)
  deriving DecidableEq

/-- `_command_identity` -/
def commandIdentity (command : List Char) : Identity :=
  match forgeHookHandler command with
  | some handler => .forgeHook handler
  | none => .command command

/-- `codex_registration_key` -/
def codexRegistrationKey (event command : List Char) : List Char × Identity :=
  (event, commandIdentity command)

/-- `codex_expected_registration_keys` -/
def codexExpectedRegistrationKeys (entries : List CodexHookEntry) : List (List Char × Identity) :=
  entries.map fun entry => codexRegistrationKey entry.event entry.command

/-- `_collect_registration_keys` -/
def collectRegistrationKeys (parsed : List (String × Toml F)) : List (List Char × Identity) :=
  (collectRegistrations parsed).map fun (event, command) =>
    codexRegistrationKey event.toList command.toList

/-- `_collect_forge_commands` -/
def collectForgeCommands (parsed : List (String × Toml F)) : List String :=
  (collectRegistrations parsed).filterMap fun (_, command) =>
    if (forgeHookHandler command.toList).isSome then some command else none

/-- What keeps the block from being appended. -/
inductive StructureConflict where
  | notTable
  | notArray (event : List Char)
  deriving DecidableEq

/-- `_structure_conflict` -/
def structureConflict (parsed : List (String × Toml F)) (events : List (List Char)) :
    Option StructureConflict :=
  match get parsed "hooks" with
  | .null => none
  | .obj hooks => ((events.mergeSort (· ≤ ·)).find? fun event => match get hooks (String.ofList event) with
      | .null => false
      | .list _ => false
      | _ => true).map .notArray
  | _ => some .notTable

/-! ## 4. Planning, merging and removing -/

/-- `tomllib.loads`: the tables of a text, with the rules for line ends.
A `\r\n` counts as `\n`, and no other carriage return is allowed. -/
structure TomlParser (F : Type) where
  parse : List Char → Option (List (String × Toml F))
  lineEnds : ∀ text, '\r' ∉ replaceCrlf text → parse (replaceCrlf text) = parse text
  noReturn : ∀ text, parse text ≠ none → '\r' ∉ replaceCrlf text

/-- A configuration: absent, or its bytes. -/
abbrev File := Option (List UInt8)

/-- `config_path.read_text(encoding="utf-8")` -/
def readText (bytes : List UInt8) : Option (List Char) := (decode bytes).map translate

inductive Conflict where
  | invalidToml
  | halfDeletedBlock
  | structure (conflict : StructureConflict)
  | partiallyRegistered (present missing : List (List Char × Identity))
  deriving DecidableEq

inductive CodexMergePlan where
  | install
  | update
  | skip
  | conflict (reason : Conflict)
  deriving DecidableEq

inductive ApplyError where
  | unknownEvents (events : List (List Char))
  | undecodable
  | conflict (reason : Conflict)
  | invalidMerge
  | missingRegistrations (keys : List (List Char × Identity))
  deriving DecidableEq

variable (toml : TomlParser F) (entries : List CodexHookEntry)

/-- `plan_codex_merge` after the file is read. -/
def planText (text : List Char) : CodexMergePlan :=
  match toml.parse text with
  | none => .conflict .invalidToml
  | some parsed => match splitBlock text with
    | .halfDeleted => .conflict .halfDeletedBlock
    | .block _ block _ => if block = renderCodexBlock entries then .skip else .update
    | .absent => match structureConflict parsed (entries.map CodexHookEntry.event) with
      | some conflict => .conflict (.structure conflict)
      | none =>
          let ours := codexExpectedRegistrationKeys entries
          let present := ours.filter (· ∈ collectRegistrationKeys parsed)
          if present = ours then .skip
          else if present ≠ [] then
            .conflict (.partiallyRegistered present (ours.filter (· ∉ present)))
          else .install

/-- Texts are equal when their characters are. -/
local instance lawfulBEqText : LawfulBEq (List Char) := inferInstance

/-- `plan_codex_merge` -/
def planCodexMerge (file : File) : Except ApplyError CodexMergePlan :=
  let unknown := (entries.map CodexHookEntry.event).filter
    (· ∉ codexHookEvents.map String.toList)
  if unknown ≠ [] then .error (.unknownEvents unknown)
  else match file with
    | none => .ok .install
    | some bytes => match readText bytes with
      | none => .error .undecodable
      | some text => .ok (planText toml entries text)

/-- What stands before an appended block. -/
def separated (text : List Char) : List Char :=
  let before := if text ≠ [] ∧ text.getLast? ≠ some '\n' then text ++ ['\n'] else text
  if isBlank before = false then before ++ ['\n'] else before

/-- The text with the block in it. -/
def mergedText (text : List Char) : Except ApplyError (List Char) :=
  match splitBlock text with
  | .halfDeleted => .error (.conflict .halfDeletedBlock)
  | .block before _ after => .ok (before ++ renderCodexBlock entries ++ after)
  | .absent => .ok (separated text ++ renderCodexBlock entries)

/-- The bytes of a merged text that passes its checks. -/
def writeMerged (text : List Char) : Except ApplyError File :=
  match mergedText entries text with
  | .error e => .error e
  | .ok new => match toml.parse new with
    | none => .error .invalidMerge
    | some merged =>
        let missing := (codexExpectedRegistrationKeys entries).filter
          (· ∉ collectRegistrationKeys merged)
        if missing ≠ [] then .error (.missingRegistrations missing)
        else .ok (some (encode new))

/-- `apply_codex_merge`: the file after it. -/
def applyCodexMerge (file : File) : Except ApplyError File :=
  match planCodexMerge toml entries file with
  | .error e => .error e
  | .ok .skip => .ok file
  | .ok (.conflict reason) => .error (.conflict reason)
  | .ok _ => match file with
    | none => writeMerged toml entries []
    | some bytes => match decode bytes with
      | none => .error .undecodable
      | some text => writeMerged toml entries text

/-- The Forge commands outside the block. -/
def leftoverCommands (remainder : List Char) : List String :=
  match toml.parse remainder with
  | some parsed => collectForgeCommands parsed
  | none => []

/-- What stood before the block without its separator. -/
def withoutSeparator (before : List Char) : List Char :=
  if "\n\n".toList <:+ before then before.dropLast else before

/-- `remove_codex_block`: the file after it, and the Forge commands that
remain; `none` where reading raises. -/
def removeCodexBlock (file : File) : Option (File × List String) :=
  match file with
  | none => some (none, [])
  | some bytes => match readText bytes with
    | none => none
    | some text =>
        match splitBlock text with
        | .block before _ after =>
            let new := withoutSeparator before ++ after
            some (if isBlank new then none else some (encode new),
              leftoverCommands toml (before ++ after))
        | _ => some (some bytes, leftoverCommands toml text)

/-! ## 5. Finding the block -/

/-- Rows that no line end is in, and that are no marker. -/
def PlainRow (row : List Char) : Prop :=
  (∀ c ∈ row, isEol c = false) ∧ row.getLast? ≠ some '<'

/-- The last line feed of a row is its only line end. -/
theorem eol_position {row u v : List Char} {e : Char} (hrow : ∀ c ∈ row, isEol c = false)
    (he : isEol e = true) (h : row ++ ['\n'] = u ++ e :: v) : v = [] ∧ row = u := by
  induction row generalizing u with
  | nil =>
    cases u with
    | nil =>
      simp only [List.nil_append, List.cons.injEq] at h
      exact ⟨h.2.symm, rfl⟩
    | cons c cs => simp at h
  | cons d row ih =>
    cases u with
    | nil =>
      simp only [List.cons_append, List.nil_append, List.cons.injEq] at h
      have hd := hrow d List.mem_cons_self
      rw [h.1, he] at hd
      cases hd
    | cons c cs =>
      simp only [List.cons_append, List.cons.injEq] at h
      obtain ⟨hv, hu⟩ := ih (fun c hc => hrow c (List.mem_cons_of_mem d hc)) h.2
      exact ⟨hv, by rw [h.1, hu]⟩

theorem getLast_blockEnd (before : List Char) :
    (before ++ codexBlockEnd).getLast? = some '<' := by
  rw [List.getLast?_append]
  rfl

/-- No line of a plain row is an end marker. -/
theorem chomp_ne_end {row line : List Char} (hrow : PlainRow row)
    (hline : line ∈ splitLines (row ++ ['\n'])) : chomp line ≠ codexBlockEnd := by
  intro hchomp
  obtain ⟨before, after, htext, hend⟩ := mem_splitLines hline
  obtain ⟨ends, hsplit, hends⟩ := chomp_append line
  rw [hchomp] at hsplit
  cases ends with
  | nil =>
    rw [List.append_nil] at hsplit
    rcases hend with hafter | ⟨c, hc, hbreak⟩
    · have hboth : (row ++ ['\n']).getLast? = some '<' := by
        rw [htext, hafter, List.append_nil, hsplit]
        exact getLast_blockEnd before
      rw [List.getLast?_concat, Option.some.injEq] at hboth
      exact absurd hboth (by decide)
    · rw [hsplit, ← List.nil_append codexBlockEnd, getLast_blockEnd, Option.some.injEq] at hc
      rw [← hc] at hbreak
      exact absurd hbreak (by decide)
  | cons e ends =>
    have htext' : row ++ ['\n'] = (before ++ codexBlockEnd) ++ e :: (ends ++ after) := by
      rw [htext, hsplit]
      simp only [List.append_assoc, List.cons_append]
    obtain ⟨-, hrow'⟩ := eol_position hrow.1 (hends e List.mem_cons_self) htext'
    exact hrow.2 (by rw [hrow', getLast_blockEnd])

theorem splitLines_unlines (rows : List (List Char)) :
    splitLines (unlines rows) = rows.flatMap fun row => splitLines (row ++ ['\n']) :=
  splitLines_flatMap rows

/-- The lines of a block: its markers around lines that are none. -/
theorem splitLines_block {entries : List CodexHookEntry}
    (hplain : ∀ row ∈ bodyRows entries, PlainRow row) :
    ∃ inner, splitLines (renderCodexBlock entries)
        = (codexBlockBegin ++ ['\n']) :: inner ++ [codexBlockEnd ++ ['\n']]
      ∧ ∀ line ∈ inner, chomp line ≠ codexBlockEnd := by
  refine ⟨(bodyRows entries).flatMap fun row => splitLines (row ++ ['\n']), ?_, ?_⟩
  · rw [renderCodexBlock, splitLines_unlines, List.cons_append, List.flatMap_cons,
      List.flatMap_append]
    rfl
  · intro line hline
    obtain ⟨row, hrow, hline⟩ := List.mem_flatMap.mp hline
    exact chomp_ne_end (hplain row hrow) hline

/-- The text before a block ends with a line feed and has no begin
marker. -/
structure BeforeBlock (before : List Char) : Prop where
  ended : ∀ c, before.getLast? = some c → c = '\n'
  unmarked : codexBlockBegin ∉ chomped before

/-- **An appended block is found where it was put.** -/
theorem splitBlock_append {entries : List CodexHookEntry}
    (hplain : ∀ row ∈ bodyRows entries, PlainRow row) {before : List Char}
    (hbefore : BeforeBlock before) :
    splitBlock (before ++ renderCodexBlock entries)
      = .block before (renderCodexBlock entries) [] := by
  obtain ⟨inner, hlines, hinner⟩ := splitLines_block hplain
  have hbegin : ∀ line ∈ splitLines before, (decide (chomp line ≠ codexBlockBegin)) = true := by
    intro line hline
    rw [decide_eq_true_eq]
    intro hchomp
    exact hbefore.unmarked (hchomp ▸ List.mem_map_of_mem hline)
  have hinner' : ∀ line ∈ inner, (decide (chomp line ≠ codexBlockEnd)) = true :=
    fun line hline => decide_eq_true (hinner line hline)
  have hmark : chomp (codexBlockBegin ++ ['\n']) = codexBlockBegin := by decide
  have hmark' : chomp (codexBlockEnd ++ ['\n']) = codexBlockEnd := by decide
  have hsplit : splitLines (before ++ renderCodexBlock entries)
      = splitLines before
        ++ (codexBlockBegin ++ ['\n']) :: (inner ++ [codexBlockEnd ++ ['\n']]) := by
    rw [splitLines_append _ hbefore.ended, hlines, List.cons_append]
  have htake : (splitLines (before ++ renderCodexBlock entries)).takeWhile
      (chomp · ≠ codexBlockBegin) = splitLines before := by
    rw [hsplit, List.takeWhile_append_of_pos hbegin,
      List.takeWhile_cons_of_neg (by simp [hmark]), List.append_nil]
  have hdrop : (splitLines (before ++ renderCodexBlock entries)).dropWhile
      (chomp · ≠ codexBlockBegin)
        = (codexBlockBegin ++ ['\n']) :: (inner ++ [codexBlockEnd ++ ['\n']]) := by
    rw [hsplit, List.dropWhile_append_of_pos hbegin,
      List.dropWhile_cons_of_neg (by simp [hmark])]
  have htake' : (inner ++ [codexBlockEnd ++ ['\n']]).takeWhile (chomp · ≠ codexBlockEnd)
      = inner := by
    rw [List.takeWhile_append_of_pos hinner',
      List.takeWhile_cons_of_neg (by simp [hmark']), List.append_nil]
  have hdrop' : (inner ++ [codexBlockEnd ++ ['\n']]).dropWhile (chomp · ≠ codexBlockEnd)
      = [codexBlockEnd ++ ['\n']] := by
    rw [List.dropWhile_append_of_pos hinner', List.dropWhile_cons_of_neg (by simp [hmark'])]
  simp only [splitBlock, htake, hdrop, htake', hdrop', flatten_splitLines, List.flatten_nil]
  rw [← flatten_splitLines (renderCodexBlock entries), hlines]

/-! ## 6. The built-in entries -/

theorem plainRow_concat {row : List Char} {c : Char} (hrow : ∀ d ∈ row, isEol d = false)
    (hc : isEol c = false) (hne : c ≠ '<') : PlainRow (row ++ [c]) := by
  refine ⟨?_, ?_⟩
  · intro d hd
    rcases List.mem_append.mp hd with hd | hd
    · exact hrow d hd
    · rw [List.mem_singleton.mp hd]
      exact hc
  · rw [List.getLast?_concat, Ne, Option.some.injEq]
    exact hne

/-- An entry whose texts no line end is in. -/
structure CodexHookEntry.OneLine (entry : CodexHookEntry) : Prop where
  event : ∀ c ∈ entry.event, isEol c = false
  command : ∀ c ∈ entry.command, isEol c = false
  matcher : ∀ m, entry.matcher = some m → ∀ c ∈ m, isEol c = false

theorem plainRow_tomlStr {key value : List Char} (hkey : ∀ c ∈ key, isEol c = false)
    (hvalue : ∀ c ∈ value, isEol c = false) : PlainRow (key ++ tomlStr value) := by
  have hrow : key ++ tomlStr value = (key ++ '"' :: value.flatMap
      (fun c => if c = '\\' ∨ c = '"' then ['\\', c] else [c])) ++ ['"'] := by
    simp [tomlStr]
  rw [hrow]
  refine plainRow_concat ?_ (by decide) (by decide)
  intro c hc
  rcases List.mem_append.mp hc with hc | hc
  · exact hkey c hc
  · rcases List.mem_cons.mp hc with rfl | hc
    · decide
    · obtain ⟨d, hd, hc⟩ := List.mem_flatMap.mp hc
      split at hc
      · rcases List.mem_cons.mp hc with rfl | hc
        · decide
        · rw [List.mem_singleton.mp hc]
          exact hvalue d hd
      · rw [List.mem_singleton.mp hc]
        exact hvalue d hd

theorem plainRow_event {event tail : List Char} (hevent : ∀ c ∈ event, isEol c = false)
    (htail : ∀ c ∈ tail, isEol c = false) :
    PlainRow ("[[hooks.".toList ++ event ++ (tail ++ [']'])) := by
  rw [← List.append_assoc]
  refine plainRow_concat ?_ (by decide) (by decide)
  intro c hc
  rcases List.mem_append.mp hc with hc | hc
  · rcases List.mem_append.mp hc with hc | hc
    · exact oneLine_of_all (by decide) c hc
    · exact hevent c hc
  · exact htail c hc

theorem plainRow_timeout (n : Nat) : PlainRow ("timeout = ".toList ++ natChars n) := by
  obtain ⟨ds, hchars, hne, -, -⟩ := natChars_eq_digits n
  have hdigit : ∀ d : Fin 10, isEol (digitChar d) = false ∧ digitChar d ≠ '<' := by decide
  have hrow : "timeout = ".toList ++ natChars n
      = ("timeout = ".toList ++ ds.dropLast.map digitChar) ++ [digitChar (ds.getLast hne)] := by
    rw [hchars, List.append_assoc, ← List.map_singleton, ← List.map_append,
      List.dropLast_concat_getLast]
  rw [hrow]
  refine plainRow_concat ?_ (hdigit _).1 (hdigit _).2
  intro c hc
  rcases List.mem_append.mp hc with hc | hc
  · exact oneLine_of_all (by decide) c hc
  · obtain ⟨d, -, rfl⟩ := List.mem_map.mp hc
    exact (hdigit d).1

theorem plain_entryRows {entry : CodexHookEntry} (h : entry.OneLine) :
    ∀ row ∈ entryRows entry, PlainRow row := by
  intro row hrow
  simp only [entryRows, List.mem_append, List.mem_cons, List.not_mem_nil, or_false] at hrow
  rcases hrow with (rfl | hrow) | rfl | rfl | rfl | rfl
  · exact plainRow_event h.event (oneLine_of_all (by decide : [']'].all (fun c => !isEol c) = true))
  · cases hm : entry.matcher with
    | none =>
      rw [hm] at hrow
      cases hrow
    | some m =>
      rw [hm] at hrow
      rw [List.mem_singleton.mp hrow]
      exact plainRow_tomlStr (oneLine_of_all (by decide)) (h.matcher m hm)
  · exact plainRow_event h.event
      (oneLine_of_all (by decide : ".hooks]".toList.all (fun c => !isEol c) = true))
  · exact ⟨oneLine_of_all (by decide), by decide⟩
  · exact plainRow_tomlStr (oneLine_of_all (by decide)) h.command
  · exact plainRow_timeout entry.timeout

theorem plain_entriesRows : ∀ {entries : List CodexHookEntry},
    (∀ entry ∈ entries, entry.OneLine) → ∀ row ∈ entriesRows entries, PlainRow row
  | [], _, row, hrow => by cases hrow
  | [entry], h, row, hrow => plain_entryRows (h entry List.mem_cons_self) row hrow
  | entry :: next :: rest, h, row, hrow => by
      rcases List.mem_append.mp hrow with hrow | hrow
      · exact plain_entryRows (h entry List.mem_cons_self) row hrow
      · rcases List.mem_cons.mp hrow with rfl | hrow
        · exact ⟨nofun, nofun⟩
        · exact plain_entriesRows (fun e he => h e (List.mem_cons_of_mem entry he)) row hrow

theorem builtin_oneLine (path : DispatcherPath) :
    ∀ entry ∈ getBuiltinCodexEntries path, entry.OneLine := by
  intro entry hentry
  obtain ⟨⟨event, handler⟩, hmem, rfl⟩ := List.mem_map.mp hentry
  have hnames : ∀ pair ∈ builtinHandlers, pair.1.toList.all (fun c => !isEol c) = true
      ∧ pair.2.toList.all (fun c => !isEol c) = true := by decide
  have hquote : ∀ text : List Char, (∀ c ∈ text, isEol c = false) →
      ∀ c ∈ Shlex.quote text, isEol c = false := by
    intro text htext c hc
    rcases Shlex.mem_quote hc with hc | rfl | rfl
    · exact htext c hc
    · decide
    · decide
  refine ⟨oneLine_of_all (hnames _ hmem).1, ?_, nofun⟩
  intro c hc
  rcases List.mem_append.mp hc with hc | hc
  · exact hquote _ path.oneLine c hc
  · rcases List.mem_cons.mp hc with rfl | hc
    · decide
    · exact hquote _ (oneLine_of_all (hnames _ hmem).2) c hc

theorem builtin_plain (path : DispatcherPath) :
    ∀ row ∈ bodyRows (getBuiltinCodexEntries path), PlainRow row := by
  intro row hrow
  rcases List.mem_cons.mp hrow with rfl | hrow
  · exact ⟨oneLine_of_all (by decide), by decide⟩
  · rcases List.mem_cons.mp hrow with rfl | hrow
    · exact ⟨oneLine_of_all (by decide), by decide⟩
    · exact plain_entriesRows (builtin_oneLine path) row hrow

theorem safe_not_space {c : Char} (h : Shlex.isSafe c = true ∨ c = '\'') :
    isSpace c = false := by
  have hsmall : ∀ n < 128, Shlex.isSafe (Char.ofNat n) = true ∨ Char.ofNat n = '\'' →
      isSpace (Char.ofNat n) = false := by decide
  have hc : c.toNat < 128 := by
    rcases h with h | rfl
    · simp only [Shlex.isSafe, Bool.or_eq_true, Bool.and_eq_true, decide_eq_true_eq,
        List.mem_cons, List.not_mem_nil, or_false] at h
      have hle : ∀ d : Char, c ≤ d → c.toNat ≤ d.toNat := fun d hd => hd
      rcases h with ((h | h) | h) | h
      · exact Nat.lt_of_le_of_lt (hle _ h.2) (by decide)
      · exact Nat.lt_of_le_of_lt (hle _ h.2) (by decide)
      · exact Nat.lt_of_le_of_lt (hle _ h.2) (by decide)
      · rcases h with rfl | rfl | rfl | rfl | rfl | rfl | rfl | rfl | rfl | rfl
        all_goals decide
    · decide
  have hthis := hsmall c.toNat hc
  rw [Char.ofNat_toNat] at hthis
  exact hthis h

/-- A text that no space is at either end of. -/
theorem strip_eq_self {text : List Char} (first last : List Char) {c d : Char} (hc : isSpace c = false)
    (hd : isSpace d = false) (hfirst : text = c :: first) (hlast : text = last ++ [d]) :
    strip text = text := by
  rw [strip, hfirst, List.dropWhile_cons_of_neg (by simp [hc]), ← hfirst, hlast,
    List.rdropWhile_concat_neg _ _ _ (by simp [hd])]

/-- A command of Forge's entries is recognised as one. -/
theorem forgeHookHandler_builtin (path : DispatcherPath) (handler : String) :
    forgeHookHandler (renderDispatcherCommand path handler) = some handler.toList := by
  obtain ⟨⟨c, first, hfirst, hc⟩, -⟩ := Shlex.quote_ends path.text
  obtain ⟨-, d, last, hlast, hd⟩ := Shlex.quote_ends handler.toList
  have hstrip : strip (renderDispatcherCommand path handler)
      = renderDispatcherCommand path handler := by
    refine strip_eq_self (first ++ ' ' :: Shlex.quote handler.toList)
      (Shlex.quote path.text ++ ' ' :: last) (safe_not_space hc) (safe_not_space hd) ?_ ?_
    · rw [renderDispatcherCommand, hfirst]
      rfl
    · rw [renderDispatcherCommand, hlast]
      simp
  have hsplit : Shlex.split (renderDispatcherCommand path handler)
      = some [path.text, handler.toList] := Shlex.split_quoted path.text handler.toList
  rw [forgeHookHandler, hstrip, hsplit]
  simp [path.name_eq]

/-! ## 7. Planning and merging a configuration without a block -/

/-- A configuration that the claim is about: TOML without marker lines and
without commands of Forge. -/
structure Untouched (toml : TomlParser F) (text : List Char) : Prop where
  valid : toml.parse text ≠ none
  unmarked : ∀ line ∈ chomped text, line ≠ codexBlockBegin ∧ line ≠ codexBlockEnd
  unregistered : ∀ parsed, toml.parse text = some parsed →
    ∀ registration ∈ collectRegistrations parsed,
      forgeHookHandler registration.2.toList = none

section
variable {toml : TomlParser F} {path : DispatcherPath} {text : List Char}

theorem splitBlock_unmarked (h : codexBlockBegin ∉ chomped text) : splitBlock text = .absent := by
  have hall : ∀ line ∈ splitLines text, (decide (chomp line ≠ codexBlockBegin)) = true := by
    intro line hline
    rw [decide_eq_true_eq]
    intro hchomp
    exact h (hchomp ▸ List.mem_map_of_mem hline)
  rw [splitBlock]
  simp only [List.dropWhile_eq_nil_iff.mpr hall]

theorem Untouched.unmarked_begin (h : Untouched toml text) : codexBlockBegin ∉ chomped text :=
  fun hmem => (h.unmarked _ hmem).1 rfl

/-- No registration of the configuration is one of Forge's. -/
theorem Untouched.no_keys (h : Untouched toml text) {parsed : List (String × Toml F)}
    (hparsed : toml.parse text = some parsed) :
    ∀ key ∈ codexExpectedRegistrationKeys (getBuiltinCodexEntries path),
      key ∉ collectRegistrationKeys parsed := by
  intro key hkey hmem
  obtain ⟨entry, hentry, rfl⟩ := List.mem_map.mp hkey
  obtain ⟨⟨event, handler⟩, -, rfl⟩ := List.mem_map.mp hentry
  obtain ⟨registration, hregistration, heq⟩ := List.mem_map.mp hmem
  have hnone := h.unregistered parsed hparsed registration hregistration
  simp [codexRegistrationKey, commandIdentity, hnone, forgeHookHandler_builtin] at heq

/-- The plan for it is to install, or that its tables are in the way. -/
theorem Untouched.planText (h : Untouched toml text) :
    planText toml (getBuiltinCodexEntries path) text = .install
      ∨ ∃ reason, planText toml (getBuiltinCodexEntries path) text = .conflict reason := by
  obtain ⟨parsed, hparsed⟩ := Option.ne_none_iff_exists'.mp h.valid
  rw [CodexConfig.planText, hparsed, splitBlock_unmarked h.unmarked_begin]
  simp only
  cases structureConflict parsed ((getBuiltinCodexEntries path).map CodexHookEntry.event) with
  | some conflict => exact .inr ⟨_, rfl⟩
  | none =>
    have hpresent : (codexExpectedRegistrationKeys (getBuiltinCodexEntries path)).filter
        (· ∈ collectRegistrationKeys parsed) = [] := by
      rw [List.filter_eq_nil_iff]
      intro key hkey
      simpa using h.no_keys hparsed key hkey
    simp only [hpresent]
    rw [if_neg (by simp [codexExpectedRegistrationKeys, getBuiltinCodexEntries, builtinHandlers]),
      if_neg (by simp)]
    exact .inl rfl

/-- Read with universal newlines the configuration is the same one. -/
theorem Untouched.translate (h : Untouched toml text) : Untouched toml (Lines.translate text) := by
  have hcr := toml.noReturn text h.valid
  have hparse : toml.parse (Lines.translate text) = toml.parse text := by
    rw [translate_eq_replaceCrlf hcr, toml.lineEnds text hcr]
  refine ⟨?_, ?_, ?_⟩
  · rw [hparse]
    exact h.valid
  · rw [chomped_translate]
    exact h.unmarked
  · rw [hparse]
    exact h.unregistered

/-- The line feed that ends an unended text. -/
def endLine (text : List Char) : List Char :=
  if text ≠ [] ∧ text.getLast? ≠ some '\n' then ['\n'] else []

/-- The line feed that separates a text from the block. -/
def separator (text : List Char) : List Char := if isBlank text = false then ['\n'] else []

theorem separated_eq (text : List Char) : separated text = text ++ endLine text ++ separator text := by
  have hblank : isBlank (text ++ ['\n']) = isBlank text := by simp [isBlank, isSpace]
  unfold separated endLine separator
  split <;> simp only [hblank, List.append_nil] <;> split <;> simp

/-- An ended text is empty or ends with a line feed. -/
theorem ended_endLine (text : List Char) :
    text ++ endLine text = [] ∨ (text ++ endLine text).getLast? = some '\n' := by
  unfold endLine
  split
  · exact .inr List.getLast?_concat
  · rename_i h
    by_cases hempty : text = []
    · exact .inl (by simp [hempty])
    · refine .inr ?_
      rw [List.append_nil]
      by_contra hlast
      exact h ⟨hempty, hlast⟩

theorem beforeBlock_separated (h : codexBlockBegin ∉ chomped text) :
    BeforeBlock (separated text) := by
  have hended : codexBlockBegin ∉ chomped (text ++ endLine text) := by
    unfold endLine
    split
    · exact not_mem_chomped_snoc (by decide) h
    · rwa [List.append_nil]
  rw [separated_eq, separator]
  split
  · refine ⟨?_, not_mem_chomped_snoc (by decide) hended⟩
    intro c hc
    rw [List.getLast?_concat, Option.some.injEq] at hc
    exact hc.symm
  · rw [List.append_nil]
    refine ⟨?_, hended⟩
    intro c hc
    rcases ended_endLine text with hempty | hlast
    · rw [hempty] at hc
      cases hc
    · rw [hlast, Option.some.injEq] at hc
      exact hc.symm

/-- Line feeds after the text stay line feeds. -/
theorem translate_separated (h : text.getLast? ≠ some '\r') :
    Lines.translate (separated text) = Lines.translate text ++ endLine text ++ separator text := by
  have hfirst : Lines.translate (text ++ endLine text) = Lines.translate text ++ endLine text := by
    unfold endLine
    split
    · exact translate_snoc h
    · rw [List.append_nil, List.append_nil]
  rw [separated_eq, ← hfirst, separator]
  split
  · refine translate_snoc ?_
    intro hcr
    rcases ended_endLine text with hempty | hlast
    · rw [hempty] at hcr
      cases hcr
    · rw [hlast] at hcr
      exact absurd hcr (by decide)
  · rw [List.append_nil, List.append_nil]

theorem beforeBlock_translate (h : BeforeBlock text) : BeforeBlock (Lines.translate text) := by
  refine ⟨?_, ?_⟩
  · intro c hc
    cases hlast : text.getLast? with
    | none =>
      rw [List.getLast?_eq_none_iff.mp hlast] at hc
      cases hc
    | some d =>
      rw [h.ended d hlast] at hlast
      rw [getLast?_translate hlast, Option.some.injEq] at hc
      exact hc.symm
  · rw [chomped_translate]
    exact h.unmarked

/-- A rendered block has no carriage return. -/
theorem block_plain (path : DispatcherPath) :
    ∀ c ∈ renderCodexBlock (getBuiltinCodexEntries path), c ≠ '\r' := by
  have hrow : ∀ row ∈ codexBlockBegin :: bodyRows (getBuiltinCodexEntries path) ++ [codexBlockEnd],
      ∀ c ∈ row, c ≠ '\r' := by
    intro row hrow c hc
    have heol : isEol c = false := by
      simp only [List.cons_append, List.mem_cons, List.mem_append, List.not_mem_nil, or_false]
        at hrow
      rcases hrow with rfl | hrow | rfl
      · exact oneLine_of_all (by decide) c hc
      · exact (builtin_plain path row hrow).1 c hc
      · exact oneLine_of_all (by decide) c hc
    rintro rfl
    cases heol
  intro c hc
  obtain ⟨row, hmem, hc⟩ := List.mem_flatMap.mp hc
  rcases List.mem_append.mp hc with hc | hc
  · exact hrow row hmem c hc
  · rw [List.mem_singleton.mp hc]
    decide

theorem translate_block (before : List Char) :
    Lines.translate (before ++ renderCodexBlock (getBuiltinCodexEntries path))
      = Lines.translate before ++ renderCodexBlock (getBuiltinCodexEntries path) := by
  rw [translate_append, translate_plain (block_plain path)]
  intro hhead
  have hbegin : codexBlockBegin = '#' :: codexBlockBegin.tail := by decide
  rw [renderCodexBlock, unlines, List.cons_append, List.flatMap_cons, hbegin] at hhead
  exact absurd (Option.some.inj hhead) (by decide)

/-- What a successful merge writes. -/
theorem writeMerged_ok {applied : File} (hmarker : codexBlockBegin ∉ chomped text)
    (h : writeMerged toml entries text = .ok applied) :
    toml.parse (separated text ++ renderCodexBlock entries) ≠ none
      ∧ applied = some (encode (separated text ++ renderCodexBlock entries)) := by
  rw [writeMerged, mergedText, splitBlock_unmarked hmarker] at h
  simp only at h
  cases hparse : toml.parse (separated text ++ renderCodexBlock entries) with
  | none =>
    rw [hparse] at h
    cases h
  | some merged =>
    rw [hparse] at h
    simp only at h
    split at h
    · cases h
    · cases h
      exact ⟨by simp, rfl⟩

/-- Codex knows the events of the built-in entries. -/
theorem builtin_events : ((getBuiltinCodexEntries path).map CodexHookEntry.event).filter
    (· ∉ codexHookEvents.map String.toList) = [] := by
  have hnames : (getBuiltinCodexEntries path).map CodexHookEntry.event
      = builtinHandlers.map (·.1.toList) := by
    rw [getBuiltinCodexEntries, List.map_map]
    rfl
  rw [hnames]
  decide

/-- A successful merge of an untouched configuration appends the block. -/
theorem applyCodexMerge_ok {original : Option (List Char)} {applied : File}
    (horiginal : ∀ text, original = some text → Untouched toml text)
    (h : applyCodexMerge toml (getBuiltinCodexEntries path) (original.map encode) = .ok applied) :
    toml.parse (separated (original.getD []) ++ renderCodexBlock (getBuiltinCodexEntries path)) ≠ none
      ∧ applied = some (encode
        (separated (original.getD []) ++ renderCodexBlock (getBuiltinCodexEntries path))) := by
  unfold applyCodexMerge planCodexMerge at h
  simp only [builtin_events, ne_eq, not_true, if_false] at h
  cases original with
  | none => exact writeMerged_ok _ (by decide) h
  | some text =>
    have htext := horiginal text rfl
    have htranslate := htext.translate
    simp only [Option.map_some, readText, decode_encode] at h
    rcases @Untouched.planText F toml path _ htranslate with hplan | ⟨reason, hplan⟩
    · rw [hplan] at h
      exact writeMerged_ok _ htext.unmarked_begin h
    · rw [hplan] at h
      cases h

/-- A merge succeeds when no table is in the way and the merged text has
every registration. -/
theorem applyCodexMerge_of {parsed merged : List (String × Toml F)} (h : Untouched toml text)
    (hparsed : toml.parse text = some parsed)
    (hstructure : structureConflict parsed
      ((getBuiltinCodexEntries path).map CodexHookEntry.event) = none)
    (hmerged : toml.parse (separated text ++ renderCodexBlock (getBuiltinCodexEntries path))
      = some merged)
    (hkeys : ∀ key ∈ codexExpectedRegistrationKeys (getBuiltinCodexEntries path),
      key ∈ collectRegistrationKeys merged) :
    applyCodexMerge toml (getBuiltinCodexEntries path) (some (encode text))
      = .ok (some (encode (separated text ++ renderCodexBlock (getBuiltinCodexEntries path)))) := by
  have htranslate := h.translate
  have hcr := toml.noReturn text h.valid
  have hparsed' : toml.parse (Lines.translate text) = some parsed := by
    rw [translate_eq_replaceCrlf hcr, toml.lineEnds text hcr, hparsed]
  have hplan : planText toml (getBuiltinCodexEntries path) (Lines.translate text) = .install := by
    rcases @Untouched.planText F toml path _ htranslate with hplan | ⟨reason, hplan⟩
    · exact hplan
    · rw [CodexConfig.planText, hparsed', splitBlock_unmarked htranslate.unmarked_begin] at hplan
      simp only [hstructure] at hplan
      have hpresent : (codexExpectedRegistrationKeys (getBuiltinCodexEntries path)).filter
          (· ∈ collectRegistrationKeys parsed) = [] := by
        rw [List.filter_eq_nil_iff]
        intro key hkey
        simpa using h.no_keys hparsed key hkey
      rw [hpresent, if_neg (by simp [codexExpectedRegistrationKeys, getBuiltinCodexEntries,
        builtinHandlers]), if_neg (by simp)] at hplan
      cases hplan
  have hmissing : (codexExpectedRegistrationKeys (getBuiltinCodexEntries path)).filter
      (· ∉ collectRegistrationKeys merged) = [] := by
    rw [List.filter_eq_nil_iff]
    intro key hkey
    simpa using hkeys key hkey
  unfold applyCodexMerge planCodexMerge
  simp only [builtin_events, ne_eq, not_true, if_false, readText, decode_encode, Option.map_some,
    hplan, writeMerged, mergedText, splitBlock_unmarked h.unmarked_begin, hmerged, hmissing]

end

/-! ## 8. What is preserved -/

/-- What removing the block should leave of a configuration: nothing of a
blank one, and else its bytes with a final line feed. -/
def restored (original : Option (List Char)) : File :=
  match original with
  | none => none
  | some text => if isBlank text then none else some (encode (text ++ endLine text))

/-- What appending the block and removing it should do. -/
structure Preserved (toml : TomlParser F) (entries : List CodexHookEntry)
    (original : Option (List Char)) (applied : File) : Prop where
  /-- the bytes outside the block are the old ones and two line feeds at
  most -/
  outside : ∃ before after eol sep, applied
      = some (encode before ++ encode (renderCodexBlock entries) ++ encode after)
    ∧ splitBlock (before ++ renderCodexBlock entries ++ after)
      = .block before (renderCodexBlock entries) after
    ∧ (eol = [] ∨ eol = ['\n']) ∧ (sep = [] ∨ sep = ['\n'])
    ∧ encode (before ++ after) = encode (original.getD []) ++ encode eol ++ encode sep
  planned : planCodexMerge toml entries applied = .ok .skip
  removed : ∃ leftover, removeCodexBlock toml applied = some (restored original, leftover)

section
variable {toml : TomlParser F} {path : DispatcherPath} {text : List Char}

theorem outside_of_separated {applied : File} {original : Option (List Char)}
    (hmarker : codexBlockBegin ∉ chomped (original.getD []))
    (happlied : applied = some (encode
      (separated (original.getD []) ++ renderCodexBlock (getBuiltinCodexEntries path)))) :
    ∃ before after eol sep, applied
        = some (encode before ++ encode (renderCodexBlock (getBuiltinCodexEntries path))
          ++ encode after)
      ∧ splitBlock (before ++ renderCodexBlock (getBuiltinCodexEntries path) ++ after)
        = .block before (renderCodexBlock (getBuiltinCodexEntries path)) after
      ∧ (eol = [] ∨ eol = ['\n']) ∧ (sep = [] ∨ sep = ['\n'])
      ∧ encode (before ++ after) = encode (original.getD []) ++ encode eol ++ encode sep := by
  have hblock := splitBlock_append (builtin_plain path) (beforeBlock_separated hmarker)
  refine ⟨separated (original.getD []), [], endLine (original.getD []),
    separator (original.getD []), ?_, ?_, ?_, ?_, ?_⟩
  · rw [happlied, encode_append, encode_nil, List.append_nil]
  · rw [List.append_nil]
    exact hblock
  · unfold endLine
    split
    · exact .inr rfl
    · exact .inl rfl
  · unfold separator
    split
    · exact .inr rfl
    · exact .inl rfl
  · rw [List.append_nil, separated_eq, encode_append, encode_append]

/-- A second plan finds the block. -/
theorem planned_skip (hmarker : codexBlockBegin ∉ chomped text)
    (hparse : toml.parse (separated text ++ renderCodexBlock (getBuiltinCodexEntries path)) ≠ none) :
    planCodexMerge toml (getBuiltinCodexEntries path)
      (some (encode (separated text ++ renderCodexBlock (getBuiltinCodexEntries path))))
        = .ok .skip := by
  have hcr := toml.noReturn _ hparse
  have hblock := splitBlock_append (builtin_plain path)
    (beforeBlock_translate (beforeBlock_separated hmarker))
  rw [← toml.lineEnds _ hcr, ← translate_eq_replaceCrlf hcr] at hparse
  obtain ⟨parsed, hparsed⟩ := Option.ne_none_iff_exists'.mp hparse
  rw [translate_block] at hparsed
  simp only [planCodexMerge, builtin_events, readText, decode_encode, Option.map_some,
    translate_block, planText, hparsed, hblock, ne_eq, not_true, if_false, if_true]

/-- Removing the block leaves what stood before it, as it is read with
universal newlines and without the separator. -/
theorem removed_separated (hmarker : codexBlockBegin ∉ chomped text) :
    ∃ leftover, removeCodexBlock toml
      (some (encode (separated text ++ renderCodexBlock (getBuiltinCodexEntries path))))
        = some (if isBlank (withoutSeparator (Lines.translate (separated text))) then none
            else some (encode (withoutSeparator (Lines.translate (separated text)))), leftover) := by
  have hblock := splitBlock_append (builtin_plain path)
    (beforeBlock_translate (beforeBlock_separated hmarker))
  refine ⟨leftoverCommands toml (Lines.translate (separated text) ++ []), ?_⟩
  simp only [removeCodexBlock, readText, decode_encode, Option.map_some, translate_block, hblock,
    List.append_nil]

theorem isBlank_append (text text' : List Char) :
    isBlank (text ++ text') = (isBlank text && isBlank text') := List.all_append

theorem isBlank_endLine (text : List Char) : isBlank (endLine text) = true := by
  unfold endLine
  split <;> rfl

/-- Nothing but spaces is left of a blank text. -/
theorem withoutSeparator_blank (hblank : isBlank text = true) :
    isBlank (withoutSeparator (Lines.translate (separated text))) = true := by
  have hseparated : isBlank (Lines.translate (separated text)) = true := by
    rw [isBlank_translate, separated_eq, separator, hblank, if_neg (by simp), List.append_nil,
      isBlank_append, hblank, isBlank_endLine]
    rfl
  refine List.all_eq_true.mpr ?_
  intro c hc
  unfold withoutSeparator at hc
  split at hc
  · exact List.all_eq_true.mp hseparated c (List.dropLast_subset _ hc)
  · exact List.all_eq_true.mp hseparated c hc

/-- Of another text its lines are left. -/
theorem withoutSeparator_text (hcr : text.getLast? ≠ some '\r') (hblank : isBlank text = false) :
    withoutSeparator (Lines.translate (separated text)) = Lines.translate text ++ endLine text := by
  have hbefore : Lines.translate (separated text)
      = (Lines.translate text ++ endLine text) ++ ['\n'] := by
    rw [translate_separated hcr, separator, if_pos hblank]
  have hne : text ≠ [] := by
    rintro rfl
    cases hblank
  have hlast : (Lines.translate text ++ endLine text).getLast? = some '\n' := by
    unfold endLine
    split
    · exact List.getLast?_concat
    · rename_i hended
      rw [List.append_nil]
      refine getLast?_translate ?_
      by_contra hlast
      exact hended ⟨hne, hlast⟩
  have hend : "\n\n".toList <:+ Lines.translate (separated text) := by
    obtain ⟨body, hbody⟩ := List.getLast?_eq_some_iff.mp hlast
    rw [hbefore, hbody, List.append_assoc]
    exact List.suffix_append _ _
  rw [withoutSeparator, if_pos hend, hbefore, List.dropLast_concat]

/-- What removing the block leaves of a text. -/
theorem removed_text (hmarker : codexBlockBegin ∉ chomped text)
    (hcr : text.getLast? ≠ some '\r') : ∃ leftover, removeCodexBlock toml
      (some (encode (separated text ++ renderCodexBlock (getBuiltinCodexEntries path))))
        = some (if isBlank text then none
            else some (encode (Lines.translate text ++ endLine text)), leftover) := by
  obtain ⟨leftover, hremoved⟩ := @removed_separated F toml path text hmarker
  refine ⟨leftover, hremoved.trans ?_⟩
  cases hblank : isBlank text with
  | true => rw [withoutSeparator_blank hblank, if_pos rfl, if_pos rfl]
  | false =>
    have hkept : isBlank (Lines.translate text ++ endLine text) = false := by
      rw [isBlank_append, isBlank_translate, hblank]
      rfl
    rw [withoutSeparator_text hcr hblank, hkept]

end

/-- **When a configuration is preserved.** After a successful merge the
old bytes stand before the block and a second plan does nothing; removing
the block restores a configuration exactly when it is blank or has no
carriage return. -/
theorem codex_config_restored_iff (toml : TomlParser F) (path : DispatcherPath)
    (original : Option (List Char)) (applied : File)
    (horiginal : ∀ text, original = some text → Untouched toml text)
    (happly : applyCodexMerge toml (getBuiltinCodexEntries path) (original.map encode)
      = .ok applied) :
    Preserved toml (getBuiltinCodexEntries path) original applied
      ↔ ∀ text, original = some text → isBlank text = true ∨ '\r' ∉ text := by
  obtain ⟨hparse, happlied⟩ := applyCodexMerge_ok horiginal happly
  have hmarker : codexBlockBegin ∉ chomped (original.getD []) := by
    cases original with
    | none => decide
    | some text => exact (horiginal text rfl).unmarked_begin
  have hcr : (original.getD []).getLast? ≠ some '\r' := by
    cases original with
    | none => decide
    | some text => exact getLast?_ne_of_replaceCrlf (toml.noReturn text (horiginal text rfl).valid)
  obtain ⟨leftover, hremoved⟩ := @removed_text F toml path (original.getD []) hmarker hcr
  constructor
  · rintro ⟨-, -, leftover', hrestored⟩ text rfl
    cases hblank : isBlank text with
    | true => exact .inl rfl
    | false =>
      refine .inr ?_
      rw [happlied, hremoved, Option.some.injEq, Prod.mk.injEq, restored, Option.getD_some, hblank,
        if_neg (by simp), if_neg (by simp), Option.some.injEq] at hrestored
      exact translate_eq_self_iff.mp (List.append_cancel_right (encode_injective hrestored.1))
  · intro hclean
    have hrestored : restored original = if isBlank (original.getD []) then none
        else some (encode (Lines.translate (original.getD []) ++ endLine (original.getD []))) := by
      cases original with
      | none => rfl
      | some text =>
        rw [restored, Option.getD_some]
        rcases hclean text rfl with hblank | hplain
        · rw [hblank, if_pos rfl, if_pos rfl]
        · rw [translate_eq_self_iff.mpr hplain]
    refine ⟨outside_of_separated hmarker happlied, ?_, leftover, ?_⟩
    · rw [happlied]
      exact planned_skip hmarker hparse
    · rw [happlied, hremoved, hrestored]

/-- The tables that a rendered block parses to. -/
def hooksTables (entries : List CodexHookEntry) : List (String × Toml Empty) :=
  [("hooks", .obj (entries.map fun entry => (String.ofList entry.event,
    .list [.obj [("hooks", .list [.obj [("type", .str "command"),
      ("command", .str (String.ofList entry.command)), ("timeout", .int entry.timeout)]])]])))]

/-- A parser that knows one configuration, with and without its block. -/
def oneConfiguration (path : DispatcherPath) (text : List Char) (v : List (String × Toml Empty)) :
    TomlParser Empty where
  parse := fun input =>
    if '\r' ∈ replaceCrlf input then none
    else if replaceCrlf input = replaceCrlf text then some v
    else if replaceCrlf input
        = replaceCrlf (separated text ++ renderCodexBlock (getBuiltinCodexEntries path)) then
      some (v ++ hooksTables (getBuiltinCodexEntries path))
    else none
  lineEnds := by
    intro input h
    have hplain : replaceCrlf (replaceCrlf input) = replaceCrlf input := by
      rw [← translate_eq_replaceCrlf (by rwa [replaceCrlf_plain h]), translate_eq_self_iff.mpr h]
    rw [hplain]
  noReturn := by
    intro input h hmem
    rw [if_pos hmem] at h
    exact h rfl

theorem collectRegistrations_hooksTables (entries : List CodexHookEntry) :
    collectRegistrations (hooksTables entries)
      = entries.map fun entry => (String.ofList entry.event, String.ofList entry.command) := by
  have hooks : Json.get (hooksTables entries) "hooks" = .obj (entries.map fun entry =>
      (String.ofList entry.event, .list [.obj [("hooks", .list [.obj [("type", .str "command"),
        ("command", .str (String.ofList entry.command)), ("timeout", .int entry.timeout)]])]])) := by
    simp [hooksTables, Json.get, Json.getD]
  rw [collectRegistrations, hooks]
  simp only
  induction entries with
  | nil => rfl
  | cons entry rest ih =>
    rw [List.map_cons, List.flatMap_cons, List.map_cons, ih (by simp [hooksTables, Json.get, Json.getD])]
    simp [Json.get, Json.getD, hookCommand]

theorem mem_hooksTables_keys {entries : List CodexHookEntry} {key : List Char × Identity}
    (h : key ∈ codexExpectedRegistrationKeys entries) :
    key ∈ collectRegistrationKeys (hooksTables entries) := by
  obtain ⟨entry, hentry, rfl⟩ := List.mem_map.mp h
  rw [collectRegistrationKeys, collectRegistrations_hooksTables, List.map_map]
  refine List.mem_map.mpr ⟨entry, hentry, ?_⟩
  simp

def demoPath : DispatcherPath := 
  ⟨"/f/forge-hook".toList, by decide, oneLine_of_all (by decide)⟩

/-- A configuration without tables, such as one with a comment only. -/
theorem demo_untouched {text : List Char} (hcr : '\r' ∉ replaceCrlf text)
    (hmarked : ∀ line ∈ chomped text, line ≠ codexBlockBegin ∧ line ≠ codexBlockEnd) :
    Untouched (oneConfiguration demoPath text []) text := by
  have hparse : (oneConfiguration demoPath text []).parse text = some [] := by
    simp [oneConfiguration, hcr]
  refine ⟨by simp [hparse], hmarked, ?_⟩
  intro parsed hparsed registration hregistration
  rw [hparse, Option.some.injEq] at hparsed
  subst hparsed
  simp [collectRegistrations, Json.get, Json.getD] at hregistration

/-- The merge of such a configuration succeeds. -/
theorem demo_applied {text : List Char} (hcr : '\r' ∉ replaceCrlf text)
    (hmarked : ∀ line ∈ chomped text, line ≠ codexBlockBegin ∧ line ≠ codexBlockEnd)
    (hended : endLine text = []) (hblank : isBlank text = false) :
    applyCodexMerge (oneConfiguration demoPath text []) (getBuiltinCodexEntries demoPath)
        (some (encode text))
      = .ok (some (encode
        (separated text ++ renderCodexBlock (getBuiltinCodexEntries demoPath)))) := by
  have hseparated : separated text = text ++ ['\n'] := by
    rw [separated_eq, hended, separator, if_pos hblank, List.append_nil]
  have hmerged : '\r' ∉ replaceCrlf
      (separated text ++ renderCodexBlock (getBuiltinCodexEntries demoPath)) := by
    rw [hseparated, List.append_assoc]
    refine not_mem_replaceCrlf_append hcr ?_
    intro hmem
    rcases List.mem_append.mp hmem with hmem | hmem
    · exact absurd hmem (by decide)
    · exact block_plain demoPath _ hmem rfl
  have hlonger : replaceCrlf (separated text ++ renderCodexBlock (getBuiltinCodexEntries demoPath))
      ≠ replaceCrlf text := by
    intro heq
    have hlength := congrArg List.length heq
    rw [← translate_eq_replaceCrlf hmerged, ← translate_eq_replaceCrlf hcr, translate_block,
      translate_separated (getLast?_ne_of_replaceCrlf hcr), hended, separator, if_pos hblank]
      at hlength
    simp only [List.length_append, List.length_cons, List.length_nil] at hlength
    omega
  have hparsed : (oneConfiguration demoPath text []).parse text = some [] := by
    simp [oneConfiguration, hcr]
  have hmergedTables : (oneConfiguration demoPath text []).parse
      (separated text ++ renderCodexBlock (getBuiltinCodexEntries demoPath))
        = some (hooksTables (getBuiltinCodexEntries demoPath)) := by
    simp [oneConfiguration, hmerged, hlonger]
  exact applyCodexMerge_of (demo_untouched hcr hmarked) hparsed rfl hmergedTables
    fun key => mem_hooksTables_keys

/-- A comment line that `\r\n` ends comes back with another end. -/
theorem crlf_not_restored : ∃ applied,
    applyCodexMerge (oneConfiguration demoPath "# a\r\n".toList [])
        (getBuiltinCodexEntries demoPath) (some (encode "# a\r\n".toList)) = .ok applied
      ∧ ¬ Preserved (oneConfiguration demoPath "# a\r\n".toList [])
        (getBuiltinCodexEntries demoPath) (some "# a\r\n".toList) applied := by
  have happlied := @demo_applied "# a\r\n".toList (by decide) (by decide) (by decide) (by decide)
  refine ⟨_, happlied, ?_⟩
  intro hpreserved
  have horiginal : ∀ text, some "# a\r\n".toList = some text →
      Untouched (oneConfiguration demoPath "# a\r\n".toList []) text := by
    rintro text heq
    cases heq
    exact demo_untouched (by decide) (by decide)
  rcases (codex_config_restored_iff _ demoPath (some "# a\r\n".toList) _ horiginal happlied).mp
    hpreserved _ rfl with h | h
  · exact absurd h (by decide)
  · exact absurd h (by decide)

/-- The same line with a line feed alone is restored. -/
theorem codex_config_restored_iff_comment :
    Preserved (oneConfiguration demoPath "# a\n".toList []) (getBuiltinCodexEntries demoPath)
      (some "# a\n".toList)
      (some (encode (separated "# a\n".toList
        ++ renderCodexBlock (getBuiltinCodexEntries demoPath)))) := by
  refine (codex_config_restored_iff _ demoPath (some "# a\n".toList) _ ?_
    (demo_applied (by decide) (by decide) (by decide) (by decide))).mpr ?_
  · rintro text heq
    cases heq
    exact demo_untouched (by decide) (by decide)
  · rintro text heq
    cases heq
    exact .inr (by decide)

end MultiForge.Install.CodexConfig
