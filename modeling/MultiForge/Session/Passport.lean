/-
MultiForge.Session.Passport — writing and removing the passport of a
memory document.

A passport is the value of `forge_memory` in the frontmatter of a markdown
file. `writePassport` sets it, with the fields of an OKF envelope when one
is asked for, and `removePassport` deletes it; both read the file in text
mode, render the whole document anew and replace the file at once.
`Preserves` is what is relied on: what a reader finds afterwards is the
same document but for these keys, and a failure changes nothing.

A removal that empties the mapping drops the block, and a body that itself
begins like a block is then read as one: `passport_preserved_iff` says for
which documents that cannot happen. Read without newline translation the
document must, in addition, be the same as in text mode.
-/
import MultiForge.Lib.PosixPath
import MultiForge.Lib.Utf8
import MultiForge.Session.Events
import MultiForge.Session.Frontmatter

namespace MultiForge.Session.Frontmatter

/-! ## 1. Passports -/

/-- `PassportUpdate` -/
structure PassportUpdate where
  instruction : Option String := none
  strategy : String := "generic"
  mode : String := "direct"
  writers : String := "all-sessions"
  compactWhen : Option String := none
  shadowPath : Option String := none
  approval : Option String := none
  deriving DecidableEq, Repr

/-- `Passport` -/
structure Passport where
  version : Int
  intent : String
  captures : List String := []
  excludes : List String := []
  update : PassportUpdate := {}
  deriving DecidableEq, Repr

/-- The sorted `VALID_STRATEGY_NAMES` -/
def validStrategyNames : List String := ["changelog", "checklist", "generic", "project-state"]

/-- The sorted `VALID_PASSPORT_MODES` -/
def validPassportModes : List String := ["direct", "shadow-only"]

/-- `VALID_APPROVAL_VALUES` -/
def validApprovalValues : List String := ["human-promoted"]

/-- `", ".join(names)` -/
def commaList (names : List String) : String := ", ".intercalate names

/-- `validate_writer_spec` -/
def validateWriterSpec (writer : String) : Except PassportError Unit :=
  let path := "forge_memory.update.writers"
  let hint := "use 'all-sessions' or an exact session name"
  if writer = "all-sessions" then .ok ()
  else if "lineage:".toList <+: writer.toList then .error
    { fieldPath := path, hint := some hint
      message := "lineage-based writers not supported in v1 (got '" ++ writer ++ "')" }
  else if "role:".toList <+: writer.toList then .error
    { fieldPath := path, hint := some hint
      message := "role-based writers not supported in v1 (got '" ++ writer ++ "')" }
  else if writer = "none" then .error
    { fieldPath := path, message := "'none' is not a valid writer spec"
      hint := some "use 'forge memory passport remove' to remove the passport" }
  else match validateName writer with
    | .ok () => .ok ()
    | .error e => .error
        { fieldPath := path, message := "invalid session name '" ++ writer ++ "': " ++ e
          hint := some ("use 'all-sessions' or a valid session name " ++
            "(lowercase alphanumeric + hyphens)") }

/-- `_parse_update` of the dict of an update section -/
def parseUpdate (update : PassportUpdate) : Except PassportError Unit := do
  if update.strategy ∉ validStrategyNames then
    .error { fieldPath := "forge_memory.update.strategy"
             message := "unknown strategy '" ++ update.strategy ++ "'"
             hint := some ("valid strategies: " ++ commaList validStrategyNames) }
  if update.mode ∉ validPassportModes then
    .error { fieldPath := "forge_memory.update.mode"
             message := "unknown mode '" ++ update.mode ++ "'"
             hint := some ("valid modes: " ++ commaList validPassportModes) }
  let shadowed := update.shadowPath.any (· ≠ "")
  if update.mode = "shadow-only" ∧ ¬ shadowed then
    .error { fieldPath := "forge_memory.update.shadow_path"
             message := "required when mode is 'shadow-only'" }
  if update.mode = "direct" ∧ shadowed then
    .error { fieldPath := "forge_memory.update.shadow_path"
             message := "not allowed when mode is 'direct'"
             hint := some "set mode to 'shadow-only' to use a shadow path" }
  validateWriterSpec update.writers
  if update.approval.any (· ∉ validApprovalValues) then
    .error { fieldPath := "forge_memory.update.approval"
             message := "unknown approval '" ++ update.approval.getD "" ++ "'"
             hint := some ("valid approvals: " ++ commaList validApprovalValues) }

/-- `parse_passport` of the dict of a passport -/
def parsePassport (p : Passport) : Except PassportError Unit := do
  if 1 < p.version then
    .error { fieldPath := "forge_memory.version"
             message := "version " ++ toString p.version ++ " not supported"
             hint := some "written by newer Forge -- upgrade to read this passport" }
  if p.version < 1 then
    .error { fieldPath := "forge_memory.version"
             message := "invalid version: " ++ toString p.version }
  if Lines.isBlank p.intent.toList then
    .error { fieldPath := "forge_memory.intent", message := "must be a non-empty string" }
  parseUpdate p.update

section

variable {O V : Type} (yaml : Yaml O V)

/-- `_passport_to_dict`, without the fields of `update` that are `None`. -/
def passportToDict (p : Passport) : V :=
  let text (s : String) : V := yaml.ofText s.toList
  let optional (key : String) (value : Option String) : List (String × V) :=
    (value.map fun s => (key, text s)).toList
  yaml.ofMap
    [("version", yaml.ofInt p.version), ("intent", text p.intent),
      ("captures", yaml.ofList (p.captures.map text)),
      ("excludes", yaml.ofList (p.excludes.map text)),
      ("update", yaml.ofMap (optional "instruction" p.update.instruction
        ++ [("strategy", text p.update.strategy), ("mode", text p.update.mode),
          ("writers", text p.update.writers)]
        ++ optional "compact_when" p.update.compactWhen
        ++ optional "shadow_path" p.update.shadowPath ++ optional "approval" p.update.approval))]

end

/-! ## 2. OKF paths and titles -/

/-- `name.casefold()`, as far as a comparison with an ASCII name tells. -/
def foldName (name : List Char) : List Char := name.map Char.toLower

/-- `_RESERVED_OKF_BASENAMES` -/
def reservedOkfBasenames : List (List Char) := ["index.md".toList, "log.md".toList]

/-- Texts are equal when their characters are. -/
local instance lawfulBEqText : LawfulBEq (List Char) := inferInstance

/-- `validate_okf_reserved_basenames` -/
def validateOkfReservedBasenames (logicalPath : List Char) (resolved : PosixPath) :
    Except PassportError Unit :=
  let logical := PosixPath.parse logicalPath
  if foldName logical.name ∈ reservedOkfBasenames then .error
    { fieldPath := "path", hint := some "choose a non-reserved Markdown filename"
      message := "'" ++ String.ofList logical.name ++
        "' is reserved by OKF and cannot be a memory concept document" }
  else if foldName resolved.name ∈ reservedOkfBasenames then .error
    { fieldPath := "path"
      message := "resolved target '" ++ String.ofList resolved.name ++ "' is reserved by OKF"
      hint := some "choose a document that does not resolve to index.md or log.md" }
  else .ok ()

/-- `validate_okf_memory_path` -/
def validateOkfMemoryPath (logicalPath : List Char) (resolved : PosixPath) :
    Except PassportError Unit :=
  if (PosixPath.parse logicalPath).suffix ≠ ".md".toList then .error
    { fieldPath := "path"
      message := "OKF memory documents require an exact '.md' suffix: " ++ String.ofList logicalPath
      hint := some "rename the document with a lowercase .md suffix, then retry" }
  else validateOkfReservedBasenames logicalPath resolved

/-- `^[ ]{0,3}`: a line without the indent that markdown allows, unless
there is more of it. -/
def unindent (line : List Char) : Option (List Char) :=
  let rest := line.dropWhile (· = ' ')
  if line.length - rest.length ≤ 3 then some rest else none

/-- The run of a character at the beginning of a line, and the rest. -/
def run (c : Char) (line : List Char) : Nat × List Char :=
  let rest := line.dropWhile (· = c)
  (line.length - rest.length, rest)

/-- A code fence that is open: its character and its length. -/
def openFence (line : List Char) : Option (Char × Nat) :=
  (unindent line).bind fun rest =>
    let ticks := run '`' rest
    let tildes := run '~' rest
    if 3 ≤ ticks.1 ∧ '`' ∉ ticks.2 then some ('`', ticks.1)
    else if 3 ≤ tildes.1 then some ('~', tildes.1)
    else none

/-- The line closes the code fence. -/
def closesFence (open? : Char × Nat) (line : List Char) : Bool :=
  (unindent line).any fun rest =>
    let closing := run open?.1 rest
    open?.2 ≤ closing.1 && closing.2.all isBlank

/-- `_ATX_H1_RE` and what is done with its title -/
def atxTitle (line : List Char) : List Char :=
  match unindent line with
  | some ('#' :: c :: rest) =>
      if isBlank c then
        let title := Lines.strip (rest.dropWhile isBlank)
        let base := title.rdropWhile (· = '#')
        if base = [] then []
        else if base ≠ title ∧ base.getLast?.any isBlank then Lines.strip (base.rdropWhile isBlank)
        else title
      else []
  | _ => []

/-- The loop of `_derive_okf_title` over the lines of a body. -/
def headingTitle : Option (Char × Nat) → List (List Char) → Option (List Char)
  | _, [] => none
  | some open?, line :: lines =>
      headingTitle (if closesFence open? line then none else some open?) lines
  | none, line :: lines => match openFence line with
      | some open? => headingTitle (some open?) lines
      | none => if atxTitle line = [] then headingTitle none lines else some (atxTitle line)

/-- `" ".join(text.split())` -/
def squeeze (text : List Char) : List Char :=
  [' '].intercalate ((text.splitOnP Lines.isSpace).filter (· ≠ []))

/-- `_derive_okf_title` -/
def deriveOkfTitle (body logicalPath : List Char) : Option (List Char) :=
  match headingTitle none (Lines.splitLines body) with
  | some title => some title
  | none =>
      let stem := (PosixPath.parse logicalPath).stem
      let normalized := squeeze (stem.map fun c => if c = '_' ∨ c = '-' then ' ' else c)
      if normalized = [] then none else some normalized

/-! ## 3. Writing and removing -/

section

variable {O V : Type} [DecidableEq O] (yaml : Yaml O V)

/-- A field of the frontmatter. -/
def field (name : String) : Key O := .text name.toList

/-- What `_add_okf_envelope` has done so far. -/
structure Envelope (O V : Type) where
  frontmatter : Dict (Key O) V
  added : List String

/-- Add a field that is missing. -/
def Envelope.addMissing (e : Envelope O V) (name : String) (value : Option V) : Envelope O V :=
  match e.frontmatter.get? (field name), value with
  | none, some v => ⟨e.frontmatter.set (field name) v, e.added ++ [name]⟩
  | _, _ => e

/-- `_add_okf_envelope` -/
def addOkfEnvelope (frontmatter : Dict (Key O) V) (body : List Char) (p : Passport)
    (logicalPath : List Char) : Except PassportError (Envelope O V) :=
  let blankType := (frontmatter.get? (field "type")).any fun v =>
    (yaml.toText? v).all Lines.isBlank
  if blankType then
    .error { fieldPath := "type", message := "must be a non-empty string when present" }
  else
    let start : Envelope O V := ⟨frontmatter, []⟩
    .ok (((start.addMissing "type" (some (yaml.ofText "Memory Document".toList))).addMissing
      "title" ((deriveOkfTitle body logicalPath).map yaml.ofText)).addMissing
      "description" (some (yaml.ofText (squeeze p.intent.toList))))

/-- `PreparedPassportWrite` -/
structure PreparedPassportWrite where
  text : List Char
  addedOkfFields : List String := []

/-- `_prepare_frontmatter_rewrite` -/
def prepareFrontmatterRewrite (frontmatter : Dict (Key O) V) (body : List Char)
    (added : List String) : Except Raised PreparedPassportWrite :=
  if frontmatter.isEmpty then .ok ⟨body, added⟩
  else match yaml.dump frontmatter with
    | .error _ => .error .yaml
    | .ok block => .ok ⟨document block body, added⟩

/-- `path.read_text(encoding="utf-8")` -/
def readText (bytes : List UInt8) : Except Raised (List Char) :=
  match Utf8.decode bytes with
  | none => .error .unicodeDecodeError
  | some text => .ok (Lines.translate text)

/-- The arguments of a write besides the passport. -/
structure Target where
  path : PosixPath
  /-- `path.resolve()` -/
  resolved : PosixPath
  okfPath : Option (List Char) := none
  logicalPath : Option (List Char) := none

/-- The check of the path, by whether an envelope is asked for. -/
def validateTarget (target : Target) : Except PassportError Unit :=
  match target.okfPath with
  | none => validateOkfReservedBasenames ((target.logicalPath.filter (· ≠ [])).getD target.path.str)
      target.resolved
  | some okfPath => validateOkfMemoryPath okfPath target.resolved

/-- The envelope of a document, where one is asked for. -/
def envelopeOf (target : Target) (frontmatter : Dict (Key O) V) (body : List Char) (p : Passport) :
    Except PassportError (Envelope O V) :=
  match target.okfPath with
  | none => .ok ⟨frontmatter, []⟩
  | some okfPath => addOkfEnvelope yaml frontmatter body p okfPath

/-- `prepare_passport_write`, for a file with these bytes. -/
def preparePassportWrite (target : Target) (p : Passport) (bytes : List UInt8) :
    Except Raised PreparedPassportWrite :=
  match validateTarget target with
  | .error e => .error (.passport e)
  | .ok () => match parsePassport p with
    | .error e => .error (.passport e)
    | .ok () => match readText bytes with
      | .error e => .error e
      | .ok text => match extractFrontmatterForMutation yaml text with
        | .error e => .error e
        | .ok (frontmatter, body) =>
            match envelopeOf yaml target (frontmatter.getD Dict.empty) body p with
            | .error e => .error (.passport e)
            | .ok envelope => prepareFrontmatterRewrite yaml
                (envelope.frontmatter.set (field "forge_memory") (passportToDict yaml p)) body
                envelope.added

/-- `apply_prepared_passport_write`: the file is replaced, or an `OSError`
leaves it as it is. -/
def applyPreparedPassportWrite (faulty : Bool) (prepared : PreparedPassportWrite)
    (bytes : List UInt8) : Except Raised (List String) × List UInt8 :=
  if faulty then (.error .os, bytes)
  else (.ok prepared.addedOkfFields, Utf8.encode prepared.text)

/-- `write_passport`: the result and the file as it is left. -/
def writePassport (faulty : Bool) (target : Target) (p : Passport) (bytes : List UInt8) :
    Except Raised (List String) × List UInt8 :=
  match preparePassportWrite yaml target p bytes with
  | .error e => (.error e, bytes)
  | .ok prepared => applyPreparedPassportWrite faulty prepared bytes

/-- `remove_passport`: the result and the file as it is left. -/
def removePassport (faulty : Bool) (bytes : List UInt8) : Except Raised Bool × List UInt8 :=
  match readText bytes with
  | .error e => (.error e, bytes)
  | .ok text => match extractFrontmatterForMutation yaml text with
    | .error e => (.error e, bytes)
    | .ok (none, _) => (.ok false, bytes)
    | .ok (some frontmatter, body) =>
        if (frontmatter.get? (field "forge_memory")).isNone then (.ok false, bytes)
        else match prepareFrontmatterRewrite yaml (frontmatter.erase (field "forge_memory")) body [] with
          | .error e => (.error e, bytes)
          | .ok prepared => match applyPreparedPassportWrite faulty prepared bytes with
            | (.error e, left) => (.error e, left)
            | (.ok _, left) => (.ok true, left)

/-! ## 4. What is relied on -/

/-- How a reader opens a file: in text mode, or character by character. -/
inductive Reading where
  | textMode
  | exact

def Reading.apply : Reading → List Char → List Char
  | .textMode => Lines.translate
  | .exact => id

/-- A file is read as this mapping and this body. -/
def ReadsAs (reading : Reading) (bytes : List UInt8) (holds : Dict (Key O) V → Prop)
    (body : List Char) : Prop :=
  ∃ text fm, Utf8.decode bytes = some text ∧
    extractFrontmatter yaml (reading.apply text) = .ok (fm, body) ∧ holds (fm.getD Dict.empty)

/-- The mapping `m` with `forge_memory` set and the reported fields added. -/
structure WithPassport (m : Dict (Key O) V) (p : Passport) (added : List String)
    (d : Dict (Key O) V) : Prop where
  passport : d.get? (field "forge_memory") = some (passportToDict yaml p)
  fresh : ∀ name ∈ added, m.get? (field name) = none ∧ (d.get? (field name)).isSome
  others : ∀ key, key ≠ field "forge_memory" → key ∉ added.map field → d.get? key = m.get? key

/-- The mapping `m` without `forge_memory`, with the reported fields. -/
structure WithoutPassport (m : Dict (Key O) V) (added : List String) (d : Dict (Key O) V) :
    Prop where
  passport : d.get? (field "forge_memory") = none
  fresh : ∀ name ∈ added, m.get? (field name) = none ∧ (d.get? (field name)).isSome
  others : ∀ key, key ≠ field "forge_memory" → key ∉ added.map field → d.get? key = m.get? key

/-- What a write of a passport to the file with these characters, a second
write and a removal are relied on to do. -/
def Preserves (reading : Reading) (faulty : Bool) (target : Target) (p : Passport)
    (file : List Char) : Prop :=
  let original := documentOf yaml (reading.apply file)
  match writePassport yaml faulty target p (Utf8.encode file) with
  | (.error _, left) => left = Utf8.encode file
  | (.ok added, left) =>
      ReadsAs yaml reading left (WithPassport yaml original.1 p added) original.2 ∧
        (∀ faulty', (writePassport yaml faulty' target p left).2 = left) ∧
        ∀ faulty', match removePassport yaml faulty' left with
          | (.error _, left') => left' = left
          | (.ok removed, left') => removed = true ∧
              ReadsAs yaml reading left' (WithoutPassport original.1 added) original.2

/-- Nothing in the body comes to stand as a block when the passport was all
there is in the mapping. -/
def NotExposed (target : Target) (file : List Char) : Prop :=
  let original := documentOf yaml (Lines.translate file)
  target.okfPath = none → (∀ key, key ≠ field "forge_memory" → original.1.get? key = none) →
    extractFrontmatter yaml original.2 = .ok (none, original.2)

/-- The document is the same with its newlines translated as without. -/
def SameDocument (file : List Char) : Prop :=
  (documentOf yaml file).2 = (documentOf yaml (Lines.translate file)).2 ∧
    ∀ key, key ≠ field "forge_memory" →
      (documentOf yaml file).1.get? key = (documentOf yaml (Lines.translate file)).1.get? key

/-- The write returns. -/
def Written (faulty : Bool) (target : Target) (p : Passport) (file : List Char) : Prop :=
  ∃ added left, writePassport yaml faulty target p (Utf8.encode file) = (.ok added, left)

end

/-! ## 5. The envelope -/

section

variable {O V : Type} [DecidableEq O] {yaml : Yaml O V}

omit [DecidableEq O] in
theorem field_inj {a b : String} : (field a : Key O) = field b ↔ a = b := by
  simp [field, String.toList_inj]

/-- The fields of an envelope. -/
def okfFields : List String := ["type", "title", "description"]

/-- An envelope over a mapping: new fields, and the rest as it is. -/
structure Extends (m : Dict (Key O) V) (e : Envelope O V) : Prop where
  known : ∀ name ∈ e.added, name ∈ okfFields
  fresh : ∀ name ∈ e.added, m.get? (field name) = none ∧ (e.frontmatter.get? (field name)).isSome
  others : ∀ key, key ∉ e.added.map field → e.frontmatter.get? key = m.get? key

theorem extends_start (m : Dict (Key O) V) : Extends m ⟨m, []⟩ := by
  constructor
  · simp
  · simp
  · simp

theorem Extends.addMissing {m : Dict (Key O) V} {e : Envelope O V} (h : Extends m e) {name : String}
    (hname : name ∈ okfFields) (value : Option V) : Extends m (e.addMissing name value) := by
  unfold Envelope.addMissing
  split
  · rename_i v hmissing
    have hnew : (field name : Key O) ∉ e.added.map field := by
      intro hmem
      obtain ⟨other, hother, heq⟩ := List.mem_map.mp hmem
      have hsome := (h.fresh other hother).2
      rw [heq, hmissing] at hsome
      cases hsome
    constructor
    · intro other hother
      obtain hother | hother := List.mem_append.mp hother
      · exact h.known other hother
      · rw [List.mem_singleton.mp hother]
        exact hname
    · intro other hother
      obtain hother | hother := List.mem_append.mp hother
      · refine ⟨(h.fresh other hother).1, ?_⟩
        rw [Dict.get?_set]
        split
        · rfl
        · exact (h.fresh other hother).2
      · rw [List.mem_singleton.mp hother, Dict.get?_set, if_pos rfl, ← h.others _ hnew]
        exact ⟨hmissing, rfl⟩
    · intro key hkey
      rw [List.map_append, List.mem_append, not_or] at hkey
      have hne : key ≠ field name := by simpa using hkey.2
      rw [Dict.get?_set, if_neg hne]
      exact h.others key hkey.1
  · exact h

/-- A field with a value is there after it was added where missing. -/
theorem addMissing_isSome (e : Envelope O V) (name : String) (v : V) :
    ((e.addMissing name (some v)).frontmatter.get? (field name)).isSome := by
  unfold Envelope.addMissing
  split
  · simp [Dict.get?_set]
  · rename_i hne
    cases hget : e.frontmatter.get? (field name) with
    | none => exact absurd rfl (hne v hget)
    | some w => rfl

/-- Adding another field keeps what is there. -/
theorem addMissing_get? (e : Envelope O V) (name : String) (value : Option V) {key : Key O} {v : V}
    (h : e.frontmatter.get? key = some v) :
    (e.addMissing name value).frontmatter.get? key = some v := by
  unfold Envelope.addMissing
  split
  · rename_i hmissing
    have hne : key ≠ field name := by
      intro heq
      rw [heq, hmissing] at h
      cases h
    rw [Dict.get?_set, if_neg hne, h]
  · exact h

theorem addMissing_present {e : Envelope O V} {name : String} {value : Option V}
    (h : value = none ∨ (e.frontmatter.get? (field name)).isSome) :
    e.addMissing name value = e := by
  unfold Envelope.addMissing
  split
  · rename_i hmissing
    obtain h | h := h
    · cases h
    · rw [hmissing] at h
      cases h
  · rfl

/-- What an envelope holds when it is complete. -/
structure Complete (yaml : Yaml O V) (body logicalPath : List Char) (d : Dict (Key O) V) : Prop where
  kind : ∃ v, d.get? (field "type") = some v ∧ (yaml.toText? v).all Lines.isBlank = false
  title : deriveOkfTitle body logicalPath = none ∨ (d.get? (field "title")).isSome
  description : (d.get? (field "description")).isSome

theorem addOkfEnvelope_ok {m : Dict (Key O) V} {body logicalPath : List Char} {p : Passport}
    {e : Envelope O V} (h : addOkfEnvelope yaml m body p logicalPath = .ok e) :
    Extends m e ∧ Complete yaml body logicalPath e.frontmatter := by
  unfold addOkfEnvelope at h
  dsimp only at h
  split at h
  · cases h
  rename_i hkind
  cases h
  refine ⟨(((extends_start m).addMissing (by decide) _).addMissing (by decide) _).addMissing
    (by decide) _, ?_⟩
  constructor
  · have hstart : ∃ v, ((⟨m, []⟩ : Envelope O V).addMissing "type"
        (some (yaml.ofText "Memory Document".toList))).frontmatter.get? (field "type") = some v ∧
          (yaml.toText? v).all Lines.isBlank = false := by
      cases hget : m.get? (field "type") with
      | none =>
        refine ⟨yaml.ofText "Memory Document".toList, ?_, ?_⟩
        · simp [Envelope.addMissing, hget, Dict.get?_set]
        · rw [yaml.toText?_ofText]
          rfl
      | some v =>
        refine ⟨v, addMissing_get? _ _ _ hget, ?_⟩
        simpa [hget] using hkind
    obtain ⟨v, hget, hblank⟩ := hstart
    exact ⟨v, addMissing_get? _ _ _ (addMissing_get? _ _ _ hget), hblank⟩
  · cases htitle : deriveOkfTitle body logicalPath with
    | none => exact .inl rfl
    | some title =>
      right
      obtain ⟨w, hw⟩ := Option.isSome_iff_exists.mp (addMissing_isSome (((⟨m, []⟩ :
        Envelope O V).addMissing "type" (some (yaml.ofText "Memory Document".toList)))) "title"
          (yaml.ofText title))
      rw [Option.map_some, addMissing_get? _ _ _ hw]
      rfl
  · exact addMissing_isSome _ _ _

/-- A complete envelope is left as it is. -/
theorem addOkfEnvelope_complete {d : Dict (Key O) V} {body logicalPath : List Char} (p : Passport)
    (h : Complete yaml body logicalPath d) :
    addOkfEnvelope yaml d body p logicalPath = .ok ⟨d, []⟩ := by
  obtain ⟨v, hget, hblank⟩ := h.kind
  have hkind : ((d.get? (field "type")).any fun v => (yaml.toText? v).all Lines.isBlank) = false := by
    rw [hget]
    exact hblank
  have htype : (⟨d, []⟩ : Envelope O V).addMissing "type"
      (some (yaml.ofText "Memory Document".toList)) = ⟨d, []⟩ :=
    addMissing_present (.inr (by simp [hget]))
  have htitle : (⟨d, []⟩ : Envelope O V).addMissing "title"
      ((deriveOkfTitle body logicalPath).map yaml.ofText) = ⟨d, []⟩ := by
    refine addMissing_present ?_
    obtain hnone | hsome := h.title
    · exact .inl (by rw [hnone]; rfl)
    · exact .inr hsome
  unfold addOkfEnvelope
  dsimp only
  rw [hkind, htype, htitle, addMissing_present (.inr h.description)]
  rfl

/-- An envelope stays complete when the passport is set. -/
theorem Complete.set {body logicalPath : List Char} {d : Dict (Key O) V}
    (h : Complete yaml body logicalPath d) (v : V) :
    Complete yaml body logicalPath (d.set (field "forge_memory") v) := by
  have hsame : ∀ name ∈ okfFields,
      (d.set (field "forge_memory") v).get? (field name) = d.get? (field name) := by
    intro name hname
    rw [Dict.get?_set, if_neg]
    intro heq
    rw [field_inj.mp heq] at hname
    exact absurd hname (by decide)
  constructor
  · rw [hsame "type" (by decide)]
    exact h.kind
  · rw [hsame "title" (by decide)]
    exact h.title
  · rw [hsame "description" (by decide)]
    exact h.description

/-- The envelope of a document: new fields only, none in a second time. -/
theorem envelopeOf_ok {target : Target} {m : Dict (Key O) V} {body : List Char} {p : Passport}
    {e : Envelope O V} (h : envelopeOf yaml target m body p = .ok e) :
    Extends m e ∧
      (∀ v, envelopeOf yaml target (e.frontmatter.set (field "forge_memory") v) body p
        = .ok ⟨e.frontmatter.set (field "forge_memory") v, []⟩) ∧
      (target.okfPath = none → e.added = []) ∧
      (target.okfPath ≠ none → (e.frontmatter.get? (field "type")).isSome) := by
  unfold envelopeOf at h ⊢
  cases hpath : target.okfPath with
  | none =>
    rw [hpath] at h
    cases h
    exact ⟨extends_start m, fun _ => rfl, fun _ => rfl, fun hne => absurd rfl hne⟩
  | some okfPath =>
    rw [hpath] at h
    obtain ⟨hextends, hcomplete⟩ := addOkfEnvelope_ok h
    refine ⟨hextends, fun v => addOkfEnvelope_complete p (hcomplete.set v), by simp, fun _ => ?_⟩
    obtain ⟨v, hget, -⟩ := hcomplete.kind
    rw [hget]
    rfl

/-! ## 6. What is left behind -/

theorem not_mem_document {block body : List Char} (hblock : IsBlock block) (hbody : '\r' ∉ body) :
    '\r' ∉ document block body := by
  have hfence : '\r' ∉ fence := by decide
  simp only [document, List.mem_append, not_or]
  exact ⟨hfence, hblock.plain, hfence, hbody⟩

/-- A text without carriage returns is read as it is. -/
theorem Reading.apply_plain (reading : Reading) {text : List Char} (h : '\r' ∉ text) :
    reading.apply text = text := by
  cases reading with
  | textMode => exact Lines.translate_eq_self_iff.mpr h
  | exact => rfl

theorem readText_plain {text : List Char} (h : '\r' ∉ text) :
    readText (Utf8.encode text) = .ok text := by
  simp [readText, Lines.translate_eq_self_iff.mpr h]

omit [DecidableEq O] in
theorem readsAs_plain {reading : Reading} {text : List Char} (h : '\r' ∉ text)
    {holds : Dict (Key O) V → Prop} {body : List Char} :
    ReadsAs yaml reading (Utf8.encode text) holds body ↔
      ∃ fm, extractFrontmatter yaml text = .ok (fm, body) ∧ holds (fm.getD Dict.empty) := by
  constructor
  · intro hreads
    obtain ⟨text', fm, hdecode, hextract, hholds⟩ := hreads
    rw [Utf8.decode_encode] at hdecode
    cases hdecode
    rw [reading.apply_plain h] at hextract
    exact ⟨fm, hextract, hholds⟩
  · intro hreads
    obtain ⟨fm, hextract, hholds⟩ := hreads
    refine ⟨text, fm, Utf8.decode_encode text, ?_, hholds⟩
    rw [reading.apply_plain h]
    exact hextract

omit [DecidableEq O] in
/-- A document that was written is read as its mapping and its body. -/
theorem readsAs_document {reading : Reading} {d : Dict (Key O) V} {block : List Char}
    (hdump : yaml.dump d = .ok block) {body : List Char} (hbody : '\r' ∉ body)
    {holds : Dict (Key O) V → Prop} {body' : List Char} :
    ReadsAs yaml reading (Utf8.encode (document block body)) holds body' ↔
      body = body' ∧ holds d := by
  rw [readsAs_plain (not_mem_document (yaml.dump_block d block hdump) hbody),
    extractFrontmatter_document hdump]
  simp only [Except.ok.injEq, Prod.mk.injEq]
  constructor
  · intro h
    obtain ⟨fm, ⟨rfl, hsame⟩, hholds⟩ := h
    exact ⟨hsame, hholds⟩
  · intro h
    obtain ⟨hsame, hholds⟩ := h
    exact ⟨some d, ⟨rfl, hsame⟩, hholds⟩

theorem isEmpty_set (d : Dict (Key O) V) (k : Key O) (v : V) : (d.set k v).isEmpty = false := by
  rw [Bool.eq_false_iff]
  intro h
  have hnone := Dict.get?_of_isEmpty h k
  rw [Dict.get?_set, if_pos rfl] at hnone
  cases hnone

/-- What a write is prepared from. -/
structure Prepared (yaml : Yaml O V) (target : Target) (p : Passport) (text : List Char)
    (m : Dict (Key O) V) (body : List Char) (e : Envelope O V) (block : List Char) : Prop where
  checked : validateTarget target = .ok ()
  valid : parsePassport p = .ok ()
  original : documentOf yaml text = (m, body)
  envelope : envelopeOf yaml target m body p = .ok e
  dump : yaml.dump (e.frontmatter.set (field "forge_memory") (passportToDict yaml p)) = .ok block

theorem preparePassportWrite_ok {target : Target} {p : Passport} {file : List Char}
    {prepared : PreparedPassportWrite}
    (h : preparePassportWrite yaml target p (Utf8.encode file) = .ok prepared) :
    ∃ m body e block, Prepared yaml target p (Lines.translate file) m body e block ∧
      prepared = ⟨document block body, e.added⟩ := by
  unfold preparePassportWrite at h
  split at h
  · cases h
  rename_i htarget
  split at h
  · cases h
  rename_i hpassport
  rw [readText, Utf8.decode_encode] at h
  dsimp only at h
  split at h
  · cases h
  rename_i fm body hextract
  obtain ⟨horiginal, -⟩ := extractFrontmatterForMutation_ok hextract
  split at h
  · cases h
  rename_i e henvelope
  rw [prepareFrontmatterRewrite, isEmpty_set, if_neg Bool.false_ne_true] at h
  split at h
  · cases h
  rename_i block hdump
  cases h
  exact ⟨fm.getD Dict.empty, body, e, block, ⟨htarget, hpassport, horiginal, henvelope, hdump⟩, rfl⟩

/-- **A failed write** leaves the file as it is. -/
theorem writePassport_error {faulty : Bool} {target : Target} {p : Passport} {bytes left : List UInt8}
    {e : Raised} (h : writePassport yaml faulty target p bytes = (.error e, left)) : left = bytes := by
  unfold writePassport applyPreparedPassportWrite at h
  split at h
  · cases h
    rfl
  split at h
  · cases h
    rfl
  · cases h

/-- **A failed removal** leaves the file as it is. -/
theorem removePassport_error {faulty : Bool} {bytes left : List UInt8} {e : Raised}
    (h : removePassport yaml faulty bytes = (.error e, left)) : left = bytes := by
  unfold removePassport at h
  split at h
  · cases h
    rfl
  split at h
  · cases h
    rfl
  · cases h
  split at h
  · cases h
  split at h
  · cases h
    rfl
  split at h
  · rename_i e' left' happly
    cases h
    unfold applyPreparedPassportWrite at happly
    split at happly
    · cases happly
      rfl
    · cases happly
  · cases h

section

variable {target : Target} {p : Passport} {text : List Char} {m : Dict (Key O) V} {body : List Char}
  {e : Envelope O V} {block : List Char}

/-- The mapping that is written. -/
theorem Prepared.withPassport (h : Prepared yaml target p text m body e block) :
    WithPassport yaml m p e.added
      (e.frontmatter.set (field "forge_memory") (passportToDict yaml p)) := by
  obtain ⟨hextends, -⟩ := envelopeOf_ok h.envelope
  constructor
  · rw [Dict.get?_set, if_pos rfl]
  · intro name hname
    refine ⟨(hextends.fresh name hname).1, ?_⟩
    rw [Dict.get?_set]
    split
    · rfl
    · exact (hextends.fresh name hname).2
  · intro key hkey hnew
    rw [Dict.get?_set, if_neg hkey]
    exact hextends.others key hnew

/-- The document that was written is prepared again as it is. -/
theorem Prepared.prepare_again (h : Prepared yaml target p text m body e block)
    (hbody : '\r' ∉ body) :
    preparePassportWrite yaml target p (Utf8.encode (document block body))
      = .ok ⟨document block body, []⟩ := by
  obtain ⟨-, hagain, -⟩ := envelopeOf_ok h.envelope
  have hread := readText_plain (not_mem_document (yaml.dump_block _ block h.dump) hbody)
  have hset : (e.frontmatter.set (field "forge_memory") (passportToDict yaml p)).set
      (field "forge_memory") (passportToDict yaml p)
        = e.frontmatter.set (field "forge_memory") (passportToDict yaml p) := by
    refine Dict.set_of_get? ?_
    rw [Dict.get?_set, if_pos rfl]
  simp only [preparePassportWrite, h.checked, h.valid, hread,
    extractFrontmatterForMutation_document h.dump, Option.getD_some, hagain, hset,
    prepareFrontmatterRewrite, isEmpty_set, h.dump]
  rfl

/-- Written once more, the passport changes nothing. -/
theorem Prepared.again (h : Prepared yaml target p text m body e block) (hbody : '\r' ∉ body)
    (faulty : Bool) :
    (writePassport yaml faulty target p (Utf8.encode (document block body))).2
      = Utf8.encode (document block body) := by
  rw [writePassport, h.prepare_again hbody]
  cases faulty <;> rfl

/-- The mapping without the passport. -/
theorem Prepared.withoutPassport (h : Prepared yaml target p text m body e block) :
    WithoutPassport m e.added
      ((e.frontmatter.set (field "forge_memory") (passportToDict yaml p)).erase
        (field "forge_memory")) := by
  have hwith := h.withPassport
  obtain ⟨hextends, -⟩ := envelopeOf_ok h.envelope
  constructor
  · rw [Dict.get?_erase, if_pos rfl]
  · intro name hname
    have hne : (field name : Key O) ≠ field "forge_memory" := by
      intro heq
      have hknown := hextends.known name hname
      rw [field_inj.mp heq] at hknown
      exact absurd hknown (by decide)
    rw [Dict.get?_erase, if_neg hne]
    exact hwith.fresh name hname
  · intro key hkey hnew
    rw [Dict.get?_erase, if_neg hkey]
    exact hwith.others key hkey hnew

/-- The passport was all there is: no field is added, and no other key is
in the mapping. -/
theorem Prepared.emptied_iff (h : Prepared yaml target p text m body e block) :
    ((e.frontmatter.set (field "forge_memory") (passportToDict yaml p)).erase
        (field "forge_memory")).isEmpty = true ↔
      target.okfPath = none ∧ ∀ key, key ≠ field "forge_memory" → m.get? key = none := by
  have hwithout := h.withoutPassport
  obtain ⟨-, -, hnone, hsome⟩ := envelopeOf_ok h.envelope
  rw [Dict.isEmpty_iff_get?]
  constructor
  · intro hempty
    have hpath : target.okfPath = none := by
      by_contra hpath
      obtain ⟨v, hv⟩ := Option.isSome_iff_exists.mp (hsome hpath)
      have hkey : (field "type" : Key O) ≠ field "forge_memory" := by
        intro heq
        exact absurd (field_inj.mp heq) (by decide)
      have hget := hempty (field "type")
      rw [Dict.get?_erase, if_neg hkey, Dict.get?_set, if_neg hkey, hv] at hget
      cases hget
    refine ⟨hpath, ?_⟩
    intro key hkey
    rw [← hwithout.others key hkey (by simp [hnone hpath]), hempty key]
  · intro hother
    obtain ⟨hpath, hkeys⟩ := hother
    intro key
    by_cases hkey : key = field "forge_memory"
    · rw [hkey]
      exact hwithout.passport
    · rw [hwithout.others key hkey (by simp [hnone hpath]), hkeys key hkey]

/-- What a removal of the passport that was written leaves behind. -/
theorem Prepared.remove_iff (h : Prepared yaml target p text m body e block) (hbody : '\r' ∉ body)
    (reading : Reading) :
    (∀ faulty, match removePassport yaml faulty (Utf8.encode (document block body)) with
      | (.error _, left) => left = Utf8.encode (document block body)
      | (.ok removed, left) => removed = true ∧
          ReadsAs yaml reading left (WithoutPassport m e.added) body) ↔
      (target.okfPath = none → (∀ key, key ≠ field "forge_memory" → m.get? key = none) →
        extractFrontmatter yaml body = .ok (none, body)) := by
  have hread := readText_plain (not_mem_document (yaml.dump_block _ block h.dump) hbody)
  have hget : ((e.frontmatter.set (field "forge_memory") (passportToDict yaml p)).get?
      (field "forge_memory")).isNone = false := by
    rw [Dict.get?_set, if_pos rfl]
    rfl
  simp only [removePassport, hread, extractFrontmatterForMutation_document h.dump, hget,
    Bool.false_eq_true, if_false, prepareFrontmatterRewrite]
  have hwithout := h.withoutPassport
  have hiff := h.emptied_iff
  generalize (e.frontmatter.set (field "forge_memory") (passportToDict yaml p)).erase
    (field "forge_memory") = rest at hwithout hiff
  by_cases hempty : rest.isEmpty = true
  · -- the block is dropped: what is left is the body alone
    obtain ⟨hpath, hkeys⟩ := hiff.mp hempty
    have hadded : e.added = [] := (envelopeOf_ok h.envelope).2.2.1 hpath
    simp only [hempty, if_true]
    constructor
    · intro hleft _ _
      obtain ⟨-, hreads⟩ := hleft false
      obtain ⟨fm, hextract, -⟩ := (readsAs_plain hbody).mp hreads
      rw [hextract, extractFrontmatter_body hextract]
    · intro hexposed faulty
      cases faulty with
      | true => rfl
      | false =>
        refine ⟨rfl, (readsAs_plain hbody).mpr ⟨none, hexposed hpath hkeys, ?_⟩⟩
        constructor
        · rfl
        · simp [hadded]
        · intro key hkey _
          rw [hkeys key hkey]
          rfl
  · -- the block is written again
    refine iff_of_true ?_ ?_
    · intro faulty
      simp only [hempty]
      cases hdump : yaml.dump rest with
      | error error => rfl
      | ok block' =>
        cases faulty with
        | true => rfl
        | false => exact ⟨rfl, (readsAs_document hdump hbody).mpr ⟨rfl, hwithout⟩⟩
    · intro hpath hkeys
      exact absurd (hiff.mpr ⟨hpath, hkeys⟩) hempty

end

/-! ## 7. When the document is preserved -/

/-- Two mappings with the same values but for the passport. -/
def SameFields (m m' : Dict (Key O) V) : Prop :=
  ∀ key, key ≠ field "forge_memory" → m'.get? key = m.get? key

theorem WithPassport.congr {m m' : Dict (Key O) V} {p : Passport} {added : List String}
    {d : Dict (Key O) V} (h : WithPassport yaml m p added d) (hnames : ∀ name ∈ added, name ∈ okfFields)
    (hsame : SameFields m m') : WithPassport yaml m' p added d := by
  constructor
  · exact h.passport
  · intro name hname
    have hne : (field name : Key O) ≠ field "forge_memory" := by
      intro heq
      have hknown := hnames name hname
      rw [field_inj.mp heq] at hknown
      exact absurd hknown (by decide)
    rw [hsame (field name) hne]
    exact h.fresh name hname
  · intro key hkey hnew
    rw [hsame key hkey]
    exact h.others key hkey hnew

/-- Two mappings that become one by a write. -/
theorem WithPassport.sameFields {m m' : Dict (Key O) V} {p : Passport} {added : List String}
    {d : Dict (Key O) V} (h : WithPassport yaml m p added d) (h' : WithPassport yaml m' p added d) :
    SameFields m m' := by
  intro key hkey
  by_cases hnew : key ∈ added.map field
  · obtain ⟨name, hname, rfl⟩ := List.mem_map.mp hnew
    rw [(h.fresh name hname).1, (h'.fresh name hname).1]
  · rw [← h'.others key hkey hnew, h.others key hkey hnew]

theorem withoutPassport_congr {m m' : Dict (Key O) V} {added : List String}
    (hnames : ∀ name ∈ added, name ∈ okfFields) (hsame : SameFields m m') :
    WithoutPassport m' added = WithoutPassport m added := by
  have hne : ∀ name ∈ added, (field name : Key O) ≠ field "forge_memory" := by
    intro name hname heq
    have hknown := hnames name hname
    rw [field_inj.mp heq] at hknown
    exact absurd hknown (by decide)
  funext d
  refine propext ⟨?_, ?_⟩
  · intro h
    refine ⟨h.passport, ?_, ?_⟩
    · intro name hname
      rw [← hsame (field name) (hne name hname)]
      exact h.fresh name hname
    · intro key hkey hnew
      rw [← hsame key hkey]
      exact h.others key hkey hnew
  · intro h
    refine ⟨h.passport, ?_, ?_⟩
    · intro name hname
      rw [hsame (field name) (hne name hname)]
      exact h.fresh name hname
    · intro key hkey hnew
      rw [hsame key hkey]
      exact h.others key hkey hnew

/-- A write that returns, by what the document is without newline
translation. -/
theorem preserves_written_iff {reading : Reading} {faulty : Bool} {target : Target} {p : Passport}
    {file : List Char} (h : Written yaml faulty target p file) :
    Preserves yaml reading faulty target p file ↔
      ((documentOf yaml (reading.apply file)).2 = (documentOf yaml (Lines.translate file)).2 ∧
          SameFields (documentOf yaml (Lines.translate file)).1
            (documentOf yaml (reading.apply file)).1) ∧
        NotExposed yaml target file := by
  obtain ⟨added, left, hwrite⟩ := h
  unfold Preserves
  dsimp only
  rw [hwrite]
  unfold writePassport at hwrite
  split at hwrite
  · cases hwrite
  rename_i prepared hprepared
  obtain ⟨m, body, e, block, hprep, rfl⟩ := preparePassportWrite_ok hprepared
  cases faulty with
  | true => cases hwrite
  | false =>
    cases hwrite
    have hbody : '\r' ∉ body := by
      intro hmem
      have hsubset : (documentOf yaml (Lines.translate file)).2 ⊆ Lines.translate file :=
        documentOf_subset _
      rw [hprep.original] at hsubset
      exact Lines.not_mem_translate file (hsubset hmem)
    obtain ⟨hextends, -⟩ := envelopeOf_ok hprep.envelope
    have hnames := hextends.known
    simp only [NotExposed, hprep.original]
    rw [readsAs_document hprep.dump hbody]
    constructor
    · intro hpreserved
      obtain ⟨⟨hsame, hwith⟩, -, hremove⟩ := hpreserved
      have hfields := hprep.withPassport.sameFields hwith
      refine ⟨⟨hsame.symm, hfields⟩, (hprep.remove_iff hbody reading).mp ?_⟩
      rw [← hsame, withoutPassport_congr hnames hfields] at hremove
      exact hremove
    · intro hcondition
      obtain ⟨⟨hsame, hfields⟩, hexposed⟩ := hcondition
      refine ⟨⟨hsame.symm, hprep.withPassport.congr hnames hfields⟩, hprep.again hbody, ?_⟩
      rw [hsame, withoutPassport_congr hnames hfields]
      exact (hprep.remove_iff hbody reading).mpr hexposed

theorem not_preserves {faulty : Bool} {target : Target} {p : Passport} {file : List Char}
    (h : Written yaml faulty target p file) (hexposed : ¬ NotExposed yaml target file)
    (reading : Reading) : ¬ Preserves yaml reading faulty target p file := by
  intro hpreserved
  exact hexposed ((preserves_written_iff h).mp hpreserved).2

/-- A write that raises preserves the document: the file is as it was. -/
theorem preserves_not_written {reading : Reading} {faulty : Bool} {target : Target} {p : Passport}
    {file : List Char} (h : ¬ Written yaml faulty target p file) :
    Preserves yaml reading faulty target p file := by
  unfold Preserves
  dsimp only
  split
  · rename_i hwrite
    exact writePassport_error hwrite
  · rename_i added left hwrite
    exact absurd ⟨added, left, hwrite⟩ h

/-- For every file, passport and target: read in text mode, the document is
preserved exactly when a write that returns leaves nothing in the body to
be exposed; read character by character, exactly when in addition the
document is the same without newline translation. No operation changes a
file when it raises. -/
theorem passport_preserved_iff (yaml : Yaml O V) (faulty : Bool) (target : Target) (p : Passport)
    (file : List Char) :
    (Preserves yaml .textMode faulty target p file ↔
        (Written yaml faulty target p file → NotExposed yaml target file)) ∧
      (Preserves yaml .exact faulty target p file ↔
        (Written yaml faulty target p file → SameDocument yaml file ∧ NotExposed yaml target file)) ∧
      ∀ bytes left,
        (∀ e, writePassport yaml faulty target p bytes = (.error e, left) → left = bytes) ∧
          ∀ e, removePassport yaml faulty bytes = (.error e, left) → left = bytes := by
  refine ⟨?_, ?_, fun bytes left => ⟨fun e => writePassport_error, fun e => removePassport_error⟩⟩
  · by_cases hwritten : Written yaml faulty target p file
    · rw [preserves_written_iff hwritten]
      simp [hwritten, Reading.apply, SameFields]
    · simp [hwritten, preserves_not_written hwritten]
  · by_cases hwritten : Written yaml faulty target p file
    · rw [preserves_written_iff hwritten]
      simp [hwritten, Reading.apply, SameFields, SameDocument]
    · simp [hwritten, preserves_not_written hwritten]

end

/-! ## 8. A body that is exposed -/

/-- A block, by a look at each of its lines. -/
theorem isBlock_of_tails {text : List Char} (hended : text.getLast? = some '\n')
    (hplain : '\r' ∉ text)
    (hlines : ∀ rest ∈ text.tails, rest.head? = some '\n' → afterFence rest.tail = none) :
    IsBlock text := by
  refine ⟨hended, hplain, ?_⟩
  intro before after heq
  exact hlines ('\n' :: after) ((List.mem_tails _ _).mpr ⟨before, heq.symm⟩) rfl

namespace Exposed

/-- Values by their texts: a string after an `s`. -/
abbrev Rendered := List Char

def ofMap (items : List (String × Rendered)) : Rendered :=
  items.flatMap fun item => item.1.toList ++ [':'] ++ item.2 ++ [';']

def toText? : Rendered → Option (List Char)
  | 's' :: cs => some cs
  | _ => none

/-- The value of the passport of a document with a simple intent. -/
def notes : Passport := { version := 1, intent := "Notes" }

def notesValue : Rendered :=
  ofMap [("version", ['1']), ("intent", 's' :: "Notes".toList), ("captures", []), ("excludes", []),
    ("update", ofMap [("strategy", 's' :: "generic".toList), ("mode", 's' :: "direct".toList),
      ("writers", 's' :: "all-sessions".toList)])]

/-- Its block, line by line: `forge_memory:`, then `version: 1`, `intent: Notes`,
`captures: []`, `excludes: []`, and below `update:` the strategy, the mode and
the writers. -/
def notesBlock : List Char :=
  ['f', 'o', 'r', 'g', 'e', '_', 'm', 'e', 'm', 'o', 'r', 'y', ':', '\n', ' ', ' ', 'v', 'e', 'r',
    's', 'i', 'o', 'n', ':', ' ', '1', '\n', ' ', ' ', 'i', 'n', 't', 'e', 'n', 't', ':', ' ', 'N',
    'o', 't', 'e', 's', '\n', ' ', ' ', 'c', 'a', 'p', 't', 'u', 'r', 'e', 's', ':', ' ', '[', ']',
    '\n', ' ', ' ', 'e', 'x', 'c', 'l', 'u', 'd', 'e', 's', ':', ' ', '[', ']', '\n', ' ', ' ', 'u',
    'p', 'd', 'a', 't', 'e', ':', '\n', ' ', ' ', ' ', ' ', 's', 't', 'r', 'a', 't', 'e', 'g', 'y',
    ':', ' ', 'g', 'e', 'n', 'e', 'r', 'i', 'c', '\n', ' ', ' ', ' ', ' ', 'm', 'o', 'd', 'e', ':',
    ' ', 'd', 'i', 'r', 'e', 'c', 't', '\n', ' ', ' ', ' ', ' ', 'w', 'r', 'i', 't', 'e', 'r', 's',
    ':', ' ', 'a', 'l', 'l', '-', 's', 'e', 's', 's', 'i', 'o', 'n', 's', '\n']

def notesMapping : Dict (Key Empty) Rendered := Dict.empty.set (field "forge_memory") notesValue

def titleBlock : List Char := ['t', 'i', 't', 'l', 'e', ':', ' ', 'x', '\n']

def titleMapping : Dict (Key Empty) Rendered := Dict.empty.set (field "title") ['s', 'x']

/-- The YAML libraries on two mappings and their texts. -/
def load (text : List Char) : Option (Dict (Key Empty) Rendered) :=
  if text = notesBlock then some notesMapping
  else if text = titleBlock then some titleMapping
  else none

def dump (d : Dict (Key Empty) Rendered) : Except YamlError (List Char) :=
  if d = notesMapping then .ok notesBlock
  else if d = titleMapping then .ok titleBlock
  else .error .other

theorem load_of_dump {d : Dict (Key Empty) Rendered} {text : List Char} (h : dump d = .ok text) :
    load text = some d ∧ IsBlock text := by
  unfold dump at h
  split at h
  · rename_i hd
    rw [hd, ← Except.ok.inj h]
    exact ⟨if_pos rfl, isBlock_of_tails (by decide +kernel) (by decide +kernel) (by decide +kernel)⟩
  split at h
  · rename_i hd
    rw [hd, ← Except.ok.inj h]
    exact ⟨by decide +kernel,
      isBlock_of_tails (by decide +kernel) (by decide +kernel) (by decide +kernel)⟩
  · cases h

def yaml : Yaml Empty Rendered where
  compose text := .ok (some (load text).isSome)
  safeLoad text := .ok (match load text with
    | some d => .mapping d
    | none => .other "str")
  dump := dump
  ofText s := 's' :: s
  ofInt n := (toString n).toList
  ofList xs := xs.flatten
  ofMap := ofMap
  toText? := toText?
  toText?_ofText _ := rfl
  load_empty text h := by cases h
  load_dump d text h := by rw [(load_of_dump h).1]
  compose_dump d text h := by rw [(load_of_dump h).1]; rfl
  dump_block d text h := (load_of_dump h).2

def body : List Char := document titleBlock ['r', 'e', 's', 't', '\n']

/-- A document with nothing but a passport, before a body that begins with
a block of its own. -/
def file : List Char := document notesBlock body

def target : Target where
  path := PosixPath.parse "/repo/notes.md".toList
  resolved := PosixPath.parse "/repo/notes.md".toList

theorem dump_notes : yaml.dump notesMapping = .ok notesBlock := by
  have hdump : dump notesMapping = .ok notesBlock := if_pos rfl
  exact hdump

theorem dump_title : yaml.dump titleMapping = .ok titleBlock := by
  have hdump : dump titleMapping = .ok titleBlock := by decide +kernel
  exact hdump

theorem not_mem_body : '\r' ∉ body := by decide +kernel

theorem prepared : Prepared yaml target notes file notesMapping body ⟨notesMapping, []⟩ notesBlock := by
  have hvalue : passportToDict yaml notes = notesValue := by decide +kernel
  have hset : notesMapping.set (field "forge_memory") notesValue = notesMapping :=
    Dict.set_of_get? (by decide +kernel)
  constructor
  · decide +kernel
  · decide +kernel
  · exact (extractFrontmatterForMutation_ok (extractFrontmatterForMutation_document dump_notes body)).1
  · rfl
  · rw [hvalue, hset]
    exact dump_notes

end Exposed

open Exposed in
/-- The passport is written again and removed: what was the body is read as
a mapping with a title. -/
theorem removal_exposes_body :
    ¬ Preserves Exposed.yaml .textMode false target notes file ∧
      ¬ Preserves Exposed.yaml .exact false target notes file := by
  have hplain : '\r' ∉ file := not_mem_document (yaml.dump_block _ _ dump_notes) not_mem_body
  have hwritten : Written Exposed.yaml false target notes file :=
    ⟨[], Utf8.encode file, by rw [writePassport, file, prepared.prepare_again not_mem_body]; rfl⟩
  have hexposed : ¬ NotExposed Exposed.yaml target file := by
    intro h
    unfold NotExposed at h
    rw [Lines.translate_eq_self_iff.mpr hplain, prepared.original] at h
    have hbody := h rfl (prepared.emptied_iff.mp (by decide +kernel)).2
    rw [body, extractFrontmatter_document dump_title ['r', 'e', 's', 't', '\n']] at hbody
    cases hbody
  exact ⟨not_preserves hwritten hexposed .textMode, not_preserves hwritten hexposed .exact⟩

end MultiForge.Session.Frontmatter
