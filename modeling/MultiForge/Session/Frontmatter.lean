/-
MultiForge.Session.Frontmatter — the YAML block of a markdown document.

`passport.py` has three patterns for one block: what `extract_frontmatter`
reads, what a mutation also accepts (a block of no lines at all), and a
block that ends with the file, which a mutation refuses. `split` is the
block and the body a mutation selects, `documentOf` what they hold, and
where reading selects anything it selects the same
(`extractFrontmatter_of_mutation`). A block that the emitter wrote is
found again before any body (`frontmatterMatch_block`).

PyYAML and ruamel are one parameter, with what the code relies on as its
laws.
-/
import MultiForge.Lib.Dict
import MultiForge.Lib.LineEnds

namespace MultiForge.Session.Frontmatter

/-! ## 1. Patterns -/

/-- `[ \t]` -/
def isBlank (c : Char) : Bool := c = ' ' || c = '\t'

/-- `[ \t]*\r?\n` at the beginning of a text: what is left. -/
def lineEnd : List Char → Option (List Char)
  | [] => none
  | c :: cs =>
      if c = '\n' then some cs
      else if c = '\r' then if cs.head? = some '\n' then some cs.tail else none
      else if isBlank c then lineEnd cs else none

def dashes : List Char := ['-', '-', '-']

/-- `---[ \t]*\r?\n` at the beginning of a text: what is left. -/
def afterFence (text : List Char) : Option (List Char) :=
  if dashes <+: text then lineEnd (text.drop 3) else none

/-- `(?P<yaml>.*?\r?\n)---[ \t]*\r?\n`: the block and what is left. -/
def closing : List Char → Option (List Char × List Char)
  | [] => none
  | c :: cs =>
      match if c = '\n' then afterFence cs else none with
      | some body => some ([c], body)
      | none => (closing cs).map fun r => (c :: r.1, r.2)

/-- `_FRONTMATTER_RE.match(text)` -/
def frontmatterMatch (text : List Char) : Option (List Char × List Char) :=
  (afterFence text).bind closing

/-- `_MUTATION_FRONTMATTER_RE.match(text)` -/
def mutationMatch (text : List Char) : Option (List Char × List Char) :=
  (afterFence text).bind fun rest => match afterFence rest with
    | some body => some ([], body)
    | none => closing rest

/-- `---[ \t]*\Z` at the beginning of a text -/
def isLastFence (text : List Char) : Bool := dashes <+: text && (text.drop 3).all isBlank

/-- `^---[ \t]*\Z` behind a line feed of a text -/
def lastLineFence : List Char → Bool
  | [] => false
  | c :: cs => (c = '\n' && isLastFence cs) || lastLineFence cs

/-- `_MUTATION_FRONTMATTER_EOF_RE.match(text) is not None` -/
def eofMatch (text : List Char) : Bool :=
  (afterFence text).any fun rest => isLastFence rest || lastLineFence rest

/-- The block and the body that a mutation selects. -/
def split (text : List Char) : Option (List Char × List Char) :=
  (frontmatterMatch text).or (mutationMatch text)

/-! ## 2. YAML -/

/-- A key of a mapping. -/
inductive Key (O : Type) where
  | text (s : List Char)
  | other (o : O)
  deriving DecidableEq

/-- What `yaml.safe_load` returns. -/
inductive Loaded (O V : Type) where
  | none
  | mapping (d : Dict (Key O) V)
  | other (typeName : String)

/-- What the YAML libraries raise. -/
inductive YamlError where
  /-- `yaml.YAMLError` -/
  | yamlError (message : String)
  /-- anything else, such as `ValueError` for a date that is none -/
  | other
  deriving DecidableEq, Repr

/-- A text that may stand as a block: whole lines, none of which behind
the first is a delimiter. -/
structure IsBlock (text : List Char) : Prop where
  ended : text.getLast? = some '\n'
  plain : '\r' ∉ text
  lines : ∀ before after, text = before ++ '\n' :: after → afterFence after = none

/-- The YAML libraries, for values `V` and keys `O` that are no strings. -/
structure Yaml (O V : Type) where
  /-- `yaml.compose`: whether the root is a mapping, if there is one -/
  compose : List Char → Except YamlError (Option Bool)
  /-- `yaml.safe_load` -/
  safeLoad : List Char → Except YamlError (Loaded O V)
  /-- `_dump_yaml` -/
  dump : Dict (Key O) V → Except YamlError (List Char)
  ofText : List Char → V
  ofInt : Int → V
  ofList : List V → V
  ofMap : List (String × V) → V
  toText? : V → Option (List Char)
  toText?_ofText : ∀ s, toText? (ofText s) = some s
  load_empty : ∀ text, compose text = .ok none → safeLoad text = .ok .none
  load_dump : ∀ d text, dump d = .ok text → safeLoad text = .ok (.mapping d)
  compose_dump : ∀ d text, dump d = .ok text → compose text = .ok (some true)
  dump_block : ∀ d text, dump d = .ok text → IsBlock text

/-! ## 3. The parsers -/

/-- `PassportError` -/
structure PassportError where
  fieldPath : String
  message : String
  hint : Option String := none
  deriving DecidableEq, Repr

/-- What the operations on a document raise. -/
inductive Raised where
  | passport (e : PassportError)
  /-- what is no `YAMLError` leaves the YAML libraries as it is -/
  | yaml
  | unicodeDecodeError
  | os
  deriving DecidableEq, Repr

def Loaded.typeName {O V : Type} : Loaded O V → String
  | .none => "NoneType"
  | .mapping _ => "dict"
  | .other name => name

section

variable {O V : Type} (yaml : Yaml O V)

/-- `extract_frontmatter` -/
def extractFrontmatter (text : List Char) :
    Except Raised (Option (Dict (Key O) V) × List Char) :=
  match frontmatterMatch text with
  | none => .ok (none, text)
  | some (block, body) => match yaml.safeLoad block with
      | .error (.yamlError message) => .error (.passport
          { fieldPath := "forge_memory", message := "malformed YAML in frontmatter: " ++ message })
      | .error .other => .error .yaml
      | .ok .none => .ok (some Dict.empty, body)
      | .ok (.mapping d) => .ok (some d, body)
      | .ok (.other _) => .ok (none, text)

def isBom (c : Char) : Bool := c.toNat = 0xfeff

/-- `_extract_frontmatter_for_mutation` -/
def extractFrontmatterForMutation (text : List Char) :
    Except Raised (Option (Dict (Key O) V) × List Char) :=
  if text.head?.any isBom && dashes <+: text.drop 1 then
    .error (.passport
      { fieldPath := "frontmatter"
        message := "leading UTF-8 BOM before YAML frontmatter is not supported for mutation"
        hint := some "remove the BOM, then retry" })
  else match split text with
  | none =>
      if eofMatch text then
        .error (.passport
          { fieldPath := "frontmatter"
            message := "closing YAML delimiter at end of file is not supported for mutation"
            hint := some "add a newline after the closing '---', then retry" })
      else .ok (none, text)
  | some (block, body) => match yaml.compose block, yaml.safeLoad block with
      | .error (.yamlError message), _ => .error (.passport
          { fieldPath := "frontmatter", message := "malformed YAML: " ++ message })
      | .error .other, _ => .error .yaml
      | _, .error (.yamlError message) => .error (.passport
          { fieldPath := "frontmatter", message := "malformed YAML: " ++ message })
      | _, .error .other => .error .yaml
      | .ok none, .ok _ => .ok (some Dict.empty, body)
      | .ok (some true), .ok (.mapping d) => .ok (some d, body)
      | .ok _, .ok data => .error (.passport
          { fieldPath := "frontmatter"
            message := "must be a mapping (got " ++ data.typeName ++ ")"
            hint := some "replace the YAML root with a mapping before retrying" })

/-- The mapping and the body of a document. -/
def documentOf (text : List Char) : Dict (Key O) V × List Char :=
  match split text with
  | none => (Dict.empty, text)
  | some (block, body) => match yaml.safeLoad block with
      | .ok (.mapping d) => (d, body)
      | _ => (Dict.empty, body)

end

/-! ## 4. Delimiters -/

theorem lineEnd_eq : ∀ {text rest : List Char}, lineEnd text = some rest →
    ∃ before, before ≠ [] ∧ text = before ++ rest
  | [], _, h => nomatch h
  | c :: cs, rest, h => by
      rw [lineEnd] at h
      split at h
      · cases h
        exact ⟨[c], by simp, rfl⟩
      split at h
      · split at h
        · rename_i hhead
          cases h
          cases cs with
          | nil => cases hhead
          | cons d ds => exact ⟨[c, d], by simp, rfl⟩
        · cases h
      split at h
      · obtain ⟨before, -, heq⟩ := lineEnd_eq h
        exact ⟨c :: before, by simp, by rw [heq]; rfl⟩
      · cases h

theorem afterFence_eq {text rest : List Char} (h : afterFence text = some rest) :
    ∃ before, before ≠ [] ∧ text = before ++ rest := by
  unfold afterFence at h
  split at h
  · rename_i hdashes
    obtain ⟨before, hne, heq⟩ := lineEnd_eq h
    refine ⟨text.take 3 ++ before, by simp [hne], ?_⟩
    rw [List.append_assoc, ← heq, List.take_append_drop]
  · cases h

theorem closing_eq : ∀ {text block body : List Char}, closing text = some (block, body) →
    ∃ before, before ≠ [] ∧ text = before ++ body
  | [], _, _, h => nomatch h
  | c :: cs, block, body, h => by
      rw [closing] at h
      split at h
      · rename_i rest hfence
        cases h
        split at hfence
        · obtain ⟨before, -, heq⟩ := afterFence_eq hfence
          exact ⟨c :: before, by simp, by rw [heq]; rfl⟩
        · cases hfence
      · rw [Option.map_eq_some_iff] at h
        obtain ⟨⟨block', body'⟩, hclosing, heq⟩ := h
        cases heq
        obtain ⟨before, -, heq⟩ := closing_eq hclosing
        exact ⟨c :: before, by simp, by rw [heq]; rfl⟩

/-- A body is the end of its document, and not all of it. -/
theorem frontmatterMatch_eq {text block body : List Char}
    (h : frontmatterMatch text = some (block, body)) :
    ∃ before, before ≠ [] ∧ text = before ++ body := by
  rw [frontmatterMatch, Option.bind_eq_some_iff] at h
  obtain ⟨rest, hfence, hclosing⟩ := h
  obtain ⟨before, hne, rfl⟩ := afterFence_eq hfence
  obtain ⟨before', -, rfl⟩ := closing_eq hclosing
  exact ⟨before ++ before', by simp [hne], (List.append_assoc _ _ _).symm⟩

theorem split_suffix {text block body : List Char} (h : split text = some (block, body)) :
    body <:+ text := by
  rw [split, Option.or_eq_some_iff] at h
  obtain hread | ⟨-, hmutation⟩ := h
  · obtain ⟨before, -, heq⟩ := frontmatterMatch_eq hread
    exact ⟨before, heq.symm⟩
  · rw [mutationMatch, Option.bind_eq_some_iff] at hmutation
    obtain ⟨rest, hfence, hrest⟩ := hmutation
    obtain ⟨before, -, rfl⟩ := afterFence_eq hfence
    split at hrest
    · rename_i body' hbody
      cases hrest
      obtain ⟨before', -, rfl⟩ := afterFence_eq hbody
      exact ⟨before ++ before', List.append_assoc _ _ _⟩
    · obtain ⟨before', -, rfl⟩ := closing_eq hrest
      exact ⟨before ++ before', List.append_assoc _ _ _⟩

theorem lineEnd_append (rest : List Char) : ∀ {line : List Char}, '\n' ∈ line →
    lineEnd (line ++ rest) = (lineEnd line).map (· ++ rest)
  | c :: cs, h => by
      rw [List.cons_append, lineEnd, lineEnd]
      by_cases hfeed : c = '\n'
      · simp [hfeed]
      · have hmem : '\n' ∈ cs := by simpa [Ne.symm hfeed] using h
        by_cases hreturn : c = '\r'
        · cases cs with
          | nil => cases hmem
          | cons d ds => by_cases hd : d = '\n' <;> simp [hreturn, hd]
        · by_cases hblank : isBlank c = true
          · simp [hfeed, hreturn, hblank, lineEnd_append rest hmem]
          · simp [hfeed, hreturn, hblank]

/-- Whether a line is a delimiter does not depend on what follows it. -/
theorem afterFence_append {line : List Char} (h : '\n' ∈ line) (rest : List Char) :
    afterFence (line ++ rest) = (afterFence line).map (· ++ rest) := by
  have hiff : dashes <+: line ++ rest ↔ dashes <+: line := by
    constructor
    · intro hbegins
      obtain hline | hshort :=
        List.prefix_or_prefix_of_prefix hbegins (List.prefix_append line rest)
      · exact hline
      · exact absurd (hshort.subset h) (by decide)
    · intro hbegins
      exact hbegins.trans (List.prefix_append line rest)
  unfold afterFence
  by_cases hdashes : dashes <+: line
  · have hlength : 3 ≤ line.length := hdashes.length_le
    have hmem : '\n' ∈ line.drop 3 := by
      obtain ⟨tail, rfl⟩ := hdashes
      simpa [dashes] using h
    rw [if_pos (hiff.mpr hdashes), if_pos hdashes, List.drop_append_of_le_length hlength,
      lineEnd_append rest hmem]
  · rw [if_neg (mt hiff.mp hdashes), if_neg hdashes]
    rfl

/-- `---` and a line feed, as the code writes them. -/
def fence : List Char := dashes ++ ['\n']

theorem afterFence_fence (rest : List Char) : afterFence (fence ++ rest) = some rest := by
  simp [afterFence, fence, dashes, lineEnd]

/-- A block ends where its delimiter is. -/
theorem closing_block (body : List Char) : ∀ {block : List Char}, block.getLast? = some '\n' →
    (∀ before after, block = before ++ '\n' :: after → afterFence after = none) →
    closing (block ++ (fence ++ body)) = some (block, body)
  | [c], hended, _ => by
      have hc : c = '\n' := by simpa using hended
      subst hc
      rw [List.singleton_append, closing, if_pos rfl, afterFence_fence]
  | c :: d :: ds, hended, hlines => by
      have hended' : (d :: ds).getLast? = some '\n' := by simpa using hended
      have hmem : '\n' ∈ d :: ds := List.mem_of_getLast? hended'
      have hrest : closing ((d :: ds) ++ (fence ++ body)) = some (d :: ds, body) := by
        refine closing_block body hended' ?_
        intro before after heq
        exact hlines (c :: before) after (by rw [heq]; rfl)
      have hfirst : (if c = '\n' then afterFence ((d :: ds) ++ (fence ++ body)) else none) = none := by
        split
        · rename_i hc
          rw [afterFence_append hmem, hlines [] (d :: ds) (by rw [hc]; rfl)]
          rfl
        · rfl
      rw [List.cons_append, closing, hfirst, hrest]
      rfl

/-- **A block that was written is found again**, before any body. -/
theorem frontmatterMatch_block {block : List Char} (h : IsBlock block) (body : List Char) :
    frontmatterMatch (fence ++ (block ++ (fence ++ body))) = some (block, body) := by
  rw [frontmatterMatch, afterFence_fence, Option.bind_some]
  exact closing_block body h.ended h.lines

/-! ## 5. Documents -/

section

variable {O V : Type} {yaml : Yaml O V}

/-- The document that the code writes. -/
def document (block body : List Char) : List Char := fence ++ (block ++ (fence ++ body))

theorem extractFrontmatter_document {d : Dict (Key O) V} {block : List Char}
    (h : yaml.dump d = .ok block) (body : List Char) :
    extractFrontmatter yaml (document block body) = .ok (some d, body) := by
  rw [extractFrontmatter, document, frontmatterMatch_block (yaml.dump_block d block h)]
  simp [yaml.load_dump d block h]

theorem extractFrontmatterForMutation_document {d : Dict (Key O) V} {block : List Char}
    (h : yaml.dump d = .ok block) (body : List Char) :
    extractFrontmatterForMutation yaml (document block body) = .ok (some d, body) := by
  have hsplit : split (document block body) = some (block, body) := by
    rw [split, document, frontmatterMatch_block (yaml.dump_block d block h)]
    rfl
  have hbom : ((document block body).head?.any isBom) = false := rfl
  rw [extractFrontmatterForMutation, hbom, hsplit]
  simp [yaml.compose_dump d block h, yaml.load_dump d block h]

/-- What a mutation starts from: no block, or the mapping of the block. -/
theorem extractFrontmatterForMutation_ok {text : List Char} {fm : Option (Dict (Key O) V)}
    {body : List Char} (h : extractFrontmatterForMutation yaml text = .ok (fm, body)) :
    documentOf yaml text = (fm.getD Dict.empty, body) ∧ (fm = none ↔ split text = none) := by
  unfold extractFrontmatterForMutation at h
  unfold documentOf
  split at h
  · cases h
  split at h
  · rename_i hsplit
    split at h
    · cases h
    · cases h
      simp [hsplit]
  · rename_i block rest hsplit
    rw [hsplit]
    split at h
    · cases h
    · cases h
    · cases h
    · cases h
    · rename_i hcompose hload
      cases h
      simp [yaml.load_empty block hcompose]
    · rename_i d hcompose hload
      cases h
      simp [hload]
    · cases h

/-- A body has no characters that its document has not. -/
theorem documentOf_subset (text : List Char) : (documentOf yaml text).2 ⊆ text := by
  unfold documentOf
  split
  · exact List.Subset.refl _
  · rename_i hsplit
    split
    · exact (split_suffix hsplit).subset
    · exact (split_suffix hsplit).subset

/-- Without a block for a mutation there is none to read. -/
theorem extractFrontmatter_of_split {text : List Char} (h : split text = none) :
    extractFrontmatter yaml text = .ok (none, text) := by
  have hmatch : frontmatterMatch text = none := (Option.or_eq_none_iff.mp h).1
  rw [extractFrontmatter, hmatch]

/-- **Reading selects what a mutation selects**, where it selects a block:
it does not know a block of no lines. -/
theorem extractFrontmatter_of_mutation {text : List Char} {d : Dict (Key O) V} {body : List Char}
    (h : extractFrontmatterForMutation yaml text = .ok (some d, body))
    (hmatch : frontmatterMatch text ≠ none) :
    extractFrontmatter yaml text = .ok (some d, body) := by
  obtain ⟨⟨block, rest⟩, hblock⟩ := Option.ne_none_iff_exists'.mp hmatch
  have hsplit : split text = some (block, rest) := by
    rw [split, hblock]
    rfl
  rw [extractFrontmatter, hblock]
  unfold extractFrontmatterForMutation at h
  rw [hsplit] at h
  split at h
  · cases h
  dsimp only at h
  split at h
  · cases h
  · cases h
  · cases h
  · cases h
  · rename_i hcompose hload
    cases h
    simp [yaml.load_empty block hcompose]
  · rename_i d' hcompose hload
    cases h
    simp [hload]
  · cases h

/-- Reading finds no block exactly when it leaves the text as it is. -/
theorem extractFrontmatter_body {text : List Char} {fm : Option (Dict (Key O) V)}
    (h : extractFrontmatter yaml text = .ok (fm, text)) : fm = none := by
  unfold extractFrontmatter at h
  split at h
  · cases h
    rfl
  · rename_i block body hmatch
    obtain ⟨before, hne, heq⟩ := frontmatterMatch_eq hmatch
    have hbody : body ≠ text := by
      intro hsame
      exact hne (List.self_eq_append_left.mp (hsame.trans heq))
    split at h
    · cases h
    · cases h
    · injection h with h
      exact absurd (Prod.mk.inj h).2 hbody
    · injection h with h
      exact absurd (Prod.mk.inj h).2 hbody
    · cases h
      rfl

end

end MultiForge.Session.Frontmatter
