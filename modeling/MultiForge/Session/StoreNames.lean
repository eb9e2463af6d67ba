/-
MultiForge.Session.StoreNames — what is built from a session name.

The stores of sessions concatenate: a key of the index is a name, a bar
and a part of the hash of the Forge root, and the files of a session that
is resumed or forked stand below a directory with the name of its parent,
under the name of the child and a suffix. `StoresApart` is what the stores
rely on for one name. The pattern of `validate_name` keeps all of it but
one thing: its `$` also matches before a line feed at the end, and so one
name in two spellings is accepted (`validate_name_apart_iff`).

SHA-256 and the case folding of a file system are parameters. A folding
leaves the texts as they are that have neither capitals nor anything
beyond ASCII.
-/
import Mathlib.Data.List.Infix
import Mathlib.Data.Set.Function
import MultiForge.Lib.PosixPath
import MultiForge.Lib.Utf8
import MultiForge.Session.Events
import MultiForge.Session.World

namespace MultiForge.Session

/-! ## 1. Keys -/

section

variable (sha256Hex : List UInt8 → List Char)

/-- `hashlib.sha256(forge_root.encode()).hexdigest()[:_HASH_LEN]` -/
def rootHash (root : String) : List Char := (sha256Hex (Utf8.encode root.toList)).take 12

/-- `make_scoped_key` -/
def makeScopedKey (name root : String) : List Char :=
  name.toList ++ '|' :: rootHash sha256Hex root

end

/-- `session_name_from_key` -/
def sessionNameFromKey (key : List Char) : List Char := key.takeWhile (· ≠ '|')

/-! ## 2. The layout of `prev_sessions` -/

/-- `prev_sessions_root` -/
def prevSessionsRoot (root : PosixPath) : PosixPath :=
  (root.join ".forge".toList).join "prev_sessions".toList

/-- `parent_dir` -/
def parentDir (root : PosixPath) (parent : String) : PosixPath :=
  (prevSessionsRoot root).join parent.toList

/-- `generated_path` -/
def generatedPath (root : PosixPath) (parent : String) : PosixPath :=
  (parentDir root parent).join "generated.md".toList

/-- `children_dir` -/
def childrenDir (root : PosixPath) (parent : String) : PosixPath :=
  (parentDir root parent).join "children".toList

/-- `child_path` -/
def childPath (root : PosixPath) (parent child : String) : PosixPath :=
  (childrenDir root parent).join (child.toList ++ ".md".toList)

/-- `NOTES_SUFFIX` -/
def notesSuffix : List Char := ".notes.md".toList

/-- `child_notes_path` -/
def childNotesPath (root : PosixPath) (parent child : String) : PosixPath :=
  (childrenDir root parent).join (child.toList ++ notesSuffix)

/-- `snapshot_for_notes` -/
def snapshotForNotes (notes : PosixPath) : Option PosixPath :=
  notes.withName (notes.name.take (notes.name.length - notesSuffix.length) ++ ".md".toList)

/-- `notes_for_snapshot` -/
def notesForSnapshot (snapshot : PosixPath) : Option PosixPath :=
  snapshot.withName (snapshot.stem ++ notesSuffix)

/-! ## 3. What is relied on -/

/-- An ASCII character that is no capital letter. -/
def isLowerAscii (c : Char) : Bool := c.toNat < 0x80 && !c.isUpper

/-- The case folding of a file system, for one component. -/
structure CaseFolding where
  fold : List Char → List Char
  fold_lower : ∀ part, part.all isLowerAscii → fold part = part

/-- Two paths name one file. -/
def CaseFolding.Same (fs : CaseFolding) (p q : PosixPath) : Prop :=
  p.root = q.root ∧ p.parts.map fs.fold = q.parts.map fs.fold

/-- A file system that does not fold. -/
def CaseFolding.exact : CaseFolding where
  fold := id
  fold_lower := fun _ _ => rfl

/-- The files of `prev_sessions`. -/
inductive StoreFile where
  | generated (parent : String)
  | child (parent name : String)
  | notes (parent name : String)
  deriving DecidableEq, Repr

namespace StoreFile

def names : StoreFile → List String
  | .generated parent => [parent]
  | .child parent name => [parent, name]
  | .notes parent name => [parent, name]

def path (root : PosixPath) : StoreFile → PosixPath
  | .generated parent => generatedPath root parent
  | .child parent name => childPath root parent name
  | .notes parent name => childNotesPath root parent name

end StoreFile

/-- A name that `validate_name` does not refuse. -/
def AcceptedName (name : String) : Prop := validateName name = .ok ()

instance (name : String) : Decidable (AcceptedName name) :=
  match h : validateName name with
  | .ok () => .isTrue h
  | .error _ => .isFalse (by simp [AcceptedName, h])

def isNameChar (c : Char) : Bool := isLower c || isDecimal c || c == '-'

/-- Lowercase letters, digits, and single hyphens between them. -/
structure PlainName (name : List Char) : Prop where
  nonempty : name ≠ []
  chars : ∀ c ∈ name, isNameChar c
  head : name.head? ≠ some '-'
  last : name.getLast? ≠ some '-'
  single : ¬ ['-', '-'] <:+: name

/-- C0, DEL and C1 -/
def isControl (c : Char) : Bool := c.toNat < 0x20 || (0x7f ≤ c.toNat && c.toNat ≤ 0x9f)

/-- What the stores rely on for a name that is accepted. -/
structure StoresApart (sha256Hex : List UInt8 → List Char) (fs : CaseFolding) (name : String) :
    Prop where
  plain : PlainName name.toList
  component : IsComponent name.toList
  clean : ∀ c ∈ name.toList, ¬ isControl c ∧ c ≠ '.' ∧ c ≠ '|'
  nameBack : ∀ root, sessionNameFromKey (makeScopedKey sha256Hex name root) = name.toList
  /-- Keys differ, for roots on which the part of the hash is injective. -/
  keys : ∀ roots : Set String, Set.InjOn (rootHash sha256Hex) roots → ∀ root ∈ roots,
    ∀ other, AcceptedName other → ∀ root' ∈ roots,
      makeScopedKey sha256Hex name root = makeScopedKey sha256Hex other root' →
        name = other ∧ root = root'
  files : ∀ (root : PosixPath) (f g : StoreFile), name ∈ f.names →
    (∀ n ∈ f.names, AcceptedName n) → (∀ n ∈ g.names, AcceptedName n) →
      fs.Same (f.path root) (g.path root) → f = g
  snapshot : ∀ root parent, AcceptedName parent →
    snapshotForNotes (childNotesPath root parent name) = some (childPath root parent name)
  notes : ∀ root parent, AcceptedName parent →
    notesForSnapshot (childPath root parent name) = some (childNotesPath root parent name)

/-! ## 4. Accepted names -/

theorem PlainName.component {name : List Char} (h : PlainName name) : IsComponent name := by
  refine ⟨h.nonempty, ?_, ?_⟩
  · intro hdot
    have hchar := h.chars '.' (by simp [hdot])
    exact absurd hchar (by decide)
  · intro hslash
    exact absurd (h.chars '/' hslash) (by decide)

/-- The letters and digits of the pattern. -/
theorem isNameChar_range {c : Char} (h : isNameChar c) :
    c = '-' ∨ 0x30 ≤ c.toNat ∧ c.toNat ≤ 0x39 ∨ 0x61 ≤ c.toNat ∧ c.toNat ≤ 0x7a := by
  simp only [isNameChar, isLower, isDecimal, Bool.or_eq_true, Bool.and_eq_true, decide_eq_true_eq,
    beq_iff_eq] at h
  obtain (⟨hlow, hhigh⟩ | ⟨hlow, hhigh⟩) | hhyphen := h
  · right; right
    exact ⟨hlow, hhigh⟩
  · right; left
    exact ⟨hlow, hhigh⟩
  · left
    exact hhyphen

theorem isNameChar_clean {c : Char} (h : isNameChar c) : ¬ isControl c ∧ c ≠ '.' ∧ c ≠ '|' := by
  refine ⟨?_, ?_, ?_⟩
  · obtain rfl | hrange := isNameChar_range h
    · decide
    · simp only [isControl, Bool.or_eq_true, Bool.and_eq_true, decide_eq_true_eq]
      omega
  · intro hdot
    rw [hdot] at h
    exact absurd h (by decide)
  · intro hbar
    rw [hbar] at h
    exact absurd h (by decide)

/-- What the pattern admits is plain, but for two hyphens in a row. -/
theorem plain_of_namePattern {name : List Char} (h : namePattern name)
    (hsingle : ¬ ['-', '-'] <:+: name) : PlainName name := by
  cases name with
  | nil => simp [namePattern] at h
  | cons c rest =>
    simp only [namePattern, Bool.and_eq_true, List.all_eq_true] at h
    obtain ⟨⟨hfirst, hrest⟩, hlast⟩ := h
    have hplain : ∀ d : Char, (isLower d || isDecimal d) = true → d ≠ '-' := by
      intro d hd hhyphen
      rw [hhyphen] at hd
      exact absurd hd (by decide)
    refine ⟨by simp, ?_, ?_, ?_, hsingle⟩
    · intro d hd
      obtain rfl | hd := List.mem_cons.mp hd
      · simp [isNameChar, hfirst]
      · exact hrest d hd
    · intro hhead
      exact hplain c hfirst (by simpa using hhead)
    · intro hend
      cases hrestlast : rest.getLast? with
      | none =>
        rw [List.getLast?_eq_none_iff.mp hrestlast] at hend
        exact hplain c hfirst (by simpa using hend)
      | some d =>
        have hd : d = '-' := by simpa [List.getLast?_cons, hrestlast] using hend
        rw [hrestlast] at hlast
        exact hplain d hlast hd

/-- **What is accepted**: a plain name, or one with a line feed after it. -/
theorem AcceptedName.cases {name : String} (h : AcceptedName name) :
    PlainName name.toList ∨ ∃ base, PlainName base ∧ name.toList = base ++ ['\n'] := by
  simp only [AcceptedName, validateName] at h
  split at h
  · cases h
  split at h
  · cases h
  split at h
  · cases h
  rename_i hpattern
  split at h
  · cases h
  rename_i hhyphens
  have hsingle : ¬ ['-', '-'] <:+: name.toList := by
    intro hinside
    obtain ⟨before, after, heq⟩ := hinside
    refine hhyphens (List.any_eq_true.mpr ⟨['-', '-'] ++ after, ?_, by simp⟩)
    exact (List.mem_tails _ _).mpr ⟨before, by simpa using heq⟩
  simp only [Bool.not_eq_true', Bool.not_eq_false, Bool.or_eq_true, Bool.and_eq_true,
    beq_iff_eq] at hpattern
  obtain hname | ⟨hlast, hbase⟩ := hpattern
  · exact .inl (plain_of_namePattern hname hsingle)
  · right
    refine ⟨name.toList.dropLast, plain_of_namePattern hbase ?_, ?_⟩
    · intro hinside
      exact hsingle (hinside.trans (List.dropLast_prefix _).isInfix)
    · exact (List.dropLast_append_getLast? '\n' hlast).symm

/-- The characters of an accepted name. -/
theorem AcceptedName.chars {name : String} (h : AcceptedName name) :
    ∀ c ∈ name.toList, isNameChar c ∨ c = '\n' := by
  intro c hc
  obtain hplain | ⟨base, hplain, hname⟩ := h.cases
  · exact .inl (hplain.chars c hc)
  · rw [hname, List.mem_append, List.mem_singleton] at hc
    obtain hc | hc := hc
    · exact .inl (hplain.chars c hc)
    · exact .inr hc

theorem AcceptedName.not_mem {name : String} (h : AcceptedName name) {c : Char}
    (hc : isNameChar c = false) (hfeed : c ≠ '\n') : c ∉ name.toList := by
  intro hmem
  obtain hchar | hchar := h.chars c hmem
  · rw [hc] at hchar
    cases hchar
  · exact hfeed hchar

theorem AcceptedName.nonempty {name : String} (h : AcceptedName name) : name.toList ≠ [] := by
  obtain hplain | ⟨base, -, hname⟩ := h.cases
  · exact hplain.nonempty
  · simp [hname]

/-- A name with a suffix is one component. -/
theorem AcceptedName.component {name : String} (h : AcceptedName name) (suffix : List Char)
    (hsuffix : '/' ∉ suffix) : IsComponent (name.toList ++ suffix) := by
  refine ⟨?_, ?_, ?_⟩
  · simp [h.nonempty]
  · intro hdot
    have hmem : ∀ c ∈ name.toList, c = '.' := by
      intro c hc
      have : c ∈ name.toList ++ suffix := List.mem_append_left suffix hc
      rw [hdot] at this
      exact List.mem_singleton.mp this
    obtain ⟨c, hc⟩ := List.exists_mem_of_ne_nil _ h.nonempty
    exact h.not_mem (c := '.') (by decide) (by decide) (hmem c hc ▸ hc)
  · rw [List.mem_append, not_or]
    exact ⟨h.not_mem (by decide) (by decide), hsuffix⟩

/-! ## 5. Keys -/

theorem sessionNameFromKey_scoped {name : String} (h : AcceptedName name)
    (sha256Hex : List UInt8 → List Char) (root : String) :
    sessionNameFromKey (makeScopedKey sha256Hex name root) = name.toList := by
  have hbar : '|' ∉ name.toList := h.not_mem (by decide) (by decide)
  rw [sessionNameFromKey, makeScopedKey, List.takeWhile_append_of_pos]
  · simp
  · intro c hc
    have hne : c ≠ '|' := by
      intro hcbar
      exact hbar (hcbar ▸ hc)
    simpa using hne

/-- The text of a key has both of its parts. -/
theorem makeScopedKey_inj {name name' : String} (h : AcceptedName name) (h' : AcceptedName name')
    {sha256Hex : List UInt8 → List Char} {root root' : String} :
    makeScopedKey sha256Hex name root = makeScopedKey sha256Hex name' root' ↔
      name = name' ∧ rootHash sha256Hex root = rootHash sha256Hex root' := by
  constructor
  · intro hkey
    have hname : name.toList = name'.toList := by
      rw [← sessionNameFromKey_scoped h sha256Hex root, hkey, sessionNameFromKey_scoped h']
    refine ⟨String.toList_inj.mp hname, ?_⟩
    rw [makeScopedKey, makeScopedKey, hname] at hkey
    exact List.cons_inj_right _ |>.mp (List.append_cancel_left hkey)
  · rintro ⟨rfl, hroot⟩
    rw [makeScopedKey, makeScopedKey, hroot]

/-- The host of the session stores, with the texts of the code. -/
def textHost (sha256Hex : List UInt8 → List Char) (under : String → String → Bool) : Host where
  digest root := .ofList (rootHash sha256Hex root)
  under := under
  validName name := decide (AcceptedName name)

/-- The keys of the session stores are the texts of `make_scoped_key`. -/
theorem scopedKey_text (sha256Hex : List UInt8 → List Char) (under : String → String → Bool)
    {loc loc' : Loc} (h : (textHost sha256Hex under).validName loc.name)
    (h' : (textHost sha256Hex under).validName loc'.name) :
    (textHost sha256Hex under).scopedKey loc = (textHost sha256Hex under).scopedKey loc' ↔
      makeScopedKey sha256Hex loc.name loc.root = makeScopedKey sha256Hex loc'.name loc'.root := by
  have hname : AcceptedName loc.name := of_decide_eq_true h
  have hname' : AcceptedName loc'.name := of_decide_eq_true h'
  rw [makeScopedKey_inj hname hname']
  simp [Host.scopedKey, textHost, String.ofList_inj]

/-! ## 6. Files -/

/-- The components of a file below the Forge root. -/
def StoreFile.components : StoreFile → List (List Char)
  | .generated parent => [parent.toList, "generated.md".toList]
  | .child parent name => [parent.toList, "children".toList, name.toList ++ ".md".toList]
  | .notes parent name => [parent.toList, "children".toList, name.toList ++ notesSuffix]

theorem isComponent_literals : IsComponent ".forge".toList ∧ IsComponent "prev_sessions".toList ∧
    IsComponent "children".toList ∧ IsComponent "generated.md".toList := by decide

theorem childrenDir_parts (root : PosixPath) {parent : String} (h : AcceptedName parent) :
    (childrenDir root parent).root = root.root ∧
      (childrenDir root parent).parts = root.parts
        ++ [".forge".toList, "prev_sessions".toList, parent.toList, "children".toList] := by
  have hparent : IsComponent parent.toList := by simpa using h.component [] (by simp)
  obtain ⟨hforge, hprev, hchildren, -⟩ := isComponent_literals
  simp only [childrenDir, parentDir, prevSessionsRoot]
  rw [PosixPath.join_component root hforge, PosixPath.join_component _ hprev,
    PosixPath.join_component _ hparent, PosixPath.join_component _ hchildren]
  simp [PosixPath.child]

theorem StoreFile.path_parts (root : PosixPath) {f : StoreFile}
    (h : ∀ n ∈ f.names, AcceptedName n) :
    (f.path root).root = root.root ∧ (f.path root).parts
      = root.parts ++ [".forge".toList, "prev_sessions".toList] ++ f.components := by
  cases f with
  | generated parent =>
    have hparent : IsComponent parent.toList := by
      simpa using (h parent (by simp [names])).component [] (by simp)
    obtain ⟨hforge, hprev, -, hgenerated⟩ := isComponent_literals
    simp only [path, generatedPath, parentDir, prevSessionsRoot]
    rw [PosixPath.join_component root hforge, PosixPath.join_component _ hprev,
      PosixPath.join_component _ hparent, PosixPath.join_component _ hgenerated]
    simp [PosixPath.child, components]
  | child parent name =>
    have hname := (h name (by simp [names])).component ".md".toList (by decide)
    have hdir := childrenDir_parts root (h parent (by simp [names]))
    simp only [path, childPath]
    rw [PosixPath.join_component _ hname]
    simp [PosixPath.child, components, hdir]
  | notes parent name =>
    have hname := (h name (by simp [names])).component notesSuffix (by decide)
    have hdir := childrenDir_parts root (h parent (by simp [names]))
    simp only [path, childNotesPath]
    rw [PosixPath.join_component _ hname]
    simp [PosixPath.child, components, hdir]

theorem AcceptedName.lower {name : String} (h : AcceptedName name) :
    name.toList.all isLowerAscii := by
  rw [List.all_eq_true]
  intro c hc
  obtain hchar | rfl := h.chars c hc
  · obtain rfl | hrange := isNameChar_range hchar
    · rfl
    · have hval : c.val.toNat = c.toNat := rfl
      have hfirst : 'A'.val.toNat = 0x41 := rfl
      have hlast : 'Z'.val.toNat = 0x5a := rfl
      have hupper : c.isUpper = decide ('A'.val ≤ c.val ∧ c.val ≤ 'Z'.val) := rfl
      simp only [isLowerAscii, hupper, Bool.and_eq_true, Bool.not_eq_true', decide_eq_true_eq,
        decide_eq_false_iff_not, UInt32.le_iff_toNat_le]
      omega
  · rfl

/-- No component of a file has a capital letter. -/
theorem StoreFile.components_lower {f : StoreFile} (h : ∀ n ∈ f.names, AcceptedName n) :
    ∀ part ∈ f.components, part.all isLowerAscii := by
  have hmd : ".md".toList.all isLowerAscii := rfl
  have hnotes : notesSuffix.all isLowerAscii := rfl
  intro part hpart
  cases f with
  | generated parent =>
    have hparent := (h parent (by simp [names])).lower
    simp only [components, List.mem_cons, List.not_mem_nil, or_false] at hpart
    obtain rfl | rfl := hpart
    · exact hparent
    · rfl
  | child parent name =>
    have hparent := (h parent (by simp [names])).lower
    have hname := (h name (by simp [names])).lower
    simp only [components, List.mem_cons, List.not_mem_nil, or_false] at hpart
    obtain rfl | rfl | rfl := hpart
    · exact hparent
    · rfl
    · rw [List.all_append, hname, hmd]
      rfl
  | notes parent name =>
    have hparent := (h parent (by simp [names])).lower
    have hname := (h name (by simp [names])).lower
    simp only [components, List.mem_cons, List.not_mem_nil, or_false] at hpart
    obtain rfl | rfl | rfl := hpart
    · exact hparent
    · rfl
    · rw [List.all_append, hname, hnotes]
      rfl

/-- The suffixes keep a snapshot and an overlay apart: a name has no dot. -/
theorem snapshot_ne_notes {name : String} (h : AcceptedName name) (other : String) :
    name.toList ++ ".md".toList ≠ other.toList ++ notesSuffix := by
  intro heq
  have hsuffix : notesSuffix = ".notes".toList ++ ".md".toList := by decide
  rw [hsuffix, ← List.append_assoc] at heq
  have hname : name.toList = other.toList ++ ".notes".toList := List.append_cancel_right heq
  refine h.not_mem (c := '.') (by decide) (by decide) ?_
  rw [hname]
  exact List.mem_append_right _ (by decide)

theorem StoreFile.components_inj {f g : StoreFile} (hf : ∀ n ∈ f.names, AcceptedName n)
    (hg : ∀ n ∈ g.names, AcceptedName n) (h : f.components = g.components) : f = g := by
  cases f with
  | generated parent =>
    cases g with
    | generated parent' =>
      simp only [components, List.cons.injEq, and_true] at h
      rw [String.toList_inj.mp h]
    | child parent' name' => simp [components] at h
    | notes parent' name' => simp [components] at h
  | child parent name =>
    have hname := hf name (by simp [names])
    cases g with
    | generated parent' => simp [components] at h
    | child parent' name' =>
      simp only [components, List.cons.injEq, List.append_cancel_right_eq, and_true, true_and] at h
      rw [String.toList_inj.mp h.1, String.toList_inj.mp h.2]
    | notes parent' name' =>
      simp only [components, List.cons.injEq, and_true, true_and] at h
      exact absurd h.2 (snapshot_ne_notes hname name')
  | notes parent name =>
    cases g with
    | generated parent' => simp [components] at h
    | child parent' name' =>
      have hname := hg name' (by simp [names])
      simp only [components, List.cons.injEq, and_true, true_and] at h
      exact absurd h.2.symm (snapshot_ne_notes hname name)
    | notes parent' name' =>
      simp only [components, List.cons.injEq, List.append_cancel_right_eq, and_true, true_and] at h
      rw [String.toList_inj.mp h.1, String.toList_inj.mp h.2]

/-- **The files of accepted names are different**, also where the file
system folds cases. -/
theorem StoreFile.path_inj (fs : CaseFolding) (root : PosixPath) {f g : StoreFile}
    (hf : ∀ n ∈ f.names, AcceptedName n) (hg : ∀ n ∈ g.names, AcceptedName n)
    (h : fs.Same (f.path root) (g.path root)) : f = g := by
  have hfold : ∀ file : StoreFile, (∀ n ∈ file.names, AcceptedName n) →
      file.components.map fs.fold = file.components := by
    intro file hfile
    rw [List.map_congr_left (g := id), List.map_id]
    intro part hpart
    exact fs.fold_lower part (components_lower hfile part hpart)
  obtain ⟨-, hparts⟩ := h
  have hpath : ∀ file : StoreFile, (∀ n ∈ file.names, AcceptedName n) →
      (file.path root).parts.map fs.fold
        = (root.parts ++ [".forge".toList, "prev_sessions".toList]).map fs.fold
          ++ file.components := by
    intro file hfile
    rw [(path_parts root hfile).2, List.map_append, hfold file hfile]
  rw [hpath f hf, hpath g hg] at hparts
  exact components_inj hf hg (List.append_cancel_left hparts)

theorem snapshotForNotes_child (root : PosixPath) {parent name : String}
    (h : AcceptedName name) :
    snapshotForNotes (childNotesPath root parent name) = some (childPath root parent name) := by
  have hnotes := h.component notesSuffix (by decide)
  have hmd := h.component ".md".toList (by decide)
  rw [childNotesPath, childPath, PosixPath.join_component _ hnotes,
    PosixPath.join_component _ hmd, snapshotForNotes, PosixPath.child_name, List.length_append,
    Nat.add_sub_cancel, List.take_left]
  exact PosixPath.withName_child _ hnotes hmd

theorem notesForSnapshot_child (root : PosixPath) {parent name : String}
    (h : AcceptedName name) :
    notesForSnapshot (childPath root parent name) = some (childNotesPath root parent name) := by
  have hnotes := h.component notesSuffix (by decide)
  have hmd := h.component ".md".toList (by decide)
  have hsuffix : "md".toList ≠ [] ∧ '.' ∉ "md".toList := by decide
  have hstem : ((childrenDir root parent).child _ hmd).stem = name.toList :=
    PosixPath.stem_child _ h.nonempty hsuffix.1 hsuffix.2 hmd
  rw [childNotesPath, childPath, PosixPath.join_component _ hnotes,
    PosixPath.join_component _ hmd, notesForSnapshot, hstem]
  exact PosixPath.withName_child _ hmd hnotes

/-! ## 7. When the stores are kept apart -/

/-- For every name that is accepted, the stores are kept apart as they
rely on exactly when it does not end with a line feed. -/
theorem validate_name_apart_iff (sha256Hex : List UInt8 → List Char) (fs : CaseFolding)
    {name : String} (h : validateName name = .ok ()) :
    StoresApart sha256Hex fs name ↔ name.toList.getLast? ≠ some '\n' := by
  have haccepted : AcceptedName name := h
  constructor
  · intro hapart hlast
    have hfeed := hapart.plain.chars '\n' (List.mem_of_getLast? hlast)
    exact absurd hfeed (by decide)
  · intro hlast
    have hplain : PlainName name.toList := by
      obtain hplain | ⟨base, -, hname⟩ := haccepted.cases
      · exact hplain
      · exact absurd (by simp [hname]) hlast
    constructor
    · exact hplain
    · exact hplain.component
    · intro c hc
      exact isNameChar_clean (hplain.chars c hc)
    · intro root
      exact sessionNameFromKey_scoped haccepted sha256Hex root
    · intro roots hinj root hroot other hother root' hroot' hkey
      obtain ⟨hname, hhash⟩ := (makeScopedKey_inj haccepted hother).mp hkey
      exact ⟨hname, hinj hroot hroot' hhash⟩
    · intro root f g _ hf hg hsame
      exact StoreFile.path_inj fs root hf hg hsame
    · intro root parent _
      exact snapshotForNotes_child root haccepted
    · intro root parent _
      exact notesForSnapshot_child root haccepted

theorem validate_name_apart_planner :
    StoresApart (fun bytes => bytes.map fun b => Char.ofNat b.toNat) .exact "planner" ↔
      "planner".toList.getLast? ≠ some '\n' :=
  validate_name_apart_iff _ _ (by decide)

/-- `a1` with a line feed after it is accepted. -/
theorem name_with_line_feed :
    validateName "a1\n" = .ok () ∧
      ¬ StoresApart (fun bytes => bytes.map fun b => Char.ofNat b.toNat) .exact "a1\n" := by
  refine ⟨by decide, ?_⟩
  intro h
  exact absurd (h.plain.chars '\n' (by decide)) (by decide)

end MultiForge.Session
