/-
MultiForge.Lib.PosixPath — lexical paths.

`PosixPath` is `pathlib.PurePosixPath`: a root and the components below
it, none of them empty or a dot. A text is parsed to a path, and the text
of a path parses back to it (`parse_str`); `..` is a component like any
other.
-/
import Mathlib.Data.List.DropRight

namespace MultiForge

/-- A path component: `.` and empty components do not count. -/
def IsComponent (part : List Char) : Prop := part ≠ [] ∧ part ≠ ['.'] ∧ '/' ∉ part

instance (part : List Char) : Decidable (IsComponent part) := inferInstanceAs (Decidable (_ ∧ _))

/-- The root of a path; POSIX keeps two leading slashes apart from one. -/
inductive PathRoot where
  | relative
  | single
  | double
  deriving DecidableEq, Repr

def PathRoot.text : PathRoot → List Char
  | .relative => []
  | .single => ['/']
  | .double => ['/', '/']

structure PosixPath where
  root : PathRoot
  parts : List (List Char)
  proper : ∀ part ∈ parts, IsComponent part
  deriving DecidableEq

namespace PosixPath

/-! ## 1. Texts -/

/-- `splitroot`, without the rest. -/
def rootOf : List Char → PathRoot
  | '/' :: '/' :: '/' :: _ => .single
  | '/' :: '/' :: _ => .double
  | '/' :: _ => .single
  | _ => .relative

/-- `PurePosixPath(text)` -/
def parse (text : List Char) : PosixPath where
  root := rootOf text
  parts := (text.splitOn '/').filter fun part => decide (IsComponent part)
  proper := fun _ h => of_decide_eq_true (List.mem_filter.mp h).2

/-- `str(path)` -/
def str (path : PosixPath) : List Char :=
  if path.root = .relative ∧ path.parts = [] then ['.']
  else path.root.text ++ ['/'].intercalate path.parts

/-- Slashes before the components of a path add nothing. -/
theorem components_of_root (root : PathRoot) {parts : List (List Char)}
    (h : ∀ part ∈ parts, IsComponent part) :
    ((root.text ++ ['/'].intercalate parts).splitOn '/').filter (fun part => decide (IsComponent part))
      = parts := by
  have hslash : ∀ text : List Char, (('/' :: text).splitOn '/').filter
      (fun part => decide (IsComponent part))
        = (text.splitOn '/').filter (fun part => decide (IsComponent part)) := by
    intro text
    rw [List.splitOn_cons_eq_if_modifyHead, if_pos (by simp),
      List.filter_cons_of_neg (by simp [IsComponent])]
  have hparts : ((['/'].intercalate parts).splitOn '/').filter
      (fun part => decide (IsComponent part)) = parts := by
    cases parts with
    | nil => rfl
    | cons part rest =>
      rw [List.splitOn_intercalate '/' (fun l hl => (h l hl).2.2) (by simp)]
      exact List.filter_eq_self.mpr fun l hl => decide_eq_true (h l hl)
  cases root with
  | relative => exact hparts
  | single => exact (hslash _).trans hparts
  | double => exact ((hslash _).trans (hslash _)).trans hparts

/-- Components do not begin with a slash. -/
theorem head_intercalate {parts : List (List Char)} (h : ∀ part ∈ parts, IsComponent part) :
    (['/'].intercalate parts).head? ≠ some '/' := by
  cases parts with
  | nil => simp
  | cons part rest =>
    obtain ⟨hne, -, hslash⟩ := h part List.mem_cons_self
    cases part with
    | nil => exact absurd rfl hne
    | cons c cs =>
      intro hhead
      have hc : c = '/' := by
        cases rest with
        | nil => simpa using hhead
        | cons next rest => simpa [List.intercalate_cons_cons] using hhead
      exact hslash (hc ▸ List.mem_cons_self)

theorem rootOf_append (root : PathRoot) {text : List Char} (h : text.head? ≠ some '/') :
    rootOf (root.text ++ text) = root := by
  have hrest : ∀ c cs, text = c :: cs → c ≠ '/' := by
    rintro c cs rfl rfl
    exact h rfl
  cases root with
  | relative =>
    cases text with
    | nil => rfl
    | cons c cs =>
      have hc := hrest c cs rfl
      simp [PathRoot.text, rootOf, hc]
  | single =>
    cases text with
    | nil => rfl
    | cons c cs =>
      have hc := hrest c cs rfl
      simp [PathRoot.text, rootOf, hc]
  | double =>
    cases text with
    | nil => rfl
    | cons c cs =>
      have hc := hrest c cs rfl
      simp [PathRoot.text, rootOf, hc]

/-- **A path's text is a text of the path.** -/
theorem parse_str (path : PosixPath) : parse path.str = path := by
  obtain ⟨root, parts, proper⟩ := path
  unfold str
  split
  · rename_i hempty
    obtain ⟨hroot, hparts⟩ := hempty
    dsimp only at hroot hparts
    subst hroot
    subst hparts
    rfl
  · simp only [parse, PosixPath.mk.injEq]
    exact ⟨rootOf_append root (head_intercalate proper), components_of_root root proper⟩

theorem str_injective {path path' : PosixPath} (h : path.str = path'.str) : path = path' := by
  rw [← parse_str path, h, parse_str]

/-! ## 2. Operations -/

/-- `path.is_absolute()` -/
def isAbsolute (path : PosixPath) : Bool := path.root ≠ .relative

/-- `path.name` -/
def name (path : PosixPath) : List Char := path.parts.getLast?.getD []

/-- `path.parent` -/
def parent (path : PosixPath) : PosixPath where
  root := path.root
  parts := path.parts.dropLast
  proper := fun part h => path.proper part (List.dropLast_subset _ h)

/-- `path / part`, for one component. -/
def child (path : PosixPath) (part : List Char) (h : IsComponent part) : PosixPath where
  root := path.root
  parts := path.parts ++ [part]
  proper := fun other hother => by
    rcases List.mem_append.mp hother with hold | hnew
    · exact path.proper other hold
    · rw [List.mem_singleton.mp hnew]
      exact h

/-- `path / text` -/
def join (path : PosixPath) (text : List Char) : PosixPath :=
  let part := parse text
  if part.isAbsolute then part
  else
    { root := path.root
      parts := path.parts ++ part.parts
      proper := fun other hother => (List.mem_append.mp hother).elim (path.proper other)
        (part.proper other) }

/-- `path.stem` -/
def stem (path : PosixPath) : List Char :=
  let before := (path.name.rdropWhile (· ≠ '.')).dropLast
  if before ≠ [] ∧ path.name.getLast? ≠ some '.' then before else path.name

/-- `path.suffix` -/
def suffix (path : PosixPath) : List Char := path.name.drop path.stem.length

/-- `path.with_name(name)`, or `none` where it raises. -/
def withName (path : PosixPath) (name : List Char) : Option PosixPath :=
  if path.name = [] then none
  else if h : IsComponent name then some (path.parent.child name h)
  else none

/-- `path.relative_to(base).parts`, or `none` where it raises. -/
def relativeTo (path base : PosixPath) : Option (List (List Char)) :=
  if path.root = base.root ∧ base.parts <+: path.parts then
    some (path.parts.drop base.parts.length)
  else none

theorem relativeTo_eq_some_iff {path base : PosixPath} {rest : List (List Char)} :
    path.relativeTo base = some rest ↔ path.root = base.root ∧ path.parts = base.parts ++ rest := by
  unfold relativeTo
  constructor
  · intro h
    split at h
    · rename_i hbelow
      obtain ⟨hroot, tail, htail⟩ := hbelow
      rw [← htail, List.drop_left, Option.some.injEq] at h
      exact ⟨hroot, by rw [← htail, h]⟩
    · cases h
  · rintro ⟨hroot, hparts⟩
    rw [if_pos ⟨hroot, rest, hparts.symm⟩, hparts, List.drop_left]

@[simp] theorem parent_root (path : PosixPath) : path.parent.root = path.root := rfl

@[simp] theorem parent_parts (path : PosixPath) : path.parent.parts = path.parts.dropLast := rfl

@[simp] theorem child_name (path : PosixPath) {part : List Char} (h : IsComponent part) :
    (path.child part h).name = part := by
  simp [child, name]

@[simp] theorem child_parent (path : PosixPath) {part : List Char} (h : IsComponent part) :
    (path.child part h).parent = path := by
  obtain ⟨root, parts, proper⟩ := path
  simp [child, parent]

/-- A text without slashes is one component. -/
theorem join_component (path : PosixPath) {part : List Char} (h : IsComponent part) :
    path.join part = path.child part h := by
  obtain ⟨hne, hdot, hslash⟩ := h
  have hroot : rootOf part = .relative := by
    cases part with
    | nil => rfl
    | cons c cs =>
      have hc : c ≠ '/' := by
        intro hc
        exact hslash (hc ▸ List.mem_cons_self)
      unfold rootOf
      split <;> simp_all
  have hparts : (parse part).parts = [part] := by
    simp [parse, List.splitOn_eq_singleton hslash, IsComponent, hne, hdot, hslash]
  have hrelative : (parse part).isAbsolute = false := by
    simp [isAbsolute, parse, hroot]
  simp [join, hrelative, hparts, child]

/-- Another component in the place of the last one. -/
theorem withName_child (path : PosixPath) {part other : List Char} (h : IsComponent part)
    (hother : IsComponent other) :
    (path.child part h).withName other = some (path.child other hother) := by
  simp [withName, h.1, hother]

/-- The stem of a name that a suffix without dots is added to. -/
theorem stem_child (path : PosixPath) {base suffix : List Char} (hbase : base ≠ [])
    (hsuffix : suffix ≠ []) (hdots : '.' ∉ suffix) (h : IsComponent (base ++ '.' :: suffix)) :
    (path.child (base ++ '.' :: suffix) h).stem = base := by
  have hdrop : (base ++ '.' :: suffix).rdropWhile (· ≠ '.') = base ++ ['.'] := by
    have hsplit : base ++ '.' :: suffix = (base ++ ['.']) ++ suffix := by simp
    rw [hsplit, List.rdropWhile, List.reverse_append, List.dropWhile_append_of_pos]
    · simp
    · intro c hc
      have hmem : c ∈ suffix := List.mem_reverse.mp hc
      have hdot : c ≠ '.' := by
        intro hdot
        exact hdots (hdot ▸ hmem)
      simpa using hdot
  have hlast : (base ++ '.' :: suffix).getLast? ≠ some '.' := by
    intro hlast
    have hmem : '.' ∈ suffix := by
      rw [List.getLast?_append_cons, List.getLast?_cons, Option.some.injEq] at hlast
      rw [List.getLast?_eq_some_getLast hsuffix, Option.getD_some] at hlast
      exact hlast ▸ List.getLast_mem hsuffix
    exact hdots hmem
  simp only [stem, child_name, hdrop, List.dropLast_concat]
  rw [if_pos ⟨hbase, hlast⟩]

theorem ext_parts {path path' : PosixPath} (hroot : path.root = path'.root)
    (hparts : path.parts = path'.parts) : path = path' := by
  obtain ⟨root, parts, proper⟩ := path
  obtain ⟨root', parts', proper'⟩ := path'
  simp only at hroot hparts
  subst hroot
  subst hparts
  rfl

/-- Equal below one base, equal. -/
theorem eq_of_relativeTo {path path' base : PosixPath} {rest : List (List Char)}
    (h : path.relativeTo base = some rest) (h' : path'.relativeTo base = some rest) :
    path = path' := by
  obtain ⟨hroot, hparts⟩ := relativeTo_eq_some_iff.mp h
  obtain ⟨hroot', hparts'⟩ := relativeTo_eq_some_iff.mp h'
  exact ext_parts (hroot.trans hroot'.symm) (hparts.trans hparts'.symm)

theorem parent_child {path : PosixPath} {part : List Char} (h : IsComponent part)
    (hname : path.name = part) : path.parent.child part h = path := by
  have hlast : path.parts.getLast? = some part := by
    unfold name at hname
    cases hlast : path.parts.getLast? with
    | none => exact absurd (by rw [← hname, hlast]; rfl) h.1
    | some last => rw [← hname, hlast]; rfl
  refine ext_parts rfl ?_
  exact List.dropLast_append_getLast? part hlast

/-- The last component of a text that ends with a slash and a component. -/
theorem parse_name {part : List Char} (h : IsComponent part) (text : List Char) :
    (parse (text ++ '/' :: part)).name = part := by
  have hsplit : (text ++ '/' :: part).splitOn '/' = text.splitOn '/' ++ [part] := by
    rw [List.splitOn_append_cons_self, List.splitOn_eq_singleton h.2.2]
  simp [name, parse, hsplit, List.filter_append, h]

end PosixPath

end MultiForge
