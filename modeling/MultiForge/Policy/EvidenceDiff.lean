/-
MultiForge.Policy.EvidenceDiff — what the evidence of a turn shows.

The evidence storage keeps the contents of a snapshot's files as blobs, and
`compare` shows a changed file as the unified diff of its two texts. The
texts are cut by `str.splitlines`, but a diff is read over lines that
newlines end. So complete evidence is faithful where newlines end the
lines up to the last hunk of every diff, and it is not where a hunk shows
a line that another separator ended (`turn_evidence`).

A snapshot that `rebase_pending` builds differs from the current one at
the observed changes that are in no conflict (`rebased_get?`).
-/
import MultiForge.Lib.Except
import MultiForge.Lib.UnifiedDiff
import MultiForge.Policy.TurnEvidence

namespace MultiForge.Policy

open Json
open Difflib (diffText applyDiff newlineLines ShownWhole Stands getGroupedOpcodes OneLine)
open Lines (splitLines isLineBreak consHead)

/-! ## 1. Texts -/

/-- What reading a blob gives: its text, or what is raised. -/
abbrev Blobs := String → Except Failure (List Char)

/-- The text of one side of a change. -/
def itemText (blob : Blobs) : Option FileItem → Except Failure (List Char)
  | none => .ok []
  | some item =>
      -- an item without fields is false
      if item = ⟨none, none, none, none, none, none⟩ then .ok []
      else
        match item.digest with
        | some digest => if isHex 64 digest then blob digest else .error (.expected "ValueError")
        | none => .error (.expected "ValueError")

/-- `len(text.encode())` -/
def utf8Length (text : List Char) : Nat := (String.ofList text).utf8ByteSize

/-- The diff of two items, unless their texts are too large. -/
def diffOf (blob : Blobs) (path : String) (left right : Option FileItem) :
    Except Failure (Option String) := do
  let old ← itemText blob left
  let new ← itemText blob right
  if 256000 < utf8Length old + utf8Length new ∨ 8000 < old.count '\n' + new.count '\n' then
    return none
  return some (String.ofList (diffText path.toList (splitLines old) (splitLines new)))

/-- The storage that finds these manifests and blobs. -/
def Storage.ofBlobs (load : SnapshotRef → Except Failure Manifest) (blob : Blobs) : Storage :=
  ⟨load, diffOf blob⟩

/-! ## 2. Faithful evidence -/

variable {F : Type}

/-- A change is what became of its path, and its diff turns the text before
into the text after. -/
def FileChange.Applies (blob : Blobs) (c : FileChange) : Prop :=
  ∃ diff old new, c.diff = some diff ∧ itemText blob c.before = .ok old
    ∧ itemText blob c.after = .ok new
    ∧ applyDiff c.path.toList c.path.toList diff.toList old = some new

/-- The changes are those between two snapshots, one for each path. -/
structure Exact (old new : Manifest) (changes : List FileChange) : Prop where
  once : (changes.map FileChange.path).Nodup
  paths : ∀ path, path ∈ changes.map FileChange.path ↔ old.files.get? path ≠ new.files.get? path
  sides : ∀ c ∈ changes, c.before = old.files.get? c.path ∧ c.after = new.files.get? c.path

/-- Every request has an outcome in its turn, or was denied. -/
def Answered (actions : List (Action F)) : Prop :=
  ∀ a ∈ actions, a.phase = .request →
    (∃ b ∈ actions, b.is .outcome a.turnId a.id = true)
      ∨ ∃ b ∈ actions, b.is .denied a.turnId a.id = true

/-- The lines of a changed file's diff are those that newlines end. -/
def FileChange.Whole (blob : Blobs) (c : FileChange) : Prop :=
  ∀ old new, itemText blob c.before = .ok old → itemText blob c.after = .ok new →
    ShownWhole (splitLines old) (splitLines new)

instance (a b : List (List Char)) : Decidable (ShownWhole a b) := inferInstanceAs (Decidable (_ ∧ _))

instance (blob : Blobs) (c : FileChange) : Decidable (c.Whole blob) :=
  match hold : itemText blob c.before, hnew : itemText blob c.after with
  | .ok old, .ok new =>
      decidable_of_iff (ShownWhole (splitLines old) (splitLines new))
        ⟨fun h old' new' hold' hnew' => by
            obtain rfl : old = old' := Except.ok.inj (hold.symm.trans hold')
            obtain rfl : new = new' := Except.ok.inj (hnew.symm.trans hnew')
            exact h,
          fun h => h old new hold hnew⟩
  | .error _, _ => isTrue fun _ _ hold' _ => nomatch hold.symm.trans hold'
  | .ok _, .error _ => isTrue fun _ _ _ hnew' => nomatch hnew.symm.trans hnew'

instance (blob : Blobs) (c : FileChange) : Decidable (c.Applies blob) :=
  match hdiff : c.diff, hold : itemText blob c.before, hnew : itemText blob c.after with
  | some diff, .ok old, .ok new =>
      decidable_of_iff (applyDiff c.path.toList c.path.toList diff.toList old = some new)
        ⟨fun h => ⟨diff, old, new, hdiff, hold, hnew, h⟩, by
          rintro ⟨diff', old', new', hdiff', hold', hnew', h⟩
          obtain rfl : diff = diff' := Option.some.inj (hdiff.symm.trans hdiff')
          obtain rfl : old = old' := Except.ok.inj (hold.symm.trans hold')
          obtain rfl : new = new' := Except.ok.inj (hnew.symm.trans hnew')
          exact h⟩
  | none, _, _ => isFalse fun ⟨_, _, _, hdiff', _⟩ => nomatch hdiff.symm.trans hdiff'
  | some _, .error _, _ => isFalse fun ⟨_, _, _, _, hold', _⟩ => nomatch hold.symm.trans hold'
  | some _, .ok _, .error _ =>
      isFalse fun ⟨_, _, _, _, _, hnew', _⟩ => nomatch hnew.symm.trans hnew'

/-- Every line of a changed file's diff stands at its number. -/
def FileChange.Placed (blob : Blobs) (c : FileChange) : Prop :=
  ∀ old new, itemText blob c.before = .ok old → itemText blob c.after = .ok new →
    ∀ g ∈ getGroupedOpcodes 3 (splitLines old) (splitLines new),
      Stands (splitLines old) (splitLines new) (newlineLines old) (newlineLines new) g

/-! ## 3. The changes of two snapshots -/

theorem mem_sortedSet {xs : List String} {x : String} : x ∈ sortedSet xs ↔ x ∈ xs := by
  rw [sortedSet, List.mem_insertionSort, List.mem_dedup]

theorem sortedSet_nodup (xs : List String) : (sortedSet xs).Nodup :=
  (List.perm_insertionSort _ _).nodup_iff.mpr xs.nodup_dedup

theorem sortedSet_eq_nil {xs : List String} (h : sortedSet xs = []) : xs = [] :=
  List.eq_nil_iff_forall_not_mem.mpr fun x hx => by
    rw [← mem_sortedSet, h] at hx
    cases hx

/-- `sorted(set(old["files"]) | set(new["files"]))` -/
def allPaths (old new : Manifest) : List String :=
  sortedSet (old.files.entries.map Prod.fst ++ new.files.entries.map Prod.fst)

def differs (old new : Manifest) (path : String) : Bool :=
  old.files.get? path ≠ new.files.get? path

theorem mem_keys_of_get? {d : Dict String FileItem} {k : String} (h : d.get? k ≠ none) :
    k ∈ d.entries.map Prod.fst := by
  by_contra hk
  exact h (Dict.find_eq_none_iff.mpr hk)

theorem mem_allPaths {old new : Manifest} {path : String}
    (h : old.files.get? path ≠ new.files.get? path) : path ∈ allPaths old new := by
  rw [allPaths, mem_sortedSet, List.mem_append]
  by_cases hold : old.files.get? path = none
  · exact Or.inr (mem_keys_of_get? fun hnew => h (hold.trans hnew.symm))
  · exact Or.inl (mem_keys_of_get? hold)

/-- What is compared about one path. -/
def FileChange.sides (c : FileChange) : String × Option FileItem × Option FileItem :=
  (c.path, c.before, c.after)

theorem sides_markRename (changes : List FileChange) (c : FileChange) :
    (markRename changes c).sides = c.sides := by
  unfold markRename
  split
  · split <;> rfl
  · rfl

/-- A path that differs gives one change. -/
theorem compareFile_sides {st : Storage} {old new : Manifest} {path : String}
    {r : List FileChange × List String} (h : compareFile st old new path = .ok r) :
    r.1.map FileChange.sides = if differs old new path then
      [(path, old.files.get? path, new.files.get? path)] else [] := by
  unfold compareFile at h
  unfold differs
  dsimp only at h
  split at h
  · rename_i hsame
    cases h
    simp [hsame]
  · rename_i hne
    rw [if_pos (by simpa using hne)]
    split at h
    · rw [← Except.ok.inj h]
      rfl
    · split at h
      · cases h
      · rw [← Except.ok.inj h]
        rfl
      · rw [← Except.ok.inj h]
        rfl

/-- A path without an omission has its diff. -/
theorem compareFile_diff {st : Storage} {old new : Manifest} {path : String}
    {r : List FileChange × List String} (h : compareFile st old new path = .ok r)
    (hnone : r.2 = []) :
    ∀ c ∈ r.1, ∃ diff, c.diff = some diff ∧ st.diff c.path c.before c.after = .ok (some diff) := by
  unfold compareFile at h
  dsimp only at h
  split at h
  · rw [← Except.ok.inj h]
    exact fun c hc => absurd hc List.not_mem_nil
  · split at h
    · rw [← Except.ok.inj h] at hnone
      exact absurd hnone (List.cons_ne_nil _ _)
    · split at h
      · cases h
      · rw [← Except.ok.inj h] at hnone
        exact absurd hnone (List.cons_ne_nil _ _)
      · rename_i diff hdiff
        rw [← Except.ok.inj h]
        intro c hc
        rw [List.mem_singleton] at hc
        subst hc
        exact ⟨diff, rfl, hdiff⟩

theorem found_sides {st : Storage} {old new : Manifest} : ∀ {paths : List String}
    {found : List (List FileChange × List String)},
    List.Forall₂ (fun path r => compareFile st old new path = .ok r) paths found →
    ((found.map Prod.fst).flatten).map FileChange.sides
      = (paths.filter (differs old new)).map
        fun path => (path, old.files.get? path, new.files.get? path) := by
  intro paths found h
  induction h with
  | nil => rfl
  | cons hpath hrest ih =>
    rw [List.map_cons, List.flatten_cons, List.map_append, compareFile_sides hpath, ih,
      List.filter_cons]
    split <;> rfl

theorem found_diff {st : Storage} {old new : Manifest} : ∀ {paths : List String}
    {found : List (List FileChange × List String)},
    List.Forall₂ (fun path r => compareFile st old new path = .ok r) paths found →
    (found.map Prod.snd).flatten = [] →
    ∀ c ∈ (found.map Prod.fst).flatten,
      ∃ diff, c.diff = some diff ∧ st.diff c.path c.before c.after = .ok (some diff)
  | _, _, .nil, _ => fun c hc => absurd hc List.not_mem_nil
  | _ :: _, _, .cons hpath hrest, hnone => by
      rw [List.map_cons, List.flatten_cons, List.append_eq_nil_iff] at hnone
      intro c hc
      rw [List.map_cons, List.flatten_cons, List.mem_append] at hc
      rcases hc with hc | hc
      · exact compareFile_diff hpath hnone.1 c hc
      · exact found_diff hrest hnone.2 c hc

section Compare

variable [PyFloatText F] {st : Storage} {before after : SnapshotRef} {actions : List (Action F)}
  {e : Evidence F}

/-- The actions that are not denied. -/
def undenied (actions : List (Action F)) : List (Action F) :=
  actions.filter fun a => !actions.any (·.is .denied a.turnId a.id)

/-- What `compare` finds before it looks at the size. -/
structure Compared (st : Storage) (before after : SnapshotRef) (actions : List (Action F))
    (old new : Manifest) (found : List (List FileChange × List String)) : Prop where
  loadsOld : st.load before = .ok old
  loadsNew : st.load after = .ok new
  compared : List.Forall₂ (fun path r => compareFile st old new path = .ok r) (allPaths old new) found

/-- The changes with their renames. -/
def changesOf (found : List (List FileChange × List String)) : List FileChange :=
  ((found.map Prod.fst).flatten).map (markRename (found.map Prod.fst).flatten)

/-- The omissions of full evidence. -/
def omissionsOf (old new : Manifest) (found : List (List FileChange × List String))
    (actions : List (Action F)) : List String :=
  sortedSet (old.omissions ++ new.omissions
    ++ (if sameRepository old new then [] else ["repository_identity_or_index_changed"])
    ++ (found.map Prod.snd).flatten
    ++ (if actions.all fun a =>
        actions.any (·.is .request a.turnId a.id) == actions.any (·.is .outcome a.turnId a.id)
      then [] else ["missing_tool_event"])
    ++ (if !(changesOf found).isEmpty && actions.isEmpty
      then ["changes_without_observed_actions"] else [])
    ++ actions.flatMap (actionOmissions old new))

/-- Evidence is full, or only its counts are left. -/
theorem compare_cases (h : compare st before after actions = .ok e) :
    ∃ old new found, Compared st before after actions old new found ∧
      (e = ⟨.full before after (changesOf found) (undenied actions),
          omissionsOf old new found (undenied actions),
          (omissionsOf old new found (undenied actions)).isEmpty, none⟩
        ∨ e = ⟨.counts (some (before, after)) (changesOf found).length (undenied actions).length,
          ["review_prompt_byte_limit"], false, none⟩) := by
  unfold compare at h
  cases hold : st.load before with
  | error err => simp [hold, bind, Except.bind] at h
  | ok old =>
    cases hnew : st.load after with
    | error err => simp [hold, hnew, bind, Except.bind] at h
    | ok new =>
      simp only [hold, hnew, bind, Except.bind, pure, Except.pure] at h
      cases hfound : (sortedSet (old.files.entries.map Prod.fst
          ++ new.files.entries.map Prod.fst)).mapM (compareFile st old new) with
      | error err => simp [hfound] at h
      | ok found =>
        simp only [hfound] at h
        have hone : ∀ {p : Prop} [Decidable p] {x y : Evidence F},
            (if p then (.ok x : Except Failure (Evidence F)) else .ok y) = .ok e →
              e = y ∨ e = x := by
          intro p _ x y heq
          split at heq
          · exact .inr (Except.ok.inj heq).symm
          · exact .inl (Except.ok.inj heq).symm
        exact ⟨old, new, found, ⟨hold, hnew, mapM_ok hfound⟩, hone h⟩

omit [PyFloatText F]

theorem sides_changesOf (found : List (List FileChange × List String)) :
    (changesOf found).map FileChange.sides
      = ((found.map Prod.fst).flatten).map FileChange.sides := by
  rw [changesOf, List.map_map]
  exact List.map_congr_left fun c _ => sides_markRename _ c

theorem diff_markRename (changes : List FileChange) (c : FileChange) :
    (markRename changes c).diff = c.diff := by
  unfold markRename
  split
  · split <;> rfl
  · rfl

/-- The sides of the changes are those of the paths that differ. -/
theorem Compared.sides {old new : Manifest} {found : List (List FileChange × List String)}
    (h : Compared st before after actions old new found) :
    (changesOf found).map FileChange.sides = ((allPaths old new).filter (differs old new)).map
      fun path => (path, old.files.get? path, new.files.get? path) := by
  rw [sides_changesOf, found_sides h.compared]

theorem Compared.exact {old new : Manifest} {found : List (List FileChange × List String)}
    (h : Compared st before after actions old new found) : Exact old new (changesOf found) := by
  have hsides := h.sides
  have hpaths : (changesOf found).map FileChange.path
      = (allPaths old new).filter (differs old new) := by
    have hfirst := congrArg (List.map Prod.fst) hsides
    rw [List.map_map, List.map_map] at hfirst
    exact hfirst.trans (List.map_id _)
  refine ⟨?_, fun path => ?_, fun c hc => ?_⟩
  · rw [hpaths]
    exact (sortedSet_nodup _).filter _
  · rw [hpaths, List.mem_filter, differs, decide_eq_true_eq]
    exact ⟨fun hmem => hmem.2, fun hne => ⟨mem_allPaths hne, hne⟩⟩
  · have hmem : c.sides ∈ (changesOf found).map FileChange.sides := List.mem_map_of_mem hc
    rw [hsides, List.mem_map] at hmem
    obtain ⟨path, -, heq⟩ := hmem
    simp only [FileChange.sides, Prod.mk.injEq] at heq
    obtain ⟨rfl, hbefore, hafter⟩ := heq
    exact ⟨hbefore.symm, hafter.symm⟩

/-- Without omissions every change has its diff. -/
theorem Compared.diff {old new : Manifest} {found : List (List FileChange × List String)}
    (h : Compared st before after actions old new found)
    (hnone : (found.map Prod.snd).flatten = []) :
    ∀ c ∈ changesOf found, ∃ diff, c.diff = some diff
      ∧ st.diff c.path c.before c.after = .ok (some diff) := by
  intro c hc
  obtain ⟨d, hd, rfl⟩ := List.mem_map.mp hc
  obtain ⟨diff, hdiff, hst⟩ := found_diff h.compared hnone d hd
  have hsides := sides_markRename (found.map Prod.fst).flatten d
  simp only [FileChange.sides, Prod.mk.injEq] at hsides
  rw [diff_markRename, hsides.1, hsides.2.1, hsides.2.2]
  exact ⟨diff, hdiff, hst⟩

/-- What a complete review has no omission of. -/
theorem omissionsOf_empty {old new : Manifest} {found : List (List FileChange × List String)}
    (h : (omissionsOf old new found actions).isEmpty = true) :
    old.omissions = [] ∧ new.omissions = [] ∧ sameRepository old new = true
      ∧ (found.map Prod.snd).flatten = []
      ∧ ∀ a ∈ actions, actions.any (·.is .request a.turnId a.id)
        = actions.any (·.is .outcome a.turnId a.id) := by
  have hnil := sortedSet_eq_nil (List.isEmpty_iff.mp h)
  simp only [List.append_eq_nil_iff] at hnil
  obtain ⟨⟨⟨⟨⟨⟨hold, hnew⟩, hsame⟩, hfound⟩, hpaired⟩, -⟩, -⟩ := hnil
  refine ⟨hold, hnew, ?_, hfound, fun a ha => ?_⟩
  · by_contra hne
    rw [if_neg hne] at hsame
    exact absurd hsame (List.cons_ne_nil _ _)
  · by_contra hne
    rw [if_neg] at hpaired
    · exact absurd hpaired (List.cons_ne_nil _ _)
    · intro hall
      exact hne (beq_iff_eq.mp (List.all_eq_true.mp hall a ha))

end Compare

/-! ## 4. The diff of a change -/

theorem oneLine_splitLines (text : List Char) : ∀ line ∈ splitLines text, OneLine line := by
  fun_induction splitLines text with
  | case1 =>
    intro line hline
    cases hline
  | case2 cs ih =>
    intro line hline
    rcases List.mem_cons.mp hline with rfl | hline
    · exact ⟨['\r'], by decide, Or.inl rfl⟩
    · exact ih line hline
  | case3 c cs hcrlf hbreak ih =>
    intro line hline
    rcases List.mem_cons.mp hline with rfl | hline
    · by_cases hc : c = '\n'
      · exact ⟨[], List.not_mem_nil, Or.inl (by rw [hc]; rfl)⟩
      · exact ⟨[c], by simpa using Ne.symm hc, Or.inr rfl⟩
    · exact ih line hline
  | case4 c cs hcrlf hbreak ih =>
    have hc : c ≠ '\n' := by
      rintro rfl
      exact hbreak rfl
    cases hcut : splitLines cs with
    | nil =>
      intro line hline
      rw [consHead, List.mem_singleton] at hline
      exact ⟨[c], by simpa using Ne.symm hc, Or.inr hline⟩
    | cons l ls =>
      rw [hcut] at ih
      intro line hline
      rcases List.mem_cons.mp hline with rfl | hline
      · exact (ih l List.mem_cons_self).cons hc
      · exact ih line (List.mem_cons_of_mem _ hline)

/-- A diff is that of two texts. -/
theorem diffOf_some {blob : Blobs} {path diff : String} {left right : Option FileItem}
    (h : diffOf blob path left right = .ok (some diff)) :
    ∃ old new, itemText blob left = .ok old ∧ itemText blob right = .ok new
      ∧ diff.toList = diffText path.toList (splitLines old) (splitLines new) := by
  unfold diffOf at h
  cases hold : itemText blob left with
  | error e =>
    rw [hold] at h
    cases h
  | ok old =>
    cases hnew : itemText blob right with
    | error e =>
      rw [hold, hnew] at h
      cases h
    | ok new =>
      simp only [hold, hnew, bind, Except.bind, pure, Except.pure] at h
      split at h
      · cases h
      · refine ⟨old, new, rfl, rfl, ?_⟩
        rw [← Option.some.inj (Except.ok.inj h), String.toList_ofList]

section Applies

variable {blob : Blobs} {c : FileChange} {diff : String}

/-- The diff of a change turns one text into the other where newlines end
its lines. -/
theorem applies_of_whole (hdiff : c.diff = some diff)
    (h : diffOf blob c.path c.before c.after = .ok (some diff)) (hwhole : c.Whole blob) :
    c.Applies blob := by
  obtain ⟨old, new, hold, hnew, htext⟩ := diffOf_some h
  refine ⟨diff, old, new, hdiff, hold, hnew, ?_⟩
  have happly := Difflib.applyDiff_diffText c.path.toList (oneLine_splitLines old)
    (oneLine_splitLines new) (hwhole old new hold hnew)
  rwa [Lines.flatten_splitLines, Lines.flatten_splitLines, ← htext] at happly

theorem placed_of_applies (hdiff : c.diff = some diff)
    (h : diffOf blob c.path c.before c.after = .ok (some diff)) (happlies : c.Applies blob) :
    c.Placed blob := by
  obtain ⟨old, new, hold, hnew, htext⟩ := diffOf_some h
  obtain ⟨diff', old', new', hdiff', hold', hnew', happly⟩ := happlies
  obtain rfl : diff = diff' := Option.some.inj (hdiff.symm.trans hdiff')
  obtain rfl : old = old' := Except.ok.inj (hold.symm.trans hold')
  obtain rfl : new = new' := Except.ok.inj (hnew.symm.trans hnew')
  have hshows := Difflib.applyDiff_shows c.path.toList (oneLine_splitLines old)
    (oneLine_splitLines new)
  rw [Lines.flatten_splitLines, Lines.flatten_splitLines, ← htext] at hshows
  intro old' new' hold' hnew'
  obtain rfl : old = old' := Except.ok.inj (hold.symm.trans hold')
  obtain rfl : new = new' := Except.ok.inj (hnew.symm.trans hnew')
  exact hshows happly

end Applies

/-! ## 5. A snapshot that was rebased -/

section Rebase

variable {before finish start : Manifest}

/-- What became of a path that changed while it was observed, and not
afterwards. -/
def carried (before finish start : Manifest) (path : String) : Bool :=
  before.files.get? path ≠ finish.files.get? path
    && start.files.get? path = finish.files.get? path

theorem rebaseFile_get? (result : Dict String FileItem × List String) (path p : String) :
    (rebaseFile before finish start result path).1.get? p
      = if p = path ∧ carried before finish start path = true then before.files.get? path
        else result.1.get? p := by
  unfold rebaseFile carried
  by_cases hsame : before.files.get? path = finish.files.get? path
  · simp [hsame]
  · by_cases hconflict : start.files.get? path = finish.files.get? path
    · rw [if_neg hsame, if_neg (not_not_intro hconflict)]
      cases hbefore : before.files.get? path with
      | none =>
        rw [Dict.get?_erase]
        rw [hbefore] at hsame
        by_cases hp : p = path <;> simp [hp, hsame, hconflict]
      | some item =>
        rw [Dict.get?_set]
        rw [hbefore] at hsame
        by_cases hp : p = path <;> simp [hp, hsame, hconflict]
    · rw [if_neg hsame, if_pos hconflict]
      simp [hconflict]

/-- What the loop carries over. -/
theorem rebase_get? (p : String) : ∀ (paths : List String)
    (result : Dict String FileItem × List String),
    (paths.foldl (rebaseFile before finish start) result).1.get? p
      = if p ∈ paths ∧ carried before finish start p = true then before.files.get? p
        else result.1.get? p
  | [], result => by simp
  | path :: paths, result => by
      rw [List.foldl_cons, rebase_get? p paths, rebaseFile_get?]
      by_cases hp : p = path
      · subst hp
        by_cases hcarried : carried before finish start p = true <;> simp [hcarried]
      · simp [hp]

/-- The paths of the conflicts. -/
theorem rebase_conflicts (p : String) : ∀ (paths : List String)
    (result : Dict String FileItem × List String),
    p ∈ (paths.foldl (rebaseFile before finish start) result).2
      ↔ p ∈ result.2 ∨ p ∈ paths ∧ before.files.get? p ≠ finish.files.get? p
          ∧ start.files.get? p ≠ finish.files.get? p
  | [], result => by simp
  | path :: paths, result => by
      have hstep : p ∈ (rebaseFile before finish start result path).2
          ↔ p ∈ result.2 ∨ p = path ∧ before.files.get? p ≠ finish.files.get? p
            ∧ start.files.get? p ≠ finish.files.get? p := by
        unfold rebaseFile
        by_cases hsame : before.files.get? path = finish.files.get? path
        · rw [if_pos hsame]
          refine ⟨Or.inl, ?_⟩
          rintro (h | ⟨rfl, hne, -⟩)
          · exact h
          · exact absurd hsame hne
        · by_cases hconflict : start.files.get? path = finish.files.get? path
          · rw [if_neg hsame, if_neg (not_not_intro hconflict)]
            have hkeep : p ∈ result.2 ↔ p ∈ result.2 ∨ p = path
                ∧ before.files.get? p ≠ finish.files.get? p
                ∧ start.files.get? p ≠ finish.files.get? p := by
              refine ⟨Or.inl, ?_⟩
              rintro (h | ⟨rfl, -, hne⟩)
              · exact h
              · exact absurd hconflict hne
            cases before.files.get? path <;> exact hkeep
          · rw [if_neg hsame, if_pos hconflict, List.mem_append, List.mem_singleton]
            constructor
            · rintro (h | rfl)
              · exact Or.inl h
              · exact Or.inr ⟨rfl, hsame, hconflict⟩
            · rintro (h | ⟨rfl, -⟩)
              · exact Or.inl h
              · exact Or.inr rfl
      rw [List.foldl_cons, rebase_conflicts p paths, hstep, List.mem_cons]
      tauto

/-- The snapshot that `rebase_pending` builds. -/
def rebasedManifest (before finish start : Manifest) : Manifest :=
  { start with
    files := ((allPaths before finish).foldl (rebaseFile before finish start) (start.files, [])).1
    omissions := sortedSet (start.omissions ++ before.omissions ++ finish.omissions
      ++ (if sameRepository before finish then [] else ["repository_identity_or_index_changed"])) }

/-- It differs from the current snapshot where a change is carried. -/
theorem rebased_get? (path : String) :
    (rebasedManifest before finish start).files.get? path
      = if carried before finish start path = true then before.files.get? path
        else start.files.get? path := by
  rw [rebasedManifest, rebase_get?]
  by_cases hcarried : carried before finish start path = true
  · have hne : before.files.get? path ≠ finish.files.get? path := by
      rw [carried, Bool.and_eq_true, decide_eq_true_eq] at hcarried
      exact hcarried.1
    rw [if_pos ⟨mem_allPaths hne, hcarried⟩, if_pos hcarried]
  · rw [if_neg fun h => hcarried h.2, if_neg hcarried]

theorem rebased_differs (path : String) :
    (rebasedManifest before finish start).files.get? path ≠ start.files.get? path
      ↔ carried before finish start path = true := by
  rw [rebased_get?]
  by_cases hcarried : carried before finish start path = true
  · have hboth := hcarried
    rw [carried, Bool.and_eq_true, decide_eq_true_eq, decide_eq_true_eq] at hboth
    rw [if_pos hcarried, hboth.2]
    exact iff_of_true hboth.1 hcarried
  · rw [if_neg hcarried]
    exact iff_of_false (not_not_intro rfl) hcarried

end Rebase

section Write

variable [PyFloatText F] (sha256 : List Char → Hex 64)

def MAX_MANIFEST_BYTES : Nat := 4000000

/-- The bytes of a snapshot's file. -/
def Manifest.encoded (F : Type) [PyFloatText F] (m : Manifest) : List Char :=
  dumpChars .compact (sortKeys (m.toJson (F := F)))

/-- The storage after a snapshot was written under its digest. -/
def Storage.write (F : Type) [PyFloatText F] (st : Storage) (digest : Hex 64) (m : Manifest) :
    Storage :=
  { st with
    load := fun ref =>
      if ref.digest = digest then
        if MAX_MANIFEST_BYTES < (m.encoded F).length ∨ m.root ≠ ref.root then
          .error (.expected "ValueError")
        else .ok m
      else st.load ref }

/-- What `rebase_pending` returns, and what it wrote. -/
theorem rebasePending_cases {st : Storage} {baseline observed current : SnapshotRef} {r : Rebased}
    (h : rebasePending (F := F) sha256 st baseline observed current = .ok r) :
    ∃ before finish start, st.load baseline = .ok before ∧ st.load observed = .ok finish
      ∧ st.load current = .ok start
      ∧ r.reference.digest = sha256 ((rebasedManifest before finish start).encoded F)
      ∧ r.conflicts = ((allPaths before finish).foldl (rebaseFile before finish start)
          (start.files, [])).2 := by
  unfold rebasePending at h
  cases hbefore : st.load baseline with
  | error e => simp [hbefore, bind, Except.bind] at h
  | ok before =>
    cases hfinish : st.load observed with
    | error e => simp [hbefore, hfinish, bind, Except.bind] at h
    | ok finish =>
      cases hstart : st.load current with
      | error e => simp [hbefore, hfinish, hstart, bind, Except.bind] at h
      | ok start =>
        simp only [hbefore, hfinish, hstart, bind, Except.bind, pure, Except.pure,
          Except.ok.injEq] at h
        subst h
        exact ⟨before, finish, start, rfl, rfl, rfl, rfl, rfl⟩

/-- The changed paths are those that were observed and are in no conflict,
with the observed beginning as their side before. -/
structure Carried (before finish : Manifest) (conflicts : List String) (e : Evidence F) : Prop where
  shown : ∀ ref ref' changes actions, e.detail = .full ref ref' changes actions →
    (changes.map FileChange.path).Nodup
      ∧ (∀ path, path ∈ changes.map FileChange.path
        ↔ before.files.get? path ≠ finish.files.get? path ∧ path ∉ conflicts)
      ∧ ∀ c ∈ changes, c.before = before.files.get? c.path
  counted : ∀ ends count actions, e.detail = .counts ends count actions →
    ∃ paths : List String, paths.Nodup ∧ paths.length = count
      ∧ ∀ path, path ∈ paths ↔ before.files.get? path ≠ finish.files.get? path ∧ path ∉ conflicts

theorem carried_compare {st : Storage} {before finish start new : Manifest}
    {ref ref' : SnapshotRef} {actions : List (Action F)} {e : Evidence F}
    (h : compare st ref ref' actions = .ok e)
    (hbuilt : st.load ref = .ok (rebasedManifest before finish start))
    (hnew : st.load ref' = .ok new) (hsame : new.files.get? = start.files.get?) :
    Carried before finish ((allPaths before finish).foldl (rebaseFile before finish start)
      (start.files, [])).2 e := by
  obtain ⟨old, new', found, hcompared, he⟩ := compare_cases h
  obtain rfl := Except.ok.inj (hcompared.loadsOld.symm.trans hbuilt)
  obtain rfl := Except.ok.inj (hcompared.loadsNew.symm.trans hnew)
  obtain ⟨honce, hpaths, hsides⟩ := hcompared.exact
  have hiff : ∀ path, path ∈ (changesOf found).map FileChange.path
      ↔ before.files.get? path ≠ finish.files.get? path
        ∧ path ∉ ((allPaths before finish).foldl (rebaseFile before finish start)
          (start.files, [])).2 := by
    intro path
    rw [hpaths, hsame, rebased_differs, rebase_conflicts, carried, Bool.and_eq_true,
      decide_eq_true_eq, decide_eq_true_eq]
    constructor
    · rintro ⟨hne, hstart⟩
      exact ⟨hne, by simp [hstart]⟩
    · rintro ⟨hne, hno⟩
      refine ⟨hne, ?_⟩
      by_contra hstart
      exact hno (Or.inr ⟨mem_allPaths hne, hne, hstart⟩)
  have hbefore : ∀ c ∈ changesOf found, c.before = before.files.get? c.path := by
    intro c hc
    have hcarried := (hpaths c.path).mp (List.mem_map_of_mem hc)
    rw [hsame, rebased_differs] at hcarried
    rw [(hsides c hc).1, rebased_get?, if_pos hcarried]
  rcases he with rfl | rfl
  · refine ⟨?_, by rintro _ _ _ ⟨⟩⟩
    rintro _ _ _ _ ⟨⟩
    exact ⟨honce, hiff, hbefore⟩
  · refine ⟨by rintro _ _ _ _ ⟨⟩, ?_⟩
    rintro _ _ _ ⟨⟩
    exact ⟨_, honce, List.length_map _, hiff⟩

end Write

/-! ## 6. The evidence of a turn -/

/-- What complete evidence is to say about two snapshots. -/
structure Faithful (blob : Blobs) (old new : Manifest) (actions : List (Action F))
    (changes : List FileChange) : Prop where
  exact : Exact old new changes
  applies : ∀ c ∈ changes, c.Applies blob
  answered : Answered actions
  clean : old.omissions = [] ∧ new.omissions = [] ∧ sameRepository old new = true

section TurnEvidence

variable [PyFloatText F]

omit [PyFloatText F] in
theorem answered_of_paired {actions : List (Action F)}
    (h : ∀ a ∈ undenied actions, (undenied actions).any (·.is .request a.turnId a.id)
      = (undenied actions).any (·.is .outcome a.turnId a.id)) : Answered actions := by
  intro a ha hrequest
  by_cases hdenied : actions.any (·.is .denied a.turnId a.id) = true
  · obtain ⟨b, hb, his⟩ := List.any_eq_true.mp hdenied
    exact Or.inr ⟨b, hb, his⟩
  · have hmem : a ∈ undenied actions :=
      List.mem_filter.mpr ⟨ha, by simpa using hdenied⟩
    have hself : (undenied actions).any (·.is .request a.turnId a.id) = true :=
      List.any_eq_true.mpr ⟨a, hmem, by simp [Action.is, hrequest]⟩
    rw [h a hmem] at hself
    obtain ⟨b, hb, his⟩ := List.any_eq_true.mp hself
    exact Or.inl ⟨b, (List.mem_filter.mp hb).1, his⟩

/-- **The evidence of a turn.** Complete evidence is faithful where newlines
end the lines of its diffs, and only where every line a diff shows stands
at its number. Compared with the current snapshot, a rebased one shows the
observed changes that are in no conflict. -/
theorem turn_evidence (sha256 : List Char → Hex 64)
    (load : SnapshotRef → Except Failure Manifest) (blob : Blobs) :
    (∀ (before after : SnapshotRef) (actions : List (Action F)) (e : Evidence F),
      compare (.ofBlobs load blob) before after actions = .ok e → e.complete = true →
      ∃ old new, load before = .ok old ∧ load after = .ok new
        ∧ ((∀ c ∈ e.changes, c.Whole blob) → Faithful blob old new actions e.changes)
        ∧ (Faithful blob old new actions e.changes → ∀ c ∈ e.changes, c.Placed blob))
    ∧ ∀ (baseline observed current : SnapshotRef) (r : Rebased),
      rebasePending (F := F) sha256 (.ofBlobs load blob) baseline observed current = .ok r →
      ∃ before finish start, load baseline = .ok before ∧ load observed = .ok finish
        ∧ load current = .ok start
        ∧ r.reference.digest = sha256 ((rebasedManifest before finish start).encoded F)
        -- a digest names one snapshot
        ∧ ((current.digest = r.reference.digest → rebasedManifest before finish start = start) →
          ∀ (actions : List (Action F)) (e : Evidence F),
            compare ((Storage.ofBlobs load blob).write F r.reference.digest
              (rebasedManifest before finish start)) r.reference current actions = .ok e →
            Carried before finish r.conflicts e) := by
  refine ⟨fun before after actions e h hcomplete => ?_, fun baseline observed current r h => ?_⟩
  · obtain ⟨old, new, found, hcompared, rfl | rfl⟩ := compare_cases h
    · obtain ⟨hold, hnew, hsame, hfound, hpaired⟩ := omissionsOf_empty hcomplete
      refine ⟨old, new, hcompared.loadsOld, hcompared.loadsNew, fun hwhole => ?_,
        fun hfaithful c hc => ?_⟩
      · refine ⟨hcompared.exact, fun c hc => ?_, answered_of_paired hpaired, hold, hnew, hsame⟩
        obtain ⟨diff, hdiff, hst⟩ := hcompared.diff hfound c hc
        exact applies_of_whole hdiff hst (hwhole c hc)
      · obtain ⟨diff, hdiff, hst⟩ := hcompared.diff hfound c hc
        exact placed_of_applies hdiff hst (hfaithful.applies c hc)
    · cases hcomplete
  · obtain ⟨before, finish, start, hbefore, hfinish, hstart, hdigest, hconflicts⟩ :=
      rebasePending_cases sha256 h
    refine ⟨before, finish, start, hbefore, hfinish, hstart, hdigest, fun hname actions e he => ?_⟩
    rw [hconflicts]
    obtain ⟨old, new, found, hcompared, -⟩ := compare_cases he
    have hold := hcompared.loadsOld
    have hnew := hcompared.loadsNew
    simp only [Storage.write, if_true] at hold
    have hbuilt : ((Storage.ofBlobs load blob).write F r.reference.digest
        (rebasedManifest before finish start)).load r.reference
          = .ok (rebasedManifest before finish start) := by
      simp only [Storage.write, if_true]
      split at hold
      · cases hold
      · rename_i hfits
        rw [if_neg hfits]
    refine carried_compare he hbuilt hnew ?_
    simp only [Storage.write] at hnew
    split at hnew
    · rename_i hsame
      split at hnew
      · cases hnew
      · rw [← Except.ok.inj hnew, hname hsame]
    · rw [← Except.ok.inj (hnew.symm.trans hstart)]

end TurnEvidence

/-! ## 7. A form feed in a changed line -/

section FormFeed

def digestOf (c : Char) : String := String.ofList (List.replicate 64 c)

def refOf (c : Char) : SnapshotRef where
  digest := ⟨"0000000000000000000000000000000000000000000000000000000000000000", by decide +kernel⟩
  root := String.singleton c
  files := 1
  omissions := []

def noteItem (c : Char) : FileItem := ⟨some 420, some 8, some (digestOf c), none, none, none⟩

def noteManifest (c : Char) : Manifest where
  root := "/repo"
  gitDir := "/repo/.git"
  head := "0"
  indexDigest := "0"
  files := (Dict.empty : Dict String FileItem).set "notes.txt" (noteItem c)
  omissions := []

/-- The snapshots before and after the turn. -/
def noteLoad (ref : SnapshotRef) : Except Failure Manifest :=
  .ok (if ref.root = "a" then noteManifest 'a' else noteManifest 'b')

def noteBlob (old new : String) : Blobs := fun digest =>
  .ok (if digest = digestOf 'a' then old.toList else new.toList)

def noteTurn : NativeId := ⟨"01890000-0000-7000-8000-000000000001", by decide +kernel⟩

def noteAction (phase : Phase) : Action FloatText where
  id := "call_1"
  phase := phase
  turnId := noteTurn
  tool := "apply_patch"
  values := none
  evidenceSha256 := none
  coverageIssue := none
  paths := none

def noteEvidence (old new : String) : Except Failure (Evidence FloatText) :=
  compare (.ofBlobs noteLoad (noteBlob old new)) (refOf 'a') (refOf 'b')
    [noteAction .request, noteAction .outcome]

/-- A computation that succeeds with a value of a kind. -/
def okAnd {ε α : Type} (p : α → Bool) : Except ε α → Bool
  | .ok a => p a
  | .error _ => false

theorem okAnd_iff {ε α : Type} {p : α → Bool} {x : Except ε α} :
    okAnd p x = true ↔ ∃ a, x = .ok a ∧ p a = true := by
  cases x <;> simp [okAnd]

/-- A line of a hunk that a form feed ends is read as the last one. -/
theorem form_feed_misread : ∃ e, noteEvidence "one\x0ctwo\n" "one\x0c2\n" = .ok e
    ∧ e.complete = true ∧ ¬ ∀ c ∈ e.changes, c.Applies (noteBlob "one\x0ctwo\n" "one\x0c2\n") := by
  have hbad : okAnd (fun e => e.complete
      && decide (¬ ∀ c ∈ e.changes, c.Applies (noteBlob "one\x0ctwo\n" "one\x0c2\n")))
      (noteEvidence "one\x0ctwo\n" "one\x0c2\n") = true := by
    decide +kernel
  obtain ⟨e, he, hboth⟩ := okAnd_iff.mp hbad
  rw [Bool.and_eq_true, decide_eq_true_eq] at hboth
  exact ⟨e, he, hboth⟩

/-- A change of a line that a newline ends. -/
theorem newline_read : ∃ e, noteEvidence "one\ntwo\n" "one\n2\n" = .ok e
    ∧ Faithful (noteBlob "one\ntwo\n" "one\n2\n") (noteManifest 'a') (noteManifest 'b')
      [noteAction .request, noteAction .outcome] e.changes := by
  have hgood : okAnd (fun e => e.complete
      && decide (∀ c ∈ e.changes, c.Whole (noteBlob "one\ntwo\n" "one\n2\n")))
      (noteEvidence "one\ntwo\n" "one\n2\n") = true := by
    decide +kernel
  obtain ⟨e, he, hboth⟩ := okAnd_iff.mp hgood
  rw [Bool.and_eq_true, decide_eq_true_eq] at hboth
  obtain ⟨old, new, hold, hnew, hfaithful, -⟩ := (turn_evidence (fun _ => (refOf 'a').digest)
    noteLoad (noteBlob "one\ntwo\n" "one\n2\n")).1 _ _ _ e he hboth.1
  cases hold
  cases hnew
  exact ⟨e, he, hfaithful hboth.2⟩

end FormFeed

end MultiForge.Policy
