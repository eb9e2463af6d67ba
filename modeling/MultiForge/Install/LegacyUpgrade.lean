/-
MultiForge.Install.LegacyUpgrade — installation rows of earlier releases.

Rows of versions 1 and 2 name no owners. The upgrade infers them: from the
enabled modules, from the packages of a version 2 row, and from the paths
and keys of files and settings entries. Of a version 1 row it builds the
skill packages below the Claude root as well; a package's directory is
that of the first `SKILL.md` in the order of the file rows. The row is
valid and nothing is lost exactly when that file is each skill's own
document (`legacy_upgrade_iff`).

`get_claude_home` reads the environment and is a parameter.
-/
import MultiForge.Install.Tracking
import MultiForge.Lib.Dict

namespace MultiForge.Install

/-! ## 1. Legacy rows -/

inductive InstallScope where
  | user
  | project
  | «local»
  deriving DecidableEq, Repr

namespace InstallScope

def value : InstallScope → String
  | user => "user"
  | project => "project"
  | «local» => "local"

/-- `InstallScope(value)` -/
def ofValue? (value : String) : Option InstallScope :=
  [user, project, «local»].find? (·.value = value)

end InstallScope

structure LegacyFile where
  targetPath : String
  sourcePath : String
  checksum : String
  mode : String
  installedAt : String
  deriving DecidableEq, Repr

structure LegacySettingsEntry (V : Type) where
  keyPath : String
  value : V
  mergeType : String
  stableId : String
  deriving DecidableEq, Repr

/-- What the rows of both versions have in common. -/
structure LegacyInstallation (V : Type) where
  scope : String
  mode : String
  profile : String
  projectPath : Option String
  modulesEnabled : List String
  files : List LegacyFile
  settingsEntries : List (LegacySettingsEntry V)
  settingsBackupPath : Option String
  codexConfigPath : Option String
  codexCommands : List String
  installedAt : String
  updatedAt : String
  deriving DecidableEq, Repr

/-- The version of a manifest; version 2 rows have packages. -/
inductive LegacyVersion where
  | v1
  | v2 (skillPackages : List InstalledSkillPackage)
  deriving DecidableEq, Repr

/-- `raw_packages` -/
def LegacyVersion.packages : LegacyVersion → List InstalledSkillPackage
  | v1 => []
  | v2 skillPackages => skillPackages

def legacyModuleValues : List String :=
  ["commands", "agents", "skills", "hooks", "status-line", "permissions", "codex-hooks"]

inductive LegacyError where
  | unknownModules (names : List String)
  | sharedSkillPath (filePath : String)
  deriving DecidableEq, Repr

/-! ## 2. Paths and keys -/

/-- `parse_installation_key` -/
def parseInstallationKey (key : String) : String × Option String :=
  if key = "user" then (InstallScope.user.value, none)
  else if ':' ∈ key.toList then
    (String.ofList (key.toList.takeWhile (· ≠ ':')),
      some (String.ofList ((key.toList.dropWhile (· ≠ ':')).drop 1)))
  else (key, none)

/-- `_legacy_scope_and_root` -/
def legacyScopeAndRoot (installationKey scopeValue : String) (projectPath : Option String) :
    Option (InstallScope × Option PosixPath) :=
  let (keyScope, keyProjectPath) := parseInstallationKey installationKey
  if keyScope ≠ scopeValue then none
  else
    match InstallScope.ofValue? scopeValue with
    | none => none
    | some .user => some (.user, none)
    | some scope =>
        match (projectPath.filter (· ≠ "")).or keyProjectPath with
        | none => some (scope, none)
        | some raw => some (scope, if (pathOf raw).isAbsolute then some (pathOf raw) else none)

theorem isComponent_claude : IsComponent ".claude".toList := by decide

theorem InstallModule.isComponent_value (module : InstallModule) :
    IsComponent module.value.toList := by
  cases module <;> decide

/-- `legacy_claude_target_root` -/
def legacyClaudeTargetRoot (claudeHome : PosixPath) (scope : InstallScope)
    (projectRoot : Option PosixPath) : Option PosixPath :=
  match scope with
  | .user => some claudeHome
  | _ => projectRoot.map (·.child ".claude".toList isComponent_claude)

/-- `target_root / module.value` -/
def moduleRoot (targetRoot : PosixPath) (module : InstallModule) : PosixPath :=
  targetRoot.child module.value.toList module.isComponent_value

/-- The skill of a path at least two components below the skills root. -/
def legacySkillOf (skillsRoot : PosixPath) (rawPath : String) : Option String :=
  match (pathOf rawPath).relativeTo skillsRoot with
  | some (skill :: _ :: _) => some (String.ofList skill)
  | _ => none

/-- The loop of `legacy_claude_skill_claims`. -/
def skillClaims (skillsRoot : PosixPath) (targetPaths : List String) : Dict String String :=
  Dict.upsertEach (fun _ skill => skill)
    (targetPaths.filterMap fun rawPath => (legacySkillOf skillsRoot rawPath).map (rawPath, ·))
    Dict.empty

/-- `legacy_claude_skill_claims` -/
def legacyClaudeSkillClaims (claudeHome : PosixPath) (targetPaths : List String)
    (scope : InstallScope) (projectRoot : Option PosixPath) : Dict String String :=
  match legacyClaudeTargetRoot claudeHome scope projectRoot with
  | none => Dict.empty
  | some targetRoot => skillClaims (moduleRoot targetRoot .skills) targetPaths

/-- `legacy_file_module` -/
def legacyFileModule (claudeHome : PosixPath) (targetPath : String) (scope : InstallScope)
    (projectRoot : Option PosixPath) : Option InstallModule :=
  match legacyClaudeTargetRoot claudeHome scope projectRoot with
  | none => none
  | some targetRoot => [InstallModule.commands, .agents].find? fun module =>
      match (pathOf targetPath).relativeTo (moduleRoot targetRoot module) with
      | none => false
      | some parts => parts ≠ []

/-- `legacy_settings_module` -/
def legacySettingsModule (keyPath : String) : Option InstallModule :=
  if "hooks.".toList <+: keyPath.toList then some .hooks
  else if keyPath = "statusLine" then some .statusline
  else if keyPath = "permissions.allow" ∨ keyPath = "permissions.deny"
      ∨ "env.".toList <+: keyPath.toList then some .permissions
  else none

/-! ## 3. The upgrade -/

/-- The loop that claims the paths of packages for their runtimes. -/
def claimSkillPaths : List (String × String) → Dict String String →
    Except LegacyError (Dict String String)
  | [], claims => .ok claims
  | (filePath, runtime) :: rest, claims =>
      match claims.get? filePath with
      | none => claimSkillPaths rest (claims.set filePath runtime)
      | some prior =>
          if prior ≠ runtime then .error (.sharedSkillPath filePath) else claimSkillPaths rest claims

/-- The paths of packages, with their runtimes. -/
def packagePaths (packages : List InstalledSkillPackage) : List (String × String) :=
  packages.flatMap fun package => package.filePaths.map fun filePath => (filePath, package.runtime)

/-- The modules that the Claude runtime owned when they were enabled. -/
def legacyClaudeModules : List String :=
  [InstallModule.commands, .agents, .hooks, .statusline, .permissions].map InstallModule.value

/-- The rows of `files`, one at a time. -/
def upgradeFile (claudeHome : PosixPath) (context : Option (InstallScope × Option PosixPath))
    (skillPathClaims v1SkillClaims : Dict String String) (file : LegacyFile) : InstalledFile where
  targetPath := file.targetPath
  sourcePath := file.sourcePath
  checksum := file.checksum
  mode := file.mode
  installedAt := file.installedAt
  attribution :=
    match skillPathClaims.get? file.targetPath with
    | some runtime => attributed .skills runtime
    | none =>
        if (v1SkillClaims.get? file.targetPath).isSome then attributed .skills claudeCodeRuntime
        else
          match context.bind fun (scope, projectRoot) =>
            legacyFileModule claudeHome file.targetPath scope projectRoot with
          | some module => attributed module claudeCodeRuntime
          | none => .unattributed "legacy_path_unmapped"

variable {V : Type}

def upgradeSettingsEntry (entry : LegacySettingsEntry V) : InstalledSettingsEntry V where
  keyPath := entry.keyPath
  value := entry.value
  mergeType := entry.mergeType
  stableId := entry.stableId
  attribution :=
    match legacySettingsModule entry.keyPath with
    | some module => attributed module claudeCodeRuntime
    | none => .unattributed "legacy_key_unmapped"

/-- `files_by_skill` -/
def filesBySkill (claims : Dict String String) : Dict String (List String) :=
  Dict.upsertEach (fun filePaths filePath => filePaths.getD [] ++ [filePath])
    (claims.entries.map fun claim => (claim.2, claim.1)) Dict.empty

/-- `Path(file_path).name == "SKILL.md"` -/
def isSkillDocument (filePath : String) : Bool := (pathOf filePath).name = skillDocumentName

/-- The package of a skill, if one of its files is a `SKILL.md`. -/
def legacyPackage (skill : String) (filePaths : List String) : Option InstalledSkillPackage :=
  (filePaths.find? isSkillDocument).map fun skillDocument =>
    { runtime := claudeCodeRuntime
      skill := skill
      targetDir := pathText (pathOf skillDocument).parent
      filePaths := sortedSet filePaths }

/-- The packages of a version 1 row, sorted by skill. -/
def legacyPackages (claims : Dict String String) : List InstalledSkillPackage :=
  ((filesBySkill claims).entries.insertionSort (·.1 ≤ ·.1)).filterMap fun entry =>
    legacyPackage entry.1 entry.2

section
variable (claudeHome : PosixPath) (context : Option (InstallScope × Option PosixPath))
  (installation : LegacyInstallation V) (version : LegacyVersion)

/-- `v1_skill_claims` -/
def v1SkillClaims : Dict String String :=
  match version, context with
  | .v1, some (scope, projectRoot) => legacyClaudeSkillClaims claudeHome
      (installation.files.map LegacyFile.targetPath) scope projectRoot
  | _, _ => Dict.empty

/-- `owners`, with the rows of files and settings given. -/
def legacyOwners (claims : Dict String String) (files : List InstalledFile)
    (settingsEntries : List (InstalledSettingsEntry V)) : List ModuleOwner :=
  (installation.modulesEnabled.filter (· ∈ legacyClaudeModules)).map
    (ModuleOwner.mk · claudeCodeRuntime)
  ++ version.packages.map InstalledSkillPackage.skillsOwner
  ++ (if claims.isEmpty then [] else [⟨InstallModule.skills.value, claudeCodeRuntime⟩])
  ++ files.filterMap (attributionPair ·.attribution)
  ++ settingsEntries.filterMap (attributionPair ·.attribution)
  ++ (if installation.codexConfigPath.isSome then [hooksCodexOwner] else [])

/-- The row with its owners, once the paths of packages are claimed. -/
def upgradedRow (skillPathClaims : Dict String String) : Installation V :=
  let claims := v1SkillClaims claudeHome context installation version
  let files := installation.files.map (upgradeFile claudeHome context skillPathClaims claims)
  let settingsEntries := installation.settingsEntries.map upgradeSettingsEntry
  { scope := installation.scope
    mode := installation.mode
    profile := installation.profile
    projectPath := installation.projectPath
    moduleOwners := sortedSet (legacyOwners installation version claims files settingsEntries)
    files := files
    skillPackages := version.packages ++ legacyPackages claims
    settingsEntries := settingsEntries
    settingsBackupPath := installation.settingsBackupPath
    codexConfigPath := installation.codexConfigPath
    codexCommands := installation.codexCommands
    installedAt := installation.installedAt
    updatedAt := installation.updatedAt }

/-- `_upgrade_installation` -/
def upgradeInstallation (installationKey : String) : Except LegacyError (Installation V) :=
  let unknownModules := sortedSet (installation.modulesEnabled.filter (· ∉ legacyModuleValues))
  if unknownModules ≠ [] then .error (.unknownModules unknownModules)
  else
    let context :=
      legacyScopeAndRoot installationKey installation.scope installation.projectPath
    match claimSkillPaths (packagePaths version.packages) Dict.empty with
    | .error error => .error error
    | .ok skillPathClaims => .ok (upgradedRow claudeHome context installation version skillPathClaims)

end

/-- A manifest of version 1 or 2, its installations under their keys. -/
inductive LegacyManifest (V : Type) where
  | v1 (installations : List (String × LegacyInstallation V))
  | v2 (installations : List (String × LegacyInstallation V × List InstalledSkillPackage))

/-- The installations of a manifest, each with the manifest's version. -/
def LegacyManifest.entries : LegacyManifest V → List (String × LegacyInstallation V × LegacyVersion)
  | v1 installations => installations.map fun (key, installation) => (key, installation, .v1)
  | v2 installations => installations.map fun (key, installation, skillPackages) =>
      (key, installation, .v2 skillPackages)

/-- `_upgrade_v1_manifest` and `_upgrade_v2_manifest` -/
def upgradeManifest (claudeHome : PosixPath) (legacy : LegacyManifest V) :
    Except LegacyError (List (String × Installation V)) :=
  legacy.entries.mapM fun (key, installation, version) =>
    (upgradeInstallation claudeHome installation version key).map fun row => (key, row)

/-! ## 4. Claims -/

theorem legacySkillOf_eq_some {skillsRoot : PosixPath} {rawPath skill : String} :
    legacySkillOf skillsRoot rawPath = some skill
      ↔ ∃ part rest, (pathOf rawPath).relativeTo skillsRoot = some (skill.toList :: part :: rest) := by
  unfold legacySkillOf
  split
  · rename_i first part rest hrelative
    rw [hrelative, Option.some.injEq]
    constructor
    · rintro rfl
      exact ⟨part, rest, by simp⟩
    · rintro ⟨part', rest', heq⟩
      have hfirst := (List.cons.inj (Option.some.inj heq)).1
      rw [hfirst, String.ofList_toList]
  · rename_i hother
    constructor
    · intro h
      cases h
    · rintro ⟨part, rest, heq⟩
      exact absurd heq (hother _ _ _)

/-- The claims on distinct paths, in the order of the paths. -/
theorem entries_skillClaims {skillsRoot : PosixPath} {targetPaths : List String}
    (h : targetPaths.Nodup) : (skillClaims skillsRoot targetPaths).entries
      = targetPaths.filterMap fun rawPath => (legacySkillOf skillsRoot rawPath).map (rawPath, ·) := by
  have hkeys : ∀ paths : List String, ((paths.filterMap fun rawPath =>
      (legacySkillOf skillsRoot rawPath).map (rawPath, ·)).map Prod.fst).Sublist paths := by
    intro paths
    induction paths with
    | nil => exact List.Sublist.refl _
    | cons rawPath paths ih =>
      cases hskill : legacySkillOf skillsRoot rawPath with
      | none => simpa [List.filterMap_cons, hskill] using ih.cons rawPath
      | some skill => simpa [List.filterMap_cons, hskill] using ih
  rw [skillClaims, Dict.entries_upsertEach_fresh (h.sublist (hkeys _)) (by simp [Dict.empty])]
  rfl

theorem get?_skillClaims {skillsRoot : PosixPath} {targetPaths : List String}
    (h : targetPaths.Nodup) {rawPath skill : String} :
    (skillClaims skillsRoot targetPaths).get? rawPath = some skill
      ↔ rawPath ∈ targetPaths ∧ legacySkillOf skillsRoot rawPath = some skill := by
  rw [Dict.get?_eq_some_iff, entries_skillClaims h, List.mem_filterMap]
  constructor
  · rintro ⟨other, hmem, hsome⟩
    obtain ⟨skill', hskill, heq⟩ := Option.map_eq_some_iff.mp hsome
    cases heq
    exact ⟨hmem, hskill⟩
  · rintro ⟨hmem, hskill⟩
    exact ⟨rawPath, hmem, by rw [hskill]; rfl⟩

/-- Paths that no two packages share are claimed without a conflict. -/
theorem claimSkillPaths_fresh : ∀ {pairs : List (String × String)} {claims : Dict String String},
    (pairs.map Prod.fst).Nodup → (∀ filePath ∈ pairs.map Prod.fst, claims.get? filePath = none) →
    claimSkillPaths pairs claims = .ok (Dict.upsertEach (fun _ runtime => runtime) pairs claims)
  | [], claims, _, _ => rfl
  | (filePath, runtime) :: rest, claims, hnodup, hfresh => by
      obtain ⟨hnew, hrest⟩ := List.nodup_cons.mp hnodup
      have hnone : claims.get? filePath = none := hfresh filePath List.mem_cons_self
      rw [claimSkillPaths, hnone]
      refine claimSkillPaths_fresh hrest fun other hother => ?_
      have hne : other ≠ filePath := fun heq => hnew (heq ▸ hother)
      rw [Dict.get?_set, if_neg hne]
      exact hfresh other (List.mem_cons_of_mem _ hother)

/-! ## 5. Packages of a version 1 row -/

/-- The paths claimed for a skill, in order. -/
def claimedPaths (claims : Dict String String) (skill : String) : List String :=
  (claims.entries.filter (·.2 = skill)).map Prod.fst

theorem foldl_snoc {α β : Type} (g : α → β) : ∀ (xs : List α) (found : Option (List β)),
    xs.foldl (fun found x => some (found.getD [] ++ [g x])) found
      = if xs = [] then found else some (found.getD [] ++ xs.map g)
  | [], _ => rfl
  | x :: xs, found => by
      rw [List.foldl_cons, foldl_snoc g xs]
      by_cases hxs : xs = []
      · simp [hxs]
      · simp [hxs]

theorem get?_filesBySkill (claims : Dict String String) (skill : String) :
    (filesBySkill claims).get? skill
      = if claimedPaths claims skill = [] then none else some (claimedPaths claims skill) := by
  have hswap : (claims.entries.map fun claim => (claim.2, claim.1)).filter (fun e => e.1 = skill)
      = (claims.entries.filter (·.2 = skill)).map fun claim => (claim.2, claim.1) := by
    rw [List.filter_map]
    rfl
  rw [filesBySkill, Dict.get?_upsertEach_foldl, hswap, foldl_snoc Prod.snd, claimedPaths]
  simp only [List.map_eq_nil_iff, List.map_map, Dict.get?_empty, Option.getD_none, List.nil_append]
  rfl

theorem mem_legacyPackages {claims : Dict String String} {package : InstalledSkillPackage} :
    package ∈ legacyPackages claims ↔ ∃ skill, claimedPaths claims skill ≠ []
      ∧ legacyPackage skill (claimedPaths claims skill) = some package := by
  have hentry : ∀ skill filePaths, (skill, filePaths) ∈ (filesBySkill claims).entries
      ↔ claimedPaths claims skill ≠ [] ∧ claimedPaths claims skill = filePaths := by
    intro skill filePaths
    rw [← Dict.get?_eq_some_iff, get?_filesBySkill]
    split
    · simp [*]
    · simp [*]
  simp only [legacyPackages, List.mem_filterMap, List.mem_insertionSort, Prod.exists, hentry]
  constructor
  · rintro ⟨skill, _, ⟨hne, rfl⟩, hpackage⟩
    exact ⟨skill, hne, hpackage⟩
  · rintro ⟨skill, hne, hpackage⟩
    exact ⟨skill, _, ⟨hne, rfl⟩, hpackage⟩

/-- Packages of different skills share no path. -/
theorem legacyPackages_apart (claims : Dict String String) :
    (legacyPackages claims).Pairwise Apart := by
  have hsorted : (((filesBySkill claims).entries.insertionSort (·.1 ≤ ·.1)).map Prod.fst).Nodup :=
    (((filesBySkill claims).entries.perm_insertionSort _).map Prod.fst).nodup_iff.mpr
      (filesBySkill claims).nodup
  have hclaimed : ∀ entry ∈ (filesBySkill claims).entries.insertionSort (·.1 ≤ ·.1),
      ∀ filePath ∈ entry.2, claims.get? filePath = some entry.1 := by
    intro entry hentry filePath hpath
    have hget : (filesBySkill claims).get? entry.1 = some entry.2 :=
      Dict.get?_eq_some_iff.mpr ((List.mem_insertionSort _).mp hentry)
    rw [get?_filesBySkill] at hget
    split at hget
    · cases hget
    · rw [← Option.some.inj hget, claimedPaths, List.mem_map] at hpath
      obtain ⟨⟨claimed, skill⟩, hclaim, rfl⟩ := hpath
      obtain ⟨hmem, hskill⟩ := List.mem_filter.mp hclaim
      rw [← of_decide_eq_true hskill]
      exact Dict.get?_eq_some_iff.mpr hmem
  refine List.pairwise_filterMap.mpr ((List.pairwise_map.mp hsorted).imp_of_mem ?_)
  intro entry entry' hmem hmem' hne package hpackage package' hpackage'
  obtain ⟨document, -, rfl⟩ := Option.map_eq_some_iff.mp hpackage
  obtain ⟨document', -, rfl⟩ := Option.map_eq_some_iff.mp hpackage'
  refine ⟨fun hkey => hne (Prod.mk.inj hkey).2, fun filePath hpath hpath' => hne ?_⟩
  have hskill := hclaimed entry hmem filePath (mem_sortedSet.mp hpath)
  have hskill' := hclaimed entry' hmem' filePath (mem_sortedSet.mp hpath')
  exact Option.some.inj (hskill.symm.trans hskill')

/-! ## 6. Documents of skills -/

/-- `SKILL.md` directly below the skill's directory. -/
def IsDocumentOf (skillsRoot : PosixPath) (skill filePath : String) : Prop :=
  (pathOf filePath).relativeTo skillsRoot = some [skill.toList, skillDocumentName]

instance (skillsRoot : PosixPath) (skill filePath : String) :
    Decidable (IsDocumentOf skillsRoot skill filePath) :=
  inferInstanceAs (Decidable (_ = _))

/-- The tracked paths of a skill. -/
def skillPaths (skillsRoot : PosixPath) (targetPaths : List String) (skill : String) :
    List String :=
  targetPaths.filter (legacySkillOf skillsRoot · = some skill)

/-- Files lie under the directory of their skill, and the directory has its
document. -/
structure SkillFilesOk (skillsRoot : PosixPath) (targetPaths : List String) : Prop where
  below : ∀ filePath ∈ targetPaths, ∀ skill rest,
    (pathOf filePath).relativeTo skillsRoot = some (skill :: rest) → "..".toList ∉ rest
  documents : ∀ filePath ∈ targetPaths, ∀ skill, legacySkillOf skillsRoot filePath = some skill →
    ∃ document ∈ targetPaths, IsDocumentOf skillsRoot skill document

/-- The first `SKILL.md` of a skill is its own document, which is tracked
in its normal spelling, below an absolute root. -/
structure DocumentFirst (skillsRoot : PosixPath) (targetPaths : List String) (skill : String) :
    Prop where
  absolute : skillsRoot.isAbsolute = true
  first : ∃ first, (skillPaths skillsRoot targetPaths skill).find? isSkillDocument = some first
    ∧ IsDocumentOf skillsRoot skill first
  spelled : ∃ document ∈ targetPaths, IsDocumentOf skillsRoot skill document
    ∧ pathText (pathOf document) = document

section
variable {skillsRoot : PosixPath} {targetPaths : List String} {skill filePath : String}

theorem IsDocumentOf.skillOf (h : IsDocumentOf skillsRoot skill filePath) :
    legacySkillOf skillsRoot filePath = some skill :=
  legacySkillOf_eq_some.mpr ⟨skillDocumentName, [], h⟩

theorem IsDocumentOf.isSkillDocument (h : IsDocumentOf skillsRoot skill filePath) :
    isSkillDocument filePath = true := by
  have hparts := (PosixPath.relativeTo_eq_some_iff.mp h).2
  rw [Install.isSkillDocument, decide_eq_true_eq, PosixPath.name, hparts]
  simp

theorem claimedPaths_skillClaims (h : targetPaths.Nodup) :
    claimedPaths (skillClaims skillsRoot targetPaths) skill
      = skillPaths skillsRoot targetPaths skill := by
  rw [claimedPaths, entries_skillClaims h, skillPaths]
  clear h
  induction targetPaths with
  | nil => rfl
  | cons rawPath paths ih =>
    cases hskill : legacySkillOf skillsRoot rawPath with
    | none => simpa [List.filterMap_cons, hskill] using ih
    | some skill' =>
      by_cases heq : skill' = skill
      · simpa [List.filterMap_cons, hskill, heq] using ih
      · simpa [List.filterMap_cons, hskill, heq] using ih

/-- A skill with a tracked file has a package, from its first `SKILL.md`. -/
theorem legacyPackage_skill (hfiles : SkillFilesOk skillsRoot targetPaths)
    (hpath : filePath ∈ targetPaths) (hskill : legacySkillOf skillsRoot filePath = some skill) :
    ∃ first, (skillPaths skillsRoot targetPaths skill).find? isSkillDocument = some first
      ∧ legacyPackage skill (skillPaths skillsRoot targetPaths skill)
        = some ⟨claudeCodeRuntime, skill, pathText (pathOf first).parent,
          sortedSet (skillPaths skillsRoot targetPaths skill)⟩ := by
  obtain ⟨document, hmem, hdocument⟩ := hfiles.documents filePath hpath skill hskill
  have hclaimed : document ∈ skillPaths skillsRoot targetPaths skill :=
    List.mem_filter.mpr ⟨hmem, decide_eq_true hdocument.skillOf⟩
  cases hfirst : (skillPaths skillsRoot targetPaths skill).find? isSkillDocument with
  | none =>
    have hnot := List.find?_eq_none.mp hfirst document hclaimed
    exact absurd hdocument.isSkillDocument hnot
  | some first => exact ⟨first, rfl, by rw [legacyPackage, hfirst]; rfl⟩

/-- What a skill's tracked path looks like. -/
theorem parts_of_skillPath (h : filePath ∈ skillPaths skillsRoot targetPaths skill) :
    (pathOf filePath).root = skillsRoot.root ∧ ∃ part rest,
      (pathOf filePath).parts = skillsRoot.parts ++ skill.toList :: part :: rest := by
  obtain ⟨part, rest, hrelative⟩ :=
    legacySkillOf_eq_some.mp (of_decide_eq_true (List.mem_filter.mp h).2)
  obtain ⟨hroot, hparts⟩ := PosixPath.relativeTo_eq_some_iff.mp hrelative
  exact ⟨hroot, part, rest, hparts⟩

/-- A document above the skill's directory or in it is the skill's own. -/
theorem isDocumentOf_of_below {first document : String}
    (hfirst : first ∈ skillPaths skillsRoot targetPaths skill)
    (hname : isSkillDocument first = true) (hdocument : IsDocumentOf skillsRoot skill document)
    {parts : List (List Char)} (hne : parts ≠ [])
    (hbelow : (pathOf document).relativeTo (pathOf first).parent = some parts) :
    IsDocumentOf skillsRoot skill first := by
  obtain ⟨hroot, part, rest, hparts⟩ := parts_of_skillPath hfirst
  have hlength : (pathOf document).parts.length = skillsRoot.parts.length + 2 := by
    rw [(PosixPath.relativeTo_eq_some_iff.mp hdocument).2, List.length_append]
    rfl
  have hparent : (pathOf document).parts.length
      = (pathOf first).parts.length - 1 + parts.length := by
    rw [(PosixPath.relativeTo_eq_some_iff.mp hbelow).2, List.length_append,
      PosixPath.parent_parts, List.length_dropLast]
  have hfirstLength : (pathOf first).parts.length = skillsRoot.parts.length + (rest.length + 2) := by
    rw [hparts, List.length_append]
    rfl
  have hpos : 0 < parts.length := List.length_pos_of_ne_nil hne
  have hrest : rest = [] := List.eq_nil_of_length_eq_zero (by omega)
  subst hrest
  have hpart : part = skillDocumentName := by
    rw [Install.isSkillDocument, decide_eq_true_eq, PosixPath.name, hparts] at hname
    simpa using hname
  rw [hpart] at hparts
  exact PosixPath.relativeTo_eq_some_iff.mpr ⟨hroot, hparts⟩

/-- **A package of a version 1 row is valid exactly when it was made from
the skill's own document.** -/
theorem legacyPackage_ok_iff {owners : List ModuleOwner}
    (howner : ⟨InstallModule.skills.value, claudeCodeRuntime⟩ ∈ owners)
    (hfiles : SkillFilesOk skillsRoot targetPaths) (hpath : filePath ∈ targetPaths)
    (hskill : legacySkillOf skillsRoot filePath = some skill) {package : InstalledSkillPackage}
    (hpackage : legacyPackage skill (skillPaths skillsRoot targetPaths skill) = some package) :
    PackageOk owners targetPaths package ↔ DocumentFirst skillsRoot targetPaths skill := by
  obtain ⟨first, hfirst, heq⟩ := legacyPackage_skill hfiles hpath hskill
  rw [hpackage] at heq
  cases heq
  have hmem := List.mem_of_find?_eq_some hfirst
  have hname := List.find?_some hfirst
  obtain ⟨hroot, -⟩ := parts_of_skillPath hmem
  have hdocumentName : (pathOf first).name = skillDocumentName := of_decide_eq_true hname
  have hchild := PosixPath.parent_child isComponent_skillDocument hdocumentName
  constructor
  · intro hok
    obtain ⟨document, hdocument, hown⟩ := hfiles.documents filePath hpath skill hskill
    have hclaimed : document ∈ skillPaths skillsRoot targetPaths skill :=
      List.mem_filter.mpr ⟨hdocument, decide_eq_true hown.skillOf⟩
    obtain ⟨-, parts, hbelow, hne, -⟩ := hok.inside document (mem_sortedSet.mpr hclaimed)
    rw [pathOf_pathText] at hbelow
    have hfirstOwn := isDocumentOf_of_below hmem hname hown hne hbelow
    refine ⟨?_, ⟨first, hfirst, hfirstOwn⟩, ?_⟩
    · have habsolute := hok.absolute
      rw [pathOf_pathText] at habsolute
      simpa [PosixPath.isAbsolute, hroot] using habsolute
    · have htracked := hok.document
      rw [InstalledSkillPackage.skillDocument, pathOf_pathText, hchild, mem_sortedSet] at htracked
      refine ⟨_, (List.mem_filter.mp htracked).1, ?_, by rw [pathOf_pathText]⟩
      rw [IsDocumentOf, pathOf_pathText]
      exact hfirstOwn
  · rintro ⟨habsolute, ⟨first', hfirst', hfirstOwn⟩, document, hdocument, hown, hspelled⟩
    rw [hfirst] at hfirst'
    cases hfirst'
    obtain ⟨-, hfirstParts⟩ := PosixPath.relativeTo_eq_some_iff.mp hfirstOwn
    have hparent : (pathOf first).parent.parts = skillsRoot.parts ++ [skill.toList] := by
      rw [PosixPath.parent_parts, hfirstParts]
      simp
    refine ⟨howner, ?_, List.ne_nil_of_mem (mem_sortedSet.mpr hmem), sortedSet_pairwise _, ?_, ?_,
      ?_⟩
    · rw [pathOf_pathText]
      simpa [PosixPath.isAbsolute, hroot] using habsolute
    · rw [InstalledSkillPackage.skillDocument, pathOf_pathText, hchild, mem_sortedSet,
        PosixPath.eq_of_relativeTo hfirstOwn hown, hspelled]
      exact List.mem_filter.mpr ⟨hdocument, decide_eq_true hown.skillOf⟩
    · intro tracked htracked
      have htracked := mem_sortedSet.mp htracked
      obtain ⟨htrackedRoot, part, rest, hparts⟩ := parts_of_skillPath htracked
      refine ⟨by simpa [PosixPath.isAbsolute, htrackedRoot] using habsolute, part :: rest, ?_,
        List.cons_ne_nil _ _, ?_⟩
      · rw [pathOf_pathText, PosixPath.relativeTo_eq_some_iff, hparent, hparts]
        exact ⟨htrackedRoot.trans hroot.symm, by simp⟩
      · exact hfiles.below tracked (List.mem_filter.mp htracked).1 skill.toList _
          (PosixPath.relativeTo_eq_some_iff.mpr ⟨htrackedRoot, hparts⟩)
    · exact fun tracked htracked => (List.mem_filter.mp (mem_sortedSet.mp htracked)).1

end

/-! ## 7. Owners -/

@[simp] theorem InstallModule.ofValue?_value (module : InstallModule) :
    InstallModule.ofValue? module.value = some module := by
  cases module <;> decide

theorem claude_owns (module : InstallModule) : OwnerOk ⟨module.value, claudeCodeRuntime⟩ := by
  refine ⟨module, module.ofValue?_value, ?_⟩
  cases module <;> decide

theorem skillsOwner_ok {runtime : String} (h : runtime ∈ agentRuntimeIds) :
    OwnerOk ⟨InstallModule.skills.value, runtime⟩ :=
  ⟨.skills, InstallModule.skills.ofValue?_value, h⟩

/-- An owner that the upgrade infers from a row: the Claude runtime's, or
skills of a runtime with packages. -/
def Inferred (runtimes : List String) (owner : ModuleOwner) : Prop :=
  (∃ module : InstallModule, owner = ⟨module.value, claudeCodeRuntime⟩)
    ∨ ∃ runtime ∈ runtimes, owner = ⟨InstallModule.skills.value, runtime⟩

theorem Inferred.ok {runtimes : List String} {owner : ModuleOwner} (h : Inferred runtimes owner)
    (hknown : ∀ runtime ∈ runtimes, runtime ∈ agentRuntimeIds) : OwnerOk owner := by
  rcases h with ⟨module, rfl⟩ | ⟨runtime, hmem, rfl⟩
  · exact claude_owns module
  · exact skillsOwner_ok (hknown runtime hmem)

theorem Inferred.ne_hooksCodexOwner {runtimes : List String} {owner : ModuleOwner}
    (h : Inferred runtimes owner) : owner ≠ hooksCodexOwner := by
  have hruntime : claudeCodeRuntime ≠ hooksCodexOwner.runtime := by decide
  have hmodule : InstallModule.skills.value ≠ hooksCodexOwner.module := by decide
  rcases h with ⟨module, rfl⟩ | ⟨runtime, -, rfl⟩
  · exact fun heq => hruntime (congrArg ModuleOwner.runtime heq)
  · exact fun heq => hmodule (congrArg ModuleOwner.module heq)

/-- An inferred owner, or a known reason. -/
def AttributionInferred (runtimes : List String) : SurfaceAttribution → Prop
  | .owner owner => Inferred runtimes owner
  | .unattributed reason => reason ∈ legacyUnattributedReasons

theorem upgradeFile_inferred (claudeHome : PosixPath)
    (context : Option (InstallScope × Option PosixPath))
    {skillPathClaims : Dict String String} (claims : Dict String String) (file : LegacyFile)
    {runtimes : List String}
    (hclaims : ∀ filePath runtime, skillPathClaims.get? filePath = some runtime →
      runtime ∈ runtimes) :
    AttributionInferred runtimes
      (upgradeFile claudeHome context skillPathClaims claims file).attribution := by
  unfold upgradeFile
  simp only
  split
  · rename_i runtime hclaim
    exact Or.inr ⟨runtime, hclaims _ _ hclaim, rfl⟩
  · split
    · exact Or.inl ⟨.skills, rfl⟩
    · split
      · rename_i module _
        exact Or.inl ⟨module, rfl⟩
      · exact List.mem_cons_self

theorem upgradeSettingsEntry_inferred (runtimes : List String) (entry : LegacySettingsEntry V) :
    AttributionInferred runtimes (upgradeSettingsEntry entry).attribution := by
  unfold upgradeSettingsEntry
  simp only
  split
  · rename_i module _
    exact Or.inl ⟨module, rfl⟩
  · exact List.mem_cons_of_mem _ List.mem_cons_self

/-- Every owner comes from the Claude runtime, a package or the Codex
configuration. -/
theorem mem_legacyOwners {installation : LegacyInstallation V} {version : LegacyVersion}
    {claims : Dict String String} {files : List InstalledFile}
    {settingsEntries : List (InstalledSettingsEntry V)} {runtimes : List String}
    (hruntimes : ∀ package ∈ version.packages, package.runtime ∈ runtimes)
    (hfiles : ∀ file ∈ files, AttributionInferred runtimes file.attribution)
    (hsettings : ∀ entry ∈ settingsEntries, AttributionInferred runtimes entry.attribution)
    {owner : ModuleOwner}
    (h : owner ∈ legacyOwners installation version claims files settingsEntries) :
    Inferred runtimes owner ∨ owner = hooksCodexOwner ∧ installation.codexConfigPath.isSome = true := by
  have hpair : ∀ attribution, AttributionInferred runtimes attribution →
      attributionPair attribution = some owner → Inferred runtimes owner := by
    intro attribution hok hpair
    cases attribution with
    | owner owner' => cases hpair; exact hok
    | unattributed reason => cases hpair
  simp only [legacyOwners, List.mem_append] at h
  rcases h with ((((hmodule | hpackage) | hskills) | hfile) | hentry) | hcodex
  · obtain ⟨name, hname, rfl⟩ := List.mem_map.mp hmodule
    obtain ⟨module, -, rfl⟩ := List.mem_map.mp (of_decide_eq_true (List.mem_filter.mp hname).2)
    exact Or.inl (Or.inl ⟨module, rfl⟩)
  · obtain ⟨package, hmem, rfl⟩ := List.mem_map.mp hpackage
    exact Or.inl (Or.inr ⟨package.runtime, hruntimes package hmem, rfl⟩)
  · split at hskills
    · cases hskills
    · exact Or.inl (Or.inl ⟨.skills, List.mem_singleton.mp hskills⟩)
  · obtain ⟨file, hmem, hsome⟩ := List.mem_filterMap.mp hfile
    exact Or.inl (hpair _ (hfiles file hmem) hsome)
  · obtain ⟨entry, hmem, hsome⟩ := List.mem_filterMap.mp hentry
    exact Or.inl (hpair _ (hsettings entry hmem) hsome)
  · split at hcodex
    · rename_i hset
      exact Or.inr ⟨List.mem_singleton.mp hcodex, hset⟩
    · cases hcodex

/-! ## 8. The upgraded row -/

section
variable (claudeHome : PosixPath) (installationKey : String) (installation : LegacyInstallation V)
  (version : LegacyVersion)

/-- The skills root below which a version 1 row has provable packages. -/
def legacySkillsRoot : Option PosixPath :=
  match version, legacyScopeAndRoot installationKey installation.scope installation.projectPath with
  | .v1, some (scope, projectRoot) =>
      (legacyClaudeTargetRoot claudeHome scope projectRoot).map (moduleRoot · .skills)
  | _, _ => none

def targetPaths : List String := installation.files.map LegacyFile.targetPath

/-- What a legacy row is taken to satisfy. -/
structure LegacyOk : Prop where
  modules : ∀ name ∈ installation.modulesEnabled, name ∈ legacyModuleValues
  files_distinct : (targetPaths installation).Nodup
  settings_distinct :
    (installation.settingsEntries.map fun entry => (entry.keyPath, entry.stableId)).Nodup
  codex_nonblank : ∀ path, installation.codexConfigPath = some path →
    Lines.isBlank path.toList = false
  runtimes : ∀ package ∈ version.packages, package.runtime ∈ agentRuntimeIds
  /-- the rules for packages, except that there are no owners yet -/
  packages : ∀ package ∈ version.packages,
    PackageOk [package.skillsOwner] (targetPaths installation) package
  packages_apart : version.packages.Pairwise Apart
  skill_files : ∀ skillsRoot,
    legacySkillsRoot claudeHome installationKey installation version = some skillsRoot →
      SkillFilesOk skillsRoot (targetPaths installation)

/-- Every skill of a version 1 row is found by its own document. -/
def DocumentsFirst : Prop :=
  ∀ skillsRoot, legacySkillsRoot claudeHome installationKey installation version = some skillsRoot →
    ∀ filePath ∈ targetPaths installation, ∀ skill, legacySkillOf skillsRoot filePath = some skill →
      DocumentFirst skillsRoot (targetPaths installation) skill

end

def InstalledFile.legacy (file : InstalledFile) : LegacyFile :=
  ⟨file.targetPath, file.sourcePath, file.checksum, file.mode, file.installedAt⟩

def InstalledSettingsEntry.legacy (entry : InstalledSettingsEntry V) : LegacySettingsEntry V :=
  ⟨entry.keyPath, entry.value, entry.mergeType, entry.stableId⟩

/-- A row that loses nothing of the legacy row, with an owner or a reason
for everything. -/
structure Lossless (installation : LegacyInstallation V) (version : LegacyVersion)
    (row : Installation V) : Prop where
  files : row.files.map InstalledFile.legacy = installation.files
  settings : row.settingsEntries.map InstalledSettingsEntry.legacy = installation.settingsEntries
  packages : ∀ packages, version = .v2 packages → row.skillPackages = packages
  codex : row.codexConfigPath = installation.codexConfigPath
  file_owners : ∀ file ∈ row.files, AttributionOk row.moduleOwners file.attribution
  settings_owners : ∀ entry ∈ row.settingsEntries, AttributionOk row.moduleOwners entry.attribution

section
variable {claudeHome : PosixPath} {installationKey : String} {installation : LegacyInstallation V}
  {version : LegacyVersion}

theorem v1SkillClaims_eq : v1SkillClaims claudeHome
    (legacyScopeAndRoot installationKey installation.scope installation.projectPath) installation
    version
      = match legacySkillsRoot claudeHome installationKey installation version with
        | none => Dict.empty
        | some skillsRoot => skillClaims skillsRoot (targetPaths installation) := by
  cases version with
  | v2 packages => rfl
  | v1 =>
    simp only [v1SkillClaims, legacySkillsRoot]
    cases legacyScopeAndRoot installationKey installation.scope installation.projectPath with
    | none => rfl
    | some context =>
      obtain ⟨scope, projectRoot⟩ := context
      simp only [legacyClaudeSkillClaims]
      cases legacyClaudeTargetRoot claudeHome scope projectRoot with
      | none => rfl
      | some targetRoot => rfl

/-- Packages that share no path claim their paths without a conflict. -/
theorem claimSkillPaths_ok (h : LegacyOk claudeHome installationKey installation version) :
    ∃ claims, claimSkillPaths (packagePaths version.packages) Dict.empty = .ok claims
      ∧ ∀ filePath runtime, claims.get? filePath = some runtime →
        runtime ∈ version.packages.map InstalledSkillPackage.runtime := by
  have hkeys : (packagePaths version.packages).map Prod.fst
      = version.packages.flatMap InstalledSkillPackage.filePaths := by
    simp [packagePaths, List.map_flatMap, Function.comp_def]
  have hnodup : ((packagePaths version.packages).map Prod.fst).Nodup := by
    rw [hkeys, List.nodup_flatMap]
    refine ⟨fun package hmem => (h.packages package hmem).sorted.imp fun hlt => ne_of_lt hlt, ?_⟩
    exact h.packages_apart.imp fun hapart => List.disjoint_left.mpr fun filePath => hapart.2 filePath
  refine ⟨_, claimSkillPaths_fresh hnodup fun _ _ => Dict.get?_empty _, ?_⟩
  intro filePath runtime hclaim
  rw [Dict.get?_eq_some_iff, Dict.entries_upsertEach_fresh hnodup (by simp [Dict.empty])] at hclaim
  have hmem : (filePath, runtime) ∈ packagePaths version.packages := hclaim
  obtain ⟨package, hpackage, hpair⟩ := List.mem_flatMap.mp hmem
  obtain ⟨_, -, heq⟩ := List.mem_map.mp hpair
  exact List.mem_map.mpr ⟨package, hpackage, (Prod.mk.inj heq).2⟩

section
variable (claudeHome) (context : Option (InstallScope × Option PosixPath)) (installation)
  {skillPathClaims : Dict String String}
  (hclaims : ∀ filePath runtime, skillPathClaims.get? filePath = some runtime →
    runtime ∈ version.packages.map InstalledSkillPackage.runtime)

include hclaims

theorem upgradedRow_inferred :
    (∀ file ∈ (upgradedRow claudeHome context installation version skillPathClaims).files,
      AttributionInferred (version.packages.map InstalledSkillPackage.runtime) file.attribution)
    ∧ ∀ entry ∈
        (upgradedRow claudeHome context installation version skillPathClaims).settingsEntries,
      AttributionInferred (version.packages.map InstalledSkillPackage.runtime)
        entry.attribution := by
  constructor
  · intro file hfile
    obtain ⟨legacy, -, rfl⟩ := List.mem_map.mp hfile
    exact upgradeFile_inferred claudeHome context _ legacy hclaims
  · intro entry hentry
    obtain ⟨legacy, -, rfl⟩ := List.mem_map.mp hentry
    exact upgradeSettingsEntry_inferred _ legacy

/-- Every row gets one of the row's owners or a known reason. -/
theorem lossless_upgradedRow : Lossless installation version
    (upgradedRow claudeHome context installation version skillPathClaims) := by
  obtain ⟨hfiles, hsettings⟩ :=
    upgradedRow_inferred claudeHome installation context hclaims
  refine ⟨?_, ?_, ?_, rfl, ?_, ?_⟩
  · rw [upgradedRow, List.map_map]
    exact List.map_id'' (fun _ => rfl) _
  · rw [upgradedRow, List.map_map]
    exact List.map_id'' (fun _ => rfl) _
  · rintro packages rfl
    exact List.append_nil packages
  · intro file hfile
    have hinferred := hfiles file hfile
    cases hattribution : file.attribution with
    | unattributed reason => rwa [hattribution] at hinferred
    | owner owner =>
      refine mem_sortedSet.mpr ?_
      have howner : owner ∈ (upgradedRow claudeHome context installation version
          skillPathClaims).files.filterMap (attributionPair ·.attribution) :=
        List.mem_filterMap.mpr ⟨file, hfile, by rw [hattribution]; rfl⟩
      simp only [legacyOwners, List.mem_append]
      exact Or.inl (Or.inl (Or.inr howner))
  · intro entry hentry
    have hinferred := hsettings entry hentry
    cases hattribution : entry.attribution with
    | unattributed reason => rwa [hattribution] at hinferred
    | owner owner =>
      refine mem_sortedSet.mpr ?_
      have howner : owner ∈ (upgradedRow claudeHome context installation version
          skillPathClaims).settingsEntries.filterMap (attributionPair ·.attribution) :=
        List.mem_filterMap.mpr ⟨entry, hentry, by rw [hattribution]; rfl⟩
      simp only [legacyOwners, List.mem_append]
      exact Or.inl (Or.inr howner)

omit hclaims in
/-- `hooks/codex` is an owner exactly with a Codex configuration, and the
owners are those that the model knows. -/
theorem upgradedRow_owners (hclaims : ∀ filePath runtime,
      skillPathClaims.get? filePath = some runtime →
        runtime ∈ version.packages.map InstalledSkillPackage.runtime)
    (hruntimes : ∀ package ∈ version.packages, package.runtime ∈ agentRuntimeIds) :
    let row := upgradedRow claudeHome context installation version skillPathClaims
    (∀ owner ∈ row.moduleOwners, OwnerOk owner)
      ∧ (hooksCodexOwner ∈ row.moduleOwners ↔ row.codexConfigPath.isSome = true) := by
  obtain ⟨hfiles, hsettings⟩ :=
    upgradedRow_inferred claudeHome installation context hclaims
  have hmem : ∀ owner ∈ (upgradedRow claudeHome context installation version
      skillPathClaims).moduleOwners, Inferred (version.packages.map InstalledSkillPackage.runtime)
        owner ∨ owner = hooksCodexOwner ∧ installation.codexConfigPath.isSome = true :=
    fun owner howner => mem_legacyOwners (fun package hpackage => List.mem_map_of_mem hpackage)
      hfiles hsettings (mem_sortedSet.mp howner)
  refine ⟨fun owner howner => ?_, fun howner => ?_, fun hset => ?_⟩
  · rcases hmem owner howner with hinferred | ⟨rfl, -⟩
    · refine hinferred.ok fun runtime hruntime => ?_
      obtain ⟨package, hpackage, rfl⟩ := List.mem_map.mp hruntime
      exact hruntimes package hpackage
    · exact ⟨.hooks, InstallModule.hooks.ofValue?_value, by decide⟩
  · rcases hmem _ howner with hinferred | ⟨-, hset⟩
    · exact absurd rfl hinferred.ne_hooksCodexOwner
    · exact hset
  · refine mem_sortedSet.mpr (List.mem_append_right _ ?_)
    have hcodex : installation.codexConfigPath.isSome = true := hset
    rw [if_pos hcodex]
    exact List.mem_singleton_self _

end

/-- The packages of the row are valid exactly when documents come first. -/
theorem upgradedRow_packages_iff (h : LegacyOk claudeHome installationKey installation version)
    {owners : List ModuleOwner}
    (howner : (v1SkillClaims claudeHome
      (legacyScopeAndRoot installationKey installation.scope installation.projectPath)
      installation version).isEmpty = false →
        ⟨InstallModule.skills.value, claudeCodeRuntime⟩ ∈ owners) :
    (∀ package ∈ legacyPackages (v1SkillClaims claudeHome
        (legacyScopeAndRoot installationKey installation.scope installation.projectPath)
        installation version), PackageOk owners (targetPaths installation) package)
      ↔ DocumentsFirst claudeHome installationKey installation version := by
  rw [v1SkillClaims_eq] at howner ⊢
  unfold DocumentsFirst
  cases hroot : legacySkillsRoot claudeHome installationKey installation version with
  | none => simp [mem_legacyPackages, claimedPaths, Dict.empty]
  | some skillsRoot =>
    rw [hroot] at howner
    simp only at howner ⊢
    have hfiles := h.skill_files skillsRoot hroot
    have hpaths : ∀ skill, claimedPaths (skillClaims skillsRoot (targetPaths installation)) skill
        = skillPaths skillsRoot (targetPaths installation) skill :=
      fun skill => claimedPaths_skillClaims h.files_distinct
    have hskills : ∀ filePath ∈ targetPaths installation, ∀ skill,
        legacySkillOf skillsRoot filePath = some skill →
          ⟨InstallModule.skills.value, claudeCodeRuntime⟩ ∈ owners := by
      intro filePath hpath skill hskill
      refine howner ?_
      have hclaim := (get?_skillClaims h.files_distinct).mpr ⟨hpath, hskill⟩
      cases hempty : (skillClaims skillsRoot (targetPaths installation)).isEmpty with
      | false => rfl
      | true => rw [Dict.get?_of_isEmpty hempty] at hclaim; cases hclaim
    constructor
    · rintro hok _ heq filePath hpath skill hskill
      cases heq
      obtain ⟨first, -, hpackage⟩ := legacyPackage_skill hfiles hpath hskill
      have hmem : filePath ∈ skillPaths skillsRoot (targetPaths installation) skill :=
        List.mem_filter.mpr ⟨hpath, decide_eq_true hskill⟩
      refine (legacyPackage_ok_iff (hskills _ hpath _ hskill) hfiles hpath hskill hpackage).mp
        (hok _ (mem_legacyPackages.mpr ⟨skill, ?_, ?_⟩))
      · rw [hpaths]
        exact List.ne_nil_of_mem hmem
      · rw [hpaths]
        exact hpackage
    · rintro hfirst package hpackage
      obtain ⟨skill, hne, hpackage⟩ := mem_legacyPackages.mp hpackage
      rw [hpaths] at hne hpackage
      obtain ⟨filePath, hmem⟩ := List.exists_mem_of_ne_nil _ hne
      obtain ⟨hpath, hskill⟩ := List.mem_filter.mp hmem
      have hskill := of_decide_eq_true hskill
      exact (legacyPackage_ok_iff (hskills _ hpath _ hskill) hfiles hpath hskill hpackage).mpr
        (hfirst skillsRoot rfl filePath hpath skill hskill)

theorem upgradedRow_targetPaths (context : Option (InstallScope × Option PosixPath))
    (skillPathClaims : Dict String String) :
    (upgradedRow claudeHome context installation version skillPathClaims).files.map
      InstalledFile.targetPath = targetPaths installation := by
  rw [upgradedRow, List.map_map]
  rfl

theorem upgradedRow_identities (context : Option (InstallScope × Option PosixPath))
    (skillPathClaims : Dict String String) :
    (upgradedRow claudeHome context installation version skillPathClaims).settingsEntries.map
      InstalledSettingsEntry.identity
        = installation.settingsEntries.map fun entry => (entry.keyPath, entry.stableId) := by
  rw [upgradedRow, List.map_map]
  rfl

theorem upgradedRow_apart (context : Option (InstallScope × Option PosixPath))
    (h : version.packages.Pairwise Apart) (skillPathClaims : Dict String String) :
    (upgradedRow claudeHome context installation version skillPathClaims).skillPackages.Pairwise
      Apart := by
  cases version with
  | v1 => exact legacyPackages_apart _
  | v2 packages =>
    have hsame : (upgradedRow claudeHome context installation (.v2 packages)
        skillPathClaims).skillPackages = packages := List.append_nil packages
    rw [hsame]
    exact h

/-- **The upgraded row is valid exactly when documents come first.** -/
theorem valid_upgradedRow_iff (h : LegacyOk claudeHome installationKey installation version)
    {skillPathClaims : Dict String String}
    (hclaims : ∀ filePath runtime, skillPathClaims.get? filePath = some runtime →
      runtime ∈ version.packages.map InstalledSkillPackage.runtime) :
    Valid (upgradedRow claudeHome
        (legacyScopeAndRoot installationKey installation.scope installation.projectPath)
        installation version skillPathClaims)
      ↔ DocumentsFirst claudeHome installationKey installation version := by
  generalize hrow : upgradedRow claudeHome
    (legacyScopeAndRoot installationKey installation.scope installation.projectPath)
    installation version skillPathClaims = row
  have hpaths : row.files.map InstalledFile.targetPath = targetPaths installation :=
    hrow ▸ upgradedRow_targetPaths _ _
  have hlossless : Lossless installation version row :=
    hrow ▸ lossless_upgradedRow claudeHome installation _ hclaims
  have howners := upgradedRow_owners claudeHome installation
    (legacyScopeAndRoot installationKey installation.scope installation.projectPath) hclaims
    h.runtimes
  have hidentities : row.settingsEntries.map InstalledSettingsEntry.identity
      = installation.settingsEntries.map fun entry => (entry.keyPath, entry.stableId) :=
    hrow ▸ upgradedRow_identities _ _
  have hapart : row.skillPackages.Pairwise Apart :=
    hrow ▸ upgradedRow_apart _ h.packages_apart _
  simp only [hrow] at howners
  have hskills : (v1SkillClaims claudeHome
      (legacyScopeAndRoot installationKey installation.scope installation.projectPath)
      installation version).isEmpty = false →
        ⟨InstallModule.skills.value, claudeCodeRuntime⟩ ∈ row.moduleOwners := by
    intro hclaimed
    rw [← hrow]
    refine mem_sortedSet.mpr ?_
    simp [legacyOwners, hclaimed]
  have hpackages : row.skillPackages = version.packages ++ legacyPackages (v1SkillClaims claudeHome
      (legacyScopeAndRoot installationKey installation.scope installation.projectPath)
      installation version) := by
    rw [← hrow]
    rfl
  rw [← upgradedRow_packages_iff h hskills]
  constructor
  · intro hvalid package hpackage
    rw [← hpaths]
    exact hvalid.packages package (hpackages ▸ List.mem_append_right _ hpackage)
  · intro hok
    refine ⟨?_, howners.1, hpaths.symm ▸ h.files_distinct, hlossless.file_owners,
      hidentities.symm ▸ h.settings_distinct, hlossless.settings_owners, ?_, hapart, ?_, howners.2⟩
    · rw [← hrow]
      exact sortedSet_pairwise _
    · intro package hmem
      rw [hpaths]
      rw [hpackages] at hmem
      rcases List.mem_append.mp hmem with hold | hnew
      · refine { h.packages package hold with owned := ?_ }
        rw [← hrow]
        refine mem_sortedSet.mpr ?_
        have howner := List.mem_map_of_mem (f := InstalledSkillPackage.skillsOwner) hold
        simp only [legacyOwners, List.mem_append]
        exact Or.inl (Or.inl (Or.inl (Or.inl (Or.inr howner))))
      · exact hok package hnew
    · intro path hpath
      exact h.codex_nonblank path (hlossless.codex ▸ hpath)

/-- A legacy row that is as it should be is upgraded. -/
theorem upgradeInstallation_ok (h : LegacyOk claudeHome installationKey installation version) :
    ∃ row, upgradeInstallation claudeHome installation version installationKey = .ok row
      ∧ Lossless installation version row
      ∧ (Valid row ↔ DocumentsFirst claudeHome installationKey installation version) := by
  obtain ⟨skillPathClaims, hok, hclaims⟩ := claimSkillPaths_ok h
  have hmodules : installation.modulesEnabled.filter (· ∉ legacyModuleValues) = [] :=
    List.filter_eq_nil_iff.mpr fun name hname => by simpa using h.modules name hname
  refine ⟨_, ?_, lossless_upgradedRow claudeHome installation _ hclaims,
    valid_upgradedRow_iff h hclaims⟩
  rw [upgradeInstallation, hmodules, hok]
  rfl

/-! ## 9. Legacy manifests -/

/-- The manifest is upgraded to a valid one that loses nothing. -/
def ManifestUpgraded (claudeHome : PosixPath) (legacy : LegacyManifest V) : Prop :=
  ∃ upgraded, upgradeManifest claudeHome legacy = .ok upgraded
    ∧ validateCurrentManifest upgraded = .ok ()
    ∧ List.Forall₂ (fun entry row => row.1 = entry.1 ∧ Lossless entry.2.1 entry.2.2 row.2)
      legacy.entries upgraded

/-- Rows are upgraded one by one. -/
theorem upgrade_rows : ∀ {entries : List (String × LegacyInstallation V × LegacyVersion)},
    (∀ entry ∈ entries, LegacyOk claudeHome entry.1 entry.2.1 entry.2.2) →
    ∃ upgraded, (entries.mapM fun (key, installation, version) =>
        (upgradeInstallation claudeHome installation version key).map fun row => (key, row))
          = .ok upgraded
      ∧ List.Forall₂ (fun entry row => row.1 = entry.1 ∧ Lossless entry.2.1 entry.2.2 row.2)
        entries upgraded
      ∧ ((∀ row ∈ upgraded, Valid row.2)
        ↔ ∀ entry ∈ entries, DocumentsFirst claudeHome entry.1 entry.2.1 entry.2.2)
  | [], _ => ⟨[], rfl, List.Forall₂.nil, by simp⟩
  | (key, installation, version) :: rest, h => by
      obtain ⟨row, hrow, hlossless, hvalid⟩ := upgradeInstallation_ok (h _ List.mem_cons_self)
      obtain ⟨rows, hrows, hall, hvalids⟩ :=
        upgrade_rows fun entry hentry => h entry (List.mem_cons_of_mem _ hentry)
      refine ⟨(key, row) :: rows, ?_, List.Forall₂.cons ⟨rfl, hlossless⟩ hall, ?_⟩
      · rw [List.mapM_cons, hrows]
        simp only [hrow]
        rfl
      · rw [List.forall_mem_cons, List.forall_mem_cons, hvalid, hvalids]

/-- **Legacy upgrade.** Of well-formed rows the upgrade is valid and loses
nothing exactly when every skill is found by its own document. -/
theorem legacy_upgrade_iff {legacy : LegacyManifest V}
    (h : ∀ entry ∈ legacy.entries, LegacyOk claudeHome entry.1 entry.2.1 entry.2.2) :
    ManifestUpgraded claudeHome legacy
      ↔ ∀ entry ∈ legacy.entries, DocumentsFirst claudeHome entry.1 entry.2.1 entry.2.2 := by
  obtain ⟨rows, hrows, hall, hvalid⟩ := upgrade_rows h
  rw [← hvalid]
  constructor
  · rintro ⟨upgraded, hupgraded, haccepted, -⟩
    have hsame : rows = upgraded := Except.ok.inj (hrows.symm.trans hupgraded)
    rw [hsame]
    exact validateCurrentManifest_eq_ok.mp haccepted
  · intro hrowsValid
    exact ⟨rows, hrows, validateCurrentManifest_eq_ok.mpr hrowsValid, hall⟩

end

/-! ## 10. A nested document -/

def exampleHome : PosixPath := pathOf "/h/.claude"

def topDocument : String := "/h/.claude/skills/x/SKILL.md"

def nestedDocument : String := "/h/.claude/skills/x/a/SKILL.md"

/-- A version 1 row of one skill, with these files. -/
def skillRow (filePaths : List String) : LegacyInstallation Unit where
  scope := "user"
  mode := "copy"
  profile := "standard"
  projectPath := none
  modulesEnabled := ["skills"]
  files := filePaths.map fun filePath => ⟨filePath, "s", "c", "copy", "t"⟩
  settingsEntries := []
  settingsBackupPath := none
  codexConfigPath := none
  codexCommands := []
  installedAt := "t"
  updatedAt := "t"

def skillManifest (filePaths : List String) : LegacyManifest Unit :=
  .v1 [("user", skillRow filePaths)]

theorem topDocument_relative : (pathOf topDocument).relativeTo (moduleRoot exampleHome .skills)
    = some ["x".toList, skillDocumentName] := by decide

theorem nestedDocument_relative :
    (pathOf nestedDocument).relativeTo (moduleRoot exampleHome .skills)
      = some ["x".toList, "a".toList, skillDocumentName] := by decide

theorem skillManifest_ok {filePaths : List String} (hnodup : filePaths.Nodup)
    (htop : topDocument ∈ filePaths)
    (hpaths : ∀ filePath ∈ filePaths, filePath = topDocument ∨ filePath = nestedDocument) :
    ∀ entry ∈ (skillManifest filePaths).entries,
      LegacyOk exampleHome entry.1 entry.2.1 entry.2.2 := by
  intro entry hentry
  obtain rfl : entry = ("user", skillRow filePaths, .v1) := List.mem_singleton.mp hentry
  have htargets : targetPaths (skillRow filePaths) = filePaths := by
    rw [targetPaths, skillRow, List.map_map]
    exact List.map_id'' (fun _ => rfl) filePaths
  refine ⟨?_, htargets.symm ▸ hnodup, List.nodup_nil, ?_, ?_, ?_, List.Pairwise.nil, ?_⟩
  · intro name hname
    rw [List.mem_singleton.mp hname]
    decide
  · rintro path ⟨⟩
  · rintro package ⟨⟩
  · rintro package ⟨⟩
  · intro skillsRoot hroot
    rw [htargets]
    obtain rfl : moduleRoot exampleHome .skills = skillsRoot := Option.some.inj hroot
    constructor
    · intro filePath hmem skill rest hrelative
      rcases hpaths filePath hmem with rfl | rfl
      · rw [topDocument_relative] at hrelative
        cases hrelative
        decide
      · rw [nestedDocument_relative] at hrelative
        cases hrelative
        decide
    · intro filePath hmem skill hskill
      refine ⟨topDocument, htop, ?_⟩
      obtain ⟨part, rest, hrelative⟩ := legacySkillOf_eq_some.mp hskill
      have hfirst : "x".toList = skill.toList := by
        rcases hpaths filePath hmem with rfl | rfl
        · rw [topDocument_relative] at hrelative
          exact (List.cons.inj (Option.some.inj hrelative)).1
        · rw [nestedDocument_relative] at hrelative
          exact (List.cons.inj (Option.some.inj hrelative)).1
      rw [IsDocumentOf, topDocument_relative, hfirst]

theorem legacy_upgrade_iff_top :
    ManifestUpgraded exampleHome (skillManifest [topDocument, nestedDocument]) := by
  refine (legacy_upgrade_iff (skillManifest_ok (by decide) (by decide) (by simp))).mpr ?_
  intro entry hentry skillsRoot hroot filePath hmem skill hskill
  obtain rfl : entry = ("user", skillRow [topDocument, nestedDocument], .v1) :=
    List.mem_singleton.mp hentry
  obtain rfl : moduleRoot exampleHome .skills = skillsRoot := Option.some.inj hroot
  have hfound : ∀ filePath ∈ [topDocument, nestedDocument],
      legacySkillOf (moduleRoot exampleHome .skills) filePath = some "x" := by decide
  obtain rfl : "x" = skill := Option.some.inj ((hfound filePath hmem).symm.trans hskill)
  exact ⟨by decide, ⟨topDocument, by decide, topDocument_relative⟩, topDocument, by decide,
    topDocument_relative, by decide⟩

/-- With the nested file first the package is the nested directory: the
document of the skill is outside, and the manifest is refused. -/
theorem nested_document_first :
    (∀ entry ∈ (skillManifest [nestedDocument, topDocument]).entries,
      LegacyOk exampleHome entry.1 entry.2.1 entry.2.2)
    ∧ (∃ row, upgradeManifest exampleHome (skillManifest [nestedDocument, topDocument])
        = .ok [("user", row)] ∧ validateCurrentManifest [("user", row)]
        = .error ("user", .fileOutside ("claude_code", "x") topDocument))
    ∧ ¬ ManifestUpgraded exampleHome (skillManifest [nestedDocument, topDocument]) := by
  have hrefused : ∃ row, upgradeManifest exampleHome (skillManifest [nestedDocument, topDocument])
      = .ok [("user", row)] ∧ validateCurrentManifest [("user", row)]
      = .error ("user", .fileOutside ("claude_code", "x") topDocument) :=
    ⟨_, rfl, by decide⟩
  refine ⟨skillManifest_ok (by decide) (by decide) (by simp), hrefused, ?_⟩
  rintro ⟨upgraded, hupgraded, haccepted, -⟩
  obtain ⟨row, hrow, herror⟩ := hrefused
  have hsame := Except.ok.inj (hrow.symm.trans hupgraded)
  rw [← hsame, herror] at haccepted
  cases haccepted

end MultiForge.Install
