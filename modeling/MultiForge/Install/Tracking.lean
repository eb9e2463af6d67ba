/-
MultiForge.Install.Tracking — installation rows and their invariants.

A row of `installed.json` says which modules a runtime owns, and names an
owner for every file, settings entry and skill package.
`validateInstallation` is the loop body of `_validate_current_manifest`
with its checks in their order; what it accepts is `Valid`
(`validateInstallation_eq_ok`). Violations are told apart by kind and by
what they are about; their wording is left out.
-/
import MultiForge.Lib.LineEnds
import MultiForge.Lib.PosixPath
import MultiForge.Lib.SortedSet
import Mathlib.Data.Prod.Lex
import Mathlib.Data.String.Basic

namespace MultiForge.Install

/-! ## 1. Modules and runtimes -/

def claudeCodeRuntime : String := "claude_code"

def codexRuntime : String := "codex"

def agentRuntimeIds : List String := [claudeCodeRuntime, codexRuntime]

inductive InstallModule where
  | commands
  | agents
  | skills
  | hooks
  | statusline
  | permissions
  deriving DecidableEq, Repr

namespace InstallModule

def value : InstallModule → String
  | commands => "commands"
  | agents => "agents"
  | skills => "skills"
  | hooks => "hooks"
  | statusline => "status-line"
  | permissions => "permissions"

def all : List InstallModule := [commands, agents, skills, hooks, statusline, permissions]

/-- `InstallModule(value)` -/
def ofValue? (value : String) : Option InstallModule := all.find? (·.value = value)

end InstallModule

/-- `MODULE_RUNTIME_OWNERS` -/
def moduleRuntimeOwners : InstallModule → List String
  | .commands => [claudeCodeRuntime]
  | .agents => [claudeCodeRuntime]
  | .skills => agentRuntimeIds
  | .hooks => agentRuntimeIds
  | .statusline => [claudeCodeRuntime]
  | .permissions => [claudeCodeRuntime]

structure ModuleOwner where
  module : String
  runtime : String
  deriving DecidableEq, Repr

/-- Owners are ordered by module, then by runtime. -/
instance : LinearOrder ModuleOwner :=
  LinearOrder.lift' (fun owner => toLex (owner.module, owner.runtime)) fun a b h => by
    cases a
    cases b
    have heq := Prod.mk.inj (toLex.injective h)
    simp only [ModuleOwner.mk.injEq]
    exact heq

inductive SurfaceAttribution where
  | owner (owner : ModuleOwner)
  | unattributed (reason : String)
  deriving DecidableEq, Repr

def legacyUnattributedReasons : List String :=
  ["legacy_path_unmapped", "legacy_key_unmapped", "legacy_v1_unprovable"]

/-- `attributed` -/
def attributed (module : InstallModule) (runtime : String) : SurfaceAttribution :=
  .owner ⟨module.value, runtime⟩

/-- `attribution_pair` -/
def attributionPair : SurfaceAttribution → Option ModuleOwner
  | .owner owner => some owner
  | .unattributed _ => none

/-! ## 2. Rows -/

structure InstalledFile where
  targetPath : String
  sourcePath : String
  checksum : String
  mode : String
  installedAt : String
  attribution : SurfaceAttribution
  deriving DecidableEq, Repr

/-- A settings entry; its value is passed along only. -/
structure InstalledSettingsEntry (V : Type) where
  keyPath : String
  value : V
  mergeType : String
  stableId : String
  attribution : SurfaceAttribution
  deriving DecidableEq, Repr

structure InstalledSkillPackage where
  runtime : String
  skill : String
  targetDir : String
  filePaths : List String
  deriving DecidableEq, Repr

structure Installation (V : Type) where
  scope : String
  mode : String
  profile : String
  projectPath : Option String
  moduleOwners : List ModuleOwner
  files : List InstalledFile
  skillPackages : List InstalledSkillPackage
  settingsEntries : List (InstalledSettingsEntry V)
  settingsBackupPath : Option String
  codexConfigPath : Option String
  codexCommands : List String
  installedAt : String
  updatedAt : String
  deriving DecidableEq, Repr

/-- `Path(text)` -/
def pathOf (text : String) : PosixPath := PosixPath.parse text.toList

/-- `str(path)` -/
def pathText (path : PosixPath) : String := String.ofList path.str

@[simp] theorem pathOf_pathText (path : PosixPath) : pathOf (pathText path) = path := by
  rw [pathOf, pathText, String.toList_ofList, PosixPath.parse_str]

def skillDocumentName : List Char := "SKILL.md".toList

theorem isComponent_skillDocument : IsComponent skillDocumentName := by decide

namespace InstalledSkillPackage

/-- `(package.runtime, package.skill)` -/
def key (package : InstalledSkillPackage) : String × String := (package.runtime, package.skill)

/-- `str(Path(package.target_dir) / "SKILL.md")` -/
def skillDocument (package : InstalledSkillPackage) : String :=
  pathText ((pathOf package.targetDir).child skillDocumentName isComponent_skillDocument)

/-- The owner that a package needs. -/
def skillsOwner (package : InstalledSkillPackage) : ModuleOwner :=
  ⟨InstallModule.skills.value, package.runtime⟩

end InstalledSkillPackage

def InstalledSettingsEntry.identity {V : Type} (entry : InstalledSettingsEntry V) :
    String × String := (entry.keyPath, entry.stableId)

def hooksCodexOwner : ModuleOwner := ⟨InstallModule.hooks.value, codexRuntime⟩

/-! ## 3. Validation -/

/-- What the validator finds wrong. -/
inductive Violation where
  | ownersNotSorted
  | unknownModule (value : String)
  | runtimeOfModule (owner : ModuleOwner)
  | duplicateFile (targetPath : String)
  | duplicateSettings (identity : String × String)
  | attributionUnowned (owner : ModuleOwner)
  | unknownReason (reason : String)
  | duplicatePackage (key : String × String)
  | packageUnowned (key : String × String)
  | targetDirNotAbsolute (key : String × String)
  | noFilePaths (key : String × String)
  | filePathsNotSorted (key : String × String)
  | documentNotTracked (key : String × String) (document : String)
  | fileNotAbsolute (key : String × String) (filePath : String)
  | fileOutside (key : String × String) (filePath : String)
  | invalidFile (key : String × String) (filePath : String)
  | notBacked (key : String × String) (filePaths : List String)
  | reusedPaths (key : String × String) (filePaths : List String)
  | blankCodexPath
  | codexOwner
  deriving DecidableEq, Repr

/-- Raise a violation unless the condition holds. -/
def require (condition : Prop) [Decidable condition] (violation : Violation) :
    Except Violation Unit :=
  if condition then .ok () else .error violation

variable {V : Type}

def checkOwner (owner : ModuleOwner) : Except Violation Unit :=
  match InstallModule.ofValue? owner.module with
  | none => .error (.unknownModule owner.module)
  | some module => require (owner.runtime ∈ moduleRuntimeOwners module) (.runtimeOfModule owner)

/-- Do one check for each row, up to the first violation. -/
def checkEach {ρ : Type} (check : ρ → Except Violation Unit) : List ρ → Except Violation Unit
  | [] => .ok ()
  | row :: rows => do
      check row
      checkEach check rows

/-- `_validate_attribution` -/
def checkAttribution (owners : List ModuleOwner) : SurfaceAttribution → Except Violation Unit
  | .owner owner => require (owner ∈ owners) (.attributionUnowned owner)
  | .unattributed reason => require (reason ∈ legacyUnattributedReasons) (.unknownReason reason)

/-- The loop over ledger rows: no identity twice, and a valid attribution
for each. -/
def checkRows {ρ κ : Type} [DecidableEq κ] (identity : ρ → κ) (duplicate : κ → Violation)
    (attribution : ρ → SurfaceAttribution) (owners : List ModuleOwner) (seen : List κ) :
    List ρ → Except Violation Unit
  | [] => .ok ()
  | row :: rows => do
      require (identity row ∉ seen) (duplicate (identity row))
      checkAttribution owners (attribution row)
      checkRows identity duplicate attribution owners (identity row :: seen) rows

/-- One path of a package. -/
def checkFilePath (package : InstalledSkillPackage) (filePath : String) :
    Except Violation Unit := do
  require ((pathOf filePath).isAbsolute = true) (.fileNotAbsolute package.key filePath)
  match (pathOf filePath).relativeTo (pathOf package.targetDir) with
  | none => .error (.fileOutside package.key filePath)
  | some parts => require (parts ≠ [] ∧ "..".toList ∉ parts) (.invalidFile package.key filePath)

/-- The checks of one package, given the tracked paths and those that
earlier packages claim. -/
def checkPackage (owners : List ModuleOwner) (tracked claimed : List String)
    (package : InstalledSkillPackage) : Except Violation Unit := do
  require (package.skillsOwner ∈ owners) (.packageUnowned package.key)
  require ((pathOf package.targetDir).isAbsolute = true) (.targetDirNotAbsolute package.key)
  require (package.filePaths ≠ []) (.noFilePaths package.key)
  require (package.filePaths = sortedSet package.filePaths) (.filePathsNotSorted package.key)
  require (package.skillDocument ∈ package.filePaths)
    (.documentNotTracked package.key package.skillDocument)
  checkEach (checkFilePath package) package.filePaths
  require (∀ filePath ∈ package.filePaths, filePath ∈ tracked)
    (.notBacked package.key (package.filePaths.filter (· ∉ tracked)))
  require (∀ filePath ∈ package.filePaths, filePath ∉ claimed)
    (.reusedPaths package.key (package.filePaths.filter (· ∈ claimed)))

/-- The loop over packages. -/
def checkPackages (owners : List ModuleOwner) (tracked : List String)
    (keys : List (String × String)) (claimed : List String) :
    List InstalledSkillPackage → Except Violation Unit
  | [] => .ok ()
  | package :: packages => do
      require (package.key ∉ keys) (.duplicatePackage package.key)
      checkPackage owners tracked claimed package
      checkPackages owners tracked (package.key :: keys) (package.filePaths ++ claimed) packages

/-- The checks of one installation. -/
def validateInstallation (installation : Installation V) : Except Violation Unit := do
  require (installation.moduleOwners = sortedSet installation.moduleOwners) .ownersNotSorted
  checkEach checkOwner installation.moduleOwners
  checkRows InstalledFile.targetPath .duplicateFile InstalledFile.attribution
    installation.moduleOwners [] installation.files
  checkRows InstalledSettingsEntry.identity .duplicateSettings InstalledSettingsEntry.attribution
    installation.moduleOwners [] installation.settingsEntries
  checkPackages installation.moduleOwners (installation.files.map InstalledFile.targetPath) [] []
    installation.skillPackages
  require (∀ path, installation.codexConfigPath = some path → Lines.isBlank path.toList = false)
    .blankCodexPath
  require (hooksCodexOwner ∈ installation.moduleOwners ↔ installation.codexConfigPath.isSome = true)
    .codexOwner

/-- `_validate_current_manifest`: a violation with the key of its
installation. -/
def validateCurrentManifest (installations : List (String × Installation V)) :
    Except (String × Violation) Unit :=
  match installations with
  | [] => .ok ()
  | (installationKey, installation) :: rest =>
      match validateInstallation installation with
      | .error violation => .error (installationKey, violation)
      | .ok () => validateCurrentManifest rest

/-! ## 4. What is valid -/

/-- A module that exists, with a runtime that may own it. -/
def OwnerOk (owner : ModuleOwner) : Prop :=
  ∃ module, InstallModule.ofValue? owner.module = some module
    ∧ owner.runtime ∈ moduleRuntimeOwners module

/-- An owner of the installation, or a known reason. -/
def AttributionOk (owners : List ModuleOwner) : SurfaceAttribution → Prop
  | .owner owner => owner ∈ owners
  | .unattributed reason => reason ∈ legacyUnattributedReasons

/-- An absolute path below the package's directory. -/
def PathInside (package : InstalledSkillPackage) (filePath : String) : Prop :=
  (pathOf filePath).isAbsolute = true
    ∧ ∃ parts, (pathOf filePath).relativeTo (pathOf package.targetDir) = some parts
      ∧ parts ≠ [] ∧ "..".toList ∉ parts

/-- A package of an installation with these owners and tracked paths. -/
structure PackageOk (owners : List ModuleOwner) (tracked : List String)
    (package : InstalledSkillPackage) : Prop where
  owned : package.skillsOwner ∈ owners
  absolute : (pathOf package.targetDir).isAbsolute = true
  nonempty : package.filePaths ≠ []
  sorted : package.filePaths.Pairwise (· < ·)
  document : package.skillDocument ∈ package.filePaths
  inside : ∀ filePath ∈ package.filePaths, PathInside package filePath
  backed : ∀ filePath ∈ package.filePaths, filePath ∈ tracked

/-- Packages with different keys and no path in common. -/
def Apart (package package' : InstalledSkillPackage) : Prop :=
  package.key ≠ package'.key ∧ ∀ filePath ∈ package.filePaths, filePath ∉ package'.filePaths

/-- **The invariant of an installation row.** -/
structure Valid (installation : Installation V) : Prop where
  owners_sorted : installation.moduleOwners.Pairwise (· < ·)
  owners : ∀ owner ∈ installation.moduleOwners, OwnerOk owner
  files_distinct : (installation.files.map InstalledFile.targetPath).Nodup
  files : ∀ file ∈ installation.files, AttributionOk installation.moduleOwners file.attribution
  settings_distinct : (installation.settingsEntries.map InstalledSettingsEntry.identity).Nodup
  settings : ∀ entry ∈ installation.settingsEntries,
    AttributionOk installation.moduleOwners entry.attribution
  packages : ∀ package ∈ installation.skillPackages, PackageOk installation.moduleOwners
    (installation.files.map InstalledFile.targetPath) package
  packages_apart : installation.skillPackages.Pairwise Apart
  codex_nonblank : ∀ path, installation.codexConfigPath = some path →
    Lines.isBlank path.toList = false
  codex_owner : hooksCodexOwner ∈ installation.moduleOwners
    ↔ installation.codexConfigPath.isSome = true

@[simp] theorem require_eq_ok {condition : Prop} [Decidable condition] {violation : Violation}
    {u : Unit} : require condition violation = .ok u ↔ condition := by
  unfold require
  split <;> simp_all

@[simp] theorem check_bind_eq_ok {first : Except Violation Unit}
    {next : Unit → Except Violation Unit} {u : Unit} :
    (first >>= next) = .ok u ↔ first = .ok () ∧ next () = .ok u := by
  cases first with
  | error violation => simp [bind, Except.bind]
  | ok _ => simp [bind, Except.bind]

theorem checkEach_eq_ok {ρ : Type} {check : ρ → Except Violation Unit} : ∀ {rows : List ρ},
    checkEach check rows = .ok () ↔ ∀ row ∈ rows, check row = .ok ()
  | [] => by simp [checkEach]
  | row :: rows => by simp [checkEach, checkEach_eq_ok]

theorem checkOwner_eq_ok {owner : ModuleOwner} : checkOwner owner = .ok () ↔ OwnerOk owner := by
  unfold checkOwner OwnerOk
  cases InstallModule.ofValue? owner.module with
  | none => simp
  | some module => simp

theorem checkAttribution_eq_ok {owners : List ModuleOwner} {attribution : SurfaceAttribution} :
    checkAttribution owners attribution = .ok () ↔ AttributionOk owners attribution := by
  cases attribution with
  | owner owner => simp [checkAttribution, AttributionOk]
  | unattributed reason => simp [checkAttribution, AttributionOk]

theorem checkRows_eq_ok {ρ κ : Type} [DecidableEq κ] {identity : ρ → κ} {duplicate : κ → Violation}
    {attribution : ρ → SurfaceAttribution} {owners : List ModuleOwner} :
    ∀ {rows : List ρ} {seen : List κ},
    checkRows identity duplicate attribution owners seen rows = .ok ()
      ↔ (rows.map identity).Nodup ∧ (∀ row ∈ rows, identity row ∉ seen)
        ∧ ∀ row ∈ rows, AttributionOk owners (attribution row)
  | [], seen => by simp [checkRows]
  | row :: rows, seen => by
      rw [checkRows, check_bind_eq_ok, check_bind_eq_ok, require_eq_ok, checkAttribution_eq_ok,
        checkRows_eq_ok, List.map_cons, List.nodup_cons, List.forall_mem_cons,
        List.forall_mem_cons]
      constructor
      · rintro ⟨hseen, hrow, hnodup, hnew, hrows⟩
        refine ⟨⟨?_, hnodup⟩, ⟨hseen, ?_⟩, hrow, hrows⟩
        · intro hmem
          obtain ⟨other, hother, heq⟩ := List.mem_map.mp hmem
          exact hnew other hother (heq ▸ List.mem_cons_self)
        · exact fun other hother hmem => hnew other hother (List.mem_cons_of_mem _ hmem)
      · rintro ⟨⟨hfresh, hnodup⟩, ⟨hseen, hrest⟩, hrow, hrows⟩
        refine ⟨hseen, hrow, hnodup, ?_, hrows⟩
        intro other hother hmem
        rcases List.mem_cons.mp hmem with heq | hmem
        · exact hfresh (heq ▸ List.mem_map_of_mem hother)
        · exact hrest other hother hmem

theorem checkFilePath_eq_ok {package : InstalledSkillPackage} {filePath : String} :
    checkFilePath package filePath = .ok () ↔ PathInside package filePath := by
  rw [checkFilePath, check_bind_eq_ok, require_eq_ok, PathInside]
  cases (pathOf filePath).relativeTo (pathOf package.targetDir) with
  | none => simp
  | some parts => simp

theorem checkPackage_eq_ok {owners : List ModuleOwner} {tracked claimed : List String}
    {package : InstalledSkillPackage} : checkPackage owners tracked claimed package = .ok ()
      ↔ PackageOk owners tracked package ∧ ∀ filePath ∈ package.filePaths, filePath ∉ claimed := by
  unfold checkPackage
  simp only [check_bind_eq_ok, require_eq_ok, checkEach_eq_ok, checkFilePath_eq_ok,
    sortedSet_eq_self_iff]
  constructor
  · rintro ⟨howned, habsolute, hne, hsorted, hdocument, hinside, hbacked, hclaimed⟩
    exact ⟨⟨howned, habsolute, hne, hsorted, hdocument, hinside, hbacked⟩, hclaimed⟩
  · rintro ⟨⟨howned, habsolute, hne, hsorted, hdocument, hinside, hbacked⟩, hclaimed⟩
    exact ⟨howned, habsolute, hne, hsorted, hdocument, hinside, hbacked, hclaimed⟩

theorem checkPackages_eq_ok {owners : List ModuleOwner} {tracked : List String} :
    ∀ {packages : List InstalledSkillPackage} {keys : List (String × String)}
      {claimed : List String}, checkPackages owners tracked keys claimed packages = .ok ()
      ↔ (∀ package ∈ packages, PackageOk owners tracked package) ∧ packages.Pairwise Apart
        ∧ ∀ package ∈ packages, package.key ∉ keys
          ∧ ∀ filePath ∈ package.filePaths, filePath ∉ claimed
  | [], keys, claimed => by simp [checkPackages]
  | package :: packages, keys, claimed => by
      rw [checkPackages, check_bind_eq_ok, check_bind_eq_ok, require_eq_ok, checkPackage_eq_ok,
        checkPackages_eq_ok, List.forall_mem_cons, List.pairwise_cons, List.forall_mem_cons]
      constructor
      · rintro ⟨hkey, ⟨hok, hclaimed⟩, hrest, hapart, hnew⟩
        refine ⟨⟨hok, hrest⟩, ⟨?_, hapart⟩, ⟨hkey, hclaimed⟩, ?_⟩
        · intro other hother
          obtain ⟨hotherKey, hotherPaths⟩ := hnew other hother
          refine ⟨fun heq => hotherKey (heq ▸ List.mem_cons_self), ?_⟩
          exact fun filePath hmem hmem' =>
            hotherPaths filePath hmem' (List.mem_append_left _ hmem)
        · intro other hother
          obtain ⟨hotherKey, hotherPaths⟩ := hnew other hother
          exact ⟨fun hmem => hotherKey (List.mem_cons_of_mem _ hmem),
            fun filePath hmem hmem' => hotherPaths filePath hmem (List.mem_append_right _ hmem')⟩
      · rintro ⟨⟨hok, hrest⟩, ⟨hfirst, hapart⟩, ⟨hkey, hclaimed⟩, hold⟩
        refine ⟨hkey, ⟨hok, hclaimed⟩, hrest, hapart, ?_⟩
        intro other hother
        obtain ⟨hne, hpaths⟩ := hfirst other hother
        obtain ⟨hotherKey, hotherPaths⟩ := hold other hother
        refine ⟨?_, ?_⟩
        · intro hmem
          rcases List.mem_cons.mp hmem with heq | hmem
          · exact hne heq.symm
          · exact hotherKey hmem
        · intro filePath hmem hmem'
          rcases List.mem_append.mp hmem' with hmem' | hmem'
          · exact hpaths filePath hmem' hmem
          · exact hotherPaths filePath hmem hmem'

/-- **What the validator accepts.** -/
theorem validateInstallation_eq_ok {installation : Installation V} :
    validateInstallation installation = .ok () ↔ Valid installation := by
  unfold validateInstallation
  simp only [check_bind_eq_ok, require_eq_ok, checkEach_eq_ok, checkOwner_eq_ok, checkRows_eq_ok,
    checkPackages_eq_ok, sortedSet_eq_self_iff]
  constructor
  · rintro ⟨hsorted, howners, ⟨hfiles, -, hfile⟩, ⟨hsettings, -, hsetting⟩,
      ⟨hpackages, hapart, -⟩, hcodex, howner⟩
    exact ⟨hsorted, howners, hfiles, hfile, hsettings, hsetting, hpackages, hapart, hcodex, howner⟩
  · intro h
    exact ⟨h.owners_sorted, h.owners, ⟨h.files_distinct, by simp, h.files⟩,
      ⟨h.settings_distinct, by simp, h.settings⟩,
      ⟨h.packages, h.packages_apart, by simp⟩, h.codex_nonblank, h.codex_owner⟩

theorem validateCurrentManifest_eq_ok : ∀ {installations : List (String × Installation V)},
    validateCurrentManifest installations = .ok ()
      ↔ ∀ entry ∈ installations, Valid entry.2
  | [] => by simp [validateCurrentManifest]
  | (installationKey, installation) :: rest => by
      have hfirst := @validateInstallation_eq_ok V installation
      rw [validateCurrentManifest, List.forall_mem_cons, ← hfirst,
        ← @validateCurrentManifest_eq_ok rest]
      cases validateInstallation installation with
      | error violation => simp
      | ok _ => simp

end MultiForge.Install
