/-
MultiForge.Install.ApplyPlan — applying an install plan, with its rollback.

`init` applies a plan in stages: extension files, Claude settings, stale
files, the Codex configuration, the tracking row. Anything can fail on
the way: `InstallFaults` says which operation raises what. Some call sites
catch some exceptions and undo what was done (`catches`, `rollBack`); all
others leave the state as it is. A `Stop` is the point at which a run
raises.

Directories, file modes of extension files, backups of settings and log
lines are left out; paths with different texts are different files.
-/
import MultiForge.Install.CodexConfig
import MultiForge.Install.LegacyUpgrade
import MultiForge.Install.SettingsShapes
import MultiForge.Lib.Attempt

namespace MultiForge.Install.Apply

open Json

abbrev Bytes := List UInt8

variable {F : Type}

/-! ## 1. Plans and files -/

inductive InstallMode where
  | copy
  | symlink
  deriving DecidableEq, Repr

def InstallMode.value : InstallMode → String
  | copy => "copy"
  | symlink => "symlink"

inductive FileAction where
  | install
  | update
  | skip
  | conflict
  deriving DecidableEq, Repr

structure FilePlan where
  action : FileAction
  targetPath : String
  effectiveMode : InstallMode
  sourcePath : String
  module : InstallModule
  runtime : String
  deriving DecidableEq, Repr

structure SkillPackagePlan where
  runtime : String
  skill : String
  action : String
  targetDir : Option String
  cacheDir : Option String
  filePaths : List String
  reason : Option String
  deriving DecidableEq, Repr

inductive CodexAction where
  | install
  | update
  | skip
  | conflict
  | unavailable
  deriving DecidableEq, Repr

structure CodexPlan where
  action : CodexAction
  configPath : Option String
  deriving DecidableEq, Repr

/-- A plan; it lists every target once, since a source tree holds a path
once and the target directories of modules and packages are apart. -/
structure InstallPlan where
  preservedRuntimeIds : List String
  files : List FilePlan
  skillPackages : List SkillPackagePlan
  codex : Option CodexPlan
  targets_distinct : (files.map FilePlan.targetPath).Nodup

/-- `_InstallApplyInputs` -/
structure InstallInputs where
  plan : InstallPlan
  profile : String
  mode : InstallMode
  force : Bool
  /-- runtimes were selected explicitly -/
  explicitRuntimes : Bool
  modules : List InstallModule
  selectedRuntimes : List String
  claudeModules : List InstallModule

/-- What is at a target path. -/
inductive Node where
  | copy (content : Bytes)
  | link (target : String)
  deriving DecidableEq

/-- The installer and what it reads besides its targets. -/
structure Installer (F : Type) where
  scope : InstallScope
  projectPath : Option String
  source : String → Bytes
  checksum : Bytes → String
  /-- `Path.resolve`, on path texts -/
  resolve : String → String
  /-- `known_legacy_hook_shape(event, entry) is not None` -/
  legacyHook : String → Json F → Bool
  toml : CodexConfig.TomlParser F
  codexEntries : List CodexConfig.CodexHookEntry

namespace Installer

variable (installer : Installer F)

/-- What a write leaves at its target. -/
def installedNode (filePlan : FilePlan) : Node :=
  match filePlan.effectiveMode with
  | .copy => .copy (installer.source filePlan.sourcePath)
  | .symlink => .link filePlan.sourcePath

/-- `_installed_file_record` -/
def installedFileRecord (filePlan : FilePlan) (now : String) : InstalledFile where
  targetPath := filePlan.targetPath
  sourcePath := filePlan.sourcePath
  checksum := installer.checksum (installer.source filePlan.sourcePath)
  mode := filePlan.effectiveMode.value
  installedAt := now
  attribution := attributed filePlan.module filePlan.runtime

/-- `_is_forge_owned` -/
def isForgeOwned (found : Option Node) (record : InstalledFile) : Bool :=
  match found with
  | none => false
  | some (.link target) =>
      record.mode = InstallMode.symlink.value
        && installer.resolve target = installer.resolve record.sourcePath
  | some (.copy content) =>
      record.mode ≠ InstallMode.symlink.value && installer.checksum content = record.checksum

end Installer

/-! ## 2. The state of a run -/

/-- What an install can change; the tracking row is that of the
installer's scope and project. -/
structure World (F : Type) where
  files : String → Option Node
  settings : Option Bytes
  /-- the ownership sidecars, by path -/
  sidecars : String → Option Bytes
  /-- the bytes and the mode of the Codex configuration -/
  codex : Option (Bytes × Nat)
  tracking : Option (Installation (Json F))

def World.setFile (world : World F) (path : String) (node : Option Node) : World F :=
  { world with files := fun other => if other = path then node else world.files other }

def World.setSidecar (world : World F) (path : String) (content : Bytes) : World F :=
  { world with
    sidecars := fun other => if other = path then some content else world.sidecars other }

structure SettingsRollbackState where
  settingsContent : Option Bytes
  addedFiles : String → Option Bytes

structure CodexConfigRollbackState where
  original : Option (Bytes × Nat)
  appliedContent : Bytes
  appliedMode : Option Nat

/-- The exceptions, as far as `init` tells them apart. -/
inductive Exn where
  /-- `OSError` -/
  | os
  /-- `PathBoundaryViolationError` -/
  | boundary
  /-- `StateError` -/
  | state
  | other
  deriving DecidableEq, Repr

/-- The calls of the stages that can raise. -/
inductive Site where
  | packageCheck
  | targetCheck
  | writeFile
  | refreshRecord
  | settingsPath
  | prepareSettings
  | mergeSettings
  | writeSettings
  | addedStructure
  | saveAdded
  | staleCheck
  | staleUnlink
  | applyCodex
  | verifyCodex
  | commit
  deriving DecidableEq, Repr

/-- The exceptions that a call site hands to `_raise_post_file_failure`. -/
def catches : Site → Exn → Bool
  | .packageCheck, .boundary => true
  | .writeFile, .os => true
  | .refreshRecord, .os => true
  | .prepareSettings, .os => true
  | .writeSettings, .os => true
  | .saveAdded, .os => true
  | .staleUnlink, .os => true
  | .applyCodex, .os => true
  | .verifyCodex, .os => true
  | .commit, .os => true
  | .commit, .state => true
  | _, _ => false

/-- How far a run has come. -/
structure Progress (F : Type) where
  world : World F
  installedFiles : List InstalledFile := []
  newlyCreatedFiles : List InstalledFile := []
  settingsRollback : Option SettingsRollbackState := none
  codexRollback : Option CodexConfigRollbackState := none

/-- The point at which a run raises. -/
structure Stop (F : Type) where
  progress : Progress F
  site : Site
  exception : Exn
  /-- the write that failed -/
  failedWrite : Option FilePlan := none
  unrecordedTarget : Option String := none

/-- Raise at a site. -/
def Progress.stop (progress : Progress F) (site : Site) (exception : Exn) : Stop F :=
  { progress := progress, site := site, exception := exception }

/-! ## 3. Rolling back -/

section
variable (installer : Installer F)

/-- Unlink a created file that still is what was installed. -/
def removeCreated (world : World F) (record : InstalledFile) : World F :=
  if installer.isForgeOwned (world.files record.targetPath) record then
    world.setFile record.targetPath none
  else world

/-- `_rollback_newly_created_files` -/
def rollbackNewlyCreatedFiles (world : World F) (created : List InstalledFile)
    (unrecordedTarget : Option String) : World F :=
  let world := match unrecordedTarget with
    | none => world
    | some target => world.setFile target none
  created.reverse.foldl (removeCreated installer) world

/-- `restore_settings_rollback_state`, if there is a state: sidecars that
are new are unlinked, the others get their content back. -/
def restoreSettings (world : World F) (state : Option SettingsRollbackState) : World F :=
  { world with
    settings := (state.map SettingsRollbackState.settingsContent).getD world.settings
    sidecars := (state.map SettingsRollbackState.addedFiles).getD world.sidecars }

/-- Only what Forge wrote is replaced. -/
def restoredCodex (found : Option (Bytes × Nat)) (state : CodexConfigRollbackState) :
    Option (Bytes × Nat) :=
  match found with
  | none => none
  | some (content, mode) =>
      if some (content, mode) = state.original then found
      else if content ≠ state.appliedContent ∨ some mode ≠ state.appliedMode then found
      else state.original

/-- `restore_codex_config_rollback_state`, if there is a state. -/
def restoreCodex (world : World F) (state : Option CodexConfigRollbackState) : World F :=
  { world with codex := (state.map (restoredCodex world.codex)).getD world.codex }

/-- `_raise_post_file_failure` -/
def rollBack (stop : Stop F) : World F :=
  let world := rollbackNewlyCreatedFiles installer stop.progress.world
    stop.progress.newlyCreatedFiles stop.unrecordedTarget
  restoreCodex (restoreSettings world stop.progress.settingsRollback) stop.progress.codexRollback

/-- The world after the exception has left `init`. -/
def afterStop (stop : Stop F) : World F :=
  if catches stop.site stop.exception then rollBack installer stop else stop.progress.world

end

/-! ## 4. Faults -/

/-- What goes wrong with one planned file. -/
structure FileFaults where
  packageCheck : Option Exn := none
  targetCheck : Option Exn := none
  mkdir : Option Exn := none
  unlink : Option Exn := none
  /-- the exception, and what the write leaves at the target -/
  write : Option (Exn × Option Node) := none
  record : Option Exn := none

/-- What goes wrong during one install, and what the world answers. -/
structure InstallFaults (F : Type) where
  now : String
  backupPath : String
  addedPath : String
  file : String → FileFaults := fun _ => {}
  settingsPath : Option Exn := none
  captureSettings : Option Exn := none
  backupSettings : Option Exn := none
  readSettings : Option Exn := none
  /-- the settings of the preset -/
  template : Except Exn (Template F) := .ok {}
  writeSettings : Option Exn := none
  saveAdded : Option Exn := none
  /-- the boundary of a stale target, and whether it is within it -/
  staleBoundary : String → Option Exn := fun _ => none
  staleOwned : String → Option Exn := fun _ => none
  staleUnlink : String → Option Exn := fun _ => none
  codexApply : Option Exn := none
  codexWrite : Option Exn := none
  /-- `stat` fails after the write, and fails again in the handler -/
  codexStat : Bool := false
  codexStatAgain : Bool := false
  codexVerify : Option Exn := none
  commit : Option Exn := none

/-- Files under skill packages, which are checked before they are written. -/
def packageFilePaths (plan : InstallPlan) : List String :=
  (plan.skillPackages.filter (·.targetDir.isSome)).flatMap SkillPackagePlan.filePaths

section
variable (installer : Installer F) (inputs : InstallInputs) (faults : InstallFaults F)

/-! ## 5. Extension files -/

/-- `_execute_file`: the world with the file in place. -/
def executeFile (progress : Progress F) (filePlan : FilePlan) (targetExisted : Bool) :
    Except (Stop F) (World F) := do
  let target := filePlan.targetPath
  let raised (world : World F) (exception : Exn) : Stop F :=
    { progress := { progress with world := world }
      site := .writeFile
      exception := exception
      failedWrite := some filePlan
      unrecordedTarget := if targetExisted then none else some target }
  raiseIf (raised progress.world) (faults.file target).mkdir
  raiseIf (raised progress.world) (if targetExisted then (faults.file target).unlink else none)
  match (faults.file target).write with
  | some (exception, left) => .error (raised (progress.world.setFile target left) exception)
  | none =>
      let world := progress.world.setFile target (some (installer.installedNode filePlan))
      raiseIf (raised world) (faults.file target).record
      return world

/-- One pass of `_apply_install_files`. -/
def applyFile (existing : Option (Installation (Json F))) (progress : Progress F)
    (filePlan : FilePlan) : Except (Stop F) (Progress F) := do
  let target := filePlan.targetPath
  let record := installer.installedFileRecord filePlan faults.now
  raiseIf (progress.stop .packageCheck)
    (if target ∈ packageFilePaths inputs.plan then (faults.file target).packageCheck else none)
  match filePlan.action with
  | .conflict => return progress
  | .skip =>
      raiseIf (progress.stop .refreshRecord) (faults.file target).record
      let previous := (existing.map Installation.files).getD [] |>.find? (·.targetPath = target)
      return { progress with
        installedFiles := progress.installedFiles ++
          [{ record with installedAt := (previous.map InstalledFile.installedAt).getD faults.now }] }
  | _ =>
      raiseIf (progress.stop .targetCheck) (faults.file target).targetCheck
      let targetExisted := (progress.world.files target).isSome
      let world ← executeFile installer faults progress filePlan targetExisted
      return { progress with
        world := world
        installedFiles := progress.installedFiles ++ [record]
        newlyCreatedFiles := if targetExisted then progress.newlyCreatedFiles
          else progress.newlyCreatedFiles ++ [record] }

/-- `_apply_install_files` -/
def applyInstallFiles (existing : Option (Installation (Json F))) (progress : Progress F) :
    Except (Stop F) (Progress F) :=
  inputs.plan.files.foldlM (applyFile installer inputs faults existing) progress

/-! ## 6. Settings -/

/-- The modules whose settings are in Claude's settings file. -/
def settingsModules : List InstallModule := [.hooks, .statusline, .permissions]

def mergeOptions : MergeOptions where
  hooks := .hooks ∈ inputs.claudeModules
  statusLine := .statusline ∈ inputs.claudeModules
  permissions := .permissions ∈ inputs.claudeModules
  force := inputs.force

/-- Keys are equal when their parts are. -/
local instance lawfulBEqKey : LawfulBEq (String × String) := inferInstance

local instance lawfulBEqRegistration : LawfulBEq (List Char × CodexConfig.Identity) :=
  inferInstance

section
variable [PyFloatText F]

/-- `read_settings`: an empty object without a file, `none` for a file
that is not JSON text. -/
def readSettings : Option Bytes → Option (Json F)
  | none => some (.obj [])
  | some bytes => (CodexConfig.readText bytes).bind fun text => loads (String.ofList text)

/-- `write_settings` -/
def settingsBytes (settings : Json F) : Bytes := Utf8.encode (Shapes.settingsText settings)

/-- The merge of `_apply_install_settings`: the settings, the new entries
and the entries that were taken out before. -/
def mergedSettings (existing : Option (Installation (Json F))) (template : Template F)
    (settings : Json F) : Except Shapes.PyError (Json F × List (InstalledSettingsEntry (Json F))
      × List (InstalledSettingsEntry (Json F))) := do
  let user : Bool := installer.scope = .user && .hooks ∈ inputs.claudeModules
  let entries := (existing.map Installation.settingsEntries).getD []
  let old := if user then entries.filter fun entry => "hooks.".toList <+: entry.keyPath.toList
    else []
  let settings ← if old.isEmpty then .ok settings else Shapes.unmerge settings old
  let settings ← if user then Shapes.removeKnownLegacyHookEntries installer.legacyHook settings
    else .ok settings
  let merged ← Shapes.merge settings template (mergeOptions inputs)
  return (merged.1, merged.2, old)

/-- An exception of the interpreter is none that `init` knows. -/
def orOther {α : Type} (raised : Exn → Stop F) : Except Shapes.PyError α → Except (Stop F) α
  | .ok value => .ok value
  | .error _ => .error (raised .other)

/-- Save the ownership sidecar. -/
def saveAddedSettings (progress : Progress F) (entries : List (InstalledSettingsEntry (Json F))) :
    Except (Stop F) (Progress F) := do
  let added ← orOther (progress.stop .addedStructure) (Shapes.entriesToAddedStructure entries [])
  raiseIf (progress.stop .saveAdded) faults.saveAdded
  return { progress with
    world := progress.world.setSidecar faults.addedPath (settingsBytes (.obj added)) }

/-- `capture_settings_rollback_state` -/
def captureSettings (progress : Progress F) : Progress F :=
  { progress with
    settingsRollback := some ⟨progress.world.settings, progress.world.sidecars⟩ }

/-- The settings and the sidecar of an install with Claude settings. -/
def writeMergedSettings (existing : Option (Installation (Json F))) (progress : Progress F)
    (settings : Json F) : Except (Stop F) (Progress F × List (InstalledSettingsEntry (Json F))) := do
  let template ← match faults.template with
    | .ok template => .ok template
    | .error exception => .error (progress.stop .mergeSettings exception)
  let merged ← orOther (progress.stop .mergeSettings)
    (mergedSettings installer inputs existing template settings)
  raiseIf (progress.stop .writeSettings) faults.writeSettings
  let progress := { progress with
    world := { progress.world with settings := some (settingsBytes merged.1) } }
  let taken := (merged.2.1 ++ merged.2.2).map InstalledSettingsEntry.identity
  let carried := ((existing.map Installation.settingsEntries).getD []).filter (·.identity ∉ taken)
  let progress ← saveAddedSettings faults progress (merged.2.1 ++ carried)
  return (progress, merged.2.1 ++ carried)

/-- `_apply_install_settings`: the settings entries, and the backup if
there was a file. -/
def applyInstallSettings (existing : Option (Installation (Json F))) (progress : Progress F) :
    Except (Stop F) (Progress F × List (InstalledSettingsEntry (Json F)) × Option String) := do
  let kept := (existing.map Installation.settingsEntries).getD []
  if inputs.claudeModules.any (· ∈ settingsModules) then
    raiseIf (progress.stop .settingsPath) faults.settingsPath
    raiseIf (progress.stop .prepareSettings) faults.captureSettings
    let progress := captureSettings progress
    raiseIf (progress.stop .prepareSettings) faults.backupSettings
    raiseIf (progress.stop .prepareSettings) faults.readSettings
    match readSettings progress.world.settings with
    | none => .error (progress.stop .prepareSettings .other)
    | some settings =>
        let written ← writeMergedSettings installer inputs faults existing progress settings
        return (written.1, written.2, progress.world.settings.map fun _ => faults.backupPath)
  else if kept.isEmpty then return (progress, kept, none)
  else
    raiseIf (progress.stop .settingsPath) faults.settingsPath
    raiseIf (progress.stop .saveAdded) faults.captureSettings
    let progress ← saveAddedSettings faults (captureSettings progress) kept
    return (progress, kept, none)

end

/-! ## 7. Stale files -/

/-- The targets that are not stale. -/
def plannedTargets (existing : Option (Installation (Json F))) : List String :=
  inputs.plan.files.map FilePlan.targetPath
    ++ (inputs.plan.skillPackages.filter (·.reason = some "managed_runtime_preservation")).flatMap
      SkillPackagePlan.filePaths
    ++ (((existing.map Installation.files).getD []).filter fun record =>
      match record.attribution with
      | .unattributed _ => true
      | .owner owner =>
          inputs.explicitRuntimes && owner.runtime ∈ inputs.plan.preservedRuntimeIds).map
      InstalledFile.targetPath

/-- One pass over the tracked files. -/
def removeStale (existing : Option (Installation (Json F))) (progress : Progress F)
    (record : InstalledFile) : Except (Stop F) (Progress F) :=
  let target := record.targetPath
  if target ∈ plannedTargets inputs existing then .ok progress
  else
    match faults.staleBoundary target with
    | some .boundary => .ok progress
    | boundary => do
        raiseIf (progress.stop .staleCheck) boundary
        raiseIf (progress.stop .staleCheck) (faults.staleOwned target)
        if installer.isForgeOwned (progress.world.files target) record then
          raiseIf (progress.stop .staleUnlink) (faults.staleUnlink target)
          return { progress with world := progress.world.setFile target none }
        else return progress

/-- `_reconcile_install_stale_files`, with the final file rows. -/
def reconcileInstallStaleFiles (existing : Option (Installation (Json F)))
    (progress : Progress F) : Except (Stop F) (Progress F × List InstalledFile) := do
  let tracked := (existing.map Installation.files).getD []
  let progress ← tracked.foldlM (removeStale installer inputs faults existing) progress
  let installedPaths := progress.installedFiles.map InstalledFile.targetPath
  return (progress, progress.installedFiles ++ tracked.filter fun record =>
    record.targetPath ∉ installedPaths ∧ record.targetPath ∈ plannedTargets inputs existing)

/-! ## 8. The Codex configuration -/

/-- `read_codex_registration`: whether the block is there, and the
commands that are registered; `none` for a file that is not text. -/
def readCodexRegistration (file : CodexConfig.File) : Option (Bool × List String) :=
  match file with
  | none => some (false, [])
  | some bytes => (CodexConfig.readText bytes).map fun text =>
      let blockPresent := match CodexConfig.splitBlock text with
        | .block _ _ _ => true
        | _ => false
      let parsed := (installer.toml.parse text).getD []
      let ours := CodexConfig.codexExpectedRegistrationKeys installer.codexEntries
      let registered := ((CodexConfig.collectRegistrations parsed).map fun (event, command) =>
        (CodexConfig.codexRegistrationKey event.toList command.toList, command)).dedup
      (blockPresent,
        ((registered.filter (·.1 ∈ ours)).map Prod.snd).insertionSort (· ≤ ·))

def codexFile (world : World F) : CodexConfig.File := world.codex.map Prod.fst

/-- The write of `apply_codex_merge_transaction`; a new file gets the mode
of a temporary file. -/
def writeCodex (progress : Progress F) (content : Bytes) : Except (Stop F) (Progress F) :=
  let original := progress.world.codex
  let applied (mode : Option Nat) : Option CodexConfigRollbackState :=
    some ⟨original, content, if faults.codexStatAgain then none else mode⟩
  match faults.codexWrite with
  | some .os => .error ({ progress with
      codexRollback := applied (original.map Prod.snd) }.stop .applyCodex .os)
  | some exception => .error (progress.stop .applyCodex exception)
  | none =>
      let mode := (original.map Prod.snd).getD 0o600
      let world := { progress.world with codex := some (content, mode) }
      if faults.codexStat then
        .error ({ progress with world := world, codexRollback := applied (some mode) }.stop
          .applyCodex .os)
      else .ok { progress with
        world := world
        codexRollback := some ⟨original, content, some mode⟩ }

/-- The read-back of `_execute_codex`. -/
def verifyCodex (progress : Progress F) (configPath : String) :
    Except (Stop F) (Progress F × Option (Option String × List String)) := do
  raiseIf (progress.stop .verifyCodex) faults.codexVerify
  match readCodexRegistration installer (codexFile progress.world) with
  | none => .error (progress.stop .verifyCodex .other)
  | some (blockPresent, commands) =>
      return (progress, some (if blockPresent then (some configPath, commands) else (none, [])))

/-- The merge of `_execute_codex`; a conflict is no error, and there is
nothing to verify. -/
def mergeCodex (progress : Progress F) (configPath : String) :
    Except (Stop F) (Progress F × Option (Option String × List String)) := do
  raiseIf (progress.stop .applyCodex) faults.codexApply
  let file := codexFile progress.world
  match CodexConfig.applyCodexMerge installer.toml installer.codexEntries file with
  | .error .undecodable => .error (progress.stop .applyCodex .other)
  | .error _ => return (progress, none)
  | .ok merged =>
      match CodexConfig.planCodexMerge installer.toml installer.codexEntries file with
      | .ok .skip => verifyCodex installer faults progress configPath
      | _ => do
          let progress ← writeCodex faults progress (merged.getD [])
          verifyCodex installer faults progress configPath

/-- `_execute_codex` -/
def executeCodex (progress : Progress F) :
    Except (Stop F) (Progress F × Option (Option String × List String)) :=
  match inputs.plan.codex with
  | none => .ok (progress, none)
  | some codexPlan =>
      match codexPlan.configPath, codexPlan.action with
      | none, _ => .ok (progress, none)
      | some _, .unavailable => .ok (progress, none)
      | some _, .conflict => .ok (progress, none)
      | some configPath, .skip => verifyCodex installer faults progress configPath
      | some configPath, _ => mergeCodex installer faults progress configPath

/-! ## 9. The tracking row -/

/-- `has_claude_settings_baseline` -/
def hasClaudeSettingsBaseline (existing : Installation (Json F)) : Bool :=
  existing.settingsBackupPath.isSome || !existing.settingsEntries.isEmpty
    || settingsModules.any fun module => existing.moduleOwners.any fun owner =>
      owner.module = module.value && owner.runtime = claudeCodeRuntime

/-- The packages of the plan that the row lists. -/
def plannedPackages : List InstalledSkillPackage :=
  inputs.plan.skillPackages.filterMap fun package =>
    match package.targetDir with
    | none => none
    | some targetDir =>
        if (package.cacheDir.isSome ∨ package.reason = some "managed_runtime_preservation")
            ∧ package.action ∈ ["install", "update", "skip"] then
          some ⟨package.runtime, package.skill, targetDir, package.filePaths⟩
        else none

/-- `final_skill_packages` -/
def finalSkillPackages (existing : Option (Installation (Json F))) : List InstalledSkillPackage :=
  let planned := plannedPackages inputs
  planned ++ ((existing.map Installation.skillPackages).getD []).filter fun package =>
    package.runtime ∈ inputs.plan.preservedRuntimeIds
      ∧ package.key ∉ planned.map InstalledSkillPackage.key

/-- `module_owners` -/
def finalOwners (existing : Option (Installation (Json F))) (files : List InstalledFile)
    (entries : List (InstalledSettingsEntry (Json F))) (codexConfigPath : Option String) :
    List ModuleOwner :=
  let owners :=
    (inputs.modules.flatMap fun module =>
      ((moduleRuntimeOwners module).filter (· ∈ inputs.selectedRuntimes)).map
        (ModuleOwner.mk module.value)).filter (· ≠ hooksCodexOwner)
    ++ ((existing.map Installation.moduleOwners).getD []).filter
      (·.runtime ∈ inputs.plan.preservedRuntimeIds)
    ++ files.filterMap (attributionPair ·.attribution)
    ++ entries.filterMap (attributionPair ·.attribution)
    ++ (finalSkillPackages inputs existing).map InstalledSkillPackage.skillsOwner
  sortedSet (match codexConfigPath with
    | some _ => hooksCodexOwner :: owners
    | none => owners.filter (· ≠ hooksCodexOwner))

/-- `_assemble_installation` -/
def assembleInstallation (existing : Option (Installation (Json F))) (files : List InstalledFile)
    (entries : List (InstalledSettingsEntry (Json F))) (backupPath : Option String)
    (codex : Option String × List String) : Installation (Json F) where
  scope := installer.scope.value
  mode := inputs.mode.value
  profile := inputs.profile
  projectPath := installer.projectPath
  moduleOwners := finalOwners inputs existing files entries codex.1
  files := files
  skillPackages := finalSkillPackages inputs existing
  settingsEntries := entries
  settingsBackupPath := match existing with
    | some row => if hasClaudeSettingsBaseline row then row.settingsBackupPath else backupPath
    | none => backupPath
  codexConfigPath := codex.1
  codexCommands := codex.2
  installedAt := (existing.map Installation.installedAt).getD faults.now
  updatedAt := faults.now

/-- `set_installation`, which validates the row and writes it. -/
def setInstallation (progress : Progress F) (installation : Installation (Json F)) :
    Except (Stop F) (World F) := do
  raiseIf (progress.stop .commit) faults.commit
  match validateInstallation installation with
  | .error _ => .error (progress.stop .commit .state)
  | .ok _ => return { progress.world with tracking := some installation }

/-- `init` from the first extension file to the commit. -/
def applyPlan [PyFloatText F] (world : World F) : Except (Stop F) (World F) := do
  let existing := world.tracking
  let progress ← applyInstallFiles installer inputs faults existing { world := world }
  let settings ← applyInstallSettings installer inputs faults existing progress
  let stale ← reconcileInstallStaleFiles installer inputs faults existing settings.1
  let codex ← executeCodex installer inputs faults stale.1
  let tracked : Option String × List String := match codex.2 with
    | some tracked => tracked
    | none => (existing.bind Installation.codexConfigPath,
        (existing.map Installation.codexCommands).getD [])
  setInstallation faults codex.1
    (assembleInstallation installer inputs faults existing stale.2 settings.2.1 settings.2.2 tracked)

end

end MultiForge.Install.Apply
