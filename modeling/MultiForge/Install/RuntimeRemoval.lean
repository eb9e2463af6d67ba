/-
MultiForge.Install.RuntimeRemoval — removing the extensions of a runtime.

A plan selects the rows that the chosen runtimes own and says which row
remains; the executor unlinks the selected files, `SKILL.md` files last,
and after a fault builds the row for what is left. That row is always
valid. The planned one is exactly when no package that stays loses a file
(`runtime_removal_sound_iff`): the validator does not compare the owner of
a package's files with the package's runtime.

Settings and the Codex block enter as the faults of their stages.
-/
import MultiForge.Install.Tracking

namespace MultiForge.Install

variable {V : Type}

/-! ## 1. The plan -/

section
variable (installation : Installation V) (runtimeIds : List String)

def selectedRuntimeIds : List String := agentRuntimeIds.filter (· ∈ runtimeIds)

/-- The pairs that the selected runtimes may own. -/
def eligiblePairs : List ModuleOwner :=
  InstallModule.all.flatMap fun module =>
    ((moduleRuntimeOwners module).filter (· ∈ selectedRuntimeIds runtimeIds)).map
      fun runtime => ⟨module.value, runtime⟩

def selectedPairs : List ModuleOwner :=
  installation.moduleOwners.filter (· ∈ eligiblePairs runtimeIds)

def managedRuntimeIds : List String := installation.moduleOwners.map ModuleOwner.runtime

/-- Whether the request covers the whole installation. -/
def fullCoverage : Bool :=
  agentRuntimeIds.all (· ∈ selectedRuntimeIds runtimeIds)
    || (!(managedRuntimeIds installation).isEmpty
      && (managedRuntimeIds installation).all (· ∈ selectedRuntimeIds runtimeIds))

/-- `row_is_selected` -/
def rowIsSelected (attribution : SurfaceAttribution) : Bool :=
  match attributionPair attribution with
  | none => fullCoverage installation runtimeIds
  | some pair => pair ∈ selectedPairs installation runtimeIds

def packageIsSelected (package : InstalledSkillPackage) : Bool :=
  package.skillsOwner ∈ selectedPairs installation runtimeIds

end

structure RuntimeRemovalPlan (V : Type) where
  runtimeIds : List String
  sourceInstallation : Installation V
  files : List InstalledFile
  settingsEntries : List (InstalledSettingsEntry V)
  survivingSettingsEntries : List (InstalledSettingsEntry V)
  skillPackages : List InstalledSkillPackage
  moduleOwners : List ModuleOwner
  removeClaudeSettingsOwnership : Bool
  removeCodexBlock : Bool
  retainedUnattributedCount : Nat
  retainedUnattributedReasons : List String
  postInstallation : Installation V
  fullCoverage : Bool

def claudeSettingsModules : List String :=
  [InstallModule.hooks.value, InstallModule.statusline.value, InstallModule.permissions.value]

/-- The reasons of rows without an owner. -/
def unattributedReasons (attributions : List SurfaceAttribution) : List String :=
  attributions.filterMap fun
    | .owner _ => none
    | .unattributed reason => some reason

/-- `build_runtime_removal_plan`; unknown runtimes are an error. -/
def buildRuntimeRemovalPlan (installation : Installation V) (runtimeIds : List String) :
    Except (List String) (RuntimeRemovalPlan V) :=
  let unknown := runtimeIds.filter (· ∉ agentRuntimeIds)
  if unknown ≠ [] then .error (sortedSet unknown)
  else
    let selectsFile (file : InstalledFile) : Bool :=
      rowIsSelected installation runtimeIds file.attribution
    let selectsEntry (entry : InstalledSettingsEntry V) : Bool :=
      rowIsSelected installation runtimeIds entry.attribution
    let selected := selectedPairs installation runtimeIds
    let survivingFiles := installation.files.filter (!selectsFile ·)
    let survivingSettings := installation.settingsEntries.filter (!selectsEntry ·)
    let removeClaudeSettings := selected.any fun pair =>
      pair.module ∈ claudeSettingsModules && pair.runtime = claudeCodeRuntime
    let removeCodexBlock : Bool := hooksCodexOwner ∈ selected
    let full := fullCoverage installation runtimeIds
    let reasons := unattributedReasons (survivingFiles.map InstalledFile.attribution)
      ++ unattributedReasons (survivingSettings.map InstalledSettingsEntry.attribution)
    .ok
      { runtimeIds := selectedRuntimeIds runtimeIds
        sourceInstallation := installation
        files := installation.files.filter selectsFile
        settingsEntries := installation.settingsEntries.filter selectsEntry
        survivingSettingsEntries := survivingSettings
        skillPackages :=
          installation.skillPackages.filter (packageIsSelected installation runtimeIds)
        moduleOwners := installation.moduleOwners.filter (· ∈ selected)
        removeClaudeSettingsOwnership := removeClaudeSettings
        removeCodexBlock := removeCodexBlock
        retainedUnattributedCount := reasons.length
        retainedUnattributedReasons := sortedSet reasons
        postInstallation :=
          { installation with
            moduleOwners := installation.moduleOwners.filter (· ∉ selected)
            files := survivingFiles
            skillPackages :=
              installation.skillPackages.filter (!packageIsSelected installation runtimeIds ·)
            settingsEntries := survivingSettings
            settingsBackupPath :=
              if full || (removeClaudeSettings && survivingSettings.isEmpty) then none
              else installation.settingsBackupPath
            codexConfigPath := if removeCodexBlock then none else installation.codexConfigPath
            codexCommands := if removeCodexBlock then [] else installation.codexCommands }
        fullCoverage := full }

/-! ## 2. Removal and faults -/

/-- The files in the order they are unlinked: `SKILL.md` files last. -/
def orderedFiles (files : List InstalledFile) : List InstalledFile :=
  files.filter (fun file => (pathOf file.targetPath).name ≠ skillDocumentName)
    ++ files.filter (fun file => (pathOf file.targetPath).name = skillDocumentName)

/-- What a fault leaves of a package. -/
def reconcilePackage (removed : List String) (package : InstalledSkillPackage) :
    Option InstalledSkillPackage :=
  let surviving := package.filePaths.filter (· ∉ removed)
  if surviving.length = package.filePaths.length then some package
  else if package.skillDocument ∉ surviving then none
  else some { package with filePaths := surviving.insertionSort (· ≤ ·) }

/-- `_reconciled_installation` -/
def reconciledInstallation (existing : Installation V) (plan : RuntimeRemovalPlan V)
    (removed : List String) (settingsApplied : Bool) (now : String) : Installation V :=
  { existing with
    files := existing.files.filter (·.targetPath ∉ removed)
    skillPackages := existing.skillPackages.filterMap (reconcilePackage removed)
    settingsEntries :=
      if settingsApplied then plan.survivingSettingsEntries else existing.settingsEntries
    settingsBackupPath :=
      if settingsApplied then plan.postInstallation.settingsBackupPath
      else existing.settingsBackupPath
    updatedAt := now }

/-- What goes wrong during one removal. -/
structure Faults where
  /-- unlinking this file raises `OSError` -/
  unlink : String → Bool
  /-- there are settings to change -/
  settingsStage : Bool
  /-- the settings cannot be read again, or have changed -/
  revalidate : Bool
  applySettings : Bool
  codex : Bool
  now : String

/-- The loop over the ordered files: the paths unlinked so far, and
whether it ended with an error. -/
def removeFiles (unlink : String → Bool) : List InstalledFile → List String × Bool
  | [] => ([], false)
  | file :: files =>
      if unlink file.targetPath then ([], true)
      else
        let (removed, failed) := removeFiles unlink files
        (file.targetPath :: removed, failed)

/-- A removal: the files it unlinked, whether it changed the settings, and
the row it built if a fault stopped it. -/
structure RemovalRun (V : Type) where
  removed : List String
  settingsApplied : Bool
  reconciled : Option (Installation V)

/-- `uninstall` after its checks, up to the final commit. -/
def uninstall (existing : Installation V) (plan : RuntimeRemovalPlan V) (faults : Faults) :
    RemovalRun V :=
  let removal := removeFiles faults.unlink (orderedFiles plan.files)
  let stopped (settingsApplied : Bool) : RemovalRun V :=
    ⟨removal.1, settingsApplied,
      some (reconciledInstallation existing plan removal.1 settingsApplied faults.now)⟩
  if removal.2 then stopped false
  else if faults.settingsStage && (faults.revalidate || faults.applySettings) then stopped false
  else if plan.removeCodexBlock && faults.codex then stopped faults.settingsStage
  else ⟨removal.1, faults.settingsStage, none⟩

theorem removeFiles_prefix (unlink : String → Bool) : ∀ files : List InstalledFile,
    ∃ k, (removeFiles unlink files).1 = (files.take k).map InstalledFile.targetPath
  | [] => ⟨0, rfl⟩
  | file :: files => by
      obtain ⟨k, hk⟩ := removeFiles_prefix unlink files
      rw [removeFiles]
      split
      · exact ⟨0, rfl⟩
      · exact ⟨k + 1, by simp [hk]⟩

theorem uninstall_removed (existing : Installation V) (plan : RuntimeRemovalPlan V)
    (faults : Faults) : (uninstall existing plan faults).removed
      = (removeFiles faults.unlink (orderedFiles plan.files)).1 := by
  unfold uninstall
  simp only
  split
  · rfl
  · split
    · rfl
    · split
      · rfl
      · rfl

/-- Whatever stops a removal, its row is the one for the files unlinked. -/
theorem uninstall_reconciled {existing row : Installation V} {plan : RuntimeRemovalPlan V}
    {faults : Faults} (h : (uninstall existing plan faults).reconciled = some row) :
    ∃ k settingsApplied, (uninstall existing plan faults).removed
        = ((orderedFiles plan.files).take k).map InstalledFile.targetPath
      ∧ row = reconciledInstallation existing plan
        (((orderedFiles plan.files).take k).map InstalledFile.targetPath) settingsApplied
        faults.now := by
  obtain ⟨k, hk⟩ := removeFiles_prefix faults.unlink (orderedFiles plan.files)
  have hremoved := (uninstall_removed existing plan faults).trans hk
  unfold uninstall at h
  simp only [hk] at h
  split at h
  · exact ⟨k, false, hremoved, (Option.some.inj h).symm⟩
  · split at h
    · exact ⟨k, false, hremoved, (Option.some.inj h).symm⟩
    · split at h
      · exact ⟨k, faults.settingsStage, hremoved, (Option.some.inj h).symm⟩
      · cases h

/-! ## 3. The row after a fault -/

section
variable {existing : Installation V} {plan : RuntimeRemovalPlan V} {removed : List String}

/-- A reconciled package has the paths that remain, its document among
them. -/
theorem reconcilePackage_eq_some {package package' : InstalledSkillPackage}
    (hdocument : package.skillDocument ∈ package.filePaths)
    (hsorted : package.filePaths.Pairwise (· < ·))
    (h : reconcilePackage removed package = some package') :
    package' = { package with filePaths := package.filePaths.filter (· ∉ removed) }
      ∧ package.skillDocument ∈ package.filePaths.filter (· ∉ removed) := by
  unfold reconcilePackage at h
  simp only at h
  split at h
  · rename_i hlength
    have hall : package.filePaths.filter (· ∉ removed) = package.filePaths :=
      List.filter_eq_self.mpr (List.length_filter_eq_length_iff.mp hlength)
    rw [hall]
    cases h
    exact ⟨rfl, hdocument⟩
  · split at h
    · cases h
    · rename_i hkept
      rw [not_not] at hkept
      rw [List.Pairwise.insertionSort_eq ((hsorted.filter _).imp le_of_lt)] at h
      cases h
      exact ⟨rfl, hkept⟩

/-- **After any fault the row is valid.** -/
theorem valid_reconciledInstallation (h : Valid existing)
    (hsurviving : plan.survivingSettingsEntries.Sublist existing.settingsEntries)
    (settingsApplied : Bool) (now : String) :
    Valid (reconciledInstallation existing plan removed settingsApplied now) := by
  have hsettings : (reconciledInstallation existing plan removed settingsApplied now).settingsEntries.Sublist
      existing.settingsEntries := by
    cases settingsApplied with
    | true => exact hsurviving
    | false => exact List.Sublist.refl _
  have hpackage : ∀ package ∈ existing.skillPackages, ∀ package',
      reconcilePackage removed package = some package' →
        package' = { package with filePaths := package.filePaths.filter (· ∉ removed) }
          ∧ package.skillDocument ∈ package.filePaths.filter (· ∉ removed) :=
    fun package hmem package' => reconcilePackage_eq_some (h.packages package hmem).document
      (h.packages package hmem).sorted
  refine ⟨h.owners_sorted, h.owners, ?_, ?_, ?_, ?_, ?_, ?_, h.codex_nonblank, h.codex_owner⟩
  · exact h.files_distinct.sublist (List.filter_sublist.map _)
  · exact fun file hfile => h.files file (List.mem_of_mem_filter hfile)
  · exact h.settings_distinct.sublist (hsettings.map _)
  · exact fun entry hentry => h.settings entry (hsettings.mem hentry)
  · intro package' hmem
    obtain ⟨package, hpackage', hreconciled⟩ := List.mem_filterMap.mp hmem
    obtain ⟨rfl, hdocument⟩ := hpackage package hpackage' package' hreconciled
    have hok := h.packages package hpackage'
    refine ⟨hok.owned, hok.absolute, List.ne_nil_of_mem hdocument, hok.sorted.filter _, hdocument,
      fun filePath hfile => hok.inside filePath (List.mem_of_mem_filter hfile), ?_⟩
    intro filePath hfile
    obtain ⟨hfile, hkept⟩ := List.mem_filter.mp hfile
    obtain ⟨file, htracked, rfl⟩ := List.mem_map.mp (hok.backed filePath hfile)
    exact List.mem_map_of_mem (List.mem_filter.mpr ⟨htracked, hkept⟩)
  · refine List.pairwise_filterMap.mpr (h.packages_apart.imp_of_mem ?_)
    intro package other hmem hmem' hapart package' hreconciled other' hreconciled'
    obtain ⟨rfl, -⟩ := hpackage package hmem package' hreconciled
    obtain ⟨rfl, -⟩ := hpackage other hmem' other' hreconciled'
    exact ⟨hapart.1, fun filePath hfile hfile' =>
      hapart.2 filePath (List.mem_of_mem_filter hfile) (List.mem_of_mem_filter hfile')⟩

end

/-! ## 4. What a plan selects -/

section
variable {inst : Installation V} {plan : RuntimeRemovalPlan V} {ids : List String}

theorem plan_known (hplan : buildRuntimeRemovalPlan inst ids = .ok plan) :
    ∀ runtime ∈ ids, runtime ∈ agentRuntimeIds := by
  intro runtime hmem
  by_contra hunknown
  have hne : ids.filter (· ∉ agentRuntimeIds) ≠ [] :=
    List.ne_nil_of_mem (List.mem_filter.mpr ⟨hmem, decide_eq_true hunknown⟩)
  rw [buildRuntimeRemovalPlan, if_pos hne] at hplan
  cases hplan

/-- Of known runtimes all are selected. -/
theorem mem_selectedRuntimeIds (hknown : ∀ runtime ∈ ids, runtime ∈ agentRuntimeIds)
    {runtime : String} : runtime ∈ selectedRuntimeIds ids ↔ runtime ∈ ids := by
  simp only [selectedRuntimeIds, List.mem_filter, decide_eq_true_eq]
  exact ⟨fun h => h.2, fun h => ⟨hknown runtime h, h⟩⟩

theorem InstallModule.mem_all (module : InstallModule) : module ∈ InstallModule.all := by
  cases module <;> decide

/-- Of a valid row, the pairs with a chosen runtime are selected. -/
theorem mem_selectedPairs (h : Valid inst) (hknown : ∀ runtime ∈ ids, runtime ∈ agentRuntimeIds)
    {owner : ModuleOwner} :
    owner ∈ selectedPairs inst ids ↔ owner ∈ inst.moduleOwners ∧ owner.runtime ∈ ids := by
  rw [selectedPairs, List.mem_filter, decide_eq_true_eq, eligiblePairs, List.mem_flatMap]
  constructor
  · rintro ⟨howner, module, -, hmem⟩
    obtain ⟨runtime, hruntime, rfl⟩ := List.mem_map.mp hmem
    have hselected := of_decide_eq_true (List.mem_filter.mp hruntime).2
    exact ⟨howner, (mem_selectedRuntimeIds hknown).mp hselected⟩
  · rintro ⟨howner, hruntime⟩
    obtain ⟨module, hmodule, hmay⟩ := h.owners owner howner
    have hvalue : module.value = owner.module := by
      have hfound := List.find?_some hmodule
      exact of_decide_eq_true hfound
    refine ⟨howner, module, InstallModule.mem_all module, List.mem_map.mpr
      ⟨owner.runtime, List.mem_filter.mpr ⟨hmay, decide_eq_true ?_⟩, ?_⟩⟩
    · exact (mem_selectedRuntimeIds hknown).mpr hruntime
    · rw [hvalue]

/-- Short of full coverage, a row of a valid installation is selected
exactly when its owner's runtime is chosen. -/
theorem rowIsSelected_eq_true (h : Valid inst)
    (hknown : ∀ runtime ∈ ids, runtime ∈ agentRuntimeIds) (hnotfull : fullCoverage inst ids = false)
    {attribution : SurfaceAttribution} (hok : AttributionOk inst.moduleOwners attribution) :
    rowIsSelected inst ids attribution = true
      ↔ ∃ owner, attribution = .owner owner ∧ owner.runtime ∈ ids := by
  cases attribution with
  | owner owner =>
    have hpair := @mem_selectedPairs V inst ids h hknown owner
    simp only [rowIsSelected, attributionPair, decide_eq_true_eq, hpair]
    exact ⟨fun hselected => ⟨owner, rfl, hselected.2⟩,
      fun ⟨_, heq, hruntime⟩ => ⟨hok, by cases heq; exact hruntime⟩⟩
  | unattributed reason => simp [rowIsSelected, attributionPair, hnotfull]

theorem packageIsSelected_eq_true (h : Valid inst)
    (hknown : ∀ runtime ∈ ids, runtime ∈ agentRuntimeIds) {package : InstalledSkillPackage}
    (hmem : package ∈ inst.skillPackages) :
    packageIsSelected inst ids package = true ↔ package.runtime ∈ ids := by
  rw [packageIsSelected, decide_eq_true_eq, mem_selectedPairs h hknown]
  exact ⟨fun hselected => hselected.2, fun hruntime => ⟨(h.packages package hmem).owned, hruntime⟩⟩

/-- An attribution that is not selected keeps its owner. -/
theorem attributionOk_survives {attribution : SurfaceAttribution}
    (hok : AttributionOk inst.moduleOwners attribution)
    (hkept : rowIsSelected inst ids attribution = false) :
    AttributionOk (inst.moduleOwners.filter (· ∉ selectedPairs inst ids)) attribution := by
  cases attribution with
  | owner owner =>
    refine List.mem_filter.mpr ⟨hok, decide_eq_true ?_⟩
    simpa [rowIsSelected, attributionPair] using hkept
  | unattributed reason => exact hok

/-! ## 5. The planned row -/

/-- No package that stays loses a file. -/
def PackagesKept (inst : Installation V) (ids : List String) : Prop :=
  ∀ package ∈ inst.skillPackages, package.runtime ∉ ids →
    ∀ file ∈ inst.files, file.targetPath ∈ package.filePaths →
      ∀ owner, file.attribution = .owner owner → owner.runtime ∉ ids

/-- **The planned row is valid when packages keep their files.** -/
theorem valid_postInstallation (h : Valid inst)
    (hplan : buildRuntimeRemovalPlan inst ids = .ok plan)
    (hnotfull : fullCoverage inst ids = false) (hkept : PackagesKept inst ids) :
    Valid plan.postInstallation := by
  have hknown := plan_known hplan
  rw [buildRuntimeRemovalPlan, if_neg (by simpa using hknown)] at hplan
  cases hplan
  have hsurvives : ∀ owner ∈ inst.moduleOwners, owner ∉ selectedPairs inst ids →
      owner ∈ inst.moduleOwners.filter (· ∉ selectedPairs inst ids) :=
    fun owner hmem hnot => List.mem_filter.mpr ⟨hmem, decide_eq_true hnot⟩
  refine ⟨h.owners_sorted.filter _, fun owner hmem => h.owners owner (List.mem_of_mem_filter hmem),
    h.files_distinct.sublist (List.filter_sublist.map _), ?_,
    h.settings_distinct.sublist (List.filter_sublist.map _), ?_, ?_, h.packages_apart.filter _,
    ?_, ?_⟩
  · intro file hfile
    obtain ⟨hmem, hnot⟩ := List.mem_filter.mp hfile
    exact attributionOk_survives (h.files file hmem) (by simpa using hnot)
  · intro entry hentry
    obtain ⟨hmem, hnot⟩ := List.mem_filter.mp hentry
    exact attributionOk_survives (h.settings entry hmem) (by simpa using hnot)
  · intro package hpackage
    obtain ⟨hmem, hnot⟩ := List.mem_filter.mp hpackage
    have hok := h.packages package hmem
    have hruntime : package.runtime ∉ ids := by
      rw [← packageIsSelected_eq_true h hknown hmem]
      simpa using hnot
    refine ⟨hsurvives _ hok.owned ?_, hok.absolute, hok.nonempty, hok.sorted, hok.document,
      hok.inside, ?_⟩
    · simpa [packageIsSelected] using hnot
    · -- The row that backs a path stays: its owner's runtime is not chosen.
      intro filePath hpath
      obtain ⟨file, hfile, rfl⟩ := List.mem_map.mp (hok.backed filePath hpath)
      refine List.mem_map_of_mem (List.mem_filter.mpr ⟨hfile, ?_⟩)
      have hstays : ¬ rowIsSelected inst ids file.attribution = true := by
        rw [rowIsSelected_eq_true h hknown hnotfull (h.files file hfile)]
        rintro ⟨owner, hattribution, hchosen⟩
        exact hkept package hmem hruntime file hfile hpath owner hattribution hchosen
      simpa using hstays
  · intro path hpath
    dsimp only at hpath
    split at hpath
    · cases hpath
    · exact h.codex_nonblank path hpath
  · have howner := h.codex_owner
    dsimp only
    by_cases hremove : hooksCodexOwner ∈ selectedPairs inst ids
    · simp [hremove]
    · simp [hremove, howner]

/-- A path that a remaining package needs keeps its row. -/
theorem packagesKept_of_valid (h : Valid inst)
    (hplan : buildRuntimeRemovalPlan inst ids = .ok plan)
    (hnotfull : fullCoverage inst ids = false) (hpost : Valid plan.postInstallation) :
    PackagesKept inst ids := by
  have hknown := plan_known hplan
  rw [buildRuntimeRemovalPlan, if_neg (by simpa using hknown)] at hplan
  cases hplan
  intro package hmem hruntime file hfile hpath owner hattribution hchosen
  have hstays : package ∈ inst.skillPackages.filter (!packageIsSelected inst ids ·) := by
    refine List.mem_filter.mpr ⟨hmem, ?_⟩
    have hnot := mt (packageIsSelected_eq_true h hknown hmem).mp hruntime
    simpa using hnot
  obtain ⟨file', hfile', heq⟩ :=
    List.mem_map.mp ((hpost.packages package hstays).backed file.targetPath hpath)
  obtain ⟨htracked, hkept⟩ := List.mem_filter.mp hfile'
  -- Target paths are unique, so the surviving row is the selected one.
  have hsame : file' = file := List.inj_on_of_nodup_map h.files_distinct htracked hfile heq
  subst hsame
  have hselected := (rowIsSelected_eq_true h hknown hnotfull (h.files file' hfile)).mpr
    ⟨owner, hattribution, hchosen⟩
  simp [hselected] at hkept

/-! ## 6. Runtime removal -/

/-- Two disjoint parts of a list, in its order, that make up the list. -/
def Partition {α : Type} (selected surviving whole : List α) : Prop :=
  ∃ p : α → Bool, selected = whole.filter p ∧ surviving = whole.filter (!p ·)

/-- A valid row for what is left when these files are gone. -/
def RowFor (inst : Installation V) (gone : List InstalledFile) (row : Installation V) : Prop :=
  validateInstallation row = .ok () ∧ ∀ file, file ∈ row.files ↔ file ∈ inst.files ∧ file ∉ gone

/-- What a removal promises. -/
structure RemovalSound (inst : Installation V) (plan : RuntimeRemovalPlan V) : Prop where
  files : Partition plan.files plan.postInstallation.files inst.files
  settings : Partition plan.settingsEntries plan.postInstallation.settingsEntries
    inst.settingsEntries
  surviving_settings : plan.survivingSettingsEntries = plan.postInstallation.settingsEntries
  packages : Partition plan.skillPackages plan.postInstallation.skillPackages inst.skillPackages
  owners : Partition plan.moduleOwners plan.postInstallation.moduleOwners inst.moduleOwners
  post_valid : plan.fullCoverage = false → validateInstallation plan.postInstallation = .ok ()
  faults : ∀ (k : Nat) (settingsApplied : Bool) (now : String),
    RowFor inst ((orderedFiles plan.files).take k)
      (reconciledInstallation inst plan
        (((orderedFiles plan.files).take k).map InstalledFile.targetPath) settingsApplied now)
  stopped : ∀ (faults : Faults) (row : Installation V),
    (uninstall inst plan faults).reconciled = some row →
      validateInstallation row = .ok ()
        ∧ row.files = inst.files.filter (·.targetPath ∉ (uninstall inst plan faults).removed)

theorem plan_postInstallation (hplan : buildRuntimeRemovalPlan inst ids = .ok plan) :
    Partition plan.files plan.postInstallation.files inst.files
      ∧ Partition plan.settingsEntries plan.postInstallation.settingsEntries inst.settingsEntries
      ∧ Partition plan.skillPackages plan.postInstallation.skillPackages inst.skillPackages
      ∧ Partition plan.moduleOwners plan.postInstallation.moduleOwners inst.moduleOwners
      ∧ plan.survivingSettingsEntries = plan.postInstallation.settingsEntries
      ∧ plan.fullCoverage = fullCoverage inst ids := by
  rw [buildRuntimeRemovalPlan, if_neg (by simpa using plan_known hplan)] at hplan
  cases hplan
  refine ⟨⟨_, rfl, rfl⟩, ⟨_, rfl, rfl⟩, ⟨_, rfl, rfl⟩, ⟨_, rfl, ?_⟩, rfl, rfl⟩
  exact List.filter_congr fun owner _ => by simp

theorem orderedFiles_subset (files : List InstalledFile) {file : InstalledFile}
    (h : file ∈ orderedFiles files) : file ∈ files := by
  rcases List.mem_append.mp h with h | h
  · exact List.mem_of_mem_filter h
  · exact List.mem_of_mem_filter h

/-- Target paths are unique, so a row is gone exactly when its path is. -/
theorem mem_removed_iff (h : Valid inst) {gone : List InstalledFile}
    (hgone : ∀ file ∈ gone, file ∈ inst.files) {file : InstalledFile} (hfile : file ∈ inst.files) :
    file.targetPath ∈ gone.map InstalledFile.targetPath ↔ file ∈ gone := by
  constructor
  · intro hmem
    obtain ⟨other, hother, heq⟩ := List.mem_map.mp hmem
    have hsame : other = file :=
      List.inj_on_of_nodup_map h.files_distinct (hgone other hother) hfile heq
    exact hsame ▸ hother
  · exact fun hmem => List.mem_map_of_mem hmem

/-- **The row after any number of removals.** -/
theorem rowFor_reconciled (h : Valid inst) (hplan : buildRuntimeRemovalPlan inst ids = .ok plan)
    (k : Nat) (settingsApplied : Bool) (now : String) :
    RowFor inst ((orderedFiles plan.files).take k) (reconciledInstallation inst plan
      (((orderedFiles plan.files).take k).map InstalledFile.targetPath) settingsApplied now) := by
  obtain ⟨⟨selects, hfiles, -⟩, ⟨keeps, -, hsettings⟩, -, -, hsurviving, -⟩ :=
    plan_postInstallation hplan
  have hgone : ∀ file ∈ (orderedFiles plan.files).take k, file ∈ inst.files := by
    intro file hmem
    have hselected := orderedFiles_subset _ (List.mem_of_mem_take hmem)
    rw [hfiles] at hselected
    exact List.mem_of_mem_filter hselected
  have hsublist : plan.survivingSettingsEntries.Sublist inst.settingsEntries := by
    rw [hsurviving, hsettings]
    exact List.filter_sublist
  refine ⟨validateInstallation_eq_ok.mpr
    (valid_reconciledInstallation h hsublist settingsApplied now), fun file => ?_⟩
  simp only [reconciledInstallation, List.mem_filter, decide_eq_true_eq]
  exact and_congr_right fun hfile => not_congr (mem_removed_iff h hgone hfile)

/-- **Runtime removal.** A removal from a valid installation keeps
tracking valid exactly when it is full or no package that stays loses a
file. -/
theorem runtime_removal_sound_iff (h : validateInstallation inst = .ok ())
    (hplan : buildRuntimeRemovalPlan inst ids = .ok plan) :
    RemovalSound inst plan ↔ fullCoverage inst ids = true ∨ PackagesKept inst ids := by
  have hvalid := validateInstallation_eq_ok.mp h
  obtain ⟨hfiles, hsettings, hpackages, howners, hsurviving, hfull⟩ := plan_postInstallation hplan
  constructor
  · intro hsound
    cases hcoverage : fullCoverage inst ids with
    | true => exact Or.inl rfl
    | false =>
      have hpost := validateInstallation_eq_ok.mp (hsound.post_valid (hfull.trans hcoverage))
      exact Or.inr (packagesKept_of_valid hvalid hplan hcoverage hpost)
  · intro hwhen
    refine ⟨hfiles, hsettings, hsurviving, hpackages, howners, ?_,
      rowFor_reconciled hvalid hplan, ?_⟩
    · intro hnotfull
      rw [hfull] at hnotfull
      have hkept : PackagesKept inst ids := hwhen.resolve_left (by simp [hnotfull])
      exact validateInstallation_eq_ok.mpr (valid_postInstallation hvalid hplan hnotfull hkept)
    · intro faults row hrow
      obtain ⟨k, settingsApplied, hremoved, rfl⟩ := uninstall_reconciled hrow
      rw [hremoved]
      exact ⟨(rowFor_reconciled hvalid hplan k settingsApplied faults.now).1, rfl⟩

end

/-! ## 7. A package with another runtime's file -/

/-- A codex package whose only file is tracked for `owner`. -/
def codexPackageRow (owner : ModuleOwner) : Installation Unit where
  scope := "user"
  mode := "copy"
  profile := "standard"
  projectPath := none
  moduleOwners := [⟨"skills", "claude_code"⟩, ⟨"skills", "codex"⟩]
  files := [⟨"/p/SKILL.md", "/s/SKILL.md", "c", "copy", "t", .owner owner⟩]
  skillPackages := [⟨"codex", "p", "/p", ["/p/SKILL.md"]⟩]
  settingsEntries := []
  settingsBackupPath := none
  codexConfigPath := none
  codexCommands := []
  installedAt := "t"
  updatedAt := "t"

theorem runtime_removal_sound_iff_codex :
    let row := codexPackageRow ⟨"skills", "codex"⟩
    ∃ plan, buildRuntimeRemovalPlan row ["claude_code"] = .ok plan ∧ RemovalSound row plan := by
  refine ⟨_, rfl, (@runtime_removal_sound_iff Unit _ _ ["claude_code"] (by decide) rfl).mpr
    (Or.inr ?_)⟩
  intro package hpackage hruntime file hfile hpath owner hattribution
  obtain rfl : file = _ := List.mem_singleton.mp hfile
  cases hattribution
  decide

/-- The package of codex stays, and its document, tracked for Claude Code,
goes: the planned row is refused. -/
theorem package_loses_document :
    let row := codexPackageRow ⟨"skills", "claude_code"⟩
    validateInstallation row = .ok () ∧ ∃ plan,
      buildRuntimeRemovalPlan row ["claude_code"] = .ok plan ∧ plan.fullCoverage = false
        ∧ validateInstallation plan.postInstallation
          = .error (.notBacked ("codex", "p") ["/p/SKILL.md"])
        ∧ ¬ RemovalSound row plan := by
  have hpost : ∀ plan, buildRuntimeRemovalPlan (codexPackageRow ⟨"skills", "claude_code"⟩)
      ["claude_code"] = .ok plan → plan.fullCoverage = false ∧ validateInstallation
        plan.postInstallation = .error (.notBacked ("codex", "p") ["/p/SKILL.md"]) := by
    intro plan hplan
    cases hplan
    exact ⟨by decide, by decide⟩
  refine ⟨by decide, _, rfl, (hpost _ rfl).1, (hpost _ rfl).2, fun hsound => ?_⟩
  have hvalid := hsound.post_valid (hpost _ rfl).1
  rw [(hpost _ rfl).2] at hvalid
  cases hvalid

end MultiForge.Install
