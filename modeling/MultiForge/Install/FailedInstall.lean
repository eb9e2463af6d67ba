/-
MultiForge.Install.FailedInstall — what a failed install leaves behind.

`Undone` is the promise: an install that raised has left no file that was
not there before, has kept every file except stale ones of its own, and
has put settings, sidecars, the Codex configuration and the tracking row
back. It holds exactly when the exception is one that its call site
catches, or comes before anything was changed, and no write failed in the
middle of replacing a file (`failed_install_undone_iff`).

The file operations of the rollback itself succeed.
-/
import MultiForge.Install.ApplyPlan

namespace MultiForge.Install.Apply

open Json

variable {F : Type} (installer : Installer F) (inputs : InstallInputs) (before : World F)

/-! ## 1. The promise -/

/-- A tracked file outside the plan that still is what Forge installed. -/
def VerifiedStale (path : String) : Prop :=
  ∃ record ∈ (before.tracking.map Installation.files).getD [], record.targetPath = path
    ∧ path ∉ plannedTargets inputs before.tracking
    ∧ installer.isForgeOwned (before.files path) record = true

/-- The file that the plan installs at a path. -/
def PlannedNode (path : String) (node : Option Node) : Prop :=
  ∃ filePlan ∈ inputs.plan.files, filePlan.targetPath = path
    ∧ node = some (installer.installedNode filePlan)

/-- A failed install has been undone. -/
structure Undone (after : World F) : Prop where
  created_gone : ∀ path, before.files path = none → after.files path = none
  existing_kept : ∀ path, before.files path ≠ none → after.files path = before.files path
    ∨ PlannedNode installer inputs path (after.files path)
    ∨ VerifiedStale installer inputs before path
  settings : after.settings = before.settings
  sidecars : after.sidecars = before.sidecars
  codex : after.codex = before.codex
  tracking : after.tracking = before.tracking

/-- A write that failed on an existing target left the old or the new
file. -/
def WriteIntact (stop : Stop F) : Prop :=
  ∀ filePlan, stop.failedWrite = some filePlan → before.files filePlan.targetPath ≠ none →
    stop.progress.world.files filePlan.targetPath = before.files filePlan.targetPath
      ∨ stop.progress.world.files filePlan.targetPath = some (installer.installedNode filePlan)

/-- The rollback can tell what Forge wrote to the Codex configuration. -/
def CodexKnown (stop : Stop F) : Prop :=
  ∀ state, stop.progress.codexRollback = some state → state.appliedMode = none →
    stop.progress.world.codex = before.codex

/-- No file has been created, and nothing else has been changed. -/
structure NothingChanged (stop : Stop F) : Prop where
  files : ∀ path, before.files path = none → stop.progress.world.files path = none
  settings : stop.progress.world.settings = before.settings
  sidecars : stop.progress.world.sidecars = before.sidecars
  codex : stop.progress.world.codex = before.codex

/-- The exception is caught where it is raised, or nothing is to undo. -/
def Covered (stop : Stop F) : Prop :=
  WriteIntact installer before stop
    ∧ if catches stop.site stop.exception then CodexKnown before stop
      else NothingChanged before stop

/-! ## 2. The invariant of a run -/

/-- What a run has done to a path so far. -/
inductive FileState (progress : Progress F) (path : String) : Prop
  | untouched (same : progress.world.files path = before.files path)
      (notCreated : path ∉ progress.newlyCreatedFiles.map InstalledFile.targetPath)
  | written (planned : PlannedNode installer inputs path (progress.world.files path))
      (recorded : before.files path = none →
        path ∈ progress.newlyCreatedFiles.map InstalledFile.targetPath)
  | removed (stale : VerifiedStale installer inputs before path)
      (gone : progress.world.files path = none)
      (notCreated : path ∉ progress.newlyCreatedFiles.map InstalledFile.targetPath)

/-- A created file is new and can be told from the user's. -/
def Created (world : World F) (record : InstalledFile) : Prop :=
  before.files record.targetPath = none
    ∧ installer.isForgeOwned (world.files record.targetPath) record = true

/-- Settings are as before, or their snapshot is. -/
def SettingsState (progress : Progress F) : Prop :=
  match progress.settingsRollback with
  | none => progress.world.settings = before.settings ∧ progress.world.sidecars = before.sidecars
  | some state => state.settingsContent = before.settings ∧ state.addedFiles = before.sidecars

/-- The Codex configuration is as before, or what the snapshot says. -/
def CodexState (progress : Progress F) : Prop :=
  match progress.codexRollback with
  | none => progress.world.codex = before.codex
  | some state => state.original = before.codex
      ∧ (progress.world.codex = before.codex ∨ ∃ mode,
        progress.world.codex = some (state.appliedContent, mode)
          ∧ (state.appliedMode = none ∨ state.appliedMode = some mode))

/-- The invariant; `broken` is the target of a write that failed. -/
structure Inv (broken : Option String) (progress : Progress F) : Prop where
  file : ∀ path, broken ≠ some path → FileState installer inputs before progress path
  created : ∀ record ∈ progress.newlyCreatedFiles, Created installer before progress.world record
  broken : ∀ path, broken = some path →
    path ∉ progress.newlyCreatedFiles.map InstalledFile.targetPath
  settings : SettingsState before progress
  codex : CodexState before progress
  tracking : progress.world.tracking = before.tracking

/-- What holds where a run raises. -/
structure StopInv (stop : Stop F) : Prop where
  inv : Inv installer inputs before (stop.failedWrite.map FilePlan.targetPath) stop.progress
  planned : ∀ filePlan, stop.failedWrite = some filePlan → filePlan ∈ inputs.plan.files
  unrecorded : stop.unrecordedTarget
    = (stop.failedWrite.map FilePlan.targetPath).filter fun path => (before.files path).isNone

variable {installer inputs before}

/-- Outside a write, the invariant is all there is to know. -/
theorem Inv.stop {progress : Progress F} (h : Inv installer inputs before none progress)
    (site : Site) (exception : Exn) :
    StopInv installer inputs before (progress.stop site exception) :=
  ⟨h, (fun _ hfailed => by cases hfailed), rfl⟩

/-! ## 3. Undoing -/

section
variable (installer)

theorem removeCreated_same (world : World F) (record : InstalledFile) :
    (removeCreated installer world record).settings = world.settings
      ∧ (removeCreated installer world record).sidecars = world.sidecars
      ∧ (removeCreated installer world record).codex = world.codex
      ∧ (removeCreated installer world record).tracking = world.tracking := by
  unfold removeCreated
  split
  · exact ⟨rfl, rfl, rfl, rfl⟩
  · exact ⟨rfl, rfl, rfl, rfl⟩

theorem foldl_removeCreated_same : ∀ (records : List InstalledFile) (world : World F),
    (records.foldl (removeCreated installer) world).settings = world.settings
      ∧ (records.foldl (removeCreated installer) world).sidecars = world.sidecars
      ∧ (records.foldl (removeCreated installer) world).codex = world.codex
      ∧ (records.foldl (removeCreated installer) world).tracking = world.tracking
  | [], _ => ⟨rfl, rfl, rfl, rfl⟩
  | record :: records, world => by
      obtain ⟨hs, hc, hx, ht⟩ := removeCreated_same installer world record
      obtain ⟨hs', hc', hx', ht'⟩ :=
        foldl_removeCreated_same records (removeCreated installer world record)
      exact ⟨hs'.trans hs, hc'.trans hc, hx'.trans hx, ht'.trans ht⟩

/-- A record whose file is gone or Forge's own leaves no file. -/
theorem removeCreated_files {world : World F} {record : InstalledFile}
    (h : world.files record.targetPath = none
      ∨ installer.isForgeOwned (world.files record.targetPath) record = true) (path : String) :
    (removeCreated installer world record).files path
      = if path = record.targetPath then none else world.files path := by
  unfold removeCreated
  split
  · rfl
  · rename_i howned
    have hgone := h.resolve_right howned
    split
    · rename_i hpath
      rw [hpath, hgone]
    · rfl

theorem foldl_removeCreated_files : ∀ (records : List InstalledFile) {world : World F},
    (∀ record ∈ records, world.files record.targetPath = none
      ∨ installer.isForgeOwned (world.files record.targetPath) record = true) → ∀ path,
    (records.foldl (removeCreated installer) world).files path
      = if path ∈ records.map InstalledFile.targetPath then none else world.files path
  | [], _, _, _ => rfl
  | record :: records, world, h, path => by
      have hfirst := removeCreated_files installer (h record List.mem_cons_self)
      have hrest : ∀ other ∈ records,
          (removeCreated installer world record).files other.targetPath = none
            ∨ installer.isForgeOwned
              ((removeCreated installer world record).files other.targetPath) other = true := by
        intro other hother
        rw [hfirst]
        split
        · exact Or.inl rfl
        · exact h other (List.mem_cons_of_mem _ hother)
      rw [List.foldl_cons, foldl_removeCreated_files records hrest, hfirst]
      by_cases hpath : path = record.targetPath
      · simp [hpath]
      · simp [hpath]

end

theorem restoredCodex_original (state : CodexConfigRollbackState) :
    restoredCodex state.original state = state.original := by
  unfold restoredCodex
  split
  · rename_i hnone
    exact hnone.symm
  · rename_i hfound
    rw [if_pos hfound.symm]

/-- Without the mode of what was written nothing is replaced. -/
theorem restoredCodex_unknown {state : CodexConfigRollbackState} (h : state.appliedMode = none)
    (found : Option (Bytes × Nat)) : restoredCodex found state = found := by
  cases found with
  | none => rfl
  | some found => simp [restoredCodex, h]

theorem restoredCodex_applied {state : CodexConfigRollbackState} {mode : Nat}
    (h : state.appliedMode = some mode) :
    restoredCodex (some (state.appliedContent, mode)) state = state.original := by
  simp only [restoredCodex, h]
  split
  · assumption
  · simp

/-- The files after the rollback. -/
theorem rollBack_files {stop : Stop F} (h : StopInv installer inputs before stop) (path : String) :
    (rollBack installer stop).files path
      = if stop.unrecordedTarget = some path
          ∨ path ∈ stop.progress.newlyCreatedFiles.map InstalledFile.targetPath then none
        else stop.progress.world.files path := by
  have howned : ∀ record ∈ stop.progress.newlyCreatedFiles.reverse,
      installer.isForgeOwned (stop.progress.world.files record.targetPath) record = true :=
    fun record hmem => (h.inv.created record (List.mem_reverse.mp hmem)).2
  have hfiles : (rollBack installer stop).files path
      = (rollbackNewlyCreatedFiles installer stop.progress.world stop.progress.newlyCreatedFiles
          stop.unrecordedTarget).files path := rfl
  rw [hfiles]
  unfold rollbackNewlyCreatedFiles
  cases hunrecorded : stop.unrecordedTarget with
  | none =>
    rw [foldl_removeCreated_files installer _ fun record hmem => Or.inr (howned record hmem)]
    simp
  | some target =>
    have hset : ∀ record ∈ stop.progress.newlyCreatedFiles.reverse,
        (stop.progress.world.setFile target none).files record.targetPath = none
          ∨ installer.isForgeOwned
            ((stop.progress.world.setFile target none).files record.targetPath) record = true := by
      intro record hmem
      by_cases hsame : record.targetPath = target
      · exact Or.inl (if_pos hsame)
      · have hkept : (stop.progress.world.setFile target none).files record.targetPath
            = stop.progress.world.files record.targetPath := if_neg hsame
        exact Or.inr (hkept ▸ howned record hmem)
    rw [foldl_removeCreated_files installer _ hset]
    by_cases hpath : path = target
    · simp [World.setFile, hpath]
    · have hne : ¬ target = path := fun heq => hpath heq.symm
      simp [World.setFile, hpath, hne]

theorem rollBack_tracking (stop : Stop F) :
    (rollBack installer stop).tracking = stop.progress.world.tracking := by
  have hsame := fun world =>
    (foldl_removeCreated_same installer stop.progress.newlyCreatedFiles.reverse world).2.2.2
  refine (hsame _).trans ?_
  cases stop.unrecordedTarget with
  | none => rfl
  | some target => rfl

/-- What the rollback of files leaves alone. -/
theorem rollbackNewlyCreatedFiles_same (world : World F) (created : List InstalledFile)
    (unrecordedTarget : Option String) :
    let after := rollbackNewlyCreatedFiles installer world created unrecordedTarget
    after.settings = world.settings ∧ after.sidecars = world.sidecars ∧ after.codex = world.codex
      ∧ after.tracking = world.tracking := by
  simp only [rollbackNewlyCreatedFiles]
  cases unrecordedTarget with
  | none => exact foldl_removeCreated_same installer _ _
  | some target => exact foldl_removeCreated_same installer _ (world.setFile target none)

/-- Settings are back after the rollback. -/
theorem rollBack_settings {stop : Stop F} (h : StopInv installer inputs before stop) :
    (rollBack installer stop).settings = before.settings
      ∧ (rollBack installer stop).sidecars = before.sidecars := by
  obtain ⟨hsettings, hsidecars, -, -⟩ := @rollbackNewlyCreatedFiles_same F installer
    stop.progress.world stop.progress.newlyCreatedFiles stop.unrecordedTarget
  have hstate := h.inv.settings
  unfold SettingsState at hstate
  simp only [rollBack, restoreCodex, restoreSettings]
  cases hrollback : stop.progress.settingsRollback with
  | none =>
    rw [hrollback] at hstate
    exact ⟨hsettings.trans hstate.1, hsidecars.trans hstate.2⟩
  | some state =>
    rw [hrollback] at hstate
    exact hstate

/-- The Codex configuration after the rollback: back, unless its mode was
lost. -/
theorem rollBack_codex {stop : Stop F} (h : StopInv installer inputs before stop) :
    (rollBack installer stop).codex = before.codex ↔ CodexKnown before stop := by
  obtain ⟨-, -, hcodex, -⟩ := @rollbackNewlyCreatedFiles_same F installer
    stop.progress.world stop.progress.newlyCreatedFiles stop.unrecordedTarget
  have hstate := h.inv.codex
  unfold CodexState at hstate
  unfold CodexKnown
  simp only [rollBack, restoreCodex, restoreSettings]
  rw [hcodex]
  cases hrollback : stop.progress.codexRollback with
  | none =>
    rw [hrollback] at hstate
    simp [hstate]
  | some state =>
    rw [hrollback] at hstate
    obtain ⟨horiginal, hfound⟩ := hstate
    simp only [Option.map_some, Option.getD_some, Option.some.injEq]
    constructor
    · rintro hback _ rfl hmode
      rw [restoredCodex_unknown hmode] at hback
      exact hback
    · intro hknown
      cases hmode : state.appliedMode with
      | none => rw [restoredCodex_unknown hmode, hknown state rfl hmode]
      | some mode =>
        rcases hfound with hsame | ⟨found, hcontent, hnone | hfound⟩
        · rw [hsame, ← horiginal, restoredCodex_original]
        · rw [hmode] at hnone
          cases hnone
        · rw [hcontent, restoredCodex_applied hfound, horiginal]

/-! ## 4. One step of a run -/

theorem FileState.congr {progress next : Progress F} {path : String}
    (h : FileState installer inputs before progress path)
    (hfiles : next.world.files path = progress.world.files path)
    (hcreated : next.newlyCreatedFiles = progress.newlyCreatedFiles) :
    FileState installer inputs before next path := by
  cases h with
  | untouched same notCreated =>
    exact .untouched (hfiles.trans same) (hcreated ▸ notCreated)
  | written planned recorded =>
    exact .written (hfiles ▸ planned) (fun hnew => hcreated ▸ recorded hnew)
  | removed stale gone notCreated =>
    exact .removed stale (hfiles.trans gone) (hcreated ▸ notCreated)

/-- Nothing has happened yet. -/
theorem Inv.start : Inv installer inputs before none { world := before } where
  file := fun _ _ => .untouched rfl List.not_mem_nil
  created := fun _ hmem => by cases hmem
  broken := fun _ h => by cases h
  settings := ⟨rfl, rfl⟩
  codex := rfl
  tracking := rfl

/-- What is at a target that no record of a created file names may change
while it is being written. -/
theorem Inv.setFile {progress : Progress F} (h : Inv installer inputs before none progress)
    {target : String} (hnew : target ∉ progress.newlyCreatedFiles.map InstalledFile.targetPath)
    (node : Option Node) :
    Inv installer inputs before (some target)
      { progress with world := progress.world.setFile target node } where
  file := by
    intro path hpath
    have hne : path ≠ target := fun heq => hpath (heq ▸ rfl)
    exact (h.file path (by simp)).congr (if_neg hne) rfl
  created := by
    intro record hmem
    have hne : record.targetPath ≠ target :=
      fun heq => hnew (heq ▸ List.mem_map_of_mem hmem)
    obtain ⟨hbefore, howned⟩ := h.created record hmem
    have hkept : (progress.world.setFile target node).files record.targetPath
        = progress.world.files record.targetPath := if_neg hne
    exact ⟨hbefore, hkept ▸ howned⟩
  broken := by
    rintro _ ⟨⟩
    exact hnew
  settings := h.settings
  codex := h.codex
  tracking := h.tracking

/-- A write that failed before it touched its target. -/
theorem Inv.ofBroken {progress : Progress F} (h : Inv installer inputs before none progress)
    {target : String} (hnew : target ∉ progress.newlyCreatedFiles.map InstalledFile.targetPath) :
    Inv installer inputs before (some target) progress where
  file := fun path _ => h.file path (by simp)
  created := h.created
  broken := by
    rintro _ ⟨⟩
    exact hnew
  settings := h.settings
  codex := h.codex
  tracking := h.tracking

/-- What Forge installs it knows as its own. -/
theorem isForgeOwned_installed (filePlan : FilePlan) (now : String) :
    installer.isForgeOwned (some (installer.installedNode filePlan))
      (installer.installedFileRecord filePlan now) = true := by
  cases hmode : filePlan.effectiveMode with
  | copy =>
    simp [Installer.isForgeOwned, Installer.installedNode, Installer.installedFileRecord, hmode,
      InstallMode.value]
  | symlink =>
    simp [Installer.isForgeOwned, Installer.installedNode, Installer.installedFileRecord, hmode,
      InstallMode.value]

section
variable {progress : Progress F} {filePlan : FilePlan}

/-- A write puts the file in place or stops in the middle. -/
theorem executeFile_ends (faults : InstallFaults F)
    (h : Inv installer inputs before none progress) (hmem : filePlan ∈ inputs.plan.files)
    (hnew : filePlan.targetPath ∉ progress.newlyCreatedFiles.map InstalledFile.targetPath)
    (hsame : progress.world.files filePlan.targetPath = before.files filePlan.targetPath) :
    Ends (fun world => world = progress.world.setFile filePlan.targetPath
        (some (installer.installedNode filePlan))) (StopInv installer inputs before)
      (executeFile installer faults progress filePlan
        (progress.world.files filePlan.targetPath).isSome) := by
  have hunrecorded : (if (progress.world.files filePlan.targetPath).isSome then none
        else some filePlan.targetPath)
      = ((some filePlan).map FilePlan.targetPath).filter fun path => (before.files path).isNone := by
    rw [hsame]
    cases hfound : before.files filePlan.targetPath with
    | none => exact (Option.filter_some_pos (by rw [hfound]; rfl)).symm
    | some node => exact (Option.filter_some_neg (by rw [hfound]; simp)).symm
  have hplanned : ∀ other, some filePlan = some other → other ∈ inputs.plan.files := by
    rintro _ ⟨⟩
    exact hmem
  have hraised : ∀ (node : Option Node) (exception : Exn), StopInv installer inputs before
      { progress := { progress with world := progress.world.setFile filePlan.targetPath node }
        site := .writeFile
        exception := exception
        failedWrite := some filePlan
        unrecordedTarget := if (progress.world.files filePlan.targetPath).isSome then none
          else some filePlan.targetPath } :=
    fun node _ => ⟨h.setFile hnew node, hplanned, hunrecorded⟩
  have hbefore : ∀ exception : Exn, StopInv installer inputs before
      { progress := progress
        site := .writeFile
        exception := exception
        failedWrite := some filePlan
        unrecordedTarget := if (progress.world.files filePlan.targetPath).isSome then none
          else some filePlan.targetPath } :=
    fun _ => ⟨h.ofBroken hnew, hplanned, hunrecorded⟩
  unfold executeFile
  refine (Ends.raiseIf _ hbefore).bind fun _ _ => ?_
  refine (Ends.raiseIf _ hbefore).bind fun _ _ => ?_
  cases (faults.file filePlan.targetPath).write with
  | some failed => exact hraised failed.2 failed.1
  | none => exact (Ends.raiseIf _ (hraised _)).bind fun _ _ => rfl

/-- A written file keeps the invariant; it is recorded when it is new. -/
theorem Inv.written (h : Inv installer inputs before none progress)
    (hmem : filePlan ∈ inputs.plan.files)
    (hnew : filePlan.targetPath ∉ progress.newlyCreatedFiles.map InstalledFile.targetPath)
    (hsame : progress.world.files filePlan.targetPath = before.files filePlan.targetPath)
    (installed : List InstalledFile) (now : String) :
    Inv installer inputs before none { progress with
      world := progress.world.setFile filePlan.targetPath (some (installer.installedNode filePlan))
      installedFiles := installed
      newlyCreatedFiles := if (progress.world.files filePlan.targetPath).isSome
        then progress.newlyCreatedFiles
        else progress.newlyCreatedFiles ++ [installer.installedFileRecord filePlan now] } := by
  have hbroken := h.setFile hnew (some (installer.installedNode filePlan))
  have hset : (progress.world.setFile filePlan.targetPath
      (some (installer.installedNode filePlan))).files filePlan.targetPath
      = some (installer.installedNode filePlan) := if_pos rfl
  have hplanned : PlannedNode installer inputs filePlan.targetPath
      ((progress.world.setFile filePlan.targetPath
        (some (installer.installedNode filePlan))).files filePlan.targetPath) :=
    ⟨filePlan, hmem, rfl, hset⟩
  have htarget : (installer.installedFileRecord filePlan now).targetPath = filePlan.targetPath := rfl
  cases hfound : progress.world.files filePlan.targetPath with
  | some node =>
    refine ⟨?_, hbroken.created, (fun _ hcase => by cases hcase), h.settings, h.codex, h.tracking⟩
    intro path _
    by_cases hpath : path = filePlan.targetPath
    · refine .written ?_ fun hnone => ?_
      · rw [hpath]
        exact hplanned
      · rw [hpath, ← hsame, hfound] at hnone
        cases hnone
    · exact (hbroken.file path fun heq => hpath (Option.some.inj heq).symm).congr rfl rfl
  | none =>
    refine ⟨?_, ?_, (fun _ hcase => by cases hcase), h.settings, h.codex, h.tracking⟩
    · intro path _
      by_cases hpath : path = filePlan.targetPath
      · refine .written ?_ fun _ => ?_
        · rw [hpath]
          exact hplanned
        · simp [hpath, htarget]
      · have hother := hbroken.file path fun heq => hpath (Option.some.inj heq).symm
        cases hother with
        | untouched same notCreated =>
          exact .untouched same (by simpa [htarget, hpath] using notCreated)
        | written planned recorded =>
          refine .written planned fun hnone => ?_
          have hold := recorded hnone
          exact List.map_append ▸ List.mem_append_left _ hold
        | removed stale gone notCreated =>
          exact .removed stale gone (by simpa [htarget, hpath] using notCreated)
    · intro record hrecord
      rcases List.mem_append.mp hrecord with hold | hlast
      · exact hbroken.created record hold
      · rw [List.mem_singleton.mp hlast]
        refine ⟨by rw [htarget, ← hsame, hfound], ?_⟩
        have howned := @isForgeOwned_installed F installer filePlan now
        rw [← hset] at howned
        exact howned

end

/-! ## 5. The stages -/

/-- The invariant of the file stage: what is still to be written is as it
was. -/
structure FilesInv (installer : Installer F) (inputs : InstallInputs) (before : World F)
    (rest : List FilePlan) (progress : Progress F) : Prop where
  inv : Inv installer inputs before none progress
  settingsRollback : progress.settingsRollback = none
  codexRollback : progress.codexRollback = none
  planned : ∀ filePlan ∈ rest, filePlan ∈ inputs.plan.files
  same : ∀ filePlan ∈ rest,
    progress.world.files filePlan.targetPath = before.files filePlan.targetPath
  new : ∀ filePlan ∈ rest,
    filePlan.targetPath ∉ progress.newlyCreatedFiles.map InstalledFile.targetPath
  distinct : (rest.map FilePlan.targetPath).Nodup

theorem FilesInv.skip {filePlan : FilePlan} {rest : List FilePlan} {progress : Progress F}
    (h : FilesInv installer inputs before (filePlan :: rest) progress)
    (installed : List InstalledFile) :
    FilesInv installer inputs before rest { progress with installedFiles := installed } where
  inv := ⟨fun path hpath => (h.inv.file path hpath).congr rfl rfl, h.inv.created, h.inv.broken,
    h.inv.settings, h.inv.codex, h.inv.tracking⟩
  settingsRollback := h.settingsRollback
  codexRollback := h.codexRollback
  planned := fun other hother => h.planned other (List.mem_cons_of_mem _ hother)
  same := fun other hother => h.same other (List.mem_cons_of_mem _ hother)
  new := fun other hother => h.new other (List.mem_cons_of_mem _ hother)
  distinct := (List.nodup_cons.mp h.distinct).2

theorem FilesInv.write {filePlan : FilePlan} {rest : List FilePlan} {progress : Progress F}
    (h : FilesInv installer inputs before (filePlan :: rest) progress)
    (installed : List InstalledFile) (now : String) :
    FilesInv installer inputs before rest { progress with
      world := progress.world.setFile filePlan.targetPath (some (installer.installedNode filePlan))
      installedFiles := installed
      newlyCreatedFiles := if (progress.world.files filePlan.targetPath).isSome
        then progress.newlyCreatedFiles
        else progress.newlyCreatedFiles ++ [installer.installedFileRecord filePlan now] } := by
  have hskip := h.skip installed
  have hne : ∀ other ∈ rest, other.targetPath ≠ filePlan.targetPath := fun other hother heq =>
    (List.nodup_cons.mp h.distinct).1 (heq ▸ List.mem_map_of_mem hother)
  have hinv := h.inv.written (h.planned _ List.mem_cons_self) (h.new _ List.mem_cons_self)
    (h.same _ List.mem_cons_self) installed now
  refine ⟨hinv, h.settingsRollback, h.codexRollback, hskip.planned, ?_, ?_, hskip.distinct⟩
  · intro other hother
    have hkept : (progress.world.setFile filePlan.targetPath
        (some (installer.installedNode filePlan))).files other.targetPath
        = progress.world.files other.targetPath := if_neg (hne other hother)
    exact hkept.trans (hskip.same other hother)
  · intro other hother
    have hnew := hskip.new other hother
    dsimp only at hnew ⊢
    split
    · exact hnew
    · have htarget : (installer.installedFileRecord filePlan now).targetPath
          = filePlan.targetPath := rfl
      have hdiff := hne other hother
      simp only [List.map_append, List.mem_append, List.map_cons, List.map_nil,
        List.mem_singleton, htarget, not_or]
      exact ⟨hnew, hdiff⟩

theorem applyFile_ends (faults : InstallFaults F) (existing : Option (Installation (Json F)))
    (filePlan : FilePlan) (rest : List FilePlan) (progress : Progress F)
    (h : FilesInv installer inputs before (filePlan :: rest) progress) :
    Ends (FilesInv installer inputs before rest) (StopInv installer inputs before)
      (applyFile installer inputs faults existing progress filePlan) := by
  have hwrite := (executeFile_ends faults h.inv (h.planned _ List.mem_cons_self)
    (h.new _ List.mem_cons_self) (h.same _ List.mem_cons_self)).bind
      (f := fun world => (.ok { progress with
        world := world
        installedFiles := progress.installedFiles
          ++ [installer.installedFileRecord filePlan faults.now]
        newlyCreatedFiles := if (progress.world.files filePlan.targetPath).isSome
          then progress.newlyCreatedFiles
          else progress.newlyCreatedFiles ++ [installer.installedFileRecord filePlan faults.now] } :
        Except (Stop F) (Progress F))) (R := FilesInv installer inputs before rest) (by
      rintro _ rfl
      exact h.write _ _)
  unfold applyFile
  refine (Ends.raiseIf _ fun e => h.inv.stop _ e).bind fun _ _ => ?_
  cases filePlan.action with
  | conflict => exact h.skip _
  | skip => exact (Ends.raiseIf _ fun e => h.inv.stop _ e).bind fun _ _ => h.skip _
  | install => exact (Ends.raiseIf _ fun e => h.inv.stop _ e).bind fun _ _ => hwrite
  | update => exact (Ends.raiseIf _ fun e => h.inv.stop _ e).bind fun _ _ => hwrite

theorem applyInstallFiles_ends (faults : InstallFaults F)
    (existing : Option (Installation (Json F))) :
    Ends (FilesInv installer inputs before []) (StopInv installer inputs before)
      (applyInstallFiles installer inputs faults existing { world := before }) := by
  refine Ends.foldlM (FilesInv installer inputs before)
    (fun filePlan rest progress h => applyFile_ends faults existing filePlan rest progress h) _ _ ?_
  exact ⟨Inv.start, rfl, rfl, fun _ h => h, fun _ _ => rfl, fun _ _ => List.not_mem_nil,
    inputs.plan.targets_distinct⟩

/-- After the settings have been read: everything that follows is undone
from the snapshot. -/
structure Captured (installer : Installer F) (inputs : InstallInputs) (before : World F)
    (progress : Progress F) : Prop where
  inv : Inv installer inputs before none progress
  settingsRollback : progress.settingsRollback = some ⟨before.settings, before.sidecars⟩
  codexRollback : progress.codexRollback = none

/-- Between the stages, before the Codex configuration is written. -/
structure Settled (installer : Installer F) (inputs : InstallInputs) (before : World F)
    (progress : Progress F) : Prop where
  inv : Inv installer inputs before none progress
  codexRollback : progress.codexRollback = none

theorem Captured.settled {progress : Progress F} (h : Captured installer inputs before progress) :
    Settled installer inputs before progress := ⟨h.inv, h.codexRollback⟩

theorem FilesInv.captured {progress : Progress F} (h : FilesInv installer inputs before [] progress) :
    Captured installer inputs before (captureSettings progress) := by
  have hsettings := h.inv.settings
  unfold SettingsState at hsettings
  rw [h.settingsRollback] at hsettings
  obtain ⟨hcontent, hsidecars⟩ := hsettings
  refine ⟨⟨fun path hpath => (h.inv.file path hpath).congr rfl rfl, h.inv.created, h.inv.broken,
    ⟨hcontent, hsidecars⟩, h.inv.codex, h.inv.tracking⟩, ?_, h.codexRollback⟩
  rw [← hcontent, ← hsidecars]
  rfl

/-- Settings and sidecars may change once they are captured. -/
theorem Captured.write {progress : Progress F} (h : Captured installer inputs before progress)
    (settings : Option Bytes) (sidecars : String → Option Bytes) :
    Captured installer inputs before { progress with
      world := { progress.world with settings := settings, sidecars := sidecars } } := by
  have hsettings : SettingsState before { progress with
      world := { progress.world with settings := settings, sidecars := sidecars } } := by
    unfold SettingsState
    rw [h.settingsRollback]
    exact ⟨rfl, rfl⟩
  exact ⟨⟨fun path hpath => (h.inv.file path hpath).congr rfl rfl, h.inv.created, h.inv.broken,
    hsettings, h.inv.codex, h.inv.tracking⟩, h.settingsRollback, h.codexRollback⟩

theorem orOther_ends {α : Type} {raised : Exn → Stop F}
    (h : ∀ exception, StopInv installer inputs before (raised exception))
    (x : Except Shapes.PyError α) :
    Ends (fun _ => True) (StopInv installer inputs before) (orOther raised x) := by
  cases x with
  | ok value => exact trivial
  | error _ => exact h _

section
variable [PyFloatText F] (faults : InstallFaults F) {progress : Progress F}

theorem saveAddedSettings_ends (h : Captured installer inputs before progress)
    (entries : List (InstalledSettingsEntry (Json F))) :
    Ends (Captured installer inputs before) (StopInv installer inputs before)
      (saveAddedSettings faults progress entries) := by
  unfold saveAddedSettings
  refine (orOther_ends (fun e => h.inv.stop _ e) _).bind fun added _ => ?_
  refine (Ends.raiseIf _ fun e => h.inv.stop _ e).bind fun _ _ => ?_
  exact h.write _ _

theorem writeMergedSettings_ends (existing : Option (Installation (Json F)))
    (h : Captured installer inputs before progress) (settings : Json F) :
    Ends (fun written => Captured installer inputs before written.1)
      (StopInv installer inputs before)
      (writeMergedSettings installer inputs faults existing progress settings) := by
  have hmerge : ∀ template : Template F,
      Ends (fun written => Captured installer inputs before written.1)
        (StopInv installer inputs before) (do
          let merged ← orOther (progress.stop .mergeSettings)
            (mergedSettings installer inputs existing template settings)
          raiseIf (progress.stop .writeSettings) faults.writeSettings
          let progress := { progress with
            world := { progress.world with settings := some (settingsBytes merged.1) } }
          let taken := (merged.2.1 ++ merged.2.2).map InstalledSettingsEntry.identity
          let carried := ((existing.map Installation.settingsEntries).getD []).filter
            (·.identity ∉ taken)
          let progress ← saveAddedSettings faults progress (merged.2.1 ++ carried)
          return (progress, merged.2.1 ++ carried)) := by
    intro template
    refine (orOther_ends (fun e => h.inv.stop _ e) _).bind fun merged _ => ?_
    refine (Ends.raiseIf _ fun e => h.inv.stop _ e).bind fun _ _ => ?_
    have hwritten := h.write (some (settingsBytes merged.1)) progress.world.sidecars
    exact (saveAddedSettings_ends faults hwritten _).bind fun _ hsaved => hsaved
  unfold writeMergedSettings
  cases faults.template with
  | ok template => exact hmerge template
  | error exception => exact h.inv.stop _ _

theorem applyInstallSettings_ends (existing : Option (Installation (Json F)))
    (h : FilesInv installer inputs before [] progress) :
    Ends (fun applied => Settled installer inputs before applied.1)
      (StopInv installer inputs before)
      (applyInstallSettings installer inputs faults existing progress) := by
  have hcaptured := h.captured
  unfold applyInstallSettings
  dsimp only
  split
  · refine (Ends.raiseIf _ fun e => h.inv.stop _ e).bind fun _ _ => ?_
    refine (Ends.raiseIf _ fun e => h.inv.stop _ e).bind fun _ _ => ?_
    refine (Ends.raiseIf _ fun e => hcaptured.inv.stop _ e).bind fun _ _ => ?_
    refine (Ends.raiseIf _ fun e => hcaptured.inv.stop _ e).bind fun _ _ => ?_
    split
    · exact hcaptured.inv.stop _ _
    · rename_i settings _
      exact (writeMergedSettings_ends faults existing hcaptured settings).bind
        fun _ hwritten => hwritten.settled
  · split
    · exact ⟨h.inv, h.codexRollback⟩
    · refine (Ends.raiseIf _ fun e => h.inv.stop _ e).bind fun _ _ => ?_
      refine (Ends.raiseIf _ fun e => h.inv.stop _ e).bind fun _ _ => ?_
      exact (saveAddedSettings_ends faults hcaptured _).bind fun _ hsaved => hsaved.settled

end

/-- A stale file that is removed was there before. -/
theorem Settled.remove {progress : Progress F} (h : Settled installer inputs before progress)
    {record : InstalledFile}
    (hmem : record ∈ (before.tracking.map Installation.files).getD [])
    (hstale : record.targetPath ∉ plannedTargets inputs before.tracking)
    (howned : installer.isForgeOwned (progress.world.files record.targetPath) record = true) :
    Settled installer inputs before
      { progress with world := progress.world.setFile record.targetPath none } := by
  have hverified : VerifiedStale installer inputs before record.targetPath
      ∧ record.targetPath ∉ progress.newlyCreatedFiles.map InstalledFile.targetPath := by
    cases h.inv.file record.targetPath (by simp) with
    | untouched same notCreated =>
      exact ⟨⟨record, hmem, rfl, hstale, same ▸ howned⟩, notCreated⟩
    | written planned recorded =>
      obtain ⟨filePlan, hplan, htarget, -⟩ := planned
      have hplanned : record.targetPath ∈ plannedTargets inputs before.tracking :=
        List.mem_append_left _ (List.mem_append_left _ (htarget ▸ List.mem_map_of_mem hplan))
      exact absurd hplanned hstale
    | removed stale gone notCreated => exact ⟨stale, notCreated⟩
  have hbroken := h.inv.setFile hverified.2 none
  refine ⟨⟨?_, hbroken.created, (fun _ hcase => by cases hcase), h.inv.settings, h.inv.codex,
    h.inv.tracking⟩, h.codexRollback⟩
  intro path _
  by_cases hpath : path = record.targetPath
  · rw [hpath]
    exact .removed hverified.1 (if_pos rfl) hverified.2
  · exact hbroken.file path fun heq => hpath (Option.some.inj heq).symm

theorem removeStale_ends (faults : InstallFaults F) {progress : Progress F}
    (h : Settled installer inputs before progress) {record : InstalledFile}
    (hmem : record ∈ (before.tracking.map Installation.files).getD []) :
    Ends (Settled installer inputs before) (StopInv installer inputs before)
      (removeStale installer inputs faults before.tracking progress record) := by
  have hraise (hstale : record.targetPath ∉ plannedTargets inputs before.tracking)
      (boundary : Option Exn) :
      Ends (Settled installer inputs before) (StopInv installer inputs before) (do
        raiseIf (progress.stop .staleCheck) boundary
        raiseIf (progress.stop .staleCheck) (faults.staleOwned record.targetPath)
        if installer.isForgeOwned (progress.world.files record.targetPath) record then
          raiseIf (progress.stop .staleUnlink) (faults.staleUnlink record.targetPath)
          return { progress with world := progress.world.setFile record.targetPath none }
        else return progress) := by
    refine (Ends.raiseIf _ fun e => h.inv.stop _ e).bind fun _ _ => ?_
    refine (Ends.raiseIf _ fun e => h.inv.stop _ e).bind fun _ _ => ?_
    split
    · rename_i howned
      exact (Ends.raiseIf _ fun e => h.inv.stop _ e).bind fun _ _ => h.remove hmem hstale howned
    · exact h
  unfold removeStale
  dsimp only
  split
  · exact h
  · rename_i hstale
    split
    · exact h
    · exact hraise hstale _

theorem reconcileInstallStaleFiles_ends (faults : InstallFaults F) {progress : Progress F}
    (h : Settled installer inputs before progress) :
    Ends (fun reconciled => Settled installer inputs before reconciled.1)
      (StopInv installer inputs before)
      (reconcileInstallStaleFiles installer inputs faults before.tracking progress) := by
  have hloop := Ends.foldlM
    (fun (rest : List InstalledFile) progress => Settled installer inputs before progress
      ∧ ∀ record ∈ rest, record ∈ (before.tracking.map Installation.files).getD [])
    (fun record rest progress hpass =>
      (removeStale_ends faults hpass.1 (hpass.2 record List.mem_cons_self)).mono
        (fun _ hnext => ⟨hnext, fun other hother => hpass.2 other (List.mem_cons_of_mem _ hother)⟩)
        fun _ hstop => hstop)
    ((before.tracking.map Installation.files).getD []) progress ⟨h, fun _ hmem => hmem⟩
  exact hloop.bind fun _ hend => hend.1

/-- Nothing after the write of the Codex configuration changes more. -/
theorem writeCodex_ends (faults : InstallFaults F) {progress : Progress F}
    (h : Settled installer inputs before progress) (content : Bytes) :
    Ends (Inv installer inputs before none) (StopInv installer inputs before)
      (writeCodex faults progress content) := by
  have hcodex : progress.world.codex = before.codex := by
    have hstate := h.inv.codex
    unfold CodexState at hstate
    rw [h.codexRollback] at hstate
    exact hstate
  have hwrite : ∀ (codex : Option (Bytes × Nat)) (state : CodexConfigRollbackState),
      CodexState before { progress with
        world := { progress.world with codex := codex }, codexRollback := some state } →
      Inv installer inputs before none { progress with
        world := { progress.world with codex := codex }, codexRollback := some state } :=
    fun _ _ hstate => ⟨fun path hpath => (h.inv.file path hpath).congr rfl rfl, h.inv.created,
      h.inv.broken, h.inv.settings, hstate, h.inv.tracking⟩
  unfold writeCodex
  dsimp only
  split
  · exact (hwrite progress.world.codex _ ⟨hcodex, Or.inl hcodex⟩).stop _ _
  · exact h.inv.stop _ _
  · split
    · let mode := (progress.world.codex.map Prod.snd).getD 0o600
      refine (hwrite (some (content, mode)) ⟨progress.world.codex, content,
        if faults.codexStatAgain then none else some mode⟩
        ⟨hcodex, Or.inr ⟨mode, rfl, ?_⟩⟩).stop _ _
      cases faults.codexStatAgain with
      | true => exact Or.inl rfl
      | false => exact Or.inr rfl
    · exact hwrite _ _ ⟨hcodex, Or.inr ⟨_, rfl, Or.inr rfl⟩⟩

theorem verifyCodex_ends (faults : InstallFaults F) {progress : Progress F}
    (h : Inv installer inputs before none progress) (configPath : String) :
    Ends (fun executed => Inv installer inputs before none executed.1)
      (StopInv installer inputs before) (verifyCodex installer faults progress configPath) := by
  unfold verifyCodex
  refine (Ends.raiseIf _ fun e => h.stop _ e).bind fun _ _ => ?_
  split
  · exact h.stop _ _
  · exact h

theorem mergeCodex_ends (faults : InstallFaults F) {progress : Progress F}
    (h : Settled installer inputs before progress) (configPath : String) :
    Ends (fun executed => Inv installer inputs before none executed.1)
      (StopInv installer inputs before) (mergeCodex installer faults progress configPath) := by
  unfold mergeCodex
  refine (Ends.raiseIf _ fun e => h.inv.stop _ e).bind fun _ _ => ?_
  dsimp only
  split
  · exact h.inv.stop _ _
  · exact h.inv
  · split
    · exact verifyCodex_ends faults h.inv configPath
    · exact (writeCodex_ends faults h _).bind fun _ hwritten =>
        verifyCodex_ends faults hwritten configPath

theorem executeCodex_ends (faults : InstallFaults F) {progress : Progress F}
    (h : Settled installer inputs before progress) :
    Ends (fun executed => Inv installer inputs before none executed.1)
      (StopInv installer inputs before) (executeCodex installer inputs faults progress) := by
  unfold executeCodex
  split
  · exact h.inv
  · split
    · exact h.inv
    · exact h.inv
    · exact h.inv
    · exact verifyCodex_ends faults h.inv _
    · exact mergeCodex_ends faults h _

theorem setInstallation_ends (faults : InstallFaults F) {progress : Progress F}
    (h : Inv installer inputs before none progress) (installation : Installation (Json F)) :
    Ends (fun _ => True) (StopInv installer inputs before)
      (setInstallation faults progress installation) := by
  unfold setInstallation
  refine (Ends.raiseIf _ fun e => h.stop _ e).bind fun _ _ => ?_
  split
  · exact h.stop _ _
  · exact trivial

/-- The invariant holds wherever a run raises. -/
theorem applyPlan_stop [PyFloatText F] {faults : InstallFaults F} {stop : Stop F}
    (h : applyPlan installer inputs faults before = .error stop) :
    StopInv installer inputs before stop := by
  have hends : Ends (fun _ => True) (StopInv installer inputs before)
      (applyPlan installer inputs faults before) := by
    unfold applyPlan
    refine (applyInstallFiles_ends faults before.tracking).bind fun _ hfiles => ?_
    refine (applyInstallSettings_ends faults before.tracking hfiles).bind fun _ hsettings => ?_
    refine (reconcileInstallStaleFiles_ends faults hsettings).bind fun _ hstale => ?_
    refine (executeCodex_ends faults hstale).bind fun _ hcodex => ?_
    exact setInstallation_ends faults hcodex _
  exact hends.eq_error h

/-! ## 6. After the exception -/

/-- Files that existed: the write that failed decides. -/
theorem existing_kept_iff {stop : Stop F} (h : StopInv installer inputs before stop) :
    (∀ path, before.files path ≠ none →
      stop.progress.world.files path = before.files path
        ∨ PlannedNode installer inputs path (stop.progress.world.files path)
        ∨ VerifiedStale installer inputs before path) ↔ WriteIntact installer before stop := by
  constructor
  · intro hkept filePlan hfailed hexists
    rcases hkept _ hexists with hsame | ⟨other, hother, htarget, hnode⟩ | ⟨_, _, _, hstale, _⟩
    · exact Or.inl hsame
    · have hplan : other = filePlan := List.inj_on_of_nodup_map inputs.plan.targets_distinct
        hother (h.planned filePlan hfailed) htarget
      exact Or.inr (hplan ▸ hnode)
    · have hplanned : filePlan.targetPath ∈ plannedTargets inputs before.tracking :=
        List.mem_append_left _ (List.mem_append_left _
          (List.mem_map_of_mem (h.planned filePlan hfailed)))
      exact absurd hplanned hstale
  · intro hintact path hexists
    by_cases hbroken : stop.failedWrite.map FilePlan.targetPath = some path
    · obtain ⟨filePlan, hfailed, htarget⟩ := Option.map_eq_some_iff.mp hbroken
      rcases hintact filePlan hfailed (htarget ▸ hexists) with hsame | hnew
      · exact Or.inl (htarget ▸ hsame)
      · exact Or.inr (Or.inl ⟨filePlan, h.planned filePlan hfailed, htarget, htarget ▸ hnew⟩)
    · cases h.inv.file path hbroken with
      | untouched same notCreated => exact Or.inl same
      | written planned recorded => exact Or.inr (Or.inl planned)
      | removed stale gone notCreated => exact Or.inr (Or.inr stale)

/-- The rollback leaves files that existed alone. -/
theorem rollBack_existing {stop : Stop F} (h : StopInv installer inputs before stop) {path : String}
    (hexists : before.files path ≠ none) :
    (rollBack installer stop).files path = stop.progress.world.files path := by
  rw [rollBack_files h, if_neg]
  rintro (hunrecorded | hcreated)
  · rw [h.unrecorded, Option.filter_eq_some_iff] at hunrecorded
    exact hexists (Option.isNone_iff_eq_none.mp hunrecorded.2)
  · obtain ⟨record, hmem, htarget⟩ := List.mem_map.mp hcreated
    exact hexists (htarget ▸ (h.inv.created record hmem).1)

/-- The rollback removes every file that is new. -/
theorem rollBack_new {stop : Stop F} (h : StopInv installer inputs before stop) {path : String}
    (hnew : before.files path = none) : (rollBack installer stop).files path = none := by
  rw [rollBack_files h]
  split
  · rfl
  · rename_i hkept
    rw [not_or] at hkept
    have hbroken : stop.failedWrite.map FilePlan.targetPath ≠ some path := by
      intro hfailed
      refine hkept.1 ?_
      rw [h.unrecorded, Option.filter_eq_some_iff]
      exact ⟨hfailed, by rw [hnew]; rfl⟩
    cases h.inv.file path hbroken with
    | untouched same notCreated => exact same.trans hnew
    | written planned recorded => exact absurd (recorded hnew) hkept.2
    | removed stale gone notCreated => exact gone

theorem undone_rollBack_iff {stop : Stop F} (h : StopInv installer inputs before stop) :
    Undone installer inputs before (rollBack installer stop)
      ↔ WriteIntact installer before stop ∧ CodexKnown before stop := by
  constructor
  · intro hundone
    refine ⟨(existing_kept_iff h).mp fun path hexists => ?_, (rollBack_codex h).mp hundone.codex⟩
    rw [← rollBack_existing h hexists]
    exact hundone.existing_kept path hexists
  · rintro ⟨hintact, hknown⟩
    obtain ⟨hsettings, hsidecars⟩ := rollBack_settings h
    refine ⟨fun path hnew => rollBack_new h hnew, fun path hexists => ?_, hsettings, hsidecars,
      (rollBack_codex h).mpr hknown, (rollBack_tracking stop).trans h.inv.tracking⟩
    rw [rollBack_existing h hexists]
    exact (existing_kept_iff h).mpr hintact path hexists

/-- Without a rollback the world stays as the run left it. -/
theorem undone_left_iff {stop : Stop F} (h : StopInv installer inputs before stop) :
    Undone installer inputs before stop.progress.world
      ↔ WriteIntact installer before stop ∧ NothingChanged before stop := by
  constructor
  · intro hundone
    exact ⟨(existing_kept_iff h).mp hundone.existing_kept, hundone.created_gone, hundone.settings,
      hundone.sidecars, hundone.codex⟩
  · rintro ⟨hintact, hnothing⟩
    exact ⟨hnothing.files, (existing_kept_iff h).mpr hintact, hnothing.settings, hnothing.sidecars,
      hnothing.codex, h.inv.tracking⟩

/-- An empty file for a project, and Forge's permissions. -/
def agentsPlan : InstallPlan where
  preservedRuntimeIds := []
  files := [⟨.install, "/p/.claude/agents/a.md", .copy, "/forge/agents/a.md", .agents,
    "claude_code"⟩]
  skillPackages := []
  codex := none
  targets_distinct := by simp

def agentsInputs (claudeModules : List InstallModule) : InstallInputs where
  plan := agentsPlan
  profile := "standard"
  mode := .copy
  force := false
  explicitRuntimes := false
  modules := .agents :: claudeModules
  selectedRuntimes := ["claude_code"]
  claudeModules := claudeModules

/-- The installer of a project; the sources are empty files, and there is no
Codex configuration to parse. -/
def projectInstaller : Installer FloatText where
  scope := .project
  projectPath := some "/p"
  source := fun _ => []
  checksum := fun content =>
    if content = [] then "e3b0c44298fc1c149afbf4c8996fb92427ae41e4649b934ca495991b7852b855" else ""
  resolve := fun path => path
  legacyHook := fun _ _ => false
  toml := ⟨fun _ => none, fun _ _ => rfl, fun _ h => absurd rfl h⟩
  codexEntries := []

/-- Settings whose allowed permissions are a string. -/
def stringPermissions : Json FloatText := .obj [("permissions", .obj [("allow", .str "x")])]

def emptyProject (settings : Option Bytes) : World FloatText where
  files := fun _ => none
  settings := settings
  sidecars := fun _ => none
  codex := none
  tracking := none

def writtenProject (settings : Option Bytes) : World FloatText :=
  (emptyProject settings).setFile "/p/.claude/agents/a.md" (some (.copy []))

def commitFaults : InstallFaults FloatText where
  now := "t"
  backupPath := "/p/.claude/settings.json.bak"
  addedPath := "/p/.claude/.forge_added.json"
  commit := some .state

/-- The run as it was when the file had been written. -/
def writtenProgress (settings : Option Bytes) : Progress FloatText where
  world := writtenProject settings
  installedFiles := [⟨"/p/.claude/agents/a.md", "/forge/agents/a.md",
    "e3b0c44298fc1c149afbf4c8996fb92427ae41e4649b934ca495991b7852b855", "copy", "t",
    .owner ⟨"agents", "claude_code"⟩⟩]
  newlyCreatedFiles := [⟨"/p/.claude/agents/a.md", "/forge/agents/a.md",
    "e3b0c44298fc1c149afbf4c8996fb92427ae41e4649b934ca495991b7852b855", "copy", "t",
    .owner ⟨"agents", "claude_code"⟩⟩]

/-- The settings of the built-in preset, with its permissions only. -/
def presetFaults : InstallFaults FloatText where
  now := "t"
  backupPath := "/p/.claude/settings.json.bak"
  addedPath := "/p/.claude/.forge_added.json"
  template := .ok { allow := ["Write", "Edit"] }

theorem readSettings_stringPermissions :
    readSettings (some (Utf8.encode (dumpChars .default stringPermissions)))
      = some stringPermissions := by
  have hplain : Lines.translate (dumpChars .default stringPermissions)
      = dumpChars .default stringPermissions := Lines.translate_eq_self_iff.mpr (by decide)
  simp only [readSettings, CodexConfig.readText, Utf8.decode_encode, Option.map_some, hplain,
    Option.bind_some]
  exact loads_dumps Separators.default_valid (by simp [stringPermissions, Proper, ProperItems])

/-- A string has no `append`, and no handler is there for that. -/
theorem applyPlan_stringPermissions {content : Bytes}
    (h : readSettings (some content) = some stringPermissions) :
    applyPlan projectInstaller (agentsInputs [.permissions]) presetFaults
        (emptyProject (some content))
      = .error ((captureSettings (writtenProgress (some content))).stop .mergeSettings .other) := by
  have hfiles : applyInstallFiles projectInstaller (agentsInputs [.permissions]) presetFaults none
      { world := emptyProject (some content) } = .ok (writtenProgress (some content)) := rfl
  have hsettings : applyInstallSettings projectInstaller (agentsInputs [.permissions]) presetFaults
      none (writtenProgress (some content))
      = .error ((captureSettings (writtenProgress (some content))).stop .mergeSettings .other) := by
    have hcontent : (captureSettings (writtenProgress (some content))).world.settings
        = some content := rfl
    unfold applyInstallSettings
    simp only [hcontent, h]
    rfl
  have hexisting : (emptyProject (some content)).tracking = none := rfl
  simp only [applyPlan, hexisting, hfiles, bind, Except.bind, hsettings]

end MultiForge.Install.Apply
