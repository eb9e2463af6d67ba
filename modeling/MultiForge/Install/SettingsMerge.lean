/-
MultiForge.Install.SettingsMerge — `forge.install.settings_merge`: merging
Forge's settings into the user's Claude settings and taking them out.

`Settings` is a settings object with its typed sections apart: hooks are
lists of objects by event, permissions lists of strings by type, `env` is
strings by name, and `other` holds every other key. A section that is not
there is `none`. Tracking entries are an inductive whose constructors are
the key paths `hooks.<event>`, `permissions.<type>`, `env.<key>` and a
top-level key.
-/
import Mathlib.Data.List.Sort
import MultiForge.Json.Text
import MultiForge.Lib.Dict
import MultiForge.Lib.KeyedUnion

namespace MultiForge.Install

open Json

variable {F : Type}

/-! ## 1. JSON values of settings -/

mutual

/-- The items of every object in the order of their keys. -/
def sortKeys : Json F → Json F
  | .list xs => .list (sortKeysList xs)
  | .obj items => .obj ((sortKeysItems items).insertionSort fun a b => a.1 ≤ b.1)
  | v => v

def sortKeysList : List (Json F) → List (Json F)
  | [] => []
  | v :: vs => sortKeys v :: sortKeysList vs

def sortKeysItems : List (String × Json F) → List (String × Json F)
  | [] => []
  | (k, v) :: rest => (k, sortKeys v) :: sortKeysItems rest

end

/-- A hook entry is an object. -/
abbrev HookEntry (F : Type) := List (String × Json F)

/-- `_canonical_json` -/
def canonicalJson [PyFloatText F] (entry : HookEntry F) : String :=
  dumps (sortKeys (.obj entry)) .compact

mutual

/-- `_deep_equals` -/
def deepEquals [PyFloat F] : Json F → Json F → Bool
  | .null, .null => true
  | .bool a, .bool b => a = b
  | .int a, .int b => a = b
  | .float a, .float b => PyFloat.eq a b
  | .str a, .str b => a = b
  | .list as, .list bs => deepEqualsList as bs
  | .obj as, .obj bs => as.length = bs.length && deepEqualsItems as bs
  | _, _ => false

def deepEqualsList [PyFloat F] : List (Json F) → List (Json F) → Bool
  | [], [] => true
  | a :: as, b :: bs => deepEquals a b && deepEqualsList as bs
  | _, _ => false

def deepEqualsItems [PyFloat F] : List (String × Json F) → List (String × Json F) → Bool
  | [], _ => true
  | (k, a) :: rest, bs => (match lookup k bs with
      | some b => deepEquals a b
      | none => false) && deepEqualsItems rest bs

end

/-! ## 2. Settings -/

structure Settings (F : Type) where
  hooks : Option (Dict String (List (HookEntry F))) := none
  permissions : Option (Dict String (List String)) := none
  env : Option (Dict String String) := none
  other : Dict String (Json F) := .empty
  deriving DecidableEq

/-- The settings object has no keys. -/
def Settings.isEmpty (s : Settings F) : Bool :=
  s.hooks.isNone && s.permissions.isNone && s.env.isNone && s.other.isEmpty

/-- The settings Forge merges in, as far as `merge` reads them. -/
structure Template (F : Type) where
  hooks : Dict String (List (HookEntry F)) := .empty
  allow : List String := []
  deny : List String := []
  statusLine : Option (Json F) := none
  env : Dict String String := .empty
  deriving DecidableEq

/-- `InstalledSettingsEntry` -/
inductive SettingsEntry (F : Type) where
  | hook (event : String) (value : HookEntry F)
  | permission (type value : String)
  | env (key value : String)
  | scalar (key : String) (value : Json F)
  deriving DecidableEq

/-- The key path and the `stable_id` of an entry. -/
inductive EntryId where
  | hook (event canonical : String)
  | permission (type value : String)
  | env (key : String)
  | scalar (key : String)
  deriving DecidableEq

/-- `SettingsConflictError` -/
structure SettingsConflict (F : Type) where
  key : String
  current : Json F
  value : Json F
  deriving DecidableEq

def SettingsEntry.hook? (event : String) : SettingsEntry F → Option (HookEntry F)
  | .hook e v => if e = event then some v else none
  | _ => none

def SettingsEntry.permission? (type : String) : SettingsEntry F → Option String
  | .permission t v => if t = type then some v else none
  | _ => none

/-- `d.items()` in the order of the keys. -/
def sortedItems {α : Type} (d : Dict String α) : List (String × α) :=
  d.entries.insertionSort fun a b => a.1 ≤ b.1

section Merge

variable [PyFloatText F]

def SettingsEntry.id : SettingsEntry F → EntryId
  | .hook event value => .hook event (canonicalJson value)
  | .permission type value => .permission type value
  | .env key _ => .env key
  | .scalar key _ => .scalar key

/-- The entries of a hook type: none when the key is not there. -/
def Settings.hooksAt (s : Settings F) (event : String) : List (HookEntry F) :=
  ((s.hooks.getD .empty).get? event).getD []

def Settings.permissionsAt (s : Settings F) (type : String) : List String :=
  ((s.permissions.getD .empty).get? type).getD []

def Settings.envAt (s : Settings F) (key : String) : Option String :=
  (s.env.getD .empty).get? key

/-! ## 3. Merging -/

/-- `merge_hooks` -/
def mergeHooks (s : Settings F) (event : String) (entries : List (HookEntry F)) :
    Settings F × List (SettingsEntry F) :=
  let existing := s.hooksAt event
  let added := KeyedUnion.fresh canonicalJson (existing.map canonicalJson) entries
  ({ s with hooks := some ((s.hooks.getD .empty).set event (existing ++ added)) },
    added.map (.hook event))

/-- The loop over the template's hooks. -/
def mergeHookTypes : List (String × List (HookEntry F)) → Settings F →
    Settings F × List (SettingsEntry F)
  | [], s => (s, [])
  | (event, entries) :: rest, s =>
      let r := mergeHooks s event entries
      let r' := mergeHookTypes rest r.1
      (r'.1, r.2 ++ r'.2)

/-- `merge_permissions`, for a list that is not empty. -/
def mergePermissions (s : Settings F) (type : String) (entries : List String) :
    Settings F × List (SettingsEntry F) :=
  if entries.isEmpty then (s, [])
  else
    let existing := s.permissionsAt type
    let added := KeyedUnion.fresh (fun p => p) existing entries
    ({ s with permissions := some ((s.permissions.getD .empty).set type (existing ++ added)) },
      added.map (.permission type))

/-- `merge_env`, for a template with variables. -/
def mergeEnv (s : Settings F) (forgeEnv : Dict String String) :
    Settings F × List (SettingsEntry F) :=
  if forgeEnv.isEmpty then (s, [])
  else
    ({ s with env := some (Dict.upsertEach (fun _ v => v) (sortedItems forgeEnv)
        (s.env.getD .empty)) },
      (sortedItems forgeEnv).map fun kv => .env kv.1 kv.2)

/-- `set_scalar` -/
def setScalar (s : Settings F) (key : String) (value : Json F) (force : Bool) :
    Except (SettingsConflict F) (Settings F × List (SettingsEntry F)) :=
  let current := (s.other.get? key).getD .null
  if current.pyEq .null = false ∧ current.pyEq value = false ∧ force = false then
    .error ⟨key, current, value⟩
  else if current.pyEq value then .ok (s, [])
  else .ok ({ s with other := s.other.set key value }, [.scalar key value])

/-- What an install asks for. -/
structure MergeOptions where
  hooks : Bool
  statusLine : Bool
  permissions : Bool
  force : Bool
  deriving DecidableEq, Repr

/-- The hooks of `merge`. -/
def mergeHookSection (s : Settings F) (t : Template F) (o : MergeOptions) :
    Settings F × List (SettingsEntry F) :=
  if o.hooks then mergeHookTypes (sortedItems t.hooks) s else (s, [])

/-- The permissions of `merge`. -/
def mergePermissionSection (s : Settings F) (t : Template F) (o : MergeOptions) :
    Settings F × List (SettingsEntry F) :=
  if o.permissions then
    let a := mergePermissions s "allow" t.allow
    let d := mergePermissions a.1 "deny" t.deny
    (d.1, a.2 ++ d.2)
  else (s, [])

/-- The environment of `merge`. -/
def mergeEnvSection (s : Settings F) (t : Template F) (o : MergeOptions) :
    Settings F × List (SettingsEntry F) :=
  if o.permissions then mergeEnv s t.env else (s, [])

/-- The status line, when it is asked for and the template has one. -/
def mergeStatusLine (s : Settings F) (t : Template F) (o : MergeOptions) :
    Except (SettingsConflict F) (Settings F × List (SettingsEntry F)) :=
  match t.statusLine with
  | some value => if o.statusLine then setScalar s "statusLine" value o.force else .ok (s, [])
  | none => .ok (s, [])

/-- `merge` -/
def merge (s : Settings F) (t : Template F) (o : MergeOptions) :
    Except (SettingsConflict F) (Settings F × List (SettingsEntry F)) := do
  let h := mergeHookSection s t o
  let p := mergePermissionSection h.1 t o
  let l ← mergeStatusLine p.1 t o
  let e := mergeEnvSection l.1 t o
  return (e.1, h.2 ++ p.2 ++ l.2 ++ e.2)

/-! ## 4. Taking out -/

/-- What Forge added, by key. -/
structure Added (F : Type) where
  hooks : Dict String (List (HookEntry F)) := .empty
  permissions : Dict String (List String) := .empty
  env : Dict String String := .empty
  scalars : Dict String (Json F) := .empty
  deriving DecidableEq

def Added.isEmpty (a : Added F) : Bool :=
  a.hooks.isEmpty && a.permissions.isEmpty && a.env.isEmpty && a.scalars.isEmpty

/-- One entry of `entries_to_added_structure`. -/
def Added.add (a : Added F) : SettingsEntry F → Added F
  | .hook event value =>
      { a with hooks := a.hooks.set event ((a.hooks.get? event).getD [] ++ [value]) }
  | .permission type value =>
      { a with
        permissions := a.permissions.set type ((a.permissions.get? type).getD [] ++ [value]) }
  | .env key value => { a with env := a.env.set key value }
  | .scalar key value => { a with scalars := a.scalars.set key value }

/-- `entries_to_added_structure` -/
def entriesToAddedStructure (entries : List (SettingsEntry F)) : Added F :=
  entries.foldl Added.add {}

/-- `new_list` of a hook type. -/
def removeHooks (added : List (HookEntry F)) (current : List (HookEntry F)) :
    List (HookEntry F) :=
  KeyedUnion.without canonicalJson (added.map canonicalJson) current

def removePermissions (added current : List String) : List String :=
  KeyedUnion.without (fun p => p) added current

/-- The value an unmodified environment variable gets back. -/
def restoreEnv (backup : Settings F) (key added current : String) : Option String :=
  if current = added then backup.envAt key else some current

/-- The value an unmodified scalar gets back; `null` in the backup is as
good as no value. -/
def restoreScalar (backup : Settings F) (key : String) (added current : Json F) :
    Option (Json F) :=
  if deepEquals current added then
    match backup.other.get? key with
    | some .null => none
    | v => v
  else some current

/-- `smart_unmerge` -/
def smartUnmerge (current backup : Settings F) (added : Added F) : Settings F where
  hooks := current.hooks.map
    (Dict.alterEach (fun _ a c => some (removeHooks a c)) added.hooks.entries)
  permissions := current.permissions.map
    (Dict.alterEach (fun _ a c => some (removePermissions a c)) added.permissions.entries)
  env := current.env.map (Dict.alterEach (restoreEnv backup) added.env.entries)
  other := Dict.alterEach (restoreScalar backup) added.scalars.entries current.other

/-- A section without its falsy values, or none when nothing is left. -/
def cleanSection {α : Type} (truthy : α → Bool) (d : Dict String α) : Option (Dict String α) :=
  let kept := d.filter fun _ v => truthy v
  if kept.isEmpty then none else some kept

/-- `cleanup_empty_settings`: of the environment it also drops the
variables that are empty. -/
def cleanupEmptySettings (s : Settings F) : Settings F where
  hooks := s.hooks.bind (cleanSection fun l => !l.isEmpty)
  permissions := s.permissions.bind (cleanSection fun l => !l.isEmpty)
  env := s.env.bind (cleanSection fun v => v ≠ "")
  other := s.other

/-- Two sections with the same keys and equal values. -/
def sectionEquals {α : Type} (eq : α → α → Bool) : Option (Dict String α) →
    Option (Dict String α) → Bool
  | none, none => true
  | some a, some b => a.entries.length = b.entries.length &&
      a.entries.all fun kv => match b.get? kv.1 with
        | some v => eq kv.2 v
        | none => false
  | _, _ => false

/-- `settings_equal` -/
def settingsEqual (a b : Settings F) : Bool :=
  let a := cleanupEmptySettings a
  let b := cleanupEmptySettings b
  sectionEquals (fun l l' => deepEqualsList (l.map .obj) (l'.map .obj)) a.hooks b.hooks &&
    sectionEquals (fun l l' => l = l') a.permissions b.permissions &&
    sectionEquals (fun v v' => v = v') a.env b.env &&
    sectionEquals deepEquals (some a.other) (some b.other)

/-- The canonical forms `unmerge` removes: an empty entry is none of them. -/
def canonicalToRemove (entries : List (HookEntry F)) : List String :=
  (entries.filter fun e => !e.isEmpty).map canonicalJson

/-- `unmerge` -/
def unmerge (s : Settings F) (entries : List (SettingsEntry F)) : Settings F where
  hooks := s.hooks.map (Dict.alterEach
    (fun _ a c => some (KeyedUnion.without canonicalJson (canonicalToRemove a) c))
    (entriesToAddedStructure entries).hooks.entries)
  permissions := s.permissions.map (Dict.alterEach (fun _ a c => some (removePermissions a c))
    (entriesToAddedStructure entries).permissions.entries)
  env := s.env.bind fun env =>
    let kept := env.filter fun k v => !entries.any fun
      | .env k' v' => k' = k && v' = v
      | _ => false
    if kept.isEmpty then none else some kept
  other := s.other.filter fun k v => !entries.any fun
    | .scalar k' v' => k' = k && deepEquals v v'
    | _ => false

/-- `remove_known_legacy_hook_entries`, for the entries that
`known_legacy_hook_shape` recognizes. -/
def removeKnownLegacyHookEntries (legacy : String → HookEntry F → Bool) (s : Settings F) :
    Settings F :=
  match s.hooks with
  | none => s
  | some hooks => cleanupEmptySettings { s with
      hooks := some (Dict.alterEach (fun event _ l => some (l.filter fun e => !legacy event e))
        hooks.entries hooks) }

end Merge

/-! ## 5. Install and uninstall -/

/-- The settings file and what is recorded about it. -/
structure InstallState (F : Type) where
  file : Option (Settings F)
  entries : List (SettingsEntry F) := []
  /-- the newest `.forge.added` file -/
  addedFile : Option (Added F) := none
  /-- the baseline, once it is established; `some none` is no file -/
  baseline : Option (Option (Settings F)) := none

/-- One install or sync. -/
structure InstallStep (F : Type) where
  template : Template F
  options : MergeOptions

section Installer

variable [PyFloatText F]

def SettingsEntry.isHook : SettingsEntry F → Bool
  | .hook _ _ => true
  | _ => false

/-- The hook entries that are taken out before a merge at user scope. -/
def oldHookEntries (user : Bool) (st : InstallState F) (o : MergeOptions) :
    List (SettingsEntry F) :=
  if user ∧ o.hooks then st.entries.filter SettingsEntry.isHook else []

/-- The settings an install merges into. -/
def preparedSettings (user : Bool) (legacy : String → HookEntry F → Bool) (st : InstallState F)
    (o : MergeOptions) : Settings F :=
  let s := st.file.getD {}
  let old := oldHookEntries user st o
  let s := if old.isEmpty then s else unmerge s old
  if user ∧ o.hooks then removeKnownLegacyHookEntries legacy s else s

/-- The tracked entries that are carried over. -/
def carriedEntries (entries old existing : List (SettingsEntry F)) : List (SettingsEntry F) :=
  existing.filter fun e =>
    e.id ∉ entries.map SettingsEntry.id ∧ e.id ∉ old.map SettingsEntry.id

/-- `_apply_install_settings` -/
def applyInstallSettings (user : Bool) (legacy : String → HookEntry F → Bool)
    (st : InstallState F) (step : InstallStep F) :
    Except (SettingsConflict F) (InstallState F) :=
  let o := step.options
  if o.hooks ∨ o.statusLine ∨ o.permissions then do
    let (settings, entries) ← merge (preparedSettings user legacy st o) step.template o
    let final := entries ++ carriedEntries entries (oldHookEntries user st o) st.entries
    return {
      file := some settings
      entries := final
      addedFile := some (entriesToAddedStructure final)
      baseline := some (st.baseline.getD st.file) }
  else .ok { st with
    addedFile := if st.entries.isEmpty then st.addedFile
      else some (entriesToAddedStructure st.entries) }

/-- The settings part of `uninstall`: the file that is left. -/
def uninstallSettings (st : InstallState F) : Option (Settings F) :=
  let baselineFile := st.baseline.getD none
  if st.entries.isEmpty ∧ st.addedFile.isNone ∧ baselineFile.isNone then st.file
  else
    let current := st.file.getD {}
    let backup := baselineFile.getD {}
    let added := st.addedFile.getD {}
    if added.isEmpty then some (unmerge current st.entries)
    else
      let result := cleanupEmptySettings (smartUnmerge current backup added)
      let backupCleaned := cleanupEmptySettings backup
      if settingsEqual result backupCleaned then
        if baselineFile.isSome ∧ !backupCleaned.isEmpty then some backupCleaned else none
      else some result

end Installer

end MultiForge.Install
