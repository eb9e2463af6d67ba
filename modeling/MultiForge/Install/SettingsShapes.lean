/-
MultiForge.Install.SettingsShapes — settings files of any shape.

`Install.SettingsMerge` has the settings with their sections typed. The
user's file may hold anything, and an install works on what `json.load`
returns: where a section has another shape than Forge expects, the code
raises. Here the same functions work on JSON values, with the exceptions
told apart by kind. Updates in place are the value that is returned.
-/
import Mathlib.Data.List.Infix
import MultiForge.Install.SettingsMerge
import MultiForge.Install.Tracking

namespace MultiForge.Install.Shapes

open Json

/-- What Python raises. -/
inductive PyError where
  | attributeError
  | typeError
  | settingsConflict (key : String)
  deriving DecidableEq, Repr

variable {F : Type}

/-! ## 1. Values of any shape -/

/-- The receiver of `.get`, `.setdefault` and `.items`. -/
def asDict : Json F → Except PyError (List (String × Json F))
  | .obj items => .ok items
  | _ => .error .attributeError

/-- `for x in value` -/
def iterate : Json F → Except PyError (List (Json F))
  | .list xs => .ok xs
  | .obj items => .ok (items.map fun item => .str item.1)
  | .str s => .ok (s.toList.map fun c => .str (String.singleton c))
  | _ => .error .typeError

/-- `value.append`, once for every addition. -/
def append (value : Json F) (added : List (Json F)) : Except PyError (Json F) :=
  match value, added with
  | value, [] => .ok value
  | .list xs, added => .ok (.list (xs ++ added))
  | _, _ => .error .attributeError

/-- `value[key]`, if `key in value`. -/
def section? [PyFloat F] (value : Json F) (key : String) : Except PyError (Option (Json F)) :=
  match value with
  | .obj items => .ok (lookup key items)
  | .list xs => if xs.any (·.pyEq (.str key)) then .error .typeError else .ok none
  | .str s => if key.toList <:+: s.toList then .error .typeError else .ok none
  | _ => .error .typeError

def dict? : Json F → Option (List (String × Json F))
  | .obj items => some items
  | _ => none

def string? : Json F → Option String
  | .str s => some s
  | _ => none

/-- Lists and objects cannot be in a set. -/
def isHashable : Json F → Bool
  | .list _ => false
  | .obj _ => false
  | _ => true

/-! ## 2. Merging -/

section
variable [PyFloatText F]

/-- `merge_hooks` -/
def mergeHooks (settings : Json F) (hookType : String) (entries : List (HookEntry F))
    (attribution : SurfaceAttribution) :
    Except PyError (Json F × List (InstalledSettingsEntry (Json F))) := do
  let items ← asDict settings
  let hooks ← asDict (getD items "hooks" (.obj []))
  let existing := getD hooks hookType (.list [])
  let members ← iterate existing
  let added := KeyedUnion.fresh canonicalJson ((members.filterMap dict?).map canonicalJson) entries
  let merged ← append existing (added.map .obj)
  return (.obj (insert "hooks" (.obj (insert hookType merged hooks)) items),
    added.map fun entry => ⟨"hooks." ++ hookType, .obj entry, "append", canonicalJson entry,
      attribution⟩)

/-- `merge_permissions` -/
def mergePermissions (settings : Json F) (permissionType : String) (entries : List String)
    (attribution : SurfaceAttribution) :
    Except PyError (Json F × List (InstalledSettingsEntry (Json F))) := do
  let items ← asDict settings
  let permissions ← asDict (getD items "permissions" (.obj []))
  let existing := getD permissions permissionType (.list [])
  let members ← iterate existing
  if members.all isHashable then
    let added := KeyedUnion.fresh (fun entry => entry) (members.filterMap string?) entries
    let merged ← append existing (added.map .str)
    return (.obj (insert "permissions" (.obj (insert permissionType merged permissions)) items),
      added.map fun entry => ⟨"permissions." ++ permissionType, .str entry, "union", entry,
        attribution⟩)
  else .error .typeError

/-- `merge_env`: items can be set in an object only. -/
def mergeEnv (settings : Json F) (forgeEnv : Dict String String)
    (attribution : SurfaceAttribution) :
    Except PyError (Json F × List (InstalledSettingsEntry (Json F))) := do
  let items ← asDict settings
  match getD items "env" (.obj []) with
  | .obj env =>
      let merged := (sortedItems forgeEnv).foldl
        (fun env pair => insert pair.1 (.str pair.2) env) env
      return (.obj (insert "env" (.obj merged) items),
        (sortedItems forgeEnv).map fun pair =>
          ⟨"env." ++ pair.1, .str pair.2, "env", pair.1, attribution⟩)
  | _ => .error .typeError

/-- `set_scalar` -/
def setScalar (settings : Json F) (key : String) (value : Json F) (force : Bool)
    (attribution : SurfaceAttribution) :
    Except PyError (Json F × List (InstalledSettingsEntry (Json F))) := do
  let items ← asDict settings
  let current := get items key
  if current.pyEq .null = false ∧ current.pyEq value = false ∧ force = false then
    .error (.settingsConflict key)
  else if current.pyEq value then return (settings, [])
  else return (.obj (insert key value items), [⟨key, value, "scalar", key, attribution⟩])

def claudeOwned (module : InstallModule) : SurfaceAttribution := attributed module claudeCodeRuntime

/-- The loop over the template's hooks. -/
def mergeHookTypes : List (String × List (HookEntry F)) → Json F →
    Except PyError (Json F × List (InstalledSettingsEntry (Json F)))
  | [], settings => .ok (settings, [])
  | (hookType, entries) :: rest, settings => do
      let first ← mergeHooks settings hookType entries (claudeOwned .hooks)
      let more ← mergeHookTypes rest first.1
      return (more.1, first.2 ++ more.2)

/-- Run one part of `merge` if it is asked for. -/
def mergePart (wanted : Bool)
    (part : Json F → Except PyError (Json F × List (InstalledSettingsEntry (Json F))))
    (merged : Json F × List (InstalledSettingsEntry (Json F))) :
    Except PyError (Json F × List (InstalledSettingsEntry (Json F))) :=
  if wanted then do
    let next ← part merged.1
    return (next.1, merged.2 ++ next.2)
  else .ok merged

/-- `merge` -/
def merge (settings : Json F) (template : Template F) (options : MergeOptions) :
    Except PyError (Json F × List (InstalledSettingsEntry (Json F))) := do
  let merged ← mergePart options.hooks (mergeHookTypes (sortedItems template.hooks)) (settings, [])
  let merged ← mergePart (options.permissions && !template.allow.isEmpty)
    (mergePermissions · "allow" template.allow (claudeOwned .permissions)) merged
  let merged ← mergePart (options.permissions && !template.deny.isEmpty)
    (mergePermissions · "deny" template.deny (claudeOwned .permissions)) merged
  let merged ← match template.statusLine with
    | none => .ok merged
    | some value => mergePart options.statusLine (fun settings =>
        setScalar settings "statusLine" value options.force (claudeOwned .statusline)) merged
  mergePart (options.permissions && !template.env.isEmpty)
    (mergeEnv · template.env (claudeOwned .permissions)) merged

/-! ## 3. Taking out -/

/-- `key_path.split(".", 1)[1]` -/
def subKey (keyPath : String) : String :=
  String.ofList ((keyPath.toList.dropWhile (· ≠ '.')).drop 1)

/-- `by_key` -/
def byKey (entries : List (InstalledSettingsEntry (Json F))) :
    Dict String (List (InstalledSettingsEntry (Json F))) :=
  Dict.upsertEach (fun found entry => found.getD [] ++ [entry])
    (entries.map fun entry => (entry.keyPath, entry)) Dict.empty

/-- The canonical forms of entries that are objects with items. -/
def removedForms (entries : List (InstalledSettingsEntry (Json F))) : List String :=
  ((entries.filterMap fun entry => dict? entry.value).filter (!·.isEmpty)).map canonicalJson

/-- The loop of `unmerge` over hook types, on the value of `hooks`. -/
def unmergeHookTypes : List (String × List (InstalledSettingsEntry (Json F))) → Json F →
    Except PyError (Json F)
  | [], hooks => .ok hooks
  | (keyPath, entries) :: rest, hooks => do
      match ← section? hooks (subKey keyPath) with
      | none => unmergeHookTypes rest hooks
      | some registered =>
          let members ← iterate registered
          let kept := members.filter fun member => match dict? member with
            | none => true
            | some hook => canonicalJson hook ∉ removedForms entries
          let items ← asDict hooks
          unmergeHookTypes rest (.obj (insert (subKey keyPath) (.list kept) items))

/-- A scalar that still has one of its recorded values. -/
def unmergeScalar (items : List (String × Json F))
    (group : String × List (InstalledSettingsEntry (Json F))) : List (String × Json F) :=
  match group.2.head?, lookup group.1 items with
  | some first, some current =>
      if first.mergeType = "scalar" ∧ group.2.any fun entry => deepEquals current entry.value then
        erase group.1 items
      else items
  | _, _ => items

/-- `unmerge`, of hook entries. -/
def unmerge (settings : Json F) (entries : List (InstalledSettingsEntry (Json F))) :
    Except PyError (Json F) := do
  let groups := (byKey entries).entries
  let items ← asDict settings
  let hooks ← unmergeHookTypes groups (getD items "hooks" (.obj []))
  let items := if hasKey items "hooks" then insert "hooks" hooks items else items
  let items := match lookup "env" items with
    | some env => if env.truthy then items else erase "env" items
    | none => items
  return .obj (groups.foldl unmergeScalar items)

/-- One section of `cleanup_empty_settings`. -/
def cleanupSection (key : String) (items : List (String × Json F)) :
    Except PyError (List (String × Json F)) :=
  match lookup key items with
  | none => .ok items
  | some value => do
      let members ← asDict value
      let kept := members.filter fun member => member.2.truthy
      return if kept.isEmpty then erase key items else insert key (.obj kept) items

/-- `cleanup_empty_settings` -/
def cleanupEmptySettings (items : List (String × Json F)) :
    Except PyError (List (String × Json F)) := do
  let items ← cleanupSection "hooks" items
  let items ← cleanupSection "permissions" items
  cleanupSection "env" items

/-- `remove_known_legacy_hook_entries`, for the entries that
`known_legacy_hook_shape` recognizes. -/
def removeKnownLegacyHookEntries (legacy : String → Json F → Bool) (settings : Json F) :
    Except PyError (Json F) := do
  let items ← asDict settings
  match get items "hooks" with
  | .obj hooks =>
      let kept := hooks.map fun hook => match hook.2 with
        | .list entries => (hook.1, .list (entries.filter fun entry => !legacy hook.1 entry))
        | other => (hook.1, other)
      return .obj (← cleanupEmptySettings (insert "hooks" (.obj kept) items))
  | _ => return settings

/-! ## 4. The ownership sidecar -/

/-- Append to a list in a section of the structure. -/
def addToSection (key member : String) (value : Json F) (added : List (String × Json F)) :
    Except PyError (List (String × Json F)) := do
  let members ← asDict (getD added key (.obj []))
  let list ← append (getD members member (.list [])) [value]
  return insert key (.obj (insert member list members)) added

/-- One entry of `entries_to_added_structure`. -/
def addEntry (entry : InstalledSettingsEntry (Json F)) (added : List (String × Json F)) :
    Except PyError (List (String × Json F)) :=
  if "hooks.".toList <+: entry.keyPath.toList then
    addToSection "hooks" (subKey entry.keyPath) entry.value added
  else if "permissions.".toList <+: entry.keyPath.toList then
    addToSection "permissions" (subKey entry.keyPath) entry.value added
  else if "env.".toList <+: entry.keyPath.toList then
    match getD added "env" (.obj []) with
    | .obj env => .ok (insert "env" (.obj (insert (subKey entry.keyPath) entry.value env)) added)
    | _ => .error .typeError
  else if entry.mergeType = "scalar" then .ok (insert entry.keyPath entry.value added)
  else .ok added

/-- `entries_to_added_structure` -/
def entriesToAddedStructure : List (InstalledSettingsEntry (Json F)) →
    List (String × Json F) → Except PyError (List (String × Json F))
  | [], added => .ok added
  | entry :: entries, added => do entriesToAddedStructure entries (← addEntry entry added)

/-! ## 5. The text of a settings file -/

/-- A line break and the indentation of a level. -/
def newline (level : Nat) : List Char := '\n' :: List.replicate (2 * level) ' '

mutual

/-- `json.dumps(v, indent=2)` -/
def dumpIndent (level : Nat) : Json F → List Char
  | .list (v :: vs) =>
      '[' :: (newline (level + 1) ++ dumpIndent (level + 1) v ++ dumpIndentTail (level + 1) vs
        ++ newline level ++ [']'])
  | .obj ((k, v) :: rest) =>
      '{' :: (newline (level + 1) ++ strChars k ++ ": ".toList ++ dumpIndent (level + 1) v
        ++ dumpIndentItems (level + 1) rest ++ newline level ++ ['}'])
  | v => dumpChars .default v

def dumpIndentTail (level : Nat) : List (Json F) → List Char
  | [] => []
  | v :: vs => ',' :: (newline level ++ dumpIndent level v ++ dumpIndentTail level vs)

def dumpIndentItems (level : Nat) : List (String × Json F) → List Char
  | [] => []
  | (k, v) :: rest =>
      ',' :: (newline level ++ strChars k ++ ": ".toList ++ dumpIndent level v
        ++ dumpIndentItems level rest)

end

/-- What `write_settings` writes. -/
def settingsText (settings : Json F) : List Char := dumpIndent 0 settings ++ ['\n']

end

end MultiForge.Install.Shapes
