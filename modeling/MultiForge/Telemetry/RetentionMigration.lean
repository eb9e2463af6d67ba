/-
MultiForge.Telemetry.RetentionMigration —
`forge.core.telemetry.downstream_retention`: one policy of retention, out of
the global configuration or the settings that proxies used to have, and the
migration of the latter into the former.

A document is what both YAML loaders make of a file, without the aliases
in it. The migration is a list of writes, each of which reads one file and
replaces it; it can be cut short after any of them.
-/
import Mathlib.Data.List.Dedup
import Mathlib.Logic.Function.Basic

namespace MultiForge.Telemetry.RetentionMigration

/-! ## 1. Documents -/

/-- A key of a mapping. -/
inductive Key where
  | str (s : String)
  /-- any other, by its `str(key)` -/
  | other (text : String)
  deriving DecidableEq, Repr

def Key.text : Key → String
  | .str s => s
  | .other text => text

/-- What `yaml.safe_load` gives. -/
inductive Yaml where
  | null
  | bool (b : Bool)
  | int (n : Int)
  /-- a string, a float, a date or a sequence -/
  | other (text : String) (truthy : Bool)
  | mapping (items : List (Key × Yaml))

namespace Yaml

/-- `bool(data)` -/
def truthy : Yaml → Bool
  | null => false
  | bool b => b
  | int n => n ≠ 0
  | other _ truthy => truthy
  | mapping items => !items.isEmpty

/-- `d[key]`, if it is there -/
def lookup (key : String) (items : List (Key × Yaml)) : Option Yaml :=
  (items.find? fun item => item.1 = .str key).map Prod.snd

/-- `d.get(key)` -/
def get (key : String) (items : List (Key × Yaml)) : Yaml := (lookup key items).getD .null

/-- `del d[key]` -/
def erase (key : String) (items : List (Key × Yaml)) : List (Key × Yaml) :=
  items.filter fun item => item.1 ≠ .str key

/-- `d[key] = v`: an existing key keeps its position. -/
def insert (key : String) (v : Yaml) : List (Key × Yaml) → List (Key × Yaml)
  | [] => [(.str key, v)]
  | item :: rest => if item.1 = .str key then (item.1, v) :: rest else item :: insert key v rest

@[simp] theorem lookup_nil (key : String) : lookup key [] = none := rfl

theorem lookup_cons (key : String) (item : Key × Yaml) (rest : List (Key × Yaml)) :
    lookup key (item :: rest) = if item.1 = .str key then some item.2 else lookup key rest := by
  by_cases h : item.1 = .str key <;> simp [lookup, h]

theorem lookup_erase (key k : String) (items : List (Key × Yaml)) :
    lookup k (erase key items) = if k = key then none else lookup k items := by
  induction items with
  | nil => simp [erase]
  | cons item rest ih =>
    rw [lookup_cons]
    by_cases hkey : item.1 = .str key
    · have hdrop : erase key (item :: rest) = erase key rest := by simp [erase, hkey]
      rw [hdrop, ih]
      by_cases hk : k = key
      · rw [if_pos hk, if_pos hk]
      · have hne : item.1 ≠ .str k := by
          rw [hkey]
          exact fun h => hk (Key.str.inj h).symm
        rw [if_neg hk, if_neg hk, if_neg hne]
    · have hkeep : erase key (item :: rest) = item :: erase key rest := by simp [erase, hkey]
      rw [hkeep, lookup_cons, ih]
      by_cases hk : k = key
      · subst hk
        rw [if_neg hkey, if_pos rfl, if_pos rfl]
      · rw [if_neg hk, if_neg hk]

theorem lookup_insert (key k : String) (v : Yaml) (items : List (Key × Yaml)) :
    lookup k (insert key v items) = if k = key then some v else lookup k items := by
  induction items with
  | nil => simp [insert, lookup_cons, eq_comm]
  | cons item rest ih =>
    by_cases hkey : item.1 = .str key
    · by_cases hk : k = key
      · simp [insert, lookup_cons, hkey, hk]
      · simp [insert, lookup_cons, hkey, hk, Ne.symm hk]
    · simp only [insert, if_neg hkey, lookup_cons, ih]
      by_cases hk : k = key
      · subst hk
        simp [hkey]
      · simp [hk]

end Yaml

/-! ## 2. Policies -/

/-- `DownstreamRetentionPolicy` -/
structure Policy where
  retentionDays : Int
  maxTotalMb : Int
  deriving DecidableEq, Repr

/-- `DEFAULT_RETENTION_DAYS` and `DEFAULT_MAX_TOTAL_MB` -/
def defaultPolicy : Policy := ⟨14, 512⟩

/-- `ConfiguredDownstreamRetention` -/
structure Configured where
  retentionDays : Option Int
  maxTotalMb : Option Int
  deriving DecidableEq, Repr

/-- Where a proxy used to have its settings. -/
inductive Section where
  | audit
  | providerTrace
  deriving DecidableEq, Repr

def Section.name : Section → String
  | .audit => "audit"
  | .providerTrace => "provider_trace"

inductive Field where
  | retentionDays
  | maxTotalMb
  deriving DecidableEq, Repr

def Field.name : Field → String
  | .retentionDays => "retention_days"
  | .maxTotalMb => "max_total_mb"

/-- `RetentionConfigError` -/
structure ConfigError where
  scope : String
  path : String
  detail : String
  proxyId : Option String := none
  deriving DecidableEq, Repr

/-- `DeprecatedRetentionKey` -/
structure DeprecatedKey where
  proxyId : String
  proxyPath : String
  sect : Section
  field : Field
  value : Int
  deriving DecidableEq, Repr

/-- `DeprecatedRetentionKey.key` -/
def DeprecatedKey.key (item : DeprecatedKey) : String := item.sect.name ++ "." ++ item.field.name

/-- `DeprecatedRetentionKey.replacement` -/
def DeprecatedKey.replacement (item : DeprecatedKey) : String :=
  "telemetry.downstream." ++ item.field.name

/-- `RetentionConflictValue` -/
structure ConflictValue where
  value : Int
  proxyIds : List String
  keys : List String
  deriving DecidableEq, Repr

/-- `RetentionConflict` -/
structure Conflict where
  field : Field
  values : List ConflictValue
  deriving DecidableEq, Repr

/-- The configuration files. -/
inductive GlobalFile where
  | missing
  /-- why it cannot be inspected or read -/
  | invalid (detail : String)
  /-- empty, or nothing but comments -/
  | empty
  | document (data : Yaml)

inductive ProxyFile where
  | invalid (detail : String)
  | document (data : Yaml)

/-- What is under `proxies/`. -/
inductive ProxyDir where
  | missing
  | invalid (detail : String)
  | listed (ids : List String) (file : String → ProxyFile)

structure Config where
  global : GlobalFile
  proxies : ProxyDir

/-- Where the files are. -/
structure Paths where
  config : String
  proxies : String

/-- `proxies_dir / proxy_id / "proxy.yaml"` -/
def Paths.proxy (paths : Paths) (id : String) : String := paths.proxies ++ "/" ++ id ++ "/proxy.yaml"

/-! ## 3. Reading -/

/-- `_validate_bound` -/
def validateBound (value : Yaml) (key : String) (allowZero : Bool) : Except String Int :=
  match value with
  | .int n =>
      if n < (if allowZero then 0 else 1) then .error (message key allowZero) else .ok n
  | _ => .error (message key allowZero)
where
  message (key : String) (allowZero : Bool) : String :=
    key ++ " must be a " ++ (if allowZero then "non-negative" else "positive") ++ " int"

/-- `sorted` of strings -/
def sortedTexts (texts : List String) : List String := texts.mergeSort fun a b => a ≤ b

def unknownKeys (items : List (Key × Yaml)) : List String :=
  (items.filter fun item => item.1 ≠ .str "retention_days" ∧ item.1 ≠ .str "max_total_mb").map
    fun item => item.1.text

/-- A field of the global policy, if it is there. -/
def readField (items : List (Key × Yaml)) (field : Field) : Except String (Option Int) :=
  match Yaml.lookup field.name items with
  | none => .ok none
  | some value =>
      (validateBound value ("telemetry.downstream." ++ field.name) true).map some

/-- What `_read_global_retention` finds, with the policy that follows from it. -/
abbrev GlobalRead := Option (Configured × Policy) × List ConfigError

/-- The block `telemetry.downstream`. -/
def readDownstream (path : String) (items : List (Key × Yaml)) : GlobalRead :=
  if unknownKeys items ≠ [] then
    (none, [⟨"global", path, "unknown telemetry.downstream key(s): " ++
      ", ".intercalate (sortedTexts (unknownKeys items)), none⟩])
  else if (Yaml.lookup "retention_days" items).isNone && (Yaml.lookup "max_total_mb" items).isNone then
    (none, [])
  else
    match readField items .retentionDays, readField items .maxTotalMb with
    | .error detail, _ => (none, [⟨"global", path, detail, none⟩])
    | _, .error detail => (none, [⟨"global", path, detail, none⟩])
    | .ok days, .ok size =>
        (some (⟨days, size⟩,
          ⟨days.getD defaultPolicy.retentionDays, size.getD defaultPolicy.maxTotalMb⟩), [])

/-- `_read_global_retention` -/
def readGlobalRetention (path : String) : GlobalFile → GlobalRead
  | .missing => (none, [])
  | .invalid detail => (none, [⟨"global", path, detail, none⟩])
  | .empty => (none, [])
  | .document (.mapping data) =>
      match Yaml.get "telemetry" data with
      | .null => (none, [])
      | .mapping telemetry =>
          match Yaml.get "downstream" telemetry with
          | .null => (none, [])
          | .mapping downstream => readDownstream path downstream
          | _ => (none, [⟨"global", path, "telemetry.downstream must be a mapping", none⟩])
      | _ => (none, [⟨"global", path, "telemetry must be a mapping", none⟩])
  | .document _ => (none, [⟨"global", path, "root must be a mapping", none⟩])

/-- What `_read_legacy_retention` collects. -/
abbrev LegacyRead := List DeprecatedKey × List ConfigError

/-- One after another. -/
def collect {α : Type} (xs : List α) (read : α → LegacyRead) : LegacyRead :=
  (xs.flatMap fun x => (read x).1, xs.flatMap fun x => (read x).2)

def readLegacyField (id path : String) (sect : Section) (field : Field) :
    Option Yaml → LegacyRead
  | none => ([], [])
  | some value =>
      match validateBound value (sect.name ++ "." ++ field.name) (field = .retentionDays) with
      | .error detail => ([], [⟨"proxy", path, detail, some id⟩])
      | .ok n => ([⟨id, path, sect, field, n⟩], [])

def readLegacySection (id path : String) (data : List (Key × Yaml)) (sect : Section) : LegacyRead :=
  match Yaml.get sect.name data with
  | .null => ([], [])
  | .mapping items => collect [.retentionDays, .maxTotalMb] fun field =>
      readLegacyField id path sect field (Yaml.lookup field.name items)
  | _ => ([], [⟨"proxy", path, sect.name ++ " must be a mapping", some id⟩])

def readLegacyProxy (paths : Paths) (file : String → ProxyFile) (id : String) : LegacyRead :=
  match file id with
  | .invalid detail => ([], [⟨"proxy", paths.proxy id, detail, some id⟩])
  | .document (.mapping data) =>
      collect [.audit, .providerTrace] (readLegacySection id (paths.proxy id) data)
  | .document _ => ([], [⟨"proxy", paths.proxy id, "root must be a mapping", some id⟩])

/-- `_read_legacy_retention`, of `sorted(proxies_dir.glob("*/proxy.yaml"))` -/
def readLegacyRetention (paths : Paths) : ProxyDir → LegacyRead
  | .missing => ([], [])
  | .invalid detail => ([], [⟨"proxy", paths.proxies, detail, none⟩])
  | .listed ids file => collect (sortedTexts ids) (readLegacyProxy paths file)

/-- The values of one field, each once. -/
def fieldValues (deprecated : List DeprecatedKey) (field : Field) : List Int :=
  ((deprecated.filter fun item => item.field = field).map DeprecatedKey.value).dedup

def conflictValue (deprecated : List DeprecatedKey) (field : Field) (value : Int) : ConflictValue :=
  let items := deprecated.filter fun item => item.field = field ∧ item.value = value
  { value := value
    proxyIds := sortedTexts (items.map DeprecatedKey.proxyId).dedup
    keys := sortedTexts (items.map DeprecatedKey.key).dedup }

/-- `_legacy_conflicts` -/
def legacyConflicts (deprecated : List DeprecatedKey) : List Conflict :=
  [Field.retentionDays, .maxTotalMb].filterMap fun field =>
    let values := fieldValues deprecated field
    if values.length ≤ 1 then none
    else some ⟨field, (values.mergeSort fun a b => a ≤ b).map (conflictValue deprecated field)⟩

/-! ## 4. Resolving -/

inductive Source where
  | global
  | legacyConsensus
  | default
  deriving DecidableEq, Repr

/-- `DownstreamRetentionResolution` -/
structure Resolution where
  configured : Option Configured := none
  effective : Option Policy := none
  source : Option Source := none
  deprecatedKeys : List DeprecatedKey := []
  conflicts : List Conflict := []
  errors : List ConfigError := []
  deriving DecidableEq, Repr

def Resolution.pruningEnabled (r : Resolution) : Bool := r.effective.isSome && r.source.isSome

def Resolution.degraded (r : Resolution) : Bool := !r.pruningEnabled

/-- The last value of a field, or its default. -/
def consensus (deprecated : List DeprecatedKey) (field : Field) (default : Int) : Int :=
  (((deprecated.filter fun item => item.field = field).map DeprecatedKey.value).getLast?).getD default

/-- `resolve_downstream_retention` -/
def resolveRetention (paths : Paths) (c : Config) : Resolution :=
  let global := readGlobalRetention paths.config c.global
  let legacy := readLegacyRetention paths c.proxies
  match global.1 with
  | some (configured, policy) =>
      { configured := some configured
        effective := some policy
        source := some .global
        deprecatedKeys := legacy.1
        errors := legacy.2 }
  | none =>
      let errors := global.2 ++ legacy.2
      let conflicts := legacyConflicts legacy.1
      if errors ≠ [] ∨ conflicts ≠ [] then
        { deprecatedKeys := legacy.1, conflicts := conflicts, errors := errors }
      else if legacy.1 ≠ [] then
        { effective := some
            ⟨consensus legacy.1 .retentionDays defaultPolicy.retentionDays,
              consensus legacy.1 .maxTotalMb defaultPolicy.maxTotalMb⟩
          source := some .legacyConsensus
          deprecatedKeys := legacy.1 }
      else { effective := some defaultPolicy, source := some .default }

/-! ## 5. Migrating -/

/-- `RetentionMigrationTarget` -/
structure Target where
  proxyId : String
  proxyPath : String
  keys : List DeprecatedKey
  deriving DecidableEq, Repr

/-- `DownstreamRetentionMigrationPlan` -/
structure Plan where
  resolution : Resolution
  writeGlobalPolicy : Bool
  targets : List Target
  deriving DecidableEq, Repr

def Plan.blocked (plan : Plan) : Bool :=
  !plan.resolution.pruningEnabled || plan.resolution.errors ≠ []

def Plan.hasChanges (plan : Plan) : Bool := plan.writeGlobalPolicy || plan.targets ≠ []

/-- The keys of one file, sorted. -/
def targetOf (deprecated : List DeprecatedKey) (place : String × String) : Target where
  proxyId := place.1
  proxyPath := place.2
  keys := (deprecated.filter fun item => (item.proxyId, item.proxyPath) = place).mergeSort
    fun a b => a.key ≤ b.key

/-- The keys of all files, grouped and sorted. -/
def migrationTargets (deprecated : List DeprecatedKey) : List Target :=
  (((deprecated.map fun item => (item.proxyId, item.proxyPath)).dedup).mergeSort
    fun a b => a.1 < b.1 ∨ a.1 = b.1 ∧ a.2 ≤ b.2).map (targetOf deprecated)

/-- `plan_downstream_retention_migration` -/
def planMigration (paths : Paths) (c : Config) : Plan :=
  let resolution := resolveRetention paths c
  { resolution := resolution
    writeGlobalPolicy := resolution.source = some .legacyConsensus
    targets := migrationTargets resolution.deprecatedKeys }

/-- `DownstreamRetentionMigrationError` -/
abbrev MigrationError := String

/-- The root of the global document, as the writer loads it. -/
def loadGlobal (path : String) : GlobalFile → Except MigrationError (List (Key × Yaml))
  | .missing => .ok []
  | .empty => .ok []
  | .invalid detail => .error ("Runtime config changed before migration: " ++ path ++ ": " ++ detail)
  | .document data =>
      if !data.truthy then .ok []
      else match data with
        | .mapping items => .ok items
        | _ => .error ("Runtime config root is not a mapping: " ++ path)

/-- `asdict(policy)` -/
def Policy.items (policy : Policy) : List (Key × Yaml) :=
  [(.str "retention_days", .int policy.retentionDays), (.str "max_total_mb", .int policy.maxTotalMb)]

/-- A mapping under a key, made where there is none. -/
def subMapping (key : String) (error : MigrationError) (data : List (Key × Yaml)) :
    Except MigrationError (List (Key × Yaml)) :=
  match Yaml.get key data with
  | .null => .ok []
  | .mapping items => .ok items
  | _ => .error error

/-- `_write_global_policy` -/
def writeGlobalPolicy (paths : Paths) (policy : Policy) (c : Config) :
    Except MigrationError Config := do
  let data ← loadGlobal paths.config c.global
  let telemetry ← subMapping "telemetry"
    ("Runtime config changed before migration at telemetry: " ++ paths.config) data
  let changed := "Runtime config changed before migration at telemetry.downstream: " ++ paths.config
  let downstream ← subMapping "downstream" changed telemetry
  if downstream ≠ [] then throw changed
  else pure { c with
    global := .document (.mapping (Yaml.insert "telemetry"
      (.mapping (Yaml.insert "downstream" (.mapping policy.items) telemetry)) data)) }

/-- A key still has the value that the plan saw. -/
def keyUnchanged (data : List (Key × Yaml)) (item : DeprecatedKey) : Bool :=
  match Yaml.get item.sect.name data with
  | .mapping items =>
      match Yaml.get item.field.name items with
      | .int n => n = item.value
      | _ => false
  | _ => false

/-- `del section[field]`, and the section with its last field. -/
def removeKey (data : List (Key × Yaml)) (item : DeprecatedKey) : List (Key × Yaml) :=
  match Yaml.get item.sect.name data with
  | .mapping items =>
      match Yaml.erase item.field.name items with
      | [] => Yaml.erase item.sect.name data
      | rest => Yaml.insert item.sect.name (.mapping rest) data
  | _ => data

/-- The document of a proxy without the keys of a target. -/
def migrateDocument (target : Target) (file : ProxyFile) : Except MigrationError ProxyFile :=
  match file with
  | .invalid detail =>
      .error (target.proxyId ++ " changed before migration and is no longer valid YAML: " ++
        target.proxyPath ++ ": " ++ detail)
  | .document (.mapping data) =>
      match target.keys.find? fun item => !keyUnchanged data item with
      | some item =>
          .error (target.proxyId ++ " changed before migration at " ++ item.key ++
            "; no keys were removed from this file")
      | none => .ok (.document (.mapping (target.keys.foldl removeKey data)))
  | .document _ => .error ("Proxy config root changed before migration: " ++ target.proxyPath)

/-- `_remove_migrated_proxy_keys`; a file that is not there is an `OSError`. -/
def removeMigratedProxyKeys (target : Target) (c : Config) : Except MigrationError Config :=
  match c.proxies with
  | .listed ids file =>
      if target.proxyId ∈ ids then
        (migrateDocument target (file target.proxyId)).map fun migrated =>
          { c with proxies := .listed ids (Function.update file target.proxyId migrated) }
      else .error target.proxyPath
  | _ => .error target.proxyPath

/-- A write of the migration. -/
inductive Write where
  | global (policy : Policy)
  | proxy (target : Target)

def Write.perform (paths : Paths) : Write → Config → Except MigrationError Config
  | .global policy => writeGlobalPolicy paths policy
  | .proxy target => removeMigratedProxyKeys target

/-- The writes of a plan, in their order: the global policy goes first. -/
def Plan.writes (plan : Plan) : List Write :=
  (match plan.resolution.effective with
    | some policy => if plan.writeGlobalPolicy then [.global policy] else []
    | none => []) ++ plan.targets.map .proxy

/-- Some writes, one after another. -/
def performAll (paths : Paths) : List Write → Config → Except MigrationError Config
  | [], c => .ok c
  | write :: rest, c => (write.perform paths c).bind (performAll paths rest)

/-- `apply_downstream_retention_migration` -/
def applyMigration (paths : Paths) (c : Config) : Except MigrationError Config :=
  let plan := planMigration paths c
  if plan.blocked then
    .error ("Retention migration is blocked by conflicting or unreadable configuration; " ++
      "repair invalid inputs or choose telemetry.downstream explicitly, then rerun")
  else performAll paths plan.writes c

end MultiForge.Telemetry.RetentionMigration
