/-
MultiForge.Telemetry.MigratedFiles — what the migration of retention
settings makes of the files.

A settled proxy file has no settings left, and a settled global file says
what they said. Everything else in them is as it was.
-/
import MultiForge.Telemetry.RetentionMigration

namespace MultiForge.Telemetry.RetentionMigration

/-! ## 1. One document -/

/-- A field of a section that is a mapping. -/
def fieldOf (data : List (Key × Yaml)) (sect : Section) (field : Field) : Option Yaml :=
  match Yaml.get sect.name data with
  | .mapping items => Yaml.lookup field.name items
  | _ => none

/-- The sections are mappings, where there are any. -/
def Shaped (data : List (Key × Yaml)) : Prop :=
  ∀ sect : Section, Yaml.get sect.name data = .null ∨ ∃ items, Yaml.get sect.name data = .mapping items

theorem fieldOf_some {data : List (Key × Yaml)} {sect : Section} {field : Field} {v : Yaml}
    (h : fieldOf data sect field = some v) : ∃ items,
      Yaml.get sect.name data = .mapping items ∧ Yaml.lookup field.name items = some v := by
  unfold fieldOf at h
  cases hget : Yaml.get sect.name data with
  | mapping items =>
    rw [hget] at h
    exact ⟨items, rfl, h⟩
  | null | bool | int | other =>
    rw [hget] at h
    cases h

theorem Section.name_inj {a b : Section} : a.name = b.name ↔ a = b := by
  cases a <;> cases b <;> decide

theorem Field.name_inj {a b : Field} : a.name = b.name ↔ a = b := by
  cases a <;> cases b <;> decide

theorem Yaml.get_erase (key k : String) (items : List (Key × Yaml)) :
    Yaml.get k (Yaml.erase key items) = if k = key then .null else Yaml.get k items := by
  unfold Yaml.get
  rw [Yaml.lookup_erase]
  split <;> rfl

theorem Yaml.get_insert (key k : String) (v : Yaml) (items : List (Key × Yaml)) :
    Yaml.get k (Yaml.insert key v items) = if k = key then v else Yaml.get k items := by
  unfold Yaml.get
  rw [Yaml.lookup_insert]
  split <;> rfl

/-- The other sections are as they were. -/
theorem get_removeKey_other {data : List (Key × Yaml)} {item : DeprecatedKey} {sect : Section}
    (h : sect ≠ item.sect) : Yaml.get sect.name (removeKey data item) = Yaml.get sect.name data := by
  have hname : sect.name ≠ item.sect.name := fun e => h (Section.name_inj.mp e)
  unfold removeKey
  split
  · split
    · rw [Yaml.get_erase, if_neg hname]
    · rw [Yaml.get_insert, if_neg hname]
  · rfl

/-- The section of the key loses the field, and goes with its last one. -/
theorem get_removeKey_own {data : List (Key × Yaml)} {item : DeprecatedKey}
    {items : List (Key × Yaml)} (h : Yaml.get item.sect.name data = .mapping items) :
    Yaml.get item.sect.name (removeKey data item) =
      match Yaml.erase item.field.name items with
      | [] => .null
      | rest => .mapping rest := by
  unfold removeKey
  rw [h]
  dsimp only
  cases Yaml.erase item.field.name items with
  | nil => simp only [Yaml.get_erase, if_true]
  | cons head rest => simp only [Yaml.get_insert, if_true]

theorem removeKey_of_not_mapping {data : List (Key × Yaml)} {item : DeprecatedKey}
    (h : ∀ items, Yaml.get item.sect.name data ≠ .mapping items) : removeKey data item = data := by
  unfold removeKey
  split
  · rename_i items heq
    exact absurd heq (h items)
  · rfl

theorem fieldOf_removeKey (data : List (Key × Yaml)) (item : DeprecatedKey) (sect : Section)
    (field : Field) : fieldOf (removeKey data item) sect field =
      if sect = item.sect ∧ field = item.field then none else fieldOf data sect field := by
  by_cases hsect : sect = item.sect
  · subst hsect
    by_cases hmap : ∃ items, Yaml.get item.sect.name data = .mapping items
    · obtain ⟨items, hitems⟩ := hmap
      have hlookup : fieldOf (removeKey data item) item.sect field =
          Yaml.lookup field.name (Yaml.erase item.field.name items) := by
        unfold fieldOf
        rw [get_removeKey_own hitems]
        cases Yaml.erase item.field.name items <;> rfl
      rw [hlookup, Yaml.lookup_erase]
      simp only [Field.name_inj, true_and]
      unfold fieldOf
      rw [hitems]
    · have hnone : fieldOf data item.sect field = none := by
        unfold fieldOf
        split
        · rename_i items heq
          exact absurd ⟨items, heq⟩ hmap
        · rfl
      rw [removeKey_of_not_mapping fun items h => hmap ⟨items, h⟩, hnone]
      exact (ite_self _).symm
  · rw [if_neg fun h => hsect h.1]
    unfold fieldOf
    rw [get_removeKey_other hsect]

theorem Shaped.removeKey {data : List (Key × Yaml)} (h : Shaped data) (item : DeprecatedKey) :
    Shaped (removeKey data item) := by
  intro sect
  by_cases hsect : sect = item.sect
  · subst hsect
    rcases h item.sect with hnull | ⟨items, hitems⟩
    · rw [removeKey_of_not_mapping fun items hi => by rw [hnull] at hi; cases hi]
      exact .inl hnull
    · rw [get_removeKey_own hitems]
      cases Yaml.erase item.field.name items with
      | nil => exact .inl rfl
      | cons head rest => exact .inr ⟨_, rfl⟩
  · rw [get_removeKey_other hsect]
    exact h sect

theorem Shaped.foldl {data : List (Key × Yaml)} (h : Shaped data) (keys : List DeprecatedKey) :
    Shaped (keys.foldl RetentionMigration.removeKey data) := by
  induction keys generalizing data with
  | nil => exact h
  | cons item rest ih => exact ih (h.removeKey item)

/-- Every field that was not there or is among the keys is gone. -/
theorem fieldOf_foldl {data : List (Key × Yaml)} {keys : List DeprecatedKey} {sect : Section}
    {field : Field} (h : fieldOf data sect field = none ∨
      ∃ item ∈ keys, item.sect = sect ∧ item.field = field) :
    fieldOf (keys.foldl removeKey data) sect field = none := by
  induction keys generalizing data with
  | nil =>
    rcases h with h | ⟨item, hmem, -⟩
    · exact h
    · cases hmem
  | cons item rest ih =>
    refine ih ?_
    rw [fieldOf_removeKey]
    split
    · exact .inl rfl
    · rename_i hne
      rcases h with h | ⟨item', hmem, hs, hf⟩
      · exact .inl h
      · rcases List.mem_cons.mp hmem with rfl | hmem
        · exact absurd ⟨hs.symm, hf.symm⟩ hne
        · exact .inr ⟨item', hmem, hs, hf⟩

/-! ## 2. What a document says -/

/-- The settings of one document. -/
def readDocument (id path : String) (data : List (Key × Yaml)) : LegacyRead :=
  collect [.audit, .providerTrace] (readLegacySection id path data)

theorem collect_errors {α : Type} {xs : List α} {read : α → LegacyRead} :
    (collect xs read).2 = [] ↔ ∀ x ∈ xs, (read x).2 = [] := List.flatMap_eq_nil_iff

theorem collect_keys {α : Type} {xs : List α} {read : α → LegacyRead} {item : DeprecatedKey} :
    item ∈ (collect xs read).1 ↔ ∃ x ∈ xs, item ∈ (read x).1 := List.mem_flatMap

/-- Settings of a shaped document are the settings of its fields. -/
theorem readLegacySection_eq {id path : String} {data : List (Key × Yaml)} (h : Shaped data)
    (sect : Section) : readLegacySection id path data sect =
      collect [.retentionDays, .maxTotalMb] fun field =>
        readLegacyField id path sect field (fieldOf data sect field) := by
  unfold readLegacySection fieldOf
  rcases h sect with hnull | ⟨items, hitems⟩
  · rw [hnull]
    rfl
  · rw [hitems]

theorem validateBound_ok {value : Yaml} {key : String} {allowZero : Bool} {n : Int}
    (h : validateBound value key allowZero = .ok n) : value = .int n ∧ 0 ≤ n := by
  cases value with
  | int m =>
    unfold validateBound at h
    dsimp only at h
    have hmin : (0 : Int) ≤ if allowZero = true then 0 else 1 := by cases allowZero <;> decide
    by_cases hlt : m < if allowZero = true then 0 else 1
    · rw [if_pos hlt] at h
      cases h
    · rw [if_neg hlt] at h
      cases h
      exact ⟨rfl, Int.le_trans hmin (Int.not_lt.mp hlt)⟩
  | null | bool | other | mapping => cases h

/-- What a setting says of where it is from. -/
structure FromField (id path : String) (sect : Section) (field : Field) (value : Option Yaml)
    (item : DeprecatedKey) : Prop where
  proxyId : item.proxyId = id
  proxyPath : item.proxyPath = path
  sect : item.sect = sect
  field : item.field = field
  value : value = some (.int item.value)
  bound : 0 ≤ item.value

theorem readLegacyField_keys {id path : String} {sect : Section} {field : Field}
    {value : Option Yaml} {item : DeprecatedKey}
    (h : item ∈ (readLegacyField id path sect field value).1) :
    FromField id path sect field value item := by
  cases value with
  | none => cases h
  | some value =>
    simp only [readLegacyField] at h
    split at h
    · cases h
    · rename_i n hn
      obtain ⟨hvalue, hbound⟩ := validateBound_ok hn
      cases List.mem_singleton.mp h
      exact ⟨rfl, rfl, rfl, rfl, by rw [hvalue], hbound⟩

theorem readLegacyField_found {id path : String} {sect : Section} {field : Field}
    {value : Option Yaml} (h : (readLegacyField id path sect field value).2 = []) :
    value = none ∨ ∃ item ∈ (readLegacyField id path sect field value).1,
      item.sect = sect ∧ item.field = field := by
  cases value with
  | none => exact .inl rfl
  | some value =>
    right
    simp only [readLegacyField] at h ⊢
    split at h
    · cases h
    · exact ⟨_, List.mem_singleton_self _, rfl, rfl⟩

theorem mem_sections (sect : Section) : sect ∈ [Section.audit, .providerTrace] := by
  cases sect <;> decide

theorem mem_fields (field : Field) : field ∈ [Field.retentionDays, .maxTotalMb] := by
  cases field <;> decide

theorem shaped_of_readable {id path : String} {data : List (Key × Yaml)}
    (h : (readDocument id path data).2 = []) : Shaped data := by
  intro sect
  have hsect := collect_errors.mp h sect (mem_sections sect)
  unfold readLegacySection at hsect
  split at hsect
  · exact .inl (by assumption)
  · exact .inr ⟨_, by assumption⟩
  · cases hsect

/-- A setting of a readable document is a field of it. -/
theorem readDocument_keys {id path : String} {data : List (Key × Yaml)} (hshape : Shaped data)
    {item : DeprecatedKey} (h : item ∈ (readDocument id path data).1) :
    FromField id path item.sect item.field (fieldOf data item.sect item.field) item := by
  obtain ⟨sect, -, hs⟩ := collect_keys.mp h
  rw [readLegacySection_eq hshape] at hs
  obtain ⟨field, -, hf⟩ := collect_keys.mp hs
  have hitem := readLegacyField_keys hf
  have hsect := hitem.sect
  have hfield := hitem.field
  subst hsect hfield
  exact hitem

/-- A field of a readable document is a setting of it. -/
theorem readDocument_found {id path : String} {data : List (Key × Yaml)}
    (h : (readDocument id path data).2 = []) (sect : Section) (field : Field) :
    fieldOf data sect field = none ∨ ∃ item ∈ (readDocument id path data).1,
      item.sect = sect ∧ item.field = field := by
  have hshape := shaped_of_readable h
  have hsect := collect_errors.mp h sect (mem_sections sect)
  rw [readLegacySection_eq hshape] at hsect
  have hfield := collect_errors.mp hsect field (mem_fields field)
  refine (readLegacyField_found hfield).imp_right ?_
  rintro ⟨item, hmem, hkey⟩
  refine ⟨item, collect_keys.mpr ⟨sect, mem_sections sect, ?_⟩, hkey⟩
  rw [readLegacySection_eq hshape]
  exact collect_keys.mpr ⟨field, mem_fields field, hmem⟩

/-- Without its settings a document has none. -/
theorem readDocument_settled {id path : String} {data : List (Key × Yaml)}
    {keys : List DeprecatedKey} (h : (readDocument id path data).2 = [])
    (hkeys : ∀ item ∈ (readDocument id path data).1, item ∈ keys) :
    readDocument id path (keys.foldl removeKey data) = ([], []) := by
  have hshape := (shaped_of_readable h).foldl keys
  have hnone : ∀ sect field, fieldOf (keys.foldl removeKey data) sect field = none := by
    intro sect field
    refine fieldOf_foldl ((readDocument_found h sect field).imp_right ?_)
    rintro ⟨item, hmem, hkey⟩
    exact ⟨item, hkeys item hmem, hkey⟩
  unfold readDocument
  simp only [collect, List.flatMap_cons, List.flatMap_nil, readLegacySection_eq hshape, hnone,
    readLegacyField, List.append_nil]

/-- No setting has changed since it was read. -/
theorem keyUnchanged_of_mem {id path : String} {data : List (Key × Yaml)} (hshape : Shaped data)
    {item : DeprecatedKey} (h : item ∈ (readDocument id path data).1) :
    keyUnchanged data item = true := by
  obtain ⟨items, hitems, hlookup⟩ := fieldOf_some (readDocument_keys hshape h).value
  have hvalue : Yaml.get item.field.name items = .int item.value := by
    unfold Yaml.get
    rw [hlookup]
    rfl
  unfold keyUnchanged
  simp [hitems, hvalue]

theorem migrateDocument_ok (id path : String) {data : List (Key × Yaml)} {target : Target}
    (hshape : Shaped data)
    (hkeys : ∀ item ∈ target.keys, item ∈ (readDocument id path data).1) :
    migrateDocument target (.document (.mapping data)) =
      .ok (.document (.mapping (target.keys.foldl removeKey data))) := by
  have hnone : (target.keys.find? fun item => !keyUnchanged data item) = none := by
    rw [List.find?_eq_none]
    intro item hmem
    rw [keyUnchanged_of_mem hshape (hkeys item hmem)]
    decide
  unfold migrateDocument
  dsimp only
  rw [hnone]

/-! ## 3. What a migration leaves alone -/

/-- The items under other keys. -/
def Yaml.others (keys : List String) (items : List (Key × Yaml)) : List (Key × Yaml) :=
  items.filter fun item => ∀ key ∈ keys, item.1 ≠ .str key

theorem Yaml.others_erase {keys : List String} {key : String} (h : key ∈ keys)
    (items : List (Key × Yaml)) : Yaml.others keys (Yaml.erase key items) = Yaml.others keys items := by
  unfold Yaml.others Yaml.erase
  rw [List.filter_filter]
  refine List.filter_congr fun item _ => ?_
  by_cases hkey : item.1 = .str key
  · have hno : ¬ ∀ k ∈ keys, item.1 ≠ .str k := fun hall => hall key h hkey
    simp only [hno, decide_false, Bool.false_and]
  · simp [hkey]

theorem Yaml.others_insert {keys : List String} {key : String} (h : key ∈ keys) (v : Yaml)
    (items : List (Key × Yaml)) :
    Yaml.others keys (Yaml.insert key v items) = Yaml.others keys items := by
  have hno : ∀ w : Yaml, Yaml.others keys [(.str key, w)] = [] := by
    intro w
    refine List.filter_eq_nil_iff.mpr fun item hitem => ?_
    rw [List.mem_singleton.mp hitem, decide_eq_true_eq]
    exact fun hall => hall key h rfl
  have hcons : ∀ (item : Key × Yaml) (rest : List (Key × Yaml)), Yaml.others keys (item :: rest) =
      Yaml.others keys [item] ++ Yaml.others keys rest := by
    intro item rest
    unfold Yaml.others
    exact List.filter_append [item] rest
  induction items with
  | nil => exact hno v
  | cons item rest ih =>
    unfold Yaml.insert
    obtain ⟨k, w⟩ := item
    split
    · rename_i hkey
      dsimp only at hkey
      subst hkey
      rw [hcons, hcons _ rest, hno, hno]
    · rw [hcons, hcons _ rest, ih]

def sectionNames : List String := ["audit", "provider_trace"]

def fieldNames : List String := ["retention_days", "max_total_mb"]

theorem Section.name_mem (sect : Section) : sect.name ∈ sectionNames := by cases sect <;> decide

theorem Field.name_mem (field : Field) : field.name ∈ fieldNames := by cases field <;> decide

/-- The items under a key; what is not a mapping has none. -/
def mappingAt (key : String) (data : List (Key × Yaml)) : List (Key × Yaml) :=
  match Yaml.get key data with
  | .mapping items => items
  | _ => []

/-- Nothing but settings has been taken out of a document. -/
structure Untouched (data data' : List (Key × Yaml)) : Prop where
  root : Yaml.others sectionNames data' = Yaml.others sectionNames data
  sections : ∀ sect : Section, Yaml.others fieldNames (mappingAt sect.name data') =
    Yaml.others fieldNames (mappingAt sect.name data)

theorem Untouched.refl (data : List (Key × Yaml)) : Untouched data data := ⟨rfl, fun _ => rfl⟩

theorem Untouched.trans {a b c : List (Key × Yaml)} (h : Untouched a b) (h' : Untouched b c) :
    Untouched a c :=
  ⟨h'.root.trans h.root, fun sect => (h'.sections sect).trans (h.sections sect)⟩

theorem untouched_removeKey (data : List (Key × Yaml)) (item : DeprecatedKey) :
    Untouched data (removeKey data item) := by
  by_cases hmap : ∃ items, Yaml.get item.sect.name data = .mapping items
  · obtain ⟨items, hitems⟩ := hmap
    refine ⟨?_, fun sect => ?_⟩
    · unfold removeKey
      rw [hitems]
      dsimp only
      split
      · exact Yaml.others_erase (Section.name_mem _) data
      · exact Yaml.others_insert (Section.name_mem _) _ data
    · by_cases hsect : sect = item.sect
      · subst hsect
        have hafter : mappingAt item.sect.name (removeKey data item) =
            Yaml.erase item.field.name items := by
          unfold mappingAt
          rw [get_removeKey_own hitems]
          cases Yaml.erase item.field.name items <;> rfl
        have hbefore : mappingAt item.sect.name data = items := by
          unfold mappingAt
          rw [hitems]
        rw [hafter, hbefore]
        exact Yaml.others_erase (Field.name_mem _) items
      · unfold mappingAt
        rw [get_removeKey_other hsect]
  · rw [removeKey_of_not_mapping fun items h => hmap ⟨items, h⟩]
    exact .refl data

theorem untouched_foldl (keys : List DeprecatedKey) (data : List (Key × Yaml)) :
    Untouched data (keys.foldl removeKey data) := by
  induction keys generalizing data with
  | nil => exact .refl data
  | cons item rest ih => exact (untouched_removeKey data item).trans (ih _)

/-! ## 4. The directory of proxies -/

section Directory

variable (paths : Paths) (ids : List String) (file : String → ProxyFile)

/-- All settings, in the order of reading. -/
def allKeys : List DeprecatedKey := (collect (sortedTexts ids) (readLegacyProxy paths file)).1

/-- A file as the migration leaves it. -/
def settle (id : String) : ProxyFile :=
  match file id with
  | .document (.mapping data) =>
      .document (.mapping ((targetOf (allKeys paths ids file) (id, paths.proxy id)).keys.foldl
        removeKey data))
  | other => other

/-- Some of the files are settled. -/
def mixed (done : String → Bool) (id : String) : ProxyFile :=
  if done id then settle paths ids file id else file id

variable {paths ids file}

theorem mem_sortedTexts {text : String} {texts : List String} :
    text ∈ sortedTexts texts ↔ text ∈ texts := (List.mergeSort_perm texts _).mem_iff

theorem mem_targetOf {deprecated : List DeprecatedKey} {place : String × String}
    {item : DeprecatedKey} : item ∈ (targetOf deprecated place).keys ↔
      item ∈ deprecated ∧ (item.proxyId, item.proxyPath) = place := by
  unfold targetOf
  rw [(List.mergeSort_perm _ _).mem_iff, List.mem_filter, decide_eq_true_eq]

/-- A setting says whose it is. -/
theorem readLegacyProxy_place {file : String → ProxyFile} {id : String} {item : DeprecatedKey}
    (h : item ∈ (readLegacyProxy paths file id).1) :
    (item.proxyId, item.proxyPath) = (id, paths.proxy id) := by
  unfold readLegacyProxy at h
  split at h
  · cases h
  · rename_i data _
    obtain ⟨sect, -, hs⟩ := collect_keys.mp h
    unfold readLegacySection at hs
    split at hs
    · cases hs
    · obtain ⟨field, -, hf⟩ := collect_keys.mp hs
      have hitem := readLegacyField_keys hf
      rw [hitem.proxyId, hitem.proxyPath]
    · cases hs
  · cases h

theorem mem_allKeys {item : DeprecatedKey} : item ∈ allKeys paths ids file ↔
    ∃ id ∈ ids, item ∈ (readLegacyProxy paths file id).1 := by
  unfold allKeys
  rw [collect_keys]
  exact exists_congr fun id => and_congr_left fun _ => mem_sortedTexts

/-- The settings of a target are those of its own file. -/
theorem mem_target {id : String} {item : DeprecatedKey} :
    item ∈ (targetOf (allKeys paths ids file) (id, paths.proxy id)).keys ↔
      id ∈ ids ∧ item ∈ (readLegacyProxy paths file id).1 := by
  rw [mem_targetOf, mem_allKeys]
  constructor
  · rintro ⟨⟨id', hid, hitem⟩, hplace⟩
    obtain rfl : id' = id := by
      have heq := (readLegacyProxy_place hitem).symm.trans hplace
      exact congrArg Prod.fst heq
    exact ⟨hid, hitem⟩
  · rintro ⟨hid, hitem⟩
    exact ⟨⟨id, hid, hitem⟩, readLegacyProxy_place hitem⟩

/-- Files that are not listed, or have no settings, are settled. -/
theorem settle_of_bare {id : String} (h : id ∈ ids → (readLegacyProxy paths file id).1 = []) :
    settle paths ids file id = file id := by
  have hnil : (targetOf (allKeys paths ids file) (id, paths.proxy id)).keys = [] := by
    refine List.eq_nil_iff_forall_not_mem.mpr fun item hitem => ?_
    obtain ⟨hid, hmem⟩ := mem_target.mp hitem
    rw [h hid] at hmem
    cases hmem
  unfold settle
  rw [hnil]
  split
  · rename_i data heq
    rw [heq]
    rfl
  · rfl

/-- A settled file has no settings left. -/
theorem readLegacyProxy_settled {file' : String → ProxyFile} {id : String} (hid : id ∈ ids)
    (h : (readLegacyProxy paths file id).2 = []) (hfile : file' id = settle paths ids file id) :
    readLegacyProxy paths file' id = ([], []) := by
  unfold readLegacyProxy at h ⊢
  rw [hfile]
  unfold settle
  split at h
  · cases h
  · rename_i data heq
    rw [heq]
    refine readDocument_settled h fun item hitem => mem_target.mpr ⟨hid, ?_⟩
    unfold readLegacyProxy
    rw [heq]
    exact hitem
  · cases h

theorem readLegacyProxy_congr {file' : String → ProxyFile} {id : String}
    (hfile : file' id = file id) : readLegacyProxy paths file' id = readLegacyProxy paths file id := by
  unfold readLegacyProxy
  rw [hfile]

/-- What the files say when some are settled. -/
theorem readLegacyProxy_mixed {done : String → Bool} {id : String} (hid : id ∈ ids)
    (h : (readLegacyProxy paths file id).2 = []) :
    readLegacyProxy paths (mixed paths ids file done) id =
      if done id then ([], []) else readLegacyProxy paths file id := by
  cases hdone : done id with
  | true =>
    rw [if_pos rfl]
    exact readLegacyProxy_settled hid h (if_pos hdone)
  | false =>
    rw [if_neg Bool.false_ne_true]
    exact readLegacyProxy_congr (if_neg (by rw [hdone]; exact Bool.false_ne_true))

/-! ## 5. The targets -/

theorem filter_place {id id' : String} :
    (readLegacyProxy paths file id').1.filter
        (fun item => (item.proxyId, item.proxyPath) = (id, paths.proxy id)) =
      if id' = id then (readLegacyProxy paths file id').1 else [] := by
  split
  · rename_i heq
    subst heq
    refine List.filter_eq_self.mpr fun item hitem => decide_eq_true (readLegacyProxy_place hitem)
  · rename_i hne
    refine List.filter_eq_nil_iff.mpr fun item hitem => ?_
    rw [decide_eq_true_eq, readLegacyProxy_place hitem]
    exact fun heq => hne (congrArg Prod.fst heq)

/-- The target of a file depends on that file alone. -/
theorem targetOf_congr {file' : String → ProxyFile} {id : String} (hfile : file' id = file id) :
    targetOf (allKeys paths ids file') (id, paths.proxy id) =
      targetOf (allKeys paths ids file) (id, paths.proxy id) := by
  have hfilter : (allKeys paths ids file').filter
        (fun item => (item.proxyId, item.proxyPath) = (id, paths.proxy id)) =
      (allKeys paths ids file).filter
        (fun item => (item.proxyId, item.proxyPath) = (id, paths.proxy id)) := by
    unfold allKeys collect
    dsimp only
    rw [List.filter_flatMap, List.filter_flatMap]
    refine List.flatMap_congr fun id' _ => ?_
    rw [filter_place, filter_place]
    split
    · rename_i heq
      subst heq
      rw [readLegacyProxy_congr hfile]
    · rfl
  unfold targetOf
  rw [hfilter]

theorem migrationTargets_nil : migrationTargets [] = [] := by simp [migrationTargets]

/-- There is one target for every file with settings. -/
theorem migrationTargets_eq (paths : Paths) (ids : List String) (file : String → ProxyFile) : ∃ tids : List String, tids.Nodup ∧
    (∀ id, id ∈ tids ↔ id ∈ ids ∧ (readLegacyProxy paths file id).1 ≠ []) ∧
    migrationTargets (allKeys paths ids file) =
      tids.map fun id => targetOf (allKeys paths ids file) (id, paths.proxy id) := by
  have hplace : ∀ place ∈ (allKeys paths ids file).map
      fun item => (item.proxyId, item.proxyPath), place = (place.1, paths.proxy place.1) := by
    intro place hmem
    obtain ⟨item, hitem, rfl⟩ := List.mem_map.mp hmem
    obtain ⟨id, -, hid⟩ := mem_allKeys.mp hitem
    have heq := readLegacyProxy_place hid
    rw [heq]
  have hmem : ∀ place, place ∈ (((allKeys paths ids file).map
        fun item => (item.proxyId, item.proxyPath)).dedup).mergeSort
        (fun a b => a.1 < b.1 ∨ a.1 = b.1 ∧ a.2 ≤ b.2) ↔
      place ∈ (allKeys paths ids file).map fun item => (item.proxyId, item.proxyPath) :=
    fun place => (List.mergeSort_perm _ _).mem_iff.trans List.mem_dedup
  refine ⟨(((allKeys paths ids file).map
      fun item => (item.proxyId, item.proxyPath)).dedup.mergeSort
        (fun a b => a.1 < b.1 ∨ a.1 = b.1 ∧ a.2 ≤ b.2)).map Prod.fst, ?_, fun id => ?_, ?_⟩
  · refine List.Nodup.map_on (fun a ha b hb hab => ?_)
      ((List.mergeSort_perm _ _).nodup_iff.mpr (List.nodup_dedup _))
    rw [hplace a ((hmem a).mp ha), hplace b ((hmem b).mp hb), hab]
  · rw [List.mem_map]
    constructor
    · rintro ⟨place, hp, rfl⟩
      obtain ⟨item, hitem, rfl⟩ := List.mem_map.mp ((hmem place).mp hp)
      obtain ⟨id', hid, hread⟩ := mem_allKeys.mp hitem
      have heq := congrArg Prod.fst (readLegacyProxy_place hread)
      dsimp only at heq ⊢
      rw [heq]
      exact ⟨hid, List.ne_nil_of_mem hread⟩
    · rintro ⟨hid, hne⟩
      obtain ⟨item, hread⟩ := List.exists_mem_of_ne_nil _ hne
      refine ⟨(item.proxyId, item.proxyPath), (hmem _).mpr (List.mem_map.mpr
        ⟨item, mem_allKeys.mpr ⟨id, hid, hread⟩, rfl⟩), ?_⟩
      exact congrArg Prod.fst (readLegacyProxy_place hread)
  · unfold migrationTargets
    rw [List.map_map]
    refine List.map_congr_left fun place hp => ?_
    rw [hplace place ((hmem place).mp hp)]
    rfl

/-- A file that can be read is migrated as it was planned. -/
theorem migrateDocument_settle {id : String} (h : (readLegacyProxy paths file id).2 = []) :
    migrateDocument (targetOf (allKeys paths ids file) (id, paths.proxy id)) (file id) =
      .ok (settle paths ids file id) := by
  have hread := h
  unfold readLegacyProxy at h
  unfold settle
  split at h
  · cases h
  · rename_i data heq
    rw [heq]
    refine migrateDocument_ok id (paths.proxy id) (shaped_of_readable h) fun item hitem => ?_
    have hmem := (mem_target.mp hitem).2
    unfold readLegacyProxy at hmem
    rw [heq] at hmem
    exact hmem
  · cases h

/-- Some files settled, and one more. -/
theorem mixed_update {done : String → Bool} {id : String} :
    Function.update (mixed paths ids file done) id (settle paths ids file id) =
      mixed paths ids file fun i => done i || i = id := by
  funext i
  by_cases hi : i = id
  · subst hi
    simp [mixed]
  · simp [mixed, hi]

theorem perform_proxy {target : Target} {c : Config} :
    (Write.proxy target).perform paths c = removeMigratedProxyKeys target c := rfl

/-- Performing targets settles their files. -/
theorem performAll_targets {g : GlobalFile}
    (hreadable : ∀ id ∈ ids, (readLegacyProxy paths file id).2 = []) {tids : List String} :
    ∀ {done : String → Bool}, tids.Nodup → (∀ id ∈ tids, id ∈ ids ∧ done id = false) →
      performAll paths ((tids.map fun id =>
        targetOf (allKeys paths ids file) (id, paths.proxy id)).map .proxy)
        ⟨g, .listed ids (mixed paths ids file done)⟩ =
      .ok ⟨g, .listed ids (mixed paths ids file fun i => done i || i ∈ tids)⟩ := by
  induction tids with
  | nil =>
    intro done _ _
    simp [performAll]
  | cons id rest ih =>
    intro done hnodup h
    obtain ⟨hid, hdone⟩ := h id (List.mem_cons_self ..)
    obtain ⟨hnot, hrest⟩ := List.nodup_cons.mp hnodup
    have hfile : mixed paths ids file done id = file id := by
      rw [mixed, hdone, if_neg Bool.false_ne_true]
    have hstep : (Write.proxy (targetOf (allKeys paths ids file) (id, paths.proxy id))).perform paths
        ⟨g, .listed ids (mixed paths ids file done)⟩ =
        .ok ⟨g, .listed ids (mixed paths ids file fun i => done i || i = id)⟩ := by
      rw [perform_proxy]
      unfold removeMigratedProxyKeys
      dsimp only
      have hpid : (targetOf (allKeys paths ids file) (id, paths.proxy id)).proxyId = id := rfl
      rw [hpid, if_pos hid, hfile, migrateDocument_settle (hreadable id hid)]
      exact congrArg (fun file' => Except.ok (Config.mk g (.listed ids file'))) mixed_update
    rw [List.map_cons, List.map_cons, performAll, hstep]
    show performAll paths _ _ = _
    rw [ih hrest fun id' hmem => ?_]
    · have hmore : (fun i => done i || decide (i = id) || decide (i ∈ rest)) =
          fun i => done i || decide (i ∈ id :: rest) := by
        funext i
        simp only [Bool.or_assoc, List.mem_cons, Bool.decide_or]
      rw [hmore]
    · obtain ⟨hid', hdone'⟩ := h id' (List.mem_cons_of_mem _ hmem)
      refine ⟨hid', ?_⟩
      have hne : id' ≠ id := fun heq => hnot (heq ▸ hmem)
      simp [hdone', hne]

end Directory

/-! ## 6. The global file -/

/-- The root that the writer starts from. -/
def globalData : GlobalFile → List (Key × Yaml)
  | .document (.mapping items) => items
  | _ => []

/-- A global file with a policy. -/
def settledGlobal (policy : Policy) (g : GlobalFile) : GlobalFile :=
  .document (.mapping (Yaml.insert "telemetry" (.mapping (Yaml.insert "downstream"
    (.mapping policy.items) (mappingAt "telemetry" (globalData g)))) (globalData g)))

theorem lookup_eq_none {key : String} {items : List (Key × Yaml)} :
    Yaml.lookup key items = none ↔ ∀ item ∈ items, item.1 ≠ .str key := by
  unfold Yaml.lookup
  rw [Option.map_eq_none_iff, List.find?_eq_none]
  simp only [decide_eq_true_eq, ne_eq]

theorem unknownKeys_eq_nil {items : List (Key × Yaml)} : unknownKeys items = [] ↔
    ∀ item ∈ items, item.1 = .str "retention_days" ∨ item.1 = .str "max_total_mb" := by
  unfold unknownKeys
  rw [List.map_eq_nil_iff, List.filter_eq_nil_iff]
  refine forall_congr' fun item => imp_congr_right fun _ => ?_
  rw [decide_eq_true_eq]
  constructor
  · intro h
    by_cases hdays : item.1 = .str "retention_days"
    · exact .inl hdays
    · exact .inr (by_contra fun hsize => h ⟨hdays, hsize⟩)
  · rintro (h | h) ⟨hdays, hsize⟩
    · exact hdays h
    · exact hsize h

/-- Only an empty block says nothing. -/
theorem readDownstream_none {path : String} {items : List (Key × Yaml)}
    (h : readDownstream path items = (none, [])) : items = [] := by
  unfold readDownstream at h
  split at h
  · cases h
  · rename_i hknown
    split at h
    · rename_i hnone
      rw [Bool.and_eq_true, Option.isNone_iff_eq_none, Option.isNone_iff_eq_none] at hnone
      have hdays := lookup_eq_none.mp hnone.1
      have hsize := lookup_eq_none.mp hnone.2
      refine List.eq_nil_iff_forall_not_mem.mpr fun item hitem => ?_
      rcases unknownKeys_eq_nil.mp (not_not.mp hknown) item hitem with hkey | hkey
      · exact hdays item hitem hkey
      · exact hsize item hitem hkey
    · split at h <;> cases h

theorem writeGlobalPolicy_of {paths : Paths} {policy : Policy} {c : Config}
    {data telemetry : List (Key × Yaml)} (hload : loadGlobal paths.config c.global = .ok data)
    (htelemetry : ∀ error, subMapping "telemetry" error data = .ok telemetry)
    (hdownstream : ∀ error, subMapping "downstream" error telemetry = .ok []) :
    writeGlobalPolicy paths policy c = .ok { c with
      global := .document (.mapping (Yaml.insert "telemetry"
        (.mapping (Yaml.insert "downstream" (.mapping policy.items) telemetry)) data)) } := by
  unfold writeGlobalPolicy
  simp only [hload, bind, Except.bind, htelemetry, hdownstream]
  rfl

/-- A policy can be written where there was none. -/
theorem writeGlobalPolicy_ok {paths : Paths} {policy : Policy} {c : Config}
    (h : readGlobalRetention paths.config c.global = (none, [])) :
    writeGlobalPolicy paths policy c = .ok { c with global := settledGlobal policy c.global } := by
  have hdownstream : ∀ telemetry : List (Key × Yaml), Yaml.get "downstream" telemetry = .null ∨
      Yaml.get "downstream" telemetry = .mapping [] → ∀ error,
        subMapping "downstream" error telemetry = .ok [] := by
    rintro telemetry (hget | hget) error <;> simp [subMapping, hget]
  obtain ⟨g, proxies⟩ := c
  cases g with
  | missing => rfl
  | invalid detail => cases h
  | empty => rfl
  | document data =>
    cases data with
    | null | bool | int | other => cases h
    | mapping data =>
      have hload : loadGlobal paths.config (.document (.mapping data)) = .ok data := by
        cases data <;> rfl
      unfold readGlobalRetention at h
      dsimp only at h
      unfold settledGlobal
      simp only [globalData, mappingAt]
      cases htelemetry : Yaml.get "telemetry" data with
      | bool | int | other => rw [htelemetry] at h; cases h
      | null =>
        have hsub : ∀ error, subMapping "telemetry" error data = .ok [] := by
          intro error
          simp [subMapping, htelemetry]
        exact writeGlobalPolicy_of hload hsub (hdownstream [] (.inl rfl))
      | mapping telemetry =>
        have hsub : ∀ error, subMapping "telemetry" error data = .ok telemetry := by
          intro error
          simp [subMapping, htelemetry]
        rw [htelemetry] at h
        dsimp only at h
        have hempty : Yaml.get "downstream" telemetry = .null ∨
            Yaml.get "downstream" telemetry = .mapping [] := by
          split at h
          · exact .inl (by assumption)
          · rename_i downstream heq
            rw [heq, readDownstream_none h]
            exact .inr rfl
          · cases h
        exact writeGlobalPolicy_of hload hsub (hdownstream telemetry hempty)

/-- A policy that was written is what is read. -/
theorem readGlobal_settled (path : String) {policy : Policy} (g : GlobalFile)
    (hdays : 0 ≤ policy.retentionDays) (hsize : 0 ≤ policy.maxTotalMb) :
    readGlobalRetention path (settledGlobal policy g) =
      (some (⟨some policy.retentionDays, some policy.maxTotalMb⟩, policy), []) := by
  have hreadDays : readField policy.items .retentionDays = .ok (some policy.retentionDays) := by
    simp [readField, Policy.items, Field.name, Yaml.lookup, validateBound, Except.map,
      Int.not_lt.mpr hdays]
  have hreadSize : readField policy.items .maxTotalMb = .ok (some policy.maxTotalMb) := by
    simp [readField, Policy.items, Field.name, Yaml.lookup, validateBound, Except.map,
      Int.not_lt.mpr hsize]
  have hknown : unknownKeys policy.items = [] := by
    rw [unknownKeys_eq_nil]
    simp [Policy.items]
  have hfound : Yaml.lookup "retention_days" policy.items = some (.int policy.retentionDays) := by
    simp [Policy.items, Yaml.lookup]
  simp only [settledGlobal, readGlobalRetention, Yaml.get_insert, if_true, readDownstream, hknown,
    hreadDays, hreadSize, hfound]
  rfl

end MultiForge.Telemetry.RetentionMigration
