/-
MultiForge.Lib.Dataclass — building a dataclass from a dict, as `dacite`
does.

A dataclass is its fields, each with a type and a default, and what its
`__post_init__` makes of an instance. An instance is the dict that
`dataclasses.asdict` gives of it, with a key for every field in their
order. `build` converts a value to a type and raises (`none`) where the
value has another one; it is strict: a key that is no field raises too.

What a field of the instance holds is decided by what the dict has under
its name (`buildFields_lookup`). Two dicts that differ at one field build
to the same exactly when that field does, unless another field does not
build (`build_eq_iff`).
-/
import MultiForge.Json.Value

namespace MultiForge.Dataclass

open Json

mutual

/-- The type of a field. -/
inductive PyType (F : Type) where
  | any
  | str
  | bool
  | int
  | float
  | literal (values : List String)
  | list (item : PyType F)
  /-- a dict with text keys -/
  | dict (value : PyType F)
  | optional (type : PyType F)
  | dataclass (fields : Fields F)
      (postInit : List (String × Json F) → Option (List (String × Json F)))

/-- The fields of a dataclass, with their defaults. -/
inductive Fields (F : Type) where
  | done
  | field (name : String) (type : PyType F) (default : Option (Json F)) (rest : Fields F)

end

variable {F : Type}

namespace Fields

def names : Fields F → List String
  | .done => []
  | .field name _ _ rest => name :: rest.names

/-- The type and the default of a field. -/
def find (key : String) : Fields F → Option (PyType F × Option (Json F))
  | .done => none
  | .field name type default rest => if name = key then some (type, default) else rest.find key

end Fields

mutual

/-- The value at a type. A `bool` is an `int`, and both are a `float`. -/
def build : PyType F → Json F → Option (Json F)
  | .any, v => some v
  | .str, v => match v with
      | .str _ => some v
      | _ => none
  | .bool, v => match v with
      | .bool _ => some v
      | _ => none
  | .int, v => match v with
      | .bool _ => some v
      | .int _ => some v
      | _ => none
  | .float, v => match v with
      | .bool _ => some v
      | .int _ => some v
      | .float _ => some v
      | _ => none
  | .literal values, v => match v with
      | .str s => if s ∈ values then some v else none
      | _ => none
  | .list item, v => match v with
      | .list xs => (xs.mapM (build item)).map .list
      | _ => none
  | .dict value, v => match v with
      | .obj items => (items.mapM fun kv => (build value kv.2).map (kv.1, ·)).map .obj
      | _ => none
  | .optional type, v => match v with
      | .null => some .null
      | v => build type v
  | .dataclass fields postInit, v => match v with
      | .obj data =>
          if data.all fun kv => kv.1 ∈ fields.names then
            ((buildFields fields data).bind postInit).map .obj
          else none
      | _ => none

/-- The fields of an instance. -/
def buildFields : Fields F → List (String × Json F) → Option (List (String × Json F))
  | .done, _ => some []
  | .field name type default rest, data => do
      let value ← match lookup name data with
        | some v => build type v
        | none => default
      let others ← buildFields rest data
      return (name, value) :: others

end

mutual

/-- The field paths below a field; those of an optional dataclass count. -/
def collectPaths (pre : List String) : PyType F → List (List String)
  | .dataclass fields _ => collectFields pre fields
  | .optional (.dataclass fields _) => collectFields pre fields
  | _ => []

def collectFields (pre : List String) : Fields F → List (List String)
  | .done => []
  | .field name type _ rest =>
      (pre ++ [name]) :: (collectPaths (pre ++ [name]) type ++ collectFields pre rest)

end

/-! ## What a field holds -/

/-- What becomes of a field, by what the dict has under its name. -/
def fieldValue (type : PyType F) (default : Option (Json F)) : Option (Json F) → Option (Json F)
  | some v => build type v
  | none => default

theorem buildFields_field (name : String) (type : PyType F) (default : Option (Json F))
    (rest : Fields F) (data : List (String × Json F)) :
    buildFields (.field name type default rest) data
      = (fieldValue type default (lookup name data)).bind fun value =>
        (buildFields rest data).map ((name, value) :: ·) := by
  rw [buildFields]
  cases hv : lookup name data <;> cases hrest : buildFields rest data <;>
    simp [fieldValue]

theorem buildFields_lookup {name : String} {type : PyType F} {default : Option (Json F)}
    {data : List (String × Json F)} : ∀ {fields : Fields F} {out : List (String × Json F)},
      buildFields fields data = some out → fields.find name = some (type, default) →
        ∃ value, lookup name out = some value
          ∧ fieldValue type default (lookup name data) = some value
  | .done, _, _, h => nomatch h
  | .field key type' default' rest, out, hbuild, hfind => by
      rw [buildFields_field] at hbuild
      obtain ⟨value, hvalue, hbuild⟩ := Option.bind_eq_some_iff.mp hbuild
      obtain ⟨others, hothers, rfl⟩ := Option.map_eq_some_iff.mp hbuild
      rw [lookup_cons]
      rw [Fields.find] at hfind
      by_cases hkey : key = name
      · rw [if_pos hkey] at hfind ⊢
        cases hfind
        exact ⟨value, rfl, hkey ▸ hvalue⟩
      · rw [if_neg hkey] at hfind ⊢
        exact buildFields_lookup hothers hfind

theorem build_optional {type : PyType F} {v w : Json F} (h : build (.optional type) v = some w) :
    (v = .null ∧ w = .null) ∨ (v ≠ .null ∧ build type v = some w) := by
  cases v with
  | null =>
    cases h
    exact Or.inl ⟨rfl, rfl⟩
  | _ => exact Or.inr ⟨nofun, h⟩

/-- An instance comes from a dict and its `__post_init__`. -/
theorem build_dataclass {fields : Fields F}
    {postInit : List (String × Json F) → Option (List (String × Json F))} {v w : Json F}
    (h : build (.dataclass fields postInit) v = some w) :
    ∃ data built out, v = .obj data ∧ w = .obj out ∧ buildFields fields data = some built
      ∧ postInit built = some out := by
  cases v with
  | obj data =>
    rw [build] at h
    split at h
    · obtain ⟨out, hout, rfl⟩ := Option.map_eq_some_iff.mp h
      obtain ⟨built, hbuilt, hpost⟩ := Option.bind_eq_some_iff.mp hout
      exact ⟨data, built, out, rfl, rfl, hbuilt, hpost⟩
    · cases h
  | _ => cases h

/-! ## Fields that build -/

theorem find_mem {name : String} {found : PyType F × Option (Json F)} : ∀ {fields : Fields F},
    fields.find name = some found → name ∈ fields.names
  | .done, h => nomatch h
  | .field key type default rest, h => by
      rw [Fields.find] at h
      split at h
      · rename_i hkey
        exact hkey ▸ List.mem_cons_self
      · exact List.mem_cons_of_mem _ (find_mem h)

/-- Every field finds a value: its own, or its default. -/
def FieldsBuild (fields : Fields F) (data : List (String × Json F)) : Prop :=
  ∀ name type default, fields.find name = some (type, default) →
    fieldValue type default (lookup name data) ≠ none

theorem find_rest {key name : String} {type : PyType F} {default : Option (Json F)}
    {rest : Fields F} (hnodup : (Fields.field key type default rest).names.Nodup)
    {found : PyType F × Option (Json F)} (h : rest.find name = some found) :
    (Fields.field key type default rest).find name = some found := by
  have hne : key ≠ name := by
    rintro rfl
    exact (List.nodup_cons.mp hnodup).1 (find_mem h)
  rw [Fields.find, if_neg hne]
  exact h

theorem buildFields_isSome {data : List (String × Json F)} : ∀ {fields : Fields F},
    fields.names.Nodup → FieldsBuild fields data → ∃ out, buildFields fields data = some out
  | .done, _, _ => ⟨[], rfl⟩
  | .field key type default rest, hnodup, h => by
      have hvalue := h key type default (by rw [Fields.find, if_pos rfl])
      obtain ⟨value, hvalue⟩ := Option.ne_none_iff_exists'.mp hvalue
      obtain ⟨out, hout⟩ := buildFields_isSome (List.nodup_cons.mp hnodup).2
        fun name type default hfind => h name type default (find_rest hnodup hfind)
      exact ⟨(key, value) :: out, by rw [buildFields_field, hvalue, hout]; rfl⟩

theorem fieldsBuild {fields : Fields F} {data out : List (String × Json F)}
    (h : buildFields fields data = some out) : FieldsBuild fields data := by
  intro name type default hfind hnone
  obtain ⟨value, -, hvalue⟩ := buildFields_lookup h hfind
  rw [hnone] at hvalue
  cases hvalue

theorem buildFields_congr {data data' : List (String × Json F)} : ∀ {fields : Fields F},
    fields.names.Nodup → (∀ name type default, fields.find name = some (type, default) →
      fieldValue type default (lookup name data) = fieldValue type default (lookup name data')) →
    buildFields fields data = buildFields fields data'
  | .done, _, _ => rfl
  | .field key type default rest, hnodup, h => by
      have hrest := buildFields_congr (List.nodup_cons.mp hnodup).2
        fun name type default hfind => h name type default (find_rest hnodup hfind)
      rw [buildFields_field, buildFields_field, hrest,
        h key type default (by rw [Fields.find, if_pos rfl])]

/-- Every key of a dict is the name of a field. -/
theorem all_names_iff {names : List String} {data : List (String × Json F)} :
    (data.all fun kv => kv.1 ∈ names) = true ↔ ∀ key, lookup key data ≠ none → key ∈ names := by
  induction data with
  | nil => simp
  | cons kv data ih =>
    obtain ⟨k, v⟩ := kv
    rw [List.all_cons, Bool.and_eq_true, ih, decide_eq_true_eq]
    constructor
    · rintro ⟨hk, hrest⟩ key hkey
      rw [lookup_cons] at hkey
      split at hkey
      · rename_i heq
        exact heq ▸ hk
      · exact hrest key hkey
    · intro h
      refine ⟨h k (by simp), fun key hkey => h key ?_⟩
      rw [lookup_cons]
      split
      · simp
      · exact hkey

/-- Two dicts that differ at one field at most. -/
def AgreeOff (key : String) (data data' : List (String × Json F)) : Prop :=
  ∀ k, k ≠ key → lookup k data = lookup k data'

section

variable {fields : Fields F} {key : String} {type : PyType F} {default : Option (Json F)}
  {data data' data₀ : List (String × Json F)}

theorem AgreeOff.all_names (h : AgreeOff key data data')
    (hfind : fields.find key = some (type, default)) :
    (data.all fun kv => kv.1 ∈ fields.names) = (data'.all fun kv => kv.1 ∈ fields.names) := by
  rw [Bool.eq_iff_iff, all_names_iff, all_names_iff]
  constructor
  · intro hall k hk
    by_cases hkey : k = key
    · exact hkey ▸ find_mem hfind
    · exact hall k (by rwa [h k hkey])
  · intro hall k hk
    by_cases hkey : k = key
    · exact hkey ▸ find_mem hfind
    · exact hall k (by rwa [← h k hkey])

theorem AgreeOff.fieldsBuild (h : AgreeOff key data data') (hbuild : FieldsBuild fields data)
    (hfind : fields.find key = some (type, default))
    (hvalue : fieldValue type default (lookup key data') ≠ none) : FieldsBuild fields data' := by
  intro name type' default' hname
  by_cases hkey : name = key
  · subst hkey
    cases hfind.symm.trans hname
    exact hvalue
  · rw [← h name hkey]
    exact hbuild name type' default' hname

theorem AgreeOff.symm (h : AgreeOff key data data') : AgreeOff key data' data :=
  fun k hk => (h k hk).symm

theorem AgreeOff.trans {data'' : List (String × Json F)} (h : AgreeOff key data data')
    (h' : AgreeOff key data' data'') : AgreeOff key data data'' :=
  fun k hk => (h k hk).trans (h' k hk)

/-- A dict that builds still does with another value that builds for one
field. -/
theorem AgreeOff.build_ne_none (h : AgreeOff key data data') (hnodup : fields.names.Nodup)
    (hfind : fields.find key = some (type, default))
    (hbuild : build (.dataclass fields some) (.obj data) ≠ none)
    (hvalue : fieldValue type default (lookup key data') ≠ none) :
    build (.dataclass fields some) (.obj data') ≠ none := by
  have hnames := h.all_names hfind
  rw [build] at hbuild ⊢
  rw [hnames] at hbuild
  split at hbuild
  · rename_i hall
    rw [if_pos hall]
    simp only [Option.bind_fun_some, ne_eq, Option.map_eq_none_iff] at hbuild ⊢
    obtain ⟨out, hout⟩ := Option.ne_none_iff_exists'.mp hbuild
    obtain ⟨out', hout'⟩ := buildFields_isSome hnodup
      (h.fieldsBuild (Dataclass.fieldsBuild hout) hfind hvalue)
    rw [hout']
    exact Option.some_ne_none out'
  · exact absurd rfl hbuild

/-- Two dicts that differ at one field build to the same exactly when that
field does, or another field does not build. -/
theorem build_eq_iff (hnodup : fields.names.Nodup) (hfind : fields.find key = some (type, default))
    (hoff : AgreeOff key data data') (hoff₀ : AgreeOff key data₀ data)
    (h₀ : fieldValue type default (lookup key data₀) ≠ none) :
    build (.dataclass fields some) (.obj data) = build (.dataclass fields some) (.obj data') ↔
      fieldValue type default (lookup key data) = fieldValue type default (lookup key data') ∨
        build (.dataclass fields some) (.obj data₀) = none := by
  have hnames := hoff.all_names hfind
  have hnames₀ := hoff₀.all_names hfind
  rw [build, build, build]
  rw [hnames₀, ← hnames]
  by_cases hall : (data.all fun kv => kv.1 ∈ fields.names) = true
  · simp only [hall, if_true, Option.map_eq_none_iff, Option.bind_fun_some]
    rw [(Option.map_injective fun _ _ h => Json.obj.inj h).eq_iff]
    constructor
    · intro hsame
      by_cases hbuild₀ : buildFields fields data₀ = none
      · exact .inr hbuild₀
      left
      obtain ⟨out₀, hout₀⟩ := Option.ne_none_iff_exists'.mp hbuild₀
      have hothers := Dataclass.fieldsBuild hout₀
      by_cases hvalue : fieldValue type default (lookup key data) = none
      · -- the second does not build either, by the same field
        by_cases hvalue' : fieldValue type default (lookup key data') = none
        · rw [hvalue, hvalue']
        · obtain ⟨out, hout⟩ := buildFields_isSome hnodup
            ((hoff₀.trans hoff).fieldsBuild hothers hfind hvalue')
          rw [hout] at hsame
          exact absurd hvalue (Dataclass.fieldsBuild hsame key type default hfind)
      · obtain ⟨out, hout⟩ := buildFields_isSome hnodup (hoff₀.fieldsBuild hothers hfind hvalue)
        obtain ⟨v, hv, hfield⟩ := buildFields_lookup hout hfind
        rw [hout] at hsame
        obtain ⟨v', hv', hfield'⟩ := buildFields_lookup hsame.symm hfind
        rw [hfield, hfield', ← hv, hv']
    · rintro (hvalue | hnone)
      · refine buildFields_congr hnodup fun name type' default' hname => ?_
        by_cases hkey : name = key
        · subst hkey
          cases hfind.symm.trans hname
          exact hvalue
        · rw [hoff name hkey]
      · have hfails : ∀ other, AgreeOff key other data₀ → buildFields fields other = none := by
          intro other hother
          by_contra hsome
          obtain ⟨out, hout⟩ := Option.ne_none_iff_exists'.mp hsome
          obtain ⟨out₀, hout₀⟩ := buildFields_isSome hnodup
            (hother.fieldsBuild (Dataclass.fieldsBuild hout) hfind h₀)
          rw [hnone] at hout₀
          cases hout₀
        rw [hfails data hoff₀.symm, hfails data' (hoff₀.trans hoff).symm]
  · simp [hall]

end
end MultiForge.Dataclass
