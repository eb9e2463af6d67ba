/-
MultiForge.Lib.Dict — insertion-ordered dictionaries.

A `Dict` is a list of entries with distinct keys, in the order of their
insertion: setting a key that is there keeps its place. What a dictionary
holds is `get?`; every operation has one lemma that says what `get?` is
after it. `alterEach` and `upsertEach` are the two loops over another
dictionary that change the entries under its keys.
-/
import Mathlib.Data.List.Nodup

namespace MultiForge

/-- A dictionary with its entries in insertion order. -/
structure Dict (κ α : Type) where
  entries : List (κ × α)
  nodup : (entries.map Prod.fst).Nodup
  deriving DecidableEq

namespace Dict

variable {κ α β : Type} [DecidableEq κ]

/-! ## 1. Lists of entries -/

/-- The value under a key. -/
def find (k : κ) : List (κ × α) → Option α
  | [] => none
  | (j, a) :: rest => if j = k then some a else find k rest

/-- Replace the value under a key, or append it. -/
def put (k : κ) (a : α) : List (κ × α) → List (κ × α)
  | [] => [(k, a)]
  | (j, b) :: rest => if j = k then (j, a) :: rest else (j, b) :: put k a rest

theorem find_put (k j : κ) (a : α) : ∀ l : List (κ × α),
    find j (put k a l) = if j = k then some a else find j l
  | [] => by
      by_cases h : j = k
      · simp [put, find, h]
      · have h' : ¬ k = j := fun e => h e.symm
        simp [put, find, h, h']
  | (i, b) :: rest => by
      have ih := find_put k j a rest
      by_cases hi : i = k
      · subst hi
        by_cases hj : j = i
        · simp [put, find, hj]
        · have hj' : ¬ i = j := fun e => hj e.symm
          simp [put, find, hj, hj']
      · by_cases hij : i = j
        · subst hij
          simp [put, find, hi]
        · simp [put, find, hi, hij, ih]

theorem put_keys (k : κ) (a : α) : ∀ l : List (κ × α),
    (put k a l).map Prod.fst
      = if k ∈ l.map Prod.fst then l.map Prod.fst else l.map Prod.fst ++ [k]
  | [] => by simp [put]
  | (i, b) :: rest => by
      have ih := put_keys k a rest
      by_cases hi : i = k
      · simp [put, hi]
      · have hi' : ¬ k = i := fun e => hi e.symm
        simp only [put, hi, if_false, List.map_cons, ih, List.mem_cons, hi', false_or]
        split <;> rfl

theorem put_of_not_mem {k : κ} {a : α} : ∀ {l : List (κ × α)}, k ∉ l.map Prod.fst →
    put k a l = l ++ [(k, a)]
  | [], _ => rfl
  | (j, b) :: rest, h => by
      rw [List.map_cons, List.mem_cons, not_or] at h
      rw [put, if_neg (Ne.symm h.1), put_of_not_mem h.2, List.cons_append]

theorem put_nodup {k : κ} {a : α} {l : List (κ × α)} (h : (l.map Prod.fst).Nodup) :
    ((put k a l).map Prod.fst).Nodup := by
  rw [put_keys]
  split
  · exact h
  · rename_i hk
    rw [List.nodup_append]
    refine ⟨h, List.nodup_singleton k, fun a ha b hb e => hk ?_⟩
    rw [← List.mem_singleton.mp hb, ← e]
    exact ha

theorem find_eq_none_iff {k : κ} : ∀ {l : List (κ × α)}, find k l = none ↔ k ∉ l.map Prod.fst
  | [] => by simp [find]
  | (i, b) :: rest => by
      have ih := find_eq_none_iff (k := k) (l := rest)
      by_cases hi : i = k
      · simp [find, hi]
      · have hi' : ¬ k = i := fun e => hi e.symm
        rw [find, if_neg hi, ih, List.map_cons, List.mem_cons, or_iff_right hi']

/-- Putting what is there. -/
theorem put_of_find {k : κ} {a : α} : ∀ {l : List (κ × α)}, find k l = some a → put k a l = l
  | (i, b) :: rest, h => by
      rw [find] at h
      rw [put]
      split at h
      · rename_i hi
        cases h
        rw [if_pos hi]
      · rename_i hi
        rw [if_neg hi, put_of_find h]

theorem find_eq_some_iff {k : κ} {a : α} : ∀ {l : List (κ × α)}, (l.map Prod.fst).Nodup →
    (find k l = some a ↔ (k, a) ∈ l)
  | [], _ => by simp [find]
  | (i, b) :: rest, h => by
      obtain ⟨hi, hrest⟩ := List.nodup_cons.mp h
      by_cases hk : i = k
      · subst hk
        have hnot : (i, a) ∉ rest := fun hmem => hi (List.mem_map.mpr ⟨_, hmem, rfl⟩)
        simp [find, hnot, eq_comm]
      · have hk' : ¬ k = i := fun e => hk e.symm
        rw [find, if_neg hk, find_eq_some_iff hrest]
        simp [hk']

/-- Keeping some entries keeps the values under their keys. -/
theorem find_filter (p : κ × α → Bool) (k : κ) : ∀ {l : List (κ × α)}, (l.map Prod.fst).Nodup →
    find k (l.filter p) = (find k l).filter fun a => p (k, a)
  | [], _ => rfl
  | (i, b) :: rest, h => by
      obtain ⟨hi, hrest⟩ := List.nodup_cons.mp h
      have ih := find_filter p k hrest
      by_cases hk : i = k
      · subst hk
        have hnone : find i rest = none := find_eq_none_iff.mpr hi
        cases hp : p (i, b) with
        | true => simp [hp, find, Option.filter_some]
        | false => simp [hp, find, ih, hnone, Option.filter_some]
      · cases hp : p (i, b) with
        | true => simp [hp, find, hk, ih]
        | false => simp [hp, find, hk, ih]

/-! ## 2. Dictionaries -/

/-- The dictionary without entries. -/
def empty : Dict κ α := ⟨[], .nil⟩

instance : Inhabited (Dict κ α) := ⟨empty⟩

/-- `d.get(k)` -/
def get? (d : Dict κ α) (k : κ) : Option α := find k d.entries

/-- `d[k] = a` -/
def set (d : Dict κ α) (k : κ) (a : α) : Dict κ α := ⟨put k a d.entries, put_nodup d.nodup⟩

/-- The entries that satisfy a test. -/
def filter (d : Dict κ α) (p : κ → α → Bool) : Dict κ α :=
  ⟨d.entries.filter fun e => p e.1 e.2, d.nodup.sublist (List.filter_sublist.map _)⟩

/-- `del d[k]` -/
def erase (d : Dict κ α) (k : κ) : Dict κ α := d.filter fun j _ => j ≠ k

def isEmpty (d : Dict κ α) : Bool := d.entries.isEmpty

@[simp] theorem get?_empty (k : κ) : (empty : Dict κ α).get? k = none := rfl

theorem get?_set (d : Dict κ α) (k j : κ) (a : α) :
    (d.set k a).get? j = if j = k then some a else d.get? j := find_put k j a d.entries

theorem get?_filter (d : Dict κ α) (p : κ → α → Bool) (k : κ) :
    (d.filter p).get? k = (d.get? k).filter (p k) := find_filter _ k d.nodup

theorem get?_filter_true {d : Dict κ α} {p : κ → α → Bool} (h : ∀ k a, p k a = true) (k : κ) :
    (d.filter p).get? k = d.get? k := by
  rw [get?_filter]
  cases d.get? k with
  | none => rfl
  | some a => simp [Option.filter_some, h]

theorem get?_erase (d : Dict κ α) (k j : κ) :
    (d.erase k).get? j = if j = k then none else d.get? j := by
  rw [erase, get?_filter]
  by_cases h : j = k
  · subst h; cases d.get? j <;> simp
  · cases d.get? j <;> simp [h]

theorem get?_eq_some_iff {d : Dict κ α} {k : κ} {a : α} :
    d.get? k = some a ↔ (k, a) ∈ d.entries := find_eq_some_iff d.nodup

theorem get?_of_isEmpty {d : Dict κ α} (h : d.isEmpty = true) (k : κ) : d.get? k = none := by
  rw [get?, List.isEmpty_iff.mp h]
  rfl

/-- Setting a key to the value it has. -/
theorem set_of_get? {d : Dict κ α} {k : κ} {a : α} (h : d.get? k = some a) : d.set k a = d := by
  obtain ⟨entries, nodup⟩ := d
  simp only [set, mk.injEq]
  exact put_of_find h

theorem isEmpty_iff_get? {d : Dict κ α} : d.isEmpty = true ↔ ∀ k, d.get? k = none := by
  constructor
  · exact get?_of_isEmpty
  · intro h
    rw [isEmpty, List.isEmpty_iff, ← List.map_eq_nil_iff (f := Prod.fst), List.eq_nil_iff_forall_not_mem]
    intro k
    exact find_eq_none_iff.mp (h k)

/-- Change the value under a key that is there, or delete it. -/
def alter (d : Dict κ α) (k : κ) (f : α → Option α) : Dict κ α :=
  match d.get? k with
  | none => d
  | some a => match f a with
    | some a' => d.set k a'
    | none => d.erase k

theorem get?_alter (d : Dict κ α) (k j : κ) (f : α → Option α) :
    (d.alter k f).get? j = if j = k then (d.get? k).bind f else d.get? j := by
  unfold alter
  cases hd : d.get? k with
  | none =>
    by_cases h : j = k
    · simp [h, hd]
    · simp [h]
  | some a =>
    cases hf : f a with
    | none => by_cases h : j = k <;> simp [get?_erase, h, hf]
    | some a' => by_cases h : j = k <;> simp [get?_set, h, hf]

/-! ## 3. Loops over another dictionary -/

/-- For every entry of a list whose key is there, change the value under
it or delete it. -/
def alterEach (f : κ → β → α → Option α) : List (κ × β) → Dict κ α → Dict κ α
  | [], d => d
  | (k, b) :: rest, d => alterEach f rest (d.alter k (f k b))

/-- For every entry of a list, set the value under its key from the one
that is there. -/
def upsertEach (f : Option α → β → α) : List (κ × β) → Dict κ α → Dict κ α
  | [], d => d
  | (k, b) :: rest, d => upsertEach f rest (d.set k (f (d.get? k) b))

theorem get?_alterEach (f : κ → β → α → Option α) (j : κ) : ∀ {l : List (κ × β)},
    (l.map Prod.fst).Nodup → ∀ d : Dict κ α,
    (alterEach f l d).get? j = match find j l with
      | none => d.get? j
      | some b => (d.get? j).bind (f j b)
  | [], _, _ => rfl
  | (k, b) :: rest, h, d => by
      obtain ⟨hk, hrest⟩ := List.nodup_cons.mp h
      rw [alterEach, get?_alterEach f j hrest]
      by_cases hj : k = j
      · subst hj
        rw [find_eq_none_iff.mpr hk, find, if_pos rfl]
        simp [get?_alter]
      · have hj' : ¬ j = k := fun e => hj e.symm
        rw [get?_alter, if_neg hj', find, if_neg hj]

theorem get?_upsertEach (f : Option α → β → α) (j : κ) : ∀ {l : List (κ × β)},
    (l.map Prod.fst).Nodup → ∀ d : Dict κ α,
    (upsertEach f l d).get? j = match find j l with
      | none => d.get? j
      | some b => some (f (d.get? j) b)
  | [], _, _ => rfl
  | (k, b) :: rest, h, d => by
      obtain ⟨hk, hrest⟩ := List.nodup_cons.mp h
      rw [upsertEach, get?_upsertEach f j hrest]
      by_cases hj : k = j
      · subst hj
        rw [find_eq_none_iff.mpr hk, find, if_pos rfl]
        simp [get?_set]
      · have hj' : ¬ j = k := fun e => hj e.symm
        rw [get?_set, if_neg hj', find, if_neg hj]

/-- What is under a key after several entries for it. -/
theorem get?_upsertEach_foldl (f : Option α → β → α) (j : κ) : ∀ (l : List (κ × β)) (d : Dict κ α),
    (upsertEach f l d).get? j
      = (l.filter fun e => e.1 = j).foldl (fun o e => some (f o e.2)) (d.get? j)
  | [], _ => rfl
  | (k, b) :: rest, d => by
      rw [upsertEach, get?_upsertEach_foldl f j rest, get?_set]
      by_cases hj : j = k
      · subst hj
        simp
      · have hj' : ¬ k = j := fun e => hj e.symm
        simp [hj, hj']

/-- `d.update(d')` -/
theorem get?_update (d' d : Dict κ α) (k : κ) :
    (upsertEach (fun _ b => b) d'.entries d).get? k = (d'.get? k).or (d.get? k) := by
  rw [get?_upsertEach _ _ d'.nodup]
  unfold get?
  cases find k d'.entries <;> rfl

/-- Distinct new keys are appended in their order. -/
theorem entries_upsertEach_fresh : ∀ {l : List (κ × α)} {d : Dict κ α},
    (l.map Prod.fst).Nodup → (∀ k ∈ l.map Prod.fst, k ∉ d.entries.map Prod.fst) →
    (upsertEach (fun _ a => a) l d).entries = d.entries ++ l
  | [], d, _, _ => (List.append_nil _).symm
  | (k, a) :: rest, d, h, hfresh => by
      obtain ⟨hk, hrest⟩ := List.nodup_cons.mp h
      have hset : (d.set k a).entries = d.entries ++ [(k, a)] :=
        put_of_not_mem (hfresh k List.mem_cons_self)
      have hfresh' : ∀ j ∈ rest.map Prod.fst, j ∉ (d.set k a).entries.map Prod.fst := by
        intro j hj hmem
        rw [hset, List.map_append, List.mem_append] at hmem
        rcases hmem with hold | hnew
        · exact hfresh j (List.mem_cons_of_mem _ hj) hold
        · exact hk (List.mem_singleton.mp hnew ▸ hj)
      rw [upsertEach, entries_upsertEach_fresh hrest hfresh', hset, List.append_assoc,
        List.singleton_append]

/-- Setting other keys. -/
theorem get?_upsertEach_not_mem {f : Option α → β → α} {j : κ} : ∀ {l : List (κ × β)}
    {d : Dict κ α}, j ∉ l.map Prod.fst → (upsertEach f l d).get? j = d.get? j
  | [], _, _ => rfl
  | (k, b) :: rest, d, h => by
      rw [List.map_cons, List.mem_cons, not_or] at h
      rw [upsertEach, get?_upsertEach_not_mem h.2, get?_set, if_neg h.1]

/-- Setting a key to one value, any number of times. -/
theorem get?_upsertEach_const {j : κ} {a : α} : ∀ {l : List (κ × α)} {d : Dict κ α},
    (∀ b, (j, b) ∈ l → b = a) → ((j, a) ∈ l ∨ d.get? j = some a) →
    (upsertEach (fun _ b => b) l d).get? j = some a
  | [], d, _, h => by
      rcases h with h | h
      · cases h
      · exact h
  | (k, b) :: rest, d, hall, h => by
      rw [upsertEach]
      refine get?_upsertEach_const (fun b' hb' => hall b' (List.mem_cons_of_mem _ hb')) ?_
      by_cases hk : j = k
      · subst hk
        rw [get?_set, if_pos rfl, hall b List.mem_cons_self]
        exact .inr rfl
      · rw [get?_set, if_neg hk]
        rcases h with h | h
        · rcases List.mem_cons.mp h with heq | hrest
          · exact absurd (congrArg Prod.fst heq) hk
          · exact .inl hrest
        · exact .inr h

end Dict

end MultiForge
