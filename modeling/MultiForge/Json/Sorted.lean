/-
MultiForge.Json.Sorted — `json.dumps(..., sort_keys=True)`.

`sortKeys` puts the items of every dict of a value in the order of their
keys. The result is the same value for Python, whose dicts compare without
regard to order, and the one representative of it that a digest or a
journal line is made of. Sorting again changes nothing, and a lookup finds
what it found before.

`dumpChars_printable` says that the text of a value is printable ASCII,
whatever its strings hold: a line of a journal is one line.
-/
import Mathlib.Data.String.Basic
import MultiForge.Json.RoundTrip

namespace MultiForge.Json

variable {F : Type}

/-! ## 1. Sorting -/

/-- Put an item before the first one with a key that is not smaller. -/
def insertKey (k : String) (v : Json F) : List (String × Json F) → List (String × Json F)
  | [] => [(k, v)]
  | (j, w) :: rest => if k ≤ j then (k, v) :: (j, w) :: rest else (j, w) :: insertKey k v rest

mutual

/-- The value with the items of its dicts in the order of their keys. -/
def sortKeys : Json F → Json F
  | .list vs => .list (sortList vs)
  | .obj items => .obj (sortItems items)
  | v => v

def sortList : List (Json F) → List (Json F)
  | [] => []
  | v :: vs => sortKeys v :: sortList vs

def sortItems : List (String × Json F) → List (String × Json F)
  | [] => []
  | (k, v) :: rest => insertKey k (sortKeys v) (sortItems rest)

end

mutual

/-- The items of every dict are in the order of their keys. -/
def Ordered : Json F → Prop
  | .list vs => OrderedList vs
  | .obj items => (items.map Prod.fst).Pairwise (· ≤ ·) ∧ OrderedItems items
  | _ => True

def OrderedList : List (Json F) → Prop
  | [] => True
  | v :: vs => Ordered v ∧ OrderedList vs

def OrderedItems : List (String × Json F) → Prop
  | [] => True
  | (_, v) :: rest => Ordered v ∧ OrderedItems rest

end

/-! ## 2. The sorted value is ordered -/

theorem insertKey_keys (k : String) (v : Json F) : ∀ items : List (String × Json F),
    ((insertKey k v items).map Prod.fst).Perm (k :: items.map Prod.fst)
  | [] => .refl _
  | (j, w) :: rest => by
      rw [insertKey]
      split
      · exact .refl _
      · exact ((insertKey_keys k v rest).cons j).trans (.swap k j _)

theorem sortItems_keys : ∀ items : List (String × Json F),
    ((sortItems items).map Prod.fst).Perm (items.map Prod.fst)
  | [] => .refl _
  | (k, _) :: rest => (insertKey_keys k _ _).trans ((sortItems_keys rest).cons k)

theorem insertKey_pairwise {k : String} {v : Json F} : ∀ {items : List (String × Json F)},
    (items.map Prod.fst).Pairwise (· ≤ ·) → ((insertKey k v items).map Prod.fst).Pairwise (· ≤ ·)
  | [], _ => List.pairwise_singleton _ _
  | (j, w) :: rest, h => by
      obtain ⟨hj, hrest⟩ := List.pairwise_cons.mp h
      rw [insertKey]
      split
      · rename_i hkj
        refine List.pairwise_cons.mpr ⟨fun x hx => ?_, h⟩
        rcases List.mem_cons.mp hx with rfl | hx
        · exact hkj
        · exact hkj.trans (hj x hx)
      · rename_i hkj
        refine List.pairwise_cons.mpr ⟨fun x hx => ?_, insertKey_pairwise hrest⟩
        rcases List.mem_cons.mp ((insertKey_keys k v rest).mem_iff.mp hx) with rfl | hx
        · exact le_of_not_ge hkj
        · exact hj x hx

theorem insertKey_orderedItems {k : String} {v : Json F} (hv : Ordered v) :
    ∀ {items : List (String × Json F)}, OrderedItems items → OrderedItems (insertKey k v items)
  | [], _ => ⟨hv, trivial⟩
  | (j, w) :: rest, h => by
      rw [insertKey]
      split
      · exact ⟨hv, h⟩
      · exact ⟨h.1, insertKey_orderedItems hv h.2⟩

mutual

theorem sortKeys_ordered : ∀ v : Json F, Ordered (sortKeys v)
  | .null | .bool _ | .int _ | .float _ | .str _ => trivial
  | .list vs => sortList_ordered vs
  | .obj items => sortItems_ordered items

theorem sortList_ordered : ∀ vs : List (Json F), OrderedList (sortList vs)
  | [] => trivial
  | v :: vs => ⟨sortKeys_ordered v, sortList_ordered vs⟩

theorem sortItems_ordered : ∀ items : List (String × Json F),
    ((sortItems items).map Prod.fst).Pairwise (· ≤ ·) ∧ OrderedItems (sortItems items)
  | [] => ⟨.nil, trivial⟩
  | (_, v) :: rest =>
      have ih := sortItems_ordered rest
      ⟨insertKey_pairwise ih.1, insertKey_orderedItems (sortKeys_ordered v) ih.2⟩

end

/-! ## 3. Sorting again -/

theorem insertKey_of_le {k : String} {v : Json F} {items : List (String × Json F)}
    (h : ∀ j ∈ items.map Prod.fst, k ≤ j) : insertKey k v items = (k, v) :: items := by
  cases items with
  | nil => rfl
  | cons kv rest => exact if_pos (h kv.1 List.mem_cons_self)

mutual

theorem Ordered.sortKeys_eq : ∀ {v : Json F}, Ordered v → sortKeys v = v
  | .null, _ | .bool _, _ | .int _, _ | .float _, _ | .str _, _ => rfl
  | .list _, h => congrArg Json.list (OrderedList.sortList_eq h)
  | .obj _, h => congrArg Json.obj (OrderedItems.sortItems_eq h.1 h.2)

theorem OrderedList.sortList_eq : ∀ {vs : List (Json F)}, OrderedList vs → sortList vs = vs
  | [], _ => rfl
  | _ :: _, h => congrArg₂ List.cons (Ordered.sortKeys_eq h.1) (OrderedList.sortList_eq h.2)

theorem OrderedItems.sortItems_eq : ∀ {items : List (String × Json F)},
    (items.map Prod.fst).Pairwise (· ≤ ·) → OrderedItems items → sortItems items = items
  | [], _, _ => rfl
  | (k, v) :: rest, hk, h => by
      obtain ⟨hle, hrest⟩ := List.pairwise_cons.mp hk
      rw [sortItems, Ordered.sortKeys_eq h.1, OrderedItems.sortItems_eq hrest h.2,
        insertKey_of_le hle]

end

/-- **Sorting twice is sorting once.** -/
@[simp] theorem sortKeys_sortKeys (v : Json F) : sortKeys (sortKeys v) = sortKeys v :=
  (sortKeys_ordered v).sortKeys_eq

@[simp] theorem sortItems_sortItems (items : List (String × Json F)) :
    sortItems (sortItems items) = sortItems items :=
  (sortItems_ordered items).2.sortItems_eq (sortItems_ordered items).1

/-! ## 4. The sorted value is the same dict -/

theorem insertKey_proper {k : String} {v : Json F} (hv : Proper v) :
    ∀ {items : List (String × Json F)}, ProperItems items → ProperItems (insertKey k v items)
  | [], _ => ⟨hv, trivial⟩
  | (j, w) :: rest, h => by
      rw [insertKey]
      split
      · exact ⟨hv, h⟩
      · exact ⟨h.1, insertKey_proper hv h.2⟩

mutual

theorem Proper.sortKeys : ∀ {v : Json F}, Proper v → Proper (sortKeys v)
  | .null, _ | .bool _, _ | .int _, _ | .float _, _ | .str _, _ => trivial
  | .list _, h => ProperList.sortList h
  | .obj items, h => ⟨(sortItems_keys items).nodup_iff.mpr h.1, ProperItems.sortItems h.2⟩

theorem ProperList.sortList : ∀ {vs : List (Json F)}, ProperList vs → ProperList (sortList vs)
  | [], _ => trivial
  | _ :: _, h => ⟨Proper.sortKeys h.1, ProperList.sortList h.2⟩

theorem ProperItems.sortItems : ∀ {items : List (String × Json F)},
    ProperItems items → ProperItems (sortItems items)
  | [], _ => trivial
  | _ :: _, h => insertKey_proper (Proper.sortKeys h.1) (ProperItems.sortItems h.2)

end

theorem lookup_insertKey (k : String) (v : Json F) (key : String) :
    ∀ items : List (String × Json F),
      lookup key (insertKey k v items) = if k = key then some v else lookup key items
  | [] => rfl
  | (j, w) :: rest => by
      have ih := lookup_insertKey k v key rest
      rw [insertKey]
      split
      · rfl
      · rename_i hlt
        rw [lookup_cons, lookup_cons, ih]
        by_cases hj : j = key
        · have hk : ¬ k = key := by
            rw [← hj]
            rintro rfl
            exact hlt le_rfl
          rw [if_pos hj, if_pos hj, if_neg hk]
        · rw [if_neg hj, if_neg hj]

/-- A lookup finds what it found before, sorted: the first of two items
with one key stays the first. -/
theorem lookup_sortItems (key : String) : ∀ items : List (String × Json F),
    lookup key (sortItems items) = (lookup key items).map sortKeys
  | [] => rfl
  | (k, v) :: rest => by
      rw [sortItems, lookup_insertKey, lookup_sortItems key rest, lookup_cons]
      split <;> rfl

/-- Dicts that are the same when sorted have the same sorted values under
every key. -/
theorem lookup_eq_of_sortKeys_eq {items items' : List (String × Json F)}
    (h : sortKeys (.obj items) = sortKeys (.obj items')) (key : String) :
    (lookup key items).map sortKeys = (lookup key items').map sortKeys := by
  have hsorted : sortItems items = sortItems items' := Json.obj.inj h
  rw [← lookup_sortItems, ← lookup_sortItems, hsorted]

private theorem map_lookup_keys : ∀ {items : List (String × Json F)}, (items.map Prod.fst).Nodup →
    (items.map Prod.fst).map (fun k => (lookup k items).map sortKeys)
      = items.map fun e => some (sortKeys e.2)
  | [], _ => rfl
  | (k, v) :: rest, h => by
      obtain ⟨hk, hrest⟩ := List.nodup_cons.mp h
      have htail : (rest.map Prod.fst).map (fun j => (lookup j ((k, v) :: rest)).map sortKeys)
          = (rest.map Prod.fst).map fun j => (lookup j rest).map sortKeys := by
        refine List.map_congr_left fun j hj => ?_
        have hne : ¬ k = j := by
          rintro rfl
          exact hk hj
        rw [lookup_cons, if_neg hne]
      rw [List.map_cons, List.map_cons, htail, map_lookup_keys hrest, lookup_cons, if_pos rfl]
      rfl

/-- Dicts with the same distinct keys that are the same when sorted have
the same sorted values. -/
theorem sortItems_values {items items' : List (String × Json F)}
    (h : sortKeys (.obj items) = sortKeys (.obj items'))
    (hkeys : items.map Prod.fst = items'.map Prod.fst) (hnodup : (items.map Prod.fst).Nodup) :
    items.map (fun e => sortKeys e.2) = items'.map fun e => sortKeys e.2 := by
  have hsome := map_lookup_keys hnodup
  have hsome' := map_lookup_keys (hkeys ▸ hnodup)
  rw [← hkeys] at hsome'
  have heq : items.map (fun e => some (sortKeys e.2)) = items'.map fun e => some (sortKeys e.2) := by
    rw [← hsome, ← hsome']
    exact List.map_congr_left fun k _ => lookup_eq_of_sortKeys_eq h k
  have hinj := (Option.some_injective (Json F)).list_map
  refine hinj ?_
  rw [List.map_map, List.map_map]
  exact heq

theorem sortList_eq_map : ∀ vs : List (Json F), sortList vs = vs.map sortKeys
  | [] => rfl
  | _ :: vs => by rw [sortList, sortList_eq_map vs, List.map_cons]

/-! ## 5. The text of a value -/

/-- A character that `json.dumps` writes as it is. -/
def Printable (c : Char) : Prop := 0x20 ≤ c.toNat ∧ c.toNat ≤ 0x7e

instance (c : Char) : Decidable (Printable c) := inferInstanceAs (Decidable (_ ∧ _))

/-- A literal is checked character by character. -/
theorem printable_literal {cs : List Char} (h : cs.all (fun c => decide (Printable c)) = true) :
    ∀ c ∈ cs, Printable c := by
  simpa using h

theorem digitChar_printable (d : Fin 10) : Printable (digitChar d) := by
  revert d
  decide

theorem natChars_printable (n : Nat) : ∀ c ∈ natChars n, Printable c := by
  intro c hc
  unfold natChars at hc
  split at hc
  · rw [List.mem_singleton.mp hc]
    decide
  · obtain ⟨d, -, rfl⟩ := List.mem_map.mp hc
    exact digitChar_printable _

theorem intChars_printable (n : Int) : ∀ c ∈ intChars n, Printable c := by
  intro c hc
  cases n with
  | ofNat n => exact natChars_printable n c hc
  | negSucc n =>
    rcases List.mem_cons.mp hc with rfl | hc
    · decide
    · exact natChars_printable _ c hc

theorem digitsChars_printable (ds : Digits) : ∀ c ∈ digitsChars ds, Printable c := by
  intro c hc
  rcases List.mem_cons.mp hc with rfl | hc
  · exact digitChar_printable _
  · obtain ⟨d, -, rfl⟩ := List.mem_map.mp hc
    exact digitChar_printable d

theorem signChars_printable : ∀ sign : Option Bool, ∀ c ∈ signChars sign, Printable c
  | none => nofun
  | some true => by exact printable_literal rfl
  | some false => by exact printable_literal rfl

theorem floatChars_printable (x : FloatText) : ∀ c ∈ floatChars x, Printable c := by
  cases x with
  | nan => exact printable_literal rfl
  | posInf => exact printable_literal rfl
  | negInf => exact printable_literal rfl
  | decimal d =>
    intro c hc
    simp only [floatChars, List.mem_append] at hc
    rcases hc with ((hc | hc) | hc) | hc
    · split at hc
      · rw [List.mem_singleton.mp hc]
        decide
      · cases hc
    · exact natChars_printable _ c hc
    · cases hf : d.frac with
      | none =>
        rw [hf] at hc
        cases hc
      | some ds =>
        rw [hf] at hc
        rcases List.mem_cons.mp hc with rfl | hc
        · decide
        · exact digitsChars_printable ds c hc
    · cases he : d.exp with
      | none =>
        rw [he] at hc
        cases hc
      | some e =>
        obtain ⟨sign, ds⟩ := e
        rw [he] at hc
        rcases List.mem_cons.mp hc with rfl | hc
        · decide
        · rcases List.mem_append.mp hc with hc | hc
          · exact signChars_printable sign c hc
          · exact digitsChars_printable ds c hc

theorem hexChar_printable {n : Nat} (h : n < 16) : Printable (hexChar n) := by
  have hall : ∀ k : Fin 16, Printable (hexChar k) := by decide
  exact hall ⟨n, h⟩

theorem unicodeEscape_printable (n : Nat) : ∀ c ∈ unicodeEscape n, Printable c := by
  intro c hc
  have hmod : ∀ m : Nat, m % 16 < 16 := fun m => Nat.mod_lt m (by decide)
  simp only [unicodeEscape, List.mem_cons, List.not_mem_nil, or_false] at hc
  rcases hc with rfl | rfl | rfl | rfl | rfl | rfl
  · decide
  · decide
  all_goals exact hexChar_printable (hmod _)

theorem escapeChar_printable (c : Char) : ∀ d ∈ escapeChar c, Printable d := by
  unfold escapeChar
  split
  · exact printable_literal rfl
  split
  · exact printable_literal rfl
  split
  · exact printable_literal rfl
  split
  · exact printable_literal rfl
  split
  · exact printable_literal rfl
  split
  · exact printable_literal rfl
  split
  · exact printable_literal rfl
  split
  · rename_i h
    intro d hd
    rw [List.mem_singleton.mp hd]
    exact h
  split
  · exact unicodeEscape_printable _
  · intro d hd
    rcases List.mem_append.mp hd with hd | hd
    · exact unicodeEscape_printable _ d hd
    · exact unicodeEscape_printable _ d hd

theorem strChars_printable (s : String) : ∀ c ∈ strChars s, Printable c := by
  intro c hc
  rcases List.mem_cons.mp hc with rfl | hc
  · decide
  rcases List.mem_append.mp hc with hc | hc
  · obtain ⟨d, -, hd⟩ := List.mem_flatMap.mp hc
    exact escapeChar_printable d c hd
  · rw [List.mem_singleton.mp hc]
    decide

variable [PyFloatText F] {sep : Separators}

/-- Separators of printable characters. -/
def Separators.Printable (sep : Separators) : Prop :=
  (∀ c ∈ sep.item, Json.Printable c) ∧ ∀ c ∈ sep.key, Json.Printable c

theorem Separators.compact_printable : Separators.compact.Printable := by
  constructor <;> exact printable_literal rfl

mutual

/-- **The text of a value is printable ASCII.** -/
theorem dumpChars_printable (hsep : sep.Printable) : ∀ v : Json F,
    ∀ c ∈ dumpChars sep v, Printable c
  | .null => by rw [dumpChars]; exact printable_literal rfl
  | .bool true => by rw [dumpChars]; exact printable_literal rfl
  | .bool false => by rw [dumpChars]; exact printable_literal rfl
  | .int n => intChars_printable n
  | .float x => floatChars_printable _
  | .str s => strChars_printable s
  | .list [] => by rw [dumpChars]; exact printable_literal rfl
  | .list (v :: vs) => by
      intro c hc
      rw [dumpChars] at hc
      rcases List.mem_cons.mp hc with rfl | hc
      · decide
      rcases List.mem_append.mp hc with hc | hc
      · exact dumpChars_printable hsep v c hc
      · exact dumpTail_printable hsep vs c hc
  | .obj [] => by rw [dumpChars]; exact printable_literal rfl
  | .obj ((k, v) :: rest) => by
      intro c hc
      rw [dumpChars] at hc
      simp only [List.mem_cons, List.mem_append] at hc
      rcases hc with rfl | ((hc | hc) | hc) | hc
      · decide
      · exact strChars_printable k c hc
      · exact hsep.2 c hc
      · exact dumpChars_printable hsep v c hc
      · exact dumpItems_printable hsep rest c hc

theorem dumpTail_printable (hsep : sep.Printable) : ∀ vs : List (Json F),
    ∀ c ∈ dumpTail sep vs, Printable c
  | [] => by rw [dumpTail]; exact printable_literal rfl
  | v :: vs => by
      intro c hc
      rw [dumpTail] at hc
      simp only [List.mem_append] at hc
      rcases hc with (hc | hc) | hc
      · exact hsep.1 c hc
      · exact dumpChars_printable hsep v c hc
      · exact dumpTail_printable hsep vs c hc

theorem dumpItems_printable (hsep : sep.Printable) : ∀ items : List (String × Json F),
    ∀ c ∈ dumpItems sep items, Printable c
  | [] => by rw [dumpItems]; exact printable_literal rfl
  | (k, v) :: rest => by
      intro c hc
      rw [dumpItems] at hc
      simp only [List.mem_append] at hc
      rcases hc with (((hc | hc) | hc) | hc) | hc
      · exact hsep.1 c hc
      · exact strChars_printable k c hc
      · exact hsep.2 c hc
      · exact dumpChars_printable hsep v c hc
      · exact dumpItems_printable hsep rest c hc

end

/-! ## 6. Sorting keeps the length of the text -/

theorem dumpItems_insertKey (sep : Separators) (k : String) (v : Json F) :
    ∀ items : List (String × Json F), (dumpItems sep (insertKey k v items)).length
      = sep.item.length + (strChars k).length + sep.key.length + (dumpChars sep v).length
        + (dumpItems sep items).length
  | [] => by simp [insertKey, dumpItems]; omega
  | (j, w) :: rest => by
      have ih := dumpItems_insertKey sep k v rest
      rw [insertKey]
      split
      · simp only [dumpItems, List.length_append]
      · simp only [dumpItems, List.length_append, ih]
        omega

/-- An object is written as the rest of one, without the first separator. -/
theorem dumpChars_obj_length (sep : Separators) {items : List (String × Json F)} (h : items ≠ []) :
    (dumpChars sep (.obj items)).length + sep.item.length = 1 + (dumpItems sep items).length := by
  cases items with
  | nil => exact absurd rfl h
  | cons kv rest =>
    obtain ⟨k, v⟩ := kv
    simp only [dumpChars, dumpItems, List.length_append, List.length_cons]
    omega

omit [PyFloatText F] in
theorem sortItems_ne_nil {items : List (String × Json F)} (h : items ≠ []) :
    sortItems items ≠ [] := by
  intro hnil
  have hkeys := (sortItems_keys items).length_eq
  rw [hnil] at hkeys
  simp only [List.map_nil, List.length_nil, List.length_map] at hkeys
  exact h (List.length_eq_zero_iff.mp hkeys.symm)

mutual

/-- The sorted value has a text of the same length. -/
theorem dumpChars_sortKeys_length (sep : Separators) :
    ∀ v : Json F, (dumpChars sep (sortKeys v)).length = (dumpChars sep v).length
  | .null => rfl
  | .bool _ => rfl
  | .int _ => rfl
  | .float _ => rfl
  | .str _ => rfl
  | .list [] => rfl
  | .list (v :: vs) => by
      have hv := dumpChars_sortKeys_length sep v
      have hvs := dumpTail_sortList_length sep vs
      simp only [sortKeys, sortList, dumpChars, List.length_cons, List.length_append, hv, hvs]
  | .obj items => by
      have hitems := dumpItems_sortItems_length sep items
      by_cases hnil : items = []
      · rw [hnil]
        rfl
      · have h₁ := dumpChars_obj_length sep hnil
        have h₂ := dumpChars_obj_length sep (sortItems_ne_nil hnil)
        rw [sortKeys]
        omega

theorem dumpTail_sortList_length (sep : Separators) :
    ∀ vs : List (Json F), (dumpTail sep (sortList vs)).length = (dumpTail sep vs).length
  | [] => rfl
  | v :: vs => by
      have hv := dumpChars_sortKeys_length sep v
      have hvs := dumpTail_sortList_length sep vs
      simp only [sortList, dumpTail, List.length_append, hv, hvs]

theorem dumpItems_sortItems_length (sep : Separators) :
    ∀ items : List (String × Json F),
      (dumpItems sep (sortItems items)).length = (dumpItems sep items).length
  | [] => rfl
  | (k, v) :: rest => by
      have hv := dumpChars_sortKeys_length sep v
      have hrest := dumpItems_sortItems_length sep rest
      simp only [sortItems, dumpItems_insertKey, dumpItems, List.length_append, hv, hrest]

end

end MultiForge.Json
