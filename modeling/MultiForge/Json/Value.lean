/-
MultiForge.Json.Value — the Python values that `json` reads and writes.

Every boundary of the repository that is not a typed record (streamed
chunks, tool arguments, Claude settings, cost-log lines) passes plain
`dict` / `list` / `str` / `int` / `float` / `bool` / `None` values around
and inspects them with `.get`, truthiness, `isinstance` and comparisons.
`Json F` is that value type and this module is those operations.

Floats are a parameter: nothing in the repository does float arithmetic
on these values, it only compares them with zero, uses them as dict keys
or carries them along, so `PyFloat` lists exactly what is observed. An
object is the list of its items in insertion order, the order Python's
`dict` keeps.
-/
import Mathlib.Data.List.Basic
import Mathlib.Data.List.Nodup

namespace MultiForge

/-- What the code observes of a Python `float`. -/
class PyFloat (F : Type) where
  /-- The integer a float is numerically equal to, if there is one; it
  decides `x == 0` and dict-key identity with `int` keys. -/
  toInt? : F → Option Int
  /-- `x > 0` -/
  pos : F → Bool
  /-- `x == y` -/
  eq : F → F → Bool

/-- A Python value built from JSON. -/
inductive Json (F : Type) where
  | null
  | bool (b : Bool)
  | int (n : Int)
  | float (x : F)
  | str (s : String)
  | list (xs : List (Json F))
  | obj (items : List (String × Json F))
  deriving Repr, Inhabited

namespace Json

variable {F : Type}

/-! ## 1. Decidable equality -/

mutual

def decEq [DecidableEq F] : (a b : Json F) → Decidable (a = b)
  | .null, .null => isTrue rfl
  | .bool a, .bool b => decidable_of_iff (a = b) (by simp)
  | .int a, .int b => decidable_of_iff (a = b) (by simp)
  | .float a, .float b => decidable_of_iff (a = b) (by simp)
  | .str a, .str b => decidable_of_iff (a = b) (by simp)
  | .list a, .list b =>
      match decEqList a b with
      | isTrue h => isTrue (by rw [h])
      | isFalse h => isFalse (by simpa using h)
  | .obj a, .obj b =>
      match decEqItems a b with
      | isTrue h => isTrue (by rw [h])
      | isFalse h => isFalse (by simpa using h)
  | .null, .bool _ | .null, .int _ | .null, .float _ | .null, .str _
  | .null, .list _ | .null, .obj _ => isFalse (by simp)
  | .bool _, .null | .bool _, .int _ | .bool _, .float _ | .bool _, .str _
  | .bool _, .list _ | .bool _, .obj _ => isFalse (by simp)
  | .int _, .null | .int _, .bool _ | .int _, .float _ | .int _, .str _
  | .int _, .list _ | .int _, .obj _ => isFalse (by simp)
  | .float _, .null | .float _, .bool _ | .float _, .int _ | .float _, .str _
  | .float _, .list _ | .float _, .obj _ => isFalse (by simp)
  | .str _, .null | .str _, .bool _ | .str _, .int _ | .str _, .float _
  | .str _, .list _ | .str _, .obj _ => isFalse (by simp)
  | .list _, .null | .list _, .bool _ | .list _, .int _ | .list _, .float _
  | .list _, .str _ | .list _, .obj _ => isFalse (by simp)
  | .obj _, .null | .obj _, .bool _ | .obj _, .int _ | .obj _, .float _
  | .obj _, .str _ | .obj _, .list _ => isFalse (by simp)

def decEqList [DecidableEq F] : (a b : List (Json F)) → Decidable (a = b)
  | [], [] => isTrue rfl
  | x :: xs, y :: ys =>
      match decEq x y, decEqList xs ys with
      | isTrue h, isTrue h' => isTrue (by rw [h, h'])
      | isFalse h, _ => isFalse (by simp [h])
      | _, isFalse h => isFalse (by simp [h])
  | [], _ :: _ => isFalse (by simp)
  | _ :: _, [] => isFalse (by simp)

def decEqItems [DecidableEq F] : (a b : List (String × Json F)) → Decidable (a = b)
  | [], [] => isTrue rfl
  | (k, x) :: xs, (l, y) :: ys =>
      if hk : k = l then
        match decEq x y, decEqItems xs ys with
        | isTrue h, isTrue h' => isTrue (by rw [hk, h, h'])
        | isFalse h, _ => isFalse (by simp [h])
        | _, isFalse h => isFalse (by simp [h])
      else isFalse (by simp [hk])
  | [], _ :: _ => isFalse (by simp)
  | _ :: _, [] => isFalse (by simp)

end

instance [DecidableEq F] : DecidableEq (Json F) := decEq

/-! ## 2. Dicts -/

/-- The value stored under `key` (`dict.get(key)` is `none` for absence). -/
def lookup (key : String) : List (String × Json F) → Option (Json F)
  | [] => none
  | (k, v) :: rest => if k = key then some v else lookup key rest

/-- `d.get(key, default)` -/
def getD (items : List (String × Json F)) (key : String) (default : Json F) : Json F :=
  (lookup key items).getD default

/-- `d.get(key)` -/
def get (items : List (String × Json F)) (key : String) : Json F :=
  getD items key .null

/-- `key in d` -/
def hasKey (items : List (String × Json F)) (key : String) : Bool :=
  (lookup key items).isSome

/-- `{k: v for k, v in d.items() if k != key}` -/
def erase (key : String) (items : List (String × Json F)) : List (String × Json F) :=
  items.filter (fun kv => kv.1 ≠ key)

/-- `d[key] = v`: an existing key keeps its position. -/
def insert (key : String) (v : Json F) : List (String × Json F) → List (String × Json F)
  | [] => [(key, v)]
  | (k, w) :: rest => if k = key then (k, v) :: rest else (k, w) :: insert key v rest

@[simp] theorem lookup_nil (key : String) : lookup (F := F) key [] = none := rfl

@[simp] theorem lookup_cons (key k : String) (v : Json F) (rest : List (String × Json F)) :
    lookup key ((k, v) :: rest) = if k = key then some v else lookup key rest := rfl

theorem lookup_insert (k key : String) (v : Json F) : ∀ items : List (String × Json F),
    lookup key (insert k v items)
      = if k = key then some v else lookup key items
  | [] => rfl
  | (j, w) :: rest => by
      have ih := lookup_insert k key v rest
      by_cases hj : j = k
      · subst hj
        by_cases hk : j = key
        · simp [insert, hk]
        · simp [insert, hk]
      · by_cases hjk : j = key
        · subst hjk
          simp [insert, hj, Ne.symm hj]
        · simp [insert, hj, hjk, ih]

theorem lookup_erase (k key : String) : ∀ items : List (String × Json F),
    lookup key (erase k items) = if k = key then none else lookup key items
  | [] => by simp [erase]
  | (j, w) :: rest => by
      have ih := lookup_erase k key rest
      by_cases hj : j = k
      · have herase : erase k ((j, w) :: rest) = erase k rest := by simp [erase, hj]
        rw [herase, ih]
        by_cases hk : k = key <;> simp [hj, hk]
      · have herase : erase k ((j, w) :: rest) = (j, w) :: erase k rest := by simp [erase, hj]
        rw [herase, lookup_cons, lookup_cons, ih]
        by_cases hjk : j = key
        · have hk : k ≠ key := fun e => hj (hjk.trans e.symm)
          simp [hjk, hk]
        · simp [hjk]

theorem insert_insert (key : String) (v w : Json F) (items : List (String × Json F)) :
    insert key v (insert key w items) = insert key v items := by
  induction items with
  | nil => simp [insert]
  | cons kv items ih =>
    obtain ⟨k, u⟩ := kv
    by_cases hk : k = key <;> simp [insert, hk, ih]

theorem insert_self {key : String} {v : Json F} {items : List (String × Json F)}
    (h : lookup key items = some v) : insert key v items = items := by
  induction items with
  | nil => cases h
  | cons kv items ih =>
    obtain ⟨k, u⟩ := kv
    rw [lookup_cons] at h
    split at h
    · rename_i hk
      cases h
      simp [insert, hk]
    · rename_i hk
      simp [insert, hk, ih h]

theorem erase_insert {key : String} {items : List (String × Json F)}
    (h : lookup key items = none) (v : Json F) : erase key (insert key v items) = items := by
  induction items with
  | nil => simp [insert, erase]
  | cons kv items ih =>
    obtain ⟨k, u⟩ := kv
    rw [lookup_cons] at h
    split at h
    · cases h
    · rename_i hk
      have hkeep : erase key ((k, u) :: insert key v items) = (k, u) :: erase key (insert key v items) := by
        simp [erase, hk]
      rw [insert, if_neg hk, hkeep, ih h]

/-! ## 3. Truthiness and comparisons -/

variable [PyFloat F]

/-- `bool(v)` -/
def truthy : Json F → Bool
  | .null => false
  | .bool b => b
  | .int n => n ≠ 0
  | .float x => PyFloat.toInt? x ≠ some 0
  | .str s => s ≠ ""
  | .list xs => !xs.isEmpty
  | .obj items => !items.isEmpty

/-- `v or w` -/
def orElse (v w : Json F) : Json F := if v.truthy then v else w

/-- `v > 0`, or `none` where Python raises `TypeError`. -/
def gtZero? : Json F → Option Bool
  | .bool b => some b
  | .int n => some (0 < n)
  | .float x => some (PyFloat.pos x)
  | _ => none

/-- `v == 0` -/
def eqZero : Json F → Bool
  | .bool b => !b
  | .int n => n = 0
  | .float x => PyFloat.toInt? x = some 0
  | _ => false

/-- The integer a number is equal to. -/
def toInt? : Json F → Option Int
  | .bool b => some (if b then 1 else 0)
  | .int n => some n
  | .float x => PyFloat.toInt? x
  | _ => none

mutual

/-- `v == w`: numbers compare by value across types and dicts ignore the
order of their items. -/
def pyEq : Json F → Json F → Bool
  | .null, w => match w with
      | .null => true
      | _ => false
  | .str s, w => match w with
      | .str t => s == t
      | _ => false
  | .list vs, w => match w with
      | .list ws => pyEqList vs ws
      | _ => false
  | .obj items, w => match w with
      | .obj items' => items.length == items'.length && pyEqItems items items'
      | _ => false
  | .float x, .float y => PyFloat.eq x y
  | v, w => match v.toInt?, w.toInt? with
      | some m, some n => m == n
      | _, _ => false

def pyEqList : List (Json F) → List (Json F) → Bool
  | [], [] => true
  | v :: vs, w :: ws => pyEq v w && pyEqList vs ws
  | _, _ => false

/-- Every item of the first dict is in the second. -/
def pyEqItems : List (String × Json F) → List (String × Json F) → Bool
  | [], _ => true
  | (k, v) :: rest, items => (match lookup k items with
      | some w => pyEq v w
      | none => false) && pyEqItems rest items

end

/-- Identity of a hashable value as a dict key: `True`, `1` and `1.0` are
one key. -/
inductive Key (F : Type) where
  | null
  | int (n : Int)
  | float (x : F)
  | str (s : String)
  deriving DecidableEq, Repr

/-- The key of a hashable value; `none` where hashing raises `TypeError`. -/
def key? : Json F → Option (Key F)
  | .null => some .null
  | .bool b => some (.int (if b then 1 else 0))
  | .int n => some (.int n)
  | .float x => some (match PyFloat.toInt? x with
      | some n => .int n
      | none => .float x)
  | .str s => some (.str s)
  | .list _ => none
  | .obj _ => none

@[simp] theorem truthy_null : (.null : Json F).truthy = false := rfl

@[simp] theorem truthy_str (s : String) : (.str s : Json F).truthy = decide (s ≠ "") := rfl

theorem orElse_of_truthy {v : Json F} (h : v.truthy = true) (w : Json F) : v.orElse w = v := by
  simp [orElse, h]

end Json

end MultiForge
