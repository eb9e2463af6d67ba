/-
MultiForge.Lib.SequenceMatcher — matching blocks and opcodes of two lists.

The longest block that two lists share is found first, then the blocks to
its left and to its right. A value that is popular in a long second list
starts no block but may extend one. Whatever is found, the opcodes between
the blocks turn the first list into the second: they follow one another
from the beginning to the end (`getOpcodes_tiles`), and where they say
`equal` the two lists agree.
-/
import Mathlib.Data.List.Basic
import Mathlib.Data.List.TakeDrop

namespace MultiForge.Difflib

variable {α : Type}

/-! ## 1. Parts of a list -/

/-- `xs[lo:hi]` -/
def slice (xs : List α) (lo hi : Nat) : List α := (xs.take hi).drop lo

theorem slice_append {xs : List α} {i j k : Nat} (hij : i ≤ j) (hjk : j ≤ k) :
    slice xs i j ++ slice xs j k = slice xs i k := by
  have hcut : slice xs i k = ((xs.take k).take j).drop i ++ ((xs.take k).drop j) := by
    rw [slice]
    conv_lhs => rw [← List.take_append_drop j (xs.take k)]
    by_cases hlen : i ≤ ((xs.take k).take j).length
    · rw [List.drop_append_of_le_length hlen]
    · have hshort : xs.length ≤ j := by
        simp only [List.length_take] at hlen
        omega
      have hpast : (xs.take k).length ≤ j := by
        rw [List.length_take]
        omega
      rw [List.drop_eq_nil_of_le hpast, List.append_nil, List.append_nil]
  rw [hcut, List.take_take, Nat.min_eq_left hjk]
  rfl

theorem slice_self (xs : List α) (i : Nat) : slice xs i i = [] := by
  rw [slice, List.drop_eq_nil_of_le]
  exact (List.length_take_le _ _)

theorem slice_all (xs : List α) : slice xs 0 xs.length = xs := by
  rw [slice, List.take_length, List.drop_zero]

theorem length_slice {xs : List α} {i j : Nat} (h : j ≤ xs.length) :
    (slice xs i j).length = j - i := by
  rw [slice, List.length_drop, List.length_take, Nat.min_eq_left h]

theorem slice_to_end (xs : List α) (i : Nat) : slice xs i xs.length = xs.drop i := by
  rw [slice, List.take_length]

/-- The two lists agree on a block. -/
structure Agree (a b : List α) (i j k : Nat) : Prop where
  left : i + k ≤ a.length
  right : j + k ≤ b.length
  same : ∀ t < k, a[i + t]? = b[j + t]?

namespace Agree

variable {a b : List α} {i j k : Nat}

theorem empty (hi : i ≤ a.length) (hj : j ≤ b.length) : Agree a b i j 0 where
  left := hi
  right := hj
  same t ht := absurd ht (Nat.not_lt_zero t)

/-- A block inside a block. -/
theorem sub (h : Agree a b i j k) {s l : Nat} (hl : s + l ≤ k) : Agree a b (i + s) (j + s) l where
  left := by have := h.left; omega
  right := by have := h.right; omega
  same t ht := by
    rw [Nat.add_assoc, Nat.add_assoc]
    exact h.same (s + t) (by omega)

/-- Adjacent blocks are one block. -/
theorem append {l : Nat} (h : Agree a b i j k) (h' : Agree a b (i + k) (j + k) l) :
    Agree a b i j (k + l) where
  left := by have := h'.left; omega
  right := by have := h'.right; omega
  same t ht := by
    by_cases hk : t < k
    · exact h.same t hk
    · have hrest := h'.same (t - k) (by omega)
      rwa [show i + k + (t - k) = i + t by omega, show j + k + (t - k) = j + t by omega] at hrest

/-- One equal element is a block. -/
theorem single {x : α} (hi : a[i]? = some x) (hj : b[j]? = some x) : Agree a b i j 1 where
  left := (List.getElem?_eq_some_iff.mp hi).1
  right := (List.getElem?_eq_some_iff.mp hj).1
  same t ht := by
    obtain rfl : t = 0 := by omega
    exact hi.trans hj.symm

theorem slice_eq (h : Agree a b i j k) : slice a i (i + k) = slice b j (j + k) := by
  refine List.ext_getElem? fun t => ?_
  rw [slice, slice, List.getElem?_drop, List.getElem?_drop, List.getElem?_take,
    List.getElem?_take]
  by_cases ht : t < k
  · rw [if_pos (by omega), if_pos (by omega)]
    exact h.same t ht
  · rw [if_neg (by omega), if_neg (by omega)]

/-- Agreement of parts is agreement of the lists. -/
theorem of_slice {alo ahi blo bhi : Nat}
    (h : Agree (slice a alo ahi) (slice b blo bhi) i j k) (hk : 0 < k) :
    Agree a b (alo + i) (blo + j) k ∧ alo + i + k ≤ ahi ∧ blo + j + k ≤ bhi := by
  have hleft := h.left
  have hright := h.right
  rw [slice, List.length_drop, List.length_take] at hleft hright
  refine ⟨⟨by omega, by omega, fun t ht => ?_⟩, by omega, by omega⟩
  have hsame := h.same t ht
  rw [slice, slice, List.getElem?_drop, List.getElem?_drop,
    List.getElem?_take_of_lt (by omega), List.getElem?_take_of_lt (by omega)] at hsame
  rwa [Nat.add_assoc, Nat.add_assoc]

end Agree

/-! ## 2. The longest block -/

/-- A block: where it begins in the two lists, and its size. -/
structure Match where
  i : Nat
  j : Nat
  size : Nat
  deriving DecidableEq, Repr

section Longest

variable [DecidableEq α]

/-- `b` is long and an element of it frequent. -/
def isPopular (b : List α) (x : α) : Bool :=
  200 ≤ b.length && b.length / 100 + 1 < b.count x

/-- The sizes of the blocks that end at one element of `a` and each element
of `b`; `prev` are those for the element before. -/
def nextRow (popular : α → Bool) (x : α) (b : List α) (prev : List Nat) : List Nat :=
  List.zipWith (fun y k => if x = y ∧ popular x = false then k + 1 else 0) b (0 :: prev)

/-- The first of the largest sizes. -/
def scanRow (i : Nat) : Nat → List Nat → Match → Match
  | _, [], best => best
  | j, k :: row, best =>
      scanRow i (j + 1) row (if best.size < k then ⟨i + 1 - k, j + 1 - k, k⟩ else best)

def scanRows (popular : α → Bool) (b : List α) : Nat → List α → List Nat → Match → Match
  | _, [], _, best => best
  | i, x :: rest, prev, best =>
      let row := nextRow popular x b prev
      scanRows popular b (i + 1) rest row (scanRow i 0 row best)

/-- The block goes on to the left as long as the lists agree. -/
def extendLeft (a b : List α) : Nat → Nat → Nat → Match
  | i + 1, j + 1, k =>
      if a[i]? = b[j]? then extendLeft a b i j (k + 1) else ⟨i + 1, j + 1, k⟩
  | i, j, k => ⟨i, j, k⟩

/-- The length of the longest common beginning. -/
def commonPrefix : List α → List α → Nat
  | x :: xs, y :: ys => if x = y then commonPrefix xs ys + 1 else 0
  | _, _ => 0

/-- The block goes on to the right as long as the lists agree. -/
def extendRight (a b : List α) (m : Match) : Match :=
  { m with size := m.size + commonPrefix (a.drop (m.i + m.size)) (b.drop (m.j + m.size)) }

/-- `find_longest_match` on whole lists -/
def longest (popular : α → Bool) (a b : List α) : Match :=
  let best := scanRows popular b 0 a (List.replicate b.length 0) ⟨0, 0, 0⟩
  extendRight a b (extendLeft a b best.i best.j best.size)

/-- `find_longest_match` -/
def findLongestMatch (popular : α → Bool) (a b : List α) (alo ahi blo bhi : Nat) : Match :=
  let m := longest popular (slice a alo ahi) (slice b blo bhi)
  { m with i := alo + m.i, j := blo + m.j }

/-- The sizes in a row are those of blocks that end there. -/
def RowOk (a b : List α) (i : Nat) (row : List Nat) : Prop :=
  ∀ j k, row[j]? = some k → k ≤ i ∧ k ≤ j + 1 ∧ Agree a b (i - k) (j + 1 - k) k

theorem rowOk_nextRow {popular : α → Bool} {a b : List α} {i : Nat} {x : α} {prev : List Nat}
    (hx : a[i]? = some x) (h : RowOk a b i prev) :
    RowOk a b (i + 1) (nextRow popular x b prev) := by
  have hi : i < a.length := (List.getElem?_eq_some_iff.mp hx).1
  intro j k hk
  rw [nextRow, List.getElem?_zipWith_eq_some] at hk
  obtain ⟨y, l, hy, hl, rfl⟩ := hk
  have hj : j < b.length := (List.getElem?_eq_some_iff.mp hy).1
  split
  · rename_i hsame
    have hone : Agree a b i j 1 := Agree.single hx (hsame.1 ▸ hy)
    cases j with
    | zero =>
      cases hl
      exact ⟨by omega, by omega, by simpa using hone⟩
    | succ j =>
      obtain ⟨hli, hlj, hagree⟩ := h j l hl
      refine ⟨by omega, by omega, ?_⟩
      have happend := Agree.append (l := 1) hagree
        (by rwa [show i - l + l = i by omega, show j + 1 - l + l = j + 1 by omega])
      rwa [show i + 1 - (l + 1) = i - l by omega,
        show j + 1 + 1 - (l + 1) = j + 1 - l by omega]
  · exact ⟨by omega, by omega, Agree.empty (by omega) (by omega)⟩

omit [DecidableEq α] in
theorem scanRow_agree {a b : List α} {i : Nat} : ∀ {row : List Nat} {j : Nat} {best : Match},
    (∀ t k, row[t]? = some k → k ≤ i + 1 ∧ k ≤ j + t + 1 ∧
      Agree a b (i + 1 - k) (j + t + 1 - k) k) →
    Agree a b best.i best.j best.size →
    Agree a b (scanRow i j row best).i (scanRow i j row best).j (scanRow i j row best).size
  | [], _, _, _, hbest => hbest
  | k :: row, j, best, hrow, hbest => by
      rw [scanRow]
      refine scanRow_agree (fun t l hl => ?_) ?_
      · have hnext := hrow (t + 1) l hl
        rwa [show j + (t + 1) + 1 = j + 1 + t + 1 by omega] at hnext
      · split
        · exact (hrow 0 k rfl).2.2
        · exact hbest

theorem scanRows_agree {popular : α → Bool} {a b : List α} : ∀ {rest : List α} {i : Nat}
    {prev : List Nat} {best : Match}, a.drop i = rest → RowOk a b i prev →
    Agree a b best.i best.j best.size →
    Agree a b (scanRows popular b i rest prev best).i (scanRows popular b i rest prev best).j
      (scanRows popular b i rest prev best).size
  | [], _, _, _, _, _, hbest => hbest
  | x :: rest, i, prev, best, hrest, hprev, hbest => by
      have hx : a[i]? = some x := by
        rw [← List.head?_drop, hrest]
        rfl
      have hdrop : a.drop (i + 1) = rest := by
        rw [← List.tail_drop, hrest]
        rfl
      have hrow : RowOk a b (i + 1) (nextRow popular x b prev) := rowOk_nextRow hx hprev
      rw [scanRows]
      refine scanRows_agree hdrop hrow (scanRow_agree (fun t k hk => ?_) hbest)
      obtain ⟨hki, hkt, hagree⟩ := hrow t k hk
      exact ⟨hki, by omega, by simpa using hagree⟩

theorem extendLeft_agree {a b : List α} : ∀ {i j k : Nat}, Agree a b i j k →
    Agree a b (extendLeft a b i j k).i (extendLeft a b i j k).j (extendLeft a b i j k).size
  | i + 1, j + 1, k, h => by
      rw [extendLeft]
      split
      · rename_i hsame
        have hi : i < a.length := by have := h.left; omega
        have hone : Agree a b i j 1 := Agree.single (List.getElem?_eq_getElem hi)
          (hsame ▸ List.getElem?_eq_getElem hi)
        refine extendLeft_agree ?_
        rw [Nat.add_comm k 1]
        exact hone.append h
      · exact h
  | 0, _, _, h => by simpa [extendLeft] using h
  | _ + 1, 0, _, h => by simpa [extendLeft] using h

theorem commonPrefix_agree : ∀ (xs ys : List α),
    commonPrefix xs ys ≤ xs.length ∧ commonPrefix xs ys ≤ ys.length ∧
      ∀ t < commonPrefix xs ys, xs[t]? = ys[t]?
  | [], _ => by simp [commonPrefix]
  | _ :: _, [] => by simp [commonPrefix]
  | x :: xs, y :: ys => by
      obtain ⟨hx, hy, hsame⟩ := commonPrefix_agree xs ys
      rw [commonPrefix]
      split
      · rename_i hxy
        refine ⟨Nat.succ_le_succ hx, Nat.succ_le_succ hy, fun t ht => ?_⟩
        cases t with
        | zero => exact congrArg some hxy
        | succ t => exact hsame t (by omega)
      · exact ⟨Nat.zero_le _, Nat.zero_le _, fun t ht => absurd ht (Nat.not_lt_zero t)⟩

theorem extendRight_agree {a b : List α} {m : Match} (h : Agree a b m.i m.j m.size) :
    Agree a b (extendRight a b m).i (extendRight a b m).j (extendRight a b m).size := by
  obtain ⟨hx, hy, hsame⟩ := commonPrefix_agree (a.drop (m.i + m.size)) (b.drop (m.j + m.size))
  rw [List.length_drop] at hx hy
  have hi := h.left
  have hj := h.right
  refine h.append ⟨by omega, by omega, fun t ht => ?_⟩
  have heq := hsame t ht
  rwa [List.getElem?_drop, List.getElem?_drop] at heq

theorem longest_agree (popular : α → Bool) (a b : List α) :
    Agree a b (longest popular a b).i (longest popular a b).j (longest popular a b).size := by
  have hzero : RowOk a b 0 (List.replicate b.length 0) := by
    intro j k hk
    rw [List.getElem?_replicate] at hk
    split at hk
    · cases hk
      exact ⟨Nat.le_refl 0, by omega, Agree.empty (by omega) (by omega)⟩
    · cases hk
  exact extendRight_agree (extendLeft_agree
    (scanRows_agree List.drop_zero hzero (Agree.empty (Nat.zero_le _) (Nat.zero_le _))))

/-- What is found lies in its ranges. -/
theorem findLongestMatch_agree (popular : α → Bool) (a b : List α) (alo ahi blo bhi : Nat)
    {m : Match} (hm : findLongestMatch popular a b alo ahi blo bhi = m) (hsize : 0 < m.size) :
    Agree a b m.i m.j m.size ∧ alo ≤ m.i ∧ blo ≤ m.j ∧ m.i + m.size ≤ ahi
      ∧ m.j + m.size ≤ bhi := by
  subst hm
  obtain ⟨hagree, hahi, hbhi⟩ := (longest_agree popular _ _).of_slice hsize
  exact ⟨hagree, Nat.le_add_right _ _, Nat.le_add_right _ _, hahi, hbhi⟩

/-! ## 3. Matching blocks -/

/-- The blocks in a part of the two lists, from left to right; every level
uses up an element of `a`. -/
def blocksIn (popular : α → Bool) (a b : List α) : Nat → Nat → Nat → Nat → Nat → List Match
  | 0, _, _, _, _ => []
  | fuel + 1, alo, ahi, blo, bhi =>
      let m := findLongestMatch popular a b alo ahi blo bhi
      if m.size = 0 then []
      else
        (if alo < m.i ∧ blo < m.j then blocksIn popular a b fuel alo m.i blo m.j else [])
          ++ m :: (if m.i + m.size < ahi ∧ m.j + m.size < bhi then
              blocksIn popular a b fuel (m.i + m.size) ahi (m.j + m.size) bhi
            else [])

/-- Adjacent blocks become one; `m` is the block that is open. -/
def mergeAdjacent : Match → List Match → List Match
  | m, [] => if m.size = 0 then [] else [m]
  | m, next :: rest =>
      if m.i + m.size = next.i ∧ m.j + m.size = next.j then
        mergeAdjacent { m with size := m.size + next.size } rest
      else (if m.size = 0 then [] else [m]) ++ mergeAdjacent next rest

/-- `get_matching_blocks`, without the empty block at the end -/
def getMatchingBlocks (a b : List α) : List Match :=
  mergeAdjacent ⟨0, 0, 0⟩ (blocksIn (isPopular b) a b a.length 0 a.length 0 b.length)

end Longest

/-- Blocks from one place of the two lists on, one behind the other. -/
def Ordered (a b : List α) : Nat → Nat → List Match → Prop
  | i, j, [] => i ≤ a.length ∧ j ≤ b.length
  | i, j, m :: ms =>
      i ≤ m.i ∧ j ≤ m.j ∧ Agree a b m.i m.j m.size ∧ Ordered a b (m.i + m.size) (m.j + m.size) ms

theorem Ordered.mono {a b : List α} {i j i' j' : Nat} (hi : i' ≤ i) (hj : j' ≤ j) :
    ∀ {ms : List Match}, Ordered a b i j ms → Ordered a b i' j' ms
  | [], h => ⟨Nat.le_trans hi h.1, Nat.le_trans hj h.2⟩
  | _ :: _, h => ⟨Nat.le_trans hi h.1, Nat.le_trans hj h.2.1, h.2.2⟩

/-- Blocks that end before a place go in front of those from there on. -/
theorem Ordered.append {a b : List α} {p q : Nat} {ms' : List Match} (h' : Ordered a b p q ms') :
    ∀ {ms : List Match} {i j : Nat}, Ordered a b i j ms → i ≤ p → j ≤ q →
      (∀ m ∈ ms, m.i + m.size ≤ p ∧ m.j + m.size ≤ q) → Ordered a b i j (ms ++ ms')
  | [], _, _, _, hp, hq, _ => h'.mono hp hq
  | m :: ms, _, _, ⟨hi, hj, hagree, hrest⟩, _, _, hend => by
      obtain ⟨hmp, hmq⟩ := hend m List.mem_cons_self
      exact ⟨hi, hj, hagree, Ordered.append h' hrest hmp hmq fun other hother =>
        hend other (List.mem_cons_of_mem m hother)⟩

variable [DecidableEq α]

theorem blocksIn_ordered (popular : α → Bool) {a b : List α} : ∀ (fuel : Nat)
    {alo ahi blo bhi : Nat}, alo ≤ ahi → ahi ≤ a.length → blo ≤ bhi → bhi ≤ b.length →
    Ordered a b alo blo (blocksIn popular a b fuel alo ahi blo bhi) ∧
      ∀ m ∈ blocksIn popular a b fuel alo ahi blo bhi, m.i + m.size ≤ ahi ∧ m.j + m.size ≤ bhi
  | 0, _, _, _, _, hlo, hahi, hblo, hbhi =>
      ⟨⟨Nat.le_trans hlo hahi, Nat.le_trans hblo hbhi⟩, nofun⟩
  | fuel + 1, alo, ahi, blo, bhi, hlo, hahi, hblo, hbhi => by
      rw [blocksIn]
      split
      · exact ⟨⟨Nat.le_trans hlo hahi, Nat.le_trans hblo hbhi⟩, nofun⟩
      · rename_i hsize
        obtain ⟨hagree, hai, hbj, hia, hjb⟩ := findLongestMatch_agree popular a b alo ahi blo bhi
          rfl (Nat.pos_of_ne_zero hsize)
        set m := findLongestMatch popular a b alo ahi blo bhi
        set left := if alo < m.i ∧ blo < m.j then blocksIn popular a b fuel alo m.i blo m.j
          else [] with hleftDef
        set right := if m.i + m.size < ahi ∧ m.j + m.size < bhi then
          blocksIn popular a b fuel (m.i + m.size) ahi (m.j + m.size) bhi else [] with hrightDef
        have hleft : Ordered a b alo blo left ∧
            ∀ k ∈ left, k.i + k.size ≤ m.i ∧ k.j + k.size ≤ m.j := by
          rw [hleftDef]
          split
          · exact blocksIn_ordered popular fuel hai (by omega) hbj (by omega)
          · exact ⟨⟨by omega, by omega⟩, nofun⟩
        have hright : Ordered a b (m.i + m.size) (m.j + m.size) right ∧
            ∀ k ∈ right, k.i + k.size ≤ ahi ∧ k.j + k.size ≤ bhi := by
          rw [hrightDef]
          split
          · exact blocksIn_ordered popular fuel hia hahi hjb hbhi
          · exact ⟨⟨by omega, by omega⟩, nofun⟩
        have hfrom : Ordered a b m.i m.j (m :: right) :=
          ⟨Nat.le_refl _, Nat.le_refl _, hagree, hright.1⟩
        refine ⟨hfrom.append hleft.1 hai hbj hleft.2, fun k hk => ?_⟩
        rcases List.mem_append.mp hk with hk | hk
        · have hbounds := hleft.2 k hk
          omega
        · rcases List.mem_cons.mp hk with rfl | hk
          · exact ⟨hia, hjb⟩
          · exact hright.2 k hk

omit [DecidableEq α] in
theorem mergeAdjacent_ordered {a b : List α} : ∀ {ms : List Match} {m : Match} {i j : Nat},
    Ordered a b i j (m :: ms) → Ordered a b i j (mergeAdjacent m ms)
  | [], m, _, _, h => by
      rw [mergeAdjacent]
      split
      · obtain ⟨hi, hj, hagree, -⟩ := h
        have hleft := hagree.left
        have hright := hagree.right
        exact ⟨by omega, by omega⟩
      · exact h
  | next :: rest, m, i, j, ⟨hi, hj, hagree, hin, hjn, hnext, hrest⟩ => by
      rw [mergeAdjacent]
      split
      · rename_i hadjacent
        refine mergeAdjacent_ordered ⟨hi, hj, hagree.append ?_, ?_⟩
        · rw [hadjacent.1, hadjacent.2]
          exact hnext
        · rwa [← Nat.add_assoc, ← Nat.add_assoc, hadjacent.1, hadjacent.2]
      · split
        · exact mergeAdjacent_ordered ⟨by omega, by omega, hnext, hrest⟩
        · exact ⟨hi, hj, hagree, mergeAdjacent_ordered ⟨hin, hjn, hnext, hrest⟩⟩

theorem getMatchingBlocks_ordered (a b : List α) : Ordered a b 0 0 (getMatchingBlocks a b) := by
  have hblocks : Ordered a b 0 0 (blocksIn (isPopular b) a b a.length 0 a.length 0 b.length) :=
    (blocksIn_ordered _ _ (Nat.zero_le _) (Nat.le_refl _) (Nat.zero_le _) (Nat.le_refl _)).1
  exact mergeAdjacent_ordered ⟨Nat.le_refl 0, Nat.le_refl 0,
    Agree.empty (Nat.zero_le _) (Nat.zero_le _), hblocks⟩

/-! ## 4. Opcodes -/

inductive Tag where
  | replace
  | delete
  | insert
  | equal
  deriving DecidableEq, Repr

/-- What becomes of `a[i1:i2]`: it is `b[j1:j2]`. -/
structure Opcode where
  tag : Tag
  i1 : Nat
  i2 : Nat
  j1 : Nat
  j2 : Nat
  deriving DecidableEq, Repr

/-- The opcodes from `i` and `j` on; `la` and `lb` are the lengths of the
lists. -/
def opcodesFrom (la lb : Nat) : Nat → Nat → List Match → List Opcode
  | i, j, [] => gap i la j lb
  | i, j, m :: ms =>
      gap i m.i j m.j
        ++ ⟨.equal, m.i, m.i + m.size, m.j, m.j + m.size⟩
          :: opcodesFrom la lb (m.i + m.size) (m.j + m.size) ms
where
  /-- what is between two blocks -/
  gap (i ai j bj : Nat) : List Opcode :=
    if i < ai ∧ j < bj then [⟨.replace, i, ai, j, bj⟩]
    else if i < ai then [⟨.delete, i, ai, j, bj⟩]
    else if j < bj then [⟨.insert, i, ai, j, bj⟩]
    else []

/-- `get_opcodes` -/
def getOpcodes (a b : List α) : List Opcode :=
  opcodesFrom a.length b.length 0 0 (getMatchingBlocks a b)

/-! ## 5. Groups -/

/-- The first `n` elements of an opcode. -/
def Opcode.head (n : Nat) (c : Opcode) : Opcode :=
  { c with i2 := min c.i2 (c.i1 + n), j2 := min c.j2 (c.j1 + n) }

/-- The last `n` elements of an opcode. -/
def Opcode.last (n : Nat) (c : Opcode) : Opcode :=
  { c with i1 := max c.i1 (c.i2 - n), j1 := max c.j1 (c.j2 - n) }

/-- Of equal lines at the beginning the last `n` are kept. -/
def trimFirst (n : Nat) : List Opcode → List Opcode
  | [] => []
  | c :: rest => (if c.tag = .equal then c.last n else c) :: rest

/-- Of equal lines at the end the first `n` are kept. -/
def trimLast (n : Nat) : List Opcode → List Opcode
  | [] => []
  | [c] => [if c.tag = .equal then c.head n else c]
  | c :: d :: rest => c :: trimLast n (d :: rest)

/-- A group that shows no change. -/
def noChange : List Opcode → Bool
  | [] => true
  | [c] => c.tag == .equal
  | _ => false

/-- A group ends where a large range has no changes. -/
def groupLoop (n : Nat) : List Opcode → List Opcode → List (List Opcode)
  | group, [] => if noChange group then [] else [group]
  | group, c :: rest =>
      if c.tag = .equal ∧ n + n < c.i2 - c.i1 then
        (group ++ [c.head n]) :: groupLoop n [c.last n] rest
      else groupLoop n (group ++ [c]) rest

/-- `get_grouped_opcodes` -/
def getGroupedOpcodes (n : Nat) (a b : List α) : List (List Opcode) :=
  let codes := getOpcodes a b
  let codes := if codes.isEmpty then [⟨.equal, 0, 1, 0, 1⟩] else codes
  groupLoop n [] (trimLast n (trimFirst n codes))

/-! ## 6. The groups cover the changes -/

/-- An opcode is in order, and says what is so. -/
def Opcode.Fits (a b : List α) (c : Opcode) : Prop :=
  c.i1 ≤ c.i2 ∧ c.j1 ≤ c.j2 ∧
    match c.tag with
    | .equal => c.i2 - c.i1 = c.j2 - c.j1 ∧ Agree a b c.i1 c.j1 (c.i2 - c.i1)
    | .delete => c.j1 = c.j2
    | .insert => c.i1 = c.i2
    | .replace => True

/-- Opcodes that follow one another between two places of the lists. -/
def Tiles (a b : List α) : Nat → Nat → List Opcode → Nat → Nat → Prop
  | i, j, [], i', j' => i = i' ∧ j = j'
  | i, j, c :: cs, i', j' => c.i1 = i ∧ c.j1 = j ∧ c.Fits a b ∧ Tiles a b c.i2 c.j2 cs i' j'

/-- The two lists agree from two places on to their ends. -/
def AgreeRest (a b : List α) (i j : Nat) : Prop :=
  a.length - i = b.length - j ∧ Agree a b i j (a.length - i)

/-- Between the groups, before the first and behind the last the lists
agree. -/
inductive Covers (a b : List α) : Nat → Nat → List (List Opcode) → Prop where
  | rest {p q : Nat} : AgreeRest a b p q → Covers a b p q []
  | group {p q k i j : Nat} {g : List Opcode} {gs : List (List Opcode)} :
      Agree a b p q k → Tiles a b (p + k) (q + k) g i j → g ≠ [] → Covers a b i j gs →
      Covers a b p q (g :: gs)

section Groups

omit [DecidableEq α]

variable {a b : List α}

theorem Tiles.append {p q i' j' : Nat} {cs' : List Opcode} (h' : Tiles a b p q cs' i' j') :
    ∀ {cs : List Opcode} {i j : Nat}, Tiles a b i j cs p q → Tiles a b i j (cs ++ cs') i' j'
  | [], _, _, ⟨hi, hj⟩ => by
      subst hi hj
      exact h'
  | _ :: _, _, _, ⟨hi, hj, hfits, hrest⟩ => ⟨hi, hj, hfits, Tiles.append h' hrest⟩

theorem Tiles.single {c : Opcode} (h : c.Fits a b) : Tiles a b c.i1 c.j1 [c] c.i2 c.j2 :=
  ⟨rfl, rfl, h, rfl, rfl⟩

theorem gap_tiles {i ai j bj : Nat} (hi : i ≤ ai) (hj : j ≤ bj) :
    Tiles a b i j (opcodesFrom.gap i ai j bj) ai bj := by
  unfold opcodesFrom.gap
  split
  · exact ⟨rfl, rfl, ⟨hi, hj, trivial⟩, rfl, rfl⟩
  · split
    · have hnone : j = bj := by omega
      exact ⟨rfl, rfl, ⟨hi, hj, hnone⟩, rfl, rfl⟩
    · have hnone : i = ai := by omega
      split
      · exact ⟨rfl, rfl, ⟨hi, hj, hnone⟩, rfl, rfl⟩
      · exact ⟨hnone, by omega⟩

theorem opcodesFrom_tiles : ∀ {ms : List Match} {i j : Nat}, Ordered a b i j ms →
    Tiles a b i j (opcodesFrom a.length b.length i j ms) a.length b.length
  | [], _, _, h => gap_tiles h.1 h.2
  | m :: ms, _, _, ⟨hi, hj, hagree, hrest⟩ => by
      have hblock : Agree a b m.i m.j (m.i + m.size - m.i) := by simpa using hagree
      have hequal : Opcode.Fits a b ⟨.equal, m.i, m.i + m.size, m.j, m.j + m.size⟩ :=
        ⟨Nat.le_add_right _ _, Nat.le_add_right _ _, by simp, hblock⟩
      have hfrom : Tiles a b m.i m.j (⟨.equal, m.i, m.i + m.size, m.j, m.j + m.size⟩ ::
          opcodesFrom a.length b.length (m.i + m.size) (m.j + m.size) ms) a.length b.length :=
        ⟨rfl, rfl, hequal, opcodesFrom_tiles hrest⟩
      exact hfrom.append (gap_tiles hi hj)

theorem Agree.rest {p q k : Nat} (h : Agree a b p q k) (hrest : AgreeRest a b (p + k) (q + k)) :
    AgreeRest a b p q := by
  obtain ⟨hlen, hagree⟩ := hrest
  have hleft := hagree.left
  have hright := hagree.right
  have hall := h.append hagree
  refine ⟨by omega, ?_⟩
  rwa [show k + (a.length - (p + k)) = a.length - p by omega] at hall

theorem Opcode.Fits.equal {c : Opcode} (h : c.Fits a b) (htag : c.tag = .equal) :
    c.i1 ≤ c.i2 ∧ c.j1 ≤ c.j2 ∧ c.i2 - c.i1 = c.j2 - c.j1
      ∧ Agree a b c.i1 c.j1 (c.i2 - c.i1) := by
  obtain ⟨hi, hj, hfits⟩ := h
  rw [htag] at hfits
  exact ⟨hi, hj, hfits⟩

/-- A part of an `equal` opcode. -/
theorem Opcode.Fits.part {c d : Opcode} (h : c.Fits a b) (htag : c.tag = .equal)
    (hd : d.tag = .equal) (h1 : c.i1 ≤ d.i1) (h12 : d.i1 ≤ d.i2) (h2 : d.i2 ≤ c.i2)
    (hj1 : d.j1 = c.j1 + (d.i1 - c.i1)) (hj2 : d.j2 = d.j1 + (d.i2 - d.i1)) : d.Fits a b := by
  obtain ⟨-, -, -, hagree⟩ := h.equal htag
  have hsub := hagree.sub (s := d.i1 - c.i1) (l := d.i2 - d.i1) (by omega)
  rw [← hj1, show c.i1 + (d.i1 - c.i1) = d.i1 by omega] at hsub
  refine ⟨h12, by omega, ?_⟩
  rw [hd]
  exact ⟨by omega, hsub⟩

theorem Opcode.Fits.head {c : Opcode} (h : c.Fits a b) (htag : c.tag = .equal) (n : Nat) :
    (c.head n).Fits a b := by
  obtain ⟨hi, hj, hlen, -⟩ := h.equal htag
  refine h.part htag htag ?_ ?_ ?_ ?_ ?_ <;> simp only [Opcode.head] <;> omega

theorem Opcode.Fits.last {c : Opcode} (h : c.Fits a b) (htag : c.tag = .equal) (n : Nat) :
    (c.last n).Fits a b := by
  obtain ⟨hi, hj, hlen, -⟩ := h.equal htag
  refine h.part htag htag ?_ ?_ ?_ ?_ ?_ <;> simp only [Opcode.last] <;> omega

/-- A group without a change is a block. -/
theorem noChange_agree {p q k i j : Nat} (h : Agree a b p q k) : ∀ {g : List Opcode},
    Tiles a b (p + k) (q + k) g i j → noChange g = true →
    ∃ l, Agree a b p q l ∧ i = p + l ∧ j = q + l
  | [], ⟨hi, hj⟩, _ => ⟨k, h, hi.symm, hj.symm⟩
  | [c], ⟨hi1, hj1, hfits, hi2, hj2⟩, hg => by
      obtain ⟨hi, hj, hlen, hagree⟩ := hfits.equal (by simpa [noChange] using hg)
      have hall := h.append (l := c.i2 - c.i1) (by rwa [← hi1, ← hj1])
      exact ⟨_, hall, by omega, by omega⟩

/-- The rest of the loop covers the rest of the changes. -/
theorem groupLoop_covers {n : Nat} : ∀ {rest group : List Opcode} {p q k i j i' j' : Nat},
    Agree a b p q k → Tiles a b (p + k) (q + k) group i j → Tiles a b i j rest i' j' →
    AgreeRest a b i' j' → Covers a b p q (groupLoop n group rest)
  | [], group, p, q, k, i, j, _, _, hgap, hgroup, ⟨hi, hj⟩, hend => by
      subst hi hj
      rw [groupLoop]
      split
      · rename_i hnone
        obtain ⟨l, hagree, rfl, rfl⟩ := noChange_agree hgap hgroup hnone
        exact .rest (hagree.rest hend)
      · rename_i hchange
        refine .group hgap hgroup ?_ (.rest hend)
        rintro rfl
        exact hchange rfl
  | c :: rest, group, p, q, k, i, j, _, _, hgap, hgroup, ⟨hi, hj, hfits, hrest⟩, hend => by
      subst hi hj
      rw [groupLoop]
      split
      · rename_i hlong
        obtain ⟨htag, hlong⟩ := hlong
        obtain ⟨hi, hj, hlen, hagree⟩ := hfits.equal htag
        refine .group hgap (Tiles.append (.single (hfits.head htag n)) hgroup) (by simp) ?_
        -- what is left out between the two groups
        have hgap' : Agree a b (c.head n).i2 (c.head n).j2 (c.i2 - c.i1 - n - n) := by
          have hsub := hagree.sub (s := n) (l := c.i2 - c.i1 - n - n) (by omega)
          rwa [show c.i1 + n = (c.head n).i2 by simp only [Opcode.head]; omega,
            show c.j1 + n = (c.head n).j2 by simp only [Opcode.head]; omega] at hsub
        refine groupLoop_covers hgap' ⟨?_, ?_, hfits.last htag n, rfl, rfl⟩ hrest hend
        · simp only [Opcode.last, Opcode.head]
          omega
        · simp only [Opcode.last, Opcode.head]
          omega
      · exact groupLoop_covers hgap (Tiles.append (.single hfits) hgroup) hrest hend

theorem trimFirst_tiles {n i' j' : Nat} : ∀ {codes : List Opcode} {i j : Nat},
    Tiles a b i j codes i' j' → i ≤ a.length → j ≤ b.length →
    ∃ k, Agree a b i j k ∧ Tiles a b (i + k) (j + k) (trimFirst n codes) i' j'
  | [], _, _, h, hi, hj => ⟨0, Agree.empty hi hj, h⟩
  | c :: rest, _, _, ⟨hi1, hj1, hfits, hrest⟩, hi, hj => by
      subst hi1 hj1
      rw [trimFirst]
      split
      · rename_i htag
        obtain ⟨hi, hj, hlen, hagree⟩ := hfits.equal htag
        have hsub := hagree.sub (s := 0) (l := (c.last n).i1 - c.i1) (by
          simp only [Opcode.last]
          omega)
        refine ⟨_, hsub, ?_, ?_, hfits.last htag n, hrest⟩
        · simp only [Opcode.last]
          omega
        · simp only [Opcode.last]
          omega
      · exact ⟨0, Agree.empty hi hj, rfl, rfl, hfits, hrest⟩

theorem trimLast_tiles {n : Nat} : ∀ {codes : List Opcode} {i j : Nat},
    Tiles a b i j codes a.length b.length →
    ∃ i' j', Tiles a b i j (trimLast n codes) i' j' ∧ AgreeRest a b i' j'
  | [], _, _, h => by
      obtain ⟨rfl, rfl⟩ := h
      refine ⟨_, _, ⟨rfl, rfl⟩, by omega, ?_⟩
      rw [Nat.sub_self]
      exact Agree.empty (Nat.le_refl _) (Nat.le_refl _)
  | [c], _, _, ⟨hi1, hj1, hfits, hi2, hj2⟩ => by
      rw [trimLast]
      split
      · rename_i htag
        obtain ⟨hi, hj, hlen, hagree⟩ := hfits.equal htag
        refine ⟨_, _, ⟨hi1, hj1, hfits.head htag n, rfl, rfl⟩, ?_, ?_⟩
        · simp only [Opcode.head]
          omega
        · have hsub := hagree.sub (s := (c.head n).i2 - c.i1) (l := a.length - (c.head n).i2) (by
            simp only [Opcode.head]
            omega)
          rwa [show c.i1 + ((c.head n).i2 - c.i1) = (c.head n).i2 by
              simp only [Opcode.head]; omega,
            show c.j1 + ((c.head n).i2 - c.i1) = (c.head n).j2 by
              simp only [Opcode.head]; omega] at hsub
      · refine ⟨_, _, ⟨hi1, hj1, hfits, hi2, hj2⟩, by omega, ?_⟩
        rw [Nat.sub_self]
        exact Agree.empty (Nat.le_refl _) (Nat.le_refl _)
  | c :: d :: rest, _, _, ⟨hi1, hj1, hfits, hrest⟩ => by
      obtain ⟨i', j', htiles, hend⟩ := trimLast_tiles (n := n) hrest
      exact ⟨i', j', ⟨hi1, hj1, hfits, htiles⟩, hend⟩

end Groups

theorem getOpcodes_tiles (a b : List α) :
    Tiles a b 0 0 (getOpcodes a b) a.length b.length :=
  opcodesFrom_tiles (getMatchingBlocks_ordered a b)

/-- The groups are all the changes. -/
theorem getGroupedOpcodes_covers (n : Nat) (a b : List α) :
    Covers a b 0 0 (getGroupedOpcodes n a b) := by
  have htiles := getOpcodes_tiles a b
  rw [getGroupedOpcodes]
  cases hcodes : getOpcodes a b with
  | nil =>
    rw [hcodes] at htiles
    obtain ⟨ha, hb⟩ := htiles
    have hnone : groupLoop n [] (trimLast n (trimFirst n [⟨.equal, 0, 1, 0, 1⟩])) = [] := by
      simp only [trimFirst, trimLast, if_true, Opcode.last, Opcode.head, groupLoop]
      rw [if_neg (by omega)]
      rfl
    rw [List.isEmpty_nil, if_pos rfl, hnone]
    refine .rest ⟨by omega, ?_⟩
    rw [← ha]
    exact Agree.empty (Nat.zero_le _) (Nat.zero_le _)
  | cons c rest =>
    rw [hcodes] at htiles
    obtain ⟨k, hgap, hfirst⟩ := trimFirst_tiles (n := n) htiles (Nat.zero_le _) (Nat.zero_le _)
    obtain ⟨i', j', hlast, hend⟩ := trimLast_tiles (n := n) hfirst
    exact groupLoop_covers hgap ⟨rfl, rfl⟩ hlast hend

end MultiForge.Difflib
