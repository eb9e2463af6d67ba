/-
MultiForge.Lib.Substitution — replacing the matches of a pattern.

A pattern is tried at a position of a text: it sees the element before the
position and all that follows. `sub` goes through the text from the left;
where the pattern matches it keeps the first part of the match, puts the
replacement for the second, and goes on behind the match.

`sub_induction` is the induction along such a run. `Cut` forgets the
pattern: some parts of a text were replaced. A word that shares nothing
with the replacement's ends is in the result only if it was in the text
before, or inside the replacement (`Cut.isInfix`). `sub_of_stable` says when
a text is left as it is.
-/
import Mathlib.Data.List.Infix

namespace MultiForge.Substitution

variable {α : Type}

/-- A pattern, by what it finds at a position: how many elements of its
match stay and how many are replaced. -/
structure Pattern (α : Type) where
  find : Option α → List α → Option (Nat × Nat)
  sound : ∀ {before text kept cut}, find before text = some (kept, cut) →
    0 < kept + cut ∧ kept + cut ≤ text.length

/-- The text with the matches replaced. The counter is how many elements
the last match still covers. -/
def sub (p : Pattern α) (replacement : List α) : Option α → Nat → List α → List α
  | _, _, [] => []
  | _, n + 1, c :: cs => sub p replacement (some c) n cs
  | before, 0, c :: cs => match p.find before (c :: cs) with
      | none => c :: sub p replacement (some c) 0 cs
      | some (kept, cut) =>
          (c :: cs).take kept ++ replacement ++ sub p replacement (some c) (kept + cut - 1) cs

/-- The element before what follows a part. -/
def after (before : Option α) : List α → Option α
  | [] => before
  | c :: cs => after (some c) cs

variable {p : Pattern α} {r : List α}

/-! ## 1. Induction along a run -/

@[simp]
theorem sub_nil (before : Option α) (n : Nat) : sub p r before n [] = [] := by
  cases n <;> rfl

theorem sub_none {before : Option α} {c : α} {cs : List α} (h : p.find before (c :: cs) = none) :
    sub p r before 0 (c :: cs) = c :: sub p r (some c) 0 cs := by
  rw [sub, h]

theorem sub_skip (n : Nat) (before : Option α) (text : List α) :
    sub p r before n text = sub p r (after before (text.take n)) 0 (text.drop n) := by
  induction n generalizing before text with
  | zero => rfl
  | succ n ih =>
    cases text with
    | nil => simp
    | cons c cs =>
      rw [sub, ih]
      rfl

theorem sub_found {before : Option α} {kept cut rest : List α}
    (h : p.find before (kept ++ cut ++ rest) = some (kept.length, cut.length)) :
    sub p r before 0 (kept ++ cut ++ rest) =
      kept ++ r ++ sub p r (after before (kept ++ cut)) 0 rest := by
  have hpos := (p.sound h).1
  rw [← List.length_append] at hpos
  obtain ⟨c, cs, hmatch⟩ := List.exists_cons_of_length_pos hpos
  have hlen : kept.length + cut.length = cs.length + 1 := by
    rw [← List.length_append, hmatch]
    rfl
  have hkept : (c :: (cs ++ rest)).take kept.length = kept := by
    rw [← List.cons_append, ← hmatch, List.append_assoc, List.take_left]
  rw [hmatch, List.cons_append] at h ⊢
  rw [sub, h]
  dsimp only
  rw [hkept, hlen, Nat.add_sub_cancel, sub_skip, List.take_left, List.drop_left]
  rfl

/-- A run keeps an element, or finds a match. -/
theorem sub_induction {motive : Option α → List α → List α → Prop}
    (nil : ∀ before, motive before [] [])
    (keep : ∀ before c cs, p.find before (c :: cs) = none →
      motive (some c) cs (sub p r (some c) 0 cs) →
      motive before (c :: cs) (c :: sub p r (some c) 0 cs))
    (found : ∀ before kept cut rest,
      p.find before (kept ++ cut ++ rest) = some (kept.length, cut.length) →
      motive (after before (kept ++ cut)) rest (sub p r (after before (kept ++ cut)) 0 rest) →
      motive before (kept ++ cut ++ rest)
        (kept ++ r ++ sub p r (after before (kept ++ cut)) 0 rest))
    (before : Option α) (text : List α) : motive before text (sub p r before 0 text) := by
  induction hlen : text.length using Nat.strong_induction_on generalizing before text with
  | _ n ih =>
  subst hlen
  cases text with
  | nil => simpa using nil before
  | cons c cs =>
    cases hfind : p.find before (c :: cs) with
    | none =>
      rw [sub_none hfind]
      exact keep before c cs hfind (ih cs.length (by simp) _ _ rfl)
    | some found' =>
      obtain ⟨kept, cut⟩ := found'
      obtain ⟨hpos, hle⟩ := p.sound hfind
      -- the text, cut at the ends of the two parts
      have htext : c :: cs = (c :: cs).take kept ++ ((c :: cs).drop kept).take cut ++
          (c :: cs).drop (kept + cut) := by
        rw [List.append_assoc, ← List.drop_drop, List.take_append_drop, List.take_append_drop]
      have hkept : ((c :: cs).take kept).length = kept := by
        rw [List.length_take]
        omega
      have hcut : (((c :: cs).drop kept).take cut).length = cut := by
        rw [List.length_take, List.length_drop]
        omega
      have hrest : ((c :: cs).drop (kept + cut)).length < (c :: cs).length := by
        rw [List.length_drop]
        omega
      generalize (c :: cs).take kept = kept' at htext hkept
      generalize ((c :: cs).drop kept).take cut = cut' at htext hcut
      generalize (c :: cs).drop (kept + cut) = rest at htext hrest
      rw [htext] at hfind ⊢
      rw [← hkept, ← hcut] at hfind
      rw [sub_found hfind]
      exact found before kept' cut' rest hfind (ih _ hrest _ _ rfl)

/-! ## 2. What a replacement leaves of a text -/

/-- Parts of a text were replaced. -/
inductive Cut (r : List α) : List α → List α → Prop where
  | nil : Cut r [] []
  | keep (c : α) {text out : List α} : Cut r text out → Cut r (c :: text) (c :: out)
  | cut (part : List α) {text out : List α} : Cut r text out → Cut r (part ++ text) (r ++ out)

namespace Cut

theorem kept (part : List α) {text out : List α} (h : Cut r text out) :
    Cut r (part ++ text) (part ++ out) := by
  induction part with
  | nil => exact h
  | cons c part ih => exact .keep c ih

theorem of_sub (before : Option α) (text : List α) : Cut r text (sub p r before 0 text) := by
  refine sub_induction (motive := fun _ text out => Cut r text out) ?_ ?_ ?_ before text
  · intro _
    exact .nil
  · intro _ c cs _ ih
    exact .keep c ih
  · intro _ kept cut rest _ ih
    rw [List.append_assoc, List.append_assoc]
    exact (Cut.cut cut ih).kept kept

theorem mem {text out : List α} (h : Cut r text out) {c : α} (hc : c ∈ out) :
    c ∈ text ∨ c ∈ r := by
  induction h with
  | nil => exact .inl hc
  | keep d _ ih =>
    obtain rfl | hc := List.mem_cons.mp hc
    · exact .inl List.mem_cons_self
    · exact (ih hc).imp_left (List.mem_cons_of_mem d)
  | cut part _ ih =>
    obtain hc | hc := List.mem_append.mp hc
    · exact .inr hc
    · exact (ih hc).imp_left (List.mem_append_right part)

/-- A word without the replacement's first element, at the beginning of the
result, is there in the text. -/
theorem isPrefix {a : α} {r' text out w : List α} (h : Cut (a :: r') text out) (ha : a ∉ w)
    (hw : w <+: out) : w <+: text := by
  induction h generalizing w with
  | nil => exact hw
  | keep c _ ih =>
    cases w with
    | nil => exact List.nil_prefix
    | cons d w =>
      obtain ⟨rfl, htail⟩ := List.cons_prefix_cons.mp hw
      have hmem : a ∉ w := fun hmem => ha (List.mem_cons_of_mem d hmem)
      exact List.cons_prefix_cons.mpr ⟨rfl, ih hmem htail⟩
  | cut part _ _ =>
    cases w with
    | nil => exact List.nil_prefix
    | cons d w =>
      obtain ⟨rfl, -⟩ := List.cons_prefix_cons.mp hw
      exact absurd List.mem_cons_self ha

theorem prefix_of_append {b : α} {w : List α} (hb : b ∉ w) (u v : List α)
    (hw : w <+: u ++ b :: v) : w <+: u := by
  induction u generalizing w with
  | nil =>
    cases w with
    | nil => exact List.nil_prefix
    | cons d w =>
      obtain ⟨rfl, -⟩ := List.cons_prefix_cons.mp hw
      exact absurd List.mem_cons_self hb
  | cons c u ih =>
    cases w with
    | nil => exact List.nil_prefix
    | cons d w =>
      obtain ⟨rfl, htail⟩ := List.cons_prefix_cons.mp hw
      have hmem : b ∉ w := fun hmem => hb (List.mem_cons_of_mem d hmem)
      exact List.cons_prefix_cons.mpr ⟨rfl, ih hmem htail⟩

/-- A word that does not contain what stands between two parts is in one of
them. -/
theorem infix_of_append {b : α} {w : List α} (hb : b ∉ w) (u v : List α)
    (hw : w <:+: u ++ b :: v) : w <:+: u ∨ w <:+: v := by
  induction u with
  | nil =>
    obtain hw | hw := List.infix_cons_iff.mp hw
    · exact .inl (prefix_of_append hb [] v hw).isInfix
    · exact .inr hw
  | cons c u ih =>
    obtain hw | hw := List.infix_cons_iff.mp hw
    · exact .inl (prefix_of_append hb (c :: u) v hw).isInfix
    · exact (ih hw).imp_left List.infix_cons

/-- A word without the replacement's two ends is in the result only if it
was in the text, or stands in the replacement. -/
theorem isInfix {a b : α} {inner text out w : List α} (h : Cut (a :: (inner ++ [b])) text out)
    (ha : a ∉ w) (hb : b ∉ w) (hw : w <:+: out) : w <:+: text ∨ w <:+: inner := by
  induction h with
  | nil => exact .inl hw
  | keep c hcut ih =>
    obtain hw | hw := List.infix_cons_iff.mp hw
    · exact .inl ((hcut.keep c).isPrefix ha hw).isInfix
    · exact (ih hw).imp_left List.infix_cons
  | cut part _ ih =>
    rw [List.cons_append, List.append_assoc] at hw
    obtain hw | hw := infix_of_append ha [] _ hw
    · exact .inr (hw.trans List.nil_infix)
    obtain hw | hw := infix_of_append hb inner _ hw
    · exact .inr hw
    · exact (ih hw).imp_left fun hin => hin.trans (List.suffix_append part _).isInfix

end Cut

/-! ## 3. Texts that stay as they are -/

/-- Every match replaces the replacement. -/
def Stable (p : Pattern α) (r : List α) : Option α → List α → Prop
  | _, [] => True
  | before, c :: cs =>
      (∀ kept cut, p.find before (c :: cs) = some (kept, cut) →
        ((c :: cs).drop kept).take cut = r) ∧ Stable p r (some c) cs

/-- A match of a text that is as it should be, as parts of it. -/
theorem Stable.parts {before : Option α} {c : α} {cs : List α} (h : Stable p r before (c :: cs))
    {k x : Nat} (hfind : p.find before (c :: cs) = some (k, x)) :
    ∃ kept rest, c :: cs = kept ++ r ++ rest ∧ kept.length = k ∧ r.length = x := by
  have hmatch := h.1 k x hfind
  obtain ⟨-, hle⟩ := p.sound hfind
  refine ⟨(c :: cs).take k, ((c :: cs).drop k).drop x, ?_, ?_, ?_⟩
  · rw [← hmatch, List.append_assoc, List.take_append_drop, List.take_append_drop]
  · rw [List.length_take]
    omega
  · rw [← hmatch, List.length_take, List.length_drop]
    omega

theorem sub_of_stable {before : Option α} {text : List α} (h : Stable p r before text) (n : Nat) :
    sub p r before n text = text.drop n := by
  induction text generalizing before n with
  | nil => simp
  | cons c cs ih =>
    obtain ⟨hmatch, hrest⟩ := h
    cases n with
    | succ n => exact ih hrest n
    | zero =>
      cases hfind : p.find before (c :: cs) with
      | none =>
        rw [sub_none hfind, ih hrest]
        rfl
      | some found =>
        obtain ⟨kept, cut⟩ := found
        obtain ⟨hpos, -⟩ := p.sound hfind
        have hbehind : cs.drop (kept + cut - 1) = ((c :: cs).drop kept).drop cut := by
          rw [List.drop_drop]
          obtain ⟨n, hn⟩ := Nat.exists_eq_succ_of_ne_zero hpos.ne'
          rw [hn]
          rfl
        rw [sub, hfind]
        dsimp only
        rw [ih hrest, hbehind, ← hmatch kept cut hfind, List.append_assoc,
          List.take_append_drop, List.take_append_drop]
        rfl

/-- The pattern matches at no position of the first part. -/
def Quiet (p : Pattern α) : Option α → List α → List α → Prop
  | _, [], _ => True
  | before, c :: cs, rest => p.find before (c :: cs ++ rest) = none ∧ Quiet p (some c) cs rest

theorem Quiet.stable {before : Option α} {part rest : List α} (h : Quiet p before part rest)
    (hrest : Stable p r (after before part) rest) : Stable p r before (part ++ rest) := by
  induction part generalizing before with
  | nil => exact hrest
  | cons c cs ih =>
    refine ⟨?_, ih h.2 hrest⟩
    intro kept cut hfind
    have hnone : p.find before (c :: cs ++ rest) = none := h.1
    rw [List.cons_append] at hnone
    exact absurd (hnone.symm.trans hfind) (by simp)

theorem Quiet.sub {before : Option α} {part rest : List α} (h : Quiet p before part rest) :
    sub p r before 0 (part ++ rest) = part ++ sub p r (after before part) 0 rest := by
  induction part generalizing before with
  | nil => rfl
  | cons c cs ih =>
    rw [List.cons_append, sub_none (by simpa using h.1), ih h.2]
    rfl

theorem Stable.of_append {before : Option α} {part rest : List α}
    (h : Stable p r before (part ++ rest)) : Stable p r (after before part) rest := by
  induction part generalizing before with
  | nil => exact h
  | cons c cs ih => exact ih h.2

/-- A part of the result without the replacement's first element was gone
through without a match, when a match keeps nothing. -/
theorem sub_eq_append {a : α} {r' : List α}
    (hcut : ∀ {before text kept cut}, p.find before text = some (kept, cut) → kept = 0)
    {part : List α} (ha : a ∉ part) {before : Option α} {text out : List α}
    (h : sub p (a :: r') before 0 text = part ++ out) : ∃ rest, text = part ++ rest ∧
      sub p (a :: r') (after before part) 0 rest = out := by
  induction part generalizing before text with
  | nil => exact ⟨text, rfl, h⟩
  | cons d part ih =>
    cases text with
    | nil => simp at h
    | cons c cs =>
      cases hfind : p.find before (c :: cs) with
      | none =>
        rw [sub_none hfind, List.cons_append] at h
        obtain ⟨rfl, htail⟩ := List.cons.inj h
        obtain ⟨rest, rfl, hrest⟩ := ih (fun hmem => ha (List.mem_cons_of_mem c hmem)) htail
        exact ⟨rest, rfl, hrest⟩
      | some found =>
        obtain ⟨kept, cut⟩ := found
        obtain rfl := hcut hfind
        rw [sub, hfind] at h
        simp only [List.take_zero, List.nil_append, List.cons_append, List.cons.injEq] at h
        exact absurd (h.1 ▸ List.mem_cons_self) ha

end MultiForge.Substitution
