/-
MultiForge.Lib.Lines — cutting a text into lines.

`splitAfter` cuts a list after each element that ends a piece, so that the
pieces together are the list. A list is `Ended` when its last element ends
a piece; then what comes after it is cut by itself, which is all that
appending to a file of lines needs.

Python has two notions of a line: a file in text mode reads every `\r\n`
and `\r` as `\n` and ends a line there (`readlines`), and `str.splitlines`
also ends one at a vertical tab, a form feed, the separators of Unicode
and a few control characters (`splitLines`).
-/
import Mathlib.Data.List.Basic
import Mathlib.Data.List.DropRight

namespace MultiForge.Lines

variable {α : Type} {p : α → Bool}

/-! ## 1. Pieces -/

/-- Put an element before the first piece. -/
def consHead (c : α) : List (List α) → List (List α)
  | [] => [[c]]
  | l :: ls => (c :: l) :: ls

@[simp] theorem flatten_consHead (c : α) : ∀ ls : List (List α),
    (consHead c ls).flatten = c :: ls.flatten
  | [] => rfl
  | _ :: _ => rfl

theorem consHead_append (c : α) {ls : List (List α)} (h : ls ≠ []) (ks : List (List α)) :
    consHead c (ls ++ ks) = consHead c ls ++ ks := by
  cases ls with
  | nil => exact absurd rfl h
  | cons l ls => rfl

/-- Cut a list after each element that ends a piece. -/
def splitAfter (p : α → Bool) : List α → List (List α)
  | [] => []
  | c :: cs => if p c then [c] :: splitAfter p cs else consHead c (splitAfter p cs)

/-- The pieces are the list. -/
theorem flatten_splitAfter : ∀ cs : List α, (splitAfter p cs).flatten = cs
  | [] => rfl
  | c :: cs => by
      rw [splitAfter]
      split
      · exact congrArg (c :: ·) (flatten_splitAfter cs)
      · rw [flatten_consHead, flatten_splitAfter cs]

theorem splitAfter_eq_nil {cs : List α} (h : splitAfter p cs = []) : cs = [] := by
  rw [← flatten_splitAfter (p := p) cs, h]
  rfl

theorem splitAfter_ne_nil : ∀ {cs l : List α}, l ∈ splitAfter p cs → l ≠ []
  | [], _, h => nomatch h
  | c :: cs, l, h => by
      rw [splitAfter] at h
      split at h
      · rcases List.mem_cons.mp h with rfl | h
        · exact nofun
        · exact splitAfter_ne_nil h
      · cases hls : splitAfter p cs with
        | nil =>
          rw [hls] at h
          rw [List.mem_singleton.mp h]
          exact nofun
        | cons k ks =>
          rw [hls] at h
          rcases List.mem_cons.mp h with rfl | h
          · exact nofun
          · exact splitAfter_ne_nil (hls ▸ List.mem_cons_of_mem k h)

/-- The last element, if there is one, ends a piece. -/
def Ended (p : α → Bool) (cs : List α) : Prop := ∀ c, cs.getLast? = some c → p c = true

theorem ended_nil : Ended p [] := nofun

theorem ended_append_singleton {c : α} (hc : p c = true) (cs : List α) : Ended p (cs ++ [c]) := by
  intro d hd
  rw [List.getLast?_concat] at hd
  cases hd
  exact hc

theorem Ended.append {cs ds : List α} (hc : Ended p cs) (hd : Ended p ds) :
    Ended p (cs ++ ds) := by
  intro c h
  rw [List.getLast?_append] at h
  cases hl : ds.getLast? with
  | none =>
    rw [hl] at h
    exact hc c h
  | some d =>
    rw [hl] at h
    cases h
    exact hd _ hl

theorem Ended.tail {c d : α} {cs : List α} (h : Ended p (c :: d :: cs)) : Ended p (d :: cs) :=
  fun x hx => h x (by rw [List.getLast?_cons_cons]; exact hx)

/-- What follows a list that is ended is cut by itself. -/
theorem splitAfter_append (ds : List α) : ∀ {cs : List α}, Ended p cs →
    splitAfter p (cs ++ ds) = splitAfter p cs ++ splitAfter p ds
  | [], _ => rfl
  | [c], hc => by
      have hc : p c = true := hc c rfl
      simp [splitAfter, hc]
  | c :: d :: cs, hc => by
      have ih := splitAfter_append ds hc.tail
      have hne : splitAfter p (d :: cs) ≠ [] := fun h => nomatch splitAfter_eq_nil h
      show splitAfter p (c :: ((d :: cs) ++ ds)) = splitAfter p (c :: d :: cs) ++ _
      rw [splitAfter, splitAfter, ih]
      split
      · rfl
      · exact consHead_append c hne _

/-- A list without an end is one piece. -/
theorem splitAfter_open : ∀ {cs : List α}, (∀ c ∈ cs, p c = false) → cs ≠ [] →
    splitAfter p cs = [cs]
  | [], _, h => absurd rfl h
  | [c], h, _ => by
      simp [splitAfter, h c List.mem_cons_self, consHead]
  | c :: d :: cs, h, _ => by
      rw [splitAfter, h c List.mem_cons_self,
        splitAfter_open (fun x hx => h x (List.mem_cons_of_mem c hx)) nofun]
      rfl

/-- A list with one end, the last element, is one piece. -/
theorem splitAfter_closed {e : α} (he : p e) : ∀ {cs : List α}, (∀ c ∈ cs, p c = false) →
    splitAfter p (cs ++ [e]) = [cs ++ [e]]
  | [], _ => by simp [splitAfter, he]
  | c :: cs, h => by
      show splitAfter p (c :: (cs ++ [e])) = _
      rw [splitAfter, h c List.mem_cons_self,
        splitAfter_closed he fun x hx => h x (List.mem_cons_of_mem c hx)]
      rfl

/-- The list is ended when its last piece is. -/
theorem ended_iff_last : ∀ cs : List α, Ended p cs ↔
    ∀ l, (splitAfter p cs).getLast? = some l → Ended p l
  | [] => iff_of_true ended_nil nofun
  | [c] => by
      have hone : splitAfter p [c] = [[c]] := by
        rw [splitAfter]
        split <;> rfl
      rw [hone]
      exact ⟨fun h l hl => Option.some.inj hl ▸ h, fun h => h [c] rfl⟩
  | c :: d :: cs => by
      have ih := ended_iff_last (d :: cs)
      have hcons : Ended p (c :: d :: cs) ↔ Ended p (d :: cs) := by
        unfold Ended
        rw [List.getLast?_cons_cons]
      rw [hcons, ih, splitAfter.eq_2 p c (d :: cs)]
      cases hls : splitAfter p (d :: cs) with
      | nil => exact nomatch splitAfter_eq_nil hls
      | cons l ls =>
        split
        · rw [List.getLast?_cons_cons]
        · cases ls with
          | cons k ks =>
            show _ ↔ ∀ m, ((c :: l) :: k :: ks).getLast? = some m → _
            rw [List.getLast?_cons_cons, List.getLast?_cons_cons]
          | nil =>
            have hl := flatten_splitAfter (p := p) (d :: cs)
            rw [hls] at hl
            show (∀ m, some l = some m → Ended p m) ↔ ∀ m, some (c :: l) = some m → Ended p m
            cases l with
            | nil => cases hl
            | cons x xs =>
              have hx : Ended p (c :: x :: xs) ↔ Ended p (x :: xs) := by
                unfold Ended
                rw [List.getLast?_cons_cons]
              exact ⟨fun h m hm => Option.some.inj hm ▸ hx.mpr (h _ rfl),
                fun h m hm => Option.some.inj hm ▸ hx.mp (h _ rfl)⟩

/-! ## 2. Text mode -/

/-- Universal newlines: `\r\n` and `\r` are read as `\n`. -/
def translate : List Char → List Char
  | [] => []
  | '\r' :: '\n' :: cs => '\n' :: translate cs
  | '\r' :: cs => '\n' :: translate cs
  | c :: cs => c :: translate cs

theorem translate_cons {c : Char} (h : c ≠ '\r') (cs : List Char) :
    translate (c :: cs) = c :: translate cs := by
  rw [translate.eq_def]
  split
  · rename_i heq
    cases heq
  · rename_i heq
    cases heq
    exact absurd rfl h
  · rename_i heq
    cases heq
    exact absurd rfl h
  · rename_i heq
    cases heq
    rfl

/-- A text without carriage returns reads as it is. -/
theorem translate_plain : ∀ {cs : List Char}, (∀ c ∈ cs, c ≠ '\r') → translate cs = cs
  | [], _ => rfl
  | c :: cs, h => by
      rw [translate_cons (h c List.mem_cons_self),
        translate_plain fun x hx => h x (List.mem_cons_of_mem c hx)]

theorem translate_cr {cs : List Char} (h : cs.head? ≠ some '\n') :
    translate ('\r' :: cs) = '\n' :: translate cs := by
  rw [translate.eq_def]
  split
  · rename_i heq
    cases heq
  · rename_i heq
    cases heq
    exact absurd rfl h
  · rename_i heq
    cases heq
    rfl
  · rename_i hcr heq
    cases heq
    exact absurd rfl (fun e => hcr e)

/-- A text that does not begin with a line feed is read by itself. -/
theorem translate_append {ds : List Char} (h : ds.head? ≠ some '\n') (cs : List Char) :
    translate (cs ++ ds) = translate cs ++ translate ds := by
  fun_induction translate cs with
  | case1 => rfl
  | case2 cs ih => exact congrArg ('\n' :: ·) ih
  | case3 cs hne ih =>
    cases cs with
    | nil => exact translate_cr h
    | cons d cs =>
      have hd : d ≠ '\n' := fun e => hne cs (by rw [e])
      rw [List.cons_append, translate_cr (by simpa using hd)]
      exact congrArg ('\n' :: ·) ih
  | case4 c cs hcrlf hcr ih =>
    rw [List.cons_append, translate_cons hcr]
    exact congrArg (c :: ·) ih

/-- `file.readlines()` of a file in text mode. -/
def readlines (text : List Char) : List (List Char) := splitAfter (· = '\n') (translate text)

/-! ## 3. `str.strip` and `str.splitlines` -/

/-- `str.isspace` -/
def isSpace (c : Char) : Bool :=
  ('\t' ≤ c && c ≤ '\r') || ('\x1c' ≤ c && c ≤ ' ') || c = '\u0085' || c = '\u00a0'
    || c = '\u1680' || ('\u2000' ≤ c && c ≤ '\u200a') || c = '\u2028' || c = '\u2029'
    || c = '\u202f' || c = '\u205f' || c = '\u3000'

/-- `text.strip() == ""` -/
def isBlank (text : List Char) : Bool := text.all isSpace

/-- `text.strip()` -/
def strip (text : List Char) : List Char := (text.dropWhile isSpace).rdropWhile isSpace

/-- The characters at which `str.splitlines` ends a line. -/
def isLineBreak (c : Char) : Bool :=
  c = '\n' || c = '\r' || c = '\x0b' || c = '\x0c' || c = '\x1c' || c = '\x1d' || c = '\x1e'
    || c = '\u0085' || c = '\u2028' || c = '\u2029'

/-- `text.splitlines(keepends=True)`: `\r\n` ends one line. -/
def splitLines : List Char → List (List Char)
  | [] => []
  | '\r' :: '\n' :: cs => ['\r', '\n'] :: splitLines cs
  | c :: cs => if isLineBreak c then [c] :: splitLines cs else consHead c (splitLines cs)

theorem flatten_splitLines (cs : List Char) : (splitLines cs).flatten = cs := by
  fun_induction splitLines cs with
  | case1 => rfl
  | case2 cs ih => exact congrArg ('\r' :: '\n' :: ·) ih
  | case3 c cs hcrlf hbreak ih => exact congrArg (c :: ·) ih
  | case4 c cs hcrlf hbreak ih => rw [flatten_consHead, ih]

end MultiForge.Lines
