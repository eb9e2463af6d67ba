/-
MultiForge.Lib.LineEnds — lines without their ends.

`chomp` takes the carriage returns and line feeds off a line. Read with
universal newlines a text has the same chomped lines (`chomped_translate`),
and it is the text itself exactly when it has no carriage return. A text
that ends with a line feed is split by itself (`splitLines_append`).
-/
import MultiForge.Lib.Lines

namespace MultiForge.Lines

/-! ## 1. Equations -/

def isEol (c : Char) : Bool := c = '\r' || c = '\n'

/-- `line.rstrip("\r\n")` -/
def chomp (line : List Char) : List Char := line.rdropWhile isEol

/-- The lines of a text without their ends. -/
def chomped (text : List Char) : List (List Char) := (splitLines text).map chomp

theorem oneLine_of_all {text : List Char} (h : text.all (fun c => !isEol c) = true) :
    ∀ c ∈ text, isEol c = false :=
  fun c hc => by simpa using List.all_eq_true.mp h c hc

/-- A line is its chomped text and its ends. -/
theorem chomp_append (line : List Char) :
    ∃ ends, line = chomp line ++ ends ∧ ∀ c ∈ ends, isEol c = true := by
  refine ⟨(line.reverse.takeWhile isEol).reverse, ?_, ?_⟩
  · rw [chomp, List.rdropWhile, ← List.reverse_append, List.takeWhile_append_dropWhile,
      List.reverse_reverse]
  · intro c hc
    exact List.mem_takeWhile_imp (List.mem_reverse.mp hc)

theorem splitLines_cons {c : Char} {cs : List Char} (h : c = '\r' → cs.head? ≠ some '\n') :
    splitLines (c :: cs)
      = if isLineBreak c then [c] :: splitLines cs else consHead c (splitLines cs) := by
  rw [splitLines.eq_def]
  split
  · rename_i heq
    cases heq
  · rename_i heq
    cases heq
    exact absurd rfl (h rfl)
  · rename_i heq
    cases heq
    rfl

theorem splitLines_crlf (cs : List Char) :
    splitLines ('\r' :: '\n' :: cs) = ['\r', '\n'] :: splitLines cs := rfl

theorem chomp_cons {c : Char} (h : isEol c = false) (line : List Char) :
    chomp (c :: line) = c :: chomp line := by
  induction line using List.reverseRecOn with
  | nil => simp [chomp, List.rdropWhile_singleton, h]
  | append_singleton line d ih =>
    unfold chomp at *
    rw [← List.cons_append, List.rdropWhile_concat, List.rdropWhile_concat]
    split
    · exact ih
    · rfl

theorem map_chomp_consHead {c : Char} (h : isEol c = false) : ∀ lines : List (List Char),
    (consHead c lines).map chomp = consHead c (lines.map chomp)
  | [] => by simp [consHead, chomp, h]
  | line :: lines => by simp [consHead, chomp_cons h]

theorem isEol_isLineBreak {c : Char} (h : isEol c = true) : isLineBreak c = true := by
  simp only [isEol, Bool.or_eq_true, decide_eq_true_eq] at h
  rcases h with rfl | rfl <;> rfl

/-! ## 2. Universal newlines -/

theorem chomped_cons_plain {c : Char} (h : isLineBreak c = false) (cs : List Char) :
    chomped (c :: cs) = consHead c (chomped cs) := by
  have heol : isEol c = false := by
    by_contra hc
    rw [isEol_isLineBreak (by simpa using hc)] at h
    cases h
  have hcr : c = '\r' → cs.head? ≠ some '\n' := by
    rintro rfl
    cases h
  rw [chomped, splitLines_cons hcr, h, if_neg (by simp), map_chomp_consHead heol]
  rfl

/-- A text read with universal newlines has the same lines. -/
theorem chomped_translate (text : List Char) : chomped (translate text) = chomped text := by
  fun_induction translate text with
  | case1 => rfl
  | case2 cs ih =>
    rw [chomped, chomped, splitLines_cons (by simp), splitLines_crlf]
    exact congrArg ([] :: ·) ih
  | case3 cs hne ih =>
    have hhead : cs.head? ≠ some '\n' := by
      intro h
      obtain ⟨rest, rfl⟩ := List.head?_eq_some_iff.mp h
      exact hne rest rfl
    rw [chomped, chomped, splitLines_cons (by simp), splitLines_cons fun _ => hhead]
    exact congrArg ([] :: ·) ih
  | case4 c cs hcrlf hcr ih =>
    by_cases hbreak : isLineBreak c = true
    · have hne : ∀ (ds : List Char), c = '\r' → ds.head? ≠ some '\n' := fun _ h => absurd h hcr
      rw [chomped, chomped, splitLines_cons (hne _), splitLines_cons (hne _), if_pos hbreak,
        if_pos hbreak]
      exact congrArg (chomp [c] :: ·) ih
    · rw [chomped_cons_plain (by simpa using hbreak), chomped_cons_plain (by simpa using hbreak),
        ih]

theorem not_mem_translate (text : List Char) : '\r' ∉ translate text := by
  fun_induction translate text with
  | case1 => simp
  | case2 cs ih => simpa using ih
  | case3 cs hne ih => simpa using ih
  | case4 c cs hcrlf hcr ih => simpa [Ne.symm hcr] using ih

/-- Only a text without carriage returns is read as it is. -/
theorem translate_eq_self_iff {text : List Char} : translate text = text ↔ '\r' ∉ text := by
  constructor
  · intro h
    have hnone := not_mem_translate text
    rwa [h] at hnone
  · intro h
    refine translate_plain ?_
    rintro c hc rfl
    exact h hc

/-- A line feed after the text is read as one, unless it completes a line
end. -/
theorem translate_snoc {text : List Char} (h : text.getLast? ≠ some '\r') :
    translate (text ++ ['\n']) = translate text ++ ['\n'] := by
  fun_induction translate text with
  | case1 => rfl
  | case2 cs ih =>
    refine congrArg ('\n' :: ·) (ih ?_)
    intro hlast
    exact h (by simp [List.getLast?_cons, hlast])
  | case3 cs hne ih =>
    cases cs with
    | nil => exact absurd rfl h
    | cons d ds =>
      have hd : d ≠ '\n' := fun e => hne ds (by rw [e])
      rw [List.cons_append, translate_cr (by simpa using hd)]
      refine congrArg ('\n' :: ·) (ih ?_)
      simpa [List.getLast?_cons] using h
  | case4 c cs hcrlf hcr ih =>
    rw [List.cons_append, translate_cons hcr]
    refine congrArg (c :: ·) ?_
    cases cs with
    | nil => rfl
    | cons d ds => exact ih (by simpa [List.getLast?_cons] using h)

/-- A line feed at the end is read as one. -/
theorem getLast?_translate {text : List Char} (h : text.getLast? = some '\n') :
    (translate text).getLast? = some '\n' := by
  obtain ⟨body, rfl⟩ := List.getLast?_eq_some_iff.mp h
  by_cases hcr : body.getLast? = some '\r'
  · obtain ⟨line, rfl⟩ := List.getLast?_eq_some_iff.mp hcr
    rw [List.append_assoc, translate_append (by simp), List.getLast?_append]
    rfl
  · rw [translate_snoc hcr, List.getLast?_concat]

theorem isBlank_translate (text : List Char) : isBlank (translate text) = isBlank text := by
  unfold isBlank
  fun_induction translate text with
  | case1 => rfl
  | case2 cs ih => simp [ih, isSpace]
  | case3 cs hne ih => simp [ih, isSpace]
  | case4 c cs hcrlf hcr ih => simp [ih]

/-! ## 3. `\r\n` and `\n` -/

/-- `text.replace("\r\n", "\n")` -/
def replaceCrlf : List Char → List Char
  | [] => []
  | '\r' :: '\n' :: cs => '\n' :: replaceCrlf cs
  | c :: cs => c :: replaceCrlf cs

/-- Where every carriage return belongs to a `\r\n`, text mode replaces
nothing else. -/
theorem translate_eq_replaceCrlf {text : List Char} (h : '\r' ∉ replaceCrlf text) :
    translate text = replaceCrlf text := by
  fun_induction replaceCrlf text with
  | case1 => rfl
  | case2 cs ih => exact congrArg ('\n' :: ·) (ih (by simpa using h))
  | case3 c cs hcrlf ih =>
    rw [List.mem_cons, not_or] at h
    rw [translate_cons (Ne.symm h.1), ih h.2]

theorem replaceCrlf_plain {text : List Char} (h : '\r' ∉ text) : replaceCrlf text = text := by
  fun_induction replaceCrlf text with
  | case1 => rfl
  | case2 cs ih => exact absurd List.mem_cons_self h
  | case3 c cs hcrlf ih => rw [ih (fun hmem => h (List.mem_cons_of_mem c hmem))]

/-- No carriage return is left alone where texts meet. -/
theorem not_mem_replaceCrlf_append {text after : List Char} (htext : '\r' ∉ replaceCrlf text)
    (hafter : '\r' ∉ after) : '\r' ∉ replaceCrlf (text ++ after) := by
  fun_induction replaceCrlf text with
  | case1 => rwa [List.nil_append, replaceCrlf_plain hafter]
  | case2 cs ih =>
    have ih := ih (by simpa using htext)
    simpa [replaceCrlf] using ih
  | case3 c cs hcrlf ih =>
    rw [List.mem_cons, not_or] at htext
    have ih := ih htext.2
    rw [List.cons_append, replaceCrlf.eq_def]
    split
    · rename_i heq
      cases heq
    · rename_i heq
      exact absurd (List.cons.inj heq).1.symm htext.1
    · rename_i heq
      rw [← (List.cons.inj heq).1, ← (List.cons.inj heq).2, List.mem_cons, not_or]
      exact ⟨htext.1, ih⟩

/-- A carriage return at the end belongs to no `\r\n`. -/
theorem getLast?_ne_of_replaceCrlf {text : List Char} (h : '\r' ∉ replaceCrlf text) :
    text.getLast? ≠ some '\r' := by
  fun_induction replaceCrlf text with
  | case1 => simp
  | case2 cs ih =>
    have ih := ih (by simpa using h)
    cases cs with
    | nil => simp
    | cons d ds => simpa [List.getLast?_cons] using ih
  | case3 c cs hcrlf ih =>
    rw [List.mem_cons, not_or] at h
    have ih := ih h.2
    cases cs with
    | nil => simpa using Ne.symm h.1
    | cons d ds => simpa [List.getLast?_cons] using ih

/-! ## 4. Texts one after the other -/

theorem isLineBreak_newline : isLineBreak '\n' = true := rfl

/-- A text without separators is one line. -/
theorem splitLines_plain : ∀ {text : List Char}, (∀ c ∈ text, isLineBreak c = false) →
    splitLines (text ++ ['\n']) = [text ++ ['\n']]
  | [], _ => rfl
  | c :: cs, h => by
      have hc := h c List.mem_cons_self
      have hcr : c = '\r' → (cs ++ ['\n']).head? ≠ some '\n' := by
        rintro rfl
        cases hc
      have ih := splitLines_plain fun d hd => h d (List.mem_cons_of_mem c hd)
      rw [List.cons_append, splitLines_cons hcr, hc, ih]
      rfl

/-- A text that a line feed ends is split by itself. -/
theorem splitLines_append (after : List Char) {text : List Char}
    (h : ∀ c, text.getLast? = some c → c = '\n') :
    splitLines (text ++ after) = splitLines text ++ splitLines after := by
  fun_induction splitLines text with
  | case1 => rfl
  | case2 cs ih =>
    rw [List.cons_append, List.cons_append, splitLines_crlf, ih ?_, List.cons_append]
    intro c hc
    exact h c (by simp [List.getLast?_cons, hc])
  | case3 c cs hcrlf hbreak ih =>
    have htail : ∀ d, cs.getLast? = some d → d = '\n' := fun d hd =>
      h d (by simp [List.getLast?_cons, hd])
    have hne : c = '\r' → (cs ++ after).head? ≠ some '\n' := by
      rintro rfl
      cases cs with
      | nil => exact absurd (h '\r' rfl) (by decide)
      | cons d ds =>
        intro hd
        have hd : d = '\n' := by simpa using hd
        exact hcrlf ds rfl (by rw [hd])
    rw [List.cons_append, splitLines_cons hne, if_pos hbreak, ih htail, List.cons_append]
  | case4 c cs hcrlf hbreak ih =>
    have hc : c ≠ '\r' := by
      rintro rfl
      exact hbreak rfl
    have htail : ∀ d, cs.getLast? = some d → d = '\n' := fun d hd =>
      h d (by simp [List.getLast?_cons, hd])
    have hcs : splitLines cs ≠ [] := by
      intro hnil
      have hflat := flatten_splitLines cs
      rw [hnil] at hflat
      subst hflat
      exact hbreak (by rw [h c rfl]; rfl)
    rw [List.cons_append, splitLines_cons fun e => absurd e hc, if_neg hbreak, ih htail,
      consHead_append c hcs]

/-- A line feed after the text ends its last line or adds an empty one. -/
theorem chomped_snoc (text : List Char) :
    chomped (text ++ ['\n']) = chomped text
      ∨ chomped (text ++ ['\n']) = chomped text ++ [[]] := by
  unfold chomped
  fun_induction splitLines text with
  | case1 => exact .inr rfl
  | case2 cs ih =>
    rw [List.cons_append, List.cons_append, splitLines_crlf]
    rcases ih with ih | ih
    · exact .inl (congrArg ([] :: ·) ih)
    · exact .inr (congrArg ([] :: ·) ih)
  | case3 c cs hcrlf hbreak ih =>
    by_cases hend : c = '\r' ∧ cs = []
    · obtain ⟨rfl, rfl⟩ := hend
      exact .inl rfl
    · have hne : c = '\r' → (cs ++ ['\n']).head? ≠ some '\n' := by
        rintro rfl
        cases cs with
        | nil => exact absurd ⟨rfl, rfl⟩ hend
        | cons d ds =>
          intro hd
          have hd : d = '\n' := by simpa using hd
          exact hcrlf ds rfl (by rw [hd])
      rw [List.cons_append, splitLines_cons hne, if_pos hbreak]
      rcases ih with ih | ih
      · exact .inl (congrArg (chomp [c] :: ·) ih)
      · exact .inr (congrArg (chomp [c] :: ·) ih)
  | case4 c cs hcrlf hbreak ih =>
    have hbreak' : isLineBreak c = false := by simpa using hbreak
    have hcons := chomped_cons_plain hbreak'
    simp only [chomped] at hcons
    rw [List.cons_append, hcons]
    have hthis : (consHead c (splitLines cs)).map chomp = consHead c ((splitLines cs).map chomp) :=
      map_chomp_consHead (by
        by_contra heol
        exact hbreak (isEol_isLineBreak (by simpa using heol))) _
    rw [hthis]
    rcases ih with ih | ih
    · exact .inl (congrArg (consHead c) ih)
    · rw [ih]
      cases hlines : (splitLines cs).map chomp with
      | nil => exact .inl rfl
      | cons line lines => exact .inr rfl

/-- A line feed adds no line that has a text. -/
theorem not_mem_chomped_snoc {line text : List Char} (hne : line ≠ []) (h : line ∉ chomped text) :
    line ∉ chomped (text ++ ['\n']) := by
  rcases chomped_snoc text with heq | heq
  · rwa [heq]
  · rw [heq, List.mem_append, List.mem_singleton, not_or]
    exact ⟨h, hne⟩

/-- Lines that are written one after the other are split one by one. -/
theorem splitLines_flatMap (rows : List (List Char)) :
    splitLines (rows.flatMap (· ++ ['\n'])) = rows.flatMap fun row => splitLines (row ++ ['\n']) := by
  induction rows with
  | nil => rfl
  | cons row rows ih =>
    rw [List.flatMap_cons, splitLines_append, List.flatMap_cons, ih]
    intro c hc
    rw [List.getLast?_concat, Option.some.injEq] at hc
    exact hc.symm

/-! ## 5. Where a line can be -/

/-- Every line but the last ends with a line break. -/
theorem splitLines_ended {text line : List Char} {pre post : List (List Char)}
    (h : splitLines text = pre ++ line :: post) (hpost : post ≠ []) :
    ∃ c, line.getLast? = some c ∧ isLineBreak c = true := by
  fun_induction splitLines text generalizing pre line with
  | case1 => simp at h
  | case2 cs ih =>
    cases pre with
    | nil =>
      cases h
      exact ⟨'\n', rfl, rfl⟩
    | cons first pre => exact ih (List.cons.inj h).2
  | case3 c cs hcrlf hbreak ih =>
    cases pre with
    | nil =>
      cases h
      exact ⟨c, rfl, hbreak⟩
    | cons first pre => exact ih (List.cons.inj h).2
  | case4 c cs hcrlf hbreak ih =>
    cases hlines : splitLines cs with
    | nil =>
      rw [hlines] at h
      cases pre with
      | nil =>
        cases h
        exact absurd rfl hpost
      | cons first pre => simp [consHead] at h
    | cons first rest =>
      rw [hlines] at h ih
      cases pre with
      | nil =>
        -- the first line has grown by the character
        cases h
        obtain ⟨d, hd, hbreak'⟩ := @ih first [] rfl
        exact ⟨d, by simp [List.getLast?_cons, hd], hbreak'⟩
      | cons head pre =>
        cases h
        exact @ih line (first :: pre) rfl

/-- A line is a part of the text that a line break ends, or its end. -/
theorem mem_splitLines {text line : List Char} (h : line ∈ splitLines text) :
    ∃ before after, text = before ++ line ++ after
      ∧ (after = [] ∨ ∃ c, line.getLast? = some c ∧ isLineBreak c = true) := by
  obtain ⟨pre, post, hlines⟩ := List.append_of_mem h
  have hflat := flatten_splitLines text
  rw [hlines, List.flatten_append, List.flatten_cons, ← List.append_assoc] at hflat
  refine ⟨pre.flatten, post.flatten, hflat.symm, ?_⟩
  by_cases hpost : post = []
  · exact .inl (by rw [hpost]; rfl)
  · exact .inr (splitLines_ended hlines hpost)

/-! ## 6. The first lines of a text -/

/-- The first pieces are the pieces of what they make. -/
theorem splitAfter_flatten_take {α : Type} {p : α → Bool} (cs : List α) (n : Nat) :
    splitAfter p ((splitAfter p cs).take n).flatten = (splitAfter p cs).take n := by
  induction cs generalizing n with
  | nil => cases n <;> rfl
  | cons c cs ih =>
    cases n with
    | zero => rfl
    | succ n =>
      by_cases hc : p c = true
      · have hcut : splitAfter p (c :: cs) = [c] :: splitAfter p cs := by rw [splitAfter, if_pos hc]
        rw [hcut, List.take_succ_cons, List.flatten_cons, List.singleton_append, splitAfter,
          if_pos hc, ih]
      · have hcut : ∀ ds, splitAfter p (c :: ds) = consHead c (splitAfter p ds) := by
          intro ds
          rw [splitAfter, if_neg hc]
        have hflat : ((consHead c (splitAfter p cs)).take (n + 1)).flatten
            = c :: ((splitAfter p cs).take (n + 1)).flatten := by
          cases splitAfter p cs <;> simp [consHead]
        rw [hcut, hflat, hcut, ih]
        cases splitAfter p cs <;> simp [consHead]

theorem splitLines_ne_nil {text line : List Char} (h : line ∈ splitLines text) : line ≠ [] := by
  fun_induction splitLines text with
  | case1 => cases h
  | case2 cs ih =>
    rcases List.mem_cons.mp h with rfl | h
    · exact List.cons_ne_nil _ _
    · exact ih h
  | case3 c cs hcrlf hbreak ih =>
    rcases List.mem_cons.mp h with rfl | h
    · exact List.cons_ne_nil _ _
    · exact ih h
  | case4 c cs hcrlf hbreak ih =>
    cases hlines : splitLines cs with
    | nil =>
      rw [hlines] at h
      rw [List.mem_singleton.mp h]
      exact List.cons_ne_nil _ _
    | cons first rest =>
      rw [hlines] at h ih
      rcases List.mem_cons.mp h with rfl | h
      · exact List.cons_ne_nil _ _
      · exact ih (List.mem_cons_of_mem first h)

theorem flatten_take_prefix (text : List Char) (n : Nat) :
    ((splitLines text).take n).flatten <+: text := by
  refine ⟨((splitLines text).drop n).flatten, ?_⟩
  rw [← List.flatten_append, List.take_append_drop, flatten_splitLines]

/-- The head of the first lines is the head of the text. -/
theorem head_flatten_take {c : Char} {cs : List Char} (n : Nat)
    (h : ∀ rest, c = '\r' → cs = '\n' :: rest → False) :
    c = '\r' → ((splitLines cs).take n).flatten.head? ≠ some '\n' := by
  intro hc hhead
  obtain ⟨rest, hrest⟩ := flatten_take_prefix cs n
  cases hfirst : ((splitLines cs).take n).flatten with
  | nil =>
    rw [hfirst] at hhead
    cases hhead
  | cons d ds =>
    rw [hfirst] at hhead hrest
    cases hhead
    exact h (ds ++ rest) hc hrest.symm

/-- The first lines of a text are the lines of what they make. -/
theorem splitLines_flatten_take (text : List Char) (n : Nat) :
    splitLines ((splitLines text).take n).flatten = (splitLines text).take n := by
  induction n generalizing text with
  | zero => rfl
  | succ n ih =>
    fun_induction splitLines text with
    | case1 => rfl
    | case2 cs _ =>
      rw [List.take_succ_cons, List.flatten_cons]
      exact (splitLines_crlf _).trans (congrArg (_ :: ·) (ih cs))
    | case3 c cs hcrlf hbreak _ =>
      rw [List.take_succ_cons, List.flatten_cons, List.singleton_append]
      rw [splitLines_cons (head_flatten_take n hcrlf), if_pos hbreak, ih]
    | case4 c cs hcrlf hbreak ih' =>
      have hflat : ((consHead c (splitLines cs)).take (n + 1)).flatten =
          c :: ((splitLines cs).take (n + 1)).flatten := by
        cases splitLines cs <;> simp [consHead]
      rw [hflat, splitLines_cons (head_flatten_take (n + 1) hcrlf), if_neg hbreak, ih']
      cases splitLines cs <;> simp [consHead]

end MultiForge.Lines
