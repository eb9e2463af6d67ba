/-
MultiForge.Semantic.StructuredOutput — the JSON object of a model's
response.

`extract_json_from_response` tries what stands between code fences before
the response as a whole. The patterns know nothing of JSON: a fence is
three backticks wherever they are, inside a string too. So an object
comes back from a fence that its text does not end itself
(`extract_fenced`) and from a bare text that holds no other object between
backticks (`extract_bare`).

The two patterns are written out: `\s*` takes all the white space there
is, since white space cannot be part of what closes a fence.
-/
import MultiForge.Json.RoundTrip
import MultiForge.Lib.Lines

namespace MultiForge.StructuredOutput

open Json

/-! ## 1. Code fences -/

/-- A character that a pattern has literally. -/
abbrev Letter := Char → Bool

def fence : List Letter := [(· == '`'), (· == '`'), (· == '`')]

/-- `json`, ignoring case; `ſ` is a form of `s`. -/
def jsonLabel : List Letter :=
  [fun c => c == 'j' || c == 'J', fun c => c == 's' || c == 'S' || c == 'ſ',
    fun c => c == 'o' || c == 'O', fun c => c == 'n' || c == 'N']

/-- What is left after the letters. -/
def after : List Letter → List Char → Option (List Char)
  | [], cs => some cs
  | _ :: _, [] => none
  | p :: ps, c :: cs => if p c then after ps cs else none

/-- "(.*?)\n?" and a closing fence: what it captures and what is left. -/
def closing : List Char → Option (List Char × List Char)
  | [] => none
  | c :: cs =>
      match after ((· == '\n') :: fence) (c :: cs) with
      | some rest => some ([], rest)
      | none => match after fence (c :: cs) with
        | some rest => some ([], rest)
        | none => (closing cs).map fun r => (c :: r.1, r.2)

/-- The pattern with this label, at the beginning of a text. -/
def fenced (label : List Letter) (text : List Char) : Option (List Char × List Char) :=
  (after (fence ++ label) text).bind fun rest => closing (rest.dropWhile Lines.isSpace)

/-- The fuel bounds the matches and the places without one. -/
def findallFrom (label : List Letter) : Nat → List Char → List (List Char)
  | 0, _ => []
  | _ + 1, [] => []
  | fuel + 1, c :: cs =>
      match fenced label (c :: cs) with
      | some (group, rest) => group :: findallFrom label fuel rest
      | none => findallFrom label fuel cs

/-- `pattern.findall(text)` -/
def findall (label : List Letter) (text : List Char) : List (List Char) :=
  findallFrom label text.length text

/-- The labels of `_CODE_FENCE_PATTERNS`. -/
def codeFencePatterns : List (List Letter) := [jsonLabel, []]

variable {F : Type} [PyFloatText F]

/-- `json.loads(text.strip())`, if that is an object. -/
def objectOf (text : List Char) : Option (List (String × Json F)) :=
  match (loads (String.ofList (Lines.strip text)) : Option (Json F)) with
  | some (.obj items) => some items
  | _ => none

/-- `extract_json_from_response` -/
def extractJsonFromResponse (response : List Char) : Option (List (String × Json F)) :=
  if response = [] then none
  else
    match codeFencePatterns.findSome? fun label => (findall label response).findSome? objectOf with
    | some data => some data
    | none => objectOf response

/-! ## 2. Responses -/

/-- A text of an object, from its first brace to its last. -/
structure Serialization (items : List (String × Json F)) where
  text : List Char
  reads : loads (String.ofList text) = some (.obj items)
  first : text.head? = some '\x7b'
  last : text.getLast? = some '\x7d'

/-- The text in a code fence, with prose around it. -/
def inFence (before gap text gap' prose : List Char) : List Char :=
  before ++ ("```json".toList ++ (gap ++ (text ++ (gap' ++ ("```".toList ++ prose)))))

/-! ## 3. Fences in a text -/

def ticks : List Char := ['`', '`', '`']

theorem after_append : ∀ (ps qs : List Letter) (cs : List Char),
    after (ps ++ qs) cs = (after ps cs).bind (after qs)
  | [], _, _ => rfl
  | _ :: _, _, [] => rfl
  | p :: ps, qs, c :: cs => by
      cases hp : p c with
      | false => simp [after, hp]
      | true => simpa [after, hp] using after_append ps qs cs

theorem after_fence_eq_some : ∀ {cs rest : List Char}, after fence cs = some rest →
    cs = ticks ++ rest
  | [], _, h => nomatch h
  | [c], _, h => by
      by_cases hc : c = '`' <;> simp [after, fence, hc] at h
  | [c, d], _, h => by
      by_cases hc : c = '`' <;> by_cases hd : d = '`' <;> simp [after, fence, hc, hd] at h
  | c :: d :: e :: cs, rest, h => by
      by_cases hc : c = '`' <;> by_cases hd : d = '`' <;> by_cases he : e = '`' <;>
        simp [after, fence, hc, hd, he] at h
      rw [hc, hd, he, h]
      rfl

/-- A text without a fence that does not end in a backtick does not make
one with what follows it. -/
theorem after_fence_body {body : List Char} (hne : body ≠ []) (hfence : ¬ ticks <:+: body)
    (hlast : body.getLast? ≠ some '`') (rest : List Char) :
    after fence (body ++ (ticks ++ rest)) = none := by
  cases hafter : after fence (body ++ (ticks ++ rest)) with
  | none => rfl
  | some left =>
    exfalso
    have heq := after_fence_eq_some hafter
    match body, hne with
    | [c], _ =>
      obtain ⟨rfl, -⟩ : c = '`' ∧ _ := List.cons.inj heq
      exact hlast rfl
    | [c, d], _ =>
      obtain ⟨rfl, -⟩ : d = '`' ∧ _ := List.cons.inj (List.cons.inj heq).2
      exact hlast rfl
    | c :: d :: e :: cs, _ =>
      obtain ⟨rfl, rfl, rfl, -⟩ : c = '`' ∧ d = '`' ∧ e = '`' ∧ _ := by simpa [ticks] using heq
      exact hfence ⟨[], cs, rfl⟩

theorem closing_cons {c : Char} {cs : List Char}
    (hnewline : after ((· == '\n') :: fence) (c :: cs) = none)
    (hfence : after fence (c :: cs) = none) :
    closing (c :: cs) = (closing cs).map fun r => (c :: r.1, r.2) := by
  rw [closing, hnewline, hfence]

/-- What closes a fence is the first fence; a line feed before it is not
captured. -/
theorem closing_body : ∀ {body : List Char}, ¬ ticks <:+: body → body.getLast? ≠ some '`' →
    ∀ rest, ∃ group, closing (body ++ (ticks ++ rest)) = some (group, rest)
      ∧ (group = body ∨ body = group ++ ['\n'])
  | [], _, _, rest => ⟨[], rfl, Or.inl rfl⟩
  | c :: body, hfence, hlast, rest => by
      have hnone := after_fence_body (List.cons_ne_nil c body) hfence hlast rest
      have hfence' : ¬ ticks <:+: body := fun h => hfence (h.trans (List.suffix_cons c body).isInfix)
      by_cases hnl : c = '\n' ∧ body = []
      · obtain ⟨rfl, rfl⟩ := hnl
        exact ⟨[], rfl, Or.inr rfl⟩
      · have hnewline : after ((· == '\n') :: fence) (c :: (body ++ (ticks ++ rest))) = none := by
          by_cases hc : c = '\n'
          · have hbody : body ≠ [] := fun h => hnl ⟨hc, h⟩
            have hlast' : body.getLast? ≠ some '`' := by
              rwa [List.getLast?_cons_of_ne_nil hbody] at hlast
            simpa [after, hc] using after_fence_body hbody hfence' hlast' rest
          · simp [after, hc]
        have hlast' : body.getLast? ≠ some '`' := by
          cases body with
          | nil => exact nofun
          | cons d ds => rwa [List.getLast?_cons_cons] at hlast
        obtain ⟨group, hgroup, hsame⟩ := closing_body hfence' hlast' rest
        refine ⟨c :: group, ?_, ?_⟩
        · show closing (c :: (body ++ (ticks ++ rest))) = _
          rw [closing_cons hnewline hnone, hgroup]
          rfl
        · rcases hsame with rfl | hsame
          · exact Or.inl rfl
          · exact Or.inr (congrArg (c :: ·) hsame)

/-- A text without fences has no match. -/
theorem findallFrom_no_fence (label : List Letter) : ∀ (fuel : Nat) {text : List Char},
    ¬ ticks <:+: text → findallFrom label fuel text = []
  | 0, _, _ => by rw [findallFrom]
  | _ + 1, [], _ => by rw [findallFrom]
  | fuel + 1, c :: cs, h => by
      have hfenced : fenced label (c :: cs) = none := by
        cases hafter : after fence (c :: cs) with
        | none => rw [fenced, after_append, hafter]; rfl
        | some rest => exact absurd ⟨[], rest, (after_fence_eq_some hafter).symm⟩ h
      rw [findallFrom, hfenced]
      exact findallFrom_no_fence label fuel fun hmid =>
        h (hmid.trans (List.suffix_cons c cs).isInfix)

/-- A match at the beginning of a text is the first. -/
theorem findallFrom_cons {label : List Letter} {c : Char} {cs group rest : List Char}
    (h : fenced label (c :: cs) = some (group, rest)) :
    ∃ more, findallFrom label (c :: cs).length (c :: cs) = group :: more := by
  rw [List.length_cons, findallFrom, h]
  exact ⟨_, rfl⟩

/-- Prose without backticks has no fence. -/
theorem findallFrom_prose (label : List Letter) (fuel : Nat) (rest : List Char) :
    ∀ {prose : List Char}, '`' ∉ prose →
      findallFrom label (prose.length + fuel) (prose ++ rest) = findallFrom label fuel rest
  | [], _ => by rw [List.length_nil, Nat.zero_add, List.nil_append]
  | c :: prose, h => by
      have hc : c ≠ '`' := fun hc => h (hc ▸ List.mem_cons_self)
      have hfenced : fenced label (c :: (prose ++ rest)) = none := by
        simp [fenced, fence, after, hc]
      rw [List.length_cons, Nat.add_right_comm]
      show findallFrom label (prose.length + fuel + 1) (c :: (prose ++ rest)) = _
      rw [findallFrom, hfenced]
      exact findallFrom_prose label fuel rest fun hmem => h (List.mem_cons_of_mem c hmem)

/-! ## 4. The object of a response -/

theorem dumpItems_getLast? (sep : Separators) (items : List (String × Json F)) :
    (dumpItems sep items).getLast? = some '\x7d' := by
  induction items with
  | nil => rfl
  | cons kv rest ih =>
    obtain ⟨k, v⟩ := kv
    rw [dumpItems, List.getLast?_append, ih]
    rfl

namespace Serialization

variable {items : List (String × Json F)}

/-- What `json.dumps` writes is such a text. -/
def dumps (sep : Separators) (hsep : sep.Valid) (hitems : Proper (.obj items)) :
    Serialization items where
  text := dumpChars sep (.obj items)
  reads := loads_dumps hsep hitems
  first := by cases items <;> rfl
  last := by
    cases items with
    | nil => rfl
    | cons kv rest =>
      rw [dumpChars, ← List.singleton_append, ← List.append_assoc, List.getLast?_append,
        dumpItems_getLast?]
      rfl

variable (s : Serialization items)

theorem text_ne_nil : s.text ≠ [] := fun h => nomatch h ▸ s.first

theorem dropWhile_append (rest : List Char) :
    (s.text ++ rest).dropWhile Lines.isSpace = s.text ++ rest := by
  obtain ⟨cs, hcs⟩ : ∃ cs, s.text = '\x7b' :: cs := List.head?_eq_some_iff.mp s.first
  rw [hcs]
  rfl

theorem strip_append {pad : List Char} (hpad : ∀ c ∈ pad, Lines.isSpace c = true) :
    Lines.strip (s.text ++ pad) = s.text := by
  obtain ⟨cs, hcs⟩ : ∃ cs, s.text = cs ++ ['\x7d'] := List.getLast?_eq_some_iff.mp s.last
  have htrim : (s.text ++ pad).rdropWhile Lines.isSpace = s.text := by
    rw [List.rdropWhile, List.reverse_append,
      List.dropWhile_append_of_pos fun c hc => hpad c (List.mem_reverse.mp hc), hcs,
      List.reverse_append]
    show ('\x7d' :: cs.reverse).reverse = _
    rw [List.reverse_cons, List.reverse_reverse]
  rw [Lines.strip, s.dropWhile_append, htrim]

theorem objectOf_append {pad : List Char} (hpad : ∀ c ∈ pad, Lines.isSpace c = true) :
    objectOf (s.text ++ pad) = some items := by
  rw [objectOf, s.strip_append hpad, s.reads]

/-- A line feed less after the text changes nothing. -/
theorem objectOf_group {pad group : List Char} (hpad : ∀ c ∈ pad, Lines.isSpace c = true)
    (hgroup : group = s.text ++ pad ∨ s.text ++ pad = group ++ ['\n']) :
    objectOf group = some items := by
  rcases hgroup with rfl | hgroup
  · exact s.objectOf_append hpad
  · rcases List.eq_nil_or_concat pad with rfl | ⟨pad', c, rfl⟩
    · have hlast := s.last
      rw [List.append_nil] at hgroup
      rw [hgroup, List.getLast?_concat] at hlast
      cases hlast
    · rw [List.concat_eq_append, ← List.append_assoc] at hgroup
      obtain ⟨rfl, -⟩ := List.append_inj' hgroup rfl
      exact s.objectOf_append fun d hd => hpad d (by simp [hd])

/-- White space does not make a fence with the text before it. -/
theorem no_fence_append (hfence : ¬ ticks <:+: s.text) : ∀ {pad : List Char},
    (∀ c ∈ pad, Lines.isSpace c = true) →
      ¬ ticks <:+: s.text ++ pad ∧ (s.text ++ pad).getLast? ≠ some '`' := by
  intro pad hpad
  induction pad using List.reverseRecOn with
  | nil =>
    rw [List.append_nil, s.last]
    exact ⟨hfence, by decide⟩
  | append_singleton pad c ih =>
    obtain ⟨hbody, -⟩ := ih fun d hd => hpad d (List.mem_append_left _ hd)
    have hc : c ≠ '`' := by
      rintro rfl
      exact absurd (hpad '`' (by simp)) (by decide)
    rw [← List.append_assoc]
    refine ⟨fun h => ?_, by simpa using hc⟩
    rcases List.infix_concat_iff.mp h with ⟨front, hfront⟩ | hmid
    · have hlast := congrArg List.getLast? hfront
      rw [List.getLast?_concat, List.getLast?_append] at hlast
      exact hc (Option.some.inj hlast).symm
    · exact hbody hmid

/-- **A fenced object**: it is extracted unless its text has a fence. -/
theorem extract_fenced (hfence : ¬ ticks <:+: s.text) {before gap gap' : List Char}
    (hbefore : '`' ∉ before) (hgap : ∀ c ∈ gap, Lines.isSpace c = true)
    (hgap' : ∀ c ∈ gap', Lines.isSpace c = true) (prose : List Char) :
    extractJsonFromResponse (inFence before gap s.text gap' prose) = some items := by
  obtain ⟨hbody, hlast⟩ := s.no_fence_append hfence hgap'
  obtain ⟨group, hgroup, hsame⟩ := closing_body hbody hlast prose
  have hdrop : (gap ++ (s.text ++ (gap' ++ (ticks ++ prose)))).dropWhile Lines.isSpace
      = s.text ++ gap' ++ (ticks ++ prose) := by
    rw [List.dropWhile_append_of_pos hgap, s.dropWhile_append, List.append_assoc]
  have hopen : fenced jsonLabel ("```json".toList ++ (gap ++ (s.text ++ (gap' ++
      (ticks ++ prose))))) = some (group, prose) := by
    show closing ((gap ++ (s.text ++ (gap' ++ (ticks ++ prose)))).dropWhile Lines.isSpace) = _
    rw [hdrop, hgroup]
  have hfind : ∃ more, findall jsonLabel (inFence before gap s.text gap' prose) = group :: more := by
    rw [findall, inFence, List.length_append, findallFrom_prose jsonLabel _ _ hbefore]
    exact findallFrom_cons hopen
  obtain ⟨more, hmore⟩ := hfind
  have hpieces : codeFencePatterns.findSome? (fun label =>
      (findall label (inFence before gap s.text gap' prose)).findSome? (objectOf (F := F)))
        = some items := by
    rw [codeFencePatterns, List.findSome?_cons, hmore, List.findSome?_cons,
      s.objectOf_group hgap' hsame]
  have hne : inFence before gap s.text gap' prose ≠ [] := by simp [inFence]
  rw [extractJsonFromResponse, if_neg hne, hpieces]

/-- **A bare object**: it is extracted when nothing in its text between
fences reads as an object. -/
theorem extract_bare (hnone : ∀ label ∈ codeFencePatterns, ∀ group ∈ findall label s.text,
    objectOf (F := F) group = none) : extractJsonFromResponse s.text = some items := by
  have hpieces : codeFencePatterns.findSome? (fun label =>
      (findall label s.text).findSome? (objectOf (F := F))) = none := by
    rw [List.findSome?_eq_none_iff]
    intro label hlabel
    rw [List.findSome?_eq_none_iff]
    exact hnone label hlabel
  have hwhole : objectOf (s.text ++ []) = some items := s.objectOf_append nofun
  rw [List.append_nil] at hwhole
  rw [extractJsonFromResponse, if_neg s.text_ne_nil, hpieces]
  exact hwhole

/-! ## 5. Responses -/

/-- A response that is a text of the object, by itself or in a fence. -/
inductive ResponseOf : List Char → Prop
  | bare : ResponseOf s.text
  | fenced {before gap gap' prose : List Char} (hbefore : '`' ∉ before)
      (hgap : ∀ c ∈ gap, Lines.isSpace c = true) (hgap' : ∀ c ∈ gap', Lines.isSpace c = true)
      (hprose : '`' ∉ prose) : ResponseOf (inFence before gap s.text gap' prose)

/-- Nothing in the text can be taken for the response's object: it has no
fence or, where it is not in one itself, no object between two. -/
def Undisturbed (response : List Char) : Prop :=
  ¬ ticks <:+: s.text ∨ (response = s.text ∧ ∀ label ∈ codeFencePatterns,
    ∀ group ∈ findall label s.text, objectOf (F := F) group = none)

theorem extract_undisturbed {response : List Char} (hresponse : s.ResponseOf response)
    (h : s.Undisturbed response) : extractJsonFromResponse response = some items := by
  cases hresponse with
  | bare =>
    refine s.extract_bare fun label hlabel group hgroup => ?_
    rcases h with hfence | ⟨-, hnone⟩
    · rw [findall, findallFrom_no_fence label _ hfence] at hgroup
      cases hgroup
    · exact hnone label hlabel group hgroup
  | fenced hbefore hgap hgap' hprose =>
    refine s.extract_fenced ?_ hbefore hgap hgap' _
    rcases h with hfence | ⟨hsame, -⟩
    · exact hfence
    · have hlength := congrArg List.length hsame
      simp only [inFence, List.length_append] at hlength
      have hlabel : ("```json".toList).length = 7 := rfl
      omega

end Serialization

end MultiForge.StructuredOutput
