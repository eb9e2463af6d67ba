/-
MultiForge.Engine.WholeEdit — what the cut of an edit's text changes.

A hook's adapter gives the policies the first 5000 characters of the
introduced text and a marker. The marker holds nothing that a policy looks
for and ends every match, so what is found is what the first 5000
characters hold. The decisions are those on the complete text if and only
if every applicable pattern that is there is among them, and no emoji is
after them in a code file (`judgesWhole_iff`).
-/
import Mathlib.Data.List.Nodup
import MultiForge.Engine.ContentPolicies
import MultiForge.Engine.HookAdapters
import MultiForge.Json.RoundTrip

namespace MultiForge.Engine

open Regex

variable {F : Type}

/-! ## 1. The cut -/

/-- `"\n... (truncated)"` -/
def marker : String := "\n... (truncated)"

/-- The characters of a text that the cut keeps. -/
def kept (text : String) : List Char := text.toList.take 5000

/-- The characters that it does not keep. -/
def lost (text : String) : List Char := text.toList.drop 5000

theorem kept_append_lost (text : String) : text.toList = kept text ++ lost text :=
  (List.take_append_drop 5000 text.toList).symm

/-- The cut keeps the first characters and may add the marker. -/
theorem cutContent_cases (text : String) :
    (cutContent text).toList = kept text
      ∨ (cutContent text).toList = kept text ++ marker.toList := by
  unfold cutContent
  split
  · right
    rw [String.toList_append, String.toList_ofList]
    rfl
  · rename_i hshort
    left
    rw [kept, List.take_of_length_le]
    rw [String.length_toList]
    omega

/-- What the marker ends, the cut looks for among the kept characters. -/
theorem search_cutContent (W : WordClass) {r : Regex} (hstop : Stops r marker.toList)
    (text : String) : search W r (cutContent text).toList = search W r (kept text) := by
  have hascii : IsAscii marker.toList := by
    have h : marker.toList.all (fun c => decide (c.toNat < 128)) = true := by decide +kernel
    intro c hc
    exact of_decide_eq_true (List.all_eq_true.mp h c hc)
  rcases cutContent_cases text with h | h
  · rw [h]
  · rw [h, hstop.search_append W hascii]

theorem filter_cutContent {f : Char → Bool} (hmarker : marker.toList.filter f = [])
    (text : String) : (cutContent text).toList.filter f = (kept text).filter f := by
  rcases cutContent_cases text with h | h
  · rw [h]
  · rw [h, List.filter_append, hmarker, List.append_nil]

/-! ## 2. Decisions tell what was found -/

private theorem intercalate_comma (a : List Char) (rest : List (List Char)) :
    [',', ' '].intercalate (a :: rest) = [','].intercalate (a :: rest.map (' ' :: ·)) := by
  induction rest generalizing a with
  | nil => simp
  | cons b rest ih =>
    rw [List.map_cons, List.intercalate_cons_cons, List.intercalate_cons_cons, ih b]
    cases rest <;> simp

/-- Parts without a comma can be told from the joined text. -/
theorem commaJoin_injective {xs ys : List String} (hxs : ∀ x ∈ xs, ',' ∉ x.toList)
    (hys : ∀ y ∈ ys, ',' ∉ y.toList) (hx : xs ≠ []) (hy : ys ≠ [])
    (h : commaJoin xs = commaJoin ys) : xs = ys := by
  obtain ⟨x, xs, rfl⟩ := List.exists_cons_of_ne_nil hx
  obtain ⟨y, ys, rfl⟩ := List.exists_cons_of_ne_nil hy
  have hsplit : ∀ {z : String} {zs : List String}, (∀ w ∈ z :: zs, ',' ∉ w.toList) →
      (commaJoin (z :: zs)).toList.splitOn ','
        = z.toList :: (zs.map String.toList).map (' ' :: ·) := by
    intro z zs hzs
    have hlist : (commaJoin (z :: zs)).toList
        = [','].intercalate (z.toList :: (zs.map String.toList).map (' ' :: ·)) := by
      rw [commaJoin, String.toList_intercalate, List.map_cons, ← intercalate_comma]
      rfl
    rw [hlist]
    refine List.splitOn_intercalate ',' ?_ (List.cons_ne_nil _ _)
    intro l hl
    rcases List.mem_cons.mp hl with rfl | hl
    · exact hzs z List.mem_cons_self
    · obtain ⟨l', hl', rfl⟩ := List.mem_map.mp hl
      obtain ⟨w, hw, rfl⟩ := List.mem_map.mp hl'
      have hcomma := hzs w (List.mem_cons_of_mem _ hw)
      simpa using hcomma
  have heq := (hsplit hxs).symm.trans ((congrArg (fun s => s.toList.splitOn ',') h).trans
    (hsplit hys))
  obtain ⟨hhead, htail⟩ := List.cons_eq_cons.mp heq
  have hcons : Function.Injective (' ' :: · : List Char → List Char) := fun a b hab =>
    (List.cons_eq_cons.mp hab).2
  have hlist : Function.Injective String.toList := fun a b hab => String.toList_injective hab
  rw [hlist hhead, hlist.list_map (hcons.list_map htail)]

/-- The number in front of other text can be read back. -/
theorem natText_injective {n m : Nat} {a b : String} (ha : Json.DigitEnd a.toList)
    (hb : Json.DigitEnd b.toList) (h : natText n ++ a = natText m ++ b) : n = m := by
  have hchars : Json.natChars n ++ a.toList = Json.natChars m ++ b.toList := by
    have hlist := congrArg String.toList h
    simpa [natText] using hlist
  have hread := congrArg Json.scanWhole hchars
  rw [Json.scanWhole_natChars ha, Json.scanWhole_natChars hb] at hread
  exact (Prod.mk.inj (Option.some.inj hread)).1

/-! ## 3. Rules that look for patterns -/

/-- The patterns are told apart by how they are written, and the marker
ends every match. -/
structure PatternRule.Telling (rule : PatternRule) : Prop where
  distinct : (rule.patterns.map (·.source)).Nodup
  noComma : ∀ p ∈ rule.patterns, ',' ∉ p.source.toList
  stops : ∀ p ∈ rule.patterns, Stops p.regex marker.toList

theorem skipRule_telling : skipRule.Telling where
  distinct := by decide +kernel
  noComma := by decide +kernel
  stops := by decide +kernel

theorem typeCheckingRule_telling : typeCheckingRule.Telling where
  distinct := by decide +kernel
  noComma := by decide +kernel
  stops := by decide +kernel

theorem backwardCompatRule_telling : backwardCompatRule.Telling where
  distinct := by decide +kernel
  noComma := by decide +kernel
  stops := by decide +kernel

/-- Whether a pattern is found in the content. -/
def Pattern.found (W : WordClass) (content : Option String) (p : Pattern) : Bool :=
  content.any fun text => search W p.regex text.toList

theorem matchesAnyPattern_eq (W : WordClass) (content : Option String) (patterns : List Pattern) :
    matchesAnyPattern W content patterns
      = (patterns.filter (Pattern.found W content)).map (·.source) := by
  cases content with
  | none => simp [matchesAnyPattern, Pattern.found]
  | some text => rfl

/-- The decision tells which patterns were found. -/
theorem PatternRule.Telling.decide_iff {rule : PatternRule} (h : rule.Telling)
    (f g : Pattern → Bool) :
    rule.decide ((rule.patterns.filter f).map (·.source))
        = rule.decide ((rule.patterns.filter g).map (·.source))
      ↔ ∀ p ∈ rule.patterns, f p = g p := by
  constructor
  · intro heq
    have hcomma : ∀ (k : Pattern → Bool), ∀ x ∈ (rule.patterns.filter k).map (·.source),
        ',' ∉ x.toList := by
      intro k x hx
      obtain ⟨p, hp, rfl⟩ := List.mem_map.mp hx
      exact h.noComma p (List.mem_of_mem_filter hp)
    -- the evidence quotes what was found
    have hsources : (rule.patterns.filter f).map (·.source)
        = (rule.patterns.filter g).map (·.source) := by
      have hf := hcomma f
      have hg := hcomma g
      generalize (rule.patterns.filter f).map (·.source) = xs at heq hf
      generalize (rule.patterns.filter g).map (·.source) = ys at heq hg
      unfold PatternRule.decide at heq
      cases xs with
      | nil =>
        cases ys with
        | nil => rfl
        | cons y ys => simp [allowed, denied] at heq
      | cons x xs =>
        cases ys with
        | nil => simp [allowed, denied] at heq
        | cons y ys =>
          have hjoin : commaJoin (x :: xs) = commaJoin (y :: ys) := by
            simpa [denied] using heq
          exact commaJoin_injective hf hg (List.cons_ne_nil _ _) (List.cons_ne_nil _ _) hjoin
    have hmem : ∀ (k : Pattern → Bool), ∀ p ∈ rule.patterns,
        p.source ∈ (rule.patterns.filter k).map (·.source) ↔ k p = true := by
      intro k p hp
      rw [List.mem_map]
      constructor
      · rintro ⟨q, hq, hsource⟩
        obtain ⟨hq, hk⟩ := List.mem_filter.mp hq
        rwa [← List.inj_on_of_nodup_map h.distinct hq hp hsource]
      · intro hk
        exact ⟨p, List.mem_filter.mpr ⟨hp, hk⟩, rfl⟩
    intro p hp
    rw [Bool.eq_iff_iff, ← hmem f p hp, ← hmem g p hp, hsources]
  · intro hsame
    rw [List.filter_congr hsame]

theorem PatternRule.decide_deny {rule : PatternRule} {W : WordClass} {content : Option String}
    {p : Pattern} (hp : p ∈ rule.patterns) (hfound : p.found W content = true) :
    (rule.decide (matchesAnyPattern W content rule.patterns)).decision = .deny := by
  have hmem : p.source ∈ matchesAnyPattern W content rule.patterns := by
    rw [matchesAnyPattern_eq]
    exact List.mem_map.mpr ⟨p, List.mem_filter.mpr ⟨hp, hfound⟩, rfl⟩
  have hne : ¬ (matchesAnyPattern W content rule.patterns).isEmpty = true := by
    rw [List.isEmpty_iff]
    exact List.ne_nil_of_mem hmem
  rw [PatternRule.decide, if_neg hne]
  rfl

/-! ## 4. Emoji -/

/-- The decision tells how many emoji were found. -/
theorem emojiDecision_length {found found' : List Char}
    (h : emojiDecision found = emojiDecision found') : found.length = found'.length := by
  unfold emojiDecision at h
  cases found with
  | nil =>
    cases found' with
    | nil => rfl
    | cons c found' => simp [allowed, denied] at h
  | cons c found =>
    cases found' with
    | nil => simp [allowed, denied] at h
    | cons c' found' =>
      have hviolations := congrArg (fun d => d.violations.map (·.evidence)) h
      simp only [denied, List.isEmpty_cons, Bool.false_eq_true, if_false, List.map_cons,
        List.map_nil, List.cons.injEq, Option.some.injEq, and_true, String.append_assoc,
        String.append_right_inj] at hviolations
      have hend : ∀ t : String, Json.DigitEnd (" emoji character(s): " ++ t).toList := by
        intro t
        rw [String.toList_append]
        exact Json.DigitEnd.cons (c := ' ') (by decide)
      exact natText_injective (hend _) (hend _) hviolations

theorem emojiDecision_deny {found : List Char} (h : found ≠ []) :
    (emojiDecision found).decision = .deny := by
  rw [emojiDecision, if_neg (by simpa using h)]
  rfl

/-! ## 5. Judging a context -/

theorem judge_patternPolicy (W : WordClass) (rule : PatternRule) (s : Unit) (ctx : ActionContext) :
    (⟨patternPolicy W rule, s⟩ : Instance ActionContext (Json F)).judge ctx
      = if rule.appliesTo ctx then
          some (rule.decide (matchesAnyPattern W ctx.newContent rule.patterns)) else none := by
  rw [Instance.judge, run_decision_eq]
  cases happlies : rule.appliesTo ctx <;> simp [Policy.machine, happlies]

theorem judge_noEmoji (s : Unit) (ctx : ActionContext) :
    (⟨noEmoji, s⟩ : Instance ActionContext (Json F)).judge ctx
      = if ctx.isWriteOrEdit && ctx.newContent.isSome && isCodePath ctx.targetPath then
          some (emojiDecision (foundEmoji ctx.newContent)) else none := by
  rw [Instance.judge, run_decision_eq]
  cases happlies : ctx.isWriteOrEdit && ctx.newContent.isSome && isCodePath ctx.targetPath <;>
    simp [Policy.machine, happlies]

/-- The policy on tests reads no text. -/
theorem judge_tddEnforcement (strict : Bool) (s : List (Item F)) (ctx : ActionContext)
    (content : Option String) :
    (⟨tddEnforcement strict, s⟩ : Instance ActionContext (Json F)).judge
        { ctx with newContent := content }
      = (⟨tddEnforcement strict, s⟩ : Instance ActionContext (Json F)).judge ctx := rfl

/-- An adapter's context: what it edits and the cut text. -/
structure Cut (ctx : ActionContext) (complete : Option String) : Prop where
  edits : ctx.isWriteOrEdit = true
  content : ctx.newContent = complete.map cutContent

/-- What is looked for in the text is among the characters that are kept. -/
structure Whole (W : WordClass) (path : Option String) (text : String) : Prop where
  skips : ∀ p ∈ skipPatterns, search W p.regex (kept text) = search W p.regex text.toList
  python : pathEndsWith path ".py" = true → ∀ p ∈ typeCheckingPatterns ++ backwardCompatPatterns,
    search W p.regex (kept text) = search W p.regex text.toList
  code : isCodePath path = true → ∀ c ∈ lost text, isColorfulEmoji c = false

/-- The text holds something that a policy for the path forbids. -/
def Forbidden (W : WordClass) (path : Option String) (text : String) : Prop :=
  (∃ p ∈ skipPatterns, search W p.regex text.toList = true)
  ∨ (pathEndsWith path ".py" = true ∧ ∃ p ∈ typeCheckingPatterns ++ backwardCompatPatterns,
      search W p.regex text.toList = true)
  ∨ (isCodePath path = true ∧ ∃ c ∈ text.toList, isColorfulEmoji c = true)

variable {W : WordClass} {ctx : ActionContext} {text : String}

/-- A rule that applies decides as on the complete text if and only if it
finds the same patterns among the kept characters. -/
theorem patternPolicy_same_iff {rule : PatternRule} (h : rule.Telling) (hcut : Cut ctx (some text))
    (happlies : rule.appliesTo { ctx with newContent := some text } = rule.appliesTo ctx)
    (s : Unit) :
    (⟨patternPolicy W rule, s⟩ : Instance ActionContext (Json F)).judge ctx
        = (⟨patternPolicy W rule, s⟩ : Instance ActionContext (Json F)).judge
            { ctx with newContent := some text }
      ↔ (rule.appliesTo ctx = true → ∀ p ∈ rule.patterns,
          search W p.regex (kept text) = search W p.regex text.toList) := by
  rw [judge_patternPolicy, judge_patternPolicy, happlies]
  cases rule.appliesTo ctx with
  | false => simp
  | true =>
    rw [if_pos rfl, if_pos rfl, Option.some.injEq, matchesAnyPattern_eq, matchesAnyPattern_eq,
      h.decide_iff]
    have hkept : ∀ p ∈ rule.patterns,
        p.found W ctx.newContent = search W p.regex (kept text) := by
      intro p hp
      rw [hcut.content]
      exact search_cutContent W (h.stops p hp) text
    constructor
    · intro hsame _ p hp
      rw [← hkept p hp, hsame p hp]
      rfl
    · intro hsame p hp
      rw [hkept p hp, hsame rfl p hp]
      rfl

theorem noEmoji_same_iff (hcut : Cut ctx (some text)) (s : Unit) :
    (⟨noEmoji, s⟩ : Instance ActionContext (Json F)).judge ctx
        = (⟨noEmoji, s⟩ : Instance ActionContext (Json F)).judge
            { ctx with newContent := some text }
      ↔ (isCodePath ctx.targetPath = true → ∀ c ∈ lost text, isColorfulEmoji c = false) := by
  rw [judge_noEmoji, judge_noEmoji, hcut.content]
  have hedits : ({ ctx with newContent := some text } : ActionContext).isWriteOrEdit = true :=
    hcut.edits
  rw [hcut.edits, hedits]
  cases isCodePath ctx.targetPath with
  | false => simp
  | true =>
    have hmarker : marker.toList.filter isColorfulEmoji = [] := by decide +kernel
    have hcomplete : text.toList.filter isColorfulEmoji
        = (kept text).filter isColorfulEmoji ++ (lost text).filter isColorfulEmoji := by
      rw [← List.filter_append, ← kept_append_lost]
    simp only [Option.map_some, Option.isSome_some, Bool.and_self, if_true, Option.some.injEq,
      foundEmoji, filter_cutContent hmarker, hcomplete, forall_const]
    constructor
    · intro hsame c hc
      have hlength := emojiDecision_length hsame
      rw [List.length_append] at hlength
      have hnone : (lost text).filter isColorfulEmoji = [] :=
        List.eq_nil_of_length_eq_zero (by omega)
      simpa using List.filter_eq_nil_iff.mp hnone c hc
    · intro hnone
      have hfilter : (lost text).filter isColorfulEmoji = [] :=
        List.filter_eq_nil_iff.mpr fun c hc => by simp [hnone c hc]
      rw [hfilter, List.append_nil]

/-! ## 6. Judging the whole edit -/

/-- The policies decide on the context as on the complete text, and the
strict bundle denies what is forbidden anywhere in it. -/
structure JudgesWhole (F : Type) (W : WordClass) (ctx : ActionContext)
    (complete : Option String) : Prop where
  same : ∀ strict, ∀ i : Instance ActionContext (Json F),
    i.policy ∈ deterministicPolicies W strict →
      i.judge ctx = i.judge { ctx with newContent := complete }
  denies : ∀ text, complete = some text → Forbidden W ctx.targetPath text →
    ∃ p ∈ deterministicPolicies (F := F) W true, ∀ i : Instance ActionContext (Json F),
      i.policy = p → ∃ d, i.judge ctx = some d ∧ d.decision = .deny

/-- Without text there is nothing to cut. -/
theorem Cut.judgesWhole_none (hcut : Cut ctx none) : JudgesWhole F W ctx none where
  same := by
    intro strict i _
    have hnone : ctx.newContent = none := hcut.content
    rw [← hnone]
  denies := by
    intro text h
    cases h

theorem Cut.pythonAppliesTo_iff (hcut : Cut ctx (some text)) :
    pythonAppliesTo ctx = true ↔ pathEndsWith ctx.targetPath ".py" = true := by
  simp [pythonAppliesTo, hcut.edits, hcut.content]

theorem Cut.skipAppliesTo (hcut : Cut ctx (some text)) : skipAppliesTo ctx = true := by
  simp [Engine.skipAppliesTo, hcut.edits, hcut.content]

/-- A rule's applicability only asks whether there is text. -/
theorem Cut.appliesTo_eq (hcut : Cut ctx (some text)) :
    Engine.skipAppliesTo { ctx with newContent := some text } = Engine.skipAppliesTo ctx
      ∧ pythonAppliesTo { ctx with newContent := some text } = pythonAppliesTo ctx := by
  constructor
  · simp [Engine.skipAppliesTo, hcut.content, ActionContext.isWriteOrEdit]
  · simp [pythonAppliesTo, hcut.content, ActionContext.isWriteOrEdit]

/-- The same decisions are those on a text whose kept characters show
everything that is looked for. -/
theorem Cut.same_iff (hcut : Cut ctx (some text)) :
    (∀ strict, ∀ i : Instance ActionContext (Json F), i.policy ∈ deterministicPolicies W strict →
        i.judge ctx = i.judge { ctx with newContent := some text })
      ↔ Whole W ctx.targetPath text := by
  have hskip := patternPolicy_same_iff (F := F) (W := W) skipRule_telling hcut
    hcut.appliesTo_eq.1
  have htyping := patternPolicy_same_iff (F := F) (W := W) typeCheckingRule_telling hcut
    hcut.appliesTo_eq.2
  have hcompat := patternPolicy_same_iff (F := F) (W := W) backwardCompatRule_telling hcut
    hcut.appliesTo_eq.2
  constructor
  · intro hsame
    have hpolicy : ∀ i : Instance ActionContext (Json F), i.policy ∈ deterministicPolicies W true →
        i.judge ctx = i.judge { ctx with newContent := some text } := hsame true
    refine ⟨?_, ?_, ?_⟩
    · exact (hskip ()).mp (hpolicy ⟨noSkipTests W, ()⟩ (by simp [deterministicPolicies]))
        hcut.skipAppliesTo
    · intro hpython p hp
      have happlies := hcut.pythonAppliesTo_iff.mpr hpython
      rcases List.mem_append.mp hp with hp | hp
      · exact (htyping ()).mp (hpolicy ⟨noTypeChecking W, ()⟩ (by simp [deterministicPolicies]))
          happlies p hp
      · exact (hcompat ()).mp (hpolicy ⟨noBackwardCompat W, ()⟩ (by simp [deterministicPolicies]))
          happlies p hp
    · exact (noEmoji_same_iff hcut ()).mp
        (hpolicy ⟨noEmoji, ()⟩ (by simp [deterministicPolicies]))
  · rintro ⟨hskips, hpython, hcode⟩ strict ⟨p, s⟩ hi
    simp only [deterministicPolicies, List.mem_cons, List.not_mem_nil, or_false] at hi
    rcases hi with rfl | rfl | rfl | rfl | rfl
    · exact (judge_tddEnforcement strict s ctx (some text)).symm
    · exact (hskip s).mpr fun _ => hskips
    · exact (htyping s).mpr fun happlies p hp =>
        hpython (hcut.pythonAppliesTo_iff.mp happlies) p (List.mem_append_left _ hp)
    · exact (hcompat s).mpr fun happlies p hp =>
        hpython (hcut.pythonAppliesTo_iff.mp happlies) p (List.mem_append_right _ hp)
    · exact (noEmoji_same_iff hcut s).mpr hcode

/-- On its complete text a forbidden edit is denied by a policy of the
strict bundle. -/
theorem Cut.denies_complete (hcut : Cut ctx (some text))
    (hforbidden : Forbidden W ctx.targetPath text) :
    ∃ p ∈ deterministicPolicies (F := F) W true, ∀ i : Instance ActionContext (Json F),
      i.policy = p → ∃ d, i.judge { ctx with newContent := some text } = some d
        ∧ d.decision = .deny := by
  have hrule : ∀ (rule : PatternRule) {p : Pattern} (s : Unit), p ∈ rule.patterns →
      rule.appliesTo { ctx with newContent := some text } = true →
      search W p.regex text.toList = true →
      ∃ d, (⟨patternPolicy W rule, s⟩ : Instance ActionContext (Json F)).judge
        { ctx with newContent := some text } = some d ∧ d.decision = .deny := by
    intro rule p s hp happlies hsearch
    rw [judge_patternPolicy, if_pos happlies]
    exact ⟨_, rfl, PatternRule.decide_deny hp hsearch⟩
  rcases hforbidden with ⟨p, hp, hsearch⟩ | ⟨hpython, p, hp, hsearch⟩ | ⟨hcode, c, hc, hemoji⟩
  · refine ⟨noSkipTests W, by simp [deterministicPolicies], ?_⟩
    rintro ⟨q, s⟩ rfl
    exact hrule skipRule s hp (hcut.appliesTo_eq.1.trans hcut.skipAppliesTo) hsearch
  · have happlies := hcut.appliesTo_eq.2.trans (hcut.pythonAppliesTo_iff.mpr hpython)
    rcases List.mem_append.mp hp with hp | hp
    · refine ⟨noTypeChecking W, by simp [deterministicPolicies], ?_⟩
      rintro ⟨q, s⟩ rfl
      exact hrule typeCheckingRule s hp happlies hsearch
    · refine ⟨noBackwardCompat W, by simp [deterministicPolicies], ?_⟩
      rintro ⟨q, s⟩ rfl
      exact hrule backwardCompatRule s hp happlies hsearch
  · refine ⟨noEmoji, by simp [deterministicPolicies], ?_⟩
    rintro ⟨q, s⟩ rfl
    have hedits : ({ ctx with newContent := some text } : ActionContext).isWriteOrEdit = true :=
      hcut.edits
    rw [judge_noEmoji, hedits, if_pos (by simp [hcode])]
    exact ⟨_, rfl, emojiDecision_deny (List.ne_nil_of_mem (List.mem_filter.mpr ⟨hc, hemoji⟩))⟩

/-- A context is judged as its complete text if and only if that text is
whole. -/
theorem Cut.judgesWhole_iff {complete : Option String} (hcut : Cut ctx complete) :
    JudgesWhole F W ctx complete
      ↔ ∀ text, complete = some text → Whole W ctx.targetPath text := by
  cases complete with
  | none => exact iff_of_true hcut.judgesWhole_none (by simp)
  | some text =>
    constructor
    · rintro ⟨hsame, -⟩ t ht
      cases ht
      exact hcut.same_iff.mp hsame
    · intro hwhole
      have hsame := (hcut.same_iff (F := F)).mpr (hwhole text rfl)
      refine ⟨hsame, ?_⟩
      intro t ht hforbidden
      cases ht
      obtain ⟨p, hp, hdenies⟩ := hcut.denies_complete (F := F) hforbidden
      refine ⟨p, hp, ?_⟩
      rintro i rfl
      rw [hsame true i hp]
      exact hdenies i rfl

/-! ## 7. Payloads of both runtimes -/

/-- A payload of a hook that is called before a tool runs. -/
inductive HookPayload (F : Type) where
  | claude (payload : ClaudePayload F)
  | codex (toolName : String) (toolInput : Json F)

namespace HookPayload

variable [PyFloatText F]

/-- The contexts that the adapter of the runtime builds. -/
def buildContexts (sha256 : String → String) (cwd sessionName : String) :
    HookPayload F → List ActionContext
  | .claude payload => claudeBuildContexts sha256 cwd sessionName payload
  | .codex toolName toolInput => codexBuildContexts sha256 cwd sessionName toolName toolInput

/-- The contexts, each with the complete text that its edit introduces. -/
def introduced (sha256 : String → String) (cwd sessionName : String) :
    HookPayload F → List (ActionContext × Option String)
  | .claude payload =>
      (claudeBuildContexts sha256 cwd sessionName payload).map fun ctx => (ctx, payload.text)
  | .codex toolName toolInput => (codexOps toolName toolInput).map fun op =>
      (contextForOp F sha256 cwd sessionName op, op.introduced)

theorem introduced_contexts (sha256 : String → String) (cwd sessionName : String)
    (payload : HookPayload F) :
    (payload.introduced sha256 cwd sessionName).map Prod.fst
      = payload.buildContexts sha256 cwd sessionName := by
  cases payload with
  | claude payload =>
    rw [introduced, buildContexts, List.map_map]
    exact List.map_id _
  | codex toolName toolInput => simp [introduced, buildContexts, codexBuildContexts]

/-- Both adapters cut the text the same way. -/
theorem cut_of_mem_introduced {sha256 : String → String} {cwd sessionName : String}
    {payload : HookPayload F} {c : ActionContext × Option String}
    (hc : c ∈ payload.introduced sha256 cwd sessionName) : Cut c.1 c.2 := by
  cases payload with
  | claude payload =>
    obtain ⟨ctx, hctx, rfl⟩ := List.mem_map.mp hc
    unfold claudeBuildContexts at hctx
    split at hctx
    · rw [List.mem_singleton.mp hctx]
      refine ⟨?_, rfl⟩
      cases hname : payload.tool <;> simp [ActionContext.isWriteOrEdit, EditTool.name]
    · cases hctx
  | codex toolName toolInput =>
    obtain ⟨op, -, rfl⟩ := List.mem_map.mp hc
    refine ⟨?_, rfl⟩
    by_cases hkind : op.kind = .add <;> simp [ActionContext.isWriteOrEdit, contextForOp, hkind]

end HookPayload

variable [PyFloatText F]

/-- **Every context is judged as its complete text if and only if** what
the policies look for there shows in its first 5000 characters. -/
theorem introduced_judgesWhole_iff (W : WordClass) (sha256 : String → String)
    (cwd sessionName : String) (payload : HookPayload F) :
    (∀ c ∈ payload.introduced sha256 cwd sessionName, JudgesWhole F W c.1 c.2)
      ↔ ∀ c ∈ payload.introduced sha256 cwd sessionName, ∀ text, c.2 = some text →
          Whole W c.1.targetPath text :=
  forall₂_congr fun _ hc => (HookPayload.cut_of_mem_introduced hc).judgesWhole_iff

/-- Padding, then a skipped test. -/
def paddedText (n : Nat) : String :=
  String.ofList (List.replicate n 'x' ++ "pytest.skip('later')".toList)

/-- Writing the padded text to a test file. -/
def paddedWrite (n : Nat) : HookPayload FloatText :=
  .claude {
    tool := .write
    toolInput := .obj [("file_path", .str "tests/test_a.py"), ("content", .str (paddedText n))]
    text := some (paddedText n)
    isText := by
      rintro items h
      cases h
      rfl }

/-- The padding holds no skipped test. -/
theorem search_padding (after : Bool) (n : Nat) :
    searchFrom WordClass.asciiOnly (lit "pytest.skip(") after (List.replicate n 'x') = false := by
  have hno : ∀ (after : Bool) (text : List Char),
      accepts WordClass.asciiOnly (lit "pytest.skip(") after ('x' :: text) = false := by
    intro after text
    simp [lit, accepts, nullable, step]
  induction n generalizing after with
  | zero => simp [searchFrom, accepts, lit, nullable]
  | succ n ih => rw [List.replicate_succ, searchFrom, hno, ih, Bool.or_false]

/-- A skipped test after any padding is found. -/
theorem search_padded (n : Nat) :
    search WordClass.asciiOnly (lit "pytest.skip(")
      (List.replicate n 'x' ++ "pytest.skip('later')".toList) = true := by
  have hhere : ∀ after, accepts WordClass.asciiOnly (lit "pytest.skip(") after
      "pytest.skip('later')".toList = true := by
    decide +kernel
  obtain ⟨p, hp⟩ := accepts_iff.mp (hhere _)
  exact search_iff.mpr ⟨_, _, p, rfl, hp⟩

/-- Padding that fills what the cut keeps hides the skipped test. -/
theorem not_judgesWhole_of_padding {n : Nat} (h : 5000 ≤ n) :
    ¬ ∀ c ∈ (paddedWrite n).introduced id "/repo" "work",
      JudgesWhole FloatText WordClass.asciiOnly c.1 c.2 := by
  intro hall
  obtain ⟨ctx, hctx⟩ : ∃ ctx,
      (ctx, some (paddedText n)) ∈ (paddedWrite n).introduced id "/repo" "work" :=
    ⟨_, List.mem_cons_self⟩
  have hwhole := (HookPayload.cut_of_mem_introduced hctx).judgesWhole_iff.mp (hall _ hctx) _ rfl
  have hkept : kept (paddedText n) = List.replicate (min 5000 n) 'x' := by
    rw [kept, paddedText, String.toList_ofList,
      List.take_append_of_le_length (by rwa [List.length_replicate]), List.take_replicate]
  have hpattern : (⟨"pytest\\.skip\\(", lit "pytest.skip("⟩ : Pattern) ∈ skipPatterns :=
    List.mem_cons_self
  have hsearch := hwhole.skips _ hpattern
  rw [hkept, search, search_padding, paddedText, String.toList_ofList, search_padded] at hsearch
  cases hsearch

/-- The strict bundle lets this edit of a test file through. -/
theorem paddedWrite_not_judgesWhole :
    ¬ ∀ c ∈ (paddedWrite 5000).introduced id "/repo" "work",
      JudgesWhole FloatText WordClass.asciiOnly c.1 c.2 :=
  not_judgesWhole_of_padding (Nat.le_refl 5000)

end MultiForge.Engine
