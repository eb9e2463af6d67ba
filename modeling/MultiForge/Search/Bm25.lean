/-
MultiForge.Search.Bm25 — the ranking of `forge.search.engine`, in exact
arithmetic.

`BM25.init` is the constructor over tokenized documents, `fromPrecomputed`
the one over stored statistics, `score` the loop over the query's terms. A
division by zero, a logarithm outside its domain and an index past the end
are errors of `score`. The logarithm itself is any function.

What both constructors have to get right is `BM25.Describes`: the
statistics are those of a list of documents. Two objects that describe the
same documents score alike (`Describes.score_eq`), and scoring never fails
(`Describes.score_ok`).
-/
import Mathlib.Algebra.Order.Field.Rat
import Mathlib.Algebra.Order.BigOperators.Group.List
import Mathlib.Tactic.Positivity
import Mathlib.Tactic.Linarith
import MultiForge.Lib.Tally

namespace MultiForge.Search

/-! ## 1. The ranking function -/

/-- What arithmetic can raise. -/
inductive ScoreError where
  | zeroDivision
  | mathDomain
  | indexRange
  deriving DecidableEq, Repr

/-- `x / y` -/
def divide (x y : ℚ) : Except ScoreError ℚ :=
  if y = 0 then .error .zeroDivision else .ok (x / y)

/-- `math.log(x)` -/
def logarithm (log : ℚ → ℚ) (x : ℚ) : Except ScoreError ℚ :=
  if 0 < x then .ok (log x) else .error .mathDomain

/-- `xs[i]` -/
def item {α : Type} (xs : List α) (i : Nat) : Except ScoreError α :=
  match xs[i]? with
  | some x => .ok x
  | none => .error .indexRange

/-- The attributes of a `BM25` object. -/
structure BM25 where
  k1 : ℚ
  b : ℚ
  docCount : Nat
  docLens : List Int
  avgdl : ℚ
  termFreqs : List (Dict String Int)
  docFreqs : Dict String Int

/-- `sum(doc_lens) / max(len(doc_lens), 1)` -/
def averageLength (docLens : List Int) : ℚ := (docLens.sum : ℚ) / (max docLens.length 1 : Nat)

/-- The counting loop over a document's terms. -/
def termFrequencies (doc : List String) : Dict String Int := Dict.tally doc

/-- One document of the constructor's loop: `for term in tf`. -/
def countTerms (docFreqs : Dict String Int) (tf : Dict String Int) : Dict String Int :=
  (tf.entries.map Prod.fst).foldl Dict.bump docFreqs

/-- `BM25.__init__` -/
def BM25.init (documents : List (List String)) (k1 b : ℚ) : BM25 where
  k1 := k1
  b := b
  docCount := documents.length
  docLens := documents.map fun d => (d.length : Int)
  avgdl := averageLength (documents.map fun d => (d.length : Int))
  termFreqs := documents.map termFrequencies
  docFreqs := (documents.map termFrequencies).foldl countTerms .empty

/-- `BM25.from_precomputed` -/
def BM25.fromPrecomputed (termFreqs : List (Dict String Int)) (docFreqs : Dict String Int)
    (docLens : List Int) (avgdl k1 b : ℚ) : BM25 where
  k1 := k1
  b := b
  docCount := docLens.length
  docLens := docLens
  avgdl := avgdl
  termFreqs := termFreqs
  docFreqs := docFreqs

/-- The body of the inner loop: one document's share of one term. -/
def BM25.scoreDocument (bm : BM25) (term : String) (idf : ℚ) (scores : List ℚ) (i : Nat) :
    Except ScoreError (List ℚ) := do
  let terms ← item bm.termFreqs i
  let tf : Int := (terms.get? term).getD 0
  if tf = 0 then
    return scores
  let dl ← item bm.docLens i
  let relative ← divide (bm.b * dl) bm.avgdl
  let tfNorm ← divide (tf * (bm.k1 + 1)) (tf + bm.k1 * (1 - bm.b + relative))
  let score ← item scores i
  return scores.set i (score + idf * tfNorm)

/-- The body of the outer loop: one term of the query. -/
def BM25.scoreTerm (bm : BM25) (log : ℚ → ℚ) (scores : List ℚ) (term : String) :
    Except ScoreError (List ℚ) :=
  match bm.docFreqs.get? term with
  | none => .ok scores
  | some df => do
      let odds ← divide (bm.docCount - df + 1 / 2) (df + 1 / 2)
      let idf ← logarithm log (odds + 1)
      (List.range bm.docCount).foldlM (bm.scoreDocument term idf) scores

/-- `BM25.score` -/
def BM25.score (bm : BM25) (log : ℚ → ℚ) (query : List String) : Except ScoreError (List ℚ) :=
  query.foldlM (bm.scoreTerm log) (List.replicate bm.docCount 0)

/-! ## 2. The statistics of documents -/

/-- The number of documents that contain a term. -/
def docFreq (docs : List (List String)) (term : String) : Nat := docs.countP fun d => term ∈ d

/-- The object holds the statistics of these documents. -/
structure BM25.Describes (bm : BM25) (docs : List (List String)) : Prop where
  docCount : bm.docCount = docs.length
  docLens : bm.docLens = docs.map fun d => (d.length : Int)
  avgdl : bm.avgdl = averageLength (docs.map fun d => (d.length : Int))
  termFreqs : bm.termFreqs = docs.map termFrequencies
  docFreqs : bm.docFreqs.Tallies (docFreq docs)

/-- Counting one more document. -/
theorem countTerms_tallies {docFreqs : Dict String Int} {count : String → Nat}
    (h : docFreqs.Tallies count) (doc : List String) :
    (countTerms docFreqs (termFrequencies doc)).Tallies
      fun t => count t + if t ∈ doc then 1 else 0 := by
  refine (Dict.Tallies.bumpAll _ h).congr fun t => ?_
  rw [termFrequencies, Dict.count_keys_tally]

theorem docFreq_cons (doc : List String) (docs : List (List String)) (t : String) :
    docFreq (doc :: docs) t = docFreq docs t + if t ∈ doc then 1 else 0 := by
  rw [docFreq, List.countP_cons, docFreq]
  simp only [decide_eq_true_eq]

theorem countTerms_foldl_tallies : ∀ (docs : List (List String)) {docFreqs : Dict String Int}
    {count : String → Nat}, docFreqs.Tallies count →
    ((docs.map termFrequencies).foldl countTerms docFreqs).Tallies
      fun t => count t + docFreq docs t
  | [], _, _, h => h
  | doc :: rest, _, _, h => by
      have ih := countTerms_foldl_tallies rest (countTerms_tallies h doc)
      refine ih.congr fun t => ?_
      rw [docFreq_cons]
      omega

/-- The constructor computes the statistics of its documents. -/
theorem BM25.init_describes (docs : List (List String)) (k1 b : ℚ) :
    (BM25.init docs k1 b).Describes docs where
  docCount := rfl
  docLens := rfl
  avgdl := rfl
  termFreqs := rfl
  docFreqs := by
    refine (countTerms_foldl_tallies docs Dict.Tallies.empty).congr fun t => ?_
    rw [Nat.zero_add]

/-! ## 3. Scores depend on the statistics only -/

/-- Scoring reads the document frequencies through lookups. -/
theorem BM25.score_congr {bm bm' : BM25} (hk1 : bm.k1 = bm'.k1) (hb : bm.b = bm'.b)
    (hcount : bm.docCount = bm'.docCount) (hlens : bm.docLens = bm'.docLens)
    (havg : bm.avgdl = bm'.avgdl) (hterms : bm.termFreqs = bm'.termFreqs)
    (hfreqs : ∀ t, bm.docFreqs.get? t = bm'.docFreqs.get? t) (log : ℚ → ℚ) (query : List String) :
    bm.score log query = bm'.score log query := by
  have hdoc : ∀ term idf, bm.scoreDocument term idf = bm'.scoreDocument term idf := by
    intro term idf
    funext scores i
    unfold scoreDocument
    rw [hterms, hlens, havg, hk1, hb]
  have hterm : bm.scoreTerm log = bm'.scoreTerm log := by
    funext scores term
    unfold scoreTerm
    rw [hfreqs, hcount]
    simp only [hdoc]
  rw [score, score, hterm, hcount]

/-- Objects that describe the same documents score alike. -/
theorem BM25.Describes.score_eq {bm bm' : BM25} {docs : List (List String)}
    (h : bm.Describes docs) (h' : bm'.Describes docs) (hk1 : bm.k1 = bm'.k1) (hb : bm.b = bm'.b)
    (log : ℚ → ℚ) (query : List String) : bm.score log query = bm'.score log query := by
  refine BM25.score_congr hk1 hb ?_ ?_ ?_ ?_ (h.docFreqs.get?_eq h'.docFreqs) log query
  · rw [h.docCount, h'.docCount]
  · rw [h.docLens, h'.docLens]
  · rw [h.avgdl, h'.avgdl]
  · rw [h.termFreqs, h'.termFreqs]

/-! ## 4. Scoring never fails -/

/-- A loop whose every step succeeds and keeps an invariant. -/
theorem foldlM_ok {α β ε : Type} {f : β → α → Except ε β} {Inv : β → Prop} : ∀ {l : List α} {s : β},
    (∀ a ∈ l, ∀ s, Inv s → ∃ s', f s a = .ok s' ∧ Inv s') → Inv s →
    ∃ s', l.foldlM f s = .ok s' ∧ Inv s'
  | [], s, _, hs => ⟨s, rfl, hs⟩
  | a :: rest, s, hstep, hs => by
      obtain ⟨s₁, hs₁, hinv⟩ := hstep a List.mem_cons_self s hs
      obtain ⟨s', hrest, hinv'⟩ := foldlM_ok (l := rest) (s := s₁)
        (fun b hb => hstep b (List.mem_cons_of_mem _ hb)) hinv
      refine ⟨s', ?_, hinv'⟩
      rw [List.foldlM_cons, hs₁]
      exact hrest

theorem item_ok {α : Type} {xs : List α} {i : Nat} (h : i < xs.length) :
    item xs i = .ok xs[i] := by
  rw [item, List.getElem?_eq_getElem h]

/-- A collection with a document that is not empty has a positive average. -/
theorem averageLength_pos {docs : List (List String)} {doc : List String} (hdoc : doc ∈ docs)
    (hne : doc ≠ []) : 0 < averageLength (docs.map fun d => (d.length : Int)) := by
  have hlen : 0 < (doc.length : Int) := by
    have := List.length_pos_of_ne_nil hne
    omega
  have hsum : (doc.length : Int) ≤ (docs.map fun d => (d.length : Int)).sum := by
    refine List.single_le_sum ?_ _ (List.mem_map.mpr ⟨doc, hdoc, rfl⟩)
    intro x hx
    obtain ⟨d, -, rfl⟩ := List.mem_map.mp hx
    omega
  have hpos : (0 : ℚ) < ((docs.map fun d => (d.length : Int)).sum : Int) := by
    exact_mod_cast lt_of_lt_of_le hlen hsum
  unfold averageLength
  positivity

variable {bm : BM25} {docs : List (List String)}

/-- The inner loop's step divides by positive numbers only. -/
theorem BM25.Describes.scoreDocument_ok (h : bm.Describes docs) (hk1 : 0 ≤ bm.k1) (hb : 0 ≤ bm.b)
    (hb' : bm.b ≤ 1) (term : String) (idf : ℚ) {scores : List ℚ} {i : Nat}
    (hscores : scores.length = docs.length) (hi : i < docs.length) :
    ∃ scores', bm.scoreDocument term idf scores i = .ok scores'
      ∧ scores'.length = docs.length := by
  have hterms : item bm.termFreqs i = .ok (termFrequencies docs[i]) := by
    rw [h.termFreqs, item_ok (by simpa using hi), List.getElem_map]
  have hlens : item bm.docLens i = .ok (docs[i].length : Int) := by
    rw [h.docLens, item_ok (by simpa using hi), List.getElem_map]
  have htf : ((termFrequencies docs[i]).get? term).getD 0 = (docs[i].count term : Int) :=
    (Dict.tally_tallies docs[i]).getD term
  unfold scoreDocument
  rw [hterms]
  simp only [bind, Except.bind, htf]
  by_cases hzero : (docs[i].count term : Int) = 0
  · rw [if_pos hzero]
    exact ⟨scores, rfl, hscores⟩
  · rw [if_neg hzero, hlens]
    have hcount : 0 < docs[i].count term := by omega
    have hmem : term ∈ docs[i] := List.count_pos_iff.mp hcount
    have havg : 0 < bm.avgdl := by
      rw [h.avgdl]
      exact averageLength_pos (List.getElem_mem hi) (List.ne_nil_of_mem hmem)
    have hrelative : 0 ≤ bm.b * ((docs[i].length : Int) : ℚ) / bm.avgdl := by
      have hlen : (0 : ℚ) ≤ ((docs[i].length : Int) : ℚ) := by positivity
      positivity
    have hden : 0 < (((docs[i].count term : Int) : ℚ)
        + bm.k1 * (1 - bm.b + bm.b * ((docs[i].length : Int) : ℚ) / bm.avgdl)) := by
      have htfpos : (0 : ℚ) < ((docs[i].count term : Int) : ℚ) := by exact_mod_cast hcount
      have hnorm : 0 ≤ 1 - bm.b + bm.b * ((docs[i].length : Int) : ℚ) / bm.avgdl := by linarith
      positivity
    simp only [divide, if_neg havg.ne', if_neg hden.ne', item_ok (hscores ▸ hi)]
    exact ⟨_, rfl, by rw [List.length_set, hscores]⟩

/-- The outer loop's step takes the logarithm of a positive number. -/
theorem BM25.Describes.scoreTerm_ok (h : bm.Describes docs) (hk1 : 0 ≤ bm.k1) (hb : 0 ≤ bm.b)
    (hb' : bm.b ≤ 1) (log : ℚ → ℚ) (term : String) {scores : List ℚ}
    (hscores : scores.length = docs.length) :
    ∃ scores', bm.scoreTerm log scores term = .ok scores' ∧ scores'.length = docs.length := by
  unfold scoreTerm
  rw [h.docFreqs term]
  by_cases hpos : 0 < docFreq docs term
  · rw [if_pos hpos]
    have hle : docFreq docs term ≤ docs.length := List.countP_le_length
    have hden : (0 : ℚ) < ((docFreq docs term : Int) : ℚ) + 1 / 2 := by positivity
    have hnum : (0 : ℚ) < (bm.docCount : ℚ) - ((docFreq docs term : Int) : ℚ) + 1 / 2 := by
      have hcast : ((docFreq docs term : Int) : ℚ) ≤ (docs.length : ℚ) := by exact_mod_cast hle
      rw [h.docCount]
      linarith
    have hodds := div_pos hnum hden
    simp only [bind, Except.bind, divide, if_neg hden.ne', logarithm,
      if_pos (add_pos hodds one_pos)]
    rw [h.docCount]
    refine foldlM_ok (fun i hi s hs => ?_) hscores
    exact h.scoreDocument_ok hk1 hb hb' term _ hs (List.mem_range.mp hi)
  · rw [if_neg hpos]
    exact ⟨scores, rfl, hscores⟩

/-- **Scoring never fails.** It never divides by zero and never takes the
logarithm of a number that is not positive; every document gets a score. -/
theorem BM25.Describes.score_ok (h : bm.Describes docs) (hk1 : 0 ≤ bm.k1) (hb : 0 ≤ bm.b)
    (hb' : bm.b ≤ 1) (log : ℚ → ℚ) (query : List String) :
    ∃ scores, bm.score log query = .ok scores ∧ scores.length = docs.length := by
  refine foldlM_ok (fun term _ s hs => h.scoreTerm_ok hk1 hb hb' log term hs) ?_
  rw [List.length_replicate, h.docCount]

end MultiForge.Search
