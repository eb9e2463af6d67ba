/-
MultiForge.Search.IndexRebuild — the incremental index equals a rebuilt
one.

`BM25IndexData.Indexes` is the invariant of all three paths: the stored
lists are those of documents with distinct keys, and the document
frequencies tally them. Each operation has one lemma that says which
documents it leaves (`upsertDocument_stores`, `removeDocument_stores`,
`removeTranscriptPaths_stores`); every run of operations keeps the
invariant (`runOps_stores`), so a search in the index is a search in an
index built from nothing (`searchFromIndex_rebuilt`).
-/
import MultiForge.Search.IndexStore

namespace MultiForge.Search

section

variable (tokenize : String → List String)

/-! ## 1. The remaining documents -/

/-- The documents an operation leaves, each with its key and its terms. -/
def IndexOp.effect (docs : List (String × List String)) : IndexOp → List (String × List String)
  | .upsert doc =>
      docs.filter (fun d => d.1 ≠ doc.transcriptPath)
        ++ [(doc.transcriptPath, doc.terms tokenize)]
  | .remove docKey => docs.filter fun d => d.1 ≠ docKey
  | .removePaths transcriptPaths => docs.filter fun d => d.1 ∉ transcriptPaths

/-- The documents several operations leave. -/
def remaining (ops : List IndexOp) (docs : List (String × List String)) :
    List (String × List String) := ops.foldl (IndexOp.effect tokenize) docs

end

/-- The stored lists are those of the documents, and the document
frequencies tally them. -/
structure BM25IndexData.Indexes (data : BM25IndexData) (docs : List (String × List String)) :
    Prop where
  distinct : (docs.map Prod.fst).Nodup
  docKeys : data.docKeys = docs.map Prod.fst
  docLens : data.docLens = docs.map fun d => (d.2.length : Int)
  termFreqs : data.termFreqs = docs.map fun d => termFrequencies d.2
  docFreqs : data.docFreqs.Tallies (docFreq (docs.map Prod.snd))
  k1 : data.k1 = 3 / 2
  b : data.b = 3 / 4
  tokenizerId : data.tokenizerId = Search.tokenizerId

/-- The file holds the index of the documents; without a file there are
none. -/
def Stores (docs : List (String × List String)) : IndexFile → Prop
  | none => docs = []
  | some data => data.Indexes docs ∧ data.avgdl = averageLength data.docLens

variable {data : BM25IndexData} {docs : List (String × List String)} {file : IndexFile}

/-- A new index. -/
theorem indexes_new : ({} : BM25IndexData).Indexes [] where
  distinct := .nil
  docKeys := rfl
  docLens := rfl
  termFreqs := rfl
  docFreqs := Dict.Tallies.empty
  k1 := rfl
  b := rfl
  tokenizerId := rfl

/-- What is stored can be read. -/
theorem BM25IndexData.Indexes.read (h : data.Indexes docs) : read (some data) = .ok (some data) := by
  have hlens : data.docKeys.length = data.docLens.length := by
    rw [h.docKeys, h.docLens, List.length_map, List.length_map]
  have hfreqs : data.docKeys.length = data.termFreqs.length := by
    rw [h.docKeys, h.termFreqs, List.length_map, List.length_map]
  simp [Search.read, h.tokenizerId, ← hlens, ← hfreqs]

/-! ## 2. Removing one document -/

theorem docFreq_append (as bs : List (List String)) (t : String) :
    docFreq (as ++ bs) t = docFreq as t + docFreq bs t := List.countP_append

theorem findIdx?_of_split {k : String} : ∀ {pre post : List String}, k ∉ pre →
    (pre ++ k :: post).findIdx? (· = k) = some pre.length
  | [], _, _ => by simp [List.findIdx?_cons]
  | j :: pre, post, h => by
      rw [List.mem_cons, not_or] at h
      have hj : ¬ j = k := fun e => h.1 e.symm
      rw [List.cons_append, List.findIdx?_cons, findIdx?_of_split h.2]
      simp [hj]

theorem eraseIdx_of_split {α : Type} (pre post : List α) (a : α) :
    (pre ++ a :: post).eraseIdx pre.length = pre ++ post := by
  rw [List.eraseIdx_append_of_length_le (Nat.le_refl _)]
  simp

/-- Without the key nothing is removed. -/
theorem removeDocFromData_of_not_mem (h : data.Indexes docs) {docKey : String}
    (hkey : docKey ∉ docs.map Prod.fst) : removeDocFromData data docKey = none := by
  have hfind : data.docKeys.findIdx? (· = docKey) = none := by
    rw [h.docKeys, List.findIdx?_eq_none_iff]
    intro j hj
    have hne : j ≠ docKey := fun e => hkey (e ▸ hj)
    simpa using hne
  rw [removeDocFromData, hfind]

theorem filter_of_not_mem {docKey : String} (hkey : docKey ∉ docs.map Prod.fst) :
    docs.filter (fun d => d.1 ≠ docKey) = docs := by
  rw [List.filter_eq_self]
  intro d hd
  have hne : d.1 ≠ docKey := fun e => hkey (List.mem_map.mpr ⟨d, hd, e⟩)
  simpa using hne

/-- The old contribution of a key is taken back, whatever place it has. -/
theorem removeDocFromData_of_mem (h : data.Indexes docs) {docKey : String}
    (hkey : docKey ∈ docs.map Prod.fst) :
    ∃ data', removeDocFromData data docKey = some data'
      ∧ data'.Indexes (docs.filter fun d => d.1 ≠ docKey) := by
  obtain ⟨⟨k, terms⟩, hmem, rfl⟩ := List.mem_map.mp hkey
  obtain ⟨pre, post, rfl⟩ := List.append_of_mem hmem
  have hdistinct := h.distinct
  rw [List.map_append, List.map_cons, List.nodup_append, List.nodup_cons] at hdistinct
  obtain ⟨hpre, ⟨hkpost, hpost⟩, hdisjoint⟩ := hdistinct
  have hkpre : k ∉ pre.map Prod.fst := fun hk => hdisjoint k hk k List.mem_cons_self rfl
  have hfilter : (pre ++ (k, terms) :: post).filter (fun d => d.1 ≠ k) = pre ++ post := by
    rw [List.filter_append, List.filter_cons_of_neg (by simp), filter_of_not_mem hkpre,
      filter_of_not_mem hkpost]
  have hfind : data.docKeys.findIdx? (· = k) = some pre.length := by
    rw [h.docKeys, List.map_append, List.map_cons, findIdx?_of_split hkpre, List.length_map]
  have hold : data.termFreqs.getD pre.length .empty = termFrequencies terms := by
    rw [h.termFreqs, List.getD_eq_getElem?_getD, List.getElem?_map,
      List.getElem?_append_right (Nat.le_refl _)]
    simp
  rw [hfilter]
  simp only [removeDocFromData, hfind]
  refine ⟨_, rfl, ?_⟩
  refine { distinct := ?_, docKeys := ?_, docLens := ?_, termFreqs := ?_, docFreqs := ?_,
           k1 := h.k1, b := h.b, tokenizerId := h.tokenizerId }
  · rw [List.map_append, List.nodup_append]
    exact ⟨hpre, hpost, fun a ha b hb => hdisjoint a ha b (List.mem_cons_of_mem _ hb)⟩
  · show data.docKeys.eraseIdx pre.length = _
    rw [h.docKeys, List.eraseIdx_map, eraseIdx_of_split]
  · show data.docLens.eraseIdx pre.length = _
    rw [h.docLens, List.eraseIdx_map, eraseIdx_of_split]
  · show data.termFreqs.eraseIdx pre.length = _
    rw [h.termFreqs, List.eraseIdx_map, eraseIdx_of_split]
  · show (((data.termFreqs.getD pre.length .empty).entries.map Prod.fst).foldl
      Dict.unbump data.docFreqs).Tallies _
    rw [hold]
    refine (Dict.Tallies.unbumpAll _ h.docFreqs).congr fun t => ?_
    rw [termFrequencies, Dict.count_keys_tally, List.map_append, List.map_append, List.map_cons,
      docFreq_append, docFreq_append, docFreq_cons]
    simp only
    omega

/-- Both cases at once, as `upsertDocument` uses them. -/
theorem removeDocFromData_getD (h : data.Indexes docs) (docKey : String) :
    ((removeDocFromData data docKey).getD data).Indexes (docs.filter fun d => d.1 ≠ docKey) := by
  by_cases hkey : docKey ∈ docs.map Prod.fst
  · obtain ⟨data', hremove, h'⟩ := removeDocFromData_of_mem h hkey
    rw [hremove]
    exact h'
  · rw [removeDocFromData_of_not_mem h hkey, filter_of_not_mem hkey]
    exact h

/-! ## 3. The operations keep the invariant -/

theorem terms_positive (tokens : List String) :
    ((termFrequencies tokens).entries.filter fun e => 0 < e.2) = (termFrequencies tokens).entries := by
  rw [List.filter_eq_self]
  intro e he
  simpa using (Dict.tally_tallies tokens).pos e he

theorem BM25IndexData.Indexes.distinct_append (h : data.Indexes docs) (docKey : String)
    (tokens : List String) :
    ((docs.filter (fun d => d.1 ≠ docKey) ++ [(docKey, tokens)]).map Prod.fst).Nodup := by
  rw [List.map_append, List.nodup_append]
  refine ⟨h.distinct.sublist (List.filter_sublist.map _), List.nodup_singleton _, ?_⟩
  intro k hk k' hk'
  obtain ⟨d, hd, rfl⟩ := List.mem_map.mp hk
  rw [List.mem_singleton.mp hk']
  simpa using (List.mem_filter.mp hd).2

/-- Adding or replacing a document. -/
theorem upsertDocument_stores (h : Stores docs file) (docKey : String) (tokens : List String) :
    ∃ file', upsertDocument file docKey (termFrequencies tokens) tokens.length = .ok file'
      ∧ Stores (docs.filter (fun d => d.1 ≠ docKey) ++ [(docKey, tokens)]) file' := by
  obtain ⟨data, hread, hdata⟩ : ∃ data : BM25IndexData,
      (read file).map (·.getD {}) = .ok data ∧ data.Indexes docs := by
    cases file with
    | none =>
      rw [show docs = [] from h]
      exact ⟨{}, rfl, indexes_new⟩
    | some data => exact ⟨data, by rw [h.1.read]; rfl, h.1⟩
  have hleft := removeDocFromData_getD hdata docKey
  have hdistinct := hdata.distinct_append docKey tokens
  unfold upsertDocument
  cases hfile : read file with
  | error e =>
    rw [hfile] at hread
    cases hread
  | ok stored =>
    rw [hfile] at hread
    obtain rfl : stored.getD {} = data := Except.ok.inj hread
    refine ⟨_, rfl, ?_, rfl⟩
    refine { distinct := hdistinct, docKeys := ?_, docLens := ?_, termFreqs := ?_,
             docFreqs := ?_, k1 := hleft.k1, b := hleft.b, tokenizerId := hleft.tokenizerId }
    · simp [hleft.docKeys]
    · simp [hleft.docLens]
    · simp [hleft.termFreqs]
    · simp only [terms_positive]
      refine (countTerms_tallies hleft.docFreqs tokens).congr fun t => ?_
      rw [List.map_append, docFreq_append, List.map_singleton, docFreq_cons]
      simp [docFreq]

/-- Removing a document. -/
theorem removeDocument_stores (h : Stores docs file) (docKey : String) :
    ∃ file' removed, removeDocument file docKey = .ok (file', removed)
      ∧ Stores (docs.filter fun d => d.1 ≠ docKey) file' := by
  cases file with
  | none =>
    refine ⟨none, false, rfl, ?_⟩
    rw [show docs = [] from h]
    rfl
  | some data =>
    by_cases hkey : docKey ∈ docs.map Prod.fst
    · obtain ⟨data', hremove, hdata'⟩ := removeDocFromData_of_mem h.1 hkey
      refine ⟨some { data' with avgdl := averageLength data'.docLens }, true, ?_, ?_, rfl⟩
      · simp only [removeDocument, h.1.read, bind, Except.bind, hremove]
        rfl
      · exact { hdata' with }
    · refine ⟨some data, false, ?_, ?_⟩
      · simp only [removeDocument, h.1.read, bind, Except.bind,
          removeDocFromData_of_not_mem h.1 hkey]
        rfl
      · rw [filter_of_not_mem hkey]
        exact h

/-- Picking the places of some documents picks what belongs to them. -/
theorem pick_filter {α β : Type} (f : β → α) (g : β → String) (p : String → Bool) (ds : List β) :
    pick (ds.map f) ((List.range ds.length).filter fun i => p ((ds.map g).getD i ""))
      = (ds.filter fun d => p (g d)).map f := by
  induction ds using List.reverseRecOn with
  | nil => rfl
  | append_singleton ds d ih =>
    have hpre : ∀ i ∈ List.range ds.length, i < ds.length := fun i hi => List.mem_range.mp hi
    have hkeys : (List.range ds.length).filter (fun i => p (((ds ++ [d]).map g).getD i ""))
        = (List.range ds.length).filter fun i => p ((ds.map g).getD i "") := by
      refine List.filter_congr fun i hi => ?_
      have hlt : i < (ds.map g).length := by simpa using hpre i hi
      rw [List.map_append, List.getD_eq_getElem?_getD, List.getElem?_append_left hlt,
        List.getD_eq_getElem?_getD]
    have hpick : ∀ keep : List Nat, (∀ i ∈ keep, i < ds.length) →
        pick ((ds ++ [d]).map f) keep = pick (ds.map f) keep := by
      intro keep hkeep
      refine List.filterMap_congr fun i hi => ?_
      rw [List.map_append, List.getElem?_append_left (by simpa using hkeep i hi)]
    rw [List.length_append, List.length_singleton, List.range_succ, List.filter_append, hkeys]
    unfold pick at ih hpick ⊢
    rw [List.filterMap_append, hpick _ fun i hi => hpre i (List.mem_filter.mp hi).1, ih,
      List.filter_append, List.map_append]
    cases hp : p (g d) with
    | true => simp [hp]
    | false => simp [hp]

/-- Counting again is counting from nothing. -/
theorem recount_tallies (docs : List (List String)) :
    (recount (docs.map termFrequencies)).Tallies (docFreq docs) := by
  have hstep : recount (docs.map termFrequencies)
      = (docs.map termFrequencies).foldl countTerms .empty := by
    unfold recount
    rw [List.foldl_map, List.foldl_map]
    congr 1
    funext d tokens
    rw [terms_positive]
    rfl
  rw [hstep]
  refine (countTerms_foldl_tallies docs Dict.Tallies.empty).congr fun t => ?_
  rw [Nat.zero_add]

/-- Removing several documents. -/
theorem removeTranscriptPaths_stores (h : Stores docs file) (transcriptPaths : List String) :
    ∃ file', removeTranscriptPaths file transcriptPaths = .ok file'
      ∧ Stores (docs.filter fun d => d.1 ∉ transcriptPaths) file' := by
  unfold removeTranscriptPaths
  by_cases hpaths : transcriptPaths = []
  · subst hpaths
    exact ⟨file, rfl, by simpa using h⟩
  rw [if_neg hpaths]
  cases file with
  | none =>
    refine ⟨none, rfl, ?_⟩
    rw [show docs = [] from h]
    rfl
  | some data =>
    obtain ⟨hdata, havg⟩ := h
    simp only [hdata.read, bind, Except.bind]
    split
    · generalize hkeep : (List.range data.docKeys.length).filter
        (fun index => decide (data.docKeys.getD index "" ∉ transcriptPaths)) = keep
      have hpick : ∀ {α : Type} (f : String × List String → α), pick (docs.map f) keep
          = (docs.filter fun d => d.1 ∉ transcriptPaths).map f := by
        intro α f
        rw [← hkeep, hdata.docKeys, List.length_map]
        exact pick_filter f Prod.fst (fun k => decide (k ∉ transcriptPaths)) docs
      have hterms : pick data.termFreqs keep
          = ((docs.filter fun d => d.1 ∉ transcriptPaths).map Prod.snd).map termFrequencies := by
        rw [hdata.termFreqs, hpick, List.map_map]
        rfl
      refine ⟨_, rfl, ?_, rfl⟩
      refine { distinct := hdata.distinct.sublist (List.filter_sublist.map _), docKeys := ?_,
               docLens := ?_, termFreqs := ?_, docFreqs := ?_, k1 := hdata.k1, b := hdata.b,
               tokenizerId := hdata.tokenizerId }
      · show pick data.docKeys keep = _
        rw [hdata.docKeys, hpick]
      · show pick data.docLens keep = _
        rw [hdata.docLens, hpick]
      · show pick data.termFreqs keep = _
        rw [hdata.termFreqs, hpick]
      · show (recount (pick data.termFreqs keep)).Tallies _
        rw [hterms]
        exact recount_tallies _
    · -- no stored key is among the paths
      rename_i hany
      refine ⟨some data, rfl, ?_⟩
      have hall : docs.filter (fun d => d.1 ∉ transcriptPaths) = docs := by
        rw [List.filter_eq_self]
        intro d hd
        rw [hdata.docKeys] at hany
        have hnot : d.1 ∉ transcriptPaths := by
          intro hmem
          exact hany (List.any_eq_true.mpr ⟨d.1, List.mem_map.mpr ⟨d, hd, rfl⟩, by simpa using hmem⟩)
        simpa using hnot
      rw [hall]
      exact ⟨hdata, havg⟩

/-! ## 4. Runs -/

variable (tokenize : String → List String)

/-- One operation leaves the index of the documents it leaves. -/
theorem apply_stores (h : Stores docs file) (op : IndexOp) :
    ∃ file', op.apply tokenize file = .ok file' ∧ Stores (op.effect tokenize docs) file' := by
  cases op with
  | upsert doc => exact upsertDocument_stores h doc.transcriptPath (doc.terms tokenize)
  | remove docKey =>
    obtain ⟨file', removed, hremove, hstores⟩ := removeDocument_stores h docKey
    refine ⟨file', ?_, hstores⟩
    simp only [IndexOp.apply, hremove]
    rfl
  | removePaths transcriptPaths => exact removeTranscriptPaths_stores h transcriptPaths

/-- So do several. -/
theorem runOps_stores : ∀ (ops : List IndexOp) {docs : List (String × List String)}
    {file : IndexFile}, Stores docs file →
    ∃ file', runOps tokenize ops file = .ok file' ∧ Stores (remaining tokenize ops docs) file'
  | [], _, file, h => ⟨file, rfl, h⟩
  | op :: rest, docs, file, h => by
      obtain ⟨file₁, happly, h₁⟩ := apply_stores tokenize h op
      obtain ⟨file', hrun, h'⟩ := runOps_stores rest h₁
      refine ⟨file', ?_, h'⟩
      rw [runOps, List.foldlM_cons, happly]
      exact hrun

/-- The stored statistics describe the documents. -/
theorem BM25IndexData.Indexes.describes (h : data.Indexes docs)
    (havg : data.avgdl = averageLength data.docLens) :
    data.bm25.Describes (docs.map Prod.snd) where
  docCount := by
    show data.docLens.length = _
    rw [h.docLens, List.length_map, List.length_map]
  docLens := by
    show data.docLens = _
    rw [h.docLens, List.map_map]
    rfl
  avgdl := by
    show data.avgdl = _
    rw [havg, h.docLens, List.map_map]
    rfl
  termFreqs := by
    show data.termFreqs = _
    rw [h.termFreqs, List.map_map]
    rfl
  docFreqs := h.docFreqs

/-- **The incremental index equals a rebuilt one.** Every run of
operations from no index succeeds and leaves the index of the remaining
documents: keys that are distinct and aligned with lengths and term
frequencies, the document frequencies of exactly their terms, and their
average length. Scoring in it gives what scoring in an index built from
those documents gives, without an arithmetic error, and so does a search. -/
theorem searchFromIndex_rebuilt (strip : String → String) (log : ℚ → ℚ) (ops : List IndexOp) :
    ∃ file, runOps tokenize ops none = .ok file ∧ Stores (remaining tokenize ops []) file ∧
      ∀ data, file = some data →
        (∀ query, ∃ scores,
          (BM25.init ((remaining tokenize ops []).map Prod.snd) (3 / 2) (3 / 4)).score log query
            = .ok scores
          ∧ data.bm25.score log query = .ok scores
          ∧ scores.length = (remaining tokenize ops []).length)
        ∧ ∀ docMetadata limit query,
          searchFromIndex tokenize strip log data docMetadata limit query
            = rank tokenize strip
                ((BM25.init ((remaining tokenize ops []).map Prod.snd) (3 / 2) (3 / 4)).score log)
                ((remaining tokenize ops []).map Prod.fst) docMetadata limit query := by
  have hempty : Stores [] none := rfl
  obtain ⟨file, hrun, hstores⟩ := runOps_stores tokenize ops hempty
  refine ⟨file, hrun, hstores, ?_⟩
  rintro data rfl
  obtain ⟨hdata, havg⟩ := hstores
  have hscratch := BM25.init_describes ((remaining tokenize ops []).map Prod.snd) (3 / 2) (3 / 4)
  have heq : data.bm25.score log
      = (BM25.init ((remaining tokenize ops []).map Prod.snd) (3 / 2) (3 / 4)).score log := by
    funext query
    exact (hdata.describes havg).score_eq hscratch hdata.k1 hdata.b log query
  constructor
  · intro query
    obtain ⟨scores, hscores, hlen⟩ := hscratch.score_ok (by norm_num [BM25.init])
      (by norm_num [BM25.init]) (by norm_num [BM25.init]) log query
    refine ⟨scores, hscores, by rw [heq, hscores], ?_⟩
    rw [hlen, List.length_map]
  · intro docMetadata limit query
    rw [searchFromIndex, heq, hdata.docKeys]

end MultiForge.Search
