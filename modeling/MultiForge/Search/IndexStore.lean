/-
MultiForge.Search.IndexStore — the persistent index of
`forge.search.bm25_store` and what changes it.

The stored statistics are changed on three paths: `upsertDocument` takes
the old contribution of a key back and adds the new one, `removeDocument`
takes it back, and `removeTranscriptPaths` keeps some documents and counts
again. `searchFromIndex` scores with what is stored.
-/
import MultiForge.Search.Bm25

namespace MultiForge.Search

/-! ## 1. The stored data -/

/-- `TOKENIZER_ID` -/
def tokenizerId : String := "v1"

/-- `BM25IndexData` -/
structure BM25IndexData where
  docKeys : List String := []
  docLens : List Int := []
  termFreqs : List (Dict String Int) := []
  docFreqs : Dict String Int := .empty
  avgdl : ℚ := 0
  k1 : ℚ := 3 / 2
  b : ℚ := 3 / 4
  tokenizerId : String := Search.tokenizerId

/-- `BM25IndexCorruptedError` -/
inductive CorruptedError where
  | tokenizerMismatch (stored : String)
  | lengthMismatch (docKeys docLens termFreqs : Nat)
  deriving DecidableEq, Repr

/-- The store's file. -/
abbrev IndexFile := Option BM25IndexData

/-- `BM25IndexStore.read`, for a file with values of the right types. -/
def read : IndexFile → Except CorruptedError (Option BM25IndexData)
  | none => .ok none
  | some data =>
      let nKeys := data.docKeys.length
      let nLens := data.docLens.length
      let nFreqs := data.termFreqs.length
      if data.tokenizerId ≠ tokenizerId then .error (.tokenizerMismatch data.tokenizerId)
      else if nKeys ≠ nLens ∨ nKeys ≠ nFreqs then .error (.lengthMismatch nKeys nLens nFreqs)
      else .ok (some data)

/-- `_remove_doc_from_data` -/
def removeDocFromData (data : BM25IndexData) (docKey : String) : Option BM25IndexData :=
  match data.docKeys.findIdx? (· = docKey) with
  | none => none
  | some idx =>
      let oldTf := data.termFreqs.getD idx .empty
      some { data with
        docFreqs := (oldTf.entries.map Prod.fst).foldl Dict.unbump data.docFreqs
        docKeys := data.docKeys.eraseIdx idx
        docLens := data.docLens.eraseIdx idx
        termFreqs := data.termFreqs.eraseIdx idx }

/-- `BM25IndexStore.upsert_document` -/
def upsertDocument (file : IndexFile) (docKey : String) (termFreq : Dict String Int)
    (docLen : Int) : Except CorruptedError IndexFile := do
  let data := (← read file).getD {}
  let data := (removeDocFromData data docKey).getD data
  let docLens := data.docLens ++ [docLen]
  let terms := (termFreq.entries.filter fun e => 0 < e.2).map Prod.fst
  return some { data with
    docKeys := data.docKeys ++ [docKey]
    docLens := docLens
    termFreqs := data.termFreqs ++ [termFreq]
    docFreqs := terms.foldl Dict.bump data.docFreqs
    avgdl := averageLength docLens }

/-- `BM25IndexStore.remove_document` -/
def removeDocument (file : IndexFile) (docKey : String) :
    Except CorruptedError (IndexFile × Bool) := do
  match ← read file with
  | none => return (file, false)
  | some data => match removeDocFromData data docKey with
    | none => return (file, false)
    | some data => return (some { data with avgdl := averageLength data.docLens }, true)

/-- `[xs[index] for index in keep]` -/
def pick {α : Type} (xs : List α) (keep : List Nat) : List α := keep.filterMap (xs[·]?)

/-- The counter of `remove_transcript_paths`. -/
def recount (termFreqs : List (Dict String Int)) : Dict String Int :=
  termFreqs.foldl
    (fun frequencies terms =>
      ((terms.entries.filter fun e => 0 < e.2).map Prod.fst).foldl Dict.bump frequencies)
    .empty

/-- `remove_transcript_paths`, for the index. -/
def removeTranscriptPaths (file : IndexFile) (transcriptPaths : List String) :
    Except CorruptedError IndexFile :=
  if transcriptPaths = [] then .ok file
  else do
    match ← read file with
    | none => return file
    | some bm25 =>
        if bm25.docKeys.any (· ∈ transcriptPaths) then
          let keep := (List.range bm25.docKeys.length).filter fun index =>
            bm25.docKeys.getD index "" ∉ transcriptPaths
          let docLens := pick bm25.docLens keep
          let termFreqs := pick bm25.termFreqs keep
          return some { bm25 with
            docKeys := pick bm25.docKeys keep
            docLens := docLens
            termFreqs := termFreqs
            docFreqs := recount termFreqs
            avgdl := averageLength docLens }
        else return file

/-! ## 2. Documents, operations, searches -/

/-- The part of a `SearchDocument` that the index sees. -/
structure SearchDocument where
  transcriptPath : String
  content : String
  tokens : Option (List String)
  deriving DecidableEq, Repr

section

variable (tokenize : String → List String)

/-- The tokens of a document: its own, or those of its content. -/
def SearchDocument.terms (doc : SearchDocument) : List String :=
  match doc.tokens with
  | some tokens => tokens
  | none => tokenize doc.content

/-- `decompose_document`: the term frequencies, the length and the content. -/
def decomposeDocument (doc : SearchDocument) : Dict String Int × Int × String :=
  let tokens := doc.terms tokenize
  (termFrequencies tokens, (tokens.length : Int), doc.content)

/-- The operations on the index. -/
inductive IndexOp where
  | upsert (doc : SearchDocument)
  | remove (docKey : String)
  | removePaths (transcriptPaths : List String)
  deriving DecidableEq, Repr

/-- One operation. -/
def IndexOp.apply (file : IndexFile) : IndexOp → Except CorruptedError IndexFile
  | .upsert doc =>
      let parts := decomposeDocument tokenize doc
      upsertDocument file doc.transcriptPath parts.1 parts.2.1
  | .remove docKey => (removeDocument file docKey).map Prod.fst
  | .removePaths transcriptPaths => removeTranscriptPaths file transcriptPaths

/-- Several operations, one after another. -/
def runOps (ops : List IndexOp) (file : IndexFile) : Except CorruptedError IndexFile :=
  ops.foldlM (IndexOp.apply tokenize) file

/-! ## 3. Searches -/

/-- What a search can raise. -/
inductive SearchError where
  | corrupted (reason : CorruptedError)
  | missingMetadata (count : Nat)
  | arithmetic (reason : ScoreError)
  deriving DecidableEq, Repr

variable (strip : String → String)

/-- The ranking of a search, over the function that scores the documents:
the best keys with their scores. -/
def rank (score : List String → Except ScoreError (List ℚ)) (docKeys : List String)
    (docMetadata : List String) (limit : Nat) (query : String) :
    Except SearchError (List (ℚ × String)) :=
  if strip query = "" ∨ docKeys = [] then .ok []
  else
    let queryTokens := tokenize query
    if queryTokens = [] then .ok []
    else
      let missingMeta := docKeys.filter (· ∉ docMetadata)
      if missingMeta ≠ [] then .error (.missingMetadata missingMeta.length)
      else match score queryTokens with
        | .error reason => .error (.arithmetic reason)
        | .ok scores =>
            let scored := (scores.zip docKeys).filter fun r => 0 < r.1
            .ok ((scored.mergeSort fun r r' => r'.1 ≤ r.1).take limit)

/-- The object `search_from_index` scores with. -/
def BM25IndexData.bm25 (data : BM25IndexData) : BM25 :=
  .fromPrecomputed data.termFreqs data.docFreqs data.docLens data.avgdl data.k1 data.b

/-- `search_from_index` up to the ranked keys; `docMetadata` are the keys
of the metadata map. -/
def searchFromIndex (log : ℚ → ℚ) (data : BM25IndexData) (docMetadata : List String)
    (limit : Nat) (query : String) : Except SearchError (List (ℚ × String)) :=
  rank tokenize strip (data.bm25.score log) data.docKeys docMetadata limit query

end

end MultiForge.Search
