/-
MultiForge.Search.Removal — `remove_transcript_paths` over all four search
stores, and the searches that read them.

The removal checks every store and then replaces them one after another:
`removalWrites` are the replacements in their order, `interrupted` are the
stores after some of them. A reader takes no lock, so `searchProject` can
meet any of these states. `Removed` is what a removal is for.

The documents go first. Until the index has followed, every removed
document in it has lost its metadata, and each search that has a term to
look for reports the index as corrupted (`removal_answerable_iff`).
-/
import MultiForge.Search.IndexRebuild

namespace MultiForge.Search

/-! ## 1. The stores -/

/-- `SearchDocumentMeta`, with any type of `metadata`. -/
structure SearchDocumentMeta (M : Type) where
  transcriptPath : String
  sessionName : String
  sessionId : String
  extractedAt : String
  metadata : M
  deriving DecidableEq, Repr

/-- `IndexedFileEntry` -/
structure IndexedFileEntry where
  mtime : ℚ
  size : Int
  indexedAt : String
  deriving DecidableEq, Repr

/-- The files of the four stores; a file that is missing is `none`. -/
structure SearchStores (M : Type) where
  documents : Option (List (SearchDocumentMeta M)) := none
  content : Option (Dict String String) := none
  bm25 : IndexFile := none
  state : Option (Dict String IndexedFileEntry) := none

/-- One store is replaced. -/
inductive StoreWrite (M : Type) where
  | documents (documents : List (SearchDocumentMeta M))
  | content (content : Dict String String)
  | bm25 (data : BM25IndexData)
  | state (indexedFiles : Dict String IndexedFileEntry)

variable {M α : Type}

namespace SearchStores

/-- `SearchDocumentStore.read` -/
def readDocuments (s : SearchStores M) : List (SearchDocumentMeta M) := s.documents.getD []

/-- `ContentStore.read_all` -/
def readContent (s : SearchStores M) : Dict String String := s.content.getD .empty

/-- `doc_keys` of the index, if there is one. -/
def docKeys (s : SearchStores M) : List String :=
  match s.bm25 with
  | some bm25 => bm25.docKeys
  | none => []

/-- `indexed_files` of `_read_state`, for a file of the right shape. -/
def readState (s : SearchStores M) : Dict String IndexedFileEntry := s.state.getD .empty

/-- `any(path.exists() for path in paths)` -/
def anyExists (s : SearchStores M) : Bool :=
  s.documents.isSome || s.content.isSome || s.bm25.isSome || s.state.isSome

def write (s : SearchStores M) : StoreWrite M → SearchStores M
  | .documents documents => { s with documents := some documents }
  | .content content => { s with content := some content }
  | .bm25 data => { s with bm25 := some data }
  | .state indexedFiles => { s with state := some indexedFiles }

/-- `kept_documents` -/
def keptDocuments (s : SearchStores M) (transcriptPaths : List String) :
    List (SearchDocumentMeta M) :=
  s.readDocuments.filter fun doc => doc.transcriptPath ∉ transcriptPaths

/-- `kept_content` -/
def keptContent (s : SearchStores M) (transcriptPaths : List String) : Dict String String :=
  s.readContent.filter fun key _ => key ∉ transcriptPaths

/-- `kept_state` -/
def keptState (s : SearchStores M) (transcriptPaths : List String) :
    Dict String IndexedFileEntry :=
  s.readState.filter fun key _ => key ∉ transcriptPaths

/-- The replacements of `remove_transcript_paths`, in their order. Nothing
is replaced before all the stores have been read. -/
def removalWrites (s : SearchStores M) (transcriptPaths : List String) :
    Except CorruptedError (List (StoreWrite M)) :=
  if transcriptPaths = [] then .ok []
  else if s.anyExists = false then .ok []
  else match removeTranscriptPaths s.bm25 transcriptPaths with
    | .error reason => .error reason
    | .ok kept => .ok (
        (if (s.keptDocuments transcriptPaths).length ≠ s.readDocuments.length then
          [.documents (s.keptDocuments transcriptPaths)] else [])
        ++ ((if s.keptContent transcriptPaths ≠ s.readContent then
          [.content (s.keptContent transcriptPaths)] else [])
        ++ ((if s.docKeys.any (· ∈ transcriptPaths) then kept.toList.map .bm25 else [])
        ++ (if s.keptState transcriptPaths ≠ s.readState then
          [.state (s.keptState transcriptPaths)] else []))))

/-- The stores after the first replacements. -/
def interrupted (s : SearchStores M) (writes : List (StoreWrite M)) (k : Nat) : SearchStores M :=
  (writes.take k).foldl write s

/-- The stores after all of them. -/
def completed (s : SearchStores M) (writes : List (StoreWrite M)) : SearchStores M :=
  writes.foldl write s

end SearchStores

/-! ## 2. Searches -/

/-- `[a-zA-Z0-9_]` -/
def isTokenChar (c : Char) : Bool := c.isAlphanum || c = '_'

/-- `TOKEN_RE.finditer`, each match with its start. -/
def tokenMatches : Nat → List Char → List (Nat × List Char)
  | _, [] => []
  | i, c :: cs =>
      let later := tokenMatches (i + 1) cs
      if isTokenChar c then
        match later with
        | (j, token) :: rest =>
            if j = i + 1 then (i, c :: token) :: rest else (i, [c]) :: (j, token) :: rest
        | [] => [(i, [c])]
      else later

/-- The loop of `_best_snippet`: the position and the rarity of the best
match. -/
def rarestMatch (queryTokens : List String) (docFreqs : Dict String Int) :
    Option (Nat × Int) → List (Nat × List Char) → Option (Nat × Int)
  | best, [] => best
  | best, (pos, word) :: rest =>
      let token := String.ofList (word.map Char.toLower)
      if token ∉ queryTokens then rarestMatch queryTokens docFreqs best rest
      else
        let rarity := (docFreqs.get? token).getD 0
        if best.all fun b => rarity < b.2 then
          if rarity ≤ 1 then some (pos, rarity)
          else rarestMatch queryTokens docFreqs (some (pos, rarity)) rest
        else rarestMatch queryTokens docFreqs best rest

/-- `SNIPPET_LENGTH` -/
def snippetLength : Nat := 300

/-- `_extract_window` -/
def extractWindow (content : List Char) (center length : Nat) : List Char :=
  let start := center - length / 2
  let stop := start + length
  let (start, stop) :=
    if content.length < stop then (content.length - length, content.length) else (start, stop)
  (if 0 < start then ['.', '.', '.'] else [])
    ++ (content.take stop).drop start
    ++ (if stop < content.length then ['.', '.', '.'] else [])

/-- `_best_snippet` -/
def bestSnippet (content : String) (queryTokens : List String) (docFreqs : Dict String Int) :
    String :=
  let chars := content.toList
  if chars.length ≤ snippetLength then content
  else match rarestMatch queryTokens docFreqs none (tokenMatches 0 chars) with
    | some (pos, _) => String.ofList (extractWindow chars pos snippetLength)
    | none => String.ofList (chars.take snippetLength)

/-- `round(x, 4)`, half to even. -/
def round4 (x : ℚ) : ℚ :=
  let y := x * 10000
  let below := y.floor
  let half := y - below
  let n : Int :=
    if half < 1 / 2 then below else if 1 / 2 < half then below + 1
    else if below % 2 = 0 then below else below + 1
  n / 10000

/-- `SearchResult` -/
structure SearchResult (M : Type) where
  sessionName : String
  sessionId : String
  score : ℚ
  snippet : String
  transcriptPath : String
  metadata : M

/-- What reading the stores and searching them can raise. -/
inductive QueryError where
  | search (reason : SearchError)
  | missingContent (count : Nat)
  | keyError (key : String)
  deriving DecidableEq, Repr

/-- `BM25IndexCorruptedError` or `ContentStoreCorruptedError` -/
def QueryError.isCorruption : QueryError → Bool
  | .search (.corrupted _) => true
  | .search (.missingMetadata _) => true
  | .missingContent _ => true
  | _ => false

/-- Neither of the two errors. -/
def Answerable {α : Type} (r : Except QueryError α) : Prop :=
  ∀ e, r = .error e → e.isCorruption = false

section

variable (tokenize : String → List String) (strip : String → String) (log : ℚ → ℚ)

/-- The loop over the top results. -/
def collectResults (data : BM25IndexData) (docMetadata : Dict String (SearchDocumentMeta M))
    (contentMap : Dict String String) (query : String) (topK : List (ℚ × String)) :
    Except QueryError (List (SearchResult M)) :=
  topK.mapM fun r =>
    match docMetadata.get? r.2, contentMap.get? r.2 with
    | some docMeta, some content => .ok {
        sessionName := docMeta.sessionName
        sessionId := docMeta.sessionId
        score := round4 r.1
        snippet := bestSnippet content (tokenize query) data.docFreqs
        transcriptPath := docMeta.transcriptPath
        metadata := docMeta.metadata }
    | _, _ => .error (.keyError r.2)

/-- `search_from_index`, past the ranking. -/
def searchResults (data : BM25IndexData) (docMetadata : Dict String (SearchDocumentMeta M))
    (contentLoader : List String → Dict String String) (limit : Nat) (query : String) :
    Except QueryError (List (SearchResult M)) :=
  match searchFromIndex tokenize strip log data (docMetadata.entries.map Prod.fst) limit query with
  | .error reason => .error (.search reason)
  | .ok topK =>
      if topK = [] then .ok []
      else
        let topKeys := topK.map Prod.snd
        let contentMap := contentLoader topKeys
        let missingContent := topKeys.filter fun k => (contentMap.get? k).isNone
        if missingContent ≠ [] then .error (.missingContent missingContent.length)
        else collectResults tokenize data docMetadata contentMap query topK

/-- `{m.transcript_path: m for m in doc_metas}` -/
def metaMap (documents : List (SearchDocumentMeta M)) : Dict String (SearchDocumentMeta M) :=
  documents.foldl (fun d doc => d.set doc.transcriptPath doc) .empty

/-- `ContentStore.read_keys` -/
def SearchStores.readKeys (s : SearchStores M) (keys : List String) : Dict String String :=
  s.readContent.filter fun key _ => key ∈ keys

/-- `_search_project`; without an index there is no answer. -/
def searchProject (s : SearchStores M) (limit : Nat) (query : String) :
    Except QueryError (Option (List (SearchResult M))) :=
  match read s.bm25 with
  | .error reason => .error (.search (.corrupted reason))
  | .ok none => .ok none
  | .ok (some bm25) =>
      if s.readDocuments = [] ∧ bm25.docKeys = [] then .ok none
      else (searchResults tokenize strip log bm25 (metaMap s.readDocuments) s.readKeys limit
        query).map some

end

/-! ## 3. What a removal is for -/

/-- The documents of the index, each with its length and its terms. -/
def BM25IndexData.rows (data : BM25IndexData) : List (String × Int × Dict String Int) :=
  data.docKeys.zip (data.docLens.zip data.termFreqs)

def SearchStores.indexRows (s : SearchStores M) : List (String × Int × Dict String Int) :=
  match s.bm25 with
  | some bm25 => bm25.rows
  | none => []

namespace SearchStores

/-- Every key of the index has its metadata and its content. -/
structure Consistent (s : SearchStores M) : Prop where
  readable : read s.bm25 = .ok s.bm25
  metadata : ∀ key ∈ s.docKeys, ∃ doc ∈ s.readDocuments, doc.transcriptPath = key
  content : ∀ key ∈ s.docKeys, (s.readContent.get? key).isSome

/-- The requested keys are gone from all four stores, and nothing else. -/
structure Removed (s : SearchStores M) (transcriptPaths : List String) (s' : SearchStores M) :
    Prop where
  documents : s'.readDocuments
    = s.readDocuments.filter fun doc => doc.transcriptPath ∉ transcriptPaths
  content : ∀ key, s'.readContent.get? key
    = if key ∈ transcriptPaths then none else s.readContent.get? key
  index : s'.indexRows = s.indexRows.filter fun row => row.1 ∉ transcriptPaths
  state : ∀ key, s'.readState.get? key
    = if key ∈ transcriptPaths then none else s.readState.get? key

/-- Each store is as it was or already without the keys. -/
structure Between (s : SearchStores M) (transcriptPaths : List String) (s' : SearchStores M) :
    Prop where
  documents : s'.readDocuments = s.readDocuments
    ∨ s'.readDocuments = s.keptDocuments transcriptPaths
  content : s'.readContent = s.readContent ∨ s'.readContent = s.keptContent transcriptPaths
  bm25 : s'.bm25 = s.bm25 ∨ removeTranscriptPaths s.bm25 transcriptPaths = .ok s'.bm25
  state : s'.readState = s.readState ∨ s'.readState = s.keptState transcriptPaths

end SearchStores

/-! ## 4. The index without some documents -/

theorem zip_unzip {α β : Type} : ∀ l : List (α × β), (l.map Prod.fst).zip (l.map Prod.snd) = l
  | [] => rfl
  | (a, b) :: rest => by simp [zip_unzip rest]

/-- What can be read is aligned. -/
theorem read_aligned {data : BM25IndexData} (h : read (some data) = .ok (some data)) :
    data.docKeys = data.rows.map Prod.fst ∧ data.docLens = data.rows.map (fun r => r.2.1)
      ∧ data.termFreqs = data.rows.map (fun r => r.2.2) := by
  unfold read at h
  simp only at h
  split at h
  · cases h
  · split at h
    · cases h
    · rename_i hlen
      rw [not_or, not_not, not_not] at hlen
      obtain ⟨hlens, hfreqs⟩ := hlen
      unfold BM25IndexData.rows
      have hzip : (data.docLens.zip data.termFreqs).length = data.docKeys.length := by
        rw [List.length_zip]
        omega
      refine ⟨(List.map_fst_zip (by omega)).symm, ?_, ?_⟩
      · have hmap := congrArg (List.map Prod.fst)
          (@List.map_snd_zip _ _ data.docKeys (data.docLens.zip data.termFreqs) (by omega))
        rw [List.map_map, List.map_fst_zip (by omega)] at hmap
        exact hmap.symm
      · have hmap := congrArg (List.map Prod.snd)
          (@List.map_snd_zip _ _ data.docKeys (data.docLens.zip data.termFreqs) (by omega))
        rw [List.map_map, List.map_snd_zip (by omega)] at hmap
        exact hmap.symm

/-- Removing keys from an index that can be read keeps the rows of the
others, and leaves an index that can be read. -/
theorem removeTranscriptPaths_rows {data : BM25IndexData}
    (h : read (some data) = .ok (some data)) (transcriptPaths : List String) :
    ∃ data', removeTranscriptPaths (some data) transcriptPaths = .ok (some data')
      ∧ data'.rows = data.rows.filter (fun row => row.1 ∉ transcriptPaths)
      ∧ read (some data') = .ok (some data')
      ∧ (data.docKeys.any (· ∈ transcriptPaths) = false → data' = data) := by
  have hsame : data.docKeys.any (· ∈ transcriptPaths) = false →
      data.rows.filter (fun row => row.1 ∉ transcriptPaths) = data.rows := by
    intro hany
    rw [List.filter_eq_self]
    intro row hrow
    have hkey : row.1 ∈ data.docKeys := by
      rw [(read_aligned h).1]
      exact List.mem_map_of_mem hrow
    have hnot := List.any_eq_false.mp hany row.1 hkey
    simpa using hnot
  unfold removeTranscriptPaths
  by_cases hpaths : transcriptPaths = []
  · subst hpaths
    exact ⟨data, rfl, by simp, h, fun _ => rfl⟩
  · rw [if_neg hpaths]
    simp only [h, bind, Except.bind]
    by_cases hany : data.docKeys.any (· ∈ transcriptPaths) = true
    · rw [if_pos hany]
      obtain ⟨hkeys, hlens, hfreqs⟩ := read_aligned h
      generalize hkeep : (List.range data.docKeys.length).filter
        (fun index => decide (data.docKeys.getD index "" ∉ transcriptPaths)) = keep
      have hpick : ∀ {α : Type} (f : String × Int × Dict String Int → α),
          pick (data.rows.map f) keep
            = (data.rows.filter fun row => row.1 ∉ transcriptPaths).map f := by
        intro α f
        rw [← hkeep, hkeys, List.length_map]
        exact pick_filter f Prod.fst (fun k => decide (k ∉ transcriptPaths)) data.rows
      have hk : pick data.docKeys keep
          = (data.rows.filter fun row => row.1 ∉ transcriptPaths).map Prod.fst := by
        conv_lhs => rw [hkeys]
        exact hpick _
      have hl : pick data.docLens keep
          = (data.rows.filter fun row => row.1 ∉ transcriptPaths).map (fun r => r.2.1) := by
        conv_lhs => rw [hlens]
        exact hpick _
      have hf : pick data.termFreqs keep
          = (data.rows.filter fun row => row.1 ∉ transcriptPaths).map (fun r => r.2.2) := by
        conv_lhs => rw [hfreqs]
        exact hpick _
      refine ⟨_, rfl, ?_, ?_, fun e => absurd (e.symm.trans hany) Bool.false_ne_true⟩
      · show (pick data.docKeys keep).zip ((pick data.docLens keep).zip (pick data.termFreqs keep))
          = _
        rw [hk, hl, hf]
        have hz := zip_unzip ((data.rows.filter fun row => row.1 ∉ transcriptPaths).map Prod.snd)
        rw [List.map_map, List.map_map] at hz
        simp only [Function.comp_def] at hz
        rw [hz]
        exact zip_unzip _
      · have htok : data.tokenizerId = tokenizerId := by
          unfold read at h
          simp only at h
          split at h
          · cases h
          · rename_i hne
            simpa using hne
        simp [read, htok, hk, hl, hf]
    · rw [if_neg hany]
      have hfalse : data.docKeys.any (· ∈ transcriptPaths) = false := by simpa using hany
      exact ⟨data, rfl, (hsame hfalse).symm, h, fun _ => rfl⟩

/-! ## 5. Every interruption -/

namespace SearchStores

variable {s t : SearchStores M} {paths : List String}

theorem Between.refl (s : SearchStores M) (paths : List String) : s.Between paths s :=
  ⟨.inl rfl, .inl rfl, .inl rfl, .inl rfl⟩

/-- A store that is replaced is replaced by what the removal keeps. -/
def Keeps (s : SearchStores M) (paths : List String) : StoreWrite M → Prop
  | .documents documents => documents = s.keptDocuments paths
  | .content content => content = s.keptContent paths
  | .bm25 data => removeTranscriptPaths s.bm25 paths = .ok (some data)
  | .state indexedFiles => indexedFiles = s.keptState paths

theorem removalWrites_keeps {writes : List (StoreWrite M)}
    (h : s.removalWrites paths = .ok writes) : ∀ w ∈ writes, s.Keeps paths w := by
  unfold removalWrites at h
  split at h
  · cases h; exact nofun
  · split at h
    · cases h; exact nofun
    · split at h
      · cases h
      · rename_i kept hkept
        cases h
        intro w hw
        simp only [List.mem_append, List.mem_ite_nil_right, List.mem_singleton, List.mem_map,
          Option.mem_toList] at hw
        rcases hw with ⟨-, rfl⟩ | ⟨-, rfl⟩ | ⟨-, data, hdata, rfl⟩ | ⟨-, rfl⟩
        · rfl
        · rfl
        · show removeTranscriptPaths s.bm25 paths = .ok (some data)
          rw [hkept, hdata]
        · rfl

theorem Between.next (h : s.Between paths t) {w : StoreWrite M} (hw : s.Keeps paths w) :
    s.Between paths (t.write w) := by
  cases w with
  | documents documents => exact ⟨.inr hw, h.content, h.bm25, h.state⟩
  | content content => exact ⟨h.documents, .inr hw, h.bm25, h.state⟩
  | bm25 data => exact ⟨h.documents, h.content, .inr hw, h.state⟩
  | state indexedFiles => exact ⟨h.documents, h.content, h.bm25, .inr hw⟩

theorem Between.foldl (hs : s.Between paths t) {writes : List (StoreWrite M)}
    (h : ∀ w ∈ writes, s.Keeps paths w) : s.Between paths (writes.foldl write t) := by
  induction writes generalizing t with
  | nil => exact hs
  | cons w rest ih =>
    exact ih (hs.next (h w List.mem_cons_self)) fun v hv => h v (List.mem_cons_of_mem _ hv)

/-- Wherever the removal stops, each store is whole. -/
theorem interrupted_between {writes : List (StoreWrite M)}
    (h : s.removalWrites paths = .ok writes) (k : Nat) :
    s.Between paths (s.interrupted writes k) :=
  (Between.refl s paths).foldl fun w hw => removalWrites_keeps h w (List.mem_of_mem_take hw)

/-- The index of such stores can be read, and its rows are those of the
index or those that stay. -/
theorem Between.index (h : s.Between paths t) (hread : read s.bm25 = .ok s.bm25) :
    read t.bm25 = .ok t.bm25 ∧
      (t.indexRows = s.indexRows
        ∨ t.indexRows = s.indexRows.filter fun row => row.1 ∉ paths) := by
  unfold indexRows
  rcases h.bm25 with heq | hkept
  · rw [heq]
    exact ⟨hread, .inl rfl⟩
  · cases hbm : s.bm25 with
    | none =>
      rw [hbm] at hkept
      have hnone : t.bm25 = none := by
        unfold removeTranscriptPaths at hkept
        split at hkept
        · exact (Except.ok.inj hkept).symm
        · exact (Except.ok.inj hkept).symm
      rw [hnone]
      exact ⟨rfl, .inl rfl⟩
    | some data =>
      rw [hbm] at hkept hread
      obtain ⟨data', hremove, hrows, hread', -⟩ := removeTranscriptPaths_rows hread paths
      have hdata : t.bm25 = some data' := Except.ok.inj (hkept.symm.trans hremove)
      rw [hdata]
      exact ⟨hread', .inr hrows⟩

/-! ## 6. A removal that completes -/

theorem filter_keys (d : Dict String α) (key : String) :
    (d.filter fun k _ => k ∉ paths).get? key = if key ∈ paths then none else d.get? key := by
  rw [Dict.get?_filter]
  by_cases hkey : key ∈ paths
  · cases d.get? key <;> simp [hkey]
  · cases d.get? key <;> simp [hkey]

/-- Without anything to write, nothing had to go. -/
theorem Removed.of_nothing (hread : read s.bm25 = .ok s.bm25)
    (hdocs : (s.keptDocuments paths).length = s.readDocuments.length)
    (hcontent : s.keptContent paths = s.readContent)
    (hindex : s.docKeys.any (· ∈ paths) = false) (hstate : s.keptState paths = s.readState) :
    s.Removed paths s where
  documents := by
    have hall := List.filter_sublist.eq_of_length hdocs
    exact hall.symm
  content key := by
    rw [← filter_keys]
    exact congrArg (·.get? key) hcontent.symm
  index := by
    unfold indexRows
    unfold docKeys at hindex
    cases hbm : s.bm25 with
    | none => rfl
    | some data =>
      rw [hbm] at hread hindex
      obtain ⟨data', -, hrows, -, hsame⟩ := removeTranscriptPaths_rows hread paths
      rw [hsame hindex] at hrows
      exact hrows
  state key := by
    rw [← filter_keys]
    exact congrArg (·.get? key) hstate.symm

/-- What each store holds after all the replacements. -/
theorem removalWrites_completed (hpaths : paths ≠ []) (hexists : s.anyExists = true)
    {kept : IndexFile} (hkept : removeTranscriptPaths s.bm25 paths = .ok kept) :
    ∃ writes, s.removalWrites paths = .ok writes ∧
      (s.completed writes).readDocuments = s.keptDocuments paths ∧
      (s.completed writes).readContent = s.keptContent paths ∧
      (s.completed writes).bm25
        = (if s.docKeys.any (· ∈ paths) then kept.or s.bm25 else s.bm25) ∧
      (s.completed writes).readState = s.keptState paths := by
  -- each store is written, or holds what is kept already
  obtain ⟨ds, hds, hdsEq⟩ : ∃ ds : Option (List (SearchDocumentMeta M)),
      (if (s.keptDocuments paths).length ≠ s.readDocuments.length then
        [StoreWrite.documents (s.keptDocuments paths)] else []).foldl write s
        = { s with documents := ds } ∧ ds.getD [] = s.keptDocuments paths := by
    by_cases hlen : (s.keptDocuments paths).length = s.readDocuments.length
    · exact ⟨s.documents, by simp [hlen], (List.filter_sublist.eq_of_length hlen).symm⟩
    · exact ⟨some (s.keptDocuments paths), by simp [hlen, write], rfl⟩
  obtain ⟨cs, hcs, hcsEq⟩ : ∃ cs : Option (Dict String String), (∀ t : SearchStores M,
      t.content = s.content →
      (if s.keptContent paths ≠ s.readContent then [StoreWrite.content (s.keptContent paths)]
        else []).foldl write t = { t with content := cs }) ∧
      cs.getD .empty = s.keptContent paths := by
    by_cases heq : s.keptContent paths = s.readContent
    · exact ⟨s.content, fun t ht => by simp [heq, ← ht], heq.symm⟩
    · exact ⟨some (s.keptContent paths), fun t _ => by simp [heq, write], rfl⟩
  have hindex : ∀ t : SearchStores M,
      (if s.docKeys.any (· ∈ paths) then kept.toList.map StoreWrite.bm25 else []).foldl write t
        = { t with bm25 := if s.docKeys.any (· ∈ paths) then kept.or t.bm25 else t.bm25 } := by
    intro t
    split
    · cases kept <;> rfl
    · rfl
  obtain ⟨st, hst, hstEq⟩ : ∃ st : Option (Dict String IndexedFileEntry), (∀ t : SearchStores M,
      t.state = s.state →
      (if s.keptState paths ≠ s.readState then [StoreWrite.state (s.keptState paths)]
        else []).foldl write t = { t with state := st }) ∧
      st.getD .empty = s.keptState paths := by
    by_cases heq : s.keptState paths = s.readState
    · exact ⟨s.state, fun t ht => by simp [heq, ← ht], heq.symm⟩
    · exact ⟨some (s.keptState paths), fun t _ => by simp [heq, write], rfl⟩
  unfold removalWrites
  rw [if_neg hpaths, if_neg (by simp [hexists]), hkept]
  refine ⟨_, rfl, ?_⟩
  unfold completed
  rw [List.foldl_append, List.foldl_append, List.foldl_append, hds]
  rw [hcs _ (by rfl), hindex, hst _ (by rfl)]
  exact ⟨hdsEq, hcsEq, rfl, hstEq⟩

/-- **A removal removes exactly the requested keys**, whatever the stores
hold. -/
theorem completed_removed (hread : read s.bm25 = .ok s.bm25) (paths : List String) :
    ∃ writes, s.removalWrites paths = .ok writes ∧ s.Removed paths (s.completed writes) := by
  by_cases hpaths : paths = []
  · subst hpaths
    refine ⟨[], by simp [removalWrites], ?_⟩
    refine Removed.of_nothing hread (by simp [keptDocuments]) ?_ (by simp) ?_
    · simp [keptContent, Dict.filter]
    · simp [keptState, Dict.filter]
  · cases hexists : s.anyExists with
    | false =>
      refine ⟨[], by simp [removalWrites, hexists], ?_⟩
      obtain ⟨documents, content, bm25, state⟩ := s
      simp only [anyExists, Bool.or_eq_false_iff, Option.isSome_eq_false_iff,
        Option.isNone_iff_eq_none] at hexists
      obtain ⟨⟨⟨rfl, rfl⟩, rfl⟩, rfl⟩ := hexists
      exact Removed.of_nothing rfl rfl rfl rfl rfl
    | true =>
      obtain ⟨kept, hkept, hrows⟩ : ∃ kept, removeTranscriptPaths s.bm25 paths = .ok kept ∧
          (∀ t : SearchStores M,
            t.bm25 = (if s.docKeys.any (· ∈ paths) then kept.or s.bm25 else s.bm25) →
            t.indexRows = s.indexRows.filter fun row => row.1 ∉ paths) := by
        unfold indexRows docKeys
        cases hbm : s.bm25 with
        | none =>
          refine ⟨none, by simp [removeTranscriptPaths, hpaths, read, bind, Except.bind, pure,
            Except.pure], fun t ht => ?_⟩
          rw [ht]
          rfl
        | some data =>
          rw [hbm] at hread
          obtain ⟨data', hremove, hrows, -, hsame⟩ := removeTranscriptPaths_rows hread paths
          refine ⟨some data', hremove, fun t ht => ?_⟩
          rw [ht]
          by_cases hany : data.docKeys.any (· ∈ paths) = true
          · rw [if_pos hany]
            exact hrows
          · rw [if_neg hany]
            rw [hsame (by simpa using hany)] at hrows
            exact hrows
      obtain ⟨writes, hwrites, hdocs, hcontent, hbm, hstate⟩ :=
        removalWrites_completed hpaths hexists hkept
      refine ⟨writes, hwrites, hdocs, fun key => ?_, hrows _ hbm, fun key => ?_⟩
      · rw [hcontent, keptContent, filter_keys]
      · rw [hstate, keptState, filter_keys]

/-- Removing what is left to remove. -/
theorem Between.removed (hs : s.Between paths t) (hread : read s.bm25 = .ok s.bm25)
    {u : SearchStores M} (h : t.Removed paths u) : s.Removed paths u where
  documents := by
    rw [h.documents]
    rcases hs.documents with heq | heq
    · rw [heq]
    · rw [heq, keptDocuments, List.filter_filter]
      simp
  content key := by
    rw [h.content]
    rcases hs.content with heq | heq
    · rw [heq]
    · rw [heq, keptContent, filter_keys]
      split <;> rfl
  index := by
    rw [h.index]
    rcases (hs.index hread).2 with heq | heq
    · rw [heq]
    · rw [heq, List.filter_filter]
      simp
  state key := by
    rw [h.state]
    rcases hs.state with heq | heq
    · rw [heq]
    · rw [heq, keptState, filter_keys]
      split <;> rfl

end SearchStores

/-! ## 7. Searches in such stores -/

section

variable {tokenize : String → List String} {strip : String → String} {log : ℚ → ℚ}
variable {s : SearchStores M} {paths : List String} {limit : Nat} {query : String}

/-- What the metadata map holds. -/
theorem metaMap_get? (documents : List (SearchDocumentMeta M)) (key : String) :
    ((metaMap documents).get? key).isSome = documents.any (fun doc => doc.transcriptPath = key) ∧
      ∀ doc, (metaMap documents).get? key = some doc →
        doc ∈ documents ∧ doc.transcriptPath = key := by
  unfold metaMap
  induction documents using List.reverseRecOn with
  | nil => simp
  | append_singleton documents last ih =>
    rw [List.foldl_append]
    simp only [List.foldl_cons, List.foldl_nil, Dict.get?_set, List.any_append, List.any_cons,
      List.any_nil, Bool.or_false]
    by_cases hkey : key = last.transcriptPath
    · rw [if_pos hkey]
      refine ⟨by simp [hkey], fun doc hdoc => ?_⟩
      cases hdoc
      exact ⟨by simp, hkey.symm⟩
    · rw [if_neg hkey]
      have hkey' : ¬ last.transcriptPath = key := fun e => hkey e.symm
      refine ⟨by simp [ih.1, hkey'], fun doc hdoc => ?_⟩
      obtain ⟨hmem, hpath⟩ := ih.2 doc hdoc
      exact ⟨List.mem_append_left _ hmem, hpath⟩

theorem mem_metaMap_keys (documents : List (SearchDocumentMeta M)) (key : String) :
    key ∈ (metaMap documents).entries.map Prod.fst
      ↔ ∃ doc ∈ documents, doc.transcriptPath = key := by
  have hsome : key ∈ (metaMap documents).entries.map Prod.fst
      ↔ ((metaMap documents).get? key).isSome = true := by
    unfold Dict.get?
    rw [Option.isSome_iff_ne_none, ne_eq, Dict.find_eq_none_iff, not_not]
  rw [hsome, (metaMap_get? documents key).1]
  simp

variable (tokenize strip limit query) in
/-- The ranking: nothing for a query without terms, an error for a
document without metadata, else some of the keys. -/
theorem rank_cases (score : List String → Except ScoreError (List ℚ)) (docKeys metadata : List String) :
    (strip query = "" ∨ docKeys = [] ∨ tokenize query = [] →
      rank tokenize strip score docKeys metadata limit query = .ok []) ∧
    (strip query ≠ "" → tokenize query ≠ [] → (∃ key ∈ docKeys, key ∉ metadata) →
      ∃ n, rank tokenize strip score docKeys metadata limit query = .error (.missingMetadata n)) ∧
    ((∀ key ∈ docKeys, key ∈ metadata) →
      (∃ e, rank tokenize strip score docKeys metadata limit query = .error (.arithmetic e)) ∨
      ∃ topK, rank tokenize strip score docKeys metadata limit query = .ok topK ∧
        ∀ r ∈ topK, r.2 ∈ docKeys) := by
  refine ⟨fun h => ?_, fun hblank htokens hmissing => ?_, fun hall => ?_⟩
  · unfold rank
    rcases h with h | h | h
    · rw [if_pos (.inl h)]
    · rw [if_pos (.inr h)]
    · simp [h]
  · obtain ⟨key, hkey, hnot⟩ := hmissing
    have hne : docKeys ≠ [] := List.ne_nil_of_mem hkey
    have hmissing : docKeys.filter (· ∉ metadata) ≠ [] :=
      List.ne_nil_of_mem (List.mem_filter.mpr ⟨hkey, by simpa using hnot⟩)
    unfold rank
    rw [if_neg (by simp [hblank, hne])]
    simp only [if_neg htokens, if_pos hmissing]
    exact ⟨_, rfl⟩
  · have hnone : docKeys.filter (· ∉ metadata) = [] := by
      rw [List.filter_eq_nil_iff]
      intro key hkey
      simpa using hall key hkey
    unfold rank
    split
    · exact .inr ⟨[], rfl, nofun⟩
    · simp only
      split
      · exact .inr ⟨[], rfl, nofun⟩
      · rw [if_neg (not_not.mpr hnone)]
        cases score (tokenize query) with
        | error e => exact .inl ⟨e, rfl⟩
        | ok scores =>
          refine .inr ⟨_, rfl, fun r hr => ?_⟩
          have hmem := List.mem_of_mem_take hr
          rw [List.mem_mergeSort] at hmem
          exact (List.of_mem_zip (List.mem_filter.mp hmem).1).2

variable (tokenize query) in
/-- Collecting the results fails on a missing key only, and each result is
that of a document with metadata. -/
theorem collectResults_cases (data : BM25IndexData)
    (docMetadata : Dict String (SearchDocumentMeta M)) (contentMap : Dict String String) :
    ∀ topK : List (ℚ × String),
      (∃ key, collectResults tokenize data docMetadata contentMap query topK
        = .error (.keyError key)) ∨
      ∃ results, collectResults tokenize data docMetadata contentMap query topK = .ok results ∧
        ∀ r ∈ results, ∃ key doc, docMetadata.get? key = some doc
          ∧ r.transcriptPath = doc.transcriptPath
  | [] => .inr ⟨[], rfl, nofun⟩
  | (score, key) :: rest => by
      have ih := collectResults_cases data docMetadata contentMap rest
      unfold collectResults at ih ⊢
      rw [List.mapM_cons]
      cases hdoc : docMetadata.get? key with
      | none => exact .inl ⟨key, by simp [bind, Except.bind]⟩
      | some doc =>
        cases hcontent : contentMap.get? key with
        | none => exact .inl ⟨key, by simp [bind, Except.bind]⟩
        | some content =>
          rcases ih with ⟨key', herr⟩ | ⟨results, hok, hresults⟩
          · rw [herr]
            exact .inl ⟨key', by simp [bind, Except.bind]⟩
          · rw [hok]
            refine .inr ⟨_, rfl, fun r hr => ?_⟩
            rcases List.mem_cons.mp hr with rfl | hr
            · exact ⟨key, doc, hdoc, rfl⟩
            · exact hresults r hr

/-- Without terms to look for, a search finds nothing. -/
theorem searchProject_blank (hread : read s.bm25 = .ok s.bm25)
    (h : strip query = "" ∨ tokenize query = []) :
    Answerable (searchProject tokenize strip log s limit query) := by
  intro e he
  unfold searchProject at he
  rw [hread] at he
  split at he
  · rename_i hbm
    cases hbm
  · cases he
  · rename_i bm25 hbm
    have hrank := (rank_cases tokenize strip limit query (bm25.bm25.score log) bm25.docKeys
      ((metaMap s.readDocuments).entries.map Prod.fst)).1 (by
        rcases h with h | h
        · exact .inl h
        · exact .inr (.inr h))
    split at he
    · cases he
    · simp only [searchResults, searchFromIndex, hrank, if_pos, Except.map] at he
      cases he

/-- With metadata and content for every key, a search is answered. -/
theorem searchProject_answerable (h : s.Consistent) :
    Answerable (searchProject tokenize strip log s limit query) := by
  intro e he
  unfold searchProject at he
  rw [h.readable] at he
  have hdocKeys : ∀ bm25, s.bm25 = some bm25 → s.docKeys = bm25.docKeys := by
    intro bm25 hbm
    simp [SearchStores.docKeys, hbm]
  split at he
  · rename_i hbm
    cases hbm
  · cases he
  · rename_i bm25 hbm
    have hkeys := hdocKeys bm25 (Except.ok.inj hbm)
    have hrank := (rank_cases tokenize strip limit query (bm25.bm25.score log) bm25.docKeys
      ((metaMap s.readDocuments).entries.map Prod.fst)).2.2 (by
        intro key hkey
        exact (mem_metaMap_keys _ key).mpr (h.metadata key (hkeys ▸ hkey)))
    split at he
    · cases he
    · unfold searchResults searchFromIndex at he
      rcases hrank with ⟨reason, hrank⟩ | ⟨topK, hrank, htop⟩
      · rw [hrank] at he
        cases he
        rfl
      · rw [hrank] at he
        simp only at he
        split at he
        · cases he
        · have hcontent : (topK.map Prod.snd).filter
              (fun k => ((s.readKeys (topK.map Prod.snd)).get? k).isNone) = [] := by
            rw [List.filter_eq_nil_iff]
            intro k hk
            obtain ⟨r, hr, rfl⟩ := List.mem_map.mp hk
            obtain ⟨content, hget⟩ := Option.isSome_iff_exists.mp
              (h.content r.2 (hkeys ▸ htop r hr))
            rw [SearchStores.readKeys, Dict.get?_filter, hget]
            simpa [Option.filter_some] using hk
          rw [if_neg (not_not.mpr hcontent)] at he
          rcases collectResults_cases tokenize query bm25
            (metaMap s.readDocuments) (s.readKeys (topK.map Prod.snd)) topK
            with ⟨key, herr⟩ | ⟨results, hok, -⟩
          · rw [herr] at he
            cases he
            rfl
          · rw [hok] at he
            cases he

/-- A document that lost its metadata is reported as a corrupted index. -/
theorem searchProject_missing (hread : read s.bm25 = .ok s.bm25) (hblank : strip query ≠ "")
    (htokens : tokenize query ≠ [])
    (h : ∃ key ∈ s.docKeys, ∀ doc ∈ s.readDocuments, doc.transcriptPath ≠ key) :
    ¬ Answerable (searchProject tokenize strip log s limit query) := by
  obtain ⟨key, hkey, hmissing⟩ := h
  unfold SearchStores.docKeys at hkey
  cases hbm : s.bm25 with
  | none =>
    rw [hbm] at hkey
    cases hkey
  | some bm25 =>
    rw [hbm] at hkey hread
    obtain ⟨n, hrank⟩ := (rank_cases tokenize strip limit query (bm25.bm25.score log) bm25.docKeys
      ((metaMap s.readDocuments).entries.map Prod.fst)).2.1 hblank htokens ⟨key, hkey, by
        rw [mem_metaMap_keys]
        rintro ⟨doc, hdoc, hpath⟩
        exact hmissing doc hdoc hpath⟩
    have hne : ¬ (s.readDocuments = [] ∧ bm25.docKeys = []) :=
      fun e => List.ne_nil_of_mem hkey e.2
    have herr : searchProject tokenize strip log s limit query
        = .error (.search (.missingMetadata n)) := by
      unfold searchProject
      rw [hbm, hread]
      simp only [if_neg hne, searchResults, searchFromIndex, hrank, Except.map]
    intro hans
    exact Bool.false_ne_true (hans _ herr).symm

/-- A result is a document of the metadata store. -/
theorem searchProject_results {results : List (SearchResult M)}
    (h : searchProject tokenize strip log s limit query = .ok (some results)) :
    ∀ r ∈ results, ∃ doc ∈ s.readDocuments, r.transcriptPath = doc.transcriptPath := by
  unfold searchProject at h
  split at h
  · cases h
  · cases h
  · rename_i bm25 _
    split at h
    · cases h
    · unfold searchResults at h
      split at h
      · cases h
      · rename_i topK _
        split at h
        · cases h
          intro r hr
          cases hr
        · simp only at h
          split at h
          · cases h
          · rcases collectResults_cases tokenize query bm25
              (metaMap s.readDocuments) (s.readKeys (topK.map Prod.snd)) topK
              with ⟨key, herr⟩ | ⟨found, hok, hfound⟩
            · rw [herr] at h
              cases h
            · rw [hok] at h
              cases h
              intro r hr
              obtain ⟨key, doc, hdoc, hpath⟩ := hfound r hr
              exact ⟨doc, ((metaMap_get? s.readDocuments key).2 doc hdoc).1, hpath⟩

/-! ## 8. Searches during a removal -/

/-- The documents are replaced first, if any of them goes. -/
theorem SearchStores.interrupted_one (hs : s.Consistent) {writes : List (StoreWrite M)}
    (h : s.removalWrites paths = .ok writes) {key : String} (hkey : key ∈ s.docKeys)
    (hpath : key ∈ paths) :
    s.interrupted writes 1 = { s with documents := some (s.keptDocuments paths) } := by
  obtain ⟨doc, hdoc, hdocPath⟩ := hs.metadata key hkey
  have hlen : (s.keptDocuments paths).length ≠ s.readDocuments.length := by
    intro heq
    have hall := List.filter_sublist.eq_of_length heq
    have hkept : doc ∈ s.keptDocuments paths := by
      rw [SearchStores.keptDocuments, hall]
      exact hdoc
    have hnot := (List.mem_filter.mp hkept).2
    rw [hdocPath] at hnot
    simp [hpath] at hnot
  have hexists : s.anyExists = true := by
    unfold SearchStores.docKeys at hkey
    cases hbm : s.bm25 with
    | none =>
      rw [hbm] at hkey
      cases hkey
    | some data => simp [SearchStores.anyExists, hbm]
  unfold SearchStores.removalWrites at h
  rw [if_neg (List.ne_nil_of_mem hpath), if_neg (by simp [hexists])] at h
  split at h
  · cases h
  · cases h
    rw [if_pos hlen]
    rfl

/-- If no key of the index goes, the stores stay consistent. -/
theorem SearchStores.Between.consistent {t : SearchStores M} (ht : s.Between paths t)
    (hs : s.Consistent) (hkeys : ∀ key ∈ s.docKeys, key ∉ paths) : t.Consistent := by
  have hdocKeys : t.docKeys = s.docKeys := by
    unfold SearchStores.docKeys
    rcases ht.bm25 with heq | hkept
    · rw [heq]
    · have hread := hs.readable
      cases hbm : s.bm25 with
      | none =>
        rw [hbm] at hkept
        unfold removeTranscriptPaths at hkept
        split at hkept
        · rw [← Except.ok.inj hkept]
        · rw [← Except.ok.inj hkept]
      | some data =>
        rw [hbm] at hkept hread
        obtain ⟨data', hremove, -, -, hsame⟩ := removeTranscriptPaths_rows hread paths
        have hnone : data.docKeys.any (· ∈ paths) = false := by
          rw [List.any_eq_false]
          intro key hkey
          have hnot := hkeys key (by simpa [SearchStores.docKeys, hbm] using hkey)
          simpa using hnot
        rw [← Except.ok.inj (hremove.symm.trans hkept), hsame hnone]
  refine ⟨(ht.index hs.readable).1, fun key hkey => ?_, fun key hkey => ?_⟩
  · rw [hdocKeys] at hkey
    obtain ⟨doc, hdoc, hpath⟩ := hs.metadata key hkey
    refine ⟨doc, ?_, hpath⟩
    rcases ht.documents with heq | heq
    · rw [heq]
      exact hdoc
    · rw [heq, SearchStores.keptDocuments, List.mem_filter]
      exact ⟨hdoc, by simpa [hpath] using hkeys key hkey⟩
  · rw [hdocKeys] at hkey
    have hcontent := hs.content key hkey
    rcases ht.content with heq | heq
    · rw [heq]
      exact hcontent
    · rw [heq, SearchStores.keptContent, SearchStores.filter_keys, if_neg (hkeys key hkey)]
      exact hcontent

/-- A search can be answered wherever the removal stops, it finds no
removed document once the removal is complete, and removing again from
any of these states removes exactly the requested keys. -/
def SearchableThroughout (tokenize : String → List String) (strip : String → String)
    (log : ℚ → ℚ) (s : SearchStores M) (paths : List String) (limit : Nat) (query : String) :
    Prop :=
  ∃ writes, s.removalWrites paths = .ok writes ∧
    (∀ k, Answerable (searchProject tokenize strip log (s.interrupted writes k) limit query)) ∧
    (∀ results,
      searchProject tokenize strip log (s.completed writes) limit query = .ok (some results) →
      ∀ r ∈ results, r.transcriptPath ∉ paths) ∧
    ∀ k, ∃ writes', (s.interrupted writes k).removalWrites paths = .ok writes' ∧
      s.Removed paths ((s.interrupted writes k).completed writes')

/-- **When a search stays answerable during a removal.** It does exactly
when it has nothing to look for or no removed key is in the index: the
metadata of the removed documents go before the index does. That a
completed removal hides the documents, and that it can be repeated from
wherever it stopped, holds in every case. -/
theorem removal_answerable_iff (tokenize : String → List String) (strip : String → String)
    (log : ℚ → ℚ) (s : SearchStores M) (hs : s.Consistent) (paths : List String) (limit : Nat)
    (query : String) :
    SearchableThroughout tokenize strip log s paths limit query
      ↔ (strip query = "" ∨ tokenize query = [] ∨ ∀ key ∈ s.docKeys, key ∉ paths) := by
  obtain ⟨writes, hwrites, hremoved⟩ := SearchStores.completed_removed hs.readable paths
  constructor
  · rintro ⟨writes', hwrites', hans, -, -⟩
    obtain rfl : writes' = writes := Except.ok.inj (hwrites'.symm.trans hwrites)
    by_contra hcond
    rw [not_or, not_or] at hcond
    obtain ⟨hblank, htokens, hkeys⟩ := hcond
    push Not at hkeys
    obtain ⟨key, hkey, hpath⟩ := hkeys
    have hone := hans 1
    rw [SearchStores.interrupted_one hs hwrites hkey hpath] at hone
    refine searchProject_missing (s := { s with documents := some (s.keptDocuments paths) })
      hs.readable hblank htokens ⟨key, hkey, fun doc hdoc heq => ?_⟩ hone
    have hnot := (List.mem_filter.mp hdoc).2
    rw [heq] at hnot
    simp [hpath] at hnot
  · intro hcond
    refine ⟨writes, hwrites, fun k => ?_, fun results hresults r hr => ?_, fun k => ?_⟩
    · have hbetween := SearchStores.interrupted_between hwrites k
      rcases hcond with hblank | htokens | hkeys
      · exact searchProject_blank (hbetween.index hs.readable).1 (.inl hblank)
      · exact searchProject_blank (hbetween.index hs.readable).1 (.inr htokens)
      · exact searchProject_answerable (hbetween.consistent hs hkeys)
    · obtain ⟨doc, hdoc, hpath⟩ := searchProject_results hresults r hr
      rw [hremoved.documents] at hdoc
      have hnot := (List.mem_filter.mp hdoc).2
      rw [hpath]
      simpa using hnot
    · have hbetween := SearchStores.interrupted_between hwrites k
      obtain ⟨writes', hwrites', hremoved'⟩ :=
        SearchStores.completed_removed (hbetween.index hs.readable).1 paths
      exact ⟨writes', hwrites', hbetween.removed hs.readable hremoved'⟩

/-- The stores with one transcript in them. -/
def oneTranscript : SearchStores Unit where
  documents := some [⟨"/p/a.jsonl", "work", "s1", "2026-10-20T00:00:00Z", ()⟩]
  content := some (Dict.empty.set "/p/a.jsonl" "hello")
  bm25 := some {
    docKeys := ["/p/a.jsonl"]
    docLens := [1]
    termFreqs := [Dict.empty.set "hello" 1]
    docFreqs := Dict.empty.set "hello" 1
    avgdl := 1 }
  state := some (Dict.empty.set "/p/a.jsonl" ⟨0, 5, "2026-10-20T00:00:00Z"⟩)

theorem oneTranscript_consistent : oneTranscript.Consistent where
  readable := rfl
  metadata := by
    intro key hkey
    rw [List.mem_singleton.mp hkey]
    exact ⟨_, List.mem_singleton_self _, rfl⟩
  content := by
    intro key hkey
    rw [List.mem_singleton.mp hkey]
    rfl

/-- Between the first replacement and the third, a search for a word
reports the index as corrupted. -/
theorem oneTranscript_unanswerable :
    ¬ SearchableThroughout (fun query => [query]) (fun query => query) (fun x => x) oneTranscript
      ["/p/a.jsonl"] 10 "hello" := by
  rintro ⟨writes, hwrites, hans, -, -⟩
  have hone := hans 1
  have hpath : "/p/a.jsonl" ∈ oneTranscript.docKeys := List.mem_singleton_self _
  rw [SearchStores.interrupted_one oneTranscript_consistent hwrites hpath
    (List.mem_singleton_self _)] at hone
  refine searchProject_missing
    (s := { oneTranscript with documents := some (oneTranscript.keptDocuments ["/p/a.jsonl"]) })
    oneTranscript_consistent.readable (by decide) (by decide)
    ⟨"/p/a.jsonl", List.mem_singleton_self _, fun doc hdoc => ?_⟩ hone
  have hnil : oneTranscript.keptDocuments ["/p/a.jsonl"] = [] := by decide
  have hnone : doc ∈ oneTranscript.keptDocuments ["/p/a.jsonl"] := hdoc
  rw [hnil] at hnone
  cases hnone

/-- Another transcript can be removed without any effect on searches. -/
theorem removal_answerable_iff_other :
    SearchableThroughout (fun query => [query]) (fun query => query) (fun x => x) oneTranscript
      ["/p/b.jsonl"] 10 "hello" :=
  (removal_answerable_iff _ _ _ oneTranscript oneTranscript_consistent _ _ _).mpr
    (.inr (.inr (by decide)))

end

end MultiForge.Search
