/-
MultiForge.Session.IndexRuns — creations, deletions, readers and writers of
the index together.

Readers look for rows without a manifest outside of the lock, and prune them
under it. What they looked at can change in between: a row can be gone, or
the name can be another session's. `Onward` is all that is left of it, and
it is enough: a bare row stays bare until it is gone.

`indexed_always` is what every state of every run keeps, wherever faults
strike. `rowsOwn_between` is what holds whenever the lock is free, when
faults are kept out of the states in which a row stands over a manifest that
is not its own. `residue_swept` says that the rows of killed creations go.
-/
import MultiForge.Session.PublicationRuns

namespace MultiForge.Session

open Locked

variable {host : Host} {strict : Prop} {s₀ s s' : World}

/-! ## 1. Pruning -/

/-- An index without some rows that have no manifest. -/
structure Pruned (s : World) (latest index : IndexData) : Prop where
  sub : ∀ key row, index.get? key = some row → latest.get? key = some row
  bare : ∀ key row, latest.get? key = some row → index.get? key = none →
    s.manifest (row.loc key) = none

/-- The rows under these keys are pruned where they can be. -/
def Swept (s : World) (stale : List ScopedKey) (latest index : IndexData) : Prop :=
  ∀ key ∈ stale, ∀ row, latest.get? key = some row → s.manifest (row.loc key) = none →
    s.inventory (row.loc key) = none → index.get? key = none

/-- What the loop of a prune ends with. -/
structure EachDone (s : World) (stale : List ScopedKey) (latest : IndexData)
    (r : Except SessionError (IndexData × Bool)) (s' : World) : Prop where
  same : s' = s
  pruned : ∀ index changed, r = .ok (index, changed) → Pruned s latest index ∧
    Swept s stale latest index ∧ (changed = false → index = latest)
  fault : ∀ e, r = .error e → e = .fault

theorem EachDone.raised {stale : List ScopedKey} {latest : IndexData} :
    EachDone s stale latest (.error .fault) s :=
  ⟨rfl, fun _ _ h => (by cases h), fun _ h => (by cases h; rfl)⟩

theorem EachDone.nil {latest : IndexData} : EachDone s [] latest (.ok (latest, false)) s := by
  refine ⟨rfl, fun index changed h => ?_, fun _ h => (by cases h)⟩
  cases h
  refine ⟨⟨fun _ _ hr => hr, fun key row hr hn => ?_⟩, fun _ hk => absurd hk List.not_mem_nil,
    fun _ => rfl⟩
  rw [hr] at hn
  cases hn

/-- A row that cannot be pruned stays. -/
theorem EachDone.skip {key : ScopedKey} {rest : List ScopedKey} {latest : IndexData}
    {r : Except SessionError (IndexData × Bool)} (h : EachDone s rest latest r s')
    (hkeep : ∀ row, latest.get? key = some row → s.manifest (row.loc key) = none →
      s.inventory (row.loc key) ≠ none) :
    EachDone s (key :: rest) latest r s' := by
  refine ⟨h.same, fun index changed hr => ?_, h.fault⟩
  obtain ⟨hp, hsw, hsame⟩ := h.pruned index changed hr
  refine ⟨hp, fun k hk row hrow hm hi => ?_, hsame⟩
  rcases List.mem_cons.mp hk with rfl | hk
  · exact absurd hi (hkeep row hrow hm)
  · exact hsw k hk row hrow hm hi

/-- A row that has no manifest goes. -/
theorem EachDone.drop {key : ScopedKey} {rest : List ScopedKey} {latest index : IndexData}
    {row : Row} {changed : Bool} (h : EachDone s rest (latest.erase key) (.ok (index, changed)) s')
    (hget : latest.get? key = some row) (hm : s.manifest (row.loc key) = none) :
    EachDone s (key :: rest) latest (.ok (index, true)) s' := by
  obtain ⟨hp, hsw, -⟩ := h.pruned index changed rfl
  have hnone : index.get? key = none := by
    cases hg : index.get? key with
    | none => rfl
    | some r =>
      have hold := hp.sub key r hg
      rw [Dict.get?_erase, if_pos rfl] at hold
      cases hold
  have hother : ∀ {k r}, k ≠ key → latest.get? k = some r → (latest.erase key).get? k = some r :=
    fun hk hr => by rw [Dict.get?_erase, if_neg hk]; exact hr
  refine ⟨h.same, fun index' changed' hr => ?_, fun _ h => (by cases h)⟩
  cases hr
  refine ⟨⟨fun k r hr => ?_, fun k r hr hn => ?_⟩, fun k hk r hr hrm hri => ?_, fun hf => by cases hf⟩
  · have hold := hp.sub k r hr
    rw [Dict.get?_erase] at hold
    split at hold
    · cases hold
    · exact hold
  · by_cases hk : k = key
    · subst hk
      cases hget.symm.trans hr
      exact hm
    · exact hp.bare k r (hother hk hr) hn
  · by_cases hkk : k = key
    · rw [hkk]
      exact hnone
    · exact hsw k ((List.mem_cons.mp hk).resolve_left hkk) r (hother hkk hr) hrm hri

/-- Pruning changes nothing on disk until it writes. -/
theorem pruneEach_keeps (h : Settled host strict s₀ s) (stale : List ScopedKey)
    (latest : IndexData) :
    Keeps host strict s₀ (EachDone s stale latest) (pruneEach (Sound host strict) stale latest) s := by
  induction stale generalizing latest with
  | nil => exact keeps_pure .nil
  | cons key rest ih =>
    unfold pruneEach
    cases hget : latest.get? key with
    | none =>
      refine (ih latest).mono fun r s' hr => hr.skip fun row hrow => ?_
      rw [hget] at hrow
      cases hrow
    | some row =>
      dsimp only
      refine keeps_read h.indexed (fun _ => .raised) ?_
      refine keeps_read h.indexed (fun _ => .raised) ?_
      cases hm : s.manifest (row.loc key) with
      | some m =>
        refine (ih latest).mono fun r s' hr => hr.skip fun row' hrow' hnone => ?_
        cases hget.symm.trans hrow'
        rw [hm] at hnone
        cases hnone
      | none =>
        cases hi : s.inventory (row.loc key) with
        | some plan =>
          refine (ih latest).mono fun r s' hr => hr.skip fun row' hrow' _ hnone => ?_
          cases hget.symm.trans hrow'
          rw [hi] at hnone
          cases hnone
        | none =>
          refine keeps_bind ((ih (latest.erase key)).mono fun r s' hr => ?_)
          cases r with
          | error e =>
            obtain rfl := hr.same
            obtain rfl := hr.fault e rfl
            exact .raised
          | ok pruned => exact keeps_pure (hr.drop hget hm)

/-- Rows that are bare in `s` and of an earlier transaction are not in `s'`. -/
def Cleared (host : Host) (s : World) (loc : Loc) (s' : World) : Prop :=
  ∀ b, b < s.releases → Dead host s loc b → Absent host s' loc b

/-- A bare row has no manifest and no inventory. -/
theorem Dead.unused {loc : Loc} {b : Nat} (h : Dead host s loc b) (hs : Indexed host s₀ s)
    {row : Row} (hrow : RowAt host s loc row) (hb : row.birth = b) :
    s.manifest loc = none ∧ s.inventory loc = none :=
  ⟨(h row hrow hb).2, hs.unowned loc row hrow (h row hrow hb).1⟩

/-- Writing a pruned index. -/
theorem Settled.prune (h : Settled host strict s₀ s) (index : IndexData)
    (hp : Pruned s s.index index) :
    Settled host strict s₀ { s with index := index } ∧ Onward host s { s with index := index } := by
  have hfiles : SameFiles s { s with index := index } := ⟨rfl, rfl, rfl, rfl, rfl⟩
  obtain ⟨hind, hstep, hrows⟩ := h.indexed.dropRows hfiles hp.sub (fun key row m hrow hnone hm => by
      rw [hp.bare key row hrow hnone] at hm
      cases hm)
  exact ⟨⟨hind, h.sound.imp hrows⟩, hstep⟩

/-- A prune removes the bare rows under its keys. -/
theorem pruneStale_keeps {stale : List ScopedKey} (h : Settled host strict s₀ s) :
    Keeps host strict s₀ (fun r s' => Settled host strict s₀ s' ∧ (r ≠ .error .fault →
        ∀ loc, host.scopedKey loc ∈ stale → Cleared host s loc s'))
      (pruneStale (Sound host strict) stale) s := by
  refine keeps_read h.indexed (fun _ => ⟨h, fun hr => absurd rfl hr⟩) ?_
  refine keeps_bind ((pruneEach_keeps h stale s.index).mono fun r s' hr => ?_)
  obtain rfl := hr.same
  cases r with
  | error e =>
    obtain rfl := hr.fault e rfl
    exact ⟨h, fun hr => absurd rfl hr⟩
  | ok pruned =>
    obtain ⟨hp, hsw, hsame⟩ := hr.pruned pruned.1 pruned.2 rfl
    obtain ⟨hset, hstep⟩ := h.prune _ hp
    have hclear : ∀ loc, host.scopedKey loc ∈ stale →
        Cleared host s' loc { s' with index := pruned.1 } := by
      rintro loc hk b - hd row hrow hb
      have hold : RowAt host s' loc row := ⟨hp.sub _ _ hrow.1, hrow.2⟩
      obtain ⟨hm, hi⟩ := hd.unused h.indexed hold hb
      rw [← hold.loc_eq] at hm hi
      have hnone := hsw _ hk row hold.1 hm hi
      rw [show pruned.1.get? (host.scopedKey loc) = some row from hrow.1] at hnone
      cases hnone
    show Keeps host strict s₀ _ (ite _ _ _) s'
    split
    · exact keeps_write h.indexed hstep (fun _ => ⟨h, fun hr => absurd rfl hr⟩)
        (fun _ => ⟨hset, fun hr => absurd rfl hr⟩) (keeps_pure ⟨hset, fun _ => hclear⟩)
    · rename_i hc
      refine keeps_pure ⟨h, fun _ loc hk => ?_⟩
      have heq := hsame (Bool.eq_false_iff.mpr hc)
      have := hclear loc hk
      rw [heq] at this
      exact this

/-- What `get_session` ends with for a session of a given root. -/
def GetDone {α : Type} (host : Host) (strict : Prop) (s₀ s : World) (name : String)
    (root : Option String) (r : Except SessionError α) (s' : World) : Prop :=
  Settled host strict s₀ s' ∧ (r ≠ .error .fault → ∀ path, root = some path →
    Cleared host s ⟨path, name⟩ s')

/-- No row is bare over a manifest or an inventory. -/
theorem cleared_of_live {loc : Loc} (hs : Indexed host s₀ s)
    (hlive : s.manifest loc ≠ none ∨ s.inventory loc ≠ none) : Cleared host s loc s := by
  intro b _ hd row hrow hb
  obtain ⟨hm, hi⟩ := hd.unused hs hrow hb
  exact hlive.elim (absurd hm) (absurd hi)

/-- Where a lookup finds a row, no other row is there. -/
theorem cleared_of_row {loc : Loc} {row : Row} (hget : s.index.get? (host.scopedKey loc) = some row)
    (hclear : row.loc (host.scopedKey loc) = loc → Cleared host s loc s) : Cleared host s loc s := by
  intro b hb hd row' hrow'
  obtain rfl : row' = row := Option.some.inj (hrow'.1.symm.trans hget)
  exact hclear hrow'.loc_eq b hb hd row' hrow'

theorem cleared_of_none {loc : Loc} (hget : s.index.get? (host.scopedKey loc) = none) (s₁ : World) :
    Cleared host s₁ loc s := by
  intro b _ _ row hrow
  rw [hrow.1] at hget
  cases hget

/-- The last phase of `get_session` removes the row if it is bare. -/
theorem getLatest_keeps {name : String} {root : Option String} (h : Settled host strict s₀ s) :
    Keeps host strict s₀ (GetDone host strict s₀ s name root)
      (getLatest host (Sound host strict) name root) s := by
  have hfault : GetDone (α := Row) host strict s₀ s name root (.error .fault) s :=
    ⟨h, fun hr => absurd rfl hr⟩
  refine keeps_read h.indexed (fun _ => hfault) (keeps_ofExcept (fun found hfound => ?_)
    (fun e he => ⟨h, fun _ path hpath => ?_⟩))
  · have hrow := findRow_ok hfound
    have hkey : ∀ path, root = some path → found.1 = host.scopedKey ⟨path, name⟩ := by
      rintro path rfl
      rw [findRow_scoped] at hfound
      cases hget : s.index.get? (host.scopedKey ⟨path, name⟩) with
      | none => simp [hget] at hfound
      | some row =>
        simp only [hget, Except.ok.injEq] at hfound
        rw [← hfound]
    have hlive : s.manifest (found.2.loc found.1) ≠ none ∨
        s.inventory (found.2.loc found.1) ≠ none →
        ∀ path, root = some path → Cleared host s ⟨path, name⟩ s := by
      intro hl path hpath
      rw [hkey path hpath] at hrow hl
      exact cleared_of_row hrow fun hloc => cleared_of_live h.indexed (hloc ▸ hl)
    refine keeps_read h.indexed (fun _ => hfault) ?_
    cases hi : s.inventory (found.2.loc found.1) with
    | some plan =>
      exact keeps_pure ⟨h, fun _ => hlive (.inr (by rw [hi]; exact Option.some_ne_none plan))⟩
    | none =>
      refine keeps_read h.indexed (fun _ => hfault) ?_
      cases hm : s.manifest (found.2.loc found.1) with
      | some m =>
        exact keeps_pure ⟨h, fun _ => hlive (.inl (by rw [hm]; exact Option.some_ne_none m))⟩
      | none =>
        obtain ⟨hset, hstep⟩ := h.prune (s.index.erase found.1)
          ⟨fun k r hr => by
            rw [Dict.get?_erase] at hr
            split at hr
            · cases hr
            · exact hr,
          fun k r hr hn => by
            rw [Dict.get?_erase] at hn
            split at hn
            · rename_i hk
              subst hk
              cases hrow.symm.trans hr
              exact hm
            · rw [hr] at hn
              cases hn⟩
        refine keeps_write h.indexed hstep (fun _ => hfault) (fun _ => ⟨hset, fun hr => absurd rfl hr⟩)
          (keeps_throw ⟨hset, fun _ path hpath => cleared_of_none ?_ s⟩)
        show (s.index.erase found.1).get? _ = none
        rw [Dict.get?_erase, if_pos (hkey path hpath).symm]
  · subst hpath
    rw [findRow_scoped] at he
    cases hget : s.index.get? (host.scopedKey ⟨path, name⟩) with
    | none => exact cleared_of_none hget s
    | some row => simp [hget] at he

/-! ## 2. Outside of the lock -/

theorem Cleared.later {loc : Loc} {s'' : World} (h : Cleared host s loc s') (hs : Onward host s s')
    (hs' : Onward host s' s'') : Cleared host s loc s'' :=
  fun b hb hd => hs'.absent loc b (Nat.lt_of_lt_of_le hb hs.releases) (h b hb hd)

theorem Cleared.earlier {loc : Loc} {s'' : World} (h : Cleared host s' loc s'')
    (hs : Onward host s s') : Cleared host s loc s'' :=
  fun b hb hd => h b (Nat.lt_of_lt_of_le hb hs.releases) (hs.dead loc b hb hd)

/-- What is gone in a state on the way is gone. -/
theorem Cleared.between {loc : Loc} {s'' : World} (h : Cleared host s' loc s') (hs : Onward host s s')
    (hs' : Onward host s' s'') : Cleared host s loc s'' :=
  (h.earlier hs).later hs hs'

/-- A job keeps to `publication` and ends with `post`. -/
abbrev Ends {α : Type} (host : Host) (strict : Prop) (s₀ : World)
    (post : Except SessionError α → World → Prop) (x : Job α) (s : World) : Prop :=
  Program.Meets (publication host strict s₀) post x s

section Rules

variable {α β : Type} {post : Except SessionError α → World → Prop}

theorem ends_pure {a : α} (h : ∀ s₁, Onward host s s₁ → Indexed host s₀ s₁ → post (.ok a) s₁) :
    Ends host strict s₀ post (pure a) s := h

/-- A transaction of a job. -/
theorem ends_locked {x : Txn α}
    (h : ∀ s₁, Onward host s s₁ → Settled host strict s₀ s₁ →
      Keeps host strict s₀ (fun r s₂ => Settled host strict s₀ s₂ ∧ (Onward host s₁ s₂ →
        ∀ s₃, Onward host s₂ s₃ → Indexed host s₀ s₃ → post r s₃)) x s₁) :
    Ends host strict s₀ post (Locked.Job.locked x) s := by
  intro s₁ hs hinv hfree
  have hx := (h s₁ hs ⟨hinv, hfree.1⟩).onward (D := publication host strict s₀)
    (Onward.refl host s₁)
  refine hx.mono fun r s₂ hr => ⟨hr.1.1.indexed.closed hr.1.1.sound, fun s₃ h₃ hinv₃ => ?_⟩
  exact hr.1.2 hr.2 s₃ (((publication host strict s₀).release_step s₂).trans h₃) hinv₃

theorem ends_read {g : World → β} {f : β → Job α}
    (h : ∀ s₁, Onward host s s₁ → Indexed host s₀ s₁ → Ends host strict s₀ post (f (g s₁)) s₁) :
    Ends host strict s₀ post (Locked.Job.read g >>= f) s :=
  Locked.Job.Meets.read h

/-- One job after another; `mid` is what the first ends with. -/
theorem ends_bind {x : Job β} {f : β → Job α} (mid : Except SessionError β → World → Prop)
    (hinv : Indexed host s₀ s) (hx : Ends host strict s₀ mid x s)
    (hok : ∀ b s₁, Onward host s s₁ → Indexed host s₀ s₁ → mid (.ok b) s₁ →
      Ends host strict s₀ post (f b) s₁)
    (herr : ∀ e s₁, Onward host s s₁ → mid (.error e) s₁ →
      ∀ s₂, Onward host s₁ s₂ → Indexed host s₀ s₂ → post (.error e) s₂) :
    Ends host strict s₀ post (x >>= f) s := by
  refine Locked.Job.Meets.bind hinv ((hx.onward (D := publication host strict s₀)
    (Onward.refl host s)).mono fun r s₁ hr => ?_)
  cases r with
  | ok b => exact hok b s₁ hr.2.1 hr.2.2 hr.1
  | error e => exact herr e s₁ hr.2.1 hr.1

theorem ends_discard {x : Job β} {post : Except SessionError Unit → World → Prop}
    (hinv : Indexed host s₀ s)
    (h : Ends host strict s₀ (fun r s₁ => Onward host s s₁ → ∀ s₂, Onward host s₁ s₂ →
      Indexed host s₀ s₂ → post (r.map fun _ => ()) s₂) x s) :
    Ends host strict s₀ post (discard x) s := by
  refine Program.Meets.bind (D := publication host strict s₀) hinv ((h.onward
    (D := publication host strict s₀) (Onward.refl host s)).mono fun r s₁ hr => ?_)
  cases r with
  | ok b => exact hr.1 hr.2.1
  | error e => exact hr.1 hr.2.1

theorem ends_checkName {name : String} {f : Unit → Job α}
    (hbad : ∀ s₁, Onward host s s₁ → Indexed host s₀ s₁ → post (.error .invalidName) s₁)
    (h : Ends host strict s₀ post (f ()) s) :
    Ends host strict s₀ post (checkName host name >>= f) s := by
  unfold checkName
  split
  · exact h
  · exact hbad

end Rules

/-- Rows that were there in `s` and are not among the stale keys are not bare. -/
def Looked (host : Host) (s : World) (entries : List (ScopedKey × Row)) (stale : List ScopedKey)
    (s' : World) : Prop :=
  ∀ e ∈ entries, ∀ loc, e.2.loc e.1 = loc → e.1 ∈ stale ∨ Cleared host s loc s'

/-- The probes of `list_sessions` see every bare row that stays. -/
theorem staleKeys_ends (entries : List (ScopedKey × Row)) (hinv : Indexed host s₀ s) :
    Ends host strict s₀ (fun r s' => ∃ stale, r = .ok stale ∧ Looked host s entries stale s')
      (staleKeys entries) s := by
  induction entries generalizing s with
  | nil => exact ends_pure fun _ _ _ => ⟨[], rfl, fun e he => absurd he List.not_mem_nil⟩
  | cons e rest ih =>
    refine ends_read fun s₁ h₁ hinv₁ => ends_read fun s₂ h₂ hinv₂ => ?_
    refine ends_bind _ hinv₂ (ih hinv₂) (fun stale s₃ h₃ _ hmid => ?_) (fun err s₃ _ hmid => ?_)
    · obtain ⟨_, hok, hlook⟩ := hmid
      cases hok
      refine ends_pure fun s₄ h₄ hinv₄ => ⟨_, rfl, fun e' he' loc hloc => ?_⟩
      have hlive : (s₁.manifest loc ≠ none ∨ s₂.inventory loc ≠ none) → Cleared host s loc s₄ := by
        rintro (hm | hi)
        · exact (cleared_of_live hinv₁ (.inl hm)).between h₁ (h₂.trans (h₃.trans h₄))
        · exact (cleared_of_live hinv₂ (.inr hi)).between (h₁.trans h₂) (h₃.trans h₄)
      rcases List.mem_cons.mp he' with rfl | hmem
      · subst hloc
        split
        · rename_i hthere
          refine .inr (hlive ?_)
          rcases Bool.or_eq_true_iff.mp hthere with hm | hi
          · exact .inl (Option.isSome_iff_ne_none.mp hm)
          · exact .inr (Option.isSome_iff_ne_none.mp hi)
        · exact .inl (List.mem_cons_self ..)
      · rcases hlook e' hmem loc hloc with hin | hclear
        · left
          split
          · exact hin
          · exact List.mem_cons_of_mem _ hin
        · exact .inr ((hclear.earlier (h₁.trans h₂)).later (h₁.trans (h₂.trans h₃)) h₄)
    · obtain ⟨_, h, -⟩ := hmid
      cases h

/-- What a transaction that only looks ends with. -/
theorem ends_look {α β : Type} {post : Except SessionError α → World → Prop} {x : IndexData → Txn β}
    {f : β → Job α} (hinv : Indexed host s₀ s)
    (hx : ∀ s₁, Onward host s s₁ → Indexed host s₀ s₁ →
      (∃ b, x s₁.index = pure b ∧ ∀ s₂, Onward host s₁ s₂ → Indexed host s₀ s₂ →
        Ends host strict s₀ post (f b) s₂) ∨
      ∃ e, x s₁.index = throw e ∧
        ∀ s₂, Onward host s₁ s₂ → Indexed host s₀ s₂ → post (.error e) s₂)
    (hfault : ∀ s₁, Onward host s s₁ → Indexed host s₀ s₁ → post (.error .fault) s₁) :
    Ends host strict s₀ post
      (Locked.Job.locked (readIndex (Sound host strict) >>= x) >>= f) s := by
  refine ends_bind (fun r s₂ => (∀ b, r = .ok b → Indexed host s₀ s₂ →
      Ends host strict s₀ post (f b) s₂) ∧
      ∀ e, r = .error e → ∀ s₃, Onward host s₂ s₃ → Indexed host s₀ s₃ → post (.error e) s₃) hinv
    (ends_locked fun s₁ h₁ hset => ?_) (fun b s₁ _ hinv₁ hmid => hmid.1 b rfl hinv₁)
    (fun e s₁ _ hmid => hmid.2 e rfl)
  refine keeps_read hset.indexed (fun _ => ⟨hset, fun _ s₃ h₃ _ => ⟨fun _ h => (by cases h), ?_⟩⟩) ?_
  · rintro e h s₄ h₄ hinv₄
    cases h
    exact hfault s₄ (h₁.trans (h₃.trans h₄)) hinv₄
  · rcases hx s₁ h₁ hset.indexed with ⟨b, heq, hok⟩ | ⟨e, heq, herr⟩
    · rw [heq]
      refine keeps_pure ⟨hset, fun _ s₃ h₃ _ => ⟨fun b' hb hinv₃ => ?_, fun _ h => (by cases h)⟩⟩
      cases hb
      exact hok s₃ h₃ hinv₃
    · rw [heq]
      refine keeps_throw ⟨hset, fun _ s₃ h₃ _ => ⟨fun _ h => (by cases h), ?_⟩⟩
      rintro e' h s₄ h₄ hinv₄
      cases h
      exact herr s₄ (h₃.trans h₄) hinv₄

/-- `list_sessions` leaves no row bare that was so when it began. -/
theorem listSessions_ends (hinv : Indexed host s₀ s) :
    Ends host strict s₀ (fun r s' => r ≠ .error .fault → ∀ loc, Cleared host s loc s')
      (listSessions (Sound host strict)) s := by
  unfold listSessions
  rw [← bind_pure (readIndex (Sound host strict))]
  refine ends_look hinv (fun s₁ h₁ hinv₁ => .inl ⟨s₁.index, rfl, fun s₂ h₂ hinv₂ => ?_⟩)
    (fun _ _ _ hr => absurd rfl hr)
  refine ends_bind _ hinv₂ (staleKeys_ends s₁.index.entries hinv₂) (fun stale s₃ h₃ _ hmid => ?_)
    (fun e s₃ _ hmid => ?_)
  · obtain ⟨_, hok, hlook⟩ := hmid
    cases hok
    have hseen : ∀ loc, host.scopedKey loc ∈ stale ∨ Cleared host s loc s₃ := by
      intro loc
      cases hget : s₁.index.get? (host.scopedKey loc) with
      | none => exact .inr ((cleared_of_none hget s).later h₁ (h₂.trans h₃))
      | some row =>
        by_cases hloc : row.loc (host.scopedKey loc) = loc
        · rcases hlook _ (Dict.get?_eq_some_iff.mp hget) loc hloc with hin | hclear
          · exact .inl hin
          · exact .inr (hclear.earlier (h₁.trans h₂))
        · refine .inr ?_
          have hclear : Cleared host s₁ loc s₁ := cleared_of_row hget fun h => absurd h hloc
          exact hclear.between h₁ (h₂.trans h₃)
    split
    · rename_i hempty
      refine ends_pure fun s₄ h₄ _ _ loc => ?_
      rcases hseen loc with hin | hclear
      · rw [List.isEmpty_iff.mp hempty] at hin
        exact absurd hin List.not_mem_nil
      · exact hclear.later (h₁.trans (h₂.trans h₃)) h₄
    · refine ends_locked fun s₄ h₄ hset => (pruneStale_keeps hset).mono fun r s₅ hr =>
        ⟨hr.1, fun h₅ s₆ h₆ _ hne loc => ?_⟩
      have hbefore := h₁.trans (h₂.trans (h₃.trans h₄))
      rcases hseen loc with hin | hclear
      · exact ((hr.2 hne loc hin).earlier hbefore).later (hbefore.trans h₅) h₆
      · exact hclear.later (h₁.trans (h₂.trans h₃)) (h₄.trans (h₅.trans h₆))
  · obtain ⟨_, h, -⟩ := hmid
    cases h

/-- `get_session` leaves the row of its name in its root bare no more. -/
theorem getSession_ends {name : String} {root : Option String} (hinv : Indexed host s₀ s) :
    Ends host strict s₀ (fun r s' => r ≠ .error .fault → r ≠ .error .invalidName →
        ∀ path, root = some path → Cleared host s ⟨path, name⟩ s')
      (getSession host (Sound host strict) name root) s := by
  refine ends_checkName (fun _ _ _ _ hbad => absurd rfl hbad) (ends_look hinv (fun s₁ h₁ hinv₁ => ?_)
    (fun _ _ _ hr => absurd rfl hr))
  cases hfound : findRow host s₁.index name root with
  | error e =>
    refine .inr ⟨e, rfl, fun s₂ h₂ _ _ _ path hpath => ?_⟩
    subst hpath
    rw [findRow_scoped] at hfound
    cases hget : s₁.index.get? (host.scopedKey ⟨path, name⟩) with
    | none => exact (cleared_of_none hget s).later h₁ h₂
    | some row => simp [hget] at hfound
  | ok found =>
    refine .inl ⟨found, rfl, fun s₂ h₂ _ => ends_read fun s₃ h₃ hinv₃ =>
      ends_read fun s₄ h₄ hinv₄ => ?_⟩
    have hrow := findRow_ok hfound
    split
    · rename_i hthere
      refine ends_pure fun s₅ h₅ _ _ _ path hpath => ?_
      subst hpath
      have hkey : found.1 = host.scopedKey ⟨path, name⟩ := by
        rw [findRow_scoped] at hfound
        cases hget : s₁.index.get? (host.scopedKey ⟨path, name⟩) with
        | none => simp [hget] at hfound
        | some row =>
          simp only [hget, Except.ok.injEq] at hfound
          rw [← hfound]
      rw [hkey] at hrow hthere
      by_cases hloc : found.2.loc (host.scopedKey ⟨path, name⟩) = ⟨path, name⟩
      · rw [hloc] at hthere
        rcases Bool.or_eq_true_iff.mp hthere with hm | hi
        · exact (cleared_of_live hinv₃ (.inl (Option.isSome_iff_ne_none.mp hm))).between
            (h₁.trans (h₂.trans h₃)) (h₄.trans h₅)
        · exact (cleared_of_live hinv₄ (.inr (Option.isSome_iff_ne_none.mp hi))).between
            (h₁.trans (h₂.trans (h₃.trans h₄))) h₅
      · exact (cleared_of_row hrow fun h => absurd h hloc).between h₁ (h₂.trans (h₃.trans (h₄.trans h₅)))
    · refine ends_locked fun s₅ h₅ hset => (getLatest_keeps hset).mono fun r s₆ hr =>
        ⟨hr.1, fun h₆ s₇ h₇ _ hne _ path hpath => ?_⟩
      have hbefore := h₁.trans (h₂.trans (h₃.trans (h₄.trans h₅)))
      exact ((hr.2 hne path hpath).earlier hbefore).later (hbefore.trans h₆) h₇

/-! ## 3. Every operation -/

/-- What an operation that comes to its end, without a fault, has done about
the rows of killed creations. -/
def Promise (host : Host) (op : Operation) (s : World) (r : Except SessionError Unit)
    (s' : World) : Prop :=
  match op with
  | .create req => r ≠ .error .fault → r ≠ .error .invalidName → r ≠ .error .uuidAlreadyBound →
      Cleared host s req.loc s'
  | .list => r ≠ .error .fault → ∀ loc, Cleared host s loc s'
  | .get name root => r ≠ .error .fault → r ≠ .error .invalidName →
      ∀ path, root = some path → Cleared host s ⟨path, name⟩ s'
  | .delete .. | .update .. | .setUuid .. | .setCodexThread .. | .write .. => True

theorem map_ne_error {α : Type} {r : Except SessionError α} {e : SessionError}
    (h : (r.map fun _ => ()) ≠ .error e) : r ≠ .error e := by
  rintro rfl
  exact h rfl

/-- A transaction that promises nothing of rows. -/
theorem ends_settles {α : Type} {x : Txn α} (hinv : Indexed host s₀ s)
    (hx : ∀ s₁, Settled host strict s₀ s₁ → Settles host strict s₀ x s₁) :
    Ends host strict s₀ (fun _ _ => True) (discard (Locked.Job.locked x)) s :=
  ends_discard hinv (ends_locked fun s₁ _ hset =>
    (hx s₁ hset).mono fun _ _ hr => ⟨hr, fun _ _ _ _ _ _ _ _ => trivial⟩)

/-- **Every operation keeps to `publication`** and does what it promises. -/
theorem Operation.ends (op : Operation) (hinv : Indexed host s₀ s) :
    Ends host strict s₀ (Promise host op s) (op.job host (Sound host strict)) s := by
  cases op with
  | create req =>
    refine ends_checkName (fun _ _ _ _ hbad => absurd rfl hbad) (ends_discard hinv
      (ends_locked fun s₁ h₁ hset => (createSessionTxn_keeps hset).mono fun r s₂ hr =>
        ⟨hr.1, fun h₂ s₃ h₃ _ _ s₄ h₄ _ hne _ hbound => ?_⟩))
    have hclear : Cleared host s₁ req.loc s₂ := fun b hb hd =>
      hr.2 b hb hd (map_ne_error hne) (map_ne_error hbound)
    exact (hclear.earlier h₁).later (h₁.trans h₂) (h₃.trans h₄)
  | delete name root expected cleanup =>
    exact ends_checkName (fun _ _ _ => trivial)
      (ends_settles hinv fun _ hset => deleteSessionTxn_keeps hset)
  | list =>
    refine ends_discard hinv ((listSessions_ends hinv).mono ?_)
    intro r s₁ hr h₁ s₂ h₂ _ hne loc
    exact (hr (map_ne_error hne) loc).later h₁ h₂
  | get name root =>
    refine ends_discard hinv ((getSession_ends hinv).mono ?_)
    intro r s₁ hr h₁ s₂ h₂ _ hne hbad path hpath
    exact (hr (map_ne_error hne) (map_ne_error hbad) path hpath).later h₁ h₂
  | update name now root =>
    exact ends_checkName (fun _ _ _ => trivial)
      (ends_settles hinv fun _ hset => updateSession_keeps hset)
  | setUuid name claudeSessionId root =>
    exact ends_settles hinv fun _ hset => updateUuid_keeps hset
  | setCodexThread name threadId root expected =>
    exact ends_settles hinv fun _ hset => updateCodexThread_keeps hset
  | write name root expected required output =>
    exact ends_checkName (fun _ _ _ => trivial)
      (ends_settles hinv fun _ hset => runSessionInstanceTxn_keeps hset)

variable (host s₀) in
/-- A state that runs can start from: no row is of a transaction to come. -/
structure Started : Prop where
  indexed : Indexed host s₀ s₀
  earlier : ∀ key row, s₀.index.get? key = some row → row.birth < s₀.releases

theorem indexSystem_keeps :
    (indexSystem host (Sound host strict)).Keeps (publication host strict s₀) (Promise host) :=
  ⟨rfl, rfl, fun op _ hinv => op.ends hinv⟩

/-! ## 4. A run, to try the theorems on -/

/-- A read goes through. -/
theorem runs_read {α β : Type} {faulty : World → Prop} {e : SessionError} {g : World → α}
    {f : α → Txn β} {r : Except SessionError β} (h : Section.Runs (f (g s)) s r s') :
    Section.Runs (Locked.Txn.read faulty e g >>= f : Txn β) s r s' :=
  Locked.Txn.Runs.attempt (a := g s) ⟨rfl, rfl⟩ h

/-- A write goes through. -/
theorem runs_write {β : Type} {faulty : World → Prop} {e : SessionError} {g : World → World}
    {f : Unit → Txn β} {r : Except SessionError β} (h : Section.Runs (f ()) (g s) r s') :
    Section.Runs (Locked.Txn.write faulty e g >>= f : Txn β) s r s' :=
  Locked.Txn.Runs.attempt (a := ()) rfl h

def listingHost : Host where
  digest root := root
  under _ _ := false
  validName _ := true

/-- A creation was killed before it wrote its manifest, and another manifest
was never listed. -/
def residueWorld : World where
  index := Dict.empty.set ⟨"planner", "/forge"⟩ { root := "/forge", birth := 0 }
  sessionDir loc := loc.name = "orphan"
  manifest loc := if loc.name = "orphan" then some ⟨"", none⟩ else none
  releases := 1

theorem residueWorld_get? {key : ScopedKey} {row : Row}
    (h : residueWorld.index.get? key = some row) :
    key = ⟨"planner", "/forge"⟩ ∧ row = { root := "/forge", birth := 0 } := by
  rw [show residueWorld.index.get? key = _ from Dict.get?_set ..] at h
  split at h
  · cases h
    exact ⟨by assumption, rfl⟩
  · cases h

theorem residueWorld_started : Started listingHost residueWorld where
  indexed := {
    keyed := fun key row h => by
      obtain ⟨rfl, rfl⟩ := residueWorld_get? h
      rfl
    birth := fun key row h => by
      obtain ⟨rfl, rfl⟩ := residueWorld_get? h
      exact Nat.zero_le _
    written := fun loc m b hm hb => by
      simp only [residueWorld] at hm
      split at hm
      · cases hm
        cases hb
      · cases hm
    owned := fun loc row t m hrow ht => by
      obtain ⟨-, rfl⟩ := residueWorld_get? hrow.1
      cases ht
    unowned := fun _ _ _ _ => rfl
    kept := fun _ _ h => h.1
    housed := fun loc hm => by
      simp only [residueWorld] at hm ⊢
      split at hm
      · exact decide_eq_true (by assumption)
      · exact absurd rfl hm }
  earlier key row h := by
    obtain ⟨rfl, rfl⟩ := residueWorld_get? h
    exact Nat.zero_lt_one

theorem residueWorld_rowsOwn : RowsOwn listingHost residueWorld := by
  intro loc row m hrow hm
  have hname : loc.name = "planner" := congrArg ScopedKey.name (residueWorld_get? hrow.1).1
  simp [residueWorld, hname] at hm

/-- A listing finds the row without a manifest, and prunes it. -/
theorem residueWorld_listed (faulty : World → Prop) :
    ∃ c : Config Unit Operation World (Except SessionError Unit),
      Reachable (indexSystem listingHost faulty) residueWorld c ∧ c.lock = none ∧
      c.tasks () = some ⟨.list, residueWorld, .free (.ret (.ok ()))⟩ := by
  have hinit : Reachable (π := Unit) (indexSystem listingHost faulty) residueWorld
      ⟨residueWorld, none, fun _ => none⟩ := .init
  have hc₀ := hinit.step (.start (p := ()) .list rfl)
  -- the locked read
  have hread : Section.Runs (readIndex faulty) residueWorld (.ok residueWorld.index)
      residueWorld :=
    .act (b := .ok residueWorld.index) (.inl ⟨_, rfl, rfl, rfl⟩) .ret
  obtain ⟨c₁, hc₁⟩ := Reachable.section hc₀ (p := ()) Config.update_own rfl hread
  -- the probes
  have hprobes : Program.Goes
      (discard (staleKeys residueWorld.index.entries >>= fun stale =>
        if stale.isEmpty then pure residueWorld.index
        else Locked.Job.locked (pruneStale faulty stale)) : Job Unit)
      (released residueWorld)
      (discard (Locked.Job.locked (pruneStale faulty [⟨"planner", "/forge"⟩])) : Job Unit)
      (released residueWorld) :=
    .act (b := .ok false) ⟨rfl, rfl⟩ (.act (b := .ok false) ⟨rfl, rfl⟩ .refl)
  obtain ⟨c₂, hc₂⟩ := Reachable.goes hprobes hc₁.reachable hc₁.lock hc₁.own hc₁.shared
  -- the prune
  have heach : Section.Runs (pruneEach faulty [⟨"planner", "/forge"⟩] residueWorld.index)
      (released residueWorld) (.ok (residueWorld.index.erase ⟨"planner", "/forge"⟩, true))
      (released residueWorld) := runs_read (runs_read .ret)
  obtain ⟨s', hprune⟩ : ∃ s', Section.Runs (pruneStale faulty [⟨"planner", "/forge"⟩])
      (released residueWorld) (.ok (residueWorld.index.erase ⟨"planner", "/forge"⟩)) s' :=
    ⟨_, runs_read (Locked.Txn.Runs.bind heach (runs_write .ret))⟩
  rw [← hc₂.shared] at hprune
  obtain ⟨c₃, hc₃⟩ := Reachable.section hc₂.reachable hc₂.own hc₂.lock hprune
  exact ⟨c₃, hc₃.reachable, hc₃.lock, hc₃.own⟩

/-! ## 5. Every run -/

variable {π : Type} [DecidableEq π]
  {c : Config π Operation World (Except SessionError Unit)}

variable (host) in
theorem sound_false : Sound host False = fun _ => True :=
  funext fun _ => propext ⟨fun _ => trivial, fun _ => False.elim⟩

/-- **Sessions are published whole**: in every state of every run, in every
interleaving and wherever faults and kills strike, a manifest that a
creation wrote has its row, a row with an instance id is its manifest's own,
and manifests that had no row to begin with are as they were. -/
theorem indexed_always (hstart : Started host s₀)
    (h : Reachable (indexSystem host fun _ => True) s₀ c) : Indexed host s₀ c.shared := by
  rw [← sound_false host] at h
  exact (h.ok indexSystem_keeps hstart.indexed ⟨fun hf => hf.elim, hstart.earlier⟩).inv

theorem indexed_always_listed :
    ∃ c : Config Unit Operation World (Except SessionError Unit),
      Reachable (indexSystem listingHost fun _ => True) residueWorld c ∧
      Indexed listingHost residueWorld c.shared := by
  obtain ⟨c, hc, -, -⟩ := residueWorld_listed fun _ => True
  exact ⟨c, hc, indexed_always residueWorld_started hc⟩

/-- A creation that is refused because of a manifest in its place leaves no
row over it: whenever the lock is free, every row is its manifest's own. -/
theorem rowsOwn_between (hstart : Started host s₀) (hrows : RowsOwn host s₀)
    (h : Reachable (indexSystem host (RowsOwn host)) s₀ c) (hfree : c.lock = none) :
    RowsOwn host c.shared := by
  have htrue : Sound host True = RowsOwn host :=
    funext fun _ => propext ⟨fun hs => hs trivial, fun hs _ => hs⟩
  rw [← htrue] at h
  exact (h.ok indexSystem_keeps hstart.indexed ⟨fun _ => hrows, hstart.earlier⟩).free hfree |>.1 trivial

theorem rowsOwn_between_listed :
    ∃ c : Config Unit Operation World (Except SessionError Unit),
      Reachable (indexSystem listingHost (RowsOwn listingHost)) residueWorld c ∧
      RowsOwn listingHost c.shared := by
  obtain ⟨c, hc, hfree, -⟩ := residueWorld_listed (RowsOwn listingHost)
  exact ⟨c, hc, rowsOwn_between residueWorld_started residueWorld_rowsOwn hc hfree⟩

/-- **The rows of killed creations are swept** by what comes next: a creation
of the name, a lookup of it or a listing that comes to its end without a
fault leaves none of the rows that were bare when it began. -/
theorem residue_swept (hstart : Started host s₀)
    (h : Reachable (indexSystem host fun _ => True) s₀ c) {p : π} {op : Operation} {start : World}
    {r : Except SessionError Unit} (ht : c.tasks p = some ⟨op, start, .free (.ret r)⟩) :
    Promise host op start r c.shared := by
  rw [← sound_false host] at h
  exact (h.ok indexSystem_keeps hstart.indexed ⟨fun hf => hf.elim, hstart.earlier⟩).result ht

/-- The row of the killed creation is gone after a listing. -/
theorem residue_swept_listed :
    ∃ c : Config Unit Operation World (Except SessionError Unit),
      Reachable (indexSystem listingHost fun _ => True) residueWorld c ∧
      ∀ row, RowAt listingHost c.shared ⟨"/forge", "planner"⟩ row → row.birth ≠ 0 := by
  obtain ⟨c, hc, -, ht⟩ := residueWorld_listed fun _ => True
  refine ⟨c, hc, residue_swept residueWorld_started hc ht (by rintro ⟨⟩) _ 0 Nat.zero_lt_one ?_⟩
  intro row hrow _
  obtain ⟨-, rfl⟩ := residueWorld_get? hrow.1
  exact ⟨rfl, rfl⟩

end MultiForge.Session
