import Telemetry.Engine.Collect

/-!
# Opening operations

An operation on a state either yields a result or fails, and leaves a state in both cases.  The
lemmas here take an operation apart into its pieces, one for each way in which operations are put
together.  They are stated once for every kind of state, so that they serve transactions on a store
and the stages of a collection alike.
-/

namespace Telemetry

theorem exists_of_isOk {ε α : Type} {x : Except ε α} (h : x.isOk = true) : ∃ a, x = .ok a := by
  cases x with
  | error e => cases h
  | ok a => exact ⟨a, rfl⟩

section Outcomes

variable {σ α β : Type} {s s' : σ}

/-- What becomes of an operation that is begun in a state. -/
def outcome (t : ExceptT Failure (StateM σ) α) (s : σ) : Except Failure α × σ := t s

/-- The operation succeeds with a result and leaves a state. -/
def Yields (t : ExceptT Failure (StateM σ) α) (s : σ) (a : α) (s' : σ) : Prop :=
  outcome t s = (.ok a, s')

/-- The operation fails and leaves a state. -/
def Fails (t : ExceptT Failure (StateM σ) α) (s : σ) (e : Failure) (s' : σ) : Prop :=
  outcome t s = (.error e, s')

theorem outcome_bind (t : ExceptT Failure (StateM σ) α) (f : α → ExceptT Failure (StateM σ) β)
    (s : σ) :
    outcome (t >>= f) s = match outcome t s with
      | (.ok a, s₁) => outcome (f a) s₁
      | (.error e, s₁) => (.error e, s₁) := by
  change (ExceptT.bind t f : ExceptT Failure (StateM σ) β) s = _
  unfold outcome ExceptT.bind ExceptT.mk
  change (match t s with | (r, s₁) => ExceptT.bindCont f r s₁) = _
  rcases t s with ⟨e | a, s₁⟩ <;> rfl

theorem yields_pure {a b : α} :
    Yields (pure a : ExceptT Failure (StateM σ) α) s b s' ↔ a = b ∧ s = s' := by
  unfold Yields
  change (Except.ok a, s) = (Except.ok b, s') ↔ _
  simp

theorem fails_pure {a : α} {e : Failure} :
    Fails (pure a : ExceptT Failure (StateM σ) α) s e s' ↔ False := by
  unfold Fails
  change (Except.ok a, s) = (Except.error e, s') ↔ _
  simp

theorem yields_bind {t : ExceptT Failure (StateM σ) α} {f : α → ExceptT Failure (StateM σ) β}
    {b : β} :
    Yields (t >>= f) s b s' ↔ ∃ a s₁, Yields t s a s₁ ∧ Yields (f a) s₁ b s' := by
  unfold Yields
  rw [outcome_bind]
  rcases outcome t s with ⟨e | a, s₁⟩ <;> simp [and_assoc]

theorem fails_bind {t : ExceptT Failure (StateM σ) α} {f : α → ExceptT Failure (StateM σ) β}
    {e : Failure} :
    Fails (t >>= f) s e s' ↔
      Fails t s e s' ∨ ∃ a s₁, Yields t s a s₁ ∧ Fails (f a) s₁ e s' := by
  unfold Fails Yields
  rw [outcome_bind]
  rcases outcome t s with ⟨e | a, s₁⟩ <;> simp [and_assoc]

theorem yields_map {t : ExceptT Failure (StateM σ) α} {f : α → β} {b : β} :
    Yields (f <$> t) s b s' ↔ ∃ a, Yields t s a s' ∧ f a = b := by
  rw [map_eq_pure_bind, yields_bind]
  constructor
  · rintro ⟨a, s₁, ha, hb⟩
    obtain ⟨rfl, rfl⟩ := yields_pure.1 hb
    exact ⟨a, ha, rfl⟩
  · rintro ⟨a, ha, rfl⟩
    exact ⟨a, s', ha, yields_pure.2 ⟨rfl, rfl⟩⟩

theorem fails_map {t : ExceptT Failure (StateM σ) α} {f : α → β} {e : Failure} :
    Fails (f <$> t) s e s' ↔ Fails t s e s' := by
  rw [map_eq_pure_bind, fails_bind]
  constructor
  · rintro (h | ⟨a, s₁, -, h⟩)
    · exact h
    · exact (fails_pure.1 h).elim
  · exact .inl

theorem yields_get {a : σ} :
    Yields (get : ExceptT Failure (StateM σ) σ) s a s' ↔ s = a ∧ s = s' := by
  unfold Yields
  change (Except.ok s, s) = (Except.ok a, s') ↔ _
  simp

theorem yields_set {s₁ : σ} {u : PUnit} :
    Yields (set s₁ : ExceptT Failure (StateM σ) PUnit) s u s' ↔ s₁ = s' := by
  unfold Yields
  change (Except.ok PUnit.unit, s₁) = (Except.ok u, s') ↔ _
  simp

theorem outcome_tryCatch (t : ExceptT Failure (StateM σ) α)
    (f : Failure → ExceptT Failure (StateM σ) α) (s : σ) :
    outcome (tryCatch t f) s = match outcome t s with
      | (.ok a, s₁) => (.ok a, s₁)
      | (.error e, s₁) => outcome (f e) s₁ := by
  change (ExceptT.tryCatch t f : ExceptT Failure (StateM σ) α) s = _
  have hbind : ∀ (x : StateM σ (Except Failure α))
      (g : Except Failure α → StateM σ (Except Failure α)), (x >>= g) s = g (x s).1 (x s).2 :=
    fun _ _ => rfl
  unfold outcome ExceptT.tryCatch ExceptT.mk
  rw [hbind]
  rcases t s with ⟨e | a, s₁⟩ <;> rfl

end Outcomes

/-! ### Transactions -/

namespace Transaction

variable {α : Type} {s s' : Store} {a : α} {e : Failure}

theorem yields_query {f : Store → Except Failure α} :
    Yields (query f) s a s' ↔ f s = .ok a ∧ s = s' := by
  unfold Yields
  change (f s, s) = (Except.ok a, s') ↔ _
  simp

theorem yields_update {f : Store → Except Failure (α × Store)} :
    Yields (update f) s a s' ↔ f s = .ok (a, s') := by
  unfold Yields outcome update
  rcases f s with e | ⟨b, s₁⟩
  · change (Except.error e, s) = (Except.ok a, s') ↔ _
    simp
  · change (Except.ok b, s₁) = (Except.ok a, s') ↔ _
    simp

theorem yields_change {f : Store → Except Failure Store} {u : Unit} :
    Yields (change f) s u s' ↔ f s = .ok s' := by
  unfold change
  rw [yields_update]
  rcases f s with e | s₁ <;> simp [Except.map]

theorem yields_useKept {q : KeptQuery} {tables : List TableName} {preparing reading : StorageStep}
    {u : Unit} :
    Yields (useKept q tables preparing reading) s u s' ↔
      tables.any s.damage.dropped.contains = false ∧ s.keep q = s' := by
  unfold Yields outcome useKept
  by_cases hgone : tables.any s.damage.dropped.contains = true
  · rw [if_pos hgone]
    split
    · simp [hgone]
    · simp [hgone]
  · rw [if_neg hgone]
    simp only [Bool.not_eq_true] at hgone
    simp [hgone]

end Transaction

/-! ### Parts of a collection -/

namespace Collecting

variable {α : Type} {p p' : Progress} {a : α} {e : Failure}

theorem outcome_run (t : Transaction α) (p : Progress) :
    outcome (run t) p = ((outcome t p.store).1, { p with store := (outcome t p.store).2 }) := rfl

theorem yields_run {t : Transaction α} :
    Yields (run t) p a p' ↔ ∃ s, Yields t p.store a s ∧ { p with store := s } = p' := by
  unfold Yields
  rw [outcome_run]
  rcases outcome t p.store with ⟨r, s⟩
  simp [and_assoc]

theorem yields_ask {f : Store → Except Failure α} :
    Yields (ask f) p a p' ↔ f p.store = .ok a ∧ p = p' := by
  unfold ask
  rw [yields_run]
  constructor
  · rintro ⟨s, h, rfl⟩
    obtain ⟨ha, rfl⟩ := Transaction.yields_query.1 h
    exact ⟨ha, rfl⟩
  · rintro ⟨ha, rfl⟩
    exact ⟨p.store, Transaction.yields_query.2 ⟨ha, rfl⟩, rfl⟩

theorem outcome_withFiles (f : Files → Except Failure α × Files) (p : Progress) :
    outcome (withFiles f) p = ((f p.files).1, { p with files := (f p.files).2 }) := rfl

theorem yields_withFiles {f : Files → Except Failure α × Files} :
    Yields (withFiles f) p a p' ↔
      (f p.files).1 = .ok a ∧ { p with files := (f p.files).2 } = p' := by
  unfold Yields
  rw [outcome_withFiles]
  simp

end Collecting

end Telemetry
