import Telemetry.Proofs.Looks

/-!
# Operations that only the store can fail

A store that may be written, and was not damaged, refuses a change only where it has no id left.  Of
most operations this is the one way to fail: unless the store fails, they succeed, and one says with
what; and where it fails, one of its tables has used up its ids.  What is said of a part is used for
the whole by one lemma for each way in which operations are put together.
-/

namespace Telemetry

/-- It is the store that failed. -/
def Failure.InStore (e : Failure) : Prop := ∃ message, e = .storage message

instance : DecidablePred Failure.InStore
  | .storage message => isTrue ⟨message, rfl⟩
  | .serialization _ | .settings _ | .validation _ _ | .internal _ | .io _ =>
    isFalse (by rintro ⟨message, ⟨⟩⟩)

theorem StorageStep.inStore (step : StorageStep) : step.failure.InStore := ⟨_, rfl⟩

/-- A table has no id left. -/
def Store.IsFull (s : Store) : Prop :=
  s.reports.isFull = true ∨ s.metrics.isFull = true ∨ s.values.isFull = true

/-- A state with a store in it. -/
class HasStore (σ : Type) where
  store : σ → Store

instance : HasStore Store := ⟨id⟩

instance : HasStore Progress := ⟨Progress.store⟩

variable {σ α β : Type} {s : σ} {P : α → σ → Prop}

/-! ### Operations that succeed -/

/-- The operation succeeds, with a result and a state as they should be. -/
def Attains (t : ExceptT Failure (StateM σ) α) (s : σ) (P : α → σ → Prop) : Prop :=
  ∃ a s', Yields t s a s' ∧ P a s'

theorem attains_pure {a : α} (h : P a s) : Attains (pure a) s P :=
  ⟨a, s, yields_pure.2 ⟨rfl, rfl⟩, h⟩

theorem attains_bind {t : ExceptT Failure (StateM σ) α} {f : α → ExceptT Failure (StateM σ) β}
    {Q : β → σ → Prop} (h : Attains t s fun a s₁ => Attains (f a) s₁ Q) :
    Attains (t >>= f) s Q := by
  obtain ⟨a, s₁, ha, b, s', hb, hQ⟩ := h
  exact ⟨b, s', yields_bind.2 ⟨a, s₁, ha, hb⟩, hQ⟩

theorem Attains.imp {t : ExceptT Failure (StateM σ) α} {Q : α → σ → Prop} (h : Attains t s P)
    (hPQ : ∀ a s', P a s' → Q a s') : Attains t s Q := by
  obtain ⟨a, s', ha, hP⟩ := h
  exact ⟨a, s', ha, hPQ a s' hP⟩

/-! ### Operations that succeed unless the store fails -/

section Settling

variable [HasStore σ]

/-- The store has failed, in a state in which a table has no id left. -/
def OutOfIds (e : Failure) (s : σ) : Prop := e.InStore ∧ (HasStore.store s).IsFull

/-- Unless the store fails, the operation succeeds, with a result and a state as they should be. -/
def Settles (t : ExceptT Failure (StateM σ) α) (s : σ) (P : α → σ → Prop) : Prop :=
  (∀ a s', Yields t s a s' → P a s') ∧ ∀ e s', Fails t s e s' → OutOfIds e s'

theorem settles_of_yields {t : ExceptT Failure (StateM σ) α} {a : α} {s' : σ}
    (h : Yields t s a s') (hP : P a s') : Settles t s P := by
  constructor
  · intro b s₁ h'
    obtain ⟨⟨⟩, rfl⟩ := Prod.mk.inj (h.symm.trans h')
    exact hP
  · intro e s₁ h'
    cases (Prod.mk.inj (h.symm.trans h')).1

theorem settles_pure {a : α} (h : P a s) : Settles (pure a) s P :=
  settles_of_yields (yields_pure.2 ⟨rfl, rfl⟩) h

theorem settles_bind {t : ExceptT Failure (StateM σ) α} {f : α → ExceptT Failure (StateM σ) β}
    {Q : β → σ → Prop} (h : Settles t s fun a s₁ => Settles (f a) s₁ Q) :
    Settles (t >>= f) s Q := by
  constructor
  · intro b s' hb
    obtain ⟨a, s₁, ha, hb⟩ := yields_bind.1 hb
    exact (h.1 a s₁ ha).1 b s' hb
  · intro e s' he
    rcases fails_bind.1 he with he | ⟨a, s₁, ha, he⟩
    · exact h.2 e s' he
    · exact (h.1 a s₁ ha).2 e s' he

theorem Settles.imp {t : ExceptT Failure (StateM σ) α} {Q : α → σ → Prop} (h : Settles t s P)
    (hPQ : ∀ a s', P a s' → Q a s') : Settles t s Q :=
  ⟨fun a s' ha => hPQ a s' (h.1 a s' ha), h.2⟩

/-- That the operation has succeeded may be used as well. -/
theorem Settles.and_yields {t : ExceptT Failure (StateM σ) α} (h : Settles t s P) :
    Settles t s fun a s' => P a s' ∧ Yields t s a s' :=
  ⟨fun a s' ha => ⟨h.1 a s' ha, ha⟩, h.2⟩

/-- An operation either settles as it should, or it is the store that fails. -/
theorem Settles.cases {t : ExceptT Failure (StateM σ) α} (h : Settles t s P) :
    (∃ a s', Yields t s a s' ∧ P a s') ∨ ∃ e s', Fails t s e s' ∧ OutOfIds e s' := by
  rcases ht : outcome t s with ⟨e | a, s'⟩
  · exact .inr ⟨e, s', ht, h.2 e s' ht⟩
  · exact .inl ⟨a, s', ht, h.1 a s' ht⟩

theorem Attains.settles {t : ExceptT Failure (StateM σ) α} (h : Attains t s P) : Settles t s P := by
  obtain ⟨a, s', ha, hP⟩ := h
  exact settles_of_yields ha hP

/-- Unless the store fails, the operation ends with a result, be that a failure, and a state as they
should be. -/
def Ends (t : ExceptT Failure (StateM σ) α) (s : σ) (R : Except Failure α → σ → Prop) : Prop :=
  (∃ e s', Fails t s e s' ∧ OutOfIds e s') ∨ R (outcome t s).1 (outcome t s).2

theorem ends_of_outcome {t : ExceptT Failure (StateM σ) α} {R : Except Failure α → σ → Prop}
    {r : Except Failure α} {s' : σ} (h : outcome t s = (r, s')) (hR : R r s') : Ends t s R := by
  refine .inr ?_
  rw [h]
  exact hR

theorem ends_pure {a : α} {R : Except Failure α → σ → Prop} (h : R (.ok a) s) :
    Ends (pure a) s R := ends_of_outcome (yields_pure.2 ⟨rfl, rfl⟩) h

theorem Ends.imp {t : ExceptT Failure (StateM σ) α} {R Q : Except Failure α → σ → Prop}
    (h : Ends t s R) (hRQ : ∀ r s', R r s' → Q r s') : Ends t s Q :=
  Or.imp_right (hRQ _ _) h

theorem ends_of_settles_bind {t : ExceptT Failure (StateM σ) α}
    {f : α → ExceptT Failure (StateM σ) β} {R : Except Failure β → σ → Prop}
    (h : Settles t s fun a s₁ => Ends (f a) s₁ R) : Ends (t >>= f) s R := by
  rcases h.cases with ⟨a, s₁, ha, hends⟩ | ⟨e, s', hfails, he⟩
  · have ha' : outcome t s = (.ok a, s₁) := ha
    rcases hends with ⟨e, s', hfails, he⟩ | hends
    · exact .inl ⟨e, s', fails_bind.2 (.inr ⟨a, s₁, ha, hfails⟩), he⟩
    · refine .inr ?_
      rw [outcome_bind, ha']
      exact hends
  · exact .inl ⟨e, s', fails_bind.2 (.inl hfails), he⟩

theorem ends_of_attains_bind {t : ExceptT Failure (StateM σ) α}
    {f : α → ExceptT Failure (StateM σ) β} {R : Except Failure β → σ → Prop}
    (h : Attains t s fun a s₁ => Ends (f a) s₁ R) : Ends (t >>= f) s R :=
  ends_of_settles_bind h.settles

/-- A failure of the first part is one of the whole. -/
theorem ends_bind {t : ExceptT Failure (StateM σ) α} {f : α → ExceptT Failure (StateM σ) β}
    {R : Except Failure α → σ → Prop} {Q : Except Failure β → σ → Prop} (h : Ends t s R)
    (herror : ∀ e s₁, R (.error e) s₁ → Q (.error e) s₁)
    (hok : ∀ a s₁, R (.ok a) s₁ → Ends (f a) s₁ Q) : Ends (t >>= f) s Q := by
  rcases h with ⟨e, s', hfails, he⟩ | hR
  · exact .inl ⟨e, s', fails_bind.2 (.inl hfails), he⟩
  rcases ht : outcome t s with ⟨e | a, s₁⟩
  · rw [ht] at hR
    refine .inr ?_
    rw [outcome_bind, ht]
    exact herror e s₁ hR
  · rw [ht] at hR
    rcases hok a s₁ hR with ⟨e, s', hfails, he⟩ | hends
    · exact .inl ⟨e, s', fails_bind.2 (.inr ⟨a, s₁, ht, hfails⟩), he⟩
    · refine .inr ?_
      rw [outcome_bind, ht]
      exact hends

end Settling

/-! ### Steps of the store -/

/-- If the step fails, then because a table has no id left. -/
def Store.FailsFull {α : Type} (s : Store) (x : Except Failure α) : Prop :=
  ∀ e, x = .error e → OutOfIds e s

namespace Store

variable {α β : Type} {s : Store}

theorem failsFull_ok (a : α) : s.FailsFull (.ok a) := by
  intro e h
  cases h

theorem failsFull_bind {x : Except Failure α} {f : α → Except Failure β} (hx : s.FailsFull x)
    (hf : ∀ a, x = .ok a → s.FailsFull (f a)) : s.FailsFull (x >>= f) := by
  rcases x with e | a
  · intro e' h
    cases h
    exact hx e rfl
  · exact hf a rfl

theorem failsFull_needId [Identified α] {t : Table α} (ht : t.isFull = true → s.IsFull)
    (step : StorageStep) : s.FailsFull (needId t step) := by
  intro e h
  unfold needId at h
  split at h
  · next hfull =>
    cases h
    exact ⟨step.inStore, ht hfull⟩
  · cases h

/-- Every change is permitted. -/
theorem permit_eq_ok (hs : s.Undamaged) (hwritable : s.readOnly = false) (table : TableName)
    (action : RowAction) (touched : Bool) (step : StorageStep) :
    s.permit table action touched step = .ok () := by
  rw [Undamaged] at hs
  simp [permit, hwritable, hs, Damage.none]

section Writable

variable (hs : s.Undamaged) (hwritable : s.readOnly = false)
include hs hwritable

/-! ### Changes that take ids -/

theorem failsFull_openOrStart (kind : ReportKind) (name : Option String) (t : Int)
    (version : Option String) : s.FailsFull (s.openOrStart kind name t version) := by
  unfold openOrStart
  rw [openReport?_eq hs]
  refine failsFull_bind (failsFull_ok _) fun r? _ => ?_
  cases r? with
  | some r => exact failsFull_ok _
  | none =>
    unfold startReport
    rw [permit_eq_ok hs hwritable]
    refine failsFull_bind (failsFull_ok _) fun _ _ => ?_
    exact failsFull_bind (failsFull_needId .inl _) fun _ _ => failsFull_ok _

theorem failsFull_putMetric (reportId : Int) (spec : MetricSpec) :
    s.FailsFull (s.putMetric reportId spec) := by
  unfold putMetric
  rw [findMetric?_eq hs]
  refine failsFull_bind (failsFull_ok _) fun m? _ => ?_
  cases m? with
  | none =>
    rw [permit_eq_ok hs hwritable]
    refine failsFull_bind (failsFull_ok _) fun _ _ => ?_
    exact failsFull_bind (failsFull_needId (.inr ∘ .inl) _) fun _ _ => failsFull_ok _
  | some m =>
    dsimp only
    split
    · exact failsFull_ok _
    · rw [permit_eq_ok hs hwritable]
      exact failsFull_ok _

theorem failsFull_insertValue (metricId : Int) (version : Nat) (t : Int) (value : SampleValue) :
    s.FailsFull (s.insertValue metricId version t value) := by
  unfold insertValue
  rw [need_eq_ok hs, permit_eq_ok hs hwritable]
  refine failsFull_bind (failsFull_ok _) fun _ _ => ?_
  refine failsFull_bind (failsFull_ok _) fun _ _ => ?_
  refine failsFull_bind (failsFull_needId (.inr ∘ .inr) _) fun _ _ => ?_
  split
  · exact failsFull_ok _
  · exact failsFull_ok _

/-! ### Changes that take none, and do not fail -/

theorem endSelected_ok (selected : ReportRow → Bool) (t : Int) (step : StorageStep) :
    ∃ s', s.endSelected selected t step = .ok s' := by
  rw [endSelected, need_eq_ok hs, permit_eq_ok hs hwritable]
  exact ⟨_, rfl⟩

theorem endOpen_ok (kind : ReportKind) (name : Option String) (t : Int) :
    ∃ s', s.endOpen kind name t = .ok s' := by
  unfold endOpen
  rw [openReport?_eq hs]
  cases s.reports.rows.find? (·.isOpenAs kind name) with
  | none => exact ⟨s, rfl⟩
  | some r => exact endSelected_ok hs hwritable _ t .endReport

theorem removeValues_ok (selected : ValueRow → Bool) (step : StorageStep) :
    s.removeValues selected step = .ok { s with values := s.values.remove selected } := by
  rw [removeValues, need_eq_ok hs, permit_eq_ok hs hwritable]
  rfl

theorem removeMetrics_ok (selected : MetricRow → Bool) (step : StorageStep) :
    s.removeMetrics selected step = .ok { s with metrics := s.metrics.remove selected } := by
  rw [removeMetrics, permit_eq_ok hs hwritable]
  rfl

theorem removeReports_ok (selected : ReportRow → Bool) (step : StorageStep) :
    s.removeReports selected step = .ok { s with reports := s.reports.remove selected } := by
  rw [removeReports, permit_eq_ok hs hwritable]
  rfl

theorem deleteReport_ok (id : Int) : ∃ s', s.deleteReport id = .ok s' :=
  ⟨_, bind_eq_ok.2 ⟨_, removeValues_ok hs hwritable _ _, bind_eq_ok.2 ⟨(),
    need_eq_ok (by exact hs) _ _, bind_eq_ok.2 ⟨_,
      removeMetrics_ok (by exact hs) (by exact hwritable) _ _, bind_eq_ok.2 ⟨(),
        need_eq_ok (by exact hs) _ _,
        removeReports_ok (by exact hs) (by exact hwritable) _ _⟩⟩⟩⟩⟩

theorem deleteOrphanMetrics_ok : ∃ s', s.deleteOrphanMetrics = .ok s' := by
  rw [deleteOrphanMetrics, need_eq_ok hs]
  exact ⟨_, removeMetrics_ok hs hwritable _ _⟩

theorem deleteOrphanReports_ok (cutoff : Int) : ∃ s', s.deleteOrphanReports cutoff = .ok s' := by
  rw [deleteOrphanReports, need_eq_ok hs]
  exact ⟨_, removeReports_ok hs hwritable _ _⟩

end Writable

end Store

/-! ### Transactions -/

namespace Transaction

variable {α : Type} {s : Store} {P : α → Store → Prop}

theorem settles_query {f : Store → Except Failure α} {a : α} (h : f s = .ok a) (hP : P a s) :
    Settles (query f) s P := settles_of_yields (yields_query.2 ⟨h, rfl⟩) hP

theorem settles_useKept (hs : s.Undamaged) {q : KeptQuery} {tables : List TableName}
    {preparing reading : StorageStep} {Q : Unit → Store → Prop}
    (h : ∀ s', s.SeenAs s' → Q () s') : Settles (useKept q tables preparing reading) s Q := by
  have hused : Yields (useKept q tables preparing reading) s () (s.keep q) := by
    refine yields_useKept.2 ⟨?_, rfl⟩
    rw [Store.Undamaged] at hs
    simp [hs, Damage.none]
  exact settles_of_yields hused (h _ ⟨_, rfl⟩)

theorem settles_update {f : Store → Except Failure (α × Store)} (hf : s.FailsFull (f s))
    (h : ∀ a s', f s = .ok (a, s') → P a s') : Settles (update f) s P := by
  constructor
  · exact fun a s' ha => h a s' (yields_update.1 ha)
  · intro e s' he
    unfold Fails outcome update at he
    rcases hfs : f s with e' | ⟨a, s₁⟩
    · rw [hfs] at he
      obtain ⟨⟨⟩, rfl⟩ := Prod.mk.inj he
      exact hf _ hfs
    · rw [hfs] at he
      cases (Prod.mk.inj he).1

theorem attains_change {f : Store → Except Failure Store} {Q : Unit → Store → Prop}
    (hf : ∃ s', f s = .ok s') (h : ∀ s', f s = .ok s' → Q () s') : Attains (change f) s Q := by
  obtain ⟨s', hs'⟩ := hf
  exact ⟨(), s', yields_change.2 hs', h s' hs'⟩

theorem attains_query {f : Store → Except Failure α} {a : α} (h : f s = .ok a) (hP : P a s) :
    Attains (query f) s P := ⟨a, s, yields_query.2 ⟨h, rfl⟩, hP⟩

end Transaction

namespace Collecting

variable {α : Type} {p : Progress}

theorem settles_run {t : Transaction α} {P : α → Progress → Prop}
    (h : Settles t p.store fun a s => P a { p with store := s }) : Settles (run t) p P := by
  constructor
  · intro a p' ha
    obtain ⟨s, hs, rfl⟩ := yields_run.1 ha
    exact h.1 a s hs
  · intro e p' he
    obtain ⟨herror, rfl⟩ := Prod.mk.inj he
    exact h.2 e (outcome t p.store).2 (Prod.ext herror rfl)

theorem attains_run {t : Transaction α} {P : α → Progress → Prop}
    (h : Attains t p.store fun a s => P a { p with store := s }) : Attains (run t) p P := by
  obtain ⟨a, s, ha, hP⟩ := h
  exact ⟨a, _, yields_run.2 ⟨s, ha, rfl⟩, hP⟩

theorem attains_ask {f : Store → Except Failure α} {a : α} {P : α → Progress → Prop}
    (h : f p.store = .ok a) (hP : P a p) : Attains (ask f) p P :=
  ⟨a, p, yields_ask.2 ⟨h, rfl⟩, hP⟩

end Collecting

end Telemetry
