import Telemetry.Proofs.Outcome
import Telemetry.Proofs.Step

/-!
# Looks at a store

An operation that only looks at the store leaves all of it as it was, but for the queries that are
kept prepared.  Summarising a report and writing its export are such looks.
-/

namespace Telemetry

/-- The second store is the first one, but for the queries that are kept prepared. -/
def Store.SeenAs (s s' : Store) : Prop := ∃ kept, s' = { s with kept }

namespace Store.SeenAs

variable {s s' s'' : Store}

theorem refl (s : Store) : s.SeenAs s := ⟨s.kept, rfl⟩

theorem symm (h : s.SeenAs s') : s'.SeenAs s := by
  obtain ⟨kept, rfl⟩ := h
  exact ⟨s.kept, rfl⟩

theorem trans (h : s.SeenAs s') (h' : s'.SeenAs s'') : s.SeenAs s'' := by
  obtain ⟨kept, rfl⟩ := h
  obtain ⟨kept', rfl⟩ := h'
  exact ⟨kept', rfl⟩

theorem steps (h : s.SeenAs s') (scope : Scope) : Store.Steps scope s s' := by
  obtain ⟨kept, rfl⟩ := h
  exact (Store.Step.keep kept).steps

theorem undamaged (h : s.SeenAs s') (hs : s.Undamaged) : s'.Undamaged := by
  obtain ⟨kept, rfl⟩ := h
  exact hs

theorem readOnly_eq (h : s.SeenAs s') : s'.readOnly = s.readOnly := by
  obtain ⟨kept, rfl⟩ := h
  rfl

theorem consistent (h : s.SeenAs s') (hs : s.Consistent) : s'.Consistent := by
  obtain ⟨kept, rfl⟩ := h
  exact hs.of_eq rfl rfl rfl rfl

end Store.SeenAs

namespace Transaction

variable {α β : Type} {s s' : Store}

/-- The transaction only looks at the store. -/
def Looks (t : Transaction α) : Prop := ∀ s a s', Yields t s a s' → s.SeenAs s'

theorem looks_pure (a : α) : Looks (pure a) := by
  intro s b s' h
  obtain ⟨-, rfl⟩ := yields_pure.1 h
  exact .refl s

theorem looks_bind {t : Transaction α} {f : α → Transaction β} (ht : Looks t)
    (hf : ∀ a, Looks (f a)) : Looks (t >>= f) := by
  intro s b s' h
  obtain ⟨a, s₁, h₁, h₂⟩ := yields_bind.1 h
  exact (ht s a s₁ h₁).trans (hf a s₁ b s' h₂)

theorem looks_query (f : Store → Except Failure α) : Looks (query f) := by
  intro s a s' h
  obtain ⟨-, rfl⟩ := yields_query.1 h
  exact .refl s

theorem looks_useKept (q : KeptQuery) (tables : List TableName)
    (preparing reading : StorageStep) : Looks (useKept q tables preparing reading) := by
  intro s u s' h
  obtain ⟨-, rfl⟩ := yields_useKept.1 h
  exact ⟨_, rfl⟩

/-! ### Reading values -/

theorem looks_series (q : ValueQuery) (paging : PagingSettings) : Looks (series q paging) := by
  unfold series
  split
  · exact looks_pure _
  · intro s a s' h
    obtain ⟨u, s₁, hused, h⟩ := yields_bind.1 h
    obtain ⟨s₂, s₃, hget, h⟩ := yields_bind.1 h
    obtain ⟨rfl, rfl⟩ := yields_get.1 hget
    refine (looks_useKept _ _ _ _ s u s₁ hused).trans ?_
    simp only at h
    split at h
    · obtain ⟨v, s₂, hset, h⟩ := yields_bind.1 h
      obtain rfl := yields_set.1 hset
      obtain ⟨-, rfl⟩ := yields_pure.1 h
      exact ⟨_, rfl⟩
    · obtain ⟨-, rfl⟩ := yields_pure.1 h
      exact .refl s₁

theorem looks_sessionsAt (t : Int) : Looks (sessionsAt t) := by
  unfold sessionsAt
  exact looks_bind (looks_useKept _ _ _ _) fun _ => looks_query _

theorem looks_latestUpTo (metricId t : Int) : Looks (latestUpTo metricId t) := looks_query _

end Transaction

/-! ### Summaries -/

namespace MetricGroup

open Transaction

variable (g : MetricGroup) (paging : PagingSettings) (w : Window)

theorem looks_numberEntries : Looks (g.numberEntries w) := by
  unfold numberEntries
  split
  · exact looks_bind (looks_query _) fun _ => looks_pure _
  · exact looks_pure _

theorem looks_latestEntries : Looks (g.latestEntries w) := by
  unfold latestEntries
  split
  · exact looks_bind (looks_query _) fun _ => looks_pure _
  · exact looks_pure _

theorem looks_scanned : Looks (g.scanned paging w) := by
  unfold scanned
  refine looks_bind (looks_query _) fun _ => looks_bind (looks_series _ _) fun _ => ?_
  exact looks_bind (looks_query _) fun _ => looks_pure _

theorem looks_scanEntries : Looks (g.scanEntries paging w) := by
  unfold scanEntries
  split
  · exact looks_bind (g.looks_scanned paging w) fun _ => looks_pure _
  · exact looks_pure _

theorem looks_entries : Looks (g.entries paging w) := by
  unfold entries
  refine looks_bind (g.looks_numberEntries w) fun _ => ?_
  refine looks_bind (g.looks_latestEntries w) fun _ => ?_
  exact looks_bind (g.looks_scanEntries paging w) fun _ => looks_pure _

end MetricGroup

namespace Collecting

open Transaction

theorem looks_summarize (paging : PagingSettings) (w : Window) (groups : List MetricGroup) :
    ∀ r : MetricReport, Looks (r.summarize paging w groups) := by
  induction groups with
  | nil => exact fun r => looks_pure r
  | cons g groups ih =>
    intro r
    unfold MetricReport.summarize
    exact looks_bind (g.looks_entries paging w) fun _ => ih _

theorem looks_points (paging : PagingSettings) (endMs : Int) (g : MetricGroup) :
    Looks (points paging endMs g) := by
  unfold points
  exact looks_bind (looks_series _ _) fun _ => looks_pure _

theorem looks_writeSeries (paging : PagingSettings) (endMs : Int) (groups : List MetricGroup) :
    ∀ w : ExportWriter, Looks (writeSeries paging endMs w groups) := by
  induction groups with
  | nil => exact fun w => looks_pure w
  | cons g groups ih =>
    intro w
    unfold writeSeries
    refine looks_bind (looks_points paging endMs g) fun points => ?_
    split
    · exact ih _
    · intro s a s' h
      cases h

theorem looks_exportText (settings : Settings) (report : MetricReport) (groups : List MetricGroup)
    (derived : List DerivedMetric) : Looks (exportText settings report groups derived) := by
  unfold exportText
  exact looks_bind (looks_writeSeries _ _ _ _) fun _ => looks_pure _

end Collecting

/-! ### Parts of a collection that only look at the store -/

namespace Collecting

variable {α β : Type}

/-- The part of a collection only looks at the store. -/
def LooksOn (c : Collecting α) : Prop := ∀ p a p', Yields c p a p' → p.store.SeenAs p'.store

theorem looksOn_pure (a : α) : LooksOn (pure a) := by
  intro p b p' h
  obtain ⟨-, rfl⟩ := yields_pure.1 h
  exact .refl p.store

theorem looksOn_bind {c : Collecting α} {f : α → Collecting β} (hc : LooksOn c)
    (hf : ∀ a, LooksOn (f a)) : LooksOn (c >>= f) := by
  intro p b p' h
  obtain ⟨a, p₁, h₁, h₂⟩ := yields_bind.1 h
  exact (hc p a p₁ h₁).trans (hf a p₁ b p' h₂)

theorem looksOn_run {t : Transaction α} (ht : t.Looks) : LooksOn (run t) := by
  intro p a p' h
  obtain ⟨s, hs, rfl⟩ := yields_run.1 h
  exact ht p.store a s hs

theorem looksOn_ask (f : Store → Except Failure α) : LooksOn (ask f) :=
  looksOn_run (Transaction.looks_query f)

theorem looksOn_withFiles (f : Files → Except Failure α × Files) : LooksOn (withFiles f) := by
  intro p a p' h
  obtain ⟨-, rfl⟩ := yields_withFiles.1 h
  exact .refl p.store

theorem looksOn_metricsOf (reportId : Int) : LooksOn (metricsOf reportId) :=
  looksOn_run (Transaction.looks_bind (Transaction.looks_useKept _ _ _ _)
    fun _ => Transaction.looks_query _)

theorem looksOn_summarize (settings : Settings) (kind : ReportKind) (name : Option String)
    (w : Window) (groups : List MetricGroup) (softwareVersion : Option String) :
    LooksOn (summarize settings kind name w groups softwareVersion) :=
  looksOn_run (looks_summarize _ _ _ _)

theorem looksOn_derive (request : CollectRequest) (report : MetricReport) :
    LooksOn (derive request report) := by
  intro p a p' h
  unfold Yields outcome derive at h
  split at h <;> cases h
  · exact .refl p.store
  · exact .refl p.store

theorem looksOn_writeExport (settings : Settings) (folder : Path) (name : String)
    (report : MetricReport) (groups : List MetricGroup) (derived : List DerivedMetric) :
    LooksOn (writeExport settings folder name report groups derived) := by
  refine looksOn_bind (looksOn_withFiles _) fun file => ?_
  intro p a p' h
  unfold Yields at h
  rw [outcome_tryCatch] at h
  split at h
  · next hbody =>
    cases h
    refine looksOn_bind (looksOn_run (looks_exportText _ _ _ _)) (fun text => ?_) p a p' hbody
    exact looksOn_withFiles _
  · -- what is given up yields nothing
    obtain ⟨habsurd, -⟩ := yields_withFiles.1 h
    cases habsurd

theorem looksOn_metricsOfAll (ids : List Int) : LooksOn (metricsOfAll ids) := by
  induction ids with
  | nil => exact looksOn_pure _
  | cons id ids ih =>
    exact looksOn_bind (looksOn_metricsOf id) fun _ => looksOn_bind ih fun _ => looksOn_pure _

theorem looksOn_addDailyGroups (accumulatorId : Int) (names : List String) :
    ∀ groups, LooksOn (addDailyGroups accumulatorId names groups) := by
  induction names with
  | nil => exact fun groups => looksOn_pure groups
  | cons name names ih =>
    intro groups
    unfold addDailyGroups
    split
    · exact ih _
    · refine looksOn_bind (looksOn_ask _) fun m? => ?_
      split
      · exact ih _
      · exact ih _

theorem looksOn_sessionGroups (request : CollectRequest) (accumulator : Option ReportRow)
    (session : ReportRow) : LooksOn (sessionGroups request accumulator session) := by
  refine looksOn_bind (looksOn_metricsOf _) fun own => ?_
  split
  · exact looksOn_pure _
  · exact looksOn_addDailyGroups _ _ _

end Collecting

end Telemetry
