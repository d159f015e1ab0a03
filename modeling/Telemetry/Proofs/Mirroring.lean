import Telemetry.Proofs.Entries
import Telemetry.Proofs.Settling
import Telemetry.Proofs.Stages

/-!
# Two operations that fare alike

One operation mirrors another when both succeed, with results and states that belong together, or
both fail with the same failure.  The first may be refused besides, where something outside the store
has failed it.  As before there is one lemma for each way of putting operations together.

Which queries are kept prepared makes no difference to a store that can be relied on: a transaction
that is begun in two stores that differ in this alone mirrors itself, and the stores differ in this
alone again.  So it is with every change of the store that a collection makes.  Nor does it make a
difference by which pages values are read.
-/

namespace Telemetry

/-! ### Side by side -/

section Mirroring

variable {σ τ α β γ δ : Type} {s : σ} {s₀ : τ}

/-- Both operations succeed, with results and states that belong together, or both fail alike, or the
first is refused. -/
inductive Mirrors (t : ExceptT Failure (StateM σ) α) (t₀ : ExceptT Failure (StateM τ) β) (s : σ)
    (s₀ : τ) (R : α → σ → β → τ → Prop) : Prop where
  | both {a : α} {s' : σ} {b : β} {s₀' : τ} (h : Yields t s a s') (h₀ : Yields t₀ s₀ b s₀')
    (hR : R a s' b s₀') : Mirrors t t₀ s s₀ R
  | neither {e : Failure} {s' : σ} {s₀' : τ} (h : Fails t s e s') (h₀ : Fails t₀ s₀ e s₀') :
    Mirrors t t₀ s s₀ R
  | refused {e : Failure} {s' : σ} (h : Fails t s e s') (he : ¬e.InStore) : Mirrors t t₀ s s₀ R

variable {t : ExceptT Failure (StateM σ) α} {t₀ : ExceptT Failure (StateM τ) β}
  {R : α → σ → β → τ → Prop}

theorem mirrors_pure {a : α} {b : β} (h : R a s b s₀) : Mirrors (pure a) (pure b) s s₀ R :=
  .both (yields_pure.2 ⟨rfl, rfl⟩) (yields_pure.2 ⟨rfl, rfl⟩) h

theorem mirrors_bind {f : α → ExceptT Failure (StateM σ) γ} {f₀ : β → ExceptT Failure (StateM τ) δ}
    {Q : γ → σ → δ → τ → Prop}
    (h : Mirrors t t₀ s s₀ fun a s₁ b s₂ => Mirrors (f a) (f₀ b) s₁ s₂ Q) :
    Mirrors (t >>= f) (t₀ >>= f₀) s s₀ Q := by
  cases h with
  | both ht ht₀ hR =>
    cases hR with
    | both hf hf₀ hQ =>
      exact .both (yields_bind.2 ⟨_, _, ht, hf⟩) (yields_bind.2 ⟨_, _, ht₀, hf₀⟩) hQ
    | neither hf hf₀ =>
      exact .neither (fails_bind.2 (.inr ⟨_, _, ht, hf⟩)) (fails_bind.2 (.inr ⟨_, _, ht₀, hf₀⟩))
    | refused hf he => exact .refused (fails_bind.2 (.inr ⟨_, _, ht, hf⟩)) he
  | neither ht ht₀ => exact .neither (fails_bind.2 (.inl ht)) (fails_bind.2 (.inl ht₀))
  | refused ht he => exact .refused (fails_bind.2 (.inl ht)) he

theorem Mirrors.imp {R' : α → σ → β → τ → Prop} (h : Mirrors t t₀ s s₀ R)
    (hR : ∀ a s' b s₀', R a s' b s₀' → R' a s' b s₀') : Mirrors t t₀ s s₀ R' := by
  cases h with
  | both ht ht₀ h => exact .both ht ht₀ (hR _ _ _ _ h)
  | neither ht ht₀ => exact .neither ht ht₀
  | refused ht he => exact .refused ht he

/-- That both operations have succeeded may be used as well. -/
theorem Mirrors.and_yields (h : Mirrors t t₀ s s₀ R) :
    Mirrors t t₀ s s₀ fun a s' b s₀' => R a s' b s₀' ∧ Yields t s a s' := by
  cases h with
  | both ht ht₀ h => exact .both ht ht₀ ⟨h, ht⟩
  | neither ht ht₀ => exact .neither ht ht₀
  | refused ht he => exact .refused ht he

end Mirroring

/-! ### Queries that are kept -/

namespace Transaction

variable {α β : Type}

/-- Two transactions fare alike in stores that have a property and differ in the kept queries alone,
and leave such stores. -/
def Alike (I : Store → Prop) (t t₀ : Transaction α) : Prop :=
  ∀ s s₀ : Store, I s → s.SeenAs s₀ →
    Mirrors t t₀ s s₀ fun a s' b s₀' => a = b ∧ s'.SeenAs s₀' ∧ I s'

/-- Which queries are kept makes no difference to the transaction. -/
abbrev Steady (t : Transaction α) : Prop := Alike Store.Undamaged t t

variable {I : Store → Prop}

theorem alike_pure (a : α) : Alike I (pure a) (pure a) := by
  intro s s₀ hs hseen
  exact mirrors_pure ⟨rfl, hseen, hs⟩

theorem alike_bind {t t₀ : Transaction α} {f f₀ : α → Transaction β} (ht : Alike I t t₀)
    (hf : ∀ a, Alike I (f a) (f₀ a)) : Alike I (t >>= f) (t₀ >>= f₀) := by
  intro s s₀ hs hseen
  refine mirrors_bind ((ht s s₀ hs hseen).imp ?_)
  rintro a s₁ _ s₂ ⟨rfl, hseen₁, hs₁⟩
  exact hf a s₁ s₂ hs₁ hseen₁

theorem alike_query {f : Store → Except Failure α} (hf : ∀ s kept, f { s with kept } = f s) :
    Alike I (query f) (query f) := by
  rintro s _ hs ⟨kept, rfl⟩
  cases ha : f s with
  | error e =>
    have h : Fails (query f) s e s := Prod.ext ha rfl
    have h₀ : Fails (query f) { s with kept } e { s with kept } := Prod.ext ((hf s kept).trans ha) rfl
    exact .neither h h₀
  | ok a =>
    exact .both (yields_query.2 ⟨ha, rfl⟩) (yields_query.2 ⟨(hf s kept).trans ha, rfl⟩)
      ⟨rfl, ⟨kept, rfl⟩, hs⟩

theorem alike_useKept (hI : ∀ s, I s → s.Undamaged) (hkeep : ∀ s q, I s → I (s.keep q))
    (q : KeptQuery) (tables : List TableName) (preparing reading : StorageStep) :
    Alike I (useKept q tables preparing reading) (useKept q tables preparing reading) := by
  rintro s _ hs ⟨kept, rfl⟩
  have hundamaged := hI s hs
  exact .both (useKept_yields hundamaged _ _ _ _) (useKept_yields (by exact hundamaged) _ _ _ _)
    ⟨rfl, ⟨_, rfl⟩, hkeep s q hs⟩

theorem steady_useKept (q : KeptQuery) (tables : List TableName) (preparing reading : StorageStep) :
    Steady (useKept q tables preparing reading) :=
  alike_useKept (fun _ hs => hs) (fun _ _ hs => hs) q tables preparing reading

/-- What a change makes of a store does not depend on what is kept, and damages nothing. -/
structure Unkept (f : Store → Except Failure (α × Store)) : Prop where
  kept : ∀ s kept, f { s with kept } = (f s).map fun r => (r.1, { r.2 with kept })
  undamaged : ∀ s a s', s.Undamaged → f s = .ok (a, s') → s'.Undamaged

theorem steady_update {f : Store → Except Failure (α × Store)} (hf : Unkept f) :
    Steady (update f) := by
  rintro s _ hs ⟨kept, rfl⟩
  have hkept := hf.kept s kept
  cases ha : f s with
  | error e =>
    rw [ha] at hkept
    have h : Fails (update f) s e s := by
      unfold Fails outcome update
      rw [ha]
    have h₀ : Fails (update f) { s with kept } e { s with kept } := by
      unfold Fails outcome update
      rw [hkept]
      rfl
    exact .neither h h₀
  | ok r =>
    rw [ha] at hkept
    exact .both (yields_update.2 ha) (yields_update.2 hkept)
      ⟨rfl, ⟨kept, rfl⟩, hf.undamaged s r.1 r.2 hs ha⟩

theorem steady_change {f : Store → Except Failure Store}
    (hkept : ∀ s kept, f { s with kept } = (f s).map fun s' => { s' with kept })
    (hundamaged : ∀ s s', s.Undamaged → f s = .ok s' → s'.Undamaged) : Steady (change f) := by
  refine steady_update ⟨fun s kept => ?_, fun s a s' hs h => ?_⟩
  · rw [hkept s kept]
    cases f s <;> rfl
  · cases hf : f s with
    | error e =>
      rw [hf] at h
      cases h
    | ok s' =>
      rw [hf] at h
      cases h
      exact hundamaged s s' hs hf

/-! ### Changes -/

end Transaction

theorem map_bind_except {ε α β γ : Type} (x : Except ε α) (f : α → Except ε β) (g : β → γ) :
    (x >>= f).map g = x >>= fun a => (f a).map g := by
  cases x <;> rfl

theorem bind_map_except {ε α β γ : Type} (x : Except ε α) (f : β → Except ε γ) (g : α → β) :
    x.map g >>= f = x >>= fun a => f (g a) := by
  cases x <;> rfl

namespace Store

variable (s : Store) (kept : List KeptQuery)

theorem startReport_kept (kind : ReportKind) (name : Option String) (t : Int)
    (version : Option String) : startReport { s with kept } kind name t version =
      (s.startReport kind name t version).map fun r => (r.1, { r.2 with kept }) := by
  unfold startReport
  rw [map_bind_except]
  simp only [map_bind_except]
  rfl

theorem openOrStart_kept (kind : ReportKind) (name : Option String) (t : Int)
    (version : Option String) : openOrStart { s with kept } kind name t version =
      (s.openOrStart kind name t version).map fun r => (r.1, { r.2 with kept }) := by
  unfold openOrStart
  rw [map_bind_except]
  have hopen : openReport? { s with kept } kind name = s.openReport? kind name := rfl
  rw [hopen]
  congr 1
  funext r?
  cases r? with
  | none => exact startReport_kept s kept kind name t version
  | some r => rfl

theorem putMetric_kept (reportId : Int) (spec : MetricSpec) :
    putMetric { s with kept } reportId spec =
      (s.putMetric reportId spec).map fun r => (r.1, { r.2 with kept }) := by
  unfold putMetric
  rw [map_bind_except]
  have hfind : findMetric? { s with kept } reportId spec.eventName =
    s.findMetric? reportId spec.eventName := rfl
  rw [hfind]
  congr 1
  funext m?
  cases m? with
  | none =>
    simp only [map_bind_except]
    rfl
  | some m =>
    dsimp only
    split
    · rfl
    · simp only [map_bind_except]
      rfl

theorem insertValue_kept (metricId : Int) (version : Nat) (t : Int) (value : SampleValue) :
    insertValue { s with kept } metricId version t value =
      (s.insertValue metricId version t value).map fun r => (r.1, { r.2 with kept }) := by
  unfold insertValue
  simp only [map_bind_except]
  cases value.isNaN <;> rfl

theorem endSelected_kept (selected : ReportRow → Bool) (t : Int) (step : StorageStep) :
    endSelected { s with kept } selected t step =
      (s.endSelected selected t step).map fun s' => { s' with kept } := by
  unfold endSelected
  simp only [map_bind_except]
  rfl

theorem removeValues_kept (selected : ValueRow → Bool) (step : StorageStep) :
    removeValues { s with kept } selected step =
      (s.removeValues selected step).map fun s' => { s' with kept } := by
  unfold removeValues
  simp only [map_bind_except]
  rfl

theorem removeMetrics_kept (selected : MetricRow → Bool) (step : StorageStep) :
    removeMetrics { s with kept } selected step =
      (s.removeMetrics selected step).map fun s' => { s' with kept } := by
  unfold removeMetrics
  simp only [map_bind_except]
  rfl

theorem removeReports_kept (selected : ReportRow → Bool) (step : StorageStep) :
    removeReports { s with kept } selected step =
      (s.removeReports selected step).map fun s' => { s' with kept } := by
  unfold removeReports
  simp only [map_bind_except]
  rfl

theorem deleteReport_kept (id : Int) :
    deleteReport { s with kept } id = (s.deleteReport id).map fun s' => { s' with kept } := by
  unfold deleteReport
  rw [map_bind_except]
  have hvalues := removeValues_kept s kept (s.isValueOf (s.metricIdsOf id)) .deleteValues
  refine (congrArg (· >>= _) hvalues).trans ?_
  rw [bind_map_except]
  congr 1
  funext s₁
  have hmetrics := removeMetrics_kept s₁ kept (s₁.belongsTo id) .deleteMetrics
  rw [map_bind_except]
  congr 1
  funext _
  rw [map_bind_except]
  refine (congrArg (· >>= _) hmetrics).trans ?_
  rw [bind_map_except]
  congr 1
  funext s₂
  rw [map_bind_except]
  congr 1
  funext _
  exact removeReports_kept s₂ kept (fun r => r.id == id) .deleteReport

theorem deleteValuesBefore_kept (reportId cutoff : Int) :
    deleteValuesBefore { s with kept } reportId cutoff =
      (s.deleteValuesBefore reportId cutoff).map fun s' => { s' with kept } :=
  removeValues_kept s kept _ .deleteOldValues

theorem deleteOrphanMetrics_kept :
    deleteOrphanMetrics { s with kept } = s.deleteOrphanMetrics.map fun s' => { s' with kept } := by
  unfold deleteOrphanMetrics
  rw [map_bind_except]
  congr 1
  funext _
  exact removeMetrics_kept s kept _ .deleteOrphanMetrics

theorem deleteOrphanReports_kept (cutoff : Int) :
    deleteOrphanReports { s with kept } cutoff =
      (s.deleteOrphanReports cutoff).map fun s' => { s' with kept } := by
  unfold deleteOrphanReports
  rw [map_bind_except]
  congr 1
  funext _
  exact removeReports_kept s kept _ .deleteOrphanReports

end Store

namespace Transaction

theorem steady_openOrStart (kind : ReportKind) (name : Option String) (t : Int)
    (version : Option String) : Steady (openOrStart kind name t version) := by
  refine steady_update ⟨fun s kept => s.openOrStart_kept kept kind name t version, ?_⟩
  intro s id s' hs h
  rcases Store.openOrStart_eq_ok hs h with ⟨r, -, -, rfl⟩ | ⟨-, -, rfl⟩
  · exact hs
  · exact hs

theorem steady_record (reportId : Int) (spec : MetricSpec) (version : Nat) (t : Int)
    (value : SampleValue) : Steady (record reportId spec version t value) := by
  refine alike_bind (steady_update ⟨fun s kept => s.putMetric_kept kept reportId spec, ?_⟩)
    fun id => alike_bind (steady_useKept _ _ _ _) fun _ =>
      steady_update ⟨fun s kept => s.insertValue_kept kept id version t value, ?_⟩
  · intro s id s' hs h
    rcases Store.putMetric_eq_ok hs h with ⟨-, -, rfl⟩ | ⟨m, -, -, ⟨-, rfl⟩ | rfl⟩
    · exact hs
    · exact hs
    · exact hs
  · intro s a s' hs h
    rcases Store.insertValue_eq_ok h with ⟨-, -, rfl⟩ | ⟨-, -, rfl⟩
    · exact hs
    · exact hs

theorem steady_endSelected (selected : Store → ReportRow → Bool) (t : Int) (step : StorageStep)
    (hselected : ∀ s kept, selected { s with kept } = selected s) :
    Steady (change fun s => s.endSelected (selected s) t step) := by
  refine steady_change (fun s kept => ?_) fun s s' hs h => ?_
  · rw [hselected]
    exact s.endSelected_kept kept (selected s) t step
  · obtain rfl := Store.endSelected_eq_ok hs h
    exact hs

theorem steady_deleteReport (id : Int) : Steady (change (·.deleteReport id)) := by
  refine steady_change (fun s kept => s.deleteReport_kept kept id) fun s s' hs h => ?_
  obtain rfl := Store.deleteReport_eq_ok hs h
  exact hs

end Transaction

namespace Collecting

open Transaction

theorem steady_carry (settings : Settings) (version : Option String) (now : Int)
    (ms : List MetricRow) : ∀ successor, Steady (carry settings version now successor ms) := by
  induction ms with
  | nil => exact fun _ => alike_pure ()
  | cons m ms ih =>
    intro successor
    unfold carry
    refine alike_bind (alike_query fun _ _ => rfl) fun v? => ?_
    cases v? with
    | none => exact ih successor
    | some v =>
      dsimp only
      split
      · exact ih successor
      · have hrest : ∀ id, Steady (do
            let _ ← record id m.spec v.version v.timeMs v.value
            carry settings version now (some id) ms) :=
          fun id => alike_bind (steady_record _ _ _ _ _) fun _ => ih (some id)
        cases successor with
        | none => exact alike_bind (steady_openOrStart _ _ _ _) hrest
        | some id => exact alike_bind (alike_pure id) hrest

theorem steady_carryOver (settings : Settings) (version : Option String) (reportId now : Int) :
    Steady (carryOver settings version reportId now) := by
  refine alike_bind (steady_useKept _ _ _ _) fun _ => ?_
  exact alike_bind (alike_query fun _ _ => rfl) fun rows => steady_carry _ _ _ rows none

theorem steady_retain (settings : Settings) (now : Int) : Steady (retain settings now) := by
  have hvalues : ∀ id cutoff, Steady (change (·.deleteValuesBefore id cutoff)) := by
    intro id cutoff
    refine steady_change (fun s kept => s.deleteValuesBefore_kept kept id cutoff) fun s s' hs h => ?_
    obtain rfl := Store.deleteValuesBefore_eq_ok hs h
    exact hs
  have hlast : Steady (do
      change (·.deleteOrphanMetrics)
      change (·.deleteOrphanReports (now - settings.retention.orphanReportExpiry))) := by
    refine alike_bind (steady_change (fun s kept => s.deleteOrphanMetrics_kept kept) ?_) fun _ =>
      steady_change (fun s kept => s.deleteOrphanReports_kept kept _) ?_
    · intro s s' hs h
      obtain rfl := Store.deleteOrphanMetrics_eq_ok hs h
      exact hs
    · intro s s' hs h
      obtain rfl := Store.deleteOrphanReports_eq_ok hs h
      exact hs
  unfold retain
  refine alike_bind (alike_query fun _ _ => rfl) fun accumulator? => ?_
  cases accumulator? with
  | none => exact hlast
  | some accumulator => exact alike_bind (hvalues _ _) fun _ => hlast

end Collecting

/-! ### Reading by pages -/

theorem Store.Consistent.keep {s : Store} (hs : s.Consistent) (q : KeptQuery) :
    (s.keep q).Consistent := hs.of_eq rfl rfl rfl rfl

theorem Transaction.alike_series (q : ValueQuery) (paging paging₀ : PagingSettings) :
    Alike Store.Consistent (series q paging) (series q paging₀) := by
  intro s s₀ hs hseen
  by_cases hq : q.metricIds = []
  · have hnone : ∀ paging, series q paging = pure [] := by
      intro paging
      unfold series
      rw [hq]
      rfl
    rw [hnone, hnone]
    exact alike_pure [] s s₀ hs hseen
  · obtain ⟨s', h⟩ := series_yields hs hq paging
    obtain ⟨s₀', h₀⟩ := series_yields (hseen.consistent hs) hq paging₀
    have hread := looks_series _ _ _ _ _ h
    have hread₀ := looks_series _ _ _ _ _ h₀
    refine .both h h₀ ⟨?_, (hread.symm.trans hseen).trans hread₀, hread.consistent hs⟩
    obtain ⟨kept, rfl⟩ := hseen
    rfl

namespace MetricGroup

open Transaction

variable (g : MetricGroup) (paging paging₀ : PagingSettings) (w : Window)

theorem alike_scanEntries :
    Alike Store.Consistent (g.scanEntries paging w) (g.scanEntries paging₀ w) := by
  unfold scanEntries scanned
  split
  · refine alike_bind (alike_bind (alike_query fun _ _ => rfl) fun seed => ?_) fun _ => alike_pure _
    refine alike_bind (alike_series _ _ _) fun rows => ?_
    exact alike_bind (alike_query fun _ _ => rfl) fun _ => alike_pure _
  · exact alike_pure _

theorem alike_entries : Alike Store.Consistent (g.entries paging w) (g.entries paging₀ w) := by
  have hnumbers : Alike Store.Consistent (g.numberEntries w) (g.numberEntries w) := by
    unfold numberEntries
    split
    · exact alike_bind (alike_query fun _ _ => rfl) fun _ => alike_pure _
    · exact alike_pure _
  have hlatest : Alike Store.Consistent (g.latestEntries w) (g.latestEntries w) := by
    unfold latestEntries
    split
    · exact alike_bind (alike_query fun _ _ => rfl) fun _ => alike_pure _
    · exact alike_pure _
  refine alike_bind hnumbers fun _ => alike_bind hlatest fun _ => ?_
  exact alike_bind (g.alike_scanEntries paging paging₀ w) fun _ => alike_pure _

end MetricGroup

theorem MetricReport.alike_summarize (paging paging₀ : PagingSettings) (w : Window)
    (groups : List MetricGroup) : ∀ r : MetricReport, Transaction.Alike Store.Consistent
      (r.summarize paging w groups) (r.summarize paging₀ w groups) := by
  induction groups with
  | nil => exact fun r => Transaction.alike_pure r
  | cons g groups ih =>
    intro r
    unfold summarize
    exact Transaction.alike_bind (g.alike_entries paging paging₀ w) fun _ => ih _

end Telemetry
