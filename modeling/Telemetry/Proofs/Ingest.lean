import Telemetry.Proofs.Looks

/-!
# Taking in by steps

Each operation that takes something in is a chain of steps.  A sample touches the report that it is
addressed to and the sessions that cover its time, a seeded session touches nothing but itself, and
the end of a session touches that session alone.
-/

namespace Telemetry

/-- The scope of all that the engine does. -/
def Scope.everything : Scope := ⟨fun _ => True, fun _ => True⟩

/-- The scope of taking something in: what is open, and sessions also after their end. -/
def Scope.unended (s : Store) : Scope :=
  ⟨fun id => ∀ r ∈ s.reports.rows, r.id = id → r.kind = .session ∨ r.endMs = none, fun _ => True⟩

namespace Transaction

variable (scope : Scope) {s s' : Store}

/-! ### Reports -/

theorem openOrStart_steps (hs : s.Consistent) {kind : ReportKind} {name : Option String} {t id : Int}
    {version : Option String} (hname : kind.Admits name) (hscope : scope.starts kind)
    (h : Yields (openOrStart kind name t version) s id s') :
    Store.Steps scope s s' ∧
      ∃ r ∈ s'.reports.rows, r.isOpenAs kind name = true ∧ r.id = id := by
  rcases Store.openOrStart_eq_ok hs.undamaged (yields_update.1 h) with
    ⟨r, hr, rfl, rfl⟩ | ⟨hnone, rfl, rfl⟩
  · exact ⟨.refl, r, List.mem_of_find?_eq_some hr, by simpa using List.find?_some hr, rfl⟩
  · have hfree : ∀ r ∈ s.reports.rows, r.isOpenAs kind name = false := by
      simpa using List.find?_eq_none.1 hnone
    refine ⟨(Store.Step.start t version hscope hname hfree).steps, _,
      List.mem_append_right _ (List.mem_singleton_self _), ?_, rfl⟩
    simp [ReportRow.isOpenAs]

theorem openOrStart_mem (hs : s.Undamaged) {kind : ReportKind} {name : Option String} {t id : Int}
    {version : Option String} (h : Yields (openOrStart kind name t version) s id s') :
    ∀ r ∈ s.reports.rows, r ∈ s'.reports.rows := by
  rcases Store.openOrStart_eq_ok hs (yields_update.1 h) with ⟨-, -, -, rfl⟩ | ⟨-, -, rfl⟩
  · exact fun r hr => hr
  · exact fun r hr => List.mem_append_left _ hr

/-! ### Metrics and values -/

theorem putMetric_steps (hs : s.Consistent) {reportId id : Int} {spec : MetricSpec}
    (howner : ∃ r ∈ s.reports.rows, r.id = reportId) (hscope : scope.touches reportId)
    (hname : spec.eventName ≠ "") (h : s.putMetric reportId spec = .ok (id, s')) :
    Store.Steps scope s s' ∧ s'.reports = s.reports ∧ s'.values = s.values ∧
      (⟨id, reportId, spec⟩ : MetricRow) ∈ s'.metrics.rows := by
  rcases Store.putMetric_eq_ok hs.undamaged h with ⟨hnone, rfl, rfl⟩ | ⟨m, hm, rfl, hput⟩
  · have hfree : ∀ m ∈ s.metrics.rows, m.isNamed reportId spec.eventName = false := by
      simpa using List.find?_eq_none.1 hnone
    exact ⟨(Store.Step.newMetric hscope howner hfree hname).steps, rfl, rfl,
      List.mem_append_right _ (List.mem_singleton_self _)⟩
  · have hmem : m ∈ s.metrics.rows := List.mem_of_find?_eq_some hm
    have hnamed : m.reportId = reportId ∧ m.spec.eventName = spec.eventName := by
      simpa [MetricRow.isNamed] using List.find?_some hm
    obtain ⟨rfl, hevent⟩ := hnamed
    rcases hput with ⟨rfl, rfl⟩ | rfl
    · exact ⟨.refl, rfl, rfl, hmem⟩
    · refine ⟨(Store.Step.setMetric hscope hmem hevent.symm).steps, rfl, rfl, ?_⟩
      exact List.mem_map.2 ⟨m, hmem, by simp⟩

theorem insertValue_steps {m : MetricRow} (hm : m ∈ s.metrics.rows)
    (hscope : scope.touches m.reportId) {version : Nat} {t : Int} {value : SampleValue}
    {result : Option Int} (h : Yields (insertValue m.id version t value) s result s') :
    Store.Steps scope s s' ∧ s'.reports = s.reports := by
  obtain ⟨u, s₁, hused, h⟩ := yields_bind.1 h
  obtain ⟨kept, rfl⟩ := looks_useKept _ _ _ _ s u s₁ hused
  refine And.imp_left (Store.Step.keep kept).steps.trans ?_
  have hm' : m ∈ ({ s with kept } : Store).metrics.rows := hm
  rcases Store.insertValue_eq_ok (yields_update.1 h) with ⟨-, -, rfl⟩ | ⟨hvalue, -, rfl⟩
  · exact ⟨Store.Step.skipValue.steps, rfl⟩
  · exact ⟨(Store.Step.addValue version t hscope hm' hvalue).steps, rfl⟩

theorem record_steps (hs : s.Consistent) {reportId t : Int} {spec : MetricSpec} {version : Nat}
    {value : SampleValue} {result : Option Int} (howner : ∃ r ∈ s.reports.rows, r.id = reportId)
    (hscope : scope.touches reportId) (hname : spec.eventName ≠ "")
    (h : Yields (record reportId spec version t value) s result s') :
    Store.Steps scope s s' ∧ s'.reports = s.reports := by
  obtain ⟨id, s₁, hput, h⟩ := yields_bind.1 h
  obtain ⟨hsteps, hreports, -, hm⟩ :=
    putMetric_steps scope hs howner hscope hname (yields_update.1 hput)
  obtain ⟨hsteps', hreports'⟩ := insertValue_steps scope hm hscope h
  exact ⟨hsteps.trans hsteps', hreports'.trans hreports⟩

theorem recordInAll_steps (sample : MetricSample) (hname : sample.eventName ≠ "") (ids : List Int) :
    ∀ {s s' : Store} {u : Unit}, s.Consistent →
      (∀ id ∈ ids, scope.touches id ∧ ∃ r ∈ s.reports.rows, r.id = id) →
      Yields (recordInAll sample ids) s u s' →
      Store.Steps scope s s' ∧ s'.reports = s.reports := by
  induction ids with
  | nil =>
    intro s s' u _ _ h
    obtain ⟨-, rfl⟩ := yields_pure.1 h
    exact ⟨.refl, rfl⟩
  | cons id ids ih =>
    intro s s' u hs hids h
    obtain ⟨result, s₁, hrecord, h⟩ := yields_bind.1 h
    obtain ⟨hscope, howner⟩ := hids id (by simp)
    obtain ⟨hsteps, hreports⟩ :=
      record_steps scope hs howner hscope hname hrecord
    obtain ⟨hsteps', hreports'⟩ := ih (hsteps.consistent hs)
      (fun id' hid' => hreports ▸ hids id' (by simp [hid'])) h
    exact ⟨hsteps.trans hsteps', hreports'.trans hreports⟩

/-! ### Samples -/

/-- A sample that is taken has a name and is addressed to a report that may be. -/
theorem of_validate {sample : MetricSample} (h : sample.validate = .ok ()) :
    sample.eventName ≠ "" ∧ sample.reportKind.Admits sample.sessionName := by
  unfold MetricSample.validate at h
  split at h
  · cases h
  next hname =>
  split at h
  · cases h
  refine ⟨fun hempty => hname (by simp [hempty]), ?_⟩
  cases hkind : sample.reportKind <;> cases hsession : sample.sessionName <;>
    simp only [hkind, hsession, reduceCtorEq] at h ⊢
  case session.some name => exact isSessionName_of_validate h
  case hourly.none => rfl
  case daily.none => rfl

theorem sessionsAt_ids (hs : s.Undamaged) {t : Int} {ids : List Int}
    (h : Yields (sessionsAt t) s ids s') :
    s.SeenAs s' ∧ ids = (s.reports.rows.filter (·.isSessionAt t)).map (·.id) := by
  refine ⟨looks_sessionsAt t s ids s' h, ?_⟩
  obtain ⟨u, s₁, hused, h⟩ := yields_bind.1 h
  obtain ⟨kept, rfl⟩ := looks_useKept _ _ _ _ s u s₁ hused
  obtain ⟨hids, -⟩ := yields_query.1 h
  rw [Store.sessionsAt_eq (by exact hs), Except.ok.injEq] at hids
  exact hids.symm

/-- Taking a sample in is finding or starting its report, recording it there, and recording an hourly
one in the sessions that cover its time. -/
theorem take_split {version : Option String} {sample : MetricSample} {result : Option Int}
    (h : Yields (take version sample) s result s') :
    ∃ id s₁ s₂,
      Yields (openOrStart sample.reportKind sample.sessionName sample.timeMs version) s id s₁ ∧
      Yields (record id sample.spec sample.version sample.timeMs sample.value) s₁ result s₂ ∧
      (sample.reportKind = .hourly ∧ (∃ ids s₃, Yields (sessionsAt sample.timeMs) s₂ ids s₃ ∧
          Yields (recordInAll sample ids) s₃ () s') ∨
        sample.reportKind ≠ .hourly ∧ s' = s₂) := by
  unfold take at h
  obtain ⟨id, s₁, hstart, h⟩ := yields_bind.1 h
  obtain ⟨valueId, s₂, hrecord, h⟩ := yields_bind.1 h
  split at h
  · next hkind =>
    obtain ⟨ids, s₃, hsessions, h⟩ := yields_bind.1 h
    obtain ⟨u, s₄, hall, h⟩ := yields_bind.1 h
    obtain ⟨rfl, rfl⟩ := yields_pure.1 h
    exact ⟨id, s₁, s₂, hstart, hrecord, .inl ⟨hkind, ids, s₃, hsessions, hall⟩⟩
  · next hkind =>
    obtain ⟨rfl, rfl⟩ := yields_pure.1 h
    exact ⟨id, s₁, s₂, hstart, hrecord, .inr ⟨hkind, rfl⟩⟩

/-- What taking a sample in comes to: a report is found or started, the value is recorded in it,
and all else happens to sessions. -/
theorem take_cases (hs : s.Consistent) {version : Option String} {sample : MetricSample}
    (hsample : sample.validate = .ok ()) {result : Option Int}
    (h : Yields (take version sample) s result s') :
    ∃ id s₁ s₂,
      Yields (openOrStart sample.reportKind sample.sessionName sample.timeMs version) s id s₁ ∧
      Yields (record id sample.spec sample.version sample.timeMs sample.value) s₁ result s₂ ∧
      s'.reports = s₂.reports ∧
      Store.Steps ⟨fun id => ∃ r ∈ s₂.reports.rows, r.id = id ∧ r.kind = .session, fun _ => False⟩
        s₂ s' := by
  obtain ⟨hname, hadmits⟩ := of_validate hsample
  obtain ⟨id, s₁, s₂, hstart, hrecord, hrest⟩ := take_split h
  obtain ⟨hsteps₁, r, hr, -, rfl⟩ :=
    openOrStart_steps .everything hs hadmits trivial hstart
  have hs₁ := hsteps₁.consistent hs
  obtain ⟨hsteps₂, -⟩ :=
    record_steps .everything hs₁ ⟨r, hr, rfl⟩ trivial hname hrecord
  have hs₂ := hsteps₂.consistent hs₁
  refine ⟨r.id, s₁, s₂, hstart, hrecord, ?_⟩
  rcases hrest with ⟨-, ids, s₃, hsessions, hall⟩ | ⟨-, rfl⟩
  · obtain ⟨⟨kept, rfl⟩, rfl⟩ := sessionsAt_ids hs₂.undamaged hsessions
    have hs₃ : Store.Consistent { s₂ with kept } := hs₂.of_eq rfl rfl rfl rfl
    have hfanout : ∀ id ∈ (s₂.reports.rows.filter (·.isSessionAt sample.timeMs)).map (·.id),
        (∃ r ∈ s₂.reports.rows, r.id = id ∧ r.kind = .session) ∧
          ∃ r ∈ s₂.reports.rows, r.id = id := by
      intro id hid
      obtain ⟨x, hx, rfl⟩ := List.mem_map.1 hid
      obtain ⟨hx, hat⟩ := List.mem_filter.1 hx
      simp only [ReportRow.isSessionAt, Bool.and_eq_true, beq_iff_eq] at hat
      exact ⟨⟨x, hx, rfl, hat.1.1⟩, x, hx, rfl⟩
    obtain ⟨hsteps₃, hreports⟩ := recordInAll_steps
      ⟨fun id => ∃ r ∈ s₂.reports.rows, r.id = id ∧ r.kind = .session, fun _ => False⟩ sample hname
      _ hs₃ hfanout hall
    exact ⟨hreports, (Store.Step.keep kept).steps.trans hsteps₃⟩
  · exact ⟨rfl, .refl⟩

theorem take_steps (hs : s.Consistent) {version : Option String} {sample : MetricSample}
    (hsample : sample.validate = .ok ()) {result : Option Int}
    (h : Yields (take version sample) s result s') : Store.Steps (.unended s) s s' := by
  obtain ⟨hname, hadmits⟩ := of_validate hsample
  obtain ⟨id, s₁, s₂, hstart, hrecord, -, hsteps₃⟩ := take_cases hs hsample h
  have hold := openOrStart_mem hs.undamaged hstart
  obtain ⟨hsteps₁, r, hr, hopen, rfl⟩ :=
    openOrStart_steps (.unended s) hs hadmits trivial hstart
  have hs₁ := hsteps₁.consistent hs
  have htouches : (Scope.unended s).touches r.id := by
    intro x hx hid
    obtain rfl := hs₁.report_eq (hold x hx) hr hid
    exact .inr (ReportRow.isOpenAs_iff.1 hopen).2.2
  obtain ⟨hsteps₂, hreports⟩ :=
    record_steps (.unended s) hs₁ ⟨r, hr, rfl⟩ htouches hname hrecord
  have hs₂ := hsteps₂.consistent hs₁
  refine (hsteps₁.trans hsteps₂).trans (hsteps₃.mono ?_ fun _ => False.elim)
  rintro id ⟨x, hx, rfl, hkind⟩ y hy hid
  obtain rfl := hs₂.report_eq (hreports ▸ hold y hy) hx hid
  exact .inl hkind

/-! ### Sessions -/

theorem startSession_steps (hs : s.Consistent) {version : Option String} {name : String} {t : Int}
    (hname : ReportKind.session.Admits (some name)) (hscope : scope.starts .session) {u : Unit}
    (h : Yields (startSession version name t) s u s') : Store.Steps scope s s' := by
  obtain ⟨id, s₁, hstart, h⟩ := yields_bind.1 h
  obtain ⟨-, rfl⟩ := yields_pure.1 h
  exact (openOrStart_steps scope hs hname hscope hstart).1

theorem seed_steps {source target t : Int} (hscope : scope.touches target) (keys : List String) :
    ∀ {s s' : Store} {u : Unit}, s.Consistent → (∃ r ∈ s.reports.rows, r.id = target) →
      Yields (seed source target t keys) s u s' →
      Store.Steps scope s s' ∧ s'.reports = s.reports := by
  induction keys with
  | nil =>
    intro s s' u _ _ h
    obtain ⟨-, rfl⟩ := yields_pure.1 h
    exact ⟨.refl, rfl⟩
  | cons key keys ih =>
    intro s s' u hs howner h
    obtain ⟨m?, s₁, hfind, h⟩ := yields_bind.1 h
    obtain ⟨hm, rfl⟩ := yields_query.1 hfind
    rw [Store.findMetric?_eq hs.undamaged, Except.ok.injEq] at hm
    split at h
    · next m =>
      obtain ⟨v?, s₂, hlatest, h⟩ := yields_bind.1 h
      obtain ⟨kept, rfl⟩ := looks_latestUpTo m.id t s v? s₂ hlatest
      refine And.imp_left (Store.Step.keep kept).steps.trans ?_
      have hs₁ : Store.Consistent { s with kept } := hs.of_eq rfl rfl rfl rfl
      split at h
      · obtain ⟨result, s₃, hrecord, h⟩ := yields_bind.1 h
        have hname := hs.metricNamed m (List.mem_of_find?_eq_some hm)
        obtain ⟨hsteps, hreports⟩ := record_steps scope hs₁ howner hscope hname hrecord
        obtain ⟨hsteps', hreports'⟩ := ih (hsteps.consistent hs₁) (hreports ▸ howner) h
        exact ⟨hsteps.trans hsteps', hreports'.trans hreports⟩
      · exact ih hs₁ howner h
    · exact ih hs howner h

/-- A session that is open already is left alone; another one is started, and may be seeded. -/
theorem startSeeded_cases (hs : s.Undamaged) {version : Option String} {name : String} {t : Int}
    {keys : List String} {u : Unit} (h : Yields (startSeeded version name t keys) s u s') :
    s' = s ∨ s.reports.rows.find? (·.isOpenAs .session (some name)) = none ∧
      ∃ id s₁, Yields (openOrStart .session (some name) t version) s id s₁ ∧
        (s' = s₁ ∨ ∃ source, Yields (seed source id t keys) s₁ () s') := by
  unfold startSeeded at h
  obtain ⟨r?, s₁, hlook, h⟩ := yields_bind.1 h
  obtain ⟨hopen, rfl⟩ := yields_query.1 hlook
  rw [Store.openReport?_eq hs, Except.ok.injEq] at hopen
  cases r? with
  | some r =>
    obtain ⟨-, rfl⟩ := yields_pure.1 h
    exact .inl rfl
  | none =>
    obtain ⟨id, s₂, hstart, h⟩ := yields_bind.1 h
    obtain ⟨hourly?, s₃, hlook', h⟩ := yields_bind.1 h
    obtain ⟨-, rfl⟩ := yields_query.1 hlook'
    refine .inr ⟨hopen, id, s₂, hstart, ?_⟩
    split at h
    · next hourly => exact .inr ⟨hourly.id, h⟩
    · obtain ⟨-, rfl⟩ := yields_pure.1 h
      exact .inl rfl

/-- A seeded session is a new report, and nothing else is touched. -/
theorem startSeeded_steps (hs : s.Consistent) {version : Option String} {name : String} {t : Int}
    {keys : List String} (hname : ReportKind.session.Admits (some name))
    (hscope : ∀ id, (∀ r ∈ s.reports.rows, r.id ≠ id) → scope.touches id)
    (hstarts : scope.starts .session) {u : Unit}
    (h : Yields (startSeeded version name t keys) s u s') : Store.Steps scope s s' := by
  rcases startSeeded_cases hs.undamaged h with rfl | ⟨hopen, id, s₁, hstart, hseed⟩
  · exact .refl
  obtain ⟨hsteps, r, hr, -, rfl⟩ := openOrStart_steps scope hs hname hstarts hstart
  have hnew : ∀ x ∈ s.reports.rows, x.id ≠ r.id := by
    rcases Store.openOrStart_eq_ok hs.undamaged (yields_update.1 hstart) with
      ⟨x, hx, -⟩ | ⟨-, hid, -⟩
    · rw [hopen] at hx
      cases hx
    · rw [hid]
      exact fun x hx => ne_of_lt (hs.reportsNumbered.lt_nextId hx)
  rcases hseed with rfl | ⟨source, h⟩
  · exact hsteps
  · exact hsteps.trans
      (seed_steps scope (hscope r.id hnew) keys (hsteps.consistent hs) ⟨r, hr, rfl⟩ h).1

theorem endSession_steps (hs : s.Consistent) {name : String} {t : Int}
    (hscope : ∀ r ∈ s.reports.rows, r.isOpenAs .session (some name) = true → scope.touches r.id)
    {u : Unit} (h : Yields (endSession name t) s u s') : Store.Steps scope s s' := by
  rcases Store.endOpen_eq_ok hs.undamaged (yields_change.1 h) with ⟨-, rfl⟩ | ⟨r, hr, rfl⟩
  · exact .refl
  · have hmem := List.mem_of_find?_eq_some hr
    have hopen : r.isOpenAs .session (some name) = true := by simpa using List.find?_some hr
    refine (Store.Step.finish t fun x hx hid => ?_).steps
    obtain rfl := hs.report_eq hx hmem (by simpa using hid)
    refine ⟨hscope x hmem hopen, ?_⟩
    obtain ⟨hkind, -, hend⟩ := ReportRow.isOpenAs_iff.1 hopen
    exact ⟨by simp [hkind], hend⟩

end Transaction

end Telemetry
