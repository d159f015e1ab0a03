import Telemetry.Proofs.Recording

/-!
# The open accumulator

What an open hourly accumulator holds, name by name.  A sample that is addressed to it adds to one
series, and samples and sessions that are not leave it alone.
-/

namespace Telemetry

namespace Store

def hourly? (s : Store) : Option ReportRow := s.reports.rows.find? (·.isOpenAs .hourly none)

def hourlySeries (s : Store) (name : String) : List TimedValue :=
  s.hourly?.elim [] fun r => s.seriesOf r.id name

def hourlyMetric? (s : Store) (name : String) : Option MetricRow :=
  s.hourly?.bind fun r => s.metric? r.id name

variable {s s' s'' : Store}

/-! ### The open accumulator -/

theorem of_hourly? {r : ReportRow} (h : s.hourly? = some r) :
    r ∈ s.reports.rows ∧ r.kind = .hourly ∧ r.name = none ∧ r.endMs = none :=
  Collecting.of_find_open h

/-- What is open is found by its kind and its name. -/
theorem Consistent.find_open (hs : s.Consistent) {kind : ReportKind} {name : Option String}
    {r : ReportRow} (hr : r ∈ s.reports.rows) (hopen : r.isOpenAs kind name = true) :
    s.reports.rows.find? (·.isOpenAs kind name) = some r := by
  obtain ⟨x, hx⟩ := Option.isSome_iff_exists.1 (List.find?_isSome.2 ⟨r, hr, hopen⟩)
  rw [hx, hs.open_eq (List.mem_of_find?_eq_some hx) hr (List.find?_some hx) hopen]

theorem Consistent.hourly?_eq (hs : s.Consistent) {r : ReportRow} (hr : r ∈ s.reports.rows)
    (hkind : r.kind = .hourly) (hend : r.endMs = none) : s.hourly? = some r := by
  have hname : r.name = none := hs.unnamed hr (by simp [hkind])
  exact hs.find_open hr (ReportRow.isOpenAs_iff.2 ⟨hkind, hname, hend⟩)

theorem NoneOpen.hourly?_eq (h : s.NoneOpen .hourly) : s.hourly? = none := by
  cases hopen : s.hourly? with
  | none => rfl
  | some r =>
    obtain ⟨hr, hkind, -, hend⟩ := of_hourly? hopen
    exact absurd hend (h r hr hkind)

theorem Consistent.noneOpen (hs : s.Consistent) (h : s.hourly? = none) : s.NoneOpen .hourly := by
  intro r hr hkind hend
  rw [hs.hourly?_eq hr hkind hend] at h
  cases h

theorem of_hourlyMetric? {name : String} {m : MetricRow} (h : s.hourlyMetric? name = some m) :
    ∃ r, s.hourly? = some r ∧ r ∈ s.reports.rows ∧ m ∈ s.metrics.rows ∧ m.reportId = r.id ∧
      m.spec.eventName = name ∧ s.hourlySeries name = s.timedOf m.id := by
  obtain ⟨r, hopen, hm⟩ := Option.bind_eq_some_iff.1 h
  obtain ⟨hmem, hid, hname⟩ := of_metric? hm
  refine ⟨r, hopen, (of_hourly? hopen).1, hmem, hid, hname, ?_⟩
  rw [hourlySeries, hopen, Option.elim_some, seriesOf, hm]
  rfl

/-- A name with values in the open accumulator has a metric there. -/
theorem hourlyMetric?_of_series {name : String} (h : s.hourlySeries name ≠ []) :
    ∃ m, s.hourlyMetric? name = some m := by
  rw [hourlySeries] at h
  cases hopen : s.hourly? with
  | none => simp [hopen] at h
  | some r =>
    cases hm : s.metric? r.id name with
    | none => simp [hopen, seriesOf, hm] at h
    | some m => exact ⟨m, by simp [hourlyMetric?, hopen, hm]⟩

theorem SameReport.hourly?_eq {r : ReportRow} (h : SameReport r.id s s') (hs' : s'.Consistent)
    (hopen : s.hourly? = some r) : s'.hourly? = some r := by
  obtain ⟨hr, hkind, -, hend⟩ := of_hourly? hopen
  exact hs'.hourly?_eq ((h.mem_reports rfl).2 hr) hkind hend

theorem SameReport.hourlySeries_eq {r : ReportRow} (h : SameReport r.id s s') (hs' : s'.Consistent)
    (hopen : s.hourly? = some r) (name : String) : s'.hourlySeries name = s.hourlySeries name := by
  rw [hourlySeries, hourlySeries, h.hourly?_eq hs' hopen, hopen]
  exact h.seriesOf_eq name

/-- The open accumulator is as it was. -/
structure KeepsHourly (s s' : Store) : Prop where
  hourly : s'.hourly? = s.hourly?
  series : ∀ name, s'.hourlySeries name = s.hourlySeries name

theorem KeepsHourly.refl (s : Store) : KeepsHourly s s := ⟨rfl, fun _ => rfl⟩

theorem KeepsHourly.trans (h : KeepsHourly s s') (h' : KeepsHourly s' s'') : KeepsHourly s s'' :=
  ⟨h'.hourly.trans h.hourly, fun name => (h'.series name).trans (h.series name)⟩

/-- Steps outside whose scope it is leave the open accumulator alone. -/
theorem Steps.keepsHourly {scope : Scope} (h : Steps scope s s') (hs : s.Consistent)
    (htouches : ∀ r, s.hourly? = some r → ¬scope.touches r.id) (hstarts : ¬scope.starts .hourly) :
    KeepsHourly s s' := by
  have hs' := h.consistent hs
  cases hopen : s.hourly? with
  | some r =>
    obtain ⟨hr, -⟩ := of_hourly? hopen
    have hsame := h.sameReport hs ⟨r, hr, rfl⟩ (htouches r hopen)
    exact ⟨(hsame.hourly?_eq hs' hopen).trans hopen.symm, hsame.hourlySeries_eq hs' hopen⟩
  | none =>
    have hnone := (h.noneOpen (hs.noneOpen hopen) hstarts).hourly?_eq
    refine ⟨hnone.trans hopen.symm, fun name => ?_⟩
    rw [hourlySeries, hnone, hourlySeries, hopen]
    rfl

theorem SeenAs.keepsHourly (h : s.SeenAs s') : KeepsHourly s s' := by
  obtain ⟨kept, rfl⟩ := h
  exact ⟨rfl, fun _ => rfl⟩

end Store

/-! ### Samples -/

namespace Transaction

variable {s s' : Store}

/-- A successor begins without metrics. -/
theorem openOrStart_hourly (hs : s.Consistent) {t id : Int} {version : Option String}
    (hnone : s.hourly? = none) (h : Yields (openOrStart .hourly none t version) s id s') :
    s'.Consistent ∧ (∃ r, s'.hourly? = some r ∧ r.id = id ∧ r.startMs = t) ∧
      s'.metricRowsOf id = [] ∧
      ∀ id', (∃ r ∈ s.reports.rows, r.id = id') → Store.SameReport id' s s' := by
  have hsteps : Store.Steps ⟨fun _ => False, fun _ => True⟩ s s' :=
    (openOrStart_steps _ hs (by exact rfl : ReportKind.hourly.Admits none) trivial h).1
  have hs' := hsteps.consistent hs
  refine ⟨hs', ?_, ?_, fun id' howner => hsteps.sameReport hs howner not_false⟩
  · rcases Store.openOrStart_eq_ok hs.undamaged (yields_update.1 h) with
      ⟨r, hr, -⟩ | ⟨-, rfl, rfl⟩
    · rw [Store.hourly?, hr] at hnone
      cases hnone
    · refine ⟨⟨s.reports.nextId, .hourly, none, t, none, version⟩, ?_, rfl, rfl⟩
      refine hs'.hourly?_eq ?_ rfl rfl
      exact List.mem_append_right _ (List.mem_singleton_self _)
  · rcases Store.openOrStart_eq_ok hs.undamaged (yields_update.1 h) with
      ⟨r, hr, -⟩ | ⟨-, rfl, rfl⟩
    · rw [Store.hourly?, hr] at hnone
      cases hnone
    · refine List.filter_eq_nil_iff.2 fun m hm hid => ?_
      obtain ⟨r, hr, hrm⟩ := hs.metricOwned m hm
      have hlt := hs.reportsNumbered.lt_nextId hr
      have hm : r.id = s.reports.nextId := hrm.trans (beq_iff_eq.1 hid)
      exact absurd hm (ne_of_lt hlt)

/-- Recording a value in the open accumulator adds it to one series. -/
theorem record_hourly (hs : s.Consistent) {r : ReportRow} (hopen : s.hourly? = some r)
    {spec : MetricSpec} (hname : spec.eventName ≠ "") {version : Nat} {t : Int}
    {value : SampleValue} {result : Option Int}
    (h : Yields (record r.id spec version t value) s result s') :
    s'.hourly? = some r ∧ result.isSome = !value.isNaN ∧ ∀ name, s'.hourlySeries name =
      s.hourlySeries name ++ if name = spec.eventName then recorded t value else [] := by
  obtain ⟨hr, hkind, -, hend⟩ := Store.of_hourly? hopen
  have howner : ∃ x ∈ s.reports.rows, x.id = r.id := ⟨r, hr, rfl⟩
  obtain ⟨hsteps, hreports⟩ := record_steps .everything hs howner trivial hname h
  have hopen' := (hsteps.consistent hs).hourly?_eq (hreports ▸ hr) hkind hend
  obtain ⟨hresult, hself, hother⟩ := record_seriesOf hs howner hname h
  refine ⟨hopen', hresult, fun name => ?_⟩
  rw [Store.hourlySeries, hopen', Store.hourlySeries, hopen, Option.elim_some, Option.elim_some]
  split
  · next hsame => rw [hsame, hself]
  · next hne => rw [hother r.id name fun hboth => hne hboth.2, List.append_nil]

theorem keepsHourly_of_sessions (hs : s.Consistent)
    (h : Store.Steps ⟨fun id => ∃ r ∈ s.reports.rows, r.id = id ∧ r.kind = .session,
      fun _ => False⟩ s s') : Store.KeepsHourly s s' := by
  refine h.keepsHourly hs (fun r hopen => ?_) not_false
  rintro ⟨x, hx, hid, hsession⟩
  obtain ⟨hr, hkind, -⟩ := Store.of_hourly? hopen
  rw [hs.report_eq hx hr hid, hkind] at hsession
  cases hsession

/-- An hourly sample adds to one series of the open accumulator, which it starts if none is open. -/
theorem take_hourly (hs : s.Consistent) {version : Option String} {sample : MetricSample}
    (hsample : sample.validate = .ok ()) (hkind : sample.reportKind = .hourly)
    {result : Option Int} (h : Yields (take version sample) s result s') :
    result.isSome = !sample.value.isNaN ∧
      (∃ r, s'.hourly? = some r ∧
        (s.hourly? = some r ∨ s.hourly? = none ∧ r.startMs = sample.timeMs)) ∧
      ∀ name, s'.hourlySeries name = s.hourlySeries name ++
        if name = sample.eventName then recorded sample.timeMs sample.value else [] := by
  obtain ⟨hname, hadmits⟩ := of_validate hsample
  have hnone : sample.sessionName = none := by
    rw [hkind] at hadmits
    exact hadmits
  obtain ⟨id, s₁, s₂, hstart, hrecord, -, hsteps⟩ := take_cases hs hsample h
  rw [hkind, hnone] at hstart
  -- the accumulator that the sample goes to
  have hstarted : s₁.Consistent ∧ (∀ name, s₁.hourlySeries name = s.hourlySeries name) ∧
      ∃ r, s₁.hourly? = some r ∧ r.id = id ∧
        (s.hourly? = some r ∨ s.hourly? = none ∧ r.startMs = sample.timeMs) := by
    cases hopen : s.hourly? with
    | some r =>
      rcases Store.openOrStart_eq_ok hs.undamaged (yields_update.1 hstart) with
        ⟨x, hx, rfl, rfl⟩ | ⟨hx, -⟩
      · have hx : s₁.hourly? = some x := hx
        exact ⟨hs, fun _ => rfl, x, hx, rfl, .inl (hopen.symm.trans hx)⟩
      · have hx : s.hourly? = none := hx
        rw [hopen] at hx
        cases hx
    | none =>
      obtain ⟨hs₁, ⟨r, hopen₁, hid, htime⟩, hempty, -⟩ := openOrStart_hourly hs hopen hstart
      refine ⟨hs₁, fun name => ?_, r, hopen₁, hid, .inr ⟨rfl, htime⟩⟩
      rw [Store.hourlySeries, hopen₁, Store.hourlySeries, hopen, Option.elim_some,
        Option.elim_none, Store.seriesOf, Store.metric?_eq_head?, hid, hempty]
      rfl
  obtain ⟨hs₁, hseries₁, r, hopen₁, rfl, hwhich⟩ := hstarted
  obtain ⟨hopen₂, hresult, hseries₂⟩ := record_hourly hs₁ hopen₁ hname hrecord
  have hs₂ := (record_steps .everything hs₁ ⟨r, (Store.of_hourly? hopen₁).1, rfl⟩ trivial hname
    hrecord).1.consistent hs₁
  have hkeeps := keepsHourly_of_sessions hs₂ hsteps
  refine ⟨hresult, ⟨r, hkeeps.hourly.trans hopen₂, hwhich⟩, fun name => ?_⟩
  rw [hkeeps.series, hseries₂, hseries₁]
  rfl

/-- A sample for another kind of report leaves the open accumulator alone. -/
theorem take_other (hs : s.Consistent) {version : Option String} {sample : MetricSample}
    (hsample : sample.validate = .ok ()) (hkind : sample.reportKind ≠ .hourly)
    {result : Option Int} (h : Yields (take version sample) s result s') :
    Store.KeepsHourly s s' := by
  obtain ⟨hname, hadmits⟩ := of_validate hsample
  obtain ⟨id, s₁, s₂, hstart, hrecord, -, hsteps⟩ := take_cases hs hsample h
  obtain ⟨hsteps₁, r, hr, hopen, rfl⟩ :=
    openOrStart_steps ⟨fun _ => False, fun kind => kind ≠ .hourly⟩ hs hadmits hkind hstart
  have hs₁ := hsteps₁.consistent hs
  obtain ⟨hsteps₂, -⟩ := record_steps ⟨fun id => id = r.id, fun _ => False⟩ hs₁ ⟨r, hr, rfl⟩ rfl
    hname hrecord
  have hs₂ := hsteps₂.consistent hs₁
  refine (hsteps₁.keepsHourly hs (fun _ _ => not_false) (by simp)).trans
    ((hsteps₂.keepsHourly hs₁ (fun x hx hid => hkind ?_) not_false).trans
      (keepsHourly_of_sessions hs₂ hsteps))
  obtain ⟨hxr, hxkind, -⟩ := Store.of_hourly? hx
  obtain rfl := hs₁.report_eq hxr hr hid
  exact (ReportRow.isOpenAs_iff.1 hopen).1.symm.trans hxkind

/-! ### Sessions -/

theorem startSession_keepsHourly (hs : s.Consistent) {version : Option String} {name : String}
    {t : Int} (hname : ReportKind.session.Admits (some name)) {u : Unit}
    (h : Yields (startSession version name t) s u s') : Store.KeepsHourly s s' :=
  (startSession_steps ⟨fun _ => False, fun kind => kind = .session⟩ hs hname rfl h).keepsHourly hs
    (fun _ _ => not_false) (by simp)

theorem startSeeded_keepsHourly (hs : s.Consistent) {version : Option String} {name : String}
    {t : Int} {keys : List String} (hname : ReportKind.session.Admits (some name)) {u : Unit}
    (h : Yields (startSeeded version name t keys) s u s') : Store.KeepsHourly s s' := by
  refine (startSeeded_steps ⟨fun id => ∀ r ∈ s.reports.rows, r.id ≠ id, fun kind => kind = .session⟩
    hs hname (fun _ hnew => hnew) rfl h).keepsHourly hs (fun r hopen hnew => ?_) (by simp)
  exact hnew r (Store.of_hourly? hopen).1 rfl

theorem endSession_keepsHourly (hs : s.Consistent) {name : String} {t : Int} {u : Unit}
    (h : Yields (endSession name t) s u s') : Store.KeepsHourly s s' := by
  refine keepsHourly_of_sessions hs (endSession_steps _ hs (fun r hr hopen => ⟨r, hr, rfl, ?_⟩) h)
  exact (ReportRow.isOpenAs_iff.1 hopen).1

end Transaction

end Telemetry
