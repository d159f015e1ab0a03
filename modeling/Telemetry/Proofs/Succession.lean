import Telemetry.Proofs.Carrying
import Telemetry.Proofs.Holdings
import Telemetry.Proofs.Removal

/-!
# What a successor adds

Carrying over changes no row: it adds rows behind those that are there.  A report that is added is
the successor, a metric that is added is one of the successor's, and a value that is added repeats
one of the metrics that are carried over, with its version and its own time.
-/

namespace Telemetry

theorem filter_append_left {α : Type} {l l' : List α} {p : α → Bool}
    (h : ∀ x ∈ l', p x = false) : (l ++ l').filter p = l.filter p := by
  have hnone : l'.filter p = [] := List.filter_eq_nil_iff.2 fun x hx => by simp [h x hx]
  rw [List.filter_append, hnone, List.append_nil]

/-- The value says the same as another one, of whatever metric that is. -/
structure ValueRow.Repeats (v w : ValueRow) : Prop where
  version : v.version = w.version
  timeMs : v.timeMs = w.timeMs
  value : v.value = w.value

/-- The second store is the first one with rows added that continue a report. -/
structure Store.ContinuedBy (source now : Int) (s s' : Store) : Prop where
  reports : ∃ rows, s'.reports.rows = s.reports.rows ++ rows ∧
    ∀ r ∈ rows, r.kind = .hourly ∧ r.endMs = none
  metrics : ∃ rows, s'.metrics.rows = s.metrics.rows ++ rows ∧
    ∀ m ∈ rows, ∃ r, s'.hourly? = some r ∧ m.reportId = r.id
  values : ∃ rows, s'.values.rows = s.values.rows ++ rows ∧
    ∀ v ∈ rows,
      (∃ r, s'.hourly? = some r ∧ ∃ m ∈ s'.metricRowsOf r.id, v.metricId = m.id) ∧
      ∃ m ∈ s.metricRowsOf source, m.spec.carryOver = true ∧
        ∃ w ∈ s.valuesOf m.id, w.timeMs ≤ now ∧ v.Repeats w

namespace Store.ContinuedBy

variable {source now : Int} {s s' s'' : Store}

theorem refl (source now : Int) (s : Store) : s.ContinuedBy source now s :=
  ⟨⟨[], by simp⟩, ⟨[], by simp⟩, ⟨[], by simp⟩⟩

/-- The rows of a successor are added one after the other, as long as it stays open and the report
that it continues stays as it was. -/
theorem trans (h : s.ContinuedBy source now s') (h' : s'.ContinuedBy source now s'')
    (hopen : ∀ r, s'.hourly? = some r → s''.hourly? = some r) (hsame : SameReport source s s') :
    s.ContinuedBy source now s'' := by
  obtain ⟨rs, hrs, hreports⟩ := h.reports
  obtain ⟨rs', hrs', hreports'⟩ := h'.reports
  obtain ⟨ms, hms, hmetrics⟩ := h.metrics
  obtain ⟨ms', hms', hmetrics'⟩ := h'.metrics
  obtain ⟨vs, hvs, hvalues⟩ := h.values
  obtain ⟨vs', hvs', hvalues'⟩ := h'.values
  refine ⟨⟨rs ++ rs', by rw [hrs', hrs, List.append_assoc], ?_⟩,
    ⟨ms ++ ms', by rw [hms', hms, List.append_assoc], ?_⟩,
    ⟨vs ++ vs', by rw [hvs', hvs, List.append_assoc], ?_⟩⟩
  · intro r hr
    exact (List.mem_append.1 hr).elim (hreports r) (hreports' r)
  · intro m hm
    rcases List.mem_append.1 hm with hm | hm
    · exact (hmetrics m hm).imp fun r hr => ⟨hopen r hr.1, hr.2⟩
    · exact hmetrics' m hm
  · intro v hv
    rcases List.mem_append.1 hv with hv | hv
    · obtain ⟨⟨r, hr, m, hm, hid⟩, hrepeats⟩ := hvalues v hv
      obtain ⟨hm, hreport⟩ := mem_metricRowsOf.1 hm
      have hm' : m ∈ s''.metrics.rows := hms' ▸ List.mem_append_left _ hm
      exact ⟨⟨r, hopen r hr, m, mem_metricRowsOf.2 ⟨hm', hreport⟩, hid⟩, hrepeats⟩
    · obtain ⟨hnew, m, hm, hcarried, w, hw, hrepeats⟩ := hvalues' v hv
      rw [hsame.metrics] at hm
      rw [hsame.values m hm] at hw
      exact ⟨hnew, m, hm, hcarried, w, hw, hrepeats⟩

/-- What is not the successor stays as it was. -/
theorem sameReport (h : s.ContinuedBy source now s') (hs' : s'.Consistent) {r : ReportRow}
    (hr : r ∈ s.reports.rows) (hnot : r.kind = .hourly → r.endMs ≠ none) :
    SameReport r.id s s' := by
  obtain ⟨rs, hrs, -⟩ := h.reports
  obtain ⟨ms, hms, hmetrics⟩ := h.metrics
  obtain ⟨vs, hvs, hvalues⟩ := h.values
  have hr' : r ∈ s'.reports.rows := hrs ▸ List.mem_append_left _ hr
  have hother : ∀ x, s'.hourly? = some x → x.id ≠ r.id := by
    intro x hx hid
    obtain ⟨hxr, hkind, -, hend⟩ := of_hourly? hx
    obtain rfl := hs'.report_eq hxr hr' hid
    exact hnot hkind hend
  refine ⟨?_, ?_, fun m hm => ?_⟩
  · have hincreasing := hs'.reportsNumbered.increasing
    rw [hrs, List.pairwise_append] at hincreasing
    rw [hrs, filter_append_left]
    intro x hx
    exact beq_false_of_ne (ne_of_gt (hincreasing.2.2 r hr x hx))
  · rw [metricRowsOf, hms, filter_append_left, metricRowsOf]
    intro m hm
    obtain ⟨x, hx, hmx⟩ := hmetrics m hm
    exact beq_false_of_ne fun hid => hother x hx (hmx.symm.trans hid)
  · obtain ⟨hm, hreport⟩ := mem_metricRowsOf.1 hm
    rw [valuesOf, hvs, filter_append_left, valuesOf]
    intro v hv
    refine beq_false_of_ne fun hid => ?_
    obtain ⟨⟨x, hx, m', hm', hvm⟩, -⟩ := hvalues v hv
    obtain ⟨hm', hreport'⟩ := mem_metricRowsOf.1 hm'
    rw [hs'.metric_eq hm' (hms ▸ List.mem_append_left _ hm) (hvm.symm.trans hid)] at hreport'
    exact hother x hx (hreport'.symm.trans hreport)

theorem filter_reports (h : s.ContinuedBy source now s') {q : ReportRow → Bool}
    (hq : ∀ r, r.kind = .hourly → q r = false) :
    s'.reports.rows.filter q = s.reports.rows.filter q := by
  obtain ⟨rs, hrs, hreports⟩ := h.reports
  rw [hrs, filter_append_left fun r hr => hq r (hreports r hr).1]

end Store.ContinuedBy

/-- The open accumulator, if there is one, has no metric of the name. -/
def Store.NameFree (name : String) (s : Store) : Prop :=
  ∀ r, s.hourly? = some r → ∀ x ∈ s.metricRowsOf r.id, x.spec.eventName ≠ name

/-- The open accumulator, if there is one, is of a software version. -/
def Store.HourlyOf (version : Option String) (s : Store) : Prop :=
  ∀ r, s.hourly? = some r → r.softwareVersion = version

/-! ### Closing the accumulator -/

/-- The report with its end, if it was the open hourly accumulator. -/
def ReportRow.closedAt (now : Int) (r : ReportRow) : ReportRow :=
  if r.isOpenAs .hourly none then { r with endMs := some now } else r

theorem ReportRow.closedAt_id (now : Int) (r : ReportRow) : (r.closedAt now).id = r.id := by
  unfold closedAt
  split <;> rfl

theorem ReportRow.closedAt_kind (now : Int) (r : ReportRow) : (r.closedAt now).kind = r.kind := by
  unfold closedAt
  split <;> rfl

theorem ReportRow.closedAt_of_kind {r : ReportRow} (h : r.kind ≠ .hourly) (now : Int) :
    r.closedAt now = r := by
  rw [closedAt, if_neg (by simp [isOpenAs, h])]

namespace Store

/-- The store with the hourly accumulator ended, if one was open. -/
def closed (s : Store) (now : Int) : Store :=
  { s with reports :=
      s.reports.update (·.isOpenAs .hourly none) fun r => { r with endMs := some now } }

variable {s : Store} {now : Int}

theorem mem_closed {r : ReportRow} :
    r ∈ (s.closed now).reports.rows ↔ ∃ x ∈ s.reports.rows, x.closedAt now = r := List.mem_map

theorem closed_of_none (h : s.hourly? = none) (now : Int) : s.closed now = s := by
  have hnone : ∀ r ∈ s.reports.rows, r.isOpenAs .hourly none = false := by
    intro r hr
    simpa using List.find?_eq_none.1 h r hr
  rw [closed, Table.update_none hnone]

theorem Consistent.closed_eq (hs : s.Consistent) {r : ReportRow} (hopen : s.hourly? = some r)
    (now : Int) : s.closed now = s.ended r.id now := by
  obtain ⟨hr, hopen⟩ := of_hourly? hopen
  have hthis : r.isOpenAs .hourly none = true := ReportRow.isOpenAs_iff.2 hopen
  have hrows : s.reports.update (·.isOpenAs .hourly none)
        (fun r => { r with endMs := some now }) =
      s.reports.update (fun x => x.id == r.id) fun r => { r with endMs := some now } := by
    unfold Table.update
    congr 1
    refine List.map_congr_left fun x hx => ?_
    have hsame : x.isOpenAs .hourly none = (x.id == r.id) := by
      rw [Bool.eq_iff_iff, beq_iff_eq]
      constructor
      · exact fun hx' => congrArg ReportRow.id (hs.open_eq hx hr hx' hthis)
      · intro hid
        rwa [hs.report_eq hx hr hid]
    simp only [hsame]
  rw [closed, hrows, ended]

theorem Consistent.closed (hs : s.Consistent) (now : Int) : (s.closed now).Consistent := by
  refine hs.finish now fun r _ hopen hkind => ?_
  simp [ReportRow.isOpenAs, hkind] at hopen

/-- In a store whose accumulator is closed none is open. -/
theorem Consistent.closed_ended (hs : s.Consistent) {r : ReportRow}
    (hr : r ∈ (s.closed now).reports.rows) (hkind : r.kind = .hourly) : r.endMs ≠ none := by
  obtain ⟨x, hx, rfl⟩ := mem_closed.1 hr
  unfold ReportRow.closedAt at hkind ⊢
  split
  · simp
  · next hnot =>
    rw [if_neg hnot] at hkind
    intro hend
    exact hnot (ReportRow.isOpenAs_iff.2 ⟨hkind, hs.unnamed hx (by simp [hkind]), hend⟩)

/-- Reports that are no hourly ones are not closed. -/
theorem filter_closed {q : ReportRow → Bool} (hq : ∀ r, r.kind = .hourly → q r = false) :
    (s.closed now).reports.rows.filter q = s.reports.rows.filter q := by
  refine Table.filter_update fun r _ hopen => ?_
  have hkind : r.kind = .hourly := (ReportRow.isOpenAs_iff.1 hopen).1
  exact ⟨hq r hkind, hq _ hkind⟩

end Store

namespace Collecting

variable {s s' : Store}

/-- What is started for a successor is the successor. -/
theorem successor_adds {version : Option String} {now id id' : Int} {s₁ : Store} (hs : s.Undamaged)
    (h : s.hourly?.map (·.id) = some id' ∧ s₁ = s ∨ s.hourly?.map (·.id) = none ∧
      Yields (Transaction.openOrStart .hourly none now version) s id' s₁) :
    s.ContinuedBy id now s₁ := by
  rcases h with ⟨-, rfl⟩ | ⟨-, hstart⟩
  · exact .refl id now s₁
  · rcases Store.openOrStart_eq_ok hs (Transaction.yields_update.1 hstart) with
      ⟨-, -, -, rfl⟩ | ⟨-, -, rfl⟩
    · exact .refl id now s₁
    · exact ⟨⟨_, rfl, by simp⟩, ⟨[], by simp⟩, ⟨[], by simp⟩⟩

theorem successor_nameFree {version : Option String} {now id' : Int} {s₁ : Store} {name : String}
    (hs : s.Consistent) (hfree : s.NameFree name)
    (h : s.hourly?.map (·.id) = some id' ∧ s₁ = s ∨ s.hourly?.map (·.id) = none ∧
      Yields (Transaction.openOrStart .hourly none now version) s id' s₁) : s₁.NameFree name := by
  rcases h with ⟨-, rfl⟩ | ⟨hnone, hstarted⟩
  · exact hfree
  · obtain ⟨-, ⟨x, hopen, rfl, -⟩, hempty, -⟩ := Transaction.openOrStart_hourly hs
      (Option.map_eq_none_iff.1 hnone) hstarted
    intro r hr y hy
    obtain rfl := Option.some.inj (hopen.symm.trans hr)
    rw [hempty] at hy
    cases hy

/-- What is recorded of a metric that is carried over repeats it, under a name that is free. -/
theorem record_continues {now id : Int} {s₁ s₂ : Store} {r : ReportRow} {m : MetricRow}
    {v : ValueRow} {result : Option Int} (hsame : Store.SameReport id s s₁)
    (hs₁ : s₁.Consistent) (hopen₁ : s₁.hourly? = some r) (hopen₂ : s₂.hourly? = some r)
    (hm : m ∈ s.metricRowsOf id) (hcarried : m.spec.carryOver = true) (hv : v ∈ s.valuesOf m.id)
    (htime : v.timeMs ≤ now) (hkept : v.value.IsKept) (hfree : s₁.NameFree m.spec.eventName)
    (h : Yields (Transaction.record r.id m.spec v.version v.timeMs v.value) s₁ result s₂) :
    s₁.ContinuedBy id now s₂ := by
  obtain ⟨hreports, hmetrics, hvalues⟩ :=
    Transaction.record_adds hs₁ (hfree r hopen₁) hkept h
  refine ⟨⟨[], by simp [hreports]⟩, ⟨_, hmetrics, ?_⟩, ⟨_, hvalues, ?_⟩⟩
  · intro x hx
    obtain rfl := List.mem_singleton.1 hx
    exact ⟨r, hopen₂, rfl⟩
  · intro x hx
    obtain rfl := List.mem_singleton.1 hx
    refine ⟨⟨r, hopen₂, ⟨_, r.id, m.spec⟩, Store.mem_metricRowsOf.2 ⟨?_, rfl⟩, rfl⟩,
      m, hsame.metrics ▸ hm, hcarried, v, hsame.values m hm ▸ hv, htime, rfl, rfl, rfl⟩
    rw [hmetrics]
    exact List.mem_append_right _ (List.mem_singleton_self _)

/-- A successor begins without metrics, under the version that starts it. -/
theorem successor_holds {version : Option String} {now id' : Int} {s₁ : Store} (hs : s.Consistent)
    (h : s.hourly?.map (·.id) = some id' ∧ s₁ = s ∨ s.hourly?.map (·.id) = none ∧
      Yields (Transaction.openOrStart .hourly none now version) s id' s₁) :
    s₁.hourlyHoldings = s.hourlyHoldings ∧ (s.HourlyOf version → s₁.HourlyOf version) := by
  rcases h with ⟨-, rfl⟩ | ⟨hnone, hstarted⟩
  · exact ⟨rfl, id⟩
  have hnone : s.hourly? = none := Option.map_eq_none_iff.1 hnone
  obtain ⟨-, ⟨x, hopen, rfl, -⟩, hempty, -⟩ := Transaction.openOrStart_hourly hs hnone hstarted
  refine ⟨?_, fun _ r hr => ?_⟩
  · rw [Store.hourlyHoldings, hopen, Store.hourlyHoldings, hnone, Option.elim_some,
      Option.elim_none, Store.holdings, hempty, List.map_nil]
  · rcases Store.openOrStart_eq_ok hs.undamaged (Transaction.yields_update.1 hstarted) with
      ⟨y, hy, -⟩ | ⟨hfind, -, rfl⟩
    · rw [Store.hourly?, hy] at hnone
      cases hnone
    · have hr : (s.reports.rows ++ [_]).find? (·.isOpenAs .hourly none) = some r := hr
      rw [List.find?_append, hfind, Option.none_or, List.find?_singleton] at hr
      split at hr
      · cases hr
        rfl
      · cases hr

/-- One metric is carried over by rows that are added.  The accumulator that is open stays open, and
no other name is taken.  The successor holds then what is carried over of the metric. -/
theorem carry_step_adds {settings : Settings} {version : Option String} {now id : Int}
    {m : MetricRow} {ms : List MetricRow} {u : Unit} (hs : s.Consistent)
    (hended : Store.HasEnded id s) (hm : m ∈ s.metricRowsOf id) (hcarried : m.spec.carryOver = true)
    (hsucc : s.SucceededAt now) (hfree : s.NameFree m.spec.eventName)
    (h : Yields (carry settings version now (s.hourly?.map (·.id)) (m :: ms)) s u s') :
    ∃ s₂, Yields (carry settings version now (s₂.hourly?.map (·.id)) ms) s₂ u s' ∧
      s₂.Consistent ∧ s₂.SucceededAt now ∧ Store.SameReport id s s₂ ∧ s.ContinuedBy id now s₂ ∧
      (∀ r, s.hourly? = some r → s₂.hourly? = some r) ∧
      (∀ name, m.spec.eventName ≠ name → s.NameFree name → s₂.NameFree name) ∧
      s₂.hourlyHoldings = s.hourlyHoldings ++
        (s.carriedHolding? settings.retention.carryOverMaxAge now m).toList ∧
      (s.HourlyOf version → s₂.HourlyOf version) := by
  have hname : m.spec.eventName ≠ "" := hs.metricNamed m (Store.mem_metricRowsOf.1 hm).1
  obtain ⟨v?, hlatest, hcases⟩ := carry_cases h
  obtain rfl := Transaction.latestUpTo_eq_latestRow? hs.undamaged hlatest
  obtain ⟨hold, h⟩ | ⟨v, id', s₁, s₂, result, hlatest, hyoung, hsuccessor, hrecord, h⟩ := hcases
  · refine ⟨s, h, hs, hsucc, .refl id s, .refl id now s, fun _ hr => hr, fun _ _ hfree => hfree,
      ?_, fun hversion => hversion⟩
    rw [Store.carriedHolding?_of_old hold, Option.toList_none, List.append_nil]
  obtain ⟨hv, htime⟩ := Store.of_latestRow? hlatest
  have hkept := hs.valueKept v (Store.mem_valuesOf.1 hv).1
  obtain ⟨r, hopen₁, rfl, hs₁, hstart, hfilled, hsame₁, -⟩ :=
    successor_open hs hended hsucc hsuccessor
  obtain ⟨hs₂, hopen₂, hsucc₂, hsame₂, -⟩ :=
    carry_into hended hsame₁ hs₁ hopen₁ hstart hfilled hname hkept hrecord
  have hfree₁ := successor_nameFree hs hfree hsuccessor
  have hadds := record_continues hsame₁ hs₁ hopen₁ hopen₂ hm hcarried hv htime hkept hfree₁ hrecord
  have hstays : ∀ x, s.hourly? = some x → s₁.hourly? = some x := by
    intro x hx
    rcases hsuccessor with ⟨-, rfl⟩ | ⟨hnone, -⟩
    · exact hx
    · rw [Option.map_eq_none_iff.1 hnone] at hx
      cases hx
  have hstays' : ∀ x, s₁.hourly? = some x → s₂.hourly? = some x := by
    intro x hx
    rw [hopen₂, ← hopen₁, hx]
  refine ⟨s₂, by rw [hopen₂]; exact h, hs₂, hsucc₂, hsame₂,
    (successor_adds hs.undamaged hsuccessor).trans hadds hstays' hsame₁,
    fun x hx => hstays' x (hstays x hx), fun name hne hother x hx y hy => ?_, ?_,
    fun hversion x hx => ?_⟩
  · obtain rfl := Option.some.inj (hopen₂.symm.trans hx)
    rcases (Transaction.record_names hs₁ ⟨r, (Store.of_hourly? hopen₁).1, rfl⟩ hname hrecord).2 y hy
      with hy | hy
    · exact hy ▸ hne
    · exact successor_nameFree hs hother hsuccessor r hopen₁ y hy
  · rw [← (successor_holds hs hsuccessor).1, Store.hourlyHoldings, hopen₂, Option.elim_some,
      Transaction.record_holds hs₁ (hfree₁ r hopen₁) hkept hrecord, Store.hourlyHoldings, hopen₁,
      Option.elim_some, Store.carriedHolding?_of_young hlatest hyoung]
    rfl
  · exact (successor_holds hs hsuccessor).2 hversion x (by rw [hopen₁, ← hopen₂, hx])

/-- What is carried over is added metric by metric. -/
theorem carry_adds {settings : Settings} {version : Option String} {now id : Int}
    (ms : List MetricRow) :
    ∀ {s s' : Store} {u : Unit}, s.Consistent → Store.HasEnded id s →
      (∀ m ∈ ms, m ∈ s.metricRowsOf id ∧ m.spec.carryOver = true) →
      ms.Pairwise (fun a b => a.spec.eventName ≠ b.spec.eventName) → s.SucceededAt now →
      (∀ m ∈ ms, s.NameFree m.spec.eventName) →
      Yields (carry settings version now (s.hourly?.map (·.id)) ms) s u s' →
      s.ContinuedBy id now s' ∧ (∀ r, s.hourly? = some r → s'.hourly? = some r) ∧
        s'.hourlyHoldings = s.hourlyHoldings ++
          ms.filterMap (s.carriedHolding? settings.retention.carryOverMaxAge now) ∧
        (s.HourlyOf version → s'.HourlyOf version) := by
  induction ms with
  | nil =>
    intro s s' u _ _ _ _ _ _ h
    obtain ⟨-, rfl⟩ := yields_pure.1 h
    exact ⟨.refl id now s, fun _ hr => hr, (List.append_nil _).symm, fun hversion => hversion⟩
  | cons m ms ih =>
    intro s s' u hs hended hms hdistinct hsucc hfree h
    simp only [List.forall_mem_cons, List.pairwise_cons] at hms hdistinct hfree
    obtain ⟨s₂, h, hs₂, hsucc₂, hsame₂, hadds, hstays, hnames, hholds, hversion⟩ :=
      carry_step_adds hs hended hms.1.1 hms.1.2 hsucc hfree.1 h
    have hms₂ : ∀ m' ∈ ms, m' ∈ s₂.metricRowsOf id ∧ m'.spec.carryOver = true :=
      fun m' hm' => (hms.2 m' hm').imp_left fun hm' => hsame₂.metrics ▸ hm'
    -- no name is carried over twice
    have hfree₂ : ∀ m' ∈ ms, s₂.NameFree m'.spec.eventName :=
      fun m' hm' => hnames _ (hdistinct.1 m' hm') (hfree.2 m' hm')
    obtain ⟨hadds', hstays', hholds', hversion'⟩ :=
      ih hs₂ (hended.of_same hsame₂) hms₂ hdistinct.2 hsucc₂ hfree₂ h
    refine ⟨hadds.trans hadds' hstays' hsame₂, fun r hr => hstays' r (hstays r hr), ?_,
      fun hof => hversion' (hversion hof)⟩
    have hrest : ms.filterMap (s₂.carriedHolding? settings.retention.carryOverMaxAge now) =
        ms.filterMap (s.carriedHolding? settings.retention.carryOverMaxAge now) :=
      List.filterMap_congr fun m' hm' =>
        hsame₂.carriedHolding?_eq hs.undamaged hs₂.undamaged (hms.2 m' hm').1 _ _
    rw [hholds', hholds, hrest, List.append_assoc, List.filterMap_cons]
    cases s.carriedHolding? settings.retention.carryOverMaxAge now m <;> rfl

theorem carryOver_adds {settings : Settings} {version : Option String} {now id : Int} {u : Unit}
    (hs : s.Consistent) (hended : Store.HasEnded id s) (hnone : s.hourly? = none)
    (h : Yields (carryOver settings version id now) s u s') :
    s.ContinuedBy id now s' ∧
      s'.hourlyHoldings = ((s.metricRowsOf id).filter (·.spec.carryOver)).filterMap
        (s.carriedHolding? settings.retention.carryOverMaxAge now) ∧
      s'.HourlyOf version := by
  obtain ⟨v, s₁, hused, h⟩ := yields_bind.1 h
  obtain ⟨kept, rfl⟩ := Transaction.looks_useKept _ _ _ _ s v s₁ hused
  obtain ⟨rows, s₂, hlook, h⟩ := yields_bind.1 h
  obtain ⟨hrows, rfl⟩ := Transaction.yields_query.1 hlook
  have hs₁ : Store.Consistent { s with kept } := hs.of_eq rfl rfl rfl rfl
  rw [Store.carriedMetricsOf_eq hs₁.undamaged, Except.ok.injEq] at hrows
  have hrows : (s.metricRowsOf id).filter (·.spec.carryOver) = rows :=
    (s.filter_metrics id _).symm.trans hrows
  have hms : ∀ m ∈ rows, m ∈ s.metricRowsOf id ∧ m.spec.carryOver = true := by
    intro m hm
    rwa [← hrows, List.mem_filter] at hm
  have hdistinct : rows.Pairwise fun a b => a.spec.eventName ≠ b.spec.eventName :=
    hrows ▸ (hs.metricRowsOf_distinct id).filter _
  have hopen : Store.hourly? { s with kept } = none := hnone
  -- nothing is open yet
  have hnever : ∀ {p : ReportRow → Prop} r, Store.hourly? { s with kept } = some r → p r := by
    intro p r hr
    rw [hopen] at hr
    cases hr
  obtain ⟨hadds, -, hholds, hversion⟩ := carry_adds rows hs₁ (by exact hended) (by exact hms)
    hdistinct hnever (fun _ _ => hnever) (by rw [hopen]; exact h)
  refine ⟨⟨hadds.reports, hadds.metrics, hadds.values⟩, ?_, hversion hnever⟩
  rw [hholds, Store.hourlyHoldings, hopen, hrows]
  rfl

/-- The hourly stage closes the open accumulator, if there is one, and adds its successor. -/
theorem hourly_adds {settings : Settings} {version : Option String} {request : CollectRequest}
    {exportName : String} {p p' : Progress} {result : MetricReport × Option Path}
    (hs : p.store.Consistent)
    (h : Yields (hourly settings version request exportName) p result p') :
    ∃ source, (p.store.closed request.nowMs).ContinuedBy source request.nowMs p'.store ∧
      (p.store.hourly? = none → p' = p) ∧ ∀ r, p.store.hourly? = some r → r.id = source := by
  obtain ⟨report, path⟩ := result
  rcases hourly_cases hs h with ⟨hnone, rfl, -⟩ | ⟨r, p₁, hopen, hreport, hcarry⟩
  · have hnone : p'.store.hourly? = none := hnone
    refine ⟨0, ?_, fun _ => rfl, fun r hr => ?_⟩
    · rw [Store.closed_of_none hnone]
      exact .refl _ _ _
    · rw [hnone] at hr
      cases hr
  · have hopen : p.store.hourly? = some r := hopen
    obtain ⟨⟨kept, hp₁⟩, hs₁, hended, hnone⟩ := reportHourly_ended hs hopen hreport
    have hadds := (carryOver_adds hs₁ hended hnone hcarry).1
    rw [hp₁] at hadds
    refine ⟨r.id, ?_, fun hnone => ?_, fun x hx => ?_⟩
    · rw [hs.closed_eq hopen]
      exact ⟨hadds.reports, hadds.metrics, hadds.values⟩
    · rw [hopen] at hnone
      cases hnone
    · rw [hopen, Option.some.injEq] at hx
      rw [hx]

/-- After the hourly stage the open accumulator, if there is one, holds what was to be carried over,
row by row. -/
theorem hourly_holds {settings : Settings} {version : Option String} {request : CollectRequest}
    {exportName : String} {p p' : Progress} {result : MetricReport × Option Path}
    (hs : p.store.Consistent)
    (h : Yields (hourly settings version request exportName) p result p') :
    p'.store.hourlyHoldings =
        p.store.carriedHoldings settings.retention.carryOverMaxAge request.nowMs ∧
      p'.store.HourlyOf version := by
  obtain ⟨report, path⟩ := result
  rcases hourly_cases hs h with ⟨hnone, rfl, -⟩ | ⟨r, p₁, hopen, hreport, hcarry⟩
  · have hnone : p'.store.hourly? = none := hnone
    refine ⟨?_, fun r hr => ?_⟩
    · rw [Store.hourlyHoldings, Store.carriedHoldings, hnone]
      rfl
    · rw [hnone] at hr
      cases hr
  · have hopen : p.store.hourly? = some r := hopen
    obtain ⟨⟨kept, hp₁⟩, hs₁, hended, hnone⟩ := reportHourly_ended hs hopen hreport
    obtain ⟨-, hholds, hversion⟩ := carryOver_adds hs₁ hended hnone hcarry
    refine ⟨?_, hversion⟩
    rw [hholds, hp₁, Store.carriedHoldings, hopen]
    rfl

end Collecting

end Telemetry
