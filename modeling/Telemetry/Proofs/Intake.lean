import Mathlib.Data.List.Forall2
import Telemetry.Proofs.Recording

/-!
# What a sample does to the tables

A sample that is taken in is recorded in its report and, if it is an hourly one, in every session that
covers its time.  Recording it in several reports does to each table what can be said in one line:
metrics of its name take its attributes, reports that had none get one, and each report gets one
value.
-/

namespace Telemetry

/-! ### One sample in several reports -/

/-- The metric after reports with these ids were given a metric of these attributes. -/
def MetricRow.respec (ids : List Int) (spec : MetricSpec) (m : MetricRow) : MetricRow :=
  if m.reportId ∈ ids ∧ m.spec.eventName = spec.eventName then { m with spec } else m

namespace MetricRow

theorem respec_nil (spec : MetricSpec) (m : MetricRow) : m.respec [] spec = m :=
  if_neg fun h => absurd h.1 List.not_mem_nil

theorem respec_of_spec (ids : List Int) (m : MetricRow) : m.respec ids m.spec = m := by
  unfold respec
  split <;> rfl

theorem respec_respec (id : Int) (ids : List Int) (spec : MetricSpec) (m : MetricRow) :
    (m.respec [id] spec).respec ids spec = m.respec (id :: ids) spec := by
  unfold respec
  by_cases hname : m.spec.eventName = spec.eventName
  · by_cases hid : m.reportId = id
    · simp [hname, hid]
    · simp [hname, hid]
  · simp [hname]

theorem isNamed_respec (ids : List Int) (spec : MetricSpec) (m : MetricRow) (reportId : Int) :
    (m.respec ids spec).isNamed reportId spec.eventName = m.isNamed reportId spec.eventName := by
  unfold respec
  split
  · next h => simp [isNamed, h.2]
  · rfl

end MetricRow

namespace Store

/-- Has the report no metric of this name? -/
def lacks (s : Store) (name : String) (reportId : Int) : Bool :=
  !s.metrics.rows.any (·.isNamed reportId name)

/-- The row is the sample's value in a report: it belongs to the report's metric of that name, which
has the attributes of the sample. -/
structure Holds (s : Store) (sample : MetricSample) (reportId : Int) (v : ValueRow) : Prop where
  metric : ∃ m ∈ s.metrics.rows, m.id = v.metricId ∧ m.reportId = reportId ∧ m.spec = sample.spec
  version : v.version = sample.version
  timeMs : v.timeMs = sample.timeMs
  value : v.value = sample.value.kept

/-- What recording a sample in reports does to the tables. -/
structure Records (sample : MetricSample) (ids : List Int) (s s' : Store)
    (created : List MetricRow) (added : List ValueRow) : Prop where
  reports : s'.reports = s.reports
  metrics : s'.metrics.rows = s.metrics.rows.map (·.respec ids sample.spec) ++ created
  missing : created.map (fun m => (m.reportId, m.spec)) =
    (ids.filter (s.lacks sample.eventName)).map fun id => (id, sample.spec)
  values : s'.values.rows = s.values.rows ++ added
  /-- What is no number is recorded nowhere. -/
  recorded : List.Forall₂ (s'.Holds sample) (if sample.value.isNaN then [] else ids) added

variable {sample : MetricSample} {s s₁ s' : Store} {created created' : List MetricRow}
  {added added' : List ValueRow}

theorem Records.nil (sample : MetricSample) (s : Store) : Records sample [] s s [] [] where
  reports := rfl
  metrics := by simp [MetricRow.respec_nil]
  missing := rfl
  values := (List.append_nil _).symm
  recorded := by simp

theorem Records.spec_eq {ids : List Int} (h : Records sample ids s s' created added)
    {m : MetricRow} (hm : m ∈ created) : m.reportId ∈ ids ∧ m.spec = sample.spec := by
  have hpair := List.mem_map_of_mem (f := fun m => (m.reportId, m.spec)) hm
  rw [h.missing] at hpair
  obtain ⟨id, hid, heq⟩ := List.mem_map.1 hpair
  obtain ⟨rfl, hspec⟩ := Prod.mk.inj heq
  exact ⟨(List.mem_filter.1 hid).1, hspec.symm⟩

/-- Recording in one report gives no other one a metric. -/
theorem Records.lacks_eq {id id' : Int} (h : Records sample [id] s s' created added)
    (hne : id' ≠ id) : s'.lacks sample.eventName id' = s.lacks sample.eventName id' := by
  have hcreated : created.any (·.isNamed id' sample.eventName) = false := by
    refine List.any_eq_false.2 fun m hm => ?_
    have hid := List.mem_singleton.1 (h.spec_eq hm).1
    simp [MetricRow.isNamed, hid, hne.symm]
  rw [lacks, h.metrics, List.any_append, hcreated, Bool.or_false, List.any_map, lacks]
  congr 2
  funext m
  exact m.isNamed_respec [id] sample.spec id'

/-- A metric that has the attributes of the sample keeps them. -/
theorem Records.holds {ids : List Int} (h : Records sample ids s₁ s' created added) {id : Int}
    {v : ValueRow} (hv : s₁.Holds sample id v) : s'.Holds sample id v := by
  obtain ⟨⟨m, hm, hid, hreport, hspec⟩, hversion, htime, hvalue⟩ := hv
  refine ⟨⟨m, ?_, hid, hreport, hspec⟩, hversion, htime, hvalue⟩
  rw [h.metrics]
  refine List.mem_append_left _ (List.mem_map.2 ⟨m, hm, ?_⟩)
  rw [← hspec, MetricRow.respec_of_spec]

/-- Recording in one report and then in others is recording in all of them. -/
theorem Records.cons {id : Int} {ids : List Int} (hid : id ∉ ids)
    (h : Records sample [id] s s₁ created added) (h' : Records sample ids s₁ s' created' added') :
    Records sample (id :: ids) s s' (created ++ created') (added ++ added') where
  reports := h'.reports.trans h.reports
  metrics := by
    have hcreated : created.map (·.respec ids sample.spec) = created := by
      refine (List.map_congr_left fun m hm => ?_).trans (List.map_id _)
      rw [← (h.spec_eq hm).2]
      exact m.respec_of_spec ids
    rw [h'.metrics, h.metrics, List.map_append, List.map_map, hcreated, List.append_assoc]
    congr 2
    funext m
    exact m.respec_respec id ids sample.spec
  missing := by
    have hlacks : ids.filter (s₁.lacks sample.eventName) = ids.filter (s.lacks sample.eventName) :=
      List.filter_congr fun id' hmem => h.lacks_eq fun heq => hid (heq ▸ hmem)
    rw [List.map_append, h.missing, h'.missing, hlacks, ← List.map_append, ← List.filter_append]
    rfl
  values := by rw [h'.values, h.values, List.append_assoc]
  recorded := by
    have hfirst := h.recorded.imp fun _ _ hv => h'.holds hv
    have hboth := List.rel_append hfirst h'.recorded
    cases hnan : sample.value.isNaN with
    | true => simpa only [hnan, if_true, List.append_nil] using hboth
    | false =>
      simpa only [hnan, Bool.false_eq_true, if_false, List.singleton_append] using hboth

/-- The first of the values is that of the first report. -/
theorem Records.head?_append {id : Int} {ids : List Int}
    (h : Records sample [id] s s₁ created added) (h' : Records sample ids s₁ s' created' added') :
    (added ++ added').head? = added.head? := by
  cases added with
  | cons v added => rfl
  | nil =>
    -- what the first report does not get the others do not get either
    have hnan : sample.value.isNaN = true := by
      by_contra hnan
      have hrecorded := h.recorded
      rw [if_neg hnan] at hrecorded
      cases hrecorded
    have hnone := h'.recorded
    rw [if_pos hnan, List.forall₂_nil_left_iff] at hnone
    rw [hnone]
    rfl

/-! ### Recording -/

/-- Putting a metric gives its attributes to the report's metric of that name, or creates one. -/
theorem putMetric_respec (hs : s.Consistent) {id metricId : Int} {spec : MetricSpec}
    (h : s.putMetric id spec = .ok (metricId, s')) :
    ∃ created, s'.metrics.rows = s.metrics.rows.map (·.respec [id] spec) ++ created ∧
      created.map (fun m => (m.reportId, m.spec)) =
        ([id].filter (s.lacks spec.eventName)).map fun id => (id, spec) := by
  rcases putMetric_eq_ok hs.undamaged h with ⟨hnone, rfl, rfl⟩ | ⟨m, hfind, rfl, hput⟩
  · have hfree : ∀ m ∈ s.metrics.rows, m.isNamed id spec.eventName = false := by
      simpa using List.find?_eq_none.1 hnone
    have hlacks : s.lacks spec.eventName id = true := by
      simpa [lacks] using hfree
    refine ⟨[⟨s.metrics.nextId, id, spec⟩], ?_, by simp [hlacks]⟩
    have hsame : s.metrics.rows.map (·.respec [id] spec) = s.metrics.rows := by
      refine (List.map_congr_left fun m hm => if_neg ?_).trans (List.map_id _)
      have hnot := hfree m hm
      simpa [MetricRow.isNamed] using hnot
    rw [hsame]
    rfl
  · have hm := List.mem_of_find?_eq_some hfind
    have hnamed := List.find?_some hfind
    have hlacks : s.lacks spec.eventName id = false := by
      rw [lacks, List.any_eq_true.2 ⟨m, hm, hnamed⟩]
      rfl
    refine ⟨[], ?_, by simp [hlacks]⟩
    -- the metric that is found is the only one of that name
    have hrespec : ∀ x ∈ s.metrics.rows,
        x.respec [id] spec = if x.id == m.id then { m with spec } else x := by
      intro x hx
      by_cases hid : x.id = m.id
      · obtain rfl := hs.metric_eq hx hm hid
        simp only [MetricRow.isNamed, Bool.and_eq_true, beq_iff_eq] at hnamed
        simp [MetricRow.respec, hnamed]
      · have hnot : ¬(x.reportId ∈ [id] ∧ x.spec.eventName = spec.eventName) := by
          rintro ⟨hreport, hname⟩
          have hxnamed : x.isNamed id spec.eventName = true := by
            simpa [MetricRow.isNamed, hname] using hreport
          exact hid (congrArg MetricRow.id (hs.named_eq hx hm hxnamed hnamed))
        rw [MetricRow.respec, if_neg hnot, if_neg (by simpa using hid)]
    rw [List.append_nil, List.map_congr_left hrespec]
    rcases hput with ⟨rfl, rfl⟩ | rfl
    · refine ((List.map_congr_left fun x hx => ?_).trans (List.map_id _)).symm
      split
      · next hid => exact (hs.metric_eq hx hm (beq_iff_eq.1 hid)).symm
      · rfl
    · rfl

end Store

namespace Transaction

variable {sample : MetricSample} {s s' : Store}

theorem record_records (hs : s.Consistent) {id : Int} {result : Option Int}
    (howner : ∃ r ∈ s.reports.rows, r.id = id) (hname : sample.eventName ≠ "")
    (h : Yields (record id sample.spec sample.version sample.timeMs sample.value) s result s') :
    ∃ created added, Store.Records sample [id] s s' created added ∧
      result = added.head?.map (·.id) := by
  obtain ⟨metricId, s₁, hput, h⟩ := yields_bind.1 h
  have hput := yields_update.1 hput
  obtain ⟨-, hreports, hvalues, hm⟩ := putMetric_steps .everything hs howner trivial hname hput
  obtain ⟨created, hmetrics, hcreated⟩ := Store.putMetric_respec hs hput
  obtain ⟨u, s₂, hused, h⟩ := yields_bind.1 h
  obtain ⟨kept, rfl⟩ := looks_useKept _ _ _ _ s₁ u s₂ hused
  rcases Store.insertValue_eq_ok (yields_update.1 h) with ⟨hnan, rfl, rfl⟩ | ⟨hvalue, rfl, rfl⟩
  · refine ⟨created, [], ⟨hreports, hmetrics, hcreated, ?_, ?_⟩, rfl⟩
    · exact (congrArg Table.rows hvalues).trans (List.append_nil _).symm
    · simp [hnan]
  · refine ⟨created, [⟨s₁.values.nextId, metricId, sample.version, sample.timeMs,
      sample.value.kept⟩], ⟨hreports, hmetrics, hcreated, ?_, ?_⟩, rfl⟩
    · rw [← hvalues]
      rfl
    · simp only [hvalue, Bool.false_eq_true, if_false, List.forall₂_cons, List.Forall₂.nil,
        and_true]
      exact ⟨⟨_, hm, rfl, rfl, rfl⟩, rfl, rfl, rfl⟩

theorem recordInAll_records (hname : sample.eventName ≠ "") (ids : List Int) :
    ∀ {s s' : Store} {u : Unit}, s.Consistent → ids.Nodup →
      (∀ id ∈ ids, ∃ r ∈ s.reports.rows, r.id = id) → Yields (recordInAll sample ids) s u s' →
      ∃ created added, Store.Records sample ids s s' created added := by
  induction ids with
  | nil =>
    intro s s' u _ _ _ h
    obtain ⟨-, rfl⟩ := yields_pure.1 h
    exact ⟨[], [], .nil sample s⟩
  | cons id ids ih =>
    intro s s' u hs hids howner h
    obtain ⟨hid, hids⟩ := List.nodup_cons.1 hids
    obtain ⟨result, s₁, hrecord, h⟩ := yields_bind.1 h
    obtain ⟨hsteps, hreports⟩ :=
      record_steps .everything hs (howner id (by simp)) trivial hname hrecord
    obtain ⟨created, added, hfirst, -⟩ := record_records hs (howner id (by simp)) hname hrecord
    obtain ⟨created', added', hrest⟩ := ih (hsteps.consistent hs) hids
      (fun id' hid' => hreports ▸ howner id' (by simp [hid'])) h
    exact ⟨_, _, hfirst.cons hid hrest⟩

end Transaction

/-! ### Taking in -/

/-- Does a session cover a time? It does from its start on, up to its end if it has one. -/
def ReportRow.Covers (t : Int) (r : ReportRow) : Prop :=
  r.kind = .session ∧ r.startMs ≤ t ∧ ∀ endMs, r.endMs = some endMs → t ≤ endMs

theorem ReportRow.isSessionAt_iff {t : Int} {r : ReportRow} :
    r.isSessionAt t = true ↔ r.Covers t := by
  unfold isSessionAt Covers
  cases r.endMs <;> simp [and_assoc]

/-- The report is the one of a kind and a name that is open: it was open before, or it is the only new
one. -/
def Store.Opened (version : Option String) (kind : ReportKind) (name : Option String) (t : Int)
    (s s' : Store) (r : ReportRow) : Prop :=
  s'.reports.rows = s.reports.rows ∧ r ∈ s.reports.rows ∧ r.isOpenAs kind name = true ∨
  s'.reports.rows = s.reports.rows ++ [r] ∧ r = ⟨s.reports.nextId, kind, name, t, none, version⟩ ∧
    ∀ x ∈ s.reports.rows, x.isOpenAs kind name = false

/-- What taking a sample in does to the tables.  The sample is addressed to the report `r` and goes
to `sessions` as well; `created` are the metrics that were missing, and `added` its values. -/
structure Store.Ingests (version : Option String) (sample : MetricSample) (s s' : Store)
    (result : Option Int) (r : ReportRow) (sessions : List Int) (created : List MetricRow)
    (added : List ValueRow) : Prop where
  report : Opened version sample.reportKind sample.sessionName sample.timeMs s s' r
  mem_sessions : ∀ id, id ∈ sessions ↔ sample.reportKind = .hourly ∧
    ∃ x ∈ s.reports.rows, x.id = id ∧ x.Covers sample.timeMs
  sessionsInOrder : sessions.Pairwise (· < ·)
  metrics : s'.metrics.rows =
    s.metrics.rows.map (·.respec (r.id :: sessions) sample.spec) ++ created
  missing : created.map (fun m => (m.reportId, m.spec)) =
    ((r.id :: sessions).filter (s.lacks sample.eventName)).map fun id => (id, sample.spec)
  values : s'.values.rows = s.values.rows ++ added
  valuesInOrder : s'.values.rows.Pairwise fun a b => a.id < b.id
  /-- Each of the reports gets one value; what is no number is recorded nowhere. -/
  recorded : List.Forall₂ (s'.Holds sample)
    (if sample.value.isNaN then [] else r.id :: sessions) added
  result : result = added.head?.map (·.id)

namespace Transaction

variable {version : Option String} {sample : MetricSample} {s s₁ s' : Store} {result : Option Int}

theorem openOrStart_opened (hs : s.Undamaged) {kind : ReportKind} {name : Option String} {t id : Int}
    (h : Yields (openOrStart kind name t version) s id s₁) :
    ∃ r, r.id = id ∧ r.kind = kind ∧ s₁.metrics = s.metrics ∧ s₁.values = s.values ∧
      Store.Opened version kind name t s s₁ r := by
  rcases Store.openOrStart_eq_ok hs (yields_update.1 h) with ⟨r, hr, rfl, rfl⟩ | ⟨hnone, rfl, rfl⟩
  · have hopen : r.isOpenAs kind name = true := by simpa using List.find?_some hr
    exact ⟨r, rfl, (ReportRow.isOpenAs_iff.1 hopen).1, rfl, rfl,
      .inl ⟨rfl, List.mem_of_find?_eq_some hr, hopen⟩⟩
  · exact ⟨_, rfl, rfl, rfl, rfl, .inr ⟨rfl, rfl, by simpa using List.find?_eq_none.1 hnone⟩⟩

/-- The ids of the sessions that a sample goes to. -/
def sessionsFor (sample : MetricSample) (s : Store) : List Int :=
  if sample.reportKind = .hourly then
    (s.reports.rows.filter (·.isSessionAt sample.timeMs)).map (·.id)
  else []

theorem mem_sessionsFor {id : Int} : id ∈ sessionsFor sample s ↔ sample.reportKind = .hourly ∧
    ∃ x ∈ s.reports.rows, x.id = id ∧ x.Covers sample.timeMs := by
  unfold sessionsFor
  split
  · next hkind =>
    simp only [hkind, true_and, List.mem_map, List.mem_filter, ReportRow.isSessionAt_iff]
    exact ⟨fun ⟨x, ⟨hx, hcovers⟩, hid⟩ => ⟨x, hx, hid, hcovers⟩,
      fun ⟨x, hx, hid, hcovers⟩ => ⟨x, ⟨hx, hcovers⟩, hid⟩⟩
  · next hkind => simp [hkind]

theorem sessionsFor_increasing (hs : s.Consistent) :
    (sessionsFor sample s).Pairwise (· < ·) := by
  unfold sessionsFor
  split
  · exact List.pairwise_map.2 (hs.reportsNumbered.increasing.filter _)
  · exact .nil

/-- The sample's report gets its value first, then the sessions do. -/
theorem take_records (hs : s.Consistent) (hsample : sample.validate = .ok ())
    (h : Yields (take version sample) s result s') :
    ∃ id s₁, Yields (openOrStart sample.reportKind sample.sessionName sample.timeMs version)
        s id s₁ ∧
      ∃ created added, Store.Records sample (id :: sessionsFor sample s₁) s₁ s' created added ∧
        result = added.head?.map (·.id) := by
  obtain ⟨hname, hadmits⟩ := of_validate hsample
  obtain ⟨id, s₁, s₂, hstart, hrecord, hrest⟩ := take_split h
  obtain ⟨hsteps₁, r, hr, hopen, rfl⟩ :=
    openOrStart_steps .everything hs hadmits trivial hstart
  have hs₁ := hsteps₁.consistent hs
  obtain ⟨hsteps₂, hreports⟩ := record_steps .everything hs₁ ⟨r, hr, rfl⟩ trivial hname hrecord
  have hs₂ := hsteps₂.consistent hs₁
  obtain ⟨created, added, hfirst, hresult⟩ := record_records hs₁ ⟨r, hr, rfl⟩ hname hrecord
  refine ⟨r.id, s₁, hstart, ?_⟩
  rcases hrest with ⟨hkind, ids, s₃, hsessions, hall⟩ | ⟨hkind, rfl⟩
  · obtain ⟨⟨kept, rfl⟩, hids⟩ := sessionsAt_ids hs₂.undamaged hsessions
    obtain rfl : ids = sessionsFor sample s₁ := by
      rw [hids, sessionsFor, if_pos hkind, hreports]
    have howner : ∀ id ∈ sessionsFor sample s₁, ∃ x ∈ s₂.reports.rows, x.id = id := by
      intro id hid
      obtain ⟨-, x, hx, hid, -⟩ := mem_sessionsFor.1 hid
      exact ⟨x, hreports ▸ hx, hid⟩
    have hnodup : (sessionsFor sample s₁).Nodup :=
      (sessionsFor_increasing hs₁).imp fun hlt => ne_of_lt hlt
    have hother : r.id ∉ sessionsFor sample s₁ := by
      intro hid
      obtain ⟨-, x, hx, hid, hsession, -⟩ := mem_sessionsFor.1 hid
      obtain rfl := hs₁.report_eq hx hr hid
      rw [(ReportRow.isOpenAs_iff.1 hopen).1, hkind] at hsession
      cases hsession
    have hs₃ : Store.Consistent { s₂ with kept } := hs₂.of_eq rfl rfl rfl rfl
    obtain ⟨created', added', hothers⟩ := recordInAll_records hname _ hs₃ hnodup howner hall
    have hothers : Store.Records sample (sessionsFor sample s₁) s₂ s' created' added' :=
      ⟨hothers.reports, hothers.metrics, hothers.missing, hothers.values, hothers.recorded⟩
    refine ⟨_, _, hfirst.cons hother hothers, ?_⟩
    rw [hresult, hfirst.head?_append hothers]
  · rw [sessionsFor, if_neg hkind]
    exact ⟨created, added, hfirst, hresult⟩

theorem take_ingests (hs : s.Consistent) (hsample : sample.validate = .ok ())
    (h : Yields (take version sample) s result s') :
    ∃ r sessions created added,
      Store.Ingests version sample s s' result r sessions created added := by
  have hs' := (take_steps hs hsample h).consistent hs
  obtain ⟨id, s₁, hstart, created, added, hrecords, hresult⟩ := take_records hs hsample h
  obtain ⟨r, rfl, hkind, hmetrics, hvalues, hreport⟩ := openOrStart_opened hs.undamaged hstart
  have hlacks : s₁.lacks = s.lacks := by
    unfold Store.lacks
    rw [hmetrics]
  -- the sample's own report, should it be new, is no session where sessions are asked for
  have hsessions : sessionsFor sample s₁ = sessionsFor sample s := by
    unfold sessionsFor
    split
    · next hhourly =>
      rcases hreport with ⟨hsame, -⟩ | ⟨hnew, -⟩
      · rw [hsame]
      · rw [hnew, List.filter_append]
        simp [ReportRow.isSessionAt, hkind, hhourly]
    · rfl
  rw [hsessions] at hrecords
  refine ⟨r, sessionsFor sample s, created, added, ?_, fun id => mem_sessionsFor,
    sessionsFor_increasing hs, hmetrics ▸ hrecords.metrics, hlacks ▸ hrecords.missing,
    hvalues ▸ hrecords.values, hs'.valuesNumbered.increasing, hrecords.recorded, hresult⟩
  rw [Store.Opened, hrecords.reports]
  exact hreport

end Transaction

/-- Taking a sample in starts its report if none is open, and adds one value to that report and one to
each session that covers the time of an hourly sample; for what is no number it adds none.  Their
metrics of its name take its attributes, and everything else stays as it was. -/
theorem Engine.add_ingests {e : Engine} (he : e.Reachable) {sample : MetricSample}
    {result : Option Int} (h : (e.add sample).1 = .ok result) :
    ∃ r sessions created added, Store.Ingests e.softwareVersion sample e.store
      (e.add sample).2.store result r sessions created added := by
  have hs := he.consistent
  rcases transactIf_cases hs.undamaged sample.validate (.take e.softwareVersion sample) with
    ⟨a, s', hok, hsample, htake, heq⟩ | ⟨err, s', herror, -, -⟩
  · obtain rfl : a = result := Except.ok.inj (hok.symm.trans h)
    have hs' := (Transaction.take_steps hs hsample htake).consistent hs
    have hstore : (e.add sample).2.store = s' := by
      rw [add, heq, withStore_eq hs'.undamaged]
    rw [hstore]
    exact Transaction.take_ingests hs hsample htake
  · cases herror.symm.trans h

/-- Of three sessions an open one and one that has ended at this very time get the sample as well. -/
theorem Engine.add_ingests_sessions :
    let e := (⟨default, none, .empty⟩ : Engine).run [.startSession "a" 3, .startSession "b" 4,
      .add (.of "power" 5 (.bool true)), .endSession "b" 7, .startSession "c" 8]
    let sample := MetricSample.of "power" 7 (.bool false)
    (e.add sample).1.toOption = some (some 4) ∧
      ∃ r sessions created added, added.map (·.id) = [4, 5, 6] ∧
        Store.Ingests e.softwareVersion sample e.store (e.add sample).2.store (some 4) r sessions
          created added := by
  intro e sample
  have he : e.Reachable := ⟨default, none, ⟨default, none, .empty⟩, _, rfl, rfl⟩
  have hsome : (e.add sample).1.toOption = some (some 4) := by decide +kernel
  have hok : (e.add sample).1 = .ok (some 4) := by
    cases hresult : (e.add sample).1 with
    | error err =>
      rw [hresult] at hsome
      cases hsome
    | ok result =>
      rw [hresult] at hsome
      exact congrArg Except.ok (Option.some.inj hsome)
  obtain ⟨r, sessions, created, added, hingests⟩ := add_ingests he hok
  have hbefore : e.store.values.rows.map (·.id) = [1, 2, 3] := by decide +kernel
  have hafter : (e.add sample).2.store.values.rows.map (·.id) = [1, 2, 3, 4, 5, 6] := by
    decide +kernel
  rw [hingests.values, List.map_append, hbefore] at hafter
  have hadded : [1, 2, 3] ++ added.map (·.id) = [1, 2, 3] ++ ([4, 5, 6] : List Int) := hafter
  exact ⟨hsome, r, sessions, created, added, List.append_cancel_left hadded, hingests⟩

end Telemetry
