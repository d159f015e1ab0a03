import Telemetry.Proofs.Mirroring
import Telemetry.Proofs.SheetRuns

/-!
# What looks on at a collection

How values are read by pages, what derives further entries and where the series are exported to make
no difference to the store: of two collections that differ in these alone, neither of which the files
refuse, both leave the same tables.  Their reports differ in the derived entries, which are computed
from each report once it is finished and merged into its maps.

One collection with observers is compared to one without a derivation and without an export, stage by
stage; two collections with observers are compared through the third.
-/

namespace Telemetry

/-- How values are read by pages, what derives further entries, and where the series are exported
to. -/
structure Observers where
  paging : PagingSettings
  derivation : Option Derivation
  exportFolder : Option Path

namespace Observers

variable (o : Observers)

def settings (settings : Settings) : Settings := { settings with paging := o.paging }

def request (request : CollectRequest) : CollectRequest :=
  { request with derivation := o.derivation, exportFolder := o.exportFolder }

/-- What is derived for a report. -/
def derived (r : MetricReport) : List DerivedMetric :=
  o.derivation.elim [] fun derivation => derivation r.derivedInput

/-- What the derivation is given for a report. -/
def consults (r : MetricReport) : List DerivedInput :=
  o.derivation.elim [] fun _ => [r.derivedInput]

end Observers

/-- The derived entries that belong to one of the two maps, in their order. -/
def derivedEntries (internal : Bool) (derived : List DerivedMetric) : List (String × Json) :=
  (derived.filter fun d => d.internal == internal).map fun d => (d.eventName, d.value.toMetricJson)

/-- The report with what is derived for it put into its maps. -/
def Observers.enriched (o : Observers) (r : MetricReport) : MetricReport :=
  { r with
    metrics := r.metrics.insertAll (derivedEntries false (o.derived r))
    internalMetrics := r.internalMetrics.insertAll (derivedEntries true (o.derived r)) }

/-- The reports that a collection has made; the one on the hourly accumulator is if one was open. -/
def CustomReport.made (hourlyOpen : Bool) (r : CustomReport) : List MetricReport :=
  (if hourlyOpen then [r.hourly] else []) ++ r.daily.toList ++ r.sessions

/-! ### Derived entries -/

theorem mergeDerived_eq (derived : List DerivedMetric) :
    ∀ maps : MetricMap × MetricMap, mergeDerived derived maps =
      (maps.1.insertAll (derivedEntries false derived),
        maps.2.insertAll (derivedEntries true derived)) := by
  induction derived with
  | nil => exact fun _ => rfl
  | cons d derived ih =>
    rintro ⟨metrics, internals⟩
    rw [mergeDerived, List.foldl_cons]
    refine (ih _).trans ?_
    cases hd : d.internal with
    | false => simp [derivedEntries, hd, KeyMap.insertAll]
    | true => simp [derivedEntries, hd, KeyMap.insertAll]

theorem MetricReport.withDerived_eq (r : MetricReport) (derived : List DerivedMetric) :
    r.withDerived derived =
      { r with
        metrics := r.metrics.insertAll (derivedEntries false derived)
        internalMetrics := r.internalMetrics.insertAll (derivedEntries true derived) } := by
  rw [withDerived, mergeDerived_eq]

/-! ### Side by side -/

/-- A request without a derivation and without an export. -/
structure CollectRequest.Plain (request : CollectRequest) : Prop where
  derivation : request.derivation = none
  exportFolder : request.exportFolder = none

/-- The request without its derivation and its export. -/
def CollectRequest.plain (request : CollectRequest) : CollectRequest :=
  { request with derivation := none, exportFolder := none }

theorem CollectRequest.plain_plain (request : CollectRequest) : request.plain.Plain := ⟨rfl, rfl⟩

/-- Two collections have come equally far: the stores differ in the kept queries alone, and the first
has consulted its derivation as the log says. -/
structure Progress.Abreast (log : List DerivedInput) (p p₀ : Progress) : Prop where
  store : p.store.SeenAs p₀.store
  consulted : p.consulted = log

open Progress (Abreast)

namespace Collecting

section Alike

variable {α β : Type} {I : Store → Prop} {log : List DerivedInput} {p p₀ : Progress}

/-- Two parts of collections that come equally far and have the same result, and consult nothing. -/
def AlikeOn (I : Store → Prop) (c c₀ : Collecting α) : Prop :=
  ∀ log p p₀, I p.store → Abreast log p p₀ →
    Mirrors c c₀ p p₀ fun a p' b p₀' => a = b ∧ Abreast log p' p₀' ∧ I p'.store

theorem alikeOn_pure (a : α) : AlikeOn I (pure a) (pure a) := by
  intro log p p₀ hp h
  exact mirrors_pure ⟨rfl, h, hp⟩

theorem alikeOn_bind {c c₀ : Collecting α} {f f₀ : α → Collecting β} (hc : AlikeOn I c c₀)
    (hf : ∀ a, AlikeOn I (f a) (f₀ a)) : AlikeOn I (c >>= f) (c₀ >>= f₀) := by
  intro log p p₀ hp h
  refine mirrors_bind ((hc log p p₀ hp h).imp ?_)
  rintro a p₁ _ p₂ ⟨rfl, h₁, hp₁⟩
  exact hf a log p₁ p₂ hp₁ h₁

theorem fails_run {t : Transaction α} {e : Failure} {s : Store} (h : Fails t p.store e s) :
    Fails (run t) p e { p with store := s } := by
  unfold Fails at h ⊢
  rw [outcome_run, h]

theorem alikeOn_run {t t₀ : Transaction α} (ht : Transaction.Alike I t t₀) :
    AlikeOn I (run t) (run t₀) := by
  intro log p p₀ hp h
  cases ht p.store p₀.store hp h.store with
  | both hy hy₀ hR =>
    exact .both (yields_run.2 ⟨_, hy, rfl⟩) (yields_run.2 ⟨_, hy₀, rfl⟩)
      ⟨hR.1, ⟨hR.2.1, h.consulted⟩, hR.2.2⟩
  | neither hf hf₀ => exact .neither (fails_run hf) (fails_run hf₀)
  | refused hf he => exact .refused (fails_run hf) he

theorem alikeOn_ask {f : Store → Except Failure α} (hf : ∀ s kept, f { s with kept } = f s) :
    AlikeOn I (ask f) (ask f) := alikeOn_run (Transaction.alike_query hf)

end Alike

/-! ### Parts that only look -/

section Looking

theorem alikeOn_metricsOf (id : Int) : AlikeOn Store.Consistent (metricsOf id) (metricsOf id) := by
  refine alikeOn_run (Transaction.alike_bind ?_ fun _ => Transaction.alike_query fun _ _ => rfl)
  exact Transaction.alike_useKept (fun _ hs => hs.undamaged) (fun _ q hs => hs.keep q) _ _ _ _

theorem alikeOn_metricsOfAll (ids : List Int) :
    AlikeOn Store.Consistent (metricsOfAll ids) (metricsOfAll ids) := by
  induction ids with
  | nil => exact alikeOn_pure _
  | cons id ids ih =>
    exact alikeOn_bind (alikeOn_metricsOf id) fun _ => alikeOn_bind ih fun _ => alikeOn_pure _

theorem alikeOn_addDailyGroups (accumulatorId : Int) (names : List String) :
    ∀ groups, AlikeOn Store.Consistent (addDailyGroups accumulatorId names groups)
      (addDailyGroups accumulatorId names groups) := by
  induction names with
  | nil => exact fun groups => alikeOn_pure groups
  | cons name names ih =>
    intro groups
    unfold addDailyGroups
    split
    · exact ih _
    · refine alikeOn_bind (alikeOn_ask fun _ _ => rfl) fun m? => ?_
      cases m? with
      | none => exact ih _
      | some m => exact ih _

theorem alikeOn_sessionGroups (request : CollectRequest) (accumulator : Option ReportRow)
    (session : ReportRow) : AlikeOn Store.Consistent (sessionGroups request accumulator session)
      (sessionGroups request accumulator session) := by
  refine alikeOn_bind (alikeOn_metricsOf _) fun rows => ?_
  cases accumulator with
  | none => exact alikeOn_pure _
  | some accumulator => exact alikeOn_addDailyGroups _ _ _

/-- A summary is the same, by whatever pages the values are read. -/
theorem alikeOn_summarize (settings settings₀ : Settings) (kind : ReportKind) (name : Option String)
    (w : Window) (groups : List MetricGroup) (version : Option String) :
    AlikeOn Store.Consistent (summarize settings kind name w groups version)
      (summarize settings₀ kind name w groups version) :=
  alikeOn_run (MetricReport.alike_summarize _ _ _ _ _)

end Looking

/-! ### Parts that change the store -/

theorem alikeOn_deleteAll (ids : List Int) :
    AlikeOn Store.Undamaged (deleteAll ids) (deleteAll ids) := by
  induction ids with
  | nil => exact alikeOn_pure _
  | cons id ids ih =>
    exact alikeOn_bind (alikeOn_run (Transaction.steady_deleteReport id)) fun _ => ih

theorem alikeOn_endDue (settings : Settings) (request : CollectRequest) :
    AlikeOn Store.Undamaged (endDue settings request) (endDue settings request) := by
  have hexpire : AlikeOn Store.Undamaged
      (run (Transaction.change (·.expireSessions request.nowMs settings.retention.sessionExpiry)))
      (run (Transaction.change (·.expireSessions request.nowMs settings.retention.sessionExpiry))) :=
    alikeOn_run (Transaction.steady_endSelected _ _ _ fun _ _ => rfl)
  unfold endDue
  split
  · refine alikeOn_bind ?_ fun _ => hexpire
    exact alikeOn_run (Transaction.steady_endSelected _ _ _ fun _ _ => rfl)
  · exact hexpire

/-! ### Observed parts -/

section Observed

variable {o : Observers} {settings : Settings} {request : CollectRequest}
  {log : List DerivedInput} {p p₀ : Progress}

theorem derive_mirrors (hplain : request.Plain) (report : MetricReport) (h : Abreast log p p₀) :
    Mirrors (derive (o.request request) report) (derive request report) p p₀ fun a p' b p₀' =>
      a.1 = o.enriched report ∧ b = (report, []) ∧
        Abreast (log ++ o.consults report) p' p₀' ∧ p'.store = p.store := by
  have h₀ : Yields (derive request report) p₀ (report, []) p₀ := by
    unfold Yields outcome derive
    rw [hplain.derivation]
  obtain ⟨paging, derivation, folder⟩ := o
  cases derivation with
  | none =>
    have hy : Yields (derive (Observers.request ⟨paging, none, folder⟩ request) report) p
        (report, []) p := rfl
    refine .both hy h₀ ⟨rfl, rfl, ⟨h.store, ?_⟩, rfl⟩
    rw [h.consulted]
    exact (List.append_nil log).symm
  | some derivation =>
    have hy : Yields (derive (Observers.request ⟨paging, some derivation, folder⟩ request) report) p
        (report.withDerived (derivation report.derivedInput), derivation report.derivedInput)
        { p with consulted := p.consulted ++ [report.derivedInput] } := rfl
    refine .both hy h₀ ⟨report.withDerived_eq _, rfl, ⟨h.store, ?_⟩, rfl⟩
    change p.consulted ++ [report.derivedInput] = log ++ [report.derivedInput]
    rw [h.consulted]

/-- An export is refused, or makes no difference to the store. -/
theorem exportHourly_mirrors (hplain : request.Plain) {exportName exportName₀ : String}
    {report report₀ : MetricReport} {derived derived₀ : List DerivedMetric}
    (hs : p.store.Consistent) {r : ReportRow} (hr : r ∈ p.store.reports.rows)
    (h : Abreast log p p₀) :
    Mirrors
      (exportHourly (o.settings settings) (o.request request) exportName report
        ((p.store.metricRowsOf r.id).map .ofRow) derived)
      (exportHourly settings request exportName₀ report₀
        ((p.store.metricRowsOf r.id).map .ofRow) derived₀) p p₀ fun _ p' _ p₀' =>
      Abreast log p' p₀' ∧ p.store.SeenAs p'.store := by
  have h₀ : exportHourly settings request exportName₀ report₀
      ((p.store.metricRowsOf r.id).map .ofRow) derived₀ = pure none := by
    unfold exportHourly
    rw [hplain.exportFolder]
  rw [h₀]
  obtain ⟨paging, derivation, folder⟩ := o
  cases folder with
  | none => exact mirrors_pure ⟨h, .refl _⟩
  | some folder =>
    obtain ⟨s, hseen, hwrite⟩ := outcome_writeExport { settings with paging } folder exportName
      report derived (Store.gathers_metricRowsOf hr) hs
    unfold exportHourly
    change Mirrors (some <$> writeExport { settings with paging } folder exportName report _ derived)
      (pure none) p p₀ _
    cases hsaved : (ExportFile.saveIn folder exportName (textOf { settings with paging } report
        (p.store.sheetOf r).gathered derived) p.files).1 with
    | error e =>
      rw [hsaved] at hwrite
      exact .refused (fails_map.2 hwrite) (ExportFile.saveIn_error hsaved)
    | ok path =>
      rw [hsaved] at hwrite
      exact .both (yields_map.2 ⟨path, hwrite, rfl⟩) (yields_pure.2 ⟨rfl, rfl⟩)
        ⟨⟨hseen.symm.trans h.store, h.consulted⟩, hseen⟩

/-- What is carried over is no matter of pages. -/
theorem carry_settings (o : Observers) (settings : Settings) (version : Option String) (now : Int)
    (ms : List MetricRow) : ∀ successor, carry (o.settings settings) version now successor ms =
      carry settings version now successor ms := by
  induction ms with
  | nil => exact fun _ => rfl
  | cons m ms ih =>
    intro successor
    unfold carry
    simp only [ih]
    rfl

theorem carryOver_settings (o : Observers) (settings : Settings) (version : Option String)
    (reportId now : Int) :
    carryOver (o.settings settings) version reportId now =
      carryOver settings version reportId now := by
  unfold carryOver
  simp only [carry_settings]

/-! ### Stages -/

theorem describeHourly_mirrors (hplain : request.Plain) {exportName exportName₀ : String}
    (hs : p.store.Consistent) {current r : ReportRow} (hr : r ∈ p.store.reports.rows)
    (hid : r.id = current.id) (h : Abreast log p p₀) :
    Mirrors (describeHourly (o.settings settings) (o.request request) exportName current)
      (describeHourly settings request exportName₀ current) p p₀ fun a p' b p₀' =>
      a.1 = o.enriched b.1 ∧ Abreast (log ++ o.consults b.1) p' p₀' ∧
        p.store.SeenAs p'.store := by
  refine mirrors_bind ((alikeOn_metricsOf current.id log p p₀ hs h).and_yields.imp ?_)
  rintro rows p₁ _ p₂ ⟨⟨rfl, h₁, hs₁⟩, hmetrics⟩
  have hrows := of_metricsOf hs.undamaged hmetrics
  have hseen₁ := looksOn_metricsOf _ _ _ _ hmetrics
  refine mirrors_bind
    ((alikeOn_summarize _ _ .hourly none _ _ _ log p₁ p₂ hs₁ h₁).and_yields.imp ?_)
  rintro report p₃ _ p₄ ⟨⟨rfl, h₃, hs₃⟩, hsummary⟩
  have hseen₃ := hseen₁.trans (looksOn_summarize _ _ _ _ _ _ _ _ _ hsummary)
  refine mirrors_bind ((derive_mirrors hplain report h₃).imp ?_)
  rintro ⟨report', derived⟩ p₅ _ p₆ ⟨rfl, rfl, h₅, hstore⟩
  rw [← hstore] at hs₃ hseen₃
  have hown : rows = p₅.store.metricRowsOf r.id ∧ r ∈ p₅.store.reports.rows := by
    obtain ⟨kept, hp₅⟩ := hseen₃
    rw [hp₅, hrows, hid]
    exact ⟨rfl, hr⟩
  rw [hown.1]
  refine mirrors_bind ((exportHourly_mirrors hplain hs₃ hown.2 h₅).imp ?_)
  rintro path p₇ path₀ p₈ ⟨h₇, hseen₇⟩
  exact mirrors_pure ⟨rfl, h₇, hseen₃.trans hseen₇⟩

theorem reportHourly_mirrors (hplain : request.Plain) (exportName exportName₀ : String)
    (hs : p.store.Consistent) {current : ReportRow} (hopen : p.store.hourly? = some current)
    (h : Abreast log p p₀) :
    Mirrors (reportHourly (o.settings settings) (o.request request) exportName current)
      (reportHourly settings request exportName₀ current) p p₀ fun a p' b p₀' =>
      a.1 = o.enriched b.1 ∧ Abreast (log ++ o.consults b.1) p' p₀' ∧ p'.store.Undamaged := by
  obtain ⟨hcurrent, hkind, -, hend⟩ := Store.of_hourly? hopen
  refine mirrors_bind ((alikeOn_run (Transaction.steady_endSelected _ _ _
    fun _ _ => rfl) log p p₀ hs.undamaged h).and_yields.imp ?_)
  rintro u p₁ _ p₂ ⟨⟨rfl, h₁, -⟩, hrun⟩
  obtain ⟨s, hended, rfl⟩ := yields_run.1 hrun
  obtain rfl := Store.endReport_eq_ok hs.undamaged (Transaction.yields_change.1 hended)
  have hs₁ := (Store.ended_steps .everything hs hcurrent trivial (by simp [hkind]) hend
    request.nowMs).consistent hs
  have hin : ({ current with endMs := some request.nowMs } : ReportRow) ∈
      (p.store.ended current.id request.nowMs).reports.rows :=
    List.mem_map.2 ⟨current, hcurrent, by simp⟩
  refine (describeHourly_mirrors (r := { current with endMs := some request.nowMs }) hplain hs₁ hin
    rfl h₁).imp ?_
  rintro result p₃ result₀ p₄ ⟨hresult, h₃, hseen⟩
  exact ⟨hresult, h₃, hseen.undamaged hs₁.undamaged⟩

theorem hourly_mirrors (hplain : request.Plain) (version : Option String)
    (exportName exportName₀ : String) (hs : p.store.Consistent) (h : Abreast log p p₀) :
    Mirrors (hourly (o.settings settings) version (o.request request) exportName)
      (hourly settings version request exportName₀) p p₀ fun a p' b p₀' =>
      a.1 = (if p.store.hourly?.isSome then o.enriched b.1 else b.1) ∧
        Abreast (log ++ (if p.store.hourly?.isSome then [b.1] else []).flatMap o.consults)
          p' p₀' := by
  rw [hourly_eq, hourly_eq]
  refine mirrors_bind ((alikeOn_ask (fun _ _ => rfl) log p p₀ hs h).and_yields.imp ?_)
  rintro current? p₁ _ p₂ ⟨⟨rfl, h₁, -⟩, hask⟩
  obtain ⟨hopen, rfl⟩ := yields_ask.1 hask
  rw [Store.openReport?_eq hs.undamaged, Except.ok.injEq] at hopen
  have hhourly : p.store.hourly? = current? := hopen
  rw [hhourly]
  cases current? with
  | none =>
    refine mirrors_pure ⟨rfl, ?_⟩
    rwa [Option.isSome_none, if_neg Bool.false_ne_true, List.flatMap_nil, List.append_nil]
  | some current =>
    simp only [Option.isSome_some, if_true, List.flatMap_singleton]
    refine mirrors_bind ((reportHourly_mirrors hplain exportName exportName₀ hs hhourly h₁).imp ?_)
    rintro result p₃ result₀ p₄ ⟨hresult, h₃, hs₃⟩
    rw [carryOver_settings]
    refine mirrors_bind ((alikeOn_run (steady_carryOver _ _ _ _) _ p₃ p₄ hs₃ h₃).imp ?_)
    rintro u p₅ _ p₆ ⟨rfl, h₅, -⟩
    exact mirrors_pure ⟨hresult, h₅⟩

theorem daily_mirrors (hplain : request.Plain) (hs : p.store.Consistent) (h : Abreast log p p₀) :
    Mirrors (daily (o.settings settings) (o.request request)) (daily settings request) p p₀
      fun a p' b p₀' => a = b.map o.enriched ∧
        Abreast (log ++ b.toList.flatMap o.consults) p' p₀' := by
  have hdelete : ∀ (ids : List Int) (report report₀ : Option MetricReport) {log p₁ p₂},
      Abreast log p₁ p₂ → p₁.store.Undamaged → Mirrors
        (do deleteAll ids; pure report) (do deleteAll ids; pure report₀) p₁ p₂ fun a p' b p₀' =>
          a = report ∧ b = report₀ ∧ Abreast log p' p₀' := by
    intro ids report report₀ log p₁ p₂ h₁ hs₁
    refine mirrors_bind ((alikeOn_deleteAll ids log p₁ p₂ hs₁ h₁).imp ?_)
    rintro u p₃ _ p₄ ⟨rfl, h₃, -⟩
    exact mirrors_pure ⟨rfl, rfl, h₃⟩
  have hnone : ∀ {p₁ p₂}, Abreast log p₁ p₂ →
      Abreast (log ++ (none : Option MetricReport).toList.flatMap o.consults) p₁ p₂ := by
    intro p₁ p₂ h₁
    rwa [Option.toList_none, List.flatMap_nil, List.append_nil]
  refine mirrors_bind ((alikeOn_ask (fun _ _ => rfl) log p p₀ hs h).imp ?_)
  rintro ended p₁ _ p₂ ⟨rfl, h₁, hs₁⟩
  split
  · exact mirrors_pure ⟨rfl, hnone h₁⟩
  have henabled : (o.request request).dailyEnabled = request.dailyEnabled := rfl
  rw [henabled]
  split
  · refine (hdelete (ended.map (·.id)) none none h₁ hs₁.undamaged).imp ?_
    rintro _ _ _ _ ⟨rfl, rfl, h₃⟩
    exact ⟨rfl, hnone h₃⟩
  have hspan : (o.settings settings).retention = settings.retention := rfl
  have hnow : (o.request request).nowMs = request.nowMs := rfl
  rw [hspan, hnow]
  dsimp only
  split
  · exact mirrors_pure ⟨rfl, hnone h₁⟩
  refine mirrors_bind ((alikeOn_metricsOfAll _ log p₁ p₂ hs₁ h₁).imp ?_)
  rintro rows p₃ _ p₄ ⟨rfl, h₃, hs₃⟩
  refine mirrors_bind ((alikeOn_summarize _ _ .daily none _ _ _ log p₃ p₄ hs₃ h₃).imp ?_)
  rintro report p₅ _ p₆ ⟨rfl, h₅, hs₅⟩
  refine mirrors_bind ((derive_mirrors hplain report h₅).imp ?_)
  rintro ⟨report', derived⟩ p₇ _ p₈ ⟨rfl, rfl, h₇, hstore⟩
  rw [← hstore] at hs₅
  refine (hdelete (ended.map (·.id)) (some (o.enriched report)) (some report) h₇
    hs₅.undamaged).imp ?_
  rintro _ _ _ _ ⟨rfl, rfl, h₉⟩
  refine ⟨rfl, ?_⟩
  rwa [Option.toList_some, List.flatMap_singleton]

theorem session_mirrors (hplain : request.Plain) (hs : p.store.Consistent)
    (accumulator : Option ReportRow) (r : ReportRow) (h : Abreast log p p₀) :
    Mirrors (session (o.settings settings) (o.request request) accumulator r)
      (session settings request accumulator r) p p₀ fun a p' b p₀' =>
        a = o.enriched b ∧ Abreast (log ++ o.consults b) p' p₀' := by
  refine mirrors_bind ((alikeOn_sessionGroups request accumulator r log p p₀ hs h).imp ?_)
  rintro groups p₁ _ p₂ ⟨rfl, h₁, hs₁⟩
  refine mirrors_bind ((alikeOn_summarize _ _ .session r.name _ _ _ log p₁ p₂ hs₁ h₁).imp ?_)
  rintro report p₃ _ p₄ ⟨rfl, h₃, hs₃⟩
  refine mirrors_bind ((derive_mirrors hplain report h₃).imp ?_)
  rintro ⟨report', derived⟩ p₅ _ p₆ ⟨rfl, rfl, h₅, hstore⟩
  rw [← hstore] at hs₃
  refine mirrors_bind ((alikeOn_run (Transaction.steady_deleteReport r.id) _ p₅ p₆ hs₃.undamaged
    h₅).imp ?_)
  rintro u p₇ _ p₈ ⟨rfl, h₇, -⟩
  exact mirrors_pure ⟨rfl, h₇⟩

theorem sessionReports_mirrors (hplain : request.Plain) (accumulator : Option ReportRow)
    (rs : List ReportRow) :
    ∀ {log : List DerivedInput} {p p₀ : Progress}, p.store.Consistent → Abreast log p p₀ →
      Mirrors (sessionReports (o.settings settings) (o.request request) accumulator rs)
        (sessionReports settings request accumulator rs) p p₀ fun a p' b p₀' =>
          a = b.map o.enriched ∧ Abreast (log ++ b.flatMap o.consults) p' p₀' := by
  induction rs with
  | nil =>
    intro log p p₀ _ h
    refine mirrors_pure ⟨rfl, ?_⟩
    rwa [List.flatMap_nil, List.append_nil]
  | cons r rs ih =>
    intro log p p₀ hs h
    refine mirrors_bind ((session_mirrors hplain hs accumulator r h).and_yields.imp ?_)
    rintro _ p₁ report p₂ ⟨⟨rfl, h₁⟩, hsession⟩
    have hs₁ := (session_steps .everything hs trivial hsession).consistent hs
    refine mirrors_bind ((ih hs₁ h₁).imp ?_)
    rintro _ p₃ rest p₄ ⟨rfl, h₃⟩
    refine mirrors_pure ⟨rfl, ?_⟩
    rwa [List.flatMap_cons, ← List.append_assoc]

theorem sessions_mirrors (hplain : request.Plain) (hs : p.store.Consistent)
    (h : Abreast log p p₀) :
    Mirrors (sessions (o.settings settings) (o.request request)) (sessions settings request) p p₀
      fun a p' b p₀' => a = b.map o.enriched ∧ Abreast (log ++ b.flatMap o.consults) p' p₀' := by
  rw [sessions_eq, sessions_eq]
  refine mirrors_bind ((alikeOn_endDue settings request log p p₀ hs.undamaged h).and_yields.imp ?_)
  rintro u p₁ _ p₂ ⟨⟨rfl, h₁, -⟩, hdue⟩
  have hs₁ : p₁.store.Consistent := by
    rw [endDue_store hs.undamaged hdue]
    exact hs.endingDue _ _
  have haccumulator : AlikeOn Store.Consistent (dailyAccumulator request)
      (dailyAccumulator request) := by
    unfold dailyAccumulator
    split
    · exact alikeOn_pure _
    · exact alikeOn_ask fun _ _ => rfl
  refine mirrors_bind ((haccumulator log p₁ p₂ hs₁ h₁).imp ?_)
  rintro accumulator p₃ _ p₄ ⟨rfl, h₃, hs₃⟩
  refine mirrors_bind ((alikeOn_ask (fun _ _ => rfl) log p₃ p₄ hs₃ h₃).imp ?_)
  rintro ended p₅ _ p₆ ⟨rfl, h₅, hs₅⟩
  exact sessionReports_mirrors hplain accumulator ended hs₅ h₅

theorem others_mirrors (hplain : request.Plain) (hs : p.store.Consistent) (h : Abreast log p p₀)
    (hourly hourly₀ : MetricReport) (path path₀ : Option Path) :
    Mirrors (others (o.settings settings) (o.request request) hourly path)
      (others settings request hourly₀ path₀) p p₀ fun a p' b p₀' =>
        a.hourly = hourly ∧ b.hourly = hourly₀ ∧ a.daily = b.daily.map o.enriched ∧
          a.sessions = b.sessions.map o.enriched ∧
            Abreast (log ++ (b.daily.toList ++ b.sessions).flatMap o.consults) p' p₀' := by
  refine mirrors_bind ((daily_mirrors hplain hs h).and_yields.imp ?_)
  rintro _ p₁ daily p₂ ⟨⟨rfl, h₁⟩, hdaily⟩
  have hs₁ := (daily_steps .everything hs (fun _ _ _ => trivial) hdaily).consistent hs
  refine mirrors_bind ((sessions_mirrors hplain hs₁ h₁).and_yields.imp ?_)
  rintro _ p₃ sessions p₄ ⟨⟨rfl, h₃⟩, hsessions⟩
  have hs₃ := (sessions_steps .everything hs₁ (fun _ _ _ => trivial) hsessions).consistent hs₁
  refine mirrors_bind ((alikeOn_run (steady_retain settings request.nowMs) _ p₃ p₄ hs₃.undamaged
    h₃).imp ?_)
  rintro u p₅ _ p₆ ⟨rfl, h₅, -⟩
  refine mirrors_pure ⟨rfl, rfl, rfl, rfl, ?_⟩
  rwa [List.flatMap_append, ← List.append_assoc]

end Observed

end Collecting

/-! ### Collections -/

/-- No export has been refused: if the collection has failed, the store has failed it. -/
def CollectOutcome.Unrefused (r : CollectOutcome) : Prop :=
  ∀ err, r.result = .error err → err.InStore

/-- The reports are those of the first, with what is derived for each that has been made. -/
structure CustomReport.EnrichedBy (o : Observers) (hourlyOpen : Bool) (r₀ r : CustomReport) :
    Prop where
  hourly : r.hourly = if hourlyOpen then o.enriched r₀.hourly else r₀.hourly
  daily : r.daily = r₀.daily.map o.enriched
  sessions : r.sessions = r₀.sessions.map o.enriched

namespace Engine

variable {e : Engine}

/-- A collection with observers. -/
def collectWith (e : Engine) (o : Observers) (request : CollectRequest) (exportName : String)
    (files : Files) : CollectOutcome :=
  { e with settings := o.settings e.settings }.collect (o.request request) exportName files

/-- A collection is refused, or goes as one without a derivation and without an export does. -/
theorem collect_plainly (hs : e.store.Consistent) (o : Observers) (request : CollectRequest)
    (exportName exportName₀ : String) (files files₀ : Files) :
    let run := e.collectWith o request exportName files
    let run₀ := e.collect request.plain exportName₀ files₀
    run.Unrefused → run.engine.store.SeenAs run₀.engine.store ∧
      ((∃ err, run.result = .error err ∧ run₀.result = .error err) ∨
        ∃ report report₀, run.result = .ok report ∧ run₀.result = .ok report₀ ∧
          report₀.EnrichedBy o e.store.hourly?.isSome report ∧
          run.consulted = (report₀.made e.store.hourly?.isSome).flatMap o.consults) := by
  intro run run₀ hunrefused
  have hplain := request.plain_plain
  have hkeep : ∀ s s₀ : Store, (e.withStore { e.store with kept := s.kept }).store.SeenAs
      (e.withStore { e.store with kept := s₀.kept }).store := fun s s₀ => ⟨s₀.kept, rfl⟩
  have hstart : Progress.Abreast [] ⟨e.store, files, []⟩ ⟨e.store, files₀, []⟩ := ⟨.refl _, rfl⟩
  cases @Collecting.hourly_mirrors o e.settings _ _ _ _ hplain e.softwareVersion exportName
      exportName₀ hs hstart with
  | refused hf herr =>
    have hrun : run = _ := collect_of_error hf
    exact absurd (hunrefused _ (by rw [hrun])) herr
  | neither hf hf₀ =>
    have hrun : run = _ := collect_of_error hf
    have hrun₀ : run₀ = _ := collect_of_error hf₀
    rw [hrun, hrun₀]
    exact ⟨hkeep _ _, .inl ⟨_, rfl, rfl⟩⟩
  | both hy hy₀ hR =>
    obtain ⟨hhourly, h₁⟩ := hR
    have hs₁ := (Collecting.hourly_steps hs hy).consistent hs
    cases @Collecting.others_mirrors o e.settings _ _ _ _ hplain hs₁ h₁ _ _ _ _ with
    | refused hf herr =>
      have hrun : run = _ := collect_of_fails hy hf
      exact absurd (hunrefused _ (by rw [hrun])) herr
    | neither hf hf₀ =>
      have hrun : run = _ := collect_of_fails hy hf
      have hrun₀ : run₀ = _ := collect_of_fails hy₀ hf₀
      rw [hrun, hrun₀]
      exact ⟨hkeep _ _, .inl ⟨_, rfl, rfl⟩⟩
    | both ho ho₀ hR =>
      obtain ⟨ha, hb, hdaily, hsessions, h₂⟩ := hR
      have hrun : run = _ := collect_of_ok hy ho
      have hrun₀ : run₀ = _ := collect_of_ok hy₀ ho₀
      rw [hrun, hrun₀]
      obtain ⟨kept, hstore⟩ := h₂.store
      refine ⟨⟨kept, ?_⟩, .inr ⟨_, _, rfl, rfl, ⟨?_, hdaily, hsessions⟩, ?_⟩⟩
      · change (e.withStore _).store = _
        rw [hstore]
        rfl
      · rw [ha, hb, hhourly]
      · have hmade := h₂.consulted
        rw [List.nil_append, ← hb, ← List.flatMap_append, ← List.append_assoc] at hmade
        exact hmade

end Engine

end Telemetry
