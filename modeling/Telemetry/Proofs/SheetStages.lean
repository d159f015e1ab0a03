import Telemetry.Proofs.Sessions
import Telemetry.Proofs.SheetMerging

/-!
# The later stages on sheets

The daily stage merges the hourly accumulators that have ended once they span a day.  A session is
reported on by itself, with daily metrics that it does not have.  At last single values go, and then
what is empty.  Each stage is a function of the sheets.  They take no ids, so that none of them fails.
-/

namespace Telemetry

/-! ### On sheets -/

namespace Sheet

/-- The window of the daily report. -/
def daySpan (now : Int) (ended : List Sheet) : Window :=
  Collecting.span now ((sortedBy (·.header.startMs) ended).map (·.header))

/-- The daily report on hourly accumulators. -/
def dayReport (request : CollectRequest) (ended : List Sheet) : MetricReport :=
  let w := daySpan request.nowMs ended
  let version := (sortedBy (·.header.startMs) ended).getLast?.bind (·.header.softwareVersion)
  (request.derived ((MetricReport.empty .daily none w version).withGathered w (merged ended))).1

/-- The daily stage: its report, if one is made, and the sheets after it. -/
def dailyIn (settings : Settings) (request : CollectRequest) (xs : List Sheet) :
    Option MetricReport × List Sheet :=
  let ended := endedHourlies xs
  let others := xs.filter fun x => !x.header.isEnded .hourly
  if ended.isEmpty then (none, xs)
  else if !request.dailyEnabled then (none, others)
  else if (daySpan request.nowMs ended).durationMs < settings.retention.dailySpan then (none, xs)
  else (some (dayReport request ended), others)

/-- Adds the metrics of the daily accumulator that a session does not have itself. -/
def addDaily (daily : Sheet) : List String → List Gathered → List Gathered
  | [], gathered => gathered
  | name :: names, gathered =>
    if gathered.any (·.spec.eventName == name) then addDaily daily names gathered
    else
      match daily.track? name with
      | none => addDaily daily names gathered
      | some t => addDaily daily names (gathered ++ [daily.gather t])

/-- The daily accumulator, if the sessions take metrics of it in. -/
def dailyFor (request : CollectRequest) (xs : List Sheet) : Option Sheet :=
  if request.sessionDailyMetrics.isEmpty then none
  else xs.find? (·.header.isOpenAs .daily none)

/-- The report on a session. -/
def sessionReport (request : CollectRequest) (daily : Option Sheet) (x : Sheet) : MetricReport :=
  let w : Window := ⟨x.header.startMs, x.header.endMs.getD request.nowMs⟩
  let gathered := daily.elim x.gathered fun d => addDaily d request.sessionDailyMetrics x.gathered
  (request.derived
    ((MetricReport.empty .session x.header.name w x.header.softwareVersion).withGathered w
      gathered)).1

/-- The session stage: its reports and the sheets after it. -/
def sessionsIn (settings : Settings) (request : CollectRequest) (xs : List Sheet) :
    List MetricReport × List Sheet :=
  let due := sortedBy (·.header.startMs) (xs.filter fun x => x.header.isDue settings request)
  (due.map (sessionReport request (dailyFor request xs)),
    xs.filter fun x => !x.header.isDue settings request)

/-- A sheet without the values that are too old, if it is the daily accumulator's, and without the
metrics that have none. -/
def tidied (cutoff : Int) (x : Sheet) : Sheet :=
  let kept := if x.header.isOpenAs .daily none then
      x.tracks.map fun t => { t with values := t.values.filter fun v => decide (cutoff ≤ v.timeMs) }
    else x.tracks
  { x with tracks := kept.filter fun t => !t.values.isEmpty }

/-- The last stage. -/
def tidyIn (ages : RetentionSettings) (now : Int) (xs : List Sheet) : List Sheet :=
  (xs.map (tidied (now - ages.accumulatorRetention))).filter fun x =>
    !x.tracks.isEmpty || decide (now - ages.orphanReportExpiry ≤ x.header.startMs)

/-- The stages after the hourly one. -/
def othersIn (settings : Settings) (request : CollectRequest) (hourly : MetricReport)
    (path : Option Path) (xs : List Sheet) : CustomReport × List Sheet :=
  let (daily, xs) := dailyIn settings request xs
  let (sessions, xs) := sessionsIn settings request xs
  (⟨hourly, daily, sessions, path.map (·.text)⟩, tidyIn settings.retention request.nowMs xs)

/-- A collection: its result, the sheets and the files after it. -/
def collectIn (settings : Settings) (version : Option String) (request : CollectRequest)
    (exportName : String) (xs : List Sheet) (files : Files) :
    Except Failure CustomReport × List Sheet × Files :=
  match hourlyIn settings version request exportName xs files with
  | (.error e, _, files) => (.error e, xs, files)
  | (.ok (hourly, path), xs, files) =>
    let (report, xs) := othersIn settings request hourly path xs
    (.ok report, xs, files)

end Sheet

/-! ### Headers -/

theorem MetricReport.sameHeader_withGathered (w : Window) (gathered : List Gathered) :
    ∀ r : MetricReport, r.SameHeader (r.withGathered w gathered) := by
  induction gathered with
  | nil => exact fun r => .refl r
  | cons c gathered ih => exact fun r => (r.sameHeader_insertAll _ _).trans (ih _)

theorem CollectRequest.sameHeader_derived (request : CollectRequest) (r : MetricReport) :
    r.SameHeader (request.derived r).1 := by
  unfold derived
  cases request.derivation with
  | none => exact .refl r
  | some derivation => exact ⟨rfl, rfl, rfl, rfl, rfl⟩

/-! ### One session after the other -/

namespace Store

variable {s s' : Store} {accumulator : Option ReportRow} {r : ReportRow} {rs : List ReportRow}

/-- The sessions can be reported on one after the other, each with an accumulator, and deleted: they
are different ones, and the accumulator is none of them. -/
structure Reportable (s : Store) (accumulator : Option ReportRow) (rs : List ReportRow) :
    Prop where
  accumulator : ∀ a, accumulator = some a → a ∈ s.reports.rows ∧ a.kind ≠ .session
  distinct : (rs.map (·.id)).Nodup
  sessions : ∀ r ∈ rs, r ∈ s.reports.rows ∧ r.kind = .session

/-- Once the first of them is deleted the others can be reported on, and they and the accumulator
are as they were. -/
theorem Reportable.tail (h : s.Reportable accumulator (r :: rs)) (hs : s.Consistent)
    (hseen : (s.without [r.id]).SeenAs s') :
    s'.Reportable accumulator rs ∧ (∀ a, accumulator = some a → SameReport a.id s s') ∧
      ∀ x ∈ rs, SameReport x.id s s' := by
  obtain ⟨haccumulator, hdistinct, hsessions⟩ := h
  rw [List.map_cons, List.nodup_cons] at hdistinct
  rw [List.forall_mem_cons] at hsessions
  have hdaily : ∀ a, accumulator = some a → a ∈ s'.reports.rows ∧ SameReport a.id s s' := by
    intro a ha
    obtain ⟨ha, hkind⟩ := haccumulator a ha
    refine hs.stays hseen ha fun hid => hkind ?_
    rw [hs.report_eq ha hsessions.1.1 (List.mem_singleton.1 hid), hsessions.1.2]
  have hothers : ∀ x ∈ rs, x ∈ s'.reports.rows ∧ SameReport x.id s s' := by
    intro x hx
    refine hs.stays hseen (hsessions.2 x hx).1 fun hid => hdistinct.1 ?_
    exact List.mem_singleton.1 hid ▸ List.mem_map_of_mem hx
  exact ⟨⟨fun a ha => ⟨(hdaily a ha).1, (haccumulator a ha).2⟩, hdistinct.2,
      fun x hx => ⟨(hothers x hx).1, (hsessions.2 x hx).2⟩⟩,
    fun a ha => (hdaily a ha).2, fun x hx => (hothers x hx).2⟩

/-- The sessions that are due are such, once they have been ended. -/
theorem Consistent.reportable_due (hs : s.Consistent) (settings : Settings)
    (request : CollectRequest)
    (haccumulator : ∀ a, accumulator = some a →
      a ∈ (s.endingDue settings request).reports.rows ∧ a.kind ≠ .session) :
    (s.endingDue settings request).Reportable accumulator
      ((s.dueSessions settings request).map (·.endedBy request.nowMs)) := by
  refine ⟨haccumulator, ?_, fun r hr => ?_⟩
  · rw [List.map_map]
    refine List.pairwise_map.2 ((List.mergeSort_perm _ _).symm.pairwise ?_ fun h => h.symm)
    exact (hs.reportsNumbered.increasing.filter _).imp fun hlt => ne_of_lt hlt
  · obtain ⟨x, hx, rfl⟩ := List.mem_map.1 hr
    obtain ⟨hx, hdue⟩ := mem_dueSessions.1 hx
    have hkind : x.kind = .session := of_isDue hdue
    exact ⟨List.mem_map.2 ⟨x, hx, if_pos hdue⟩, hkind⟩

end Store

namespace Collecting

variable {settings : Settings} {request : CollectRequest} {p : Progress} {xs : List Sheet}

/-! ### The daily stage -/

theorem metricsOfAll_attains (ids : List Int) :
    ∀ {p : Progress}, p.store.Undamaged → Attains (metricsOfAll ids) p fun rows p' =>
      rows = ids.map p.store.metricRowsOf ∧ p.SeenAs p' := by
  induction ids with
  | nil => exact fun _ => attains_pure ⟨rfl, .refl _, rfl⟩
  | cons id ids ih =>
    intro p hs
    refine attains_bind ((metricsOf_attains hs id).imp fun own p₁ h₁ => ?_)
    obtain ⟨rfl, hseen₁⟩ := h₁
    refine attains_bind ((ih (hseen₁.store.undamaged hs)).imp fun rest p₂ h₂ => ?_)
    obtain ⟨rfl, hseen₂⟩ := h₂
    refine attains_pure ⟨?_, hseen₁.trans hseen₂⟩
    obtain ⟨kept, hp₁⟩ := hseen₁.store
    rw [hp₁]
    rfl

theorem deleteAll_attains (ids : List Int) :
    ∀ {p : Progress}, p.store.Undamaged → p.store.readOnly = false →
      Attains (deleteAll ids) p fun _ p' => p'.store = p.store.without ids := by
  induction ids with
  | nil => exact fun {p} _ _ => attains_pure (Store.without_nil p.store).symm
  | cons id ids ih =>
    intro p hs hwritable
    refine attains_bind (attains_run (Transaction.attains_change
      (Store.deleteReport_ok hs hwritable id) fun s hdelete => ?_))
    obtain rfl := Store.deleteReport_without hs hdelete
    refine (ih (by exact hs) (by exact hwritable)).imp fun _ p' h' => ?_
    rw [h', Store.without_append, List.singleton_append]

theorem daySpan_eq (h : p.store.Shows xs) (now : Int) :
    Sheet.daySpan now (Sheet.endedHourlies xs) = span now p.store.endedHourlies := by
  rw [Sheet.daySpan, h.sorted_eq, List.map_map, span, span, List.map_map, List.filterMap_map]
  rfl

/-- The daily stage comes to what it comes to on sheets. -/
theorem daily_attains (h : p.store.Shows xs) :
    Attains (daily settings request) p fun report p' =>
      report = (Sheet.dailyIn settings request xs).1 ∧
        p'.store.Shows (Sheet.dailyIn settings request xs).2 := by
  have hs := h.consistent
  have hempty : (Sheet.endedHourlies xs).isEmpty = p.store.endedHourlies.isEmpty := by
    rw [Bool.eq_iff_iff, List.isEmpty_iff, List.isEmpty_iff, ← List.map_eq_nil_iff (f := p.store.sheetOf),
      ← h.sorted_eq, ← List.length_eq_zero_iff, ← List.length_eq_zero_iff,
      (sortedBy_perm _).length_eq]
  have hdrop : (p.store.without (p.store.endedHourlies.map (·.id))).Shows
      (xs.filter fun x => !x.header.isEnded .hourly) := by
    refine h.without (p := (·.isEnded .hourly)) (fun r hr => ?_) fun _ => rfl
    constructor
    · intro hid
      obtain ⟨x, hx, hxr⟩ := List.mem_map.1 hid
      obtain ⟨hx, hended⟩ := Store.mem_endedHourlies.1 hx
      rwa [hs.report_eq hx hr hxr] at hended
    · exact fun hended => List.mem_map_of_mem (Store.mem_endedHourlies.2 ⟨hr, hended⟩)
  have hask : p.store.endedReports .hourly = .ok p.store.endedHourlies :=
    Store.endedReports_eq hs.undamaged .hourly
  refine attains_bind (attains_ask hask ?_)
  unfold Sheet.dailyIn
  dsimp only
  rw [hempty, daySpan_eq h]
  split
  · exact attains_pure ⟨rfl, h⟩
  split
  · refine attains_bind ((deleteAll_attains _ hs.undamaged h.writable).imp fun _ p₁ h₁ => ?_)
    exact attains_pure ⟨rfl, h₁ ▸ hdrop⟩
  split
  · exact attains_pure ⟨rfl, h⟩
  refine attains_bind ((metricsOfAll_attains _ hs.undamaged).imp fun rows p₁ h₁ => ?_)
  obtain ⟨rfl, hseen₁⟩ := h₁
  rw [List.map_map]
  refine attains_bind ((summarize_attains
    (h.gathers_merged.imp fun _ _ hg => hg.seenAs hseen₁.store)
    (hseen₁.store.consistent hs) settings .daily none _ _).imp fun report p₂ h₂ => ?_)
  obtain ⟨rfl, hseen₂⟩ := h₂
  refine attains_bind ((derive_attains request _ p₂).imp fun result p₃ h₃ => ?_)
  obtain ⟨rfl, hseen₃⟩ := h₃
  have hseen := ((hseen₁.trans hseen₂).trans hseen₃).store
  refine attains_bind ((deleteAll_attains _ (hseen.undamaged hs.undamaged)
    (hseen.readOnly_eq.trans h.writable)).imp fun _ p₄ h₄ => ?_)
  refine attains_pure ⟨?_, ?_⟩
  · rw [Sheet.dayReport, daySpan_eq h, h.sorted_eq, List.getLast?_map, Option.bind_map]
    rfl
  · rw [h₄]
    exact hdrop.seenAs (Store.without_seenAs hseen _)

/-! ### The session stage -/

theorem any_named {s : Store} {groups : List MetricGroup} {gathered : List Gathered}
    (h : List.Forall₂ s.Gathers groups gathered) (name : String) :
    groups.any (·.spec.eventName == name) = gathered.any (·.spec.eventName == name) := by
  induction h with
  | nil => rfl
  | cons hg _ ih => rw [List.any_cons, List.any_cons, hg.spec, ih]

theorem addDailyGroups_attains (hs : p.store.Consistent) {a : ReportRow}
    (ha : a ∈ p.store.reports.rows) (names : List String) :
    ∀ {groups : List MetricGroup} {gathered : List Gathered},
      List.Forall₂ p.store.Gathers groups gathered →
      Attains (addDailyGroups a.id names groups) p fun groups' p' => p' = p ∧
        List.Forall₂ p.store.Gathers groups' (Sheet.addDaily (p.store.sheetOf a) names gathered) := by
  induction names with
  | nil => exact fun h => attains_pure ⟨rfl, h⟩
  | cons name names ih =>
    intro groups gathered h
    unfold addDailyGroups Sheet.addDaily
    rw [any_named h]
    split
    · exact ih h
    refine attains_bind (attains_ask (Store.findMetric?_eq hs.undamaged a.id name) ?_)
    rw [Store.track?_sheetOf, Store.metric?]
    cases hfind : p.store.metrics.rows.find? (·.isNamed a.id name) with
    | none => exact ih h
    | some m =>
      obtain ⟨hm, hreport, -⟩ := Store.of_metric? hfind
      have hgathers := Store.gathers_single hm ha hreport
      exact ih (List.rel_append h (.cons hgathers .nil))

theorem sessionGroups_attains (hs : p.store.Consistent) {accumulator : Option ReportRow}
    (haccumulator : ∀ a, accumulator = some a → a ∈ p.store.reports.rows) {r : ReportRow}
    (hr : r ∈ p.store.reports.rows) :
    Attains (sessionGroups request accumulator r) p fun groups p' => p.SeenAs p' ∧
      List.Forall₂ p.store.Gathers groups ((accumulator.map p.store.sheetOf).elim
        (p.store.sheetOf r).gathered fun d =>
          Sheet.addDaily d request.sessionDailyMetrics (p.store.sheetOf r).gathered) := by
  refine attains_bind ((metricsOf_attains hs.undamaged r.id).imp fun rows p₁ h₁ => ?_)
  obtain ⟨rfl, hseen⟩ := h₁
  have hown := Store.gathers_metricRowsOf hr
  cases accumulator with
  | none => exact attains_pure ⟨hseen, hown⟩
  | some a =>
    obtain ⟨⟨kept, hstore⟩, hfiles⟩ := hseen
    have ha : a ∈ p₁.store.reports.rows := by
      rw [hstore]
      exact haccumulator a rfl
    have hsheet : p₁.store.sheetOf a = p.store.sheetOf a := by
      rw [hstore]
      rfl
    have hseen : p.SeenAs p₁ := ⟨⟨kept, hstore⟩, hfiles⟩
    refine (addDailyGroups_attains (hseen.store.consistent hs) ha request.sessionDailyMetrics
      (hown.imp fun _ _ hg => hg.seenAs hseen.store)).imp fun groups p₂ h₂ => ?_
    obtain ⟨rfl, hgroups⟩ := h₂
    rw [hsheet] at hgroups
    refine ⟨hseen, hgroups.imp fun _ _ hg => hg.seenAs ⟨p.store.kept, ?_⟩⟩
    rw [hstore]

theorem session_attains (hs : p.store.Consistent) (hwritable : p.store.readOnly = false)
    {accumulator : Option ReportRow}
    (haccumulator : ∀ a, accumulator = some a → a ∈ p.store.reports.rows) {r : ReportRow}
    (hr : r ∈ p.store.reports.rows) :
    Attains (session settings request accumulator r) p fun report p' =>
      report = Sheet.sessionReport request (accumulator.map p.store.sheetOf) (p.store.sheetOf r) ∧
        (p.store.without [r.id]).SeenAs p'.store := by
  refine attains_bind ((sessionGroups_attains hs haccumulator hr).imp fun groups p₁ h₁ => ?_)
  obtain ⟨hseen₁, hgroups⟩ := h₁
  refine attains_bind ((summarize_attains (hgroups.imp fun _ _ hg => hg.seenAs hseen₁.store)
    (hseen₁.store.consistent hs) settings .session r.name _ _).imp fun report p₂ h₂ => ?_)
  obtain ⟨rfl, hseen₂⟩ := h₂
  refine attains_bind ((derive_attains request _ p₂).imp fun result p₃ h₃ => ?_)
  obtain ⟨rfl, hseen₃⟩ := h₃
  have hseen := ((hseen₁.trans hseen₂).trans hseen₃).store
  have hs₃ := hseen.undamaged hs.undamaged
  refine attains_bind (attains_run (Transaction.attains_change
    (Store.deleteReport_ok hs₃ (hseen.readOnly_eq.trans hwritable) r.id) fun s hdelete => ?_))
  obtain rfl := Store.deleteReport_without hs₃ hdelete
  exact attains_pure ⟨rfl, Store.without_seenAs hseen _⟩

theorem sessionReports_attains (rs : List ReportRow) :
    ∀ {p : Progress} {accumulator : Option ReportRow}, p.store.Consistent →
      p.store.readOnly = false → p.store.Reportable accumulator rs →
      Attains (sessionReports settings request accumulator rs) p fun reports p' =>
        reports = rs.map (fun r => Sheet.sessionReport request (accumulator.map p.store.sheetOf)
            (p.store.sheetOf r)) ∧
          (p.store.without (rs.map (·.id))).SeenAs p'.store := by
  induction rs with
  | nil =>
    intro p accumulator _ _ _
    exact attains_pure ⟨rfl, by simpa using Store.SeenAs.refl p.store⟩
  | cons r rs ih =>
    intro p accumulator hs hwritable hrs
    refine attains_bind ((session_attains hs hwritable (fun a ha => (hrs.accumulator a ha).1)
      (hrs.sessions r List.mem_cons_self).1).imp fun report p₁ h₁ => ?_)
    obtain ⟨rfl, hseen₁⟩ := h₁
    have hs₁ := hseen₁.consistent (hs.without [r.id])
    have hwritable₁ : p₁.store.readOnly = false := hseen₁.readOnly_eq.trans hwritable
    obtain ⟨hrs₁, hdaily, hothers⟩ := hrs.tail hs hseen₁
    refine attains_bind ((ih hs₁ hwritable₁ hrs₁).imp fun reports p₂ h₂ => ?_)
    obtain ⟨rfl, hseen₂⟩ := h₂
    have hmap : accumulator.map p₁.store.sheetOf = accumulator.map p.store.sheetOf := by
      cases accumulator with
      | none => rfl
      | some a => exact congrArg some (hdaily a rfl).sheetOf_eq
    refine attains_pure ⟨?_, ?_⟩
    · rw [hmap, List.map_cons]
      refine congrArg _ (List.map_congr_left fun x hx => ?_)
      rw [(hothers x hx).sheetOf_eq]
    · have hboth := (Store.without_seenAs hseen₁ (rs.map (·.id))).trans hseen₂
      rwa [Store.without_append, List.singleton_append] at hboth

theorem endDue_attains (hs : p.store.Consistent) (hwritable : p.store.readOnly = false) :
    Attains (endDue settings request) p fun _ p' =>
      p'.store = p.store.endingDue settings request ∧ p'.store.Consistent := by
  have hexpire : ∀ {p : Progress}, p.store.Undamaged → p.store.readOnly = false →
      Attains (run (Transaction.change
        (·.expireSessions request.nowMs settings.retention.sessionExpiry))) p fun _ _ => True :=
    fun hs hwritable => attains_run (Transaction.attains_change
      (Store.endSelected_ok hs hwritable _ _ _) fun _ _ => trivial)
  have hsome : Attains (endDue settings request) p fun _ _ => True := by
    unfold endDue
    split
    · refine attains_bind (attains_run (Transaction.attains_change
        (Store.endSelected_ok hs.undamaged hwritable _ _ _) fun s hend => ?_))
      obtain rfl := Store.endSelected_eq_ok hs.undamaged hend
      exact hexpire hs.undamaged hwritable
    · exact hexpire hs.undamaged hwritable
  obtain ⟨u, p', hend, -⟩ := hsome
  have hstore := endDue_store hs.undamaged hend
  exact ⟨u, p', hend, hstore, hstore ▸ hs.endingDue settings request⟩

/-- The daily accumulator is not ended with the sessions. -/
theorem daily_endingDue (s : Store) :
    (s.endingDue settings request).reports.rows.find? (·.isOpenAs .daily none) =
      s.reports.rows.find? (·.isOpenAs .daily none) := by
  have hcomp : ∀ r : ReportRow, (if r.isDue settings request then r.endedBy request.nowMs else
      r).isOpenAs .daily none = r.isOpenAs .daily none := by
    intro r
    split
    · next hdue =>
      simp only [ReportRow.isDue, Bool.and_eq_true, beq_iff_eq] at hdue
      simp [ReportRow.isOpenAs, ReportRow.endedBy, hdue.1]
    · rfl
  change (s.reports.rows.map fun r =>
    if r.isDue settings request then r.endedBy request.nowMs else r).find? _ = _
  rw [List.find?_map, funext (f := (ReportRow.isOpenAs .daily none) ∘ _) hcomp]
  cases hfound : s.reports.rows.find? (·.isOpenAs .daily none) with
  | none => rfl
  | some a =>
    have hopen : a.isOpenAs .daily none = true := List.find?_some hfound
    have hkept : a.isDue settings request = false := by
      simp [ReportRow.isDue, (ReportRow.isOpenAs_iff.1 hopen).1]
    rw [Option.map_some, hkept, if_neg Bool.false_ne_true]

theorem dailyAccumulator_attains {s : Store} (h : s.Shows xs) (hs : p.store.Consistent)
    (hstore : p.store = s.endingDue settings request) :
    Attains (dailyAccumulator request) p fun accumulator p' => p' = p ∧
      (∀ a, accumulator = some a → a ∈ p.store.reports.rows ∧ a.kind ≠ .session) ∧
        accumulator.map p.store.sheetOf = Sheet.dailyFor request xs := by
  have hsheet : p.store.sheetOf = s.sheetOf := by
    rw [hstore]
    rfl
  unfold dailyAccumulator Sheet.dailyFor
  split
  · exact attains_pure ⟨rfl, fun a ha => (Option.some_ne_none a ha.symm).elim, rfl⟩
  · refine attains_ask (Store.openReport?_eq hs.undamaged _ _) ⟨rfl, fun a ha => ?_, ?_⟩
    · have hopen : a.isOpenAs .daily none = true := List.find?_some ha
      exact ⟨List.mem_of_find?_eq_some ha, by simp [(ReportRow.isOpenAs_iff.1 hopen).1]⟩
    · rw [hsheet, ← h.sheets, Store.find?_sheets _ fun _ => rfl]
      exact congrArg _ ((congrArg (fun s : Store =>
        s.reports.rows.find? (·.isOpenAs .daily none)) hstore).trans (daily_endingDue s))

/-- The sessions that are due, in the order in which they are reported. -/
theorem dueSessions_eq {s : Store} (h : s.Shows xs) :
    sortedBy (·.header.startMs) (xs.filter fun x => x.header.isDue settings request) =
      (s.dueSessions settings request).map s.sheetOf := by
  rw [← h.sheets, Store.filter_sheets _ fun _ => rfl, Store.dueSessions,
    h.consistent.sorted_reports]
  exact sortedBy_map (fun _ => rfl) _

theorem without_dueSessions {s : Store} (h : s.Shows xs) :
    (s.without ((s.dueSessions settings request).map (·.id))).Shows
      (Sheet.sessionsIn settings request xs).2 := by
  refine h.without (p := (·.isDue settings request)) (fun r hr => ?_) fun _ => rfl
  constructor
  · intro hid
    obtain ⟨x, hx, hxr⟩ := List.mem_map.1 hid
    obtain ⟨hx, hended⟩ := Store.mem_dueSessions.1 hx
    rwa [h.consistent.report_eq hx hr hxr] at hended
  · exact fun hdue => List.mem_map_of_mem (Store.mem_dueSessions.2 ⟨hr, hdue⟩)

/-- The session stage comes to what it comes to on sheets. -/
theorem sessions_attains (h : p.store.Shows xs) :
    Attains (sessions settings request) p fun reports p' =>
      reports = (Sheet.sessionsIn settings request xs).1 ∧
        p'.store.Shows (Sheet.sessionsIn settings request xs).2 := by
  have hs := h.consistent
  rw [sessions_eq]
  refine attains_bind ((endDue_attains hs h.writable).imp fun _ p₁ h₁ => ?_)
  obtain ⟨hstore, hs₁⟩ := h₁
  have hsheet : ∀ r, p₁.store.sheetOf r = ⟨r.unnumbered, p.store.tracksOf r.id⟩ := by
    rw [hstore]
    exact fun _ => rfl
  refine attains_bind ((dailyAccumulator_attains h hs₁ hstore).imp fun accumulator p₂ h₂ => ?_)
  obtain ⟨rfl, hacc, hmap⟩ := h₂
  have hask : p₂.store.endedReports .session =
      .ok ((p.store.dueSessions settings request).map (·.endedBy request.nowMs)) := by
    rw [Store.endedReports_eq hs₁.undamaged, hstore, Store.ended_endingDue]
  refine attains_bind (attains_ask hask ?_)
  have hwritable₁ : p₂.store.readOnly = false := by
    rw [hstore]
    exact h.writable
  have hrs := hs.reportable_due settings request (hstore ▸ hacc)
  refine (sessionReports_attains _ hs₁ hwritable₁ (hstore ▸ hrs)).imp fun reports p' h' => ?_
  obtain ⟨rfl, hseen⟩ := h'
  rw [List.map_map] at hseen
  constructor
  · rw [Sheet.sessionsIn, dueSessions_eq h, hmap, List.map_map, List.map_map]
    refine List.map_congr_left fun r _ => ?_
    rw [Function.comp_apply, Function.comp_apply, hsheet]
    rfl
  · refine Store.Shows.seenAs ?_ hseen
    have hdrop : (p.store.without ((p.store.dueSessions settings request).map (·.id))).Shows
        (Sheet.sessionsIn settings request xs).2 := without_dueSessions h
    rw [← Store.endingDue_without] at hdrop
    rw [hstore]
    exact hdrop

end Collecting

/-! ### The last stage -/

namespace Store

variable {s s' : Store} {xs : List Sheet} {ages : RetentionSettings} {now : Int}

/-- A metric keeps the values that are young enough, or all of them if they are not the daily
accumulator's. -/
theorem TidiedInto.timedOf_eq (h : s.TidiedInto ages now s') (hs : s.Consistent) {m : MetricRow}
    (hm : m ∈ s.metrics.rows) {r : ReportRow} (hr : r ∈ s.reports.rows) (hmr : m.reportId = r.id) :
    s'.timedOf m.id = if r.isOpenAs .daily none then
      (s.timedOf m.id).filter fun v => decide (now - ages.accumulatorRetention ≤ v.timeMs)
    else s.timedOf m.id := by
  split
  · next hopen =>
    have hkind : r.kind = .daily := (ReportRow.isOpenAs_iff.1 hopen).1
    rw [timedOf, timedOf, List.filter_map, Store.valuesOf, h.values, List.filter_comm]
    congr 1
    refine List.filter_congr fun v hv => ?_
    rw [Bool.eq_iff_iff, Bool.not_eq_true', ← Bool.not_eq_true,
      hs.isOutdated_iff hm (mem_valuesOf.1 hv).2.symm hr hmr, and_iff_right hkind, not_lt,
      Function.comp_apply, decide_eq_true_eq]
    rfl
  · next hclosed =>
    rw [timedOf, h.valuesOf_eq hs hm fun a ha hid => ?_, timedOf]
    rw [hs.report_eq (List.mem_of_find?_eq_some ha) hr (hid.trans hmr)] at ha
    exact hclosed (List.find?_some ha)

theorem TidiedInto.sheetOf_eq (h : s.TidiedInto ages now s') (hs : s.Consistent) {r : ReportRow}
    (hr : r ∈ s.reports.rows) :
    s'.sheetOf r = Sheet.tidied (now - ages.accumulatorRetention) (s.sheetOf r) := by
  have hempty : ∀ m : MetricRow,
      (s'.valuesOf m.id).isEmpty = (TimedValue.byTime (s'.timedOf m.id)).isEmpty := by
    intro m
    rw [TimedValue.byTime_eq, Bool.eq_iff_iff, List.isEmpty_iff, List.isEmpty_iff,
      ← List.length_eq_zero_iff, ← List.length_eq_zero_iff, (sortedBy_perm _).length_eq, timedOf,
      List.length_map]
  have htracks : (s.metricRowsOf r.id).map s'.trackOf =
      if r.isOpenAs .daily none then
        (s.tracksOf r.id).map fun t =>
          { t with values := t.values.filter fun v =>
              decide (now - ages.accumulatorRetention ≤ v.timeMs) }
      else s.tracksOf r.id := by
    have htimed := fun (m : MetricRow) (hm : m ∈ s.metricRowsOf r.id) =>
      h.timedOf_eq hs (mem_metricRowsOf.1 hm).1 hr (mem_metricRowsOf.1 hm).2
    split
    · next hopen =>
      rw [tracksOf, List.map_map]
      refine List.map_congr_left fun m hm => ?_
      rw [trackOf, htimed m hm, if_pos hopen, Function.comp_apply, trackOf, TimedValue.byTime_eq,
        TimedValue.byTime_eq, sortedBy_filter]
    · next hclosed =>
      refine List.map_congr_left fun m hm => ?_
      rw [trackOf, htimed m hm, if_neg hclosed, trackOf]
  have hrows : s'.metricRowsOf r.id =
      (s.metricRowsOf r.id).filter fun m => !(s'.valuesOf m.id).isEmpty := by
    rw [Store.metricRowsOf, h.metrics, List.filter_comm]
    rfl
  have hfilter : ((s.metricRowsOf r.id).filter fun m => !(s'.valuesOf m.id).isEmpty).map s'.trackOf =
      ((s.metricRowsOf r.id).map s'.trackOf).filter fun t => !t.values.isEmpty := by
    rw [List.filter_map]
    congr 1
    exact List.filter_congr fun m _ => congrArg not (hempty m)
  rw [sheetOf, tracksOf, hrows, hfilter, htracks, Sheet.tidied]
  rfl

theorem Shows.tidied (h : s.Shows xs) (htidied : s.TidiedInto ages now s') (hs' : s'.Consistent)
    (hwritable' : s'.readOnly = false) : s'.Shows (Sheet.tidyIn ages now xs) := by
  refine ⟨hs', hwritable', h.sequential.of_rows
    (fun r hr => ⟨r, (htidied.mem_reports.1 hr).1, rfl, rfl, id⟩)
    (fun m hm => ⟨m, (htidied.mem_metrics.1 hm).1, rfl, rfl⟩)
    (fun v hv => (htidied.mem_values.1 hv).1), ?_⟩
  have hmap : xs.map (Sheet.tidied (now - ages.accumulatorRetention)) =
      s.reports.rows.map s'.sheetOf := by
    rw [← h.sheets, Store.sheets, List.map_map]
    exact List.map_congr_left fun r hr => (htidied.sheetOf_eq h.consistent hr).symm
  rw [Sheet.tidyIn, hmap, List.filter_map, Store.sheets, htidied.reports]
  congr 1
  refine List.filter_congr fun r _ => ?_
  rw [Function.comp_apply, sheetOf, tracksOf, List.isEmpty_map]
  rfl

end Store

namespace Collecting

variable {settings : Settings} {request : CollectRequest} {xs : List Sheet}

theorem retain_attains {s : Store} (h : s.Shows xs) (now : Int) :
    Attains (retain settings now) s fun _ s' =>
      s'.Shows (Sheet.tidyIn settings.retention now xs) := by
  have hs := h.consistent
  -- what is empty goes in any case
  have hrest : ∀ {s : Store}, s.Undamaged → s.readOnly = false → Attains (do
      Transaction.change (·.deleteOrphanMetrics)
      Transaction.change (·.deleteOrphanReports (now - settings.retention.orphanReportExpiry))) s
      fun _ _ => True := by
    intro s hs hwritable
    refine attains_bind (Transaction.attains_change (Store.deleteOrphanMetrics_ok hs hwritable)
      fun s₁ h₁ => ?_)
    obtain rfl := Store.deleteOrphanMetrics_eq_ok hs h₁
    exact Transaction.attains_change (Store.deleteOrphanReports_ok (by exact hs)
      (by exact hwritable) _) fun _ _ => trivial
  have hsome : Attains (retain settings now) s fun _ _ => True := by
    refine attains_bind (Transaction.attains_query (Store.openReport?_eq hs.undamaged _ _) ?_)
    cases s.reports.rows.find? (·.isOpenAs .daily none) with
    | none => exact hrest hs.undamaged h.writable
    | some r =>
      refine attains_bind (Transaction.attains_change
        ⟨_, Store.removeValues_ok hs.undamaged h.writable _ _⟩ fun s₁ h₁ => ?_)
      obtain rfl := Store.removeValues_eq_ok h₁
      exact hrest hs.undamaged h.writable
  obtain ⟨u, s', hretain, -⟩ := hsome
  have hsteps := retain_steps .everything hs (fun _ _ _ => trivial)
    ⟨fun _ _ _ => trivial, fun _ _ _ => trivial⟩ hretain
  exact ⟨u, s', hretain, h.tidied (retain_tidies hs.undamaged hretain) (hsteps.consistent hs)
    (hsteps.readOnly_eq.trans h.writable)⟩

/-- The stages after the hourly one come to what they come to on sheets. -/
theorem others_attains (settings : Settings) (request : CollectRequest) (hourly : MetricReport)
    {p : Progress} (h : p.store.Shows xs) (path : Option Path) :
    Attains (others settings request hourly path) p fun report p' =>
      report = (Sheet.othersIn settings request hourly path xs).1 ∧
        p'.store.Shows (Sheet.othersIn settings request hourly path xs).2 := by
  refine attains_bind ((daily_attains h).imp fun daily p₁ h₁ => ?_)
  obtain ⟨rfl, h₁⟩ := h₁
  refine attains_bind ((sessions_attains h₁).imp fun reports p₂ h₂ => ?_)
  obtain ⟨rfl, h₂⟩ := h₂
  refine attains_bind (attains_run ((retain_attains h₂ request.nowMs).imp fun _ s' h' => ?_))
  exact attains_pure ⟨rfl, h'⟩

end Collecting

end Telemetry
