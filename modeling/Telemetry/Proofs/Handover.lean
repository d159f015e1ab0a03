import Telemetry.Proofs.Recollecting

/-!
# What a successor takes over

A metric of the open hourly accumulator goes on in the successor if it is carried over and its newest
value up to now is not too old.  The successor has one metric for each of them, with the same
attributes and with this one value, and it is started only if there is one.  Sessions take nothing
over: what they hold they held before.
-/

namespace Telemetry

theorem map_fst_filterMap_sublist {α β : Type} (f : α → Option β) (l : List α) :
    ((l.filterMap fun a => (f a).map fun b => (a, b)).map (·.1)).Sublist l := by
  induction l with
  | nil => exact .slnil
  | cons a l ih =>
    rw [List.filterMap_cons]
    cases f a with
    | none => exact ih.cons a
    | some b => exact ih.cons_cons a

namespace Store

/-- The newest value of a metric up to a time; among those of one time it is the last one. -/
structure NewestUpTo (s : Store) (metricId t : Int) (v : ValueRow) : Prop where
  own : v ∈ s.valuesOf metricId
  upTo : v.timeMs ≤ t
  newest : ∀ w ∈ s.valuesOf metricId, w.timeMs ≤ t →
    w.timeMs < v.timeMs ∨ w.timeMs = v.timeMs ∧ w.id ≤ v.id

/-- What a report hands over at a time: a metric that is carried over, with its newest value. -/
structure Carries (s : Store) (maxAge now reportId : Int) (m : MetricRow) (v : ValueRow) :
    Prop where
  own : m ∈ s.metricRowsOf reportId
  flagged : m.spec.carryOver = true
  newest : s.NewestUpTo m.id now v
  young : now - v.timeMs ≤ maxAge

/-- The metric is a copy of another one that has a copy of one value and nothing else. -/
def IsCopy (s : Store) (c : MetricRow × ValueRow) (m : MetricRow) : Prop :=
  m.spec = c.1.spec ∧ ∃ w, s.valuesOf m.id = [w] ∧ w.Repeats c.2

/-- A report continues another one: it starts now, and has a copy of each metric that is handed over,
in their order and once each. -/
structure TakesOver (before after : Store) (maxAge now : Int) (version : Option String)
    (sourceId : Int) (r : ReportRow) : Prop where
  startMs : r.startMs = now
  softwareVersion : r.softwareVersion = version
  copies : ∃ carried : List (MetricRow × ValueRow),
    (carried.map (·.1)).Sublist (before.metricRowsOf sourceId) ∧
      (∀ m v, (m, v) ∈ carried ↔ before.Carries maxAge now sourceId m v) ∧
      List.Forall₂ after.IsCopy carried (after.metricRowsOf r.id)

variable {s s' : Store} {id t maxAge now : Int} {m : MetricRow} {v : ValueRow}

/-! ### The newest value -/

theorem later_precedes (hs : s.Undamaged) (a b : ValueRow) :
    a.precedes (s.later a b) = true ∧ b.precedes (s.later a b) = true := by
  have hrefl : ∀ x : ValueRow, x.precedes x = true := fun x => by simpa using x.precedes_total x
  rw [later, precedes_eq hs]
  by_cases hab : a.precedes b = true
  · rw [if_pos hab]
    exact ⟨hab, hrefl b⟩
  · have hba : (a.precedes b || b.precedes a) = true := ValueRow.precedes_total a b
    rw [if_neg hab]
    exact ⟨hrefl a, (Bool.or_eq_true_iff.1 hba).resolve_left hab⟩

theorem foldl_later_precedes (hs : s.Undamaged) (rows : List ValueRow) :
    ∀ v, ∀ w ∈ v :: rows, w.precedes (rows.foldl s.later v) = true := by
  induction rows with
  | nil =>
    intro v w hw
    obtain rfl := List.mem_singleton.1 hw
    simpa using w.precedes_total w
  | cons x rows ih =>
    intro v w hw
    obtain ⟨hv, hx⟩ := later_precedes hs v x
    have hfirst := ih (s.later v x) (s.later v x) List.mem_cons_self
    rw [List.foldl_cons]
    rcases List.mem_cons.1 hw with rfl | hw
    · exact ValueRow.precedes_trans _ _ _ hv hfirst
    · rcases List.mem_cons.1 hw with rfl | hw
      · exact ValueRow.precedes_trans _ _ _ hx hfirst
      · exact ih _ w (List.mem_cons_of_mem _ hw)

theorem NewestUpTo.eq (hs : s.Consistent) {w : ValueRow} (hv : s.NewestUpTo id t v)
    (hw : s.NewestUpTo id t w) : v = w := by
  apply eq_of_precedes hs (mem_valuesOf.1 hv.own).1 (mem_valuesOf.1 hw.own).1
  · exact ValueRow.precedes_iff.2 (hw.newest v hv.own hv.upTo)
  · exact ValueRow.precedes_iff.2 (hv.newest w hw.own hw.upTo)

theorem newestUpTo_of_latestRow? (hs : s.Undamaged) (h : s.latestRow? id t = some v) :
    s.NewestUpTo id t v := by
  obtain ⟨hv, htime⟩ := of_latestRow? h
  refine ⟨hv, htime, fun w hw hwt => ValueRow.precedes_iff.1 ?_⟩
  have hmem : w ∈ (s.valuesOf id).filter fun v => decide (v.timeMs ≤ t) :=
    List.mem_filter.2 ⟨hw, decide_eq_true hwt⟩
  unfold latestRow? at h
  split at h
  · cases h
  · next x rows hrows =>
    cases h
    exact foldl_later_precedes hs rows x w (hrows ▸ hmem)

theorem latestRow?_eq_some (hs : s.Consistent) :
    s.latestRow? id t = some v ↔ s.NewestUpTo id t v := by
  constructor
  · exact newestUpTo_of_latestRow? hs.undamaged
  · intro hv
    cases h : s.latestRow? id t with
    | some w => rw [(newestUpTo_of_latestRow? hs.undamaged h).eq hs hv]
    | none =>
      have hmem : v ∈ (s.valuesOf id).filter fun v => decide (v.timeMs ≤ t) :=
        List.mem_filter.2 ⟨hv.own, decide_eq_true hv.upTo⟩
      unfold latestRow? at h
      split at h
      · next hnone =>
        rw [hnone] at hmem
        cases hmem
      · cases h

/-! ### What is handed over -/

/-- The newest value of a metric, unless it is too old. -/
def youngRow? (s : Store) (maxAge now : Int) (m : MetricRow) : Option ValueRow :=
  (s.latestRow? m.id now).filter fun v => decide (now - v.timeMs ≤ maxAge)

/-- What a report hands over, metric by metric. -/
def handover (s : Store) (maxAge now reportId : Int) : List (MetricRow × ValueRow) :=
  ((s.metricRowsOf reportId).filter (·.spec.carryOver)).filterMap fun m =>
    (s.youngRow? maxAge now m).map fun v => (m, v)

theorem handover_sublist (s : Store) (maxAge now reportId : Int) :
    ((s.handover maxAge now reportId).map (·.1)).Sublist (s.metricRowsOf reportId) :=
  (map_fst_filterMap_sublist _ _).trans List.filter_sublist

theorem mem_handover (hs : s.Consistent) {reportId : Int} :
    (m, v) ∈ s.handover maxAge now reportId ↔ s.Carries maxAge now reportId m v := by
  unfold handover youngRow?
  rw [List.mem_filterMap]
  constructor
  · rintro ⟨x, hx, hxv⟩
    obtain ⟨w, hw, heq⟩ := Option.map_eq_some_iff.1 hxv
    obtain ⟨rfl, rfl⟩ := Prod.mk.inj heq
    obtain ⟨hlatest, hyoung⟩ := Option.filter_eq_some_iff.1 hw
    obtain ⟨hown, hflagged⟩ := List.mem_filter.1 hx
    exact ⟨hown, hflagged, (latestRow?_eq_some hs).1 hlatest, of_decide_eq_true hyoung⟩
  · intro h
    refine ⟨m, List.mem_filter.2 ⟨h.own, h.flagged⟩, ?_⟩
    rw [(latestRow?_eq_some hs).2 h.newest, Option.filter_some, if_pos (decide_eq_true h.young),
      Option.map_some]

theorem carriedHoldings_eq_map {r : ReportRow} (hopen : s.hourly? = some r) (maxAge now : Int) :
    s.carriedHoldings maxAge now =
      (s.handover maxAge now r.id).map fun c => ⟨c.1.spec, [c.2.reading]⟩ := by
  rw [carriedHoldings, hopen, Option.elim_some, handover, List.map_filterMap]
  refine List.filterMap_congr fun m _ => ?_
  rw [carriedHolding?, youngRow?, Option.map_map]
  rfl

/-- A metric with what it holds is a copy if it says the same. -/
theorem isCopy_of_holdingOf {c : MetricRow × ValueRow}
    (h : (⟨c.1.spec, [c.2.reading]⟩ : Holding) = s.holdingOf m) : s.IsCopy c m := by
  obtain ⟨hspec, hreadings⟩ := Holding.mk.inj h
  obtain ⟨w, hw, hread⟩ := List.map_eq_singleton_iff.1 hreadings.symm
  obtain ⟨hversion, htime, hvalue⟩ := Reading.mk.inj hread
  exact ⟨hspec.symm, w, hw, hversion, htime, hvalue⟩

/-- The successor, if there is one, takes over what was handed over. -/
theorem takesOver_of_holdings {before after : Store} (hs : before.Consistent) {r x : ReportRow}
    {version : Option String} (hopen : before.hourly? = some r)
    (hstart : x.startMs = now) (hversion : x.softwareVersion = version)
    (h : after.holdings x.id = before.carriedHoldings maxAge now) :
    TakesOver before after maxAge now version r.id x := by
  refine ⟨hstart, hversion, before.handover maxAge now r.id, before.handover_sublist maxAge now r.id,
    fun m v => mem_handover hs, ?_⟩
  rw [carriedHoldings_eq_map hopen, holdings] at h
  have hpairs := List.forall₂_eq_eq_eq.symm ▸ h.symm
  rw [List.forall₂_map_left_iff, List.forall₂_map_right_iff] at hpairs
  exact hpairs.imp fun c m hcm => isCopy_of_holdingOf hcm

end Store

/-! ### Whole collections -/

namespace Engine

variable {e : Engine} {request : CollectRequest} {exportName : String} {files : Files}
  {report : CustomReport}

/-- The accumulator that is open after a collection takes over what was handed over, and is there only
if something was. -/
theorem collect_takesOver (hs : e.store.Consistent) {r : ReportRow}
    (hopen : e.store.hourly? = some r)
    (h : (e.collect request exportName files).result = .ok report) :
    let after := (e.collect request exportName files).engine.store
    let maxAge := e.settings.retention.carryOverMaxAge
    ((∃ x, after.hourly? = some x) ↔ e.store.handover maxAge request.nowMs r.id ≠ []) ∧
      ∀ x, after.hourly? = some x →
        e.store.TakesOver after maxAge request.nowMs e.softwareVersion r.id x := by
  intro after maxAge
  have hs' : after.Consistent := (collect_series hs h).1
  have hreports := (collect_holdings hs h).2
  change after.openReports .hourly = _ at hreports
  have hempty : e.store.carriedHoldings maxAge request.nowMs = [] ↔
      e.store.handover maxAge request.nowMs r.id = [] := by
    rw [Store.carriedHoldings_eq_map hopen, List.map_eq_nil_iff]
  rw [hs'.openReports_hourly] at hreports
  cases hx : after.hourly? with
  | none =>
    -- nothing is open, so that nothing was handed over
    have hnone : e.store.carriedHoldings maxAge request.nowMs = [] := by
      rw [hx] at hreports
      by_contra hsome
      rw [if_neg hsome] at hreports
      cases hreports
    constructor
    · constructor
      · rintro ⟨x, hx'⟩
        cases hx'
      · intro hsome
        exact absurd (hempty.1 hnone) hsome
    · intro x hx'
      cases hx'
  | some x =>
    have hsome : e.store.carriedHoldings maxAge request.nowMs ≠ [] := by
      intro hnone
      rw [hx, if_pos hnone] at hreports
      cases hreports
    rw [hx, if_neg hsome] at hreports
    obtain ⟨-, hstart, hversion, hholds⟩ := OpenReport.mk.inj (List.singleton_inj.1 hreports)
    constructor
    · exact ⟨fun _ => mt hempty.2 hsome, fun _ => ⟨x, rfl⟩⟩
    · intro y hy
      obtain rfl := Option.some.inj hy
      exact Store.takesOver_of_holdings hs hopen hstart hversion hholds

/-- The sessions that are left after a collection hold what they held before. -/
theorem collect_sessionsKept (hs : e.store.Consistent)
    (h : (e.collect request exportName files).result = .ok report) :
    let after := (e.collect request exportName files).engine.store
    ∀ x ∈ after.reports.rows, x.kind = .session → x ∈ e.store.reports.rows ∧
      ∀ m ∈ after.metricRowsOf x.id, m ∈ e.store.metricRowsOf x.id ∧
        after.valuesOf m.id = e.store.valuesOf m.id := by
  intro after x hx hkind
  have hsettled := collect_settled hs h
  have hx₀ := hsettled.known x hx hkind
  have hnot : x ∉ e.store.dueSessions e.settings request :=
    fun hdue => (hsettled.gone x hdue).report x hx rfl
  refine ⟨hx₀, fun m hm => ?_⟩
  have hvalues := (collect_tidy hs h).metrics m (Store.mem_metricRowsOf.1 hm).1
  have hcontent : (m, after.valuesOf m.id) ∈ after.contentOf x.id :=
    List.mem_filter.2 ⟨List.mem_map_of_mem hm, by simpa using hvalues⟩
  rw [(hsettled.others x hx₀ hkind hnot).2] at hcontent
  obtain ⟨m', hm', heq⟩ := List.mem_map.1 (List.mem_filter.1 hcontent).1
  obtain ⟨rfl, hsame⟩ := Prod.mk.inj heq
  exact ⟨hm', hsame.symm⟩

/-- A metric of the open accumulator is handed over where its newest value up to now is young enough.
The successor is there only if something is handed over, and has a copy of each metric and of this one
value.  Nothing is put into a session. -/
theorem collect_handsOver (he : e.Reachable) {r : ReportRow} (hr : r ∈ e.store.reports.rows)
    (hkind : r.kind = .hourly) (hopen : r.endMs = none)
    (h : (e.collect request exportName files).result = .ok report) :
    let after := (e.collect request exportName files).engine.store
    let maxAge := e.settings.retention.carryOverMaxAge
    ((∃ x ∈ after.reports.rows, x.kind = .hourly ∧ x.endMs = none) ↔
        ∃ m v, e.store.Carries maxAge request.nowMs r.id m v) ∧
      (∀ x ∈ after.reports.rows, x.kind = .hourly → x.endMs = none →
        e.store.TakesOver after maxAge request.nowMs e.softwareVersion r.id x) ∧
      ∀ x ∈ after.reports.rows, x.kind = .session → x ∈ e.store.reports.rows ∧
        ∀ m ∈ after.metricRowsOf x.id, m ∈ e.store.metricRowsOf x.id ∧
          after.valuesOf m.id = e.store.valuesOf m.id := by
  intro after maxAge
  have hs := he.consistent
  have hs' : after.Consistent := (collect_series hs h).1
  have hhourly := hs.hourly?_eq hr hkind hopen
  obtain ⟨hiff, htakes⟩ := collect_takesOver hs hhourly h
  refine ⟨?_, ?_, collect_sessionsKept hs h⟩
  · constructor
    · rintro ⟨x, hx, hxkind, hxopen⟩
      obtain ⟨c, hc⟩ := List.exists_mem_of_ne_nil _ (hiff.1 ⟨x, hs'.hourly?_eq hx hxkind hxopen⟩)
      exact ⟨c.1, c.2, (Store.mem_handover hs).1 hc⟩
    · rintro ⟨m, v, hcarries⟩
      obtain ⟨x, hx⟩ := hiff.2 (List.ne_nil_of_mem ((Store.mem_handover hs).2 hcarries))
      obtain ⟨hx, hxkind, -, hxopen⟩ := Store.of_hourly? hx
      exact ⟨x, hx, hxkind, hxopen⟩
  · intro x hx hxkind hxopen
    exact htakes x (hs'.hourly?_eq hx hxkind hxopen)

/-- Of two values of one time the later one is handed over, just as old as it may be; a value after
now is not, nor is a metric whose value is older. -/
theorem collect_handsOver_power :
    let settings : Settings :=
      { (default : Settings) with
        retention := { (default : RetentionSettings) with carryOverMaxAge := 4 } }
    let e := (⟨settings, some "2.1", .empty⟩ : Engine).run
      [.startSession "evening" 1,
        .add { MetricSample.of "light" 4 (.bool true) with carryOver := true },
        .add { MetricSample.of "power" 5 (.bool true) with carryOver := true },
        .add { MetricSample.of "power" 5 (.bool false) with carryOver := true },
        .add { MetricSample.of "power" 12 (.bool true) with carryOver := true }]
    let after := (e.collect (.atTime 9) "x" default).engine.store
    ∃ r ∈ e.store.reports.rows, (r.kind = .hourly ∧ r.endMs = none ∧
        (e.store.handover 4 9 r.id).map (fun c => (c.1.spec.eventName, c.2.id)) = [("power", 5)]) ∧
      ∃ x ∈ after.reports.rows, x.kind = .hourly ∧ x.endMs = none ∧
        e.store.TakesOver after 4 9 (some "2.1") r.id x := by
  intro settings e after
  have he : e.Reachable := ⟨settings, some "2.1", ⟨settings, some "2.1", .empty⟩, _, rfl, rfl⟩
  have hopen : ∃ r ∈ e.store.reports.rows, r.kind = .hourly ∧ r.endMs = none ∧
      (e.store.handover 4 9 r.id).map (fun c => (c.1.spec.eventName, c.2.id)) = [("power", 5)] := by
    decide +kernel
  have hok : (e.collect (.atTime 9) "x" default).result.isOk = true := by decide +kernel
  have hsettings : e.settings.retention.carryOverMaxAge = 4 := by decide +kernel
  have hversion : e.softwareVersion = some "2.1" := by decide +kernel
  -- nothing more is to be computed
  clear_value e
  obtain ⟨r, hr, hkind, hend, hover⟩ := hopen
  refine ⟨r, hr, ⟨hkind, hend, hover⟩, ?_⟩
  obtain ⟨report, hresult⟩ := exists_of_isOk hok
  obtain ⟨hiff, htakes, -⟩ := collect_handsOver he hr hkind hend hresult
  rw [hsettings] at hiff htakes
  rw [hversion] at htakes
  obtain ⟨c, hc⟩ := List.exists_mem_of_ne_nil (e.store.handover 4 9 r.id) fun hnone => by
    rw [hnone] at hover
    cases hover
  obtain ⟨x, hx, hxkind, hxopen⟩ := hiff.2 ⟨c.1, c.2, (Store.mem_handover he.consistent).1 hc⟩
  exact ⟨x, hx, hxkind, hxopen, htakes x hx hxkind hxopen⟩

end Engine

end Telemetry
