import Telemetry.Proofs.Closings
import Telemetry.Proofs.SheetRelays
import Telemetry.Proofs.Transparency

/-!
# The times of a day

`TimeInState` adds up how long a metric was in each of its states, hour by hour and once more for the
day.  The daily report scans the merged values anew, and the copies of what was carried over with
them.  For a metric that every accumulator hands on to the next one the day comes to the sum of the
hours.
-/

namespace Telemetry

open TimedValue

/-! ### Times of a scan -/

/-- A scan of the group gives a label this time. -/
def MetricGroup.Accumulates (g : MetricGroup) (paging : PagingSettings) (w : Window) (s : Store)
    (label : String) (ms : Int) : Prop :=
  ∃ values s', Yields (g.scanned paging w) s values s' ∧
    ((TimeInState.timesOf w values).get? label).getD 0 = ms

theorem MetricGroup.accumulates_moments {g : MetricGroup} {paging : PagingSettings} {w : Window}
    {s s' : Store} {values : List TimedValue} (h : Yields (g.scanned paging w) s values s')
    (hsorted : values.Pairwise fun a b => a.timeMs ≤ b.timeMs) (label : String) :
    g.Accumulates paging w s label (momentsIn w.startMs w.endMs (· == label) (stateAt values)) := by
  refine ⟨values, s', h, ?_⟩
  rw [← KeyMap.total_key, TimeInState.timesOf_total _ _ hsorted]

/-- A scan gives one time. -/
theorem MetricGroup.Accumulates.unique {g : MetricGroup} {paging : PagingSettings} {w : Window}
    {s : Store} {label : String} {ms ms' : Int} (h : g.Accumulates paging w s label ms)
    (h' : g.Accumulates paging w s label ms') : ms = ms' := by
  obtain ⟨values, s₁, hscanned, rfl⟩ := h
  obtain ⟨values', s₂, hscanned', rfl⟩ := h'
  obtain ⟨⟨⟩, -⟩ := Prod.mk.inj (hscanned.symm.trans hscanned')
  rfl

/-- Over the time of its report, a metric has the times that its values say. -/
theorem MetricGroup.accumulates_own {s : Store} (hs : s.Consistent) {m : MetricRow} {r : ReportRow}
    (hm : m ∈ s.metrics.rows) (hr : r ∈ s.reports.rows) (hmr : m.reportId = r.id)
    (paging : PagingSettings) (endMs : Int) (label : String) :
    (MetricGroup.ofRow m).Accumulates paging ⟨r.startMs, endMs⟩ s label
      (momentsIn r.startMs endMs (· == label) (stateAt (s.timedOf m.id))) := by
  obtain ⟨s', hscanned⟩ := scanned_yields hs hm hr hmr m.spec paging ⟨r.startMs, endMs⟩
  have hsum := accumulates_moments hscanned (Window.scannedOf_sorted _ _ _) label
  have hmoments : momentsIn r.startMs endMs (· == label)
        (stateAt (Window.scannedOf ⟨r.startMs, endMs⟩ r.startMs (s.timedOf m.id))) =
      momentsIn r.startMs endMs (· == label) (stateAt (s.timedOf m.id)) := by
    apply momentsIn_congr
    intro t hstart hend
    rw [stateAt, Window.newestAt_scannedOf (fun _ _ hlt => hlt.le) hstart hend.le, stateAt]
  rw [← hmoments]
  exact hsum

namespace Closing

/-- The moments of the accumulator at which the state of a name is selected. -/
def moments (c : Closing) (name : String) (p : String → Bool) : Int :=
  momentsIn c.accumulator.startMs c.nowMs p (stateAt (c.found.seriesOf c.accumulator.id name))

/-- The hourly report gives a label of a name this time, and none if the accumulator does not hold
the name. -/
def Accumulates (c : Closing) (paging : PagingSettings) (name label : String) (ms : Int) : Prop :=
  match (c.found.closed c.nowMs).metric? c.accumulator.id name with
  | none => ms = 0
  | some m => ∀ s, (c.found.closed c.nowMs).SeenAs s →
      (MetricGroup.ofRow m).Accumulates paging ⟨c.accumulator.startMs, c.nowMs⟩ s label ms

theorem accumulates_moments {c : Closing} (hs : c.found.Consistent)
    (hopen : c.found.hourly? = some c.accumulator) (paging : PagingSettings)
    (name label : String) : c.Accumulates paging name label (c.moments name (· == label)) := by
  have hmetric : (c.found.closed c.nowMs).metric? c.accumulator.id name =
      c.found.metric? c.accumulator.id name := rfl
  unfold Accumulates moments
  rw [hmetric, Store.seriesOf]
  cases hm : c.found.metric? c.accumulator.id name with
  | none => exact momentsIn_none fun _ _ _ => rfl
  | some m =>
    rintro s hseen
    obtain ⟨hmem, hid, -⟩ := Store.of_metric? hm
    obtain ⟨hr, hkind, hname, hend⟩ := Store.of_hourly? hopen
    have hrow : c.row ∈ (c.found.closed c.nowMs).reports.rows := by
      apply Store.mem_closed.2
      refine ⟨c.accumulator, hr, ?_⟩
      rw [ReportRow.closedAt, if_pos (ReportRow.isOpenAs_iff.2 ⟨hkind, hname, hend⟩)]
      rfl
    have hs' := hseen.consistent (hs.closed c.nowMs)
    obtain ⟨kept, rfl⟩ := hseen
    exact MetricGroup.accumulates_own hs' (r := c.row) hmem hrow hid paging c.nowMs label

theorem Accumulates.unique {c : Closing} {paging : PagingSettings} {name label : String}
    {ms ms' : Int} (h : c.Accumulates paging name label ms)
    (h' : c.Accumulates paging name label ms') : ms = ms' := by
  unfold Accumulates at h h'
  split at h
  · next hnone =>
    rw [hnone] at h'
    exact h.trans h'.symm
  · next m hsome =>
    rw [hsome] at h'
    exact (h _ (.refl _)).unique (h' _ (.refl _))

end Closing

/-! ### Times of a day -/

namespace Store

variable {s s' : Store} {xs : List Sheet}

/-- The groups that a daily report is about. -/
def dayGroups (s : Store) : List MetricGroup :=
  mergeMetrics (s.endedHourlies.map fun r => s.metricRowsOf r.id)

/-- The moments of an hourly report that has ended at which the state of a name is selected. -/
def moments (s : Store) (name : String) (p : String → Bool) (r : ReportRow) : Int :=
  momentsIn r.startMs (r.endMs.getD r.startMs) p (stateAt (s.seriesOf r.id name))

/-- What the legs of a name come to is what the reports do. -/
theorem Shows.sum_legs (h : s.Shows xs) (name : String) (p : String → Bool) :
    ((Sheet.legs name xs).map (Leg.moments p)).sum =
      (s.endedHourlies.map (s.moments name p)).sum := by
  have hleg : ∀ r, ((s.sheetOf r).leg? name).elim 0 (Leg.moments p) = s.moments name p r := by
    intro r
    rw [Sheet.leg?, track?_sheetOf, moments, seriesOf]
    cases s.metric? r.id name with
    | none => exact (momentsIn_none fun _ _ _ => rfl).symm
    | some m =>
      apply momentsIn_congr
      intro t _ _
      rw [stateAt, stateAt]
      exact congrArg (Option.bind · (·.value.stateLabel?)) (newestAt_byTime (s.timedOf m.id) t)
  have hsum : ∀ rows : List ReportRow,
      (((rows.map s.sheetOf).filterMap (Sheet.leg? name)).map (Leg.moments p)).sum =
        (rows.map (s.moments name p)).sum := by
    intro rows
    induction rows with
    | nil => rfl
    | cons r rows ih =>
      rw [List.map_cons, List.filterMap_cons, List.map_cons, List.sum_cons, ← ih, ← hleg r]
      cases (s.sheetOf r).leg? name with
      | none => exact (Int.zero_add _).symm
      | some l => exact List.sum_cons
  rw [Sheet.legs, h.endedHourlies_eq, hsum]
  exact ((List.mergeSort_perm _ _).map _).sum_eq.symm

/-- A group of the day has the times that the reports say. -/
theorem Shows.dayGroup_accumulates {spec : MetricSpec} {now : Int} (h : s.Shows xs)
    (hover : Sheet.HandedOver spec now xs) (hseen : s.SeenAs s') {g : MetricGroup}
    (hg : g ∈ s.dayGroups) (hname : g.spec.eventName = spec.eventName) (paging : PagingSettings)
    (label : String) :
    g.Accumulates paging (Collecting.span now s.endedHourlies) s' label
      (s.endedHourlies.map (s.moments spec.eventName (· == label))).sum := by
  obtain ⟨hsourced, hsource⟩ := (h.sourced_named hg).seenAs hseen
  obtain ⟨s'', hscanned⟩ := MetricGroup.scanned_sourced hsourced (hseen.consistent h.consistent)
    paging (Collecting.span now s.endedHourlies)
  have hsum := MetricGroup.accumulates_moments hscanned (Window.readOf_sorted _ _) label
  rw [hsource, h.sourceOf_named, hname] at hsum
  have hspan := Collecting.daySpan_eq (p := ⟨s, default, []⟩) h now
  rw [← h.sum_legs, ← hover.momentsIn_daySpan, hspan]
  exact hsum

/-- Where the name is held, there is a group of it. -/
theorem Shows.exists_dayGroup {spec : MetricSpec} {now : Int} (h : s.Shows xs)
    (hover : Sheet.HandedOver spec now xs) {r : ReportRow} (hr : r ∈ s.endedHourlies)
    (hfilled : s.seriesOf r.id spec.eventName ≠ []) : ∃ g ∈ s.dayGroups, g.spec = spec := by
  have htrack : ∀ r ∈ s.endedHourlies, ∀ m ∈ s.metricRowsOf r.id,
      m.spec.eventName = spec.eventName → ∃ x ∈ Sheet.endedHourlies xs,
        x.track? spec.eventName = some (s.trackOf m) := by
    intro r hr m hm hname
    obtain ⟨hm, hid⟩ := mem_metricRowsOf.1 hm
    refine ⟨s.sheetOf r, ?_, ?_⟩
    · rw [h.endedHourlies_eq]
      exact List.mem_map_of_mem (List.mem_filter.2 (mem_endedHourlies.1 hr))
    · rw [track?_sheetOf, ← hid, ← hname, h.consistent.metric?_eq hm, Option.map_some]
  obtain ⟨m, hmetric, hm, hid, -⟩ := s.metric?_of_seriesOf hfilled
  have hrow := mem_metricRowsOf.2 ⟨hm, hid⟩
  have hname := (of_metric? hmetric).2.2
  rcases hover.held with hlacks | ⟨_, _, hheld, -⟩
  · obtain ⟨x, hx, hfound⟩ := htrack r hr m hrow hname
    obtain ⟨hx, hended⟩ := Sheet.mem_endedHourlies.1 hx
    rw [hlacks x hx (ReportRow.isEnded_iff.1 hended).1] at hfound
    cases hfound
  · apply exists_mem_mergeMetrics (m := m) _ _ hname
    · intro n hn hnname
      obtain ⟨rows, hrows, hn⟩ := List.mem_flatten.1 hn
      obtain ⟨r', hr', rfl⟩ := List.mem_map.1 hrows
      obtain ⟨x, hx, hfound⟩ := htrack r' hr' n hn hnname
      exact (hheld.tracks x hx _ hfound).1
    · exact List.mem_flatten.2 ⟨_, List.mem_map_of_mem hr, hrow⟩

end Store

/-! ### Runs that hand a metric on -/

namespace Sheet

variable {spec : MetricSpec} {now now' : Int} {xs : List Sheet}

theorem Handed.mono (h : Handed spec now xs) (hnow : now ≤ now') : Handed spec now' xs := by
  refine ⟨h.past.of_subset hnow fun y hy => ⟨y, hy, rfl⟩, h.held.imp_right ?_⟩
  rintro ⟨x, values, hheld⟩
  exact ⟨x, values, { hheld with begun := hheld.begun.imp_left (·.trans hnow) }⟩

end Sheet

/-- The time for which a call collects. -/
def Call.nowMs? : Call → Option Int
  | .collect request _ _ => some request.nowMs
  | _ => none

namespace Engine

/-- Something holds before each call of a run. -/
def Along (p : Engine → Call → Prop) : Engine → List Call → Prop
  | _, [] => True
  | e, c :: calls => p e c ∧ Along p (e.call c).2 calls

/-- The call adds a sample to the accumulator, collects or opens the store again.  All samples of the
metric say the same of it, name a state and are not from before the accumulator; and when the
accumulator ends, none of its values is from later on, and the newest one is young enough to be
carried over. -/
def HandsOn (spec : MetricSpec) (e : Engine) : Call → Prop
  | .add sample => sample.reportKind = .hourly ∧ (sample.eventName = spec.eventName →
      sample.spec = spec ∧ sample.value.stateLabel?.isSome ∧
        ∀ r ∈ e.store.hourly?, r.startMs ≤ sample.timeMs)
  | .collect request exportName files =>
    (e.collect request exportName files).result.isOk →
      (∀ v ∈ e.store.hourlySeries spec.eventName, v.timeMs ≤ request.nowMs) ∧
        ∀ v ∈ newest? (e.store.hourlySeries spec.eventName),
          request.nowMs - v.timeMs ≤ e.settings.retention.carryOverMaxAge
  | .reopen .. => True
  | _ => False

instance (spec : MetricSpec) (e : Engine) : DecidablePred (HandsOn spec e)
  | .add _ => inferInstanceAs (Decidable (_ ∧ (_ → _ ∧ _)))
  | .collect .. => inferInstanceAs (Decidable (_ → _ ∧ _))
  | .reopen .. => isTrue trivial
  | .startSession .. | .startSeeded .. | .endSession .. => isFalse id

instance decidableAlong (p : Engine → Call → Prop) [∀ e, DecidablePred (p e)] :
    ∀ (e : Engine) (calls : List Call), Decidable (Along p e calls)
  | _, [] => isTrue trivial
  | e, c :: calls =>
    have := decidableAlong p (e.call c).2 calls
    inferInstanceAs (Decidable (p e c ∧ _))

variable {p : Engine → Call → Prop} {e : Engine} {xs : List Sheet} {spec : MetricSpec}
  {now : Int} {request : CollectRequest} {exportName : String} {files : Files}

theorem along_append (before after : List Call) :
    ∀ {e : Engine}, Along p e (before ++ after) ↔ Along p e before ∧ Along p (e.run before) after := by
  induction before with
  | nil => exact ⟨fun h => ⟨trivial, h⟩, And.right⟩
  | cons c before ih =>
    intro e
    rw [List.cons_append, Along, Along, ih, and_assoc]
    rfl

/-- The hourly stage hands the metric on. -/
theorem HandsOn.handedOver (hc : e.HandsOn spec (.collect request exportName files))
    (hok : (e.collect request exportName files).result.isOk) (hshows : e.store.Shows xs)
    (h : Sheet.Handed spec now xs) (hcarry : spec.carryOver = true) (hnow : now ≤ request.nowMs) :
    Sheet.HandedOver spec request.nowMs
      (Sheet.hourlyIn e.settings e.softwareVersion request exportName xs files).2.1 := by
  apply h.hourlyIn hshows hcarry hnow
  intro x t hx ht
  rw [hshows.hourly?_eq] at hx
  obtain ⟨r, hr, rfl⟩ := Option.map_eq_some_iff.1 hx
  rw [Store.track?_sheetOf] at ht
  obtain ⟨m, hm, rfl⟩ := Option.map_eq_some_iff.1 ht
  have hseries : e.store.hourlySeries spec.eventName = e.store.timedOf m.id := by
    rw [Store.hourlySeries, hr, Option.elim_some, Store.seriesOf, hm, Option.elim_some]
  obtain ⟨hvalues, hyoung⟩ := hc hok
  rw [hseries] at hvalues hyoung
  constructor
  · intro v hv
    exact hvalues v ((sortedBy_perm _).mem_iff.1 hv)
  · intro v hv
    exact hyoung v ((newest?_byTime _).symm.trans hv)

/-- A call leaves the metric handed on. -/
theorem call_handed (hshows : e.store.Shows xs) (h : Sheet.Handed spec now xs)
    (hcarry : spec.carryOver = true) {c : Call} (hc : e.HandsOn spec c)
    (hnow : ∀ t ∈ c.nowMs?, now ≤ t) :
    ∃ ys, (e.call c).2.store.Shows ys ∧ Sheet.Handed spec (c.nowMs?.getD now) ys := by
  have hle : now ≤ c.nowMs?.getD now := by
    cases ht : c.nowMs? with
    | none => exact le_rfl
    | some t => exact hnow t ht
  rcases call_shows hshows c with ⟨-, hshows', hcollected⟩ | ⟨-, -, hshows'⟩
  swap
  · exact ⟨xs, hshows', h.mono hle⟩
  refine ⟨_, hshows', ?_⟩
  cases c with
  | startSession | startSeeded | endSession => exact hc.elim
  | reopen => exact h
  | add sample =>
    obtain ⟨hkind, hsample⟩ := hc
    rw [Sheet.callIn]
    split
    · next hvalid =>
      have hvalid : sample.validate = .ok () := by
        cases hresult : sample.validate with
        | error err =>
          rw [hresult] at hvalid
          cases hvalid
        | ok u => rfl
      apply h.takeIn hvalid hkind
      intro hname
      obtain ⟨hspec, hlabel, hstart⟩ := hsample hname
      refine ⟨hspec, hlabel, ?_⟩
      intro x hx
      rw [hshows.hourly?_eq] at hx
      obtain ⟨r, hr, rfl⟩ := Option.map_eq_some_iff.1 hx
      exact hstart r hr
    · exact h
  | collect request exportName files =>
    rw [collected, Sheet.collectedIn] at hcollected
    rw [Sheet.callIn]
    unfold Sheet.collectIn at hcollected ⊢
    rcases hstage : Sheet.hourlyIn e.settings e.softwareVersion request exportName xs files with
      ⟨_ | ⟨hourly, path⟩, ys, files'⟩
    · exact h.mono hle
    · rw [hstage] at hcollected
      have hok : (e.collect request exportName files).result.isOk := by
        rw [(Prod.mk.inj (List.cons.inj hcollected).1).1]
        rfl
      have hover := hc.handedOver hok hshows h hcarry hle
      rw [hstage] at hover
      exact hover.othersIn e.settings request hourly path

/-- A run leaves the metric handed on. -/
theorem run_handed (hcarry : spec.carryOver = true) {bound : Int} (calls : List Call) :
    ∀ {e : Engine} {xs : List Sheet} {now : Int}, e.store.Shows xs → Sheet.Handed spec now xs →
      Along (HandsOn spec) e calls →
      (now :: (calls.filterMap Call.nowMs? ++ [bound])).Pairwise (· ≤ ·) →
      ∃ ys, (e.run calls).store.Shows ys ∧ Sheet.Handed spec bound ys := by
  induction calls with
  | nil =>
    intro e xs now hshows h _ htimes
    exact ⟨xs, hshows, h.mono ((List.pairwise_cons.1 htimes).1 bound (List.mem_singleton_self _))⟩
  | cons c calls ih =>
    intro e xs now hshows h halong htimes
    obtain ⟨hfirst, hrest⟩ := List.pairwise_cons.1 htimes
    rw [List.filterMap_cons] at hfirst hrest
    cases ht : c.nowMs? with
    | none =>
      rw [ht] at hfirst hrest
      obtain ⟨ys, hshows', h'⟩ := call_handed hshows h hcarry halong.1 (by simp [ht])
      rw [ht] at h'
      exact ih hshows' h' halong.2 (List.pairwise_cons.2 ⟨hfirst, hrest⟩)
    | some t =>
      rw [ht] at hfirst hrest
      have hle : now ≤ t := hfirst t List.mem_cons_self
      obtain ⟨ys, hshows', h'⟩ := call_handed hshows h hcarry halong.1 (by simp [ht, hle])
      rw [ht] at h'
      exact ih hshows' h' halong.2 hrest

theorem of_mem_closings {call : Call} {c : Closing} (hc : c ∈ e.closings call) :
    c.found = e.store ∧ e.store.hourly? = some c.accumulator := by
  cases call with
  | add | startSession | startSeeded | endSession | reopen => cases hc
  | collect request exportName files =>
    rw [closings] at hc
    split at hc
    · obtain ⟨r, hopen, rfl⟩ := List.mem_map.1 hc
      exact ⟨rfl, Option.mem_toList.1 hopen⟩
    · cases hc

theorem accumulates_of_mem_closingsIn {calls : List Call} (hs : e.store.Consistent) {c : Closing}
    (hc : c ∈ e.closingsIn calls) (paging : PagingSettings) (name label : String) :
    c.Accumulates paging name label (c.moments name (· == label)) := by
  obtain ⟨before, call, after, -, hcall⟩ := mem_gather _ hc
  obtain ⟨hfound, hopen⟩ := of_mem_closings hcall
  rw [← hfound] at hopen
  exact Closing.accumulates_moments (hfound ▸ run_consistent before hs) hopen paging name label

/-- At the last collection of a run the hourly stage hands the metric on. -/
theorem run_handedOver (hcarry : spec.carryOver = true) {settings : Settings}
    {version : Option String} (calls : List Call)
    (hhands : Along (HandsOn spec) ⟨settings, version, .empty⟩
      (calls ++ [.collect request exportName files]))
    (htimes : (calls.filterMap Call.nowMs? ++ [request.nowMs]).Pairwise (· ≤ ·))
    (hok : ((run ⟨settings, version, .empty⟩ calls).collect request exportName
      files).result.isOk) :
    let e := run ⟨settings, version, .empty⟩ calls
    ∃ xs, e.store.Shows xs ∧ Sheet.HandedOver spec request.nowMs
      (Sheet.hourlyIn e.settings e.softwareVersion request exportName xs files).2.1 := by
  intro e
  obtain ⟨hbefore, hlast, -⟩ := (along_append _ _).1 hhands
  have hfirst : ∃ first, (first :: (calls.filterMap Call.nowMs? ++ [request.nowMs])).Pairwise
      (· ≤ ·) := by
    cases hlist : calls.filterMap Call.nowMs? ++ [request.nowMs] with
    | nil => exact absurd hlist (List.append_ne_nil_of_right_ne_nil _ (List.cons_ne_nil _ _))
    | cons t rest =>
      rw [hlist] at htimes
      refine ⟨t, List.pairwise_cons.2 ⟨?_, htimes⟩⟩
      exact List.forall_mem_cons.2 ⟨le_rfl, (List.pairwise_cons.1 htimes).1⟩
  obtain ⟨first, hfirst⟩ := hfirst
  obtain ⟨xs, hshows, hhanded⟩ :=
    run_handed hcarry calls Store.empty_shows (Sheet.handed_nil spec first) hbefore hfirst
  exact ⟨xs, hshows, hlast.handedOver hok hshows hhanded hcarry le_rfl⟩

/-- The time of each state in a daily report is the sum of its times in exactly the hourly reports
that are merged, for a metric that is always handed on. -/
theorem run_dayTimes {settings : Settings} {version : Option String} {e₀ : Engine}
    (hopen : openEmpty settings version = .ok e₀) (hcarry : spec.carryOver = true)
    (calls : List Call)
    (hhands : Along (HandsOn spec) e₀ (calls ++ [.collect request exportName files]))
    (htimes : (calls.filterMap Call.nowMs? ++ [request.nowMs]).Pairwise (· ≤ ·))
    {report : CustomReport}
    (h : ((e₀.run calls).collect request exportName files).result = .ok report)
    {day : MetricReport} (hday : report.daily = some day) :
    let found := (e₀.run calls).store.closed request.nowMs
    let closings := found.closingsOf (e₀.closingsIn (calls ++ [.collect request exportName files]))
    (closings.map (·.row)).Perm found.endedHourlies ∧
      ∃ s summary, Collecting.SummarizesDay (e₀.run calls).settings request.nowMs s summary ∧
        (request.derivation = none → day = summary) ∧
        s.endedHourlies = found.endedHourlies ∧
        ((∃ c ∈ closings, c.found.seriesOf c.accumulator.id spec.eventName ≠ []) →
          ∃ g ∈ s.dayGroups, g.spec = spec) ∧
        ∀ g ∈ s.dayGroups, g.spec.eventName = spec.eventName → ∀ paging label,
          ∃ ms : Closing → Int,
            (∀ c ∈ closings, c.Accumulates paging spec.eventName label (ms c)) ∧
            ∀ s', s.SeenAs s' → g.Accumulates paging
              (Collecting.span request.nowMs s.endedHourlies) s' label (closings.map ms).sum := by
  intro found closings
  obtain rfl := of_openEmpty hopen
  have hs := run_consistent calls (e := ⟨settings, version, .empty⟩) Store.empty_consistent
  have hok : ((run ⟨settings, version, .empty⟩ calls).collect request exportName
      files).result.isOk := by
    rw [h]
    rfl
  obtain ⟨xs, hshows, hover⟩ := run_handedOver hcarry calls hhands htimes hok
  obtain ⟨path, p, hhourly, -, summary, hsummarizes, hplain⟩ := collect_day hs h hday
  have hshows' := Collecting.hourly_shows hshows hhourly
  obtain ⟨hended, hkeeps⟩ := Collecting.hourly_keepsEnded hs hhourly
  have hremembers := run_closed_remembers calls h
  have hperm := hremembers.closingsOf_perm ((Store.closed_steps _ request.nowMs).consistent hs)
  -- what was closed is still there, as it was
  have hrow : ∀ c ∈ closings, c.row ∈ p.store.endedHourlies := fun c hc =>
    hended ▸ (Store.mem_closingsOf.1 hc).2
  have hseries : ∀ c ∈ closings, p.store.seriesOf c.row.id spec.eventName =
      c.found.seriesOf c.accumulator.id spec.eventName := fun c hc =>
    (hkeeps.series c.row (hrow c hc) _).trans (hremembers.seriesOf_eq hc _)
  refine ⟨hperm, p.store, summary, hsummarizes, hplain, hended, ?_, ?_⟩
  · rintro ⟨c, hc, hfilled⟩
    apply hshows'.exists_dayGroup hover (hrow c hc)
    rwa [hseries c hc]
  · intro g hg hname paging label
    refine ⟨fun c => c.moments spec.eventName (· == label), ?_, ?_⟩
    · intro c hc
      exact accumulates_of_mem_closingsIn Store.empty_consistent (Store.mem_closingsOf.1 hc).1
        paging _ label
    · intro s' hseen
      have hclosing : ∀ c ∈ closings, p.store.moments spec.eventName (· == label) c.row =
          c.moments spec.eventName (· == label) := by
        intro c hc
        rw [Store.moments, hseries c hc]
        rfl
      have hsum : (p.store.endedHourlies.map
            (p.store.moments spec.eventName (· == label))).sum =
          (closings.map fun c => c.moments spec.eventName (· == label)).sum := by
        rw [hended, ← (hperm.map _).sum_eq, List.map_map]
        exact congrArg List.sum (List.map_congr_left hclosing)
      rw [← hsum]
      exact hshows'.dayGroup_accumulates hover hseen hg hname paging label

/-- A state that holds when a first hour is over, and then for a second one. -/
def twoHours : List Call := [.add (powerAt 5 "on"), .collect (.atTime 10) "x" default]

def twoClosings : List Closing :=
  ((shortDays.run twoHours).store.closed 20).closingsOf
    (shortDays.closingsIn (twoHours ++ [.collect (.atTime 20) "y" default]))

theorem twoClosings_moments :
    twoClosings.map (fun c => ((c.found.seriesOf c.accumulator.id "power").length,
      c.moments "power" (· == "on"))) = [(1, 5), (1, 10)] := by
  decide_cbv

/-- The state has five and ten milliseconds in the two hours, and all of them in the day. -/
theorem run_dayTimes_power :
    twoClosings.map (·.row.id) = [1, 2] ∧
      ∃ s : Store, ∃ g ∈ s.dayGroups, g.spec = (powerAt 5 "on").spec ∧ ∀ paging,
        (∃ hours, twoClosings.map hours = [5, 10] ∧
          ∀ c ∈ twoClosings, c.Accumulates paging "power" "on" (hours c)) ∧
        g.Accumulates paging (Collecting.span 20 s.endedHourlies) s "on" 15 := by
  have hopen : openEmpty shortDays.settings none = .ok shortDays := rfl
  have hhands : Along (HandsOn (powerAt 5 "on").spec) shortDays
      (twoHours ++ [.collect (.atTime 20) "y" default]) := by
    decide_cbv
  have hday : (((shortDays.run twoHours).collect (.atTime 20) "y" default).result.toOption.bind
      (·.daily)).isSome := by
    decide_cbv
  obtain ⟨day, hday⟩ := Option.isSome_iff_exists.1 hday
  obtain ⟨report, hok, hday⟩ := Option.bind_eq_some_iff.1 hday
  have hresult : ((shortDays.run twoHours).collect (.atTime 20) "y" default).result =
      .ok report := by
    cases hresult : ((shortDays.run twoHours).collect (.atTime 20) "y" default).result with
    | error err =>
      rw [hresult] at hok
      cases hok
    | ok report' =>
      rw [hresult] at hok
      exact congrArg Except.ok (Option.some.inj hok)
  have hids : twoClosings.map (·.row.id) = [1, 2] := by decide_cbv
  obtain ⟨-, s, -, -, -, -, hgroup, htimes⟩ :=
    run_dayTimes hopen rfl twoHours hhands (by decide) hresult hday
  have hmoments : twoClosings.map (·.moments "power" (· == "on")) = [5, 10] := by
    have hseconds := congrArg (List.map Prod.snd) twoClosings_moments
    rwa [List.map_map] at hseconds
  have hheld : ∃ c ∈ twoClosings, c.found.seriesOf c.accumulator.id "power" ≠ [] := by
    have hfirst : ((1, 5) : Nat × Int) ∈ twoClosings.map fun c =>
        ((c.found.seriesOf c.accumulator.id "power").length, c.moments "power" (· == "on")) := by
      rw [twoClosings_moments]
      exact List.mem_cons_self
    obtain ⟨c, hc, heq⟩ := List.mem_map.1 hfirst
    refine ⟨c, hc, ?_⟩
    intro hempty
    rw [hempty] at heq
    cases heq
  obtain ⟨g, hg, hspec⟩ := hgroup hheld
  refine ⟨hids, s, g, hg, hspec, ?_⟩
  intro paging
  obtain ⟨ms, hms, hsum⟩ := htimes g hg (by rw [hspec]) paging "on"
  have hsame : twoClosings.map ms = [5, 10] := by
    rw [← hmoments]
    apply List.map_congr_left
    intro c hc
    exact (hms c hc).unique (accumulates_of_mem_closingsIn Store.empty_consistent
      (Store.mem_closingsOf.1 hc).1 paging "power" "on")
  refine ⟨⟨ms, hsame, hms⟩, ?_⟩
  have htotal := hsum s (.refl s)
  change g.Accumulates paging _ s "on" (twoClosings.map ms).sum at htotal
  rw [hsame] at htotal
  exact htotal

end Engine

end Telemetry
