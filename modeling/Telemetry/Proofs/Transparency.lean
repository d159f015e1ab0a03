import Telemetry.Proofs.Carrying
import Telemetry.Proofs.Sampling
import Telemetry.Proofs.Sources

/-!
# A cut that is not seen

A collection cuts the hourly accumulator in two.  Of a metric that is carried over the successor gets
one value, the latest one, with the time that it had.  For the latest value and for the scans of the
time after the cut that one value stands for all those before it: they give what they would give if
the accumulator had gone on.
-/

namespace Telemetry

/-! ### One value for many -/

namespace TimedValue

variable {old : List TimedValue} {v : TimedValue}

/-- The newest of old values stands for them all, as long as it is selected whenever one of them
is. -/
theorem newest?_filter_carried (new : List TimedValue) (h : newest? old = some v) {p : TimedValue → Bool}
    (hp : ∀ x ∈ old, p x = true → p v = true) :
    newest? ((v :: new).filter p) = newest? ((old ++ new).filter p) := by
  by_cases hv : p v = true
  · rw [List.filter_cons_of_pos hv, List.filter_append, newest?_append, newest?_filter h hv]
    rfl
  · have hold : old.filter p = [] := List.filter_eq_nil_iff.2 fun x hx hpx => hv (hp x hx hpx)
    rw [List.filter_cons_of_neg hv, List.filter_append, hold, List.nil_append]

end TimedValue

section Carried

variable {w : Window} {old new : List TimedValue} {v : TimedValue}

/-- The latest value is the same with one value as with all that it stands for. -/
theorem MetricSpec.latestOf_carried (spec : MetricSpec) (hv : TimedValue.newest? old = some v)
    (hold : ∀ x ∈ old, x.timeMs ≤ w.startMs) (hw : w.startMs ≤ w.endMs) :
    spec.latestOf w (v :: new) = spec.latestOf w (old ++ new) := by
  have hnewest := TimedValue.newest?_filter_carried new hv
    (p := fun x => spec.latestAdmits w x.timeMs) fun x hx hadmits => by
      have hxv := TimedValue.le_newest? hv x hx
      have hvw := hold v (TimedValue.newest?_mem hv)
      simp only [latestAdmits, Bool.and_eq_true, Bool.or_eq_true, decide_eq_true_eq] at hadmits ⊢
      exact ⟨hadmits.1.imp_right fun h => h.trans hxv, hvw.trans hw⟩
  rw [latestOf, latestOf, hnewest]

/-- A scan reads the same from one value as from all that it stands for, if no report begins after
values that are new in the window. -/
theorem Window.scannedOf_carried (hv : TimedValue.newest? old = some v)
    (hold : ∀ x ∈ old, x.timeMs ≤ w.startMs) {start start' : Int}
    (hstart : ∀ x ∈ new, w.startMs < x.timeMs → start ≤ x.timeMs)
    (hstart' : ∀ x ∈ new, w.startMs < x.timeMs → start' ≤ x.timeMs) :
    w.scannedOf start (v :: new) = w.scannedOf start' (old ++ new) := by
  have hseed := TimedValue.newest?_filter_carried new hv
    (p := fun x => decide (x.timeMs ≤ w.startMs))
    fun _ _ _ => decide_eq_true (hold v (TimedValue.newest?_mem hv))
  -- nothing that is old comes after the start of the window, and all that does counts for its report
  have hstream : ∀ {start : Int}, (∀ x ∈ new, w.startMs < x.timeMs → start ≤ x.timeMs) →
      ∀ olds : List TimedValue, (∀ x ∈ olds, x.timeMs ≤ w.startMs) → (olds ++ new).filter (fun x =>
        decide (w.startMs < x.timeMs) && decide (x.timeMs ≤ w.endMs) && decide (start ≤ x.timeMs)) =
      new.filter fun x => decide (w.startMs < x.timeMs) && decide (x.timeMs ≤ w.endMs) := by
    intro start hstart olds holds
    have hnone : olds.filter (fun x =>
        decide (w.startMs < x.timeMs) && decide (x.timeMs ≤ w.endMs) && decide (start ≤ x.timeMs)) =
        [] := by
      refine List.filter_eq_nil_iff.2 fun x hx hadmits => ?_
      simp only [Bool.and_eq_true, decide_eq_true_eq] at hadmits
      exact absurd hadmits.1.1 (not_lt_of_ge (holds x hx))
    rw [List.filter_append, hnone, List.nil_append]
    refine List.filter_congr fun x hx => ?_
    rw [Bool.eq_iff_iff]
    simp only [Bool.and_eq_true, decide_eq_true_eq]
    exact ⟨And.left, fun h => ⟨h, hstart x hx h.1⟩⟩
  have hcut := hstream hstart [v] (by simpa using hold v (TimedValue.newest?_mem hv))
  rw [List.singleton_append] at hcut
  rw [scannedOf, scannedOf, hseed, hcut, hstream hstart' old hold]

theorem MetricSpec.scansOf_carried (spec : MetricSpec) (hv : TimedValue.newest? old = some v)
    (hold : ∀ x ∈ old, x.timeMs ≤ w.startMs) {start start' : Int}
    (hstart : ∀ x ∈ new, w.startMs < x.timeMs → start ≤ x.timeMs)
    (hstart' : ∀ x ∈ new, w.startMs < x.timeMs → start' ≤ x.timeMs) :
    spec.scansOf w start (v :: new) = spec.scansOf w start' (old ++ new) := by
  rw [scansOf, scansOf, Window.scannedOf_carried hv hold hstart hstart']

end Carried

/-! ### Metrics in their stores -/

/-- The entries of a metric for the latest value and for the scans are those that a list of values
has, whatever aggregations are asked for. -/
structure EntriesOver (w : Window) (s : Store) (id : Int) (values : List TimedValue) : Prop where
  latest : ∀ spec : MetricSpec,
    Yields (MetricGroup.latestEntries ⟨spec, [id]⟩ w) s (spec.latestOf w values) s
  scans : ∀ (spec : MetricSpec) paging, ∃ s₁,
    Yields (MetricGroup.scanEntries ⟨spec, [id]⟩ paging w) s (spec.scansOf w w.startMs values) s₁

/-- Two metrics, each in its store, have the same entries for the latest value and for the scans,
whatever aggregations are asked for. -/
structure SameEntries (w : Window) (s : Store) (id : Int) (s' : Store) (id' : Int) : Prop where
  latest : ∀ spec, ∃ entries, Yields (MetricGroup.latestEntries ⟨spec, [id]⟩ w) s entries s ∧
    Yields (MetricGroup.latestEntries ⟨spec, [id']⟩ w) s' entries s'
  scans : ∀ spec paging, ∃ entries s₁ s₁',
    Yields (MetricGroup.scanEntries ⟨spec, [id]⟩ paging w) s entries s₁ ∧
    Yields (MetricGroup.scanEntries ⟨spec, [id']⟩ paging w) s' entries s₁'

theorem EntriesOver.same {w : Window} {s s' : Store} {id id' : Int} {values : List TimedValue}
    (h : EntriesOver w s id values) (h' : EntriesOver w s' id' values) :
    SameEntries w s id s' id' where
  latest := fun spec => ⟨_, h.latest spec, h'.latest spec⟩
  scans := by
    intro spec paging
    obtain ⟨s₁, hscans⟩ := h.scans spec paging
    obtain ⟨s₁', hscans'⟩ := h'.scans spec paging
    exact ⟨_, s₁, s₁', hscans, hscans'⟩

namespace Store

variable {s s' : Store}

/-- What is carried over of a metric whose values are all from before the collection. -/
theorem carried?_eq {name : String} {m : MetricRow} (hm : s.hourlyMetric? name = some m)
    (hcarry : m.spec.carryOver = true) {maxAge now : Int}
    (hold : ∀ v ∈ s.timedOf m.id, v.timeMs ≤ now) {v : TimedValue}
    (hv : TimedValue.newest? (s.timedOf m.id) = some v) (hage : now - v.timeMs ≤ maxAge) :
    s.carried? maxAge now name = some v := by
  have hall : (s.timedOf m.id).filter (fun v => decide (v.timeMs ≤ now)) = s.timedOf m.id :=
    List.filter_eq_self.2 fun v hv => decide_eq_true (hold v hv)
  rw [carried?, hm, Option.filter_some, if_pos hcarry, Option.bind_some, carriedOf, hall, hv,
    Option.filter_some, if_pos (decide_eq_true hage)]

section Entries

variable {m : MetricRow} {r : ReportRow} {w : Window} {old new : List TimedValue} {v : TimedValue}

/-- One value has the entries of all that it stands for. -/
theorem entriesOver_of_carried (hs : s.Consistent) (hm : m ∈ s.metrics.rows)
    (hr : r ∈ s.reports.rows) (hmr : m.reportId = r.id) (hw : w.startMs ≤ w.endMs)
    (hv : TimedValue.newest? old = some v) (hold : ∀ x ∈ old, x.timeMs ≤ w.startMs)
    (hstart : ∀ x ∈ new, w.startMs < x.timeMs → r.startMs ≤ x.timeMs)
    (hvalues : s.timedOf m.id = v :: new) : EntriesOver w s m.id (old ++ new) where
  latest := by
    intro spec
    rw [← spec.latestOf_carried hv hold hw, ← hvalues]
    exact MetricGroup.latestEntries_yields hs hm hr hmr spec w
  scans := by
    intro spec paging
    rw [← spec.scansOf_carried hv hold hstart (fun _ _ hx => hx.le), ← hvalues]
    exact MetricGroup.scanEntries_yields hs hm hr hmr spec paging w

/-- A metric that has all values has their entries, unless its report begins after new ones. -/
theorem entriesOver_of_values (hs : s.Consistent) (hm : m ∈ s.metrics.rows)
    (hr : r ∈ s.reports.rows) (hmr : m.reportId = r.id)
    (hv : TimedValue.newest? old = some v) (hold : ∀ x ∈ old, x.timeMs ≤ w.startMs)
    (hstart : ∀ x ∈ new, w.startMs < x.timeMs → r.startMs ≤ x.timeMs)
    (hvalues : s.timedOf m.id = old ++ new) : EntriesOver w s m.id (old ++ new) where
  latest := by
    intro spec
    rw [← hvalues]
    exact MetricGroup.latestEntries_yields hs hm hr hmr spec w
  scans := by
    intro spec paging
    have hnew : ∀ x ∈ new, w.startMs < x.timeMs → w.startMs ≤ x.timeMs := fun _ _ hx => hx.le
    rw [← spec.scansOf_carried hv hold hnew hnew, spec.scansOf_carried hv hold hnew hstart,
      ← hvalues]
    exact MetricGroup.scanEntries_yields hs hm hr hmr spec paging w

end Entries

end Store

/-! ### With and without the cut -/

namespace Engine

variable {e : Engine}

/-- Right after a collection the successor holds one value of a metric that is carried over. -/
theorem collect_carried (hs : e.store.Consistent) {request : CollectRequest} {exportName : String}
    {files : Files} {report : CustomReport}
    (hcollect : (e.collect request exportName files).result = .ok report) {name : String}
    {m : MetricRow} (hm : e.store.hourlyMetric? name = some m) (hcarry : m.spec.carryOver = true)
    (hold : ∀ v ∈ e.store.timedOf m.id, v.timeMs ≤ request.nowMs) {v : TimedValue}
    (hv : TimedValue.newest? (e.store.timedOf m.id) = some v)
    (hage : request.nowMs - v.timeMs ≤ e.settings.retention.carryOverMaxAge) :
    (e.collect request exportName files).engine.store.Consistent ∧
      (∃ r, (e.collect request exportName files).engine.store.hourly? = some r ∧
        r.startMs = request.nowMs) ∧
      (e.collect request exportName files).engine.store.hourlySeries name = [v] := by
  obtain ⟨hs', hstart, hseries⟩ := collect_series hs hcollect
  have hcarried := hseries name
  rw [Store.carried?_eq hm hcarry hold hv hage, Option.toList_some] at hcarried
  obtain ⟨copy, hcopy⟩ := Store.hourlyMetric?_of_series (by rw [hcarried]; simp)
  obtain ⟨r, hopen, -⟩ := Store.of_hourlyMetric? hcopy
  exact ⟨hs', ⟨r, hopen, hstart r hopen⟩, hcarried⟩

/-- The run with a collection cut in has, for the time after it, the entries of all the values from
before the collection together with those that were stored since.  The run without the collection
has the same entries, if it stores the same and its report does not begin after what was stored. -/
theorem carried_transparent (he : e.Reachable) {request : CollectRequest} {exportName : String}
    {files : Files} {report : CustomReport}
    (hcollect : (e.collect request exportName files).result = .ok report) {name : String}
    {m : MetricRow} (hm : e.store.hourlyMetric? name = some m) (hcarry : m.spec.carryOver = true)
    (hold : ∀ v ∈ e.store.timedOf m.id, v.timeMs ≤ request.nowMs) {v : TimedValue}
    (hv : TimedValue.newest? (e.store.timedOf m.id) = some v)
    (hage : request.nowMs - v.timeMs ≤ e.settings.retention.carryOverMaxAge) (calls : List Call)
    (hcalls : ∀ c ∈ calls, c.isCollect = false) {endMs : Int} (hend : request.nowMs ≤ endMs) :
    let cut := .collect request exportName files :: calls
    let stored := storedIn name (e.trace cut)
    ∃ successor copy, (e.run cut).store.hourly? = some successor ∧
      successor.startMs = request.nowMs ∧ (e.run cut).store.hourlyMetric? name = some copy ∧
      EntriesOver ⟨request.nowMs, endMs⟩ (e.run cut).store copy.id
        (e.store.timedOf m.id ++ stored) ∧
      (storedIn name (e.trace calls) = stored →
        (∀ r, e.store.hourly? = some r →
          ∀ x ∈ stored, request.nowMs < x.timeMs → r.startMs ≤ x.timeMs) →
        ∃ m', (e.run calls).store.hourlyMetric? name = some m' ∧
          SameEntries ⟨request.nowMs, endMs⟩ (e.run cut).store copy.id (e.run calls).store m'.id) := by
  intro cut stored
  have hs := he.consistent
  obtain ⟨hs₁, ⟨successor, hopen₁, hstart⟩, hseries₁⟩ :=
    collect_carried hs hcollect hm hcarry hold hv hage
  -- the run with the cut: one value, then what is stored
  have hcut := run_continues calls (e := (e.collect request exportName files).engine) hs₁ hcalls
  have hopen₂ : (e.run cut).store.hourly? = some successor := hcut.hourly successor hopen₁
  have hseries₂ : (e.run cut).store.hourlySeries name = [v] ++ stored := hseries₁ ▸ hcut.series name
  obtain ⟨copy, hcopy⟩ := Store.hourlyMetric?_of_series (by rw [hseries₂]; simp)
  obtain ⟨r, hr, hrmem, hcopymem, hcopyr, -, hcopyseries⟩ := Store.of_hourlyMetric? hcopy
  obtain rfl : successor = r := Option.some.inj (hopen₂.symm.trans hr)
  have hover : EntriesOver ⟨request.nowMs, endMs⟩ (e.run cut).store copy.id
      (e.store.timedOf m.id ++ stored) :=
    Store.entriesOver_of_carried (run_consistent calls hs₁) hcopymem hrmem hcopyr hend hv hold
      (fun x _ hx => hstart.le.trans hx.le) (hcopyseries.symm.trans hseries₂)
  refine ⟨successor, copy, hopen₂, hstart, hcopy, hover, fun hstored hbegun => ?_⟩
  -- the run without the cut: all values, then what is stored
  obtain ⟨h, hopen, -, -, -, -, hseries⟩ := Store.of_hourlyMetric? hm
  have huncut := run_continues calls hs hcalls
  have hvalues := huncut.series name
  rw [hseries, hstored] at hvalues
  have hne : e.store.timedOf m.id ≠ [] := List.ne_nil_of_mem (TimedValue.newest?_mem hv)
  obtain ⟨m', hm'⟩ := Store.hourlyMetric?_of_series (by rw [hvalues]; simp [hne])
  obtain ⟨r', hopen', hr', hm'mem, hmr', -, hseries'⟩ := Store.of_hourlyMetric? hm'
  obtain rfl : h = r' := Option.some.inj ((huncut.hourly h hopen).symm.trans hopen')
  have hover' := Store.entriesOver_of_values (w := ⟨request.nowMs, endMs⟩) (run_consistent calls hs)
    hm'mem hr' hmr' hv hold (hbegun h hopen) (hseries'.symm.trans hvalues)
  exact ⟨m', hm', hover.same hover'⟩

/-- A state that is carried over, as of a time. -/
def powerAt (t : Int) (state : String) : MetricSample :=
  { MetricSample.of "power" t (.string state) with
    aggregations := [.state .latest, .state .timeTotals], carryOver := true }

/-- A state from before a collection and one from after it, with the collection and without. -/
theorem carried_transparent_power :
    let e := (⟨default, none, .empty⟩ : Engine).run [.add (powerAt 5 "on")]
    let calls := [Call.add (powerAt 12 "off")]
    let cut := .collect (.atTime 9) "x" default :: calls
    ∃ copy m', (e.run cut).store.hourlyMetric? "power" = some copy ∧
      (e.run calls).store.hourlyMetric? "power" = some m' ∧
      EntriesOver ⟨9, 20⟩ (e.run cut).store copy.id
        ([⟨5, .string "on"⟩] ++ storedIn "power" (e.trace cut)) ∧
      SameEntries ⟨9, 20⟩ (e.run cut).store copy.id (e.run calls).store m'.id := by
  intro e calls cut
  have he : e.Reachable :=
    ⟨default, none, ⟨default, none, .empty⟩, [.add (powerAt 5 "on")], rfl, rfl⟩
  have hok : (e.collect (.atTime 9) "x" default).result.isOk = true := by decide +kernel
  have hm : e.store.hourlyMetric? "power" = some ⟨1, 1, (powerAt 5 "on").spec⟩ := rfl
  have hvalues : e.store.timedOf 1 = [⟨5, .string "on"⟩] := rfl
  -- the second sample is stored with and without the collection
  have hpower : (powerAt 12 "off").reportKind = .hourly := rfl
  have hadded : (e.add (powerAt 12 "off")).1.toOption.join.isSome = true := by decide +kernel
  have haddedCut : ((e.collect (.atTime 9) "x" default).engine.add
      (powerAt 12 "off")).1.toOption.join.isSome = true := by decide +kernel
  have hstored : storedIn "power" (e.trace calls) = storedIn "power" (e.trace cut) := by
    rw [storedIn_collect]
    exact (storedIn_add hpower hadded).trans (storedIn_add hpower haddedCut).symm
  cases hcollect : (e.collect (.atTime 9) "x" default).result with
  | error err =>
    rw [hcollect] at hok
    cases hok
  | ok report =>
    obtain ⟨successor, copy, -, -, hcopy, hover, huncut⟩ :=
      carried_transparent (v := ⟨5, .string "on"⟩) he hcollect hm rfl
        (by simp [hvalues, CollectRequest.atTime]) (by rw [hvalues]; rfl) (by decide) calls
        (by simp [calls, Call.isCollect]) (show (9 : Int) ≤ 20 by decide)
    obtain ⟨m', hm', hsame⟩ := huncut hstored fun r hr x _ hx => by
      obtain rfl : (⟨1, .hourly, none, 5, none, none⟩ : ReportRow) = r := Option.some.inj hr
      exact le_trans (show (5 : Int) ≤ 9 by decide) hx.le
    rw [hvalues] at hover
    exact ⟨copy, m', hcopy, hm', hover, hsame⟩

end Engine

end Telemetry
