import Telemetry.Proofs.Queries

/-!
# Entries from lists of values

The entries of a metric are a function of its values in the order of their ids, of the window, and,
for scans, of the start of its report.  The functions are given here.  What a scan reads it reads
page by page; the pages come to the whole series, and reading them never fails.
-/

namespace Telemetry

/-! ### On lists -/

namespace MetricSpec

/-- Does the latest value of a window count, if it is of this time? -/
def latestAdmits (spec : MetricSpec) (w : Window) (t : Int) : Bool :=
  (spec.carryOver || decide (w.startMs ≤ t)) && decide (t ≤ w.endMs)

def latestOf (spec : MetricSpec) (w : Window) (values : List TimedValue) : List (String × Json) :=
  if spec.aggregations.any Aggregation.isLatest then
    (TimedValue.newest? (values.filter fun v => spec.latestAdmits w v.timeMs)).toList.map fun v =>
      (s!"{spec.eventName}.latest", v.value.toMetricJson)
  else []

end MetricSpec

/-- What a scan reads: the latest value up to the start of the window, then those after it that are
not from before the report. -/
def Window.scannedOf (w : Window) (reportStart : Int) (values : List TimedValue) :
    List TimedValue :=
  (TimedValue.newest? (values.filter fun v => decide (v.timeMs ≤ w.startMs))).toList ++
    TimedValue.byTime (values.filter fun v =>
      decide (w.startMs < v.timeMs) && decide (v.timeMs ≤ w.endMs) && decide (reportStart ≤ v.timeMs))

/-- The entries of the scans. -/
def MetricSpec.scansOf (spec : MetricSpec) (w : Window) (reportStart : Int)
    (values : List TimedValue) : List (String × Json) :=
  if spec.aggregations.any Aggregation.isStreaming then
    (Scanner.feed w (Scanner.forMetric spec.aggregations) (w.scannedOf reportStart values)).flatMap
      (·.entries spec.eventName w)
  else []

/-! ### From the store -/

section Kept

variable (s : Store) (kept : List KeptQuery)

theorem ValueCursor.fill_kept (fuel : Nat) :
    ∀ c : ValueCursor, fill { s with kept } fuel c = fill s fuel c := by
  induction fuel with
  | zero => exact fun _ => rfl
  | succ fuel ih =>
    intro c
    have hpage : c.fetchPage { s with kept } = c.fetchPage s := rfl
    simp only [fill, hpage, ih]

theorem ValueCursor.drain_kept (fuel : Nat) :
    ∀ c : ValueCursor, c.drain { s with kept } fuel = c.drain s fuel := by
  induction fuel with
  | zero => exact fun _ => rfl
  | succ fuel ih =>
    intro c
    have hnext : c.next { s with kept } = c.next s := by
      simp only [next, fill_kept]
    simp only [drain, hnext, ih]

/-- Which queries are kept makes no difference to what is read by pages. -/
theorem Store.readSeries_kept (q : ValueQuery) (paging : PagingSettings) :
    ({ s with kept } : Store).readSeries q paging = s.readSeries q paging :=
  ValueCursor.drain_kept s kept _ _

end Kept

namespace Transaction

variable {s : Store}

theorem useKept_yields (hs : s.Undamaged) (q : KeptQuery) (tables : List TableName)
    (preparing reading : StorageStep) :
    Yields (useKept q tables preparing reading) s () (s.keep q) := by
  rw [Store.Undamaged] at hs
  exact yields_useKept.2 ⟨by simp [hs, Damage.none], rfl⟩

/-- A series is what is read by pages, where the tables are there. -/
theorem exists_yields_series {q : ValueQuery} (hq : q.metricIds ≠ []) {paging : PagingSettings}
    {values : List (Except Failure ValueRow)} :
    (∃ s', Yields (series q paging) s values s') ↔
      [TableName.values, .metrics, .reports].any s.damage.dropped.contains = false ∧
        s.series q paging = values := by
  have hids : q.metricIds.isEmpty = false := by simpa using hq
  have hkept : (s.keep (q.page false)).readSeries q paging = s.readSeries q paging :=
    s.readSeries_kept _ q paging
  unfold series
  rw [hids]
  simp only [Bool.false_eq_true, if_false]
  constructor
  · rintro ⟨s', h⟩
    obtain ⟨u, s₁, hused, h⟩ := yields_bind.1 h
    obtain ⟨htables, rfl⟩ := yields_useKept.1 hused
    obtain ⟨s₁, s₂, hget, h⟩ := yields_bind.1 h
    obtain ⟨rfl, rfl⟩ := yields_get.1 hget
    rw [hkept] at h
    refine ⟨htables, ?_⟩
    split at h
    · obtain ⟨u, s₁, -, h⟩ := yields_bind.1 h
      exact (yields_pure.1 h).1
    · exact (yields_pure.1 h).1
  · rintro ⟨htables, rfl⟩
    by_cases hpages : 1 < (s.readSeries q paging).2.pages
    · refine ⟨(s.keep (q.page false)).keep (q.page true), ?_⟩
      refine yields_bind.2 ⟨(), _, yields_useKept.2 ⟨htables, rfl⟩, ?_⟩
      refine yields_bind.2 ⟨_, _, yields_get.2 ⟨rfl, rfl⟩, ?_⟩
      rw [hkept, if_pos hpages]
      exact yields_bind.2 ⟨⟨⟩, _, yields_set.2 rfl, yields_pure.2 ⟨rfl, rfl⟩⟩
    · refine ⟨s.keep (q.page false), ?_⟩
      refine yields_bind.2 ⟨(), _, yields_useKept.2 ⟨htables, rfl⟩, ?_⟩
      refine yields_bind.2 ⟨_, _, yields_get.2 ⟨rfl, rfl⟩, ?_⟩
      rw [hkept, if_neg hpages]
      exact yields_pure.2 ⟨rfl, rfl⟩

theorem series_yields (hs : s.Consistent) {q : ValueQuery} (hq : q.metricIds ≠ [])
    (paging : PagingSettings) :
    ∃ s', Yields (series q paging) s ((s.ordered q).map .ok) s' := by
  have hundamaged : s.damage = .none := hs.undamaged
  exact (exists_yields_series hq).2 ⟨by simp [hundamaged, Damage.none], Store.series_eq hs q paging⟩

end Transaction

namespace MetricGroup

theorem mapM_id_ok (values : List ValueRow) :
    (values.map (Except.ok : ValueRow → Except Failure ValueRow)).mapM id = .ok values := by
  induction values with
  | nil => rfl
  | cons v values ih =>
    rw [List.map_cons, List.mapM_cons, ih]
    rfl

end MetricGroup

end Telemetry
