import Mathlib.Data.List.Forall2
import Telemetry.Proofs.Looks
import Telemetry.Proofs.Sources

/-!
# Reports and exports from sources

What a report on several metrics says is a function of what is known of each metric and of its
sources, and so is the text of its export.  Where an export goes is a matter of files alone.  Neither
summarising nor writing the text fails; only the files can refuse an export.
-/

namespace Telemetry

/-! ### On lists -/

/-- What is known of a metric, and where its values are from. -/
structure Gathered where
  spec : MetricSpec
  sources : List Source

/-- The points of an export up to a time. -/
def Gathered.points (c : Gathered) (endMs : Int) : List DataPoint :=
  (TimedValue.byTime (c.sources.flatMap fun source =>
    source.values.filter fun v => decide (v.timeMs ≤ endMs))).map fun v => ⟨v.timeMs, v.value.toJson⟩

/-- A report with the entries of several metrics. -/
def MetricReport.withGathered (w : Window) (gathered : List Gathered) (r : MetricReport) :
    MetricReport :=
  gathered.foldl (fun r c => r.insertAll c.spec.internal (c.spec.entriesOf w c.sources)) r

namespace Collecting

/-- An export with the series of several metrics. -/
def writtenSeries (endMs : Int) (gathered : List Gathered) (w : ExportWriter) : ExportWriter :=
  gathered.foldl
    (fun w c => (w.writeRollup (rollupInfo c.spec) ((c.points endMs).map .ok)).1) w

/-- The text of an export. -/
def textOf (settings : Settings) (report : MetricReport) (gathered : List Gathered)
    (derived : List DerivedMetric) : String :=
  (writeDerived (writtenSeries report.endMs gathered
    (ExportWriter.start (exportHeader settings report))) derived).finish

end Collecting

/-- Writes a text to a file of a folder; an export that cannot be completed is given up. -/
def ExportFile.saveIn (folder : Path) (name text : String) (files : Files) :
    Except Failure Path × Files :=
  match createIn folder name files with
  | (.error e, fs) => (.error e, fs)
  | (.ok file, fs) =>
    match file.complete text fs with
    | .ok fs => (.ok file.path, fs)
    | .error e => (.error e, file.abandon fs)

/-! ### From the store -/

/-- The group has its values from these sources. -/
structure Store.Gathers (s : Store) (g : MetricGroup) (c : Gathered) : Prop where
  spec : c.spec = g.spec
  sources : ∃ owned, s.Sourced g.metricIds owned ∧ c.sources = owned.map s.sourceOf

theorem Store.Gathers.seenAs {s s' : Store} {g : MetricGroup} {c : Gathered} (h : s.Gathers g c)
    (hseen : s.SeenAs s') : s'.Gathers g c := by
  obtain ⟨owned, hsourced, hsources⟩ := h.sources
  obtain ⟨hsourced', heq⟩ := hsourced.seenAs hseen
  exact ⟨h.spec, owned, hsourced', heq ▸ hsources⟩

/-- A metric by itself has its own values only. -/
theorem Store.gathers_single {s : Store} {m : MetricRow} {r : ReportRow} (hm : m ∈ s.metrics.rows)
    (hr : r ∈ s.reports.rows) (hmr : m.reportId = r.id) :
    s.Gathers (.ofRow m) ⟨m.spec, [s.sourceOf (m, r)]⟩ :=
  ⟨rfl, [(m, r)], sourced_single hm hr hmr, rfl⟩

namespace Collecting

variable {s : Store} {groups : List MetricGroup} {gathered : List Gathered}

/-! ### Reports -/

theorem summarize_yields (paging : PagingSettings) (w : Window)
    (h : List.Forall₂ s.Gathers groups gathered) (hs : s.Consistent) (r : MetricReport) :
    ∃ s', Yields (r.summarize paging w groups) s (r.withGathered w gathered) s' := by
  induction groups generalizing gathered s r with
  | nil =>
    cases h
    exact ⟨s, yields_pure.2 ⟨rfl, rfl⟩⟩
  | cons g groups ih =>
    obtain ⟨c, gathered, hc, hrest, rfl⟩ := List.forall₂_cons_left_iff.1 h
    obtain ⟨owned, hsourced, hsources⟩ := hc.sources
    obtain ⟨s₁, hentries⟩ := MetricGroup.entries_yields hsourced hs paging w
    have hseen := g.looks_entries paging w s _ s₁ hentries
    obtain ⟨s', hsummary⟩ := ih (hrest.imp fun _ _ hg => hg.seenAs hseen) (hseen.consistent hs)
      (r.insertAll g.spec.internal (g.spec.entriesOf w (owned.map s.sourceOf)))
    refine ⟨s', yields_bind.2 ⟨_, s₁, hentries, ?_⟩⟩
    rw [MetricReport.withGathered, List.foldl_cons, hc.spec, hsources]
    exact hsummary

/-! ### Exports -/

theorem points_yields {g : MetricGroup} {c : Gathered} (h : s.Gathers g c) (hs : s.Consistent)
    (paging : PagingSettings) (endMs : Int) :
    ∃ s', Yields (points paging endMs g) s ((c.points endMs).map .ok) s' := by
  obtain ⟨owned, hsourced, hsources⟩ := h.sources
  obtain ⟨s', hseries⟩ :=
    Transaction.series_yields hs (q := g.exportQuery endMs) hsourced.ids_ne_nil paging
  have hordered := hsourced.timed_ordered hs (q := g.exportQuery endMs) rfl
  have hadmits : ∀ start t, Store.admitsFrom (g.exportQuery endMs) start t = decide (t ≤ endMs) := by
    intro start t
    exact Bool.and_true _
  simp only [hadmits] at hordered
  refine ⟨s', yields_bind.2 ⟨_, s', hseries, yields_pure.2 ⟨?_, rfl⟩⟩⟩
  rw [Gathered.points, hsources, ← hordered, List.map_map, List.map_map, List.map_map]
  rfl

/-- Points that are there are all written. -/
theorem writePoints_ok (info : RollupInfo) (points : List DataPoint) :
    ∀ (w : ExportWriter) (count : Nat),
      (ExportWriter.writePoints info w count (points.map .ok)).2 = .ok (count + points.length) := by
  induction points with
  | nil => exact fun _ _ => rfl
  | cons p points ih =>
    intro w count
    rw [List.map_cons, ExportWriter.writePoints, ih, List.length_cons]
    congr 1
    omega

theorem writeRollup_ok (info : RollupInfo) (points : List DataPoint) (w : ExportWriter) :
    ∃ any, (w.writeRollup info (points.map .ok)).2 = .ok any := by
  have hcount := writePoints_ok info points w 0
  unfold ExportWriter.writeRollup
  rcases hpoints : ExportWriter.writePoints info w 0 (points.map .ok) with ⟨w', result⟩
  rw [hpoints] at hcount
  obtain rfl : result = .ok (0 + points.length) := hcount
  cases 0 + points.length with
  | zero => exact ⟨false, rfl⟩
  | succ n => exact ⟨true, rfl⟩

theorem writeSeries_yields (paging : PagingSettings) (endMs : Int)
    (h : List.Forall₂ s.Gathers groups gathered) (hs : s.Consistent) (w : ExportWriter) :
    ∃ s', Yields (writeSeries paging endMs w groups) s (writtenSeries endMs gathered w) s' := by
  induction groups generalizing gathered s w with
  | nil =>
    cases h
    exact ⟨s, yields_pure.2 ⟨rfl, rfl⟩⟩
  | cons g groups ih =>
    obtain ⟨c, gathered, hc, hrest, rfl⟩ := List.forall₂_cons_left_iff.1 h
    obtain ⟨s₁, hpoints⟩ := points_yields hc hs paging endMs
    have hseen := looks_points paging endMs g s _ s₁ hpoints
    obtain ⟨any, hany⟩ := writeRollup_ok (rollupInfo g.spec) (c.points endMs) w
    obtain ⟨s', hseries⟩ := ih (hrest.imp fun _ _ hg => hg.seenAs hseen) (hseen.consistent hs)
      (w.writeRollup (rollupInfo g.spec) ((c.points endMs).map .ok)).1
    refine ⟨s', yields_bind.2 ⟨_, s₁, hpoints, ?_⟩⟩
    rw [writtenSeries, List.foldl_cons, hc.spec]
    rcases hrollup : w.writeRollup (rollupInfo g.spec) ((c.points endMs).map .ok) with ⟨w', result⟩
    rw [hrollup] at hany hseries
    obtain rfl : result = .ok any := hany
    exact hseries

theorem exportText_yields (settings : Settings) (report : MetricReport)
    (derived : List DerivedMetric) (h : List.Forall₂ s.Gathers groups gathered)
    (hs : s.Consistent) :
    ∃ s', Yields (exportText settings report groups derived) s
      (textOf settings report gathered derived) s' := by
  obtain ⟨s', hseries⟩ := writeSeries_yields settings.paging report.endMs h hs
    (ExportWriter.start (exportHeader settings report))
  exact ⟨s', yields_bind.2 ⟨_, s', hseries, yields_pure.2 ⟨rfl, rfl⟩⟩⟩

/-- Writing an export is saving its text. -/
theorem outcome_writeExport {p : Progress} (settings : Settings) (folder : Path) (name : String)
    (report : MetricReport) (derived : List DerivedMetric)
    (h : List.Forall₂ p.store.Gathers groups gathered) (hs : p.store.Consistent) :
    ∃ s, p.store.SeenAs s ∧
      outcome (writeExport settings folder name report groups derived) p =
        ((ExportFile.saveIn folder name (textOf settings report gathered derived) p.files).1,
          { p with
            store := s
            files := (ExportFile.saveIn folder name
              (textOf settings report gathered derived) p.files).2 }) := by
  unfold writeExport ExportFile.saveIn
  rw [outcome_bind, outcome_withFiles]
  rcases ExportFile.createIn folder name p.files with ⟨err | file, fs⟩
  · exact ⟨p.store, .refl _, rfl⟩
  obtain ⟨s, htext⟩ := exportText_yields settings report derived h hs
  have hseen := looks_exportText settings report groups derived p.store _ s htext
  refine ⟨s, hseen, ?_⟩
  have htext : outcome (exportText settings report groups derived) p.store =
    (.ok (textOf settings report gathered derived), s) := htext
  dsimp only
  rw [outcome_tryCatch, outcome_bind, outcome_run]
  dsimp only
  rw [htext]
  dsimp only
  rw [outcome_withFiles]
  cases file.complete (textOf settings report gathered derived) fs with
  | error err => rfl
  | ok fs' => rfl

end Collecting

end Telemetry
