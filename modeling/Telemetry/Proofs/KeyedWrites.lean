import Telemetry.Proofs.ModelTexts
import Telemetry.Proofs.Seeding

/-!
# Keyed writes

A report and a name are the key of a metric.  Writing a metric under its key leaves exactly what was
written to be found there, under the id that was found there before, and changes nothing else; so
writing the same again changes nothing at all, and of two writes the later one stays.

Whether a metric has to be changed is decided by comparing it as it is read back from its cells, the
list of aggregations from a JSON text.  This decides as if the rows were compared, because every row
comes back from its cells.
-/

namespace Telemetry

open Json (Decoder)

/-! ### Rows come back from their cells -/

theorem Aggregation.decode_listText (aggregations : List Aggregation) :
    Json.decode (Decoder.list Aggregation.decoder) (listText aggregations) = some aggregations := by
  have hfloatless : (Json.arr (aggregations.map (·.toJson))).Floatless := by
    refine .arr fun v hv => ?_
    obtain ⟨a, -, rfl⟩ := List.mem_map.1 hv
    exact a.floatless
  rw [listText, Json.decode_compact _ hfloatless]
  exact Decoder.list_tree (by decide) fun a _ => Aggregation.decoder_tree (by decide) a

theorem Cell.asBool?_ofBool (b : Bool) : (Cell.ofBool b).asBool? = some b := by cases b <;> rfl

theorem MetricRow.row?_cells (m : MetricRow) : m.cells.row? m.id = some m := by
  obtain ⟨id, reportId, spec⟩ := m
  simp [cells, MetricCells.row?, Cell.asInt?, Cell.asText?, MetricKind.ofName?_name,
    DataKind.ofName?_name, Cell.asBool?_ofBool, Aggregation.decode_listText]

theorem MetricRow.isNamed_cells (m : MetricRow) (reportId : Int) (name : String) :
    m.cells.isNamed reportId name = m.isNamed reportId name := rfl

namespace Store

variable {s s' s₁ : Store} {reportId id : Int} {spec : MetricSpec} {name : String} {m : MetricRow}

/-! ### Stores with keys -/

/-- What a write by key rests on: the rows are what they say, they can be changed, and a key is that
of one metric. -/
structure Keyed (s : Store) : Prop where
  undamaged : s.Undamaged
  writable : s.readOnly = false
  numbered : s.metrics.Numbered
  oneNamed : ∀ reportId name, s.metrics.rows.countP (·.isNamed reportId name) ≤ 1

namespace Keyed

theorem append (hs : s.Keyed)
    (hfree : ∀ m ∈ s.metrics.rows, m.isNamed reportId spec.eventName = false) :
    Keyed { s with metrics := s.metrics.append fun id => ⟨id, reportId, spec⟩ } :=
  { hs with
    numbered := by dsimp only; exact hs.numbered.append fun _ => rfl
    oneNamed := oneNamed_append hs.oneNamed hfree }

theorem row_eq (hs : s.Keyed) (hm : m ∈ s.metrics.rows) :
    ∀ x ∈ s.metrics.rows, (x.id == m.id) = true → x = m :=
  fun _ hx hid => hs.numbered.eq_of_id_eq hx hm (beq_iff_eq.1 hid)

theorem update (hs : s.Keyed) (hm : m ∈ s.metrics.rows)
    (hname : spec.eventName = m.spec.eventName) :
    Keyed
      { s with metrics := s.metrics.update (fun x => x.id == m.id) fun _ => { m with spec } } :=
  { hs with
    numbered := hs.numbered.update fun x hx hid => by rw [hs.row_eq hm x hx hid]; rfl
    oneNamed := oneNamed_update hs.oneNamed (hs.row_eq hm) hname }

theorem remove (hs : s.Keyed) (selected : MetricRow → Bool) :
    Keyed { s with metrics := s.metrics.remove selected } :=
  { hs with
    numbered := hs.numbered.remove selected
    oneNamed := fun reportId name =>
      le_trans List.filter_sublist.countP_le (hs.oneNamed reportId name) }

/-- A metric is found under its key. -/
theorem metric?_eq (hs : s.Keyed) (hm : m ∈ s.metrics.rows) :
    s.metric? m.reportId m.spec.eventName = some m := by
  have hnamed : m.isNamed m.reportId m.spec.eventName = true := by simp [MetricRow.isNamed]
  obtain ⟨x, hx⟩ := Option.isSome_iff_exists.1 (List.find?_isSome.2 ⟨m, hm, hnamed⟩)
  rw [metric?, hx, eq_of_countP_le_one (hs.oneNamed _ _) (List.mem_of_find?_eq_some hx) hm
    (List.find?_some hx) hnamed]

theorem findMetric?_eq (hs : s.Keyed) (hm : m ∈ s.metrics.rows) :
    s.findMetric? m.reportId m.spec.eventName = .ok (some m) := by
  rw [Store.findMetric?_eq hs.undamaged]
  exact congrArg Except.ok (hs.metric?_eq hm)

end Keyed

/-! ### Looking through cells -/

/-- The store with every metric looked at through its cells. -/
def byCells (s : Store) : Store :=
  { s with damage := { s.damage with metricCells := s.metrics.rows.map fun m => (m.id, m.cells) } }

theorem oddCells?_byCells (hs : s.metrics.Numbered) (hm : m ∈ s.metrics.rows) :
    oddCells? s.byCells.damage.metricCells m.id = some m.cells := by
  have hfind : s.metrics.rows.find? (fun x => x.id == m.id) = some m := by
    obtain ⟨x, hx⟩ := Option.isSome_iff_exists.1
      (List.find?_isSome (p := fun x : MetricRow => x.id == m.id) |>.2 ⟨m, hm, by simp⟩)
    have hid : x.id = m.id := by simpa using List.find?_some hx
    rw [hx, hs.eq_of_id_eq (List.mem_of_find?_eq_some hx) hm hid]
  rw [byCells, oddCells?, List.find?_map]
  change Option.map _ (Option.map _ (s.metrics.rows.find? fun x => x.id == m.id)) = _
  rw [hfind]
  rfl

/-- A metric is found through its cells as it is found without them. -/
theorem findMetric?_byCells (hs : s.Keyed) (reportId : Int) (name : String) :
    s.byCells.findMetric? reportId name = s.findMetric? reportId name := by
  have htest : ∀ m ∈ s.metrics.rows,
      s.byCells.testMetric (·.isNamed reportId name) (·.isNamed reportId name) m =
        m.isNamed reportId name := by
    intro m hm
    rw [testMetric, test, oddCells?_byCells hs.numbered hm]
    exact m.isNamed_cells reportId name
  have hfind : s.byCells.metrics.rows.find?
      (s.byCells.testMetric (·.isNamed reportId name) (·.isNamed reportId name)) =
        s.metrics.rows.find? (·.isNamed reportId name) := by
    rw [← List.head?_filter, ← List.head?_filter]
    exact congrArg List.head? (List.filter_congr htest)
  have hneed : s.byCells.need [.metrics] .findMetric = .ok () := need_eq_ok hs.undamaged _ _
  rw [Store.findMetric?_eq hs.undamaged, findMetric?]
  refine bind_eq_ok.2 ⟨(), hneed, ?_⟩
  simp only [hfind]
  cases hm : s.metrics.rows.find? (·.isNamed reportId name) with
  | none => rfl
  | some m =>
    have hread : s.byCells.readMetric .findMetric m = .ok m := by
      rw [readMetric, oddCells?_byCells hs.numbered (List.mem_of_find?_eq_some hm)]
      simp only [m.row?_cells]
    simp only [hread]
    rfl

/-- A write decides and does the same through cells. -/
theorem putMetric_byCells (hs : s.Keyed) (reportId : Int) (spec : MetricSpec) :
    (s.byCells.putMetric reportId spec).map (fun p => (p.1, p.2.metrics)) =
      (s.putMetric reportId spec).map fun p => (p.1, p.2.metrics) := by
  have hpermit : ∀ action, s.byCells.permit .metrics action true = s.permit .metrics action true :=
    fun _ => rfl
  rw [putMetric, findMetric?_byCells hs, putMetric]
  rcases s.findMetric? reportId spec.eventName with e | _ | m
  · rfl
  · rw [hpermit]
    rcases s.permit .metrics .insert true .saveMetric with e | u
    · rfl
    · change Except.map _ (needId s.metrics .saveMetric >>= _) = Except.map _ (_ >>= _)
      rcases needId s.metrics .saveMetric with e | u
      · rfl
      · rfl
  · change Except.map _ (ite _ _ _) = Except.map _ (ite _ _ _)
    split
    · rfl
    · rw [hpermit]
      rcases s.permit .metrics .update true .updateMetric with e | u
      · rfl
      · rfl

/-! ### What a write does -/

/-- What holds after a metric was written under its key. -/
structure PutsMetric (s s' : Store) (reportId id : Int) (spec : MetricSpec) : Prop where
  /-- It is found as it was written, -/
  found : s'.findMetric? reportId spec.eventName = .ok (some ⟨id, reportId, spec⟩)
  /-- also where it is read from its cells. -/
  readBack : s'.byCells.findMetric? reportId spec.eventName = .ok (some ⟨id, reportId, spec⟩)
  /-- It has the id that was found before, -/
  sameId : ∀ m, s.findMetric? reportId spec.eventName = .ok (some m) → m.id = id
  /-- or a new one. -/
  newId : s.findMetric? reportId spec.eventName = .ok none → ∀ m ∈ s.metrics.rows, m.id ≠ id
  /-- No other metric changes, -/
  others : s'.metrics.rows.filter (·.id != id) = s.metrics.rows.filter (·.id != id)
  /-- and nothing beside the metrics. -/
  rest : s' = { s with metrics := s'.metrics }
  /-- The same write again changes nothing. -/
  again : s'.putMetric reportId spec = .ok (id, s')
  /-- Looking through the cells gives the same write. -/
  decided : ∃ s'', s.byCells.putMetric reportId spec = .ok (id, s'') ∧ s''.metrics = s'.metrics

/-- What `putMetric` does to a store with keys. -/
theorem Keyed.putMetric (hs : s.Keyed) (h : s.putMetric reportId spec = .ok (id, s')) :
    s'.Keyed ∧ ⟨id, reportId, spec⟩ ∈ s'.metrics.rows ∧
      (∀ m, s.metric? reportId spec.eventName = some m → m.id = id) ∧
      (s.metric? reportId spec.eventName = none → ∀ m ∈ s.metrics.rows, m.id ≠ id) ∧
      s'.metrics.rows.filter (·.id != id) = s.metrics.rows.filter (·.id != id) ∧
      s' = { s with metrics := s'.metrics } := by
  rcases putMetric_eq_ok hs.undamaged h with ⟨hnone, rfl, rfl⟩ | ⟨m, hm, rfl, hm'⟩
  · have hfree : ∀ m ∈ s.metrics.rows, m.isNamed reportId spec.eventName = false := by
      simpa using hnone
    refine ⟨hs.append hfree, ?_, ?_, ?_, ?_, rfl⟩
    · exact List.mem_append_right _ (List.mem_singleton.2 rfl)
    · intro m hm
      rw [metric?, hnone] at hm
      cases hm
    · exact fun _ m hm => (hs.numbered.lt_nextId hm).ne
    · exact Table.filter_append (by simp)
  · obtain ⟨hmem, hreport, hname⟩ := of_metric? hm
    have hsame : ∀ x, s.metric? reportId spec.eventName = some x → x.id = m.id := by
      intro x hx
      rw [metric?, hm] at hx
      cases hx
      rfl
    have hsome : s.metric? reportId spec.eventName = none → ∀ x ∈ s.metrics.rows, x.id ≠ m.id := by
      intro hnone
      rw [metric?, hm] at hnone
      cases hnone
    rcases hm' with ⟨rfl, rfl⟩ | rfl
    · exact ⟨hs, hreport ▸ hmem, hsame, hsome, rfl, rfl⟩
    · refine ⟨hs.update hmem hname.symm, ?_, hsame, hsome, ?_, rfl⟩
      · refine List.mem_map.2 ⟨m, hmem, ?_⟩
        rw [if_pos (beq_self_eq_true m.id), hreport]
      · exact Table.filter_update fun x _ hid => by simp [beq_iff_eq.1 hid]

/-- A metric that is there can be written. -/
theorem Keyed.putMetric_ok (hs : s.Keyed)
    (hfind : s.findMetric? reportId spec.eventName = .ok (some m)) :
    ∃ s', s.putMetric reportId spec = .ok (m.id, s') := by
  rw [Store.putMetric, hfind]
  change ∃ s', ite _ _ _ = _
  split
  · exact ⟨s, rfl⟩
  · rw [permit_eq_ok hs.undamaged hs.writable]
    exact ⟨_, rfl⟩

theorem putMetric_found (hfind : s.findMetric? reportId spec.eventName = .ok (some m))
    (hspec : m.spec = spec) : s.putMetric reportId spec = .ok (m.id, s) := by
  rw [putMetric, hfind]
  exact if_pos hspec

theorem Keyed.putsMetric (hs : s.Keyed) (h : s.putMetric reportId spec = .ok (id, s')) :
    s.PutsMetric s' reportId id spec := by
  obtain ⟨hs', hmem, hsame, hnew, hothers, hrest⟩ := hs.putMetric h
  have hfound : s'.findMetric? reportId spec.eventName = .ok (some ⟨id, reportId, spec⟩) :=
    hs'.findMetric?_eq hmem
  have hbefore := Store.findMetric?_eq hs.undamaged reportId spec.eventName
  have hcells := putMetric_byCells hs reportId spec
  rw [h] at hcells
  refine ⟨hfound, (findMetric?_byCells hs' _ _).trans hfound, ?_, ?_, hothers, hrest,
    putMetric_found hfound rfl, ?_⟩
  · intro m hm
    rw [hbefore, Except.ok.injEq] at hm
    exact hsame m hm
  · intro hnone
    rw [hbefore, Except.ok.injEq] at hnone
    exact hnew hnone
  · rcases hput : s.byCells.putMetric reportId spec with e | ⟨id', s''⟩
    · rw [hput] at hcells
      cases hcells
    · rw [hput] at hcells
      obtain ⟨rfl, hmetrics⟩ := Prod.mk.inj (Except.ok.inj hcells)
      exact ⟨s'', rfl, hmetrics⟩

/-! ### Stores that arise -/

/-- A step of the engine, or a metric written for any report under any name. -/
inductive Change (s : Store) : Store → Prop
  | step {s' : Store} (h : Step .everything s s') : Change s s'
  | put {s' : Store} {reportId id : Int} {spec : MetricSpec}
      (h : s.putMetric reportId spec = .ok (id, s')) : Change s s'

/-- Any number of changes. -/
def Changes : Store → Store → Prop := Relation.ReflTransGen Change

theorem Step.keyed {scope : Scope} (h : Step scope s s') (hs : s.Keyed) : s'.Keyed := by
  cases h with
  | keep kept => exact { hs with }
  | start t version _ _ _ => exact { hs with }
  | finish t _ => exact { hs with }
  | newMetric _ _ hfree _ => exact hs.append hfree
  | setMetric _ hm hname => exact hs.update hm hname
  | addValue version t _ _ _ => exact { hs with }
  | skipValue => exact { hs with }
  | removeValues _ => exact { hs with }
  | removeMetrics _ => exact hs.remove _
  | removeReports _ => exact { hs with }

theorem Change.keyed (h : Change s s') (hs : s.Keyed) : s'.Keyed := by
  cases h with
  | step h => exact h.keyed hs
  | put h => exact (hs.putMetric h).1

theorem Changes.keyed (h : Changes s s') (hs : s.Keyed) : s'.Keyed := by
  induction h with
  | refl => exact hs
  | tail _ hchange ih => exact hchange.keyed ih

end Store

namespace Engine

theorem Reachable.keyed {e : Engine} (he : e.Reachable) : e.store.Keyed :=
  ⟨he.consistent.undamaged, he.readOnly_eq, he.consistent.metricsNumbered, he.consistent.oneNamed⟩

/-- A metric that is written under its key is found there as it was written, with the id it had, and
nothing else changes; writing it again changes nothing.  A later write under the key cannot fail: it
stays under the same id, which has all its values still. -/
theorem putMetric_keyed {e : Engine} (he : e.Reachable) {s s₁ : Store} (hs : e.store.Changes s)
    {reportId id : Int} {spec : MetricSpec} (h : s.putMetric reportId spec = .ok (id, s₁)) :
    s.PutsMetric s₁ reportId id spec ∧
      ∀ later : MetricSpec, later.eventName = spec.eventName →
        ∃ s₂, s₁.putMetric reportId later = .ok (id, s₂) ∧ s₁.PutsMetric s₂ reportId id later ∧
          ∀ metricId, s₂.valuesOf metricId = s.valuesOf metricId := by
  have hkeyed := hs.keyed he.keyed
  have hputs := hkeyed.putsMetric h
  have hkeyed₁ := (hkeyed.putMetric h).1
  refine ⟨hputs, fun later hname => ?_⟩
  obtain ⟨s₂, hput⟩ := hkeyed₁.putMetric_ok (hname ▸ hputs.found)
  have hputs₂ := hkeyed₁.putsMetric hput
  refine ⟨s₂, hput, hputs₂, fun metricId => ?_⟩
  rw [hputs₂.rest, hputs.rest]
  rfl

/-- A metric is given other attributes, then the first ones again; its value stays with it. -/
theorem putMetric_keyed_load :
    let sample := MetricSample.of "load" 5 (.bool true)
    let changed : MetricSpec :=
      { sample.spec with carryOver := true, aggregations := [.state .latest, .numeric .count] }
    let e := (⟨default, none, .empty⟩ : Engine).run [.add sample]
    ∃ s₁ s₂, e.store.putMetric 1 changed = .ok (1, s₁) ∧ e.store.PutsMetric s₁ 1 1 changed ∧
      s₁.putMetric 1 sample.spec = .ok (1, s₂) ∧ s₁.PutsMetric s₂ 1 1 sample.spec ∧
      (s₂.valuesOf 1).map (·.timeMs) = [5] := by
  intro sample changed e
  have he : e.Reachable := ⟨default, none, ⟨default, none, .empty⟩, _, rfl, rfl⟩
  have hid : (e.store.putMetric 1 changed).toOption.map (·.1) = some 1 := by decide +kernel
  have hvalues : (e.store.valuesOf 1).map (·.timeMs) = [5] := by decide +kernel
  -- nothing more is to be computed
  clear_value e
  rcases hput : e.store.putMetric 1 changed with err | ⟨id, s₁⟩
  · rw [hput] at hid
    cases hid
  · rw [hput] at hid
    obtain rfl : id = 1 := Option.some.inj hid
    obtain ⟨hputs, hlater⟩ := putMetric_keyed he .refl hput
    obtain ⟨s₂, hput₂, hputs₂, hkept⟩ := hlater sample.spec rfl
    exact ⟨s₁, s₂, rfl, hputs, hput₂, hputs₂, by rw [hkept, hvalues]⟩

end Engine

end Telemetry
