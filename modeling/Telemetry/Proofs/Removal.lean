import Telemetry.Proofs.Frames

/-!
# Removing reports

A report is removed with its metrics and their values.  `Store.without` says what a store is without
some of its reports; the order in which they go does not matter, and deleting them one by one comes
to the same.
-/

namespace Telemetry

theorem Table.remove_remove {α : Type} (t : Table α) {p q both : α → Bool}
    (h : ∀ r, both r = true ↔ p r = true ∨ q r = true) : (t.remove p).remove q = t.remove both := by
  unfold remove
  congr 1
  rw [List.filter_filter]
  refine List.filter_congr fun r _ => ?_
  rw [Bool.eq_iff_iff, Bool.and_eq_true, Bool.not_eq_true', Bool.not_eq_true', Bool.not_eq_true',
    ← Bool.not_eq_true, ← Bool.not_eq_true, ← Bool.not_eq_true, h, not_or, and_comm]

theorem Table.remove_none {α : Type} {t : Table α} {selected : α → Bool}
    (h : ∀ r ∈ t.rows, selected r = false) : t.remove selected = t := by
  have hrows : t.rows.filter (fun r => !selected r) = t.rows :=
    List.filter_eq_self.2 fun r hr => by rw [h r hr, Bool.not_false]
  rw [remove, hrows]

theorem Table.update_none {α : Type} {t : Table α} {selected : α → Bool} {change : α → α}
    (h : ∀ r ∈ t.rows, selected r = false) : t.update selected change = t := by
  have hrows : (t.rows.map fun r => if selected r then change r else r) = t.rows := by
    conv_rhs => rw [← List.map_id t.rows]
    exact List.map_congr_left fun r hr => by simp [h r hr]
  unfold update
  rw [hrows]

namespace Store

/-- Does a value belong to one of these reports? -/
def ownedBy (s : Store) (ids : List Int) (v : ValueRow) : Bool :=
  s.metrics.rows.any fun m => ids.contains m.reportId && m.id == v.metricId

/-- The store without some reports, their metrics and their values. -/
def without (s : Store) (ids : List Int) : Store :=
  { s with
    values := s.values.remove (s.ownedBy ids)
    metrics := s.metrics.remove fun m => ids.contains m.reportId
    reports := s.reports.remove fun r => ids.contains r.id }

variable {s s' : Store} {ids ids' : List Int}

theorem mem_reports_without {r : ReportRow} :
    r ∈ (s.without ids).reports.rows ↔ r ∈ s.reports.rows ∧ r.id ∉ ids := by
  simp [without, Table.remove]

theorem mem_metrics_without {m : MetricRow} :
    m ∈ (s.without ids).metrics.rows ↔ m ∈ s.metrics.rows ∧ m.reportId ∉ ids := by
  simp [without, Table.remove]

theorem ownedBy_iff {v : ValueRow} :
    s.ownedBy ids v = true ↔ ∃ m ∈ s.metrics.rows, m.id = v.metricId ∧ m.reportId ∈ ids := by
  simp only [ownedBy, List.any_eq_true, Bool.and_eq_true, List.contains_iff_mem, beq_iff_eq]
  exact exists_congr fun m => and_congr_right fun _ => and_comm

theorem mem_values_without {v : ValueRow} :
    v ∈ (s.without ids).values.rows ↔
      v ∈ s.values.rows ∧ ∀ m ∈ s.metrics.rows, m.id = v.metricId → m.reportId ∉ ids := by
  change v ∈ s.values.rows.filter (fun v => !s.ownedBy ids v) ↔ _
  rw [List.mem_filter, Bool.not_eq_true', ← Bool.not_eq_true, ownedBy_iff]
  simp only [not_exists, not_and]

@[simp] theorem without_nil (s : Store) : s.without [] = s := by
  have hnone : s.ownedBy [] = fun _ => false := by
    funext v
    simp [ownedBy]
  simp [without, hnone, Table.remove]

theorem without_append (s : Store) (ids ids' : List Int) :
    (s.without ids).without ids' = s.without (ids ++ ids') := by
  have hcontains : ∀ id : Int, (ids ++ ids').contains id = true ↔
      ids.contains id = true ∨ ids'.contains id = true := by
    intro id
    rw [List.contains_append, Bool.or_eq_true]
  -- a metric that is gone takes no value with it, but its values are gone already
  have howned : ∀ v, s.ownedBy (ids ++ ids') v = true ↔
      s.ownedBy ids v = true ∨ (s.without ids).ownedBy ids' v = true := by
    intro v
    simp only [ownedBy_iff, mem_metrics_without, List.mem_append]
    constructor
    · rintro ⟨m, hm, hid, hgone⟩
      by_cases hids : m.reportId ∈ ids
      · exact .inl ⟨m, hm, hid, hids⟩
      · exact .inr ⟨m, ⟨hm, hids⟩, hid, hgone.resolve_left hids⟩
    · rintro (⟨m, hm, hid, hgone⟩ | ⟨m, ⟨hm, -⟩, hid, hgone⟩)
      · exact ⟨m, hm, hid, .inl hgone⟩
      · exact ⟨m, hm, hid, .inr hgone⟩
  have hvalues := s.values.remove_remove howned
  have hmetrics := s.metrics.remove_remove fun m => hcontains m.reportId
  have hreports := s.reports.remove_remove fun r => hcontains r.id
  unfold without at hvalues ⊢
  simp only [hvalues, hmetrics, hreports]

theorem without_seenAs (h : s.SeenAs s') (ids : List Int) :
    (s.without ids).SeenAs (s'.without ids) := by
  obtain ⟨kept, rfl⟩ := h
  exact ⟨kept, rfl⟩

/-- What is not removed stays as it was. -/
theorem Consistent.sameReport_without (hs : s.Consistent) {id : Int} (hid : id ∉ ids) :
    SameReport id s (s.without ids) := by
  have hother : ∀ {n : Int}, (n == id) = true → ids.contains n = false := by
    intro n hn
    rw [← Bool.not_eq_true, List.contains_iff_mem, beq_iff_eq.1 hn]
    exact hid
  refine ⟨Table.filter_remove fun r _ hr => hother hr, Table.filter_remove fun m _ hm => hother hm,
    fun m hm => Table.filter_remove fun v _ hv => ?_⟩
  obtain ⟨hm, hreport⟩ := mem_metricRowsOf.1 hm
  rw [← Bool.not_eq_true, ownedBy_iff]
  rintro ⟨m', hm', hvm, hgone⟩
  rw [hs.metric_eq hm' hm (hvm.trans (beq_iff_eq.1 hv)), hreport] at hgone
  exact hid hgone

theorem SeenAs.sameReport (h : s.SeenAs s') (id : Int) : SameReport id s s' := by
  obtain ⟨kept, rfl⟩ := h
  exact ⟨rfl, rfl, fun _ _ => rfl⟩

/-- A report that is not removed is still there, with what it holds. -/
theorem Consistent.stays (hs : s.Consistent) (hseen : (s.without ids).SeenAs s') {r : ReportRow}
    (hr : r ∈ s.reports.rows) (hid : r.id ∉ ids) :
    r ∈ s'.reports.rows ∧ SameReport r.id s s' := by
  have hsame := (hs.sameReport_without hid).trans (hseen.sameReport r.id)
  exact ⟨(hsame.mem_reports rfl).2 hr, hsame⟩

theorem ownedBy_singleton (s : Store) (id : Int) (v : ValueRow) : s.ownedBy [id] v =
    ((s.metrics.rows.filter (·.reportId == id)).map (·.id)).contains v.metricId := by
  rw [Bool.eq_iff_iff, List.contains_iff_mem, ownedBy_iff, List.mem_map]
  simp only [List.mem_filter, beq_iff_eq, List.mem_singleton]
  exact exists_congr fun m => by tauto

theorem deleteReport_without (hs : s.Undamaged) {id : Int} (h : s.deleteReport id = .ok s') :
    s' = s.without [id] := by
  obtain rfl := deleteReport_eq_ok hs h
  have hsingle : ∀ x : Int, [id].contains x = (x == id) := by
    intro x
    rw [List.contains_cons, List.contains_nil, Bool.or_false]
  have howned := funext (s.ownedBy_singleton id)
  simp only [without, howned, hsingle]

end Store

namespace Collecting

/-- Deleting reports one by one leaves the store without them. -/
theorem deleteAll_without (ids : List Int) :
    ∀ {p p' : Progress} {u : Unit}, p.store.Undamaged → Yields (deleteAll ids) p u p' →
      p'.store = p.store.without ids := by
  induction ids with
  | nil =>
    intro p p' u _ h
    obtain ⟨-, rfl⟩ := yields_pure.1 h
    exact (Store.without_nil _).symm
  | cons id ids ih =>
    intro p p' u hs h
    obtain ⟨v, p₁, hrun, h⟩ := yields_bind.1 h
    obtain ⟨s, hdelete, rfl⟩ := yields_run.1 hrun
    obtain rfl := Store.deleteReport_without hs (Transaction.yields_change.1 hdelete)
    rw [ih (p := { p with store := p.store.without [id] }) hs h, Store.without_append,
      List.singleton_append]

end Collecting

end Telemetry
