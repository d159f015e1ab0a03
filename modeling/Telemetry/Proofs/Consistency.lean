import Mathlib.Data.List.Pairwise
import Mathlib.Data.String.Basic
import Telemetry.Proofs.Plain

/-!
# Consistent stores

What holds of every store that the engine leaves behind: ids are given out in increasing order and
once, at most one report of a kind and a name is open, every metric has a report, every value has a
metric, and no value is no number.

The names that a session may have are described here by their characters; `validateSessionName`
accepts no others.
-/

namespace Telemetry

/-! ### Names of reports -/

def IsNameChar (c : Char) : Prop :=
  ('a' ≤ c ∧ c ≤ 'z') ∨ ('A' ≤ c ∧ c ≤ 'Z') ∨ ('0' ≤ c ∧ c ≤ '9') ∨ c = '-' ∨ c = '_' ∨ c = '.'

structure IsSessionName (name : String) : Prop where
  nonempty : 1 ≤ name.length
  short : name.length ≤ 64
  chars : ∀ c ∈ name.toList, IsNameChar c
  /-- In no case of letters is it the name of another kind of report. -/
  unreserved : ∀ reserved ∈ ["heartbeat", "daily-heartbeat"],
    name.toList.map Char.toLower ≠ reserved.toList

theorem isNameChar_of_isSessionChar {c : Char} (h : isSessionChar c = true) : IsNameChar c := by
  have hrange : ∀ {a b : Char}, (decide (a ≤ c) && decide (c ≤ b)) = true → a ≤ c ∧ c ≤ b := by
    intro a b hab
    rwa [Bool.and_eq_true, decide_eq_true_eq, decide_eq_true_eq] at hab
  unfold isSessionChar at h
  rw [Bool.or_eq_true, Bool.or_eq_true, Bool.or_eq_true, beq_iff_eq, beq_iff_eq, beq_iff_eq] at h
  rcases h with ((halphanum | hdash) | hlow) | hdot
  · rcases Bool.or_eq_true_iff.1 halphanum with halpha | hdigit
    · rcases Bool.or_eq_true_iff.1 halpha with hupper | hlower
      · exact .inr (.inl (of_decide_eq_true hupper))
      · exact .inl (hrange hlower)
    · exact .inr (.inr (.inl (hrange hdigit)))
  · exact .inr (.inr (.inr (.inl hdash)))
  · exact .inr (.inr (.inr (.inr (.inl hlow))))
  · exact .inr (.inr (.inr (.inr (.inr hdot))))

theorem length_le_utf8ByteSize (name : String) : name.length ≤ name.utf8ByteSize := by
  rw [← String.ofList_toList (s := name), String.utf8ByteSize_ofList, String.length_ofList]
  induction name.toList with
  | nil => simp
  | cons c cs ih =>
    have hc := c.utf8Size_pos
    rw [String.utf8Len_cons, List.length_cons]
    omega

theorem isSessionName_of_validate {name : String} (h : validateSessionName name = .ok ()) :
    IsSessionName name := by
  have hfault : sessionNameFault? name = none := by
    unfold validateSessionName at h
    split at h
    · assumption
    · cases h
  unfold sessionNameFault? at hfault
  split at hfault
  · cases hfault
  next hlength =>
  split at hfault
  · cases hfault
  next hchars =>
  split at hfault
  · cases hfault
  next hreserved =>
  rw [Bool.or_eq_true, not_or, decide_eq_true_eq, not_lt] at hlength
  simp only [Bool.not_eq_true', Bool.not_eq_false, List.all_eq_true] at hchars
  refine ⟨?_, le_trans (length_le_utf8ByteSize name) hlength.2,
    fun c hc => isNameChar_of_isSessionChar (hchars c hc), ?_⟩
  · by_contra hzero
    have hempty : name = "" := String.length_eq_zero_iff.1 (by omega)
    exact hlength.1 (by simp [hempty])
  · intro reserved hmem heq
    refine hreserved (List.contains_iff_mem.2 ?_)
    rw [heq, String.ofList_toList]
    exact hmem

/-- A report of a kind may have this name: sessions have one, other reports none. -/
def ReportKind.Admits : ReportKind → Option String → Prop
  | .session, some name => IsSessionName name
  | .session, none => False
  | _, name => name = none

/-! ### Numbered tables -/

/-- Rows stand in the order of their ids, and all ids were given out. -/
structure Table.Numbered {α : Type} [Identified α] (t : Table α) : Prop where
  increasing : t.rows.Pairwise fun a b => Identified.id a < Identified.id b
  given : ∀ r ∈ t.rows, Identified.id r ≤ t.lastId

namespace Table.Numbered

variable {α : Type} [Identified α] {t : Table α}

theorem nextId_eq (h : t.Numbered) : t.nextId = t.lastId + 1 := by
  have hfold : ∀ (rows : List α) (n : Int), (∀ r ∈ rows, Identified.id r ≤ n) →
      rows.foldl (fun n r => max n (Identified.id r)) n = n := by
    intro rows
    induction rows with
    | nil => intro n _; rfl
    | cons r rows ih =>
      intro n hle
      rw [List.foldl_cons, max_eq_left (hle r (by simp))]
      exact ih n fun r' hr' => hle r' (by simp [hr'])
  unfold nextId greatestId
  rw [hfold t.rows t.lastId h.given]

theorem lt_nextId (h : t.Numbered) {r : α} (hr : r ∈ t.rows) : Identified.id r < t.nextId := by
  have hgiven := h.given r hr
  rw [h.nextId_eq]
  omega

theorem append (h : t.Numbered) {row : Int → α} (hrow : ∀ id, Identified.id (row id) = id) :
    (t.append row).Numbered := by
  constructor
  · refine List.pairwise_append.2 ⟨h.increasing, List.pairwise_singleton _ _, ?_⟩
    intro a ha b hb
    obtain rfl := List.mem_singleton.1 hb
    rw [hrow]
    exact h.lt_nextId ha
  · intro r hr
    rcases List.mem_append.1 hr with hr | hr
    · exact (h.lt_nextId hr).le
    · obtain rfl := List.mem_singleton.1 hr
      rw [hrow]
      exact le_rfl

theorem skip (h : t.Numbered) : t.skip.Numbered :=
  ⟨h.increasing, fun _ hr => (h.lt_nextId hr).le⟩

theorem update (h : t.Numbered) {selected : α → Bool} {change : α → α}
    (hchange : ∀ r ∈ t.rows, selected r = true → Identified.id (change r) = Identified.id r) :
    (t.update selected change).Numbered := by
  have hid : ∀ r ∈ t.rows,
      Identified.id (if selected r = true then change r else r) = Identified.id r := by
    intro r hr
    split
    · next hsel => exact hchange r hr hsel
    · rfl
  constructor
  · refine List.pairwise_map.2 (h.increasing.imp_of_mem ?_)
    intro a b ha hb hab
    rw [hid a ha, hid b hb]
    exact hab
  · intro r hr
    obtain ⟨a, ha, rfl⟩ := List.mem_map.1 hr
    rw [hid a ha]
    exact h.given a ha

theorem remove (h : t.Numbered) (selected : α → Bool) : (t.remove selected).Numbered :=
  ⟨h.increasing.filter _, fun r hr => h.given r (List.mem_filter.1 hr).1⟩

/-- A row is known by its id. -/
theorem eq_of_id_eq (h : t.Numbered) {a b : α} (ha : a ∈ t.rows) (hb : b ∈ t.rows)
    (hab : Identified.id a = Identified.id b) : a = b := by
  have hunique : t.rows.Pairwise fun a b => Identified.id a = Identified.id b → a = b :=
    h.increasing.imp fun hlt heq => absurd heq (ne_of_lt hlt)
  refine hunique.forall_of_forall_of_flip (fun _ _ _ => rfl) ?_ ha hb hab
  exact h.increasing.imp fun hlt heq => absurd heq.symm (ne_of_lt hlt)

end Table.Numbered

/-! ### Consistency -/

/-- The value is as a store keeps it: it is a value, and keeping it again changes nothing. -/
structure SampleValue.IsKept (value : SampleValue) : Prop where
  isNaN : value.isNaN = false
  kept : value.kept = value

/-- What holds of every store that the engine leaves behind. -/
structure Store.Consistent (s : Store) : Prop where
  undamaged : s.Undamaged
  reportsNumbered : s.reports.Numbered
  metricsNumbered : s.metrics.Numbered
  valuesNumbered : s.values.Numbered
  /-- At most one report of a kind and a name is open. -/
  oneOpen : ∀ kind name, s.reports.rows.countP (·.isOpenAs kind name) ≤ 1
  /-- Sessions have names, other reports have none. -/
  named : ∀ r ∈ s.reports.rows, r.kind.Admits r.name
  dailyOpen : ∀ r ∈ s.reports.rows, r.kind = .daily → r.endMs = none
  /-- Every metric belongs to a report. -/
  metricOwned : ∀ m ∈ s.metrics.rows, ∃ r ∈ s.reports.rows, r.id = m.reportId
  metricNamed : ∀ m ∈ s.metrics.rows, m.spec.eventName ≠ ""
  /-- A report has at most one metric of a name. -/
  oneNamed : ∀ reportId name, s.metrics.rows.countP (·.isNamed reportId name) ≤ 1
  valueOwned : ∀ v ∈ s.values.rows, ∃ m ∈ s.metrics.rows, m.id = v.metricId
  valueKept : ∀ v ∈ s.values.rows, v.value.IsKept

/-- Of what occurs at most once, two occurrences are one. -/
theorem eq_of_countP_le_one {α : Type} {l : List α} {p : α → Bool} (h : l.countP p ≤ 1) {a b : α}
    (ha : a ∈ l) (hb : b ∈ l) (hpa : p a = true) (hpb : p b = true) : a = b := by
  rw [List.countP_eq_length_filter] at h
  have hma : a ∈ l.filter p := List.mem_filter.2 ⟨ha, hpa⟩
  have hmb : b ∈ l.filter p := List.mem_filter.2 ⟨hb, hpb⟩
  match hl : l.filter p, h with
  | [], _ => simp [hl] at hma
  | [x], _ =>
    rw [hl] at hma hmb
    rw [List.mem_singleton.1 hma, List.mem_singleton.1 hmb]

theorem filter_of_countP_le_one {α : Type} {l : List α} {p : α → Bool} (h : l.countP p ≤ 1) :
    l.filter p = (l.find? p).toList := by
  rw [List.countP_eq_length_filter] at h
  rw [← List.head?_filter]
  match l.filter p, h with
  | [], _ => rfl
  | [x], _ => rfl

theorem Store.empty_consistent : Store.empty.Consistent where
  undamaged := rfl
  reportsNumbered := ⟨.nil, by simp [Store.empty, Table.empty]⟩
  metricsNumbered := ⟨.nil, by simp [Store.empty, Table.empty]⟩
  valuesNumbered := ⟨.nil, by simp [Store.empty, Table.empty]⟩
  oneOpen := by simp [Store.empty, Table.empty]
  named := by simp [Store.empty, Table.empty]
  dailyOpen := by simp [Store.empty, Table.empty]
  metricOwned := by simp [Store.empty, Table.empty]
  metricNamed := by simp [Store.empty, Table.empty]
  oneNamed := by simp [Store.empty, Table.empty]
  valueOwned := by simp [Store.empty, Table.empty]
  valueKept := by simp [Store.empty, Table.empty]

namespace Store.Consistent

variable {s : Store}

theorem of_eq {s' : Store} (h : s.Consistent) (hr : s'.reports = s.reports)
    (hm : s'.metrics = s.metrics) (hv : s'.values = s.values) (hd : s'.damage = s.damage) :
    s'.Consistent where
  undamaged := hd.trans h.undamaged
  reportsNumbered := hr ▸ h.reportsNumbered
  metricsNumbered := hm ▸ h.metricsNumbered
  valuesNumbered := hv ▸ h.valuesNumbered
  oneOpen := hr ▸ h.oneOpen
  named := hr ▸ h.named
  dailyOpen := hr ▸ h.dailyOpen
  metricOwned := hr ▸ hm ▸ h.metricOwned
  metricNamed := hm ▸ h.metricNamed
  oneNamed := hm ▸ h.oneNamed
  valueOwned := hm ▸ hv ▸ h.valueOwned
  valueKept := hv ▸ h.valueKept

theorem report_eq (h : s.Consistent) {a b : ReportRow} (ha : a ∈ s.reports.rows)
    (hb : b ∈ s.reports.rows) (hab : a.id = b.id) : a = b :=
  h.reportsNumbered.eq_of_id_eq ha hb hab

theorem metric_eq (h : s.Consistent) {a b : MetricRow} (ha : a ∈ s.metrics.rows)
    (hb : b ∈ s.metrics.rows) (hab : a.id = b.id) : a = b :=
  h.metricsNumbered.eq_of_id_eq ha hb hab

theorem open_eq (h : s.Consistent) {kind : ReportKind} {name : Option String} {a b : ReportRow}
    (ha : a ∈ s.reports.rows) (hb : b ∈ s.reports.rows) (hpa : a.isOpenAs kind name = true)
    (hpb : b.isOpenAs kind name = true) : a = b :=
  eq_of_countP_le_one (h.oneOpen kind name) ha hb hpa hpb

theorem named_eq (h : s.Consistent) {reportId : Int} {name : String} {a b : MetricRow}
    (ha : a ∈ s.metrics.rows) (hb : b ∈ s.metrics.rows) (hpa : a.isNamed reportId name = true)
    (hpb : b.isNamed reportId name = true) : a = b :=
  eq_of_countP_le_one (h.oneNamed reportId name) ha hb hpa hpb

end Store.Consistent

end Telemetry
