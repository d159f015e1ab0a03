import Mathlib.Data.List.Nodup
import Telemetry.Proofs.Entries
import Telemetry.Proofs.Runs
import Telemetry.Proofs.Suffixes

/-!
# What metrics write in one report

The maps of a report are told here from what each metric would write on its own into an empty map:
under a key stands what the last one writes of those that write there.  Metrics that do not overlap
do not disturb one another; where two of them overlap the later one stands, and what the earlier one
would write there is lost.
-/

namespace Telemetry

/-! ### On lists -/

/-- What the last one gives of those that give something. -/
theorem findSome?_reverse_eq_some_iff {α β : Type} {f : α → Option β} {l : List α} {b : β} :
    l.reverse.findSome? f = some b ↔
      ∃ before a after, l = before ++ a :: after ∧ f a = some b ∧ ∀ x ∈ after, f x = none := by
  rw [List.findSome?_eq_some_iff]
  constructor
  · rintro ⟨after, a, before, hl, hb, hafter⟩
    refine ⟨before.reverse, a, after.reverse, ?_, hb, fun x hx => hafter x (List.mem_reverse.1 hx)⟩
    rw [← List.reverse_reverse l, hl]
    simp
  · rintro ⟨before, a, after, rfl, hb, hafter⟩
    exact ⟨after.reverse, a, before.reverse, by simp, hb, fun x hx => hafter x (List.mem_reverse.1 hx)⟩

/-! ### Looking again -/

namespace Transaction

variable {α β : Type}

/-- Where the transaction succeeds it does so with the same result in every store that differs in the
kept queries alone. -/
def Recurs (t : Transaction α) : Prop :=
  ∀ s s₀ a s', s.SeenAs s₀ → Yields t s a s' → ∃ s₀', Yields t s₀ a s₀'

theorem recurs_pure (a : α) : Recurs (pure a) := by
  intro s s₀ b s' _ h
  obtain ⟨rfl, -⟩ := yields_pure.1 h
  exact ⟨s₀, yields_pure.2 ⟨rfl, rfl⟩⟩

theorem recurs_query {f : Store → Except Failure α} (hf : ∀ s kept, f { s with kept } = f s) :
    Recurs (query f) := by
  rintro s s₀ a s' ⟨kept, rfl⟩ h
  obtain ⟨ha, -⟩ := yields_query.1 h
  exact ⟨_, yields_query.2 ⟨(hf s kept).trans ha, rfl⟩⟩

theorem recurs_bind {t : Transaction α} {f : α → Transaction β} (hlook : t.Looks) (ht : Recurs t)
    (hf : ∀ a, Recurs (f a)) : Recurs (t >>= f) := by
  intro s s₀ b s' hseen h
  obtain ⟨a, s₁, h₁, h₂⟩ := yields_bind.1 h
  obtain ⟨s₁', h₁'⟩ := ht s s₀ a s₁ hseen h₁
  have hseen₁ : s₁.SeenAs s₁' :=
    ((hlook s a s₁ h₁).symm.trans hseen).trans (hlook s₀ a s₁' h₁')
  obtain ⟨s₂', h₂'⟩ := hf a s₁ s₁' b s' hseen₁ h₂
  exact ⟨s₂', yields_bind.2 ⟨a, s₁', h₁', h₂'⟩⟩

theorem recurs_series (q : ValueQuery) (paging : PagingSettings) : Recurs (series q paging) := by
  by_cases hq : q.metricIds = []
  · have hnone : series q paging = pure [] := by
      unfold series
      rw [hq]
      rfl
    rw [hnone]
    exact recurs_pure []
  · rintro s s₀ values s' ⟨kept, rfl⟩ h
    obtain ⟨htables, hvalues⟩ := (exists_yields_series hq).1 ⟨s', h⟩
    have hkept : ({ s with kept } : Store).series q paging = s.series q paging :=
      congrArg Prod.fst (s.readSeries_kept kept q paging)
    exact (exists_yields_series hq).2 ⟨htables, hkept.trans hvalues⟩

end Transaction

namespace MetricGroup

open Transaction

theorem recurs_numberEntries (g : MetricGroup) (w : Window) : Recurs (g.numberEntries w) := by
  unfold numberEntries
  split
  · exact recurs_bind (looks_query _) (recurs_query fun _ _ => rfl) fun _ => recurs_pure _
  · exact recurs_pure _

theorem recurs_latestEntries (g : MetricGroup) (w : Window) : Recurs (g.latestEntries w) := by
  unfold latestEntries
  split
  · exact recurs_bind (looks_query _) (recurs_query fun _ _ => rfl) fun _ => recurs_pure _
  · exact recurs_pure _

theorem recurs_scanEntries (g : MetricGroup) (paging : PagingSettings) (w : Window) :
    Recurs (g.scanEntries paging w) := by
  have hscanned : Recurs (g.scanned paging w) := by
    unfold scanned
    refine recurs_bind (looks_query _) (recurs_query fun _ _ => rfl) fun _ => ?_
    refine recurs_bind (looks_series _ _) (recurs_series _ _) fun _ => ?_
    exact recurs_bind (looks_query _) (recurs_query fun _ _ => rfl) fun _ => recurs_pure _
  unfold scanEntries
  split
  · exact recurs_bind (g.looks_scanned paging w) hscanned fun _ => recurs_pure _
  · exact recurs_pure _

/-- What a metric writes does not depend on which queries are kept. -/
theorem recurs_entries (g : MetricGroup) (paging : PagingSettings) (w : Window) :
    Recurs (g.entries paging w) := by
  refine recurs_bind (g.looks_numberEntries w) (g.recurs_numberEntries w) fun _ => ?_
  refine recurs_bind (g.looks_latestEntries w) (g.recurs_latestEntries w) fun _ => ?_
  exact recurs_bind (g.looks_scanEntries paging w) (g.recurs_scanEntries paging w) fun _ =>
    recurs_pure _

end MetricGroup

/-! ### Maps -/

def Json.isInt (n : Int) : Json → Bool
  | .int k => k == n
  | _ => false

theorem Json.any_isInt_iff {n : Int} {found : Option Json} :
    found.any (isInt n) = true ↔ found = some (.int n) := by
  cases found with
  | none => simp
  | some j => cases j <;> simp [isInt]

/-- What is found can be compared with an integer. -/
instance (n : Int) (found : Option Json) : Decidable (found = some (.int n)) :=
  decidable_of_iff _ Json.any_isInt_iff

/-- One of the two maps of a report. -/
def MetricReport.mapOf (r : MetricReport) (internal : Bool) : MetricMap :=
  if internal then r.internalMetrics else r.metrics

theorem MetricReport.get?_insertAll (r : MetricReport) (internal internal' : Bool)
    (entries : List (String × Json)) (key : String) :
    ((r.insertAll internal entries).mapOf internal').get? key =
      (if internal = internal' then (KeyMap.ofList entries).get? key else none).or
        ((r.mapOf internal').get? key) := by
  cases internal <;> cases internal'
  · exact KeyMap.get?_insertAll_or entries key r.metrics
  · rfl
  · rfl
  · exact KeyMap.get?_insertAll_or entries key r.internalMetrics

/-! ### One metric on its own -/

namespace MetricGroup

section Alone

variable (g : MetricGroup) (paging : PagingSettings) (w : Window) (s : Store)

/-- What the metric writes on its own into an empty map. -/
def alone : Except Failure MetricMap :=
  (outcome (g.entries paging w) s).1.map KeyMap.ofList

/-- What the metric on its own writes under a key, where it writes into this one of the maps. -/
def writes (internal : Bool) (key : String) : Option Json :=
  if g.spec.internal = internal then (g.alone paging w s).toOption.bind (·.get? key) else none

end Alone

variable {g : MetricGroup} {paging : PagingSettings} {w : Window} {s s₀ : Store} {out : MetricMap}
  {internal : Bool} {key : String} {value : Json}

theorem alone_eq_ok : g.alone paging w s = .ok out ↔
    ∃ entries s', Yields (g.entries paging w) s entries s' ∧ KeyMap.ofList entries = out := by
  unfold alone Yields
  rcases outcome (g.entries paging w) s with ⟨e | entries, s'⟩
  · simp [Except.map]
  · simp [Except.map]

theorem alone_seenAs (h : s.SeenAs s₀) :
    g.alone paging w s = .ok out ↔ g.alone paging w s₀ = .ok out := by
  rw [alone_eq_ok, alone_eq_ok]
  constructor
  · rintro ⟨entries, s', hentries, hout⟩
    obtain ⟨s₀', hagain⟩ := g.recurs_entries paging w _ _ _ _ h hentries
    exact ⟨entries, s₀', hagain, hout⟩
  · rintro ⟨entries, s', hentries, hout⟩
    obtain ⟨s₀', hagain⟩ := g.recurs_entries paging w _ _ _ _ h.symm hentries
    exact ⟨entries, s₀', hagain, hout⟩

theorem writes_eq_some : g.writes paging w s internal key = some value ↔
    g.spec.internal = internal ∧ ∃ out, g.alone paging w s = .ok out ∧ out.get? key = some value := by
  unfold writes
  rcases g.alone paging w s with e | out
  · simp [Except.toOption]
  · simp [Except.toOption]

theorem writes_seenAs (h : s.SeenAs s₀) :
    g.writes paging w s internal key = g.writes paging w s₀ internal key := by
  refine Option.ext fun value => ?_
  rw [writes_eq_some, writes_eq_some]
  simp only [alone_seenAs h]

/-- What a metric writes it writes under one of its keys. -/
theorem mayWrite_of_writes (h : g.writes paging w s internal key = some value) :
    g.spec.MayWrite key := by
  obtain ⟨-, out, hout, hget⟩ := writes_eq_some.1 h
  obtain ⟨entries, s', hentries, rfl⟩ := alone_eq_ok.1 hout
  rcases KeyMap.mem_of_get?_insertAll entries hget with hmem | hempty
  · exact entries_mayWrite hentries _ hmem
  · cases hempty

end MetricGroup

/-! ### All metrics of a report -/

namespace MetricReport

variable {paging : PagingSettings} {w : Window} {internal : Bool} {key : String}

/-- A report is made where each metric on its own writes what it has. -/
theorem exists_summary_iff (groups : List MetricGroup) :
    ∀ {s : Store} {r : MetricReport}, (∃ r' s', Yields (r.summarize paging w groups) s r' s') ↔
      ∀ g ∈ groups, ∃ out, g.alone paging w s = .ok out := by
  induction groups with
  | nil => exact fun {s r} => ⟨fun _ => by simp, fun _ => ⟨r, s, yields_pure.2 ⟨rfl, rfl⟩⟩⟩
  | cons g groups ih =>
    intro s r
    rw [List.forall_mem_cons]
    constructor
    · rintro ⟨r', s', h⟩
      obtain ⟨entries, s₁, hentries, h⟩ := yields_bind.1 h
      have hseen := g.looks_entries paging w s entries s₁ hentries
      refine ⟨⟨_, MetricGroup.alone_eq_ok.2 ⟨entries, s₁, hentries, rfl⟩⟩, fun g' hg' => ?_⟩
      obtain ⟨out, hout⟩ := ih.1 ⟨r', s', h⟩ g' hg'
      exact ⟨out, (MetricGroup.alone_seenAs hseen).2 hout⟩
    · rintro ⟨⟨out, hout⟩, hrest⟩
      obtain ⟨entries, s₁, hentries, -⟩ := MetricGroup.alone_eq_ok.1 hout
      have hseen := g.looks_entries paging w s entries s₁ hentries
      have hrest₁ : ∀ g' ∈ groups, ∃ out, g'.alone paging w s₁ = .ok out := by
        intro g' hg'
        obtain ⟨out', hout'⟩ := hrest g' hg'
        exact ⟨out', (MetricGroup.alone_seenAs hseen).1 hout'⟩
      obtain ⟨r', s', h⟩ := ih.2 hrest₁
      exact ⟨r', s', yields_bind.2 ⟨entries, s₁, hentries, h⟩⟩

/-- Under a key stands what the last metric writes there, or else what was there before. -/
theorem get?_summary (groups : List MetricGroup) :
    ∀ {s s' : Store} {r r' : MetricReport}, Yields (r.summarize paging w groups) s r' s' →
      (r'.mapOf internal).get? key =
        (groups.reverse.findSome? (·.writes paging w s internal key)).or
          ((r.mapOf internal).get? key) := by
  induction groups with
  | nil =>
    intro s s' r r' h
    obtain ⟨rfl, -⟩ := yields_pure.1 h
    rfl
  | cons g groups ih =>
    intro s s' r r' h
    obtain ⟨entries, s₁, hentries, h⟩ := yields_bind.1 h
    have hseen := g.looks_entries paging w s entries s₁ hentries
    have hrest : (fun g : MetricGroup => g.writes paging w s₁ internal key) =
        fun g => g.writes paging w s internal key :=
      funext fun _ => (MetricGroup.writes_seenAs hseen).symm
    have hfirst : (if g.spec.internal = internal then (KeyMap.ofList entries).get? key else none) =
        g.writes paging w s internal key := by
      rw [MetricGroup.writes, MetricGroup.alone_eq_ok.2 ⟨entries, s₁, hentries, rfl⟩]
      rfl
    rw [ih h, get?_insertAll, hrest, hfirst, List.reverse_cons, List.findSome?_append,
      List.findSome?_singleton, Option.or_assoc]

/-- A report that was empty before says what the last metric writes. -/
theorem get?_summary_eq_some {groups : List MetricGroup} {kind : ReportKind}
    {name version : Option String} {s s' : Store} {r : MetricReport} {value : Json}
    (h : Yields ((empty kind name w version).summarize paging w groups) s r s') :
    (r.mapOf internal).get? key = some value ↔
      ∃ before g after, groups = before ++ g :: after ∧
        g.writes paging w s internal key = some value ∧
        ∀ g' ∈ after, g'.writes paging w s internal key = none := by
  have hempty : ((empty kind name w version).mapOf internal).get? key = none := by
    cases internal <;> rfl
  rw [get?_summary groups h, hempty, Option.or_none]
  exact findSome?_reverse_eq_some_iff

/-- The metrics of one report have names of their own. A report is made where each metric on its own
writes what it has, and under a key of one of its maps stands what the last metric writes there that
belongs to this map, and nothing else.  Only metrics that overlap write under one key: what a metric
writes stands in the report wherever no other metric of its map overlaps with it. -/
theorem summarize_last_writes {groups : List MetricGroup}
    (hnames : (groups.map (·.spec.eventName)).Nodup) (paging : PagingSettings) (w : Window)
    (kind : ReportKind) (name version : Option String) (s : Store) :
    let summary := (empty kind name w version).summarize paging w groups
    ((∃ r s', Yields summary s r s') ↔ ∀ g ∈ groups, ∃ out, g.alone paging w s = .ok out) ∧
      (∀ g ∈ groups, ∀ g' ∈ groups, g ≠ g' → ∀ internal internal' key value value',
        g.writes paging w s internal key = some value →
        g'.writes paging w s internal' key = some value' → g.spec.Overlaps g'.spec key) ∧
      ∀ r s', Yields summary s r s' → ∀ internal key value,
        ((r.mapOf internal).get? key = some value ↔
          ∃ before g after, groups = before ++ g :: after ∧
            g.writes paging w s internal key = some value ∧
            ∀ g' ∈ after, g'.writes paging w s internal key = none) ∧
        ∀ g ∈ groups, g.writes paging w s internal key = some value →
          (∀ g' ∈ groups, g'.spec.internal = internal → g ≠ g' → ¬g.spec.Overlaps g'.spec key) →
          (r.mapOf internal).get? key = some value := by
  intro summary
  have hoverlaps : ∀ g ∈ groups, ∀ g' ∈ groups, g ≠ g' →
      ∀ internal internal' key value value',
        g.writes paging w s internal key = some value →
        g'.writes paging w s internal' key = some value' → g.spec.Overlaps g'.spec key := by
    intro g hg g' hg' hne internal internal' key value value' hwrites hwrites'
    exact (MetricGroup.mayWrite_of_writes hwrites).overlaps (MetricGroup.mayWrite_of_writes hwrites')
      fun hname => hne (List.inj_on_of_nodup_map hnames hg hg' hname)
  refine ⟨exists_summary_iff groups, hoverlaps, fun r s' h internal key value => ?_⟩
  refine ⟨get?_summary_eq_some h, fun g hg hwrites hapart => ?_⟩
  obtain ⟨before, after, rfl⟩ := List.append_of_mem hg
  refine (get?_summary_eq_some h).2 ⟨before, g, after, rfl, hwrites, fun g' hg' => ?_⟩
  -- a later metric that writes there would overlap
  have hmem : g' ∈ before ++ g :: after := by simp [hg']
  have hne : g ≠ g' := by
    rintro rfl
    have hnodup := hnames.of_map
    simp [List.nodup_append, hg'] at hnodup
  cases hwrites' : g'.writes paging w s internal key with
  | none => rfl
  | some value' =>
    obtain ⟨hflag, -⟩ := MetricGroup.writes_eq_some.1 hwrites'
    exact absurd (hoverlaps g hg g' hmem hne _ _ _ _ _ hwrites hwrites') (hapart g' hmem hflag hne)

/-- A metric that only counts does not overlap: the time of the power in the state `on` stands. -/
theorem summarize_last_writes_power :
    let power : MetricSample :=
      { MetricSample.of "power" 0 (.string "on") with aggregations := [.state .timeTotals] }
    let powerOn : MetricSample :=
      { MetricSample.of "power_on" 4000 (.bool true) with aggregations := [.numeric .count] }
    let e := (⟨default, none, .empty⟩ : Engine).run [.add power, .add powerOn]
    let groups := e.store.metrics.rows.map MetricGroup.ofRow
    let w : Window := ⟨0, 10000⟩
    let summary := (empty .hourly none w none).summarize e.settings.paging w groups
    (groups.map (·.spec.eventName)).Nodup ∧ Extends "power_on" "power" ∧
      ∃ r s', Yields summary e.store r s' ∧
        (r.mapOf false).get? "power_on.total_secs" = some (.int 10) := by
  intro power powerOn e groups w summary
  have hnames : (groups.map (·.spec.eventName)).Nodup := by decide +kernel
  have hasked : groups.map (·.spec.aggregations) = [[.state .timeTotals], [.numeric .count]] := by
    decide +kernel
  have hok : ∀ g ∈ groups, (g.alone e.settings.paging w e.store).isOk = true := by decide +kernel
  have hfirst : groups[0]?.bind
      (·.writes e.settings.paging w e.store false "power_on.total_secs") = some (.int 10) := by
    decide +kernel
  -- nothing more is to be computed
  clear_value groups e
  obtain ⟨hmade, -, hsays⟩ :=
    summarize_last_writes hnames e.settings.paging w .hourly none none e.store
  obtain ⟨r, s', h⟩ := hmade.2 fun g hg => exists_of_isOk (hok g hg)
  refine ⟨hnames, ⟨"on", rfl⟩, r, s', h, ?_⟩
  obtain ⟨a, rest, rfl, hstates, hrest⟩ := List.map_eq_cons_iff.1 hasked
  obtain ⟨b, rest, rfl, hcounts, hnil⟩ := List.map_eq_cons_iff.1 hrest
  obtain rfl := List.map_eq_nil_iff.1 hnil
  obtain ⟨-, hstands⟩ := hsays r s' h false "power_on.total_secs" (.int 10)
  refine hstands a List.mem_cons_self hfirst fun g hg _ hne hoverlaps => ?_
  rcases List.mem_pair.1 hg with rfl | rfl
  · exact hne rfl
  · -- what is only counted tells of no states
    obtain ⟨state, -, htold, -⟩ := hoverlaps.told
    rw [hcounts] at htold
    cases List.mem_singleton.1 htold

/-- The first metric has been in the state `b_c`, the second one in the state `c`: the report has the
time of the second one only. -/
theorem summary_collides :
    let told (name : String) (t : Int) (label : String) : Call :=
      .add { MetricSample.of name t (.string label) with aggregations := [.state .timeTotals] }
    let e := (⟨default, none, .empty⟩ : Engine).run [told "a" 0 "b_c", told "a_b" 4000 "c"]
    let groups := e.store.metrics.rows.map MetricGroup.ofRow
    let w : Window := ⟨0, 10000⟩
    let summary := (empty .hourly none w none).summarize e.settings.paging w groups
    (groups.map (·.spec.eventName)).Nodup ∧
      ∃ g ∈ groups, ∃ r s', Yields summary e.store r s' ∧
        g.writes e.settings.paging w e.store false "a_b_c.total_secs" = some (.int 10) ∧
        (r.mapOf false).get? "a_b_c.total_secs" = some (.int 6) := by
  intro told e groups w summary
  have hnames : groups.map (·.spec.eventName) = ["a", "a_b"] := by decide +kernel
  have hfirst : groups[0]?.bind
      (·.writes e.settings.paging w e.store false "a_b_c.total_secs") = some (.int 10) := by
    decide +kernel
  have hsecond : groups[1]?.bind
      (·.writes e.settings.paging w e.store false "a_b_c.total_secs") = some (.int 6) := by
    decide +kernel
  -- nothing more is to be computed
  clear_value groups e
  obtain ⟨a, rest, rfl, -, hrest⟩ := List.map_eq_cons_iff.1 hnames
  obtain ⟨b, rest, rfl, -, hnil⟩ := List.map_eq_cons_iff.1 hrest
  obtain rfl := List.map_eq_nil_iff.1 hnil
  obtain ⟨-, out, hout, -⟩ := MetricGroup.writes_eq_some.1 hfirst
  obtain ⟨-, out', hout', -⟩ := MetricGroup.writes_eq_some.1 hsecond
  have halone : ∀ g ∈ [a, b], ∃ out, g.alone e.settings.paging w e.store = .ok out :=
    List.forall_mem_cons.2 ⟨⟨out, hout⟩, List.forall_mem_singleton.2 ⟨out', hout'⟩⟩
  obtain ⟨r, s', h⟩ := (exists_summary_iff [a, b]).2 halone
  exact ⟨hnames ▸ by decide, a, List.mem_cons_self, r, s', h, hfirst,
    (get?_summary_eq_some h).2 ⟨[a], b, [], rfl, hsecond, by simp⟩⟩

end MetricReport

end Telemetry
