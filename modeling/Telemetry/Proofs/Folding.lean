import Telemetry.Proofs.Seeding
import Telemetry.Proofs.Intake
import Telemetry.Proofs.SheetStages

/-!
# Daily metrics in sessions

A session is reported with its own metrics and, for the names that a request lists, with those of
the open daily accumulator.  The list of groups is searched while it grows, so a name is taken in only
where nothing of it is there yet; what comes out is the session's own metrics and then the missing
ones, in the order in which their names are first asked for.

The accumulator is read for one session after the other, while those before are deleted.  Each of
them finds it as it was, and so it is left.
-/

namespace Telemetry

/-! ### Adding what is missing -/

section Missing

variable {β : Type} {key : β → String} {find? : String → Option β}

/-- Adds what is found for a name, unless something of that name is there. -/
def addMissing (key : β → String) (find? : String → Option β) (xs : List β) (name : String) :
    List β :=
  if xs.any (fun x => key x == name) then xs else xs ++ (find? name).toList

theorem addMissing_of_any {xs : List β} {name : String}
    (h : xs.any (fun x => key x == name) = true) : addMissing key find? xs name = xs := if_pos h

theorem addMissing_of_none {xs : List β} {name : String} (h : find? name = none) :
    addMissing key find? xs name = xs := by
  rw [addMissing, h, Option.toList_none, List.append_nil, ite_self]

/-- Names that are there stay there. -/
theorem any_foldl_addMissing (names : List String) {name : String} :
    ∀ {xs : List β}, xs.any (fun x => key x == name) = true →
      (names.foldl (addMissing key find?) xs).any (fun x => key x == name) = true := by
  induction names with
  | nil => exact id
  | cons other names ih =>
    intro xs h
    apply ih
    rw [addMissing]
    split
    · exact h
    · rw [List.any_append, h, Bool.true_or]

/-- Once a name was asked for it is there, unless nothing is found for it. -/
theorem any_foldl_addMissing_of_mem (hfind : ∀ name x, find? name = some x → key x = name)
    {names : List String} {name : String} (hname : name ∈ names) (xs : List β) :
    find? name = none ∨
      (names.foldl (addMissing key find?) xs).any (fun x => key x == name) = true := by
  induction names generalizing xs with
  | nil => cases hname
  | cons other names ih =>
    rcases List.mem_cons.1 hname with rfl | hname
    · cases hfound : find? name with
      | none => exact .inl rfl
      | some x =>
        refine .inr (any_foldl_addMissing names ?_)
        by_cases hany : xs.any (fun x => key x == name) = true
        · rwa [addMissing_of_any hany]
        · rw [addMissing, if_neg hany, hfound]
          simp [hfind name x hfound]
    · exact ih hname _

/-- A name adds nothing where it is asked for twice, is there or is not found. -/
theorem foldl_addMissing_skip (hfind : ∀ name x, find? name = some x → key x = name)
    {before after : List String} {name : String} {xs : List β}
    (h : name ∈ before ∨ xs.any (fun x => key x == name) = true ∨ find? name = none) :
    (before ++ name :: after).foldl (addMissing key find?) xs =
      (before ++ after).foldl (addMissing key find?) xs := by
  have hskip : addMissing key find? (before.foldl (addMissing key find?) xs) name =
      before.foldl (addMissing key find?) xs := by
    rcases h with hmem | hany | hnone
    · rcases any_foldl_addMissing_of_mem hfind hmem xs with hnone | hany
      · exact addMissing_of_none hnone
      · exact addMissing_of_any hany
    · exact addMissing_of_any (any_foldl_addMissing before hany)
    · exact addMissing_of_none hnone
  rw [List.foldl_append, List.foldl_append, List.foldl_cons, hskip]

theorem eraseDups_filter (p : String → Bool) (names : List String) :
    (names.filter p).eraseDups = names.eraseDups.filter p := by
  match names with
  | [] => rfl
  | name :: names =>
    have hcomm : (names.filter p).filter (fun n => !n == name) =
        (names.filter fun n => !n == name).filter p := List.filter_comm _ _ _
    rw [List.eraseDups_cons, List.filter_cons, List.filter_cons]
    split
    · rw [List.eraseDups_cons, hcomm, eraseDups_filter p (names.filter _)]
    · next hp =>
      have hsame : names.filter p = (names.filter fun n => !n == name).filter p :=
        (filter_filter_of_imp fun n _ hn => by
          rw [Bool.not_eq_true', beq_eq_false_iff_ne]
          exact fun heq => hp (heq ▸ hn)).symm
      rw [hsame, eraseDups_filter p (names.filter _)]
termination_by names.length
decreasing_by all_goals exact Nat.lt_succ_of_le (List.length_filter_le _ _)

theorem nodup_eraseDups (names : List String) : names.eraseDups.Nodup := by
  match names with
  | [] => exact .nil
  | name :: names =>
    rw [List.eraseDups_cons, List.nodup_cons, List.mem_eraseDups]
    exact ⟨by simp, nodup_eraseDups (names.filter _)⟩
termination_by names.length
decreasing_by exact Nat.lt_succ_of_le (List.length_filter_le _ _)

theorem map_filterMap_sublist (hfind : ∀ name x, find? name = some x → key x = name)
    (names : List String) : ((names.filterMap find?).map key).Sublist names := by
  induction names with
  | nil => exact .slnil
  | cons name names ih =>
    rw [List.filterMap_cons]
    cases hfound : find? name with
    | none => exact ih.cons name
    | some x =>
      rw [List.map_cons, hfind name x hfound]
      exact ih.cons_cons name

/-- What is added, in the order in which the names are first asked for. -/
theorem foldl_addMissing (hfind : ∀ name x, find? name = some x → key x = name)
    (names : List String) : ∀ xs : List β, names.foldl (addMissing key find?) xs = xs ++
      (names.eraseDups.filter fun name => !xs.any fun x => key x == name).filterMap find? := by
  induction names with
  | nil => exact fun xs => (List.append_nil xs).symm
  | cons name names ih =>
    intro xs
    have herase : (name :: names).eraseDups =
        name :: names.eraseDups.filter fun n => !n == name := by
      rw [List.eraseDups_cons, eraseDups_filter]
    rw [List.foldl_cons, ih, herase, List.filter_cons, addMissing]
    by_cases hany : xs.any (fun x => key x == name) = true
    · have hsame : (names.eraseDups.filter fun n => !n == name).filter
          (fun n => !xs.any fun x => key x == n) =
            names.eraseDups.filter fun n => !xs.any fun x => key x == n :=
        filter_filter_of_imp fun n _ hn => by
          rw [Bool.not_eq_true', beq_eq_false_iff_ne]
          rintro rfl
          simp [hany] at hn
      rw [if_pos hany, if_neg (by simp [hany]), hsame]
    · rw [if_neg hany, if_pos (by simpa using hany), List.filterMap_cons]
      cases hfound : find? name with
      | none =>
        have hsame : ((names.eraseDups.filter fun n => !n == name).filter
            fun n => !xs.any fun x => key x == n).filterMap find? =
              (names.eraseDups.filter fun n => !xs.any fun x => key x == n).filterMap find? := by
          rw [List.filter_comm, List.filterMap_filter]
          refine List.filterMap_congr fun n _ => ?_
          by_cases hn : n = name
          · simp [hn, hfound]
          · simp [hn]
        rw [Option.toList_none, List.append_nil, hsame]
      | some x =>
        have hsame : (names.eraseDups.filter fun n => !n == name).filter
            (fun n => !xs.any fun y => key y == n) =
              names.eraseDups.filter fun n => !(xs ++ [x]).any fun y => key y == n := by
          rw [List.filter_filter]
          refine List.filter_congr fun n _ => ?_
          rw [List.any_append, Bool.not_or]
          congr 1
          rw [List.any_cons, List.any_nil, Bool.or_false, hfind name x hfound, Bool.beq_comm]
        rw [Option.toList_some, hsame, List.append_assoc]
        rfl

end Missing

/-! ### The metrics of a session -/

namespace Store

variable {s s' : Store} {names : List String} {name : String} {id : Int} {m : MetricRow}
  {accumulator : Option ReportRow} {r : ReportRow}

/-- The metrics of an accumulator that a session takes in for names: those of the names of which it
has no metric itself, in the order in which the names are first asked for. -/
def takenFrom (s : Store) (accumulator : ReportRow) (names : List String) (id : Int) :
    List MetricRow :=
  (names.eraseDups.filter (s.lacks · id)).filterMap (s.metric? accumulator.id)

/-- The metrics that a session is reported with, each with its report: its own metrics, then those
that it takes in. -/
def foldedFrom (s : Store) (accumulator : Option ReportRow) (names : List String) (r : ReportRow) :
    List (MetricRow × ReportRow) :=
  (s.metricRowsOf r.id).map (·, r) ++
    accumulator.elim [] fun a => (s.takenFrom a names r.id).map (·, a)

/-- The metrics that a session is reported with where it takes in those of the open daily
accumulator. -/
def foldedFor (s : Store) (names : List String) (r : ReportRow) : List (MetricRow × ReportRow) :=
  s.foldedFrom s.daily? names r

/-- What a metric of a report brings to the report that it goes into: its values, with the start of
its own report. -/
def gatheredOf (s : Store) (o : MetricRow × ReportRow) : Gathered := ⟨o.1.spec, [s.sourceOf o]⟩

theorem lacks_eq (s : Store) (name : String) (id : Int) :
    s.lacks name id = !(s.metricRowsOf id).any (·.spec.eventName == name) := by
  rw [lacks, metricRowsOf, List.any_filter]
  rfl

theorem not_lacks_of_mem (hm : m ∈ s.metricRowsOf id) : s.lacks m.spec.eventName id = false := by
  rw [lacks_eq, Bool.not_eq_false', List.any_eq_true]
  exact ⟨m, hm, beq_self_eq_true _⟩

theorem key_metric? (a : ReportRow) (name : String) (m : MetricRow)
    (h : s.metric? a.id name = some m) : m.spec.eventName = name := (of_metric? h).2.2

theorem takenFrom_names (a : ReportRow) (names : List String) (id : Int) :
    ((s.takenFrom a names id).map (·.spec.eventName)).Sublist
      (names.eraseDups.filter (s.lacks · id)) :=
  map_filterMap_sublist (key_metric? a) _

/-- Of the name of a metric that it takes in a session has none itself. -/
theorem lacks_of_taken {a : ReportRow} (hm : m ∈ s.takenFrom a names id) :
    s.lacks m.spec.eventName id = true := by
  have hname := (takenFrom_names a names id).subset (List.mem_map_of_mem hm)
  exact (List.mem_filter.1 hname).2

/-- The metrics that a session takes in are what adding the missing ones adds. -/
theorem foldl_addMissing_metrics (s : Store) (a : ReportRow) (names : List String) (id : Int) :
    names.foldl (addMissing (·.spec.eventName) (s.metric? a.id)) (s.metricRowsOf id) =
      s.metricRowsOf id ++ s.takenFrom a names id := by
  rw [foldl_addMissing (key_metric? a)]
  simp only [takenFrom, lacks_eq]

/-- Another name of a list adds nothing to a session: it stands in the list before, the session has
a metric of this name, or the accumulator has none. -/
def AddsNothing (s : Store) (before : List String) (name : String) (id : Int) : Prop :=
  name ∈ before ∨ s.lacks name id = false ∨ ∀ a, s.daily? = some a → s.metric? a.id name = none

theorem AddsNothing.foldedFor_eq {before after : List String} (h : s.AddsNothing before name r.id) :
    s.foldedFor (before ++ name :: after) r = s.foldedFor (before ++ after) r := by
  unfold foldedFor foldedFrom
  cases hdaily : s.daily? with
  | none => rfl
  | some a =>
    have hskip : name ∈ before ∨ (s.metricRowsOf r.id).any (·.spec.eventName == name) = true ∨
        s.metric? a.id name = none := by
      refine h.imp_right (Or.imp (fun hhas => ?_) fun hnone => hnone a hdaily)
      rwa [lacks_eq, Bool.not_eq_false'] at hhas
    have hfold : (before ++ name :: after).foldl
          (addMissing (·.spec.eventName) (s.metric? a.id)) (s.metricRowsOf r.id) =
        (before ++ after).foldl
          (addMissing (·.spec.eventName) (s.metric? a.id)) (s.metricRowsOf r.id) :=
      foldl_addMissing_skip (key_metric? a) hskip
    rw [foldl_addMissing_metrics, foldl_addMissing_metrics] at hfold
    rw [Option.elim_some, Option.elim_some, List.append_cancel_left hfold]

theorem of_mem_foldedFrom {o : MetricRow × ReportRow}
    (ho : o ∈ s.foldedFrom accumulator names r) :
    (o.2 = r ∨ accumulator = some o.2) ∧ o.1 ∈ s.metricRowsOf o.2.id := by
  rcases List.mem_append.1 ho with ho | ho
  · obtain ⟨m, hm, rfl⟩ := List.mem_map.1 ho
    exact ⟨.inl rfl, hm⟩
  · cases accumulator with
    | none => cases ho
    | some a =>
      obtain ⟨m, hm, rfl⟩ := List.mem_map.1 ho
      obtain ⟨name, -, hfound⟩ := List.mem_filterMap.1 hm
      obtain ⟨hm, hreport, -⟩ := of_metric? hfound
      exact ⟨.inr rfl, mem_metricRowsOf.2 ⟨hm, hreport⟩⟩

/-- The metrics that a session is reported with have different names. -/
theorem Consistent.foldedFrom_distinct (hs : s.Consistent) (accumulator : Option ReportRow)
    (names : List String) (r : ReportRow) :
    (s.foldedFrom accumulator names r).Pairwise
      fun o o' => o.1.spec.eventName ≠ o'.1.spec.eventName := by
  have hown : ((s.metricRowsOf r.id).map (·, r)).Pairwise
      fun o o' => o.1.spec.eventName ≠ o'.1.spec.eventName :=
    List.pairwise_map.2 (hs.metricRowsOf_distinct r.id)
  cases accumulator with
  | none => exact List.pairwise_append.2 ⟨hown, .nil, fun _ _ _ ho => by cases ho⟩
  | some a =>
    have htaken : (s.takenFrom a names r.id).Pairwise
        fun m m' => m.spec.eventName ≠ m'.spec.eventName :=
      List.pairwise_map.1 (((nodup_eraseDups names).filter _).sublist
        (takenFrom_names a names r.id))
    refine List.pairwise_append.2 ⟨hown, List.pairwise_map.2 htaken, fun o ho o' ho' heq => ?_⟩
    obtain ⟨m, hm, rfl⟩ := List.mem_map.1 ho
    obtain ⟨m', hm', rfl⟩ := List.mem_map.1 ho'
    have hlacks := lacks_of_taken hm'
    have heq : m.spec.eventName = m'.spec.eventName := heq
    rw [← heq, not_lacks_of_mem hm] at hlacks
    cases hlacks

/-- Of a name that a session has it is reported with its own metric and nothing else. -/
theorem Consistent.foldedFrom_own (hs : s.Consistent) (hm : m ∈ s.metricRowsOf r.id)
    {o : MetricRow × ReportRow} (ho : o ∈ s.foldedFrom accumulator names r)
    (hname : o.1.spec.eventName = m.spec.eventName) : o = (m, r) := by
  have hown : (m, r) ∈ s.foldedFrom accumulator names r :=
    List.mem_append_left _ (List.mem_map_of_mem hm)
  have hsymm : Std.Symm fun o o' : MetricRow × ReportRow =>
      o.1.spec.eventName ≠ o'.1.spec.eventName := ⟨fun _ _ hne => hne.symm⟩
  by_contra hne
  exact (hs.foldedFrom_distinct accumulator names r).forall ho hown hne hname

/-- Where the session and the accumulator are as they were, so is what the session is reported
with. -/
theorem foldedFrom_same (hr : SameReport r.id s s')
    (haccumulator : ∀ a, accumulator = some a → SameReport a.id s s') (names : List String) :
    s'.foldedFrom accumulator names r = s.foldedFrom accumulator names r ∧
      ∀ o ∈ s.foldedFrom accumulator names r, s'.gatheredOf o = s.gatheredOf o := by
  have hlacks : ∀ name, s'.lacks name r.id = s.lacks name r.id := by
    intro name
    rw [lacks_eq, lacks_eq, hr.metrics]
  constructor
  · unfold foldedFrom
    rw [hr.metrics]
    cases accumulator with
    | none => rfl
    | some a => simp only [takenFrom, hlacks, (haccumulator a rfl).metric?_eq, Option.elim_some]
  · intro o ho
    obtain ⟨hx, hm⟩ := of_mem_foldedFrom ho
    have hsame : SameReport o.2.id s s' := by
      rcases hx with hx | hx
      · exact hx ▸ hr
      · exact haccumulator o.2 hx
    simp only [gatheredOf, sourceOf, timedOf, hsame.values o.1 hm]

/-- Each metric that a session is reported with is gathered with its own values. -/
theorem gathers_foldedFrom (hr : r ∈ s.reports.rows)
    (haccumulator : ∀ a, accumulator = some a → a ∈ s.reports.rows) (names : List String) :
    List.Forall₂ s.Gathers ((s.foldedFrom accumulator names r).map (.ofRow ·.1))
      ((s.foldedFrom accumulator names r).map s.gatheredOf) := by
  rw [List.forall₂_map_left_iff, List.forall₂_map_right_iff, List.forall₂_same]
  intro o ho
  obtain ⟨hx, hm⟩ := of_mem_foldedFrom ho
  obtain ⟨hm, hreport⟩ := mem_metricRowsOf.1 hm
  have hx : o.2 ∈ s.reports.rows := by
    rcases hx with hx | hx
    · exact hx ▸ hr
    · exact haccumulator o.2 hx
  exact gathers_single hm hx hreport

end Store

/-! ### The stage with what it gathers -/

/-- The report on a session with what was gathered for it. -/
def CollectRequest.reportOn (request : CollectRequest) (r : ReportRow)
    (gathered : List Gathered) : MetricReport :=
  let w : Window := ⟨r.startMs, r.endMs.getD request.nowMs⟩
  (request.derived
    ((MetricReport.empty .session r.name w r.softwareVersion).withGathered w gathered)).1

/-- The groups of a session and the report that is made of them. -/
def Store.sessionResult (s : Store) (request : CollectRequest) (accumulator : Option ReportRow)
    (r : ReportRow) : List MetricGroup × MetricReport :=
  let folded := s.foldedFrom accumulator request.sessionDailyMetrics r
  (folded.map (.ofRow ·.1), request.reportOn r (folded.map s.gatheredOf))

theorem Store.sessionResult_same {s s' : Store} {accumulator : Option ReportRow} {r : ReportRow}
    (hr : SameReport r.id s s') (haccumulator : ∀ a, accumulator = some a → SameReport a.id s s')
    (request : CollectRequest) :
    s'.sessionResult request accumulator r = s.sessionResult request accumulator r := by
  obtain ⟨hfolded, hgathered⟩ := foldedFrom_same hr haccumulator request.sessionDailyMetrics
  simp only [sessionResult, hfolded, List.map_congr_left hgathered]

namespace Collecting

variable {settings : Settings} {request : CollectRequest} {accumulator : Option ReportRow}
  {r : ReportRow} {p : Progress}

/-- Reports on an ended session, tells its groups as well, and deletes it. -/
def sessionGrouped (settings : Settings) (request : CollectRequest)
    (accumulator : Option ReportRow) (r : ReportRow) :
    Collecting (List MetricGroup × MetricReport) := do
  let groups ← sessionGroups request accumulator r
  let w : Window := ⟨r.startMs, r.endMs.getD request.nowMs⟩
  let report ← summarize settings .session r.name w groups r.softwareVersion
  let (report, _) ← derive request report
  run (Transaction.change (·.deleteReport r.id))
  pure (groups, report)

def sessionReportsGrouped (settings : Settings) (request : CollectRequest)
    (accumulator : Option ReportRow) : List ReportRow →
      Collecting (List (List MetricGroup × MetricReport))
  | [] => pure []
  | r :: rs => do
    let result ← sessionGrouped settings request accumulator r
    let rest ← sessionReportsGrouped settings request accumulator rs
    pure (result :: rest)

/-- The session stage, which tells the groups of each session as well. -/
def sessionsGrouped (settings : Settings) (request : CollectRequest) :
    Collecting (List (List MetricGroup × MetricReport)) := do
  endDue settings request
  let accumulator ← dailyAccumulator request
  let ended ← ask (·.endedReports .session)
  sessionReportsGrouped settings request accumulator ended

theorem map_sessionGrouped (settings : Settings) (request : CollectRequest)
    (accumulator : Option ReportRow) (r : ReportRow) :
    (·.2) <$> sessionGrouped settings request accumulator r =
      session settings request accumulator r := by
  simp [sessionGrouped, session]

theorem map_sessionReportsGrouped (settings : Settings) (request : CollectRequest)
    (accumulator : Option ReportRow) (rs : List ReportRow) :
    (·.map (·.2)) <$> sessionReportsGrouped settings request accumulator rs =
      sessionReports settings request accumulator rs := by
  induction rs with
  | nil => rfl
  | cons r rs ih =>
    simp [sessionReportsGrouped, sessionReports, ← ih, ← map_sessionGrouped]

/-- The session stage hands out the reports and keeps the groups to itself. -/
theorem map_sessionsGrouped (settings : Settings) (request : CollectRequest) :
    (·.map (·.2)) <$> sessionsGrouped settings request = sessions settings request := by
  simp [sessions_eq, sessionsGrouped, ← map_sessionReportsGrouped]

/-! ### What the stage comes to -/

/-- The groups are searched for a name as the metrics are. -/
theorem addDailyGroups_yields (hs : p.store.Undamaged) (a : ReportRow) (names : List String) :
    ∀ rows : List MetricRow, Yields (addDailyGroups a.id names (rows.map .ofRow)) p
      ((names.foldl (addMissing (·.spec.eventName) (p.store.metric? a.id)) rows).map .ofRow) p := by
  induction names with
  | nil => exact fun _ => yields_pure.2 ⟨rfl, rfl⟩
  | cons name names ih =>
    intro rows
    have hany : (rows.map MetricGroup.ofRow).any (fun g => g.spec.eventName == name) =
        rows.any fun m => m.spec.eventName == name := List.any_map
    rw [List.foldl_cons, addDailyGroups, hany, addMissing]
    split
    · exact ih rows
    · have hfind : p.store.findMetric? a.id name = .ok (p.store.metric? a.id name) :=
        Store.findMetric?_eq hs a.id name
      refine yields_bind.2 ⟨_, p, yields_ask.2 ⟨hfind, rfl⟩, ?_⟩
      cases p.store.metric? a.id name with
      | none => simpa using ih rows
      | some m => simpa using ih (rows ++ [m])

/-- The groups of a session are those of the metrics that it is reported with. -/
theorem sessionGroups_folds (hs : p.store.Undamaged) (accumulator : Option ReportRow)
    (r : ReportRow) :
    Attains (sessionGroups request accumulator r) p fun groups p' => p.SeenAs p' ∧
      groups = (p.store.foldedFrom accumulator request.sessionDailyMetrics r).map (.ofRow ·.1) := by
  refine attains_bind ((metricsOf_attains hs r.id).imp fun rows p₁ h₁ => ?_)
  obtain ⟨rfl, hseen⟩ := h₁
  cases accumulator with
  | none => exact attains_pure ⟨hseen, by simp [Store.foldedFrom]⟩
  | some a =>
    refine ⟨_, p₁, addDailyGroups_yields (hseen.store.undamaged hs) a
      request.sessionDailyMetrics _, hseen, ?_⟩
    have hmetrics : p₁.store.metric? a.id = p.store.metric? a.id := by
      funext name
      exact (hseen.store.sameReport a.id).metric?_eq name
    rw [hmetrics, Store.foldl_addMissing_metrics, Store.foldedFrom, List.map_append,
      List.map_append, List.map_map, Option.elim_some, List.map_map]
    rfl

theorem sessionGrouped_attains (hs : p.store.Consistent) (hwritable : p.store.readOnly = false)
    (haccumulator : ∀ a, accumulator = some a → a ∈ p.store.reports.rows)
    (hr : r ∈ p.store.reports.rows) :
    Attains (sessionGrouped settings request accumulator r) p fun result p' =>
      result = p.store.sessionResult request accumulator r ∧
        (p.store.without [r.id]).SeenAs p'.store := by
  refine attains_bind ((sessionGroups_folds hs.undamaged accumulator r).imp
    fun groups p₁ h₁ => ?_)
  obtain ⟨hseen₁, rfl⟩ := h₁
  have hgathers := Store.gathers_foldedFrom hr haccumulator request.sessionDailyMetrics
  have hgathers₁ := hgathers.imp fun _ _ hg => hg.seenAs hseen₁.store
  have hs₁ := hseen₁.store.consistent hs
  refine attains_bind ((summarize_attains hgathers₁ hs₁ settings .session r.name _ _).imp
    fun report p₂ h₂ => ?_)
  obtain ⟨rfl, hseen₂⟩ := h₂
  refine attains_bind ((derive_attains request _ p₂).imp fun result p₃ h₃ => ?_)
  obtain ⟨rfl, hseen₃⟩ := h₃
  have hseen := ((hseen₁.trans hseen₂).trans hseen₃).store
  have hs₃ := hseen.undamaged hs.undamaged
  have hwritable₃ : p₃.store.readOnly = false := hseen.readOnly_eq.trans hwritable
  obtain ⟨s₄, hdelete⟩ := Store.deleteReport_ok hs₃ hwritable₃ r.id
  refine attains_bind (attains_run ⟨(), s₄, Transaction.yields_change.2 hdelete, ?_⟩)
  obtain rfl := Store.deleteReport_without hs₃ hdelete
  exact attains_pure ⟨rfl, Store.without_seenAs hseen _⟩

/-- What the sessions are reported with does not depend on those that were reported before. -/
theorem sessionReportsGrouped_attains (rs : List ReportRow) :
    ∀ {p : Progress} {accumulator : Option ReportRow}, p.store.Consistent →
      p.store.readOnly = false → p.store.Reportable accumulator rs →
      Attains (sessionReportsGrouped settings request accumulator rs) p fun results p' =>
        results = rs.map (p.store.sessionResult request accumulator) ∧
          (p.store.without (rs.map (·.id))).SeenAs p'.store := by
  induction rs with
  | nil =>
    intro p accumulator _ _ _
    exact attains_pure ⟨rfl, by simpa using Store.SeenAs.refl p.store⟩
  | cons r rs ih =>
    intro p accumulator hs hwritable hrs
    refine attains_bind ((sessionGrouped_attains hs hwritable (fun a ha => (hrs.accumulator a ha).1)
      (hrs.sessions r List.mem_cons_self).1).imp fun result p₁ h₁ => ?_)
    obtain ⟨rfl, hseen₁⟩ := h₁
    have hs₁ := hseen₁.consistent (hs.without [r.id])
    have hwritable₁ : p₁.store.readOnly = false := hseen₁.readOnly_eq.trans hwritable
    obtain ⟨hrs₁, hdaily, hothers⟩ := hrs.tail hs hseen₁
    refine attains_bind ((ih hs₁ hwritable₁ hrs₁).imp fun results p₂ h₂ => ?_)
    obtain ⟨rfl, hseen₂⟩ := h₂
    refine attains_pure ⟨?_, ?_⟩
    · rw [List.map_cons]
      refine congrArg _ (List.map_congr_left fun x hx => ?_)
      exact Store.sessionResult_same (hothers x hx) hdaily request
    · have hboth := (Store.without_seenAs hseen₁ (rs.map (·.id))).trans hseen₂
      rwa [Store.without_append, List.singleton_append] at hboth

theorem dailyAccumulator_yields (hs : p.store.Undamaged) :
    Yields (dailyAccumulator request) p
      (if request.sessionDailyMetrics.isEmpty then none else p.store.daily?) p := by
  unfold dailyAccumulator
  split
  · exact yields_pure.2 ⟨rfl, rfl⟩
  · exact yields_ask.2 ⟨Store.openReport?_eq hs _ _, rfl⟩

end Collecting

/-- Without names it does not matter whether there is an accumulator. -/
theorem Store.sessionResult_noNames (s : Store) (request : CollectRequest)
    (accumulator : Option ReportRow) (r : ReportRow) :
    s.sessionResult request (if request.sessionDailyMetrics.isEmpty then none else accumulator) r =
      s.sessionResult request accumulator r := by
  split
  · next hempty =>
    unfold sessionResult foldedFrom
    rw [List.isEmpty_iff.1 hempty]
    cases accumulator <;> rfl
  · rfl

/-- It does not matter either whether the sessions have been ended. -/
theorem Store.sessionResult_endingDue (s : Store) (settings : Settings) (request : CollectRequest)
    (accumulator : Option ReportRow) (r : ReportRow) :
    (s.endingDue settings request).sessionResult request accumulator (r.endedBy request.nowMs) =
      s.sessionResult request accumulator r := by
  unfold sessionResult foldedFrom
  simp only [List.map_append, List.map_map]
  rfl

namespace Collecting

variable {settings : Settings} {request : CollectRequest} {p p' : Progress}
  {results : List (List MetricGroup × MetricReport)}

/-- The session stage succeeds where the store can be written. -/
theorem sessionsGrouped_attains (hs : p.store.Consistent) (hwritable : p.store.readOnly = false)
    (settings : Settings) (request : CollectRequest) :
    Attains (sessionsGrouped settings request) p fun results p' =>
      results = (p.store.dueSessions settings request).map
          (p.store.sessionResult request p.store.daily?) ∧
        (p.store.without ((p.store.dueSessions settings request).map (·.id))).SeenAs p'.store := by
  refine attains_bind ((endDue_attains hs hwritable).imp fun _ p₁ h₁ => ?_)
  obtain ⟨hstore, hs₁⟩ := h₁
  have hdaily : p₁.store.daily? = p.store.daily? := by
    rw [hstore]
    exact daily_endingDue p.store
  refine attains_bind ⟨_, p₁, dailyAccumulator_yields hs₁.undamaged, ?_⟩
  rw [hdaily]
  have hask : p₁.store.endedReports .session =
      .ok ((p.store.dueSessions settings request).map (·.endedBy request.nowMs)) := by
    rw [Store.endedReports_eq hs₁.undamaged, hstore, Store.ended_endingDue]
  refine attains_bind (attains_ask hask ?_)
  have hwritable₁ : p₁.store.readOnly = false := by
    rw [hstore]
    exact hwritable
  have haccumulator : ∀ a, (if request.sessionDailyMetrics.isEmpty then none else p.store.daily?) =
      some a → a ∈ p₁.store.reports.rows ∧ a.kind ≠ .session := by
    intro a ha
    split at ha
    · cases ha
    · obtain ⟨ha, hkind⟩ := Store.of_daily? (hdaily.trans ha)
      exact ⟨ha, by simp [hkind]⟩
  have hrs := hs.reportable_due settings request (hstore ▸ haccumulator)
  have hids : ((p.store.dueSessions settings request).map (·.endedBy request.nowMs)).map (·.id) =
      (p.store.dueSessions settings request).map (·.id) := List.map_map
  refine (sessionReportsGrouped_attains _ hs₁ hwritable₁ (hstore ▸ hrs)).imp
    fun results p' h => ?_
  obtain ⟨rfl, hseen⟩ := h
  rw [hids, hstore, Store.endingDue_without] at hseen
  refine ⟨?_, hseen⟩
  rw [List.map_map, hstore]
  refine List.map_congr_left fun r _ => ?_
  rw [Function.comp_apply, Store.sessionResult_noNames, Store.sessionResult_endingDue]

/-- The sessions were reported with metrics of the daily accumulator for the names of the request
that they had none of themselves, and nothing but sessions has changed. -/
structure FoldsIn (settings : Settings) (request : CollectRequest) (p p' : Progress)
    (results : List (List MetricGroup × MetricReport)) : Prop where
  groups : results.map (·.1) = (p.store.dueSessions settings request).map fun r =>
    (p.store.foldedFor request.sessionDailyMetrics r).map (.ofRow ·.1)
  distinct : ∀ x ∈ results, x.1.Pairwise fun g g' => g.spec.eventName ≠ g'.spec.eventName
  /-- Of a name that a session has it is reported with its own metric, and so its own values. -/
  own : ∀ r ∈ p.store.dueSessions settings request, ∀ m ∈ p.store.metricRowsOf r.id,
    ∀ o ∈ p.store.foldedFor request.sessionDailyMetrics r,
      o.1.spec.eventName = m.spec.eventName → o = (m, r)
  reports : results.map (·.2) = (p.store.dueSessions settings request).map fun r =>
    request.reportOn r ((p.store.foldedFor request.sessionDailyMetrics r).map p.store.gatheredOf)
  others : ∀ x ∈ p.store.reports.rows, x.kind ≠ .session →
    x ∈ p'.store.reports.rows ∧ Store.SameReport x.id p.store p'.store

theorem foldsIn_of_results (hs : p.store.Consistent)
    (hresults : results = (p.store.dueSessions settings request).map
      (p.store.sessionResult request p.store.daily?))
    (hseen : (p.store.without ((p.store.dueSessions settings request).map (·.id))).SeenAs
      p'.store) : FoldsIn settings request p p' results where
  groups := by
    rw [hresults, List.map_map]
    rfl
  distinct := by
    intro x hx
    rw [hresults] at hx
    obtain ⟨r, -, rfl⟩ := List.mem_map.1 hx
    exact List.pairwise_map.2 (hs.foldedFrom_distinct _ _ r)
  own := fun r _ m hm o ho hname => hs.foldedFrom_own hm ho hname
  reports := by
    rw [hresults, List.map_map]
    rfl
  others := by
    intro x hx hkind
    have hnot : x.id ∉ (p.store.dueSessions settings request).map (·.id) := by
      intro hid
      obtain ⟨r, hr, heq⟩ := List.mem_map.1 hid
      obtain ⟨hr, hdue⟩ := Store.mem_dueSessions.1 hr
      rw [hs.report_eq hr hx heq] at hdue
      exact hkind (Store.of_isDue hdue)
    exact hs.stays hseen hx hnot

end Collecting

/-- At any time the session stage reports on each session that is due with its own metrics, and with
those of the daily accumulator that are asked for by name and that it does not have; the accumulator
stays as it was.  A name that is repeated, that the session has or that the accumulator lacks makes
no difference to the report. -/
theorem Engine.sessions_foldIn {e : Engine} (he : e.Reachable) {p : Progress}
    (hp : Store.Steps .everything e.store p.store) (settings : Settings)
    (request : CollectRequest) :
    ∃ results p', Yields (Collecting.sessionsGrouped settings request) p results p' ∧
      Yields (Collecting.sessions settings request) p (results.map (·.2)) p' ∧
      Collecting.FoldsIn settings request p p' results ∧
      ∀ before name after, request.sessionDailyMetrics = before ++ name :: after →
        ∃ reports p'', Yields (Collecting.sessions settings
            (request.withSessionDailyMetrics (before ++ after))) p reports p'' ∧
          ∀ i : Nat, (∀ r, (p.store.dueSessions settings request)[i]? = some r →
            p.store.AddsNothing before name r.id) → reports[i]? = (results.map (·.2))[i]? := by
  have hs : p.store.Consistent := hp.consistent he.consistent
  have hwritable : p.store.readOnly = false := hp.readOnly_eq.trans he.readOnly_eq
  obtain ⟨results, p', hyields, hresults, hseen⟩ :=
    Collecting.sessionsGrouped_attains hs hwritable settings request
  have hfolds := Collecting.foldsIn_of_results hs hresults hseen
  refine ⟨results, p', hyields, ?_, hfolds, fun before name after hnames => ?_⟩
  · rw [← Collecting.map_sessionsGrouped]
    exact yields_map.2 ⟨results, hyields, rfl⟩
  obtain ⟨results', p'', hyields', hresults', hseen'⟩ := Collecting.sessionsGrouped_attains hs
    hwritable settings (request.withSessionDailyMetrics (before ++ after))
  have hfolds' := Collecting.foldsIn_of_results hs hresults' hseen'
  refine ⟨results'.map (·.2), p'', ?_, fun i hnothing => ?_⟩
  · rw [← Collecting.map_sessionsGrouped]
    exact yields_map.2 ⟨results', hyields', rfl⟩
  · have hdue : p.store.dueSessions settings (request.withSessionDailyMetrics (before ++ after)) =
        p.store.dueSessions settings request := rfl
    rw [hfolds.reports, hfolds'.reports, hdue, List.getElem?_map, List.getElem?_map, hnames]
    cases hr : (p.store.dueSessions settings request)[i]? with
    | none => rfl
    | some r =>
      rw [Option.map_some, Option.map_some, (hnothing r hr).foldedFor_eq]
      rfl

/-- A session has a metric of one of four names and the daily accumulator of two; asking for the
second one twice makes no difference. -/
theorem Engine.sessions_foldIn_heat :
    let e := (⟨default, none, .empty⟩ : Engine).run
      [.startSession "evening" 1, .add (MetricSample.of "light" 4 (.bool true)),
        .add { MetricSample.of "heat" 5 (.bool true) with reportKind := .daily },
        .add { MetricSample.of "light" 6 (.bool false) with reportKind := .daily }]
    let request := (CollectRequest.atTime 9).endingSessions
    let p : Progress := ⟨e.store, default, []⟩
    ∃ results p' p'', Yields (Collecting.sessionsGrouped default
          (request.withSessionDailyMetrics ["light", "heat", "rain", "heat"])) p results p' ∧
      (results.map (·.1)).map (·.map (·.spec.eventName)) = [["light", "heat"]] ∧
      (∀ x ∈ p.store.reports.rows, x.kind ≠ .session → Store.SameReport x.id p.store p'.store) ∧
      Yields (Collecting.sessions default
        (request.withSessionDailyMetrics ["light", "heat", "rain"])) p (results.map (·.2)) p'' := by
  intro e request p
  have he : e.Reachable := ⟨default, none, ⟨default, none, .empty⟩, _, rfl, rfl⟩
  have hfolded : (e.store.dueSessions default
      (request.withSessionDailyMetrics ["light", "heat", "rain", "heat"])).map (fun r =>
        (e.store.foldedFor ["light", "heat", "rain", "heat"] r).map (·.1.spec.eventName)) =
      [["light", "heat"]] := by
    decide +kernel
  -- nothing more is to be computed
  clear_value e
  obtain ⟨results, p', hyields, -, hfolds, hnames⟩ := sessions_foldIn he (p := p) .refl default
    (request.withSessionDailyMetrics ["light", "heat", "rain", "heat"])
  obtain ⟨reports, p'', hreports, hsame⟩ := hnames ["light", "heat", "rain"] "heat" [] rfl
  obtain rfl : reports = results.map (·.2) :=
    List.ext_getElem? fun i => hsame i fun r _ => .inl (by decide)
  refine ⟨results, p', p'', hyields, ?_, fun x hx hkind => (hfolds.others x hx hkind).2, hreports⟩
  rw [hfolds.groups, ← hfolded, List.map_map]
  refine List.map_congr_left fun r _ => ?_
  rw [Function.comp_apply, List.map_map]
  rfl

end Telemetry
