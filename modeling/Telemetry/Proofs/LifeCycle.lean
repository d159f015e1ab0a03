import Telemetry.Proofs.Runs

/-!
# The life of a row

A row is added once, under an id of its own, and may be removed once.  Between the two only an end
may come to a report and only the attributes of a metric may change, its name aside; a value never
changes.  A table gives out ids in increasing order, so an id does not come back when its row has
gone.  What a table does is described by one relation between the table before and after; it holds of
every small step, and so of every call and every part of a run.
-/

namespace Telemetry

/-! ### Rows later on -/

/-- A report later on: an end may have come to it. -/
structure ReportRow.Continues (a b : ReportRow) : Prop where
  id : b.id = a.id
  kind : b.kind = a.kind
  name : b.name = a.name
  startMs : b.startMs = a.startMs
  softwareVersion : b.softwareVersion = a.softwareVersion
  /-- An end stays as it is. -/
  endMs : a.endMs = none ∨ b.endMs = a.endMs

/-- A metric later on: its attributes may be others. -/
structure MetricRow.Continues (a b : MetricRow) : Prop where
  id : b.id = a.id
  reportId : b.reportId = a.reportId
  eventName : b.spec.eventName = a.spec.eventName

/-- A relation of a row to what becomes of it. -/
structure IsContinuation {α : Type} [Identified α] (R : α → α → Prop) : Prop where
  refl : ∀ a, R a a
  trans : ∀ {a b c}, R a b → R b c → R a c
  id : ∀ {a b}, R a b → Identified.id b = Identified.id a

theorem ReportRow.continues : IsContinuation ReportRow.Continues where
  refl _ := ⟨rfl, rfl, rfl, rfl, rfl, .inr rfl⟩
  trans := by
    intro a b c hab hbc
    refine ⟨hbc.id.trans hab.id, hbc.kind.trans hab.kind, hbc.name.trans hab.name,
      hbc.startMs.trans hab.startMs, hbc.softwareVersion.trans hab.softwareVersion, ?_⟩
    rcases hab.endMs with hopen | hend
    · exact .inl hopen
    · rw [← hend]
      exact hbc.endMs
  id h := h.id

theorem MetricRow.continues : IsContinuation MetricRow.Continues where
  refl _ := ⟨rfl, rfl, rfl⟩
  trans hab hbc :=
    ⟨hbc.id.trans hab.id, hbc.reportId.trans hab.reportId, hbc.eventName.trans hab.eventName⟩
  id h := h.id

theorem ValueRow.continues : IsContinuation (@Eq ValueRow) where
  refl _ := rfl
  trans := Eq.trans
  id h := congrArg ValueRow.id h.symm

namespace Table

variable {α : Type}

/-! ### Ids given out -/

/-- The ids that a table gives out until it has become another one. -/
def issued (t t' : Table α) : List Int :=
  (List.range (t'.lastId - t.lastId).toNat).map fun (i : Nat) => t.lastId + 1 + i

variable {t t' t'' : Table α}

theorem mem_issued {id : Int} : id ∈ t.issued t' ↔ t.lastId < id ∧ id ≤ t'.lastId := by
  simp only [issued, List.mem_map, List.mem_range]
  refine ⟨fun ⟨i, hi, hid⟩ => by omega, fun h => ⟨(id - t.lastId - 1).toNat, by omega, by omega⟩⟩

theorem issued_increasing (t t' : Table α) : (t.issued t').Pairwise (· < ·) :=
  List.pairwise_map.2 (List.pairwise_lt_range.imp fun h => by omega)

theorem issued_eq_nil (h : t'.lastId = t.lastId) : t.issued t' = [] := by
  rw [issued, h, Int.sub_self]
  rfl

theorem issued_succ (h : t'.lastId = t.lastId + 1) : t.issued t' = [t.lastId + 1] := by
  have hone : (t'.lastId - t.lastId).toNat = 1 := by omega
  rw [issued, hone]
  simp

/-- What is given out from one table to a third is what is given out on the way. -/
theorem issued_trans (h : t.lastId ≤ t'.lastId) (h' : t'.lastId ≤ t''.lastId) :
    t.issued t'' = t.issued t' ++ t'.issued t'' := by
  have hlength : (t''.lastId - t.lastId).toNat =
      (t'.lastId - t.lastId).toNat + (t''.lastId - t'.lastId).toNat := by omega
  rw [issued, hlength, List.range_add, List.map_append, List.map_map, issued, issued]
  refine congrArg _ (List.map_congr_left fun i _ => ?_)
  rw [Function.comp_apply]
  omega

/-! ### Tables later on -/

variable [Identified α] {R : α → α → Prop}

/-- A new row has the one id that is given out with it. -/
theorem issued_append (h : t.Numbered) (row : Int → α) : t.issued (t.append row) = [t.nextId] := by
  rw [issued_succ h.nextId_eq, h.nextId_eq]

/-- A table later on: rows have continued or gone, and new ones have new ids. -/
structure Continues (R : α → α → Prop) (t t' : Table α) : Prop where
  stays : ∀ a ∈ t.rows, ∀ b ∈ t'.rows, Identified.id a = Identified.id b → R a b
  fresh : ∀ b ∈ t'.rows, (∃ a ∈ t.rows, Identified.id a = Identified.id b) ∨
    Identified.id b ∈ t.issued t'
  lastId_le : t.lastId ≤ t'.lastId

namespace Continues

theorem refl (hR : IsContinuation R) (h : t.Numbered) : Continues R t t where
  stays a ha b hb hid := by
    rw [h.eq_of_id_eq ha hb hid]
    exact hR.refl b
  fresh b hb := .inl ⟨b, hb, rfl⟩
  lastId_le := le_rfl

theorem trans (hR : IsContinuation R) (ht : t.Numbered) (h : Continues R t t')
    (h' : Continues R t' t'') : Continues R t t'' where
  stays a ha c hc hid := by
    rcases h'.fresh c hc with ⟨b, hb, hbc⟩ | hnew
    · exact hR.trans (h.stays a ha b hb (hid.trans hbc.symm)) (h'.stays b hb c hc hbc)
    · -- a new id is none of the old ones
      have hgiven := ht.given a ha
      have hlt := (mem_issued.1 hnew).1
      have hle := h.lastId_le
      omega
  fresh c hc := by
    rw [issued_trans h.lastId_le h'.lastId_le, List.mem_append]
    rcases h'.fresh c hc with ⟨b, hb, hbc⟩ | hnew
    · rw [← hbc]
      exact (h.fresh b hb).imp_right .inl
    · exact .inr (.inr hnew)
  lastId_le := h.lastId_le.trans h'.lastId_le

theorem append (hR : IsContinuation R) (h : t.Numbered) {row : Int → α}
    (hrow : ∀ id, Identified.id (row id) = id) : Continues R t (t.append row) where
  stays a ha b hb hid := by
    rcases List.mem_append.1 hb with hb | hb
    · exact (refl hR h).stays a ha b hb hid
    · have hlt := h.lt_nextId ha
      rw [hid, List.mem_singleton.1 hb, hrow] at hlt
      exact absurd hlt (lt_irrefl _)
  fresh b hb := by
    rcases List.mem_append.1 hb with hb | hb
    · exact .inl ⟨b, hb, rfl⟩
    · rw [List.mem_singleton.1 hb, hrow, issued_append h]
      exact .inr (List.mem_singleton.2 rfl)
  lastId_le := by
    change t.lastId ≤ t.nextId
    rw [h.nextId_eq]
    omega

theorem skip (hR : IsContinuation R) (h : t.Numbered) : Continues R t t.skip where
  stays := (refl hR h).stays
  fresh b hb := .inl ⟨b, hb, rfl⟩
  lastId_le := by
    change t.lastId ≤ t.nextId
    rw [h.nextId_eq]
    omega

theorem update (hR : IsContinuation R) (h : t.Numbered) {selected : α → Bool} {change : α → α}
    (hchange : ∀ a ∈ t.rows, selected a = true → R a (change a)) :
    Continues R t (t.update selected change) := by
  have hcontinues : ∀ a ∈ t.rows, R a (if selected a = true then change a else a) := by
    intro a ha
    split
    · next hsel => exact hchange a ha hsel
    · exact hR.refl a
  refine ⟨fun a ha b hb hid => ?_, fun b hb => ?_, le_rfl⟩
  · obtain ⟨x, hx, rfl⟩ := List.mem_map.1 hb
    rw [hR.id (hcontinues x hx)] at hid
    rw [h.eq_of_id_eq ha hx hid]
    exact hcontinues x hx
  · obtain ⟨x, hx, rfl⟩ := List.mem_map.1 hb
    exact .inl ⟨x, hx, (hR.id (hcontinues x hx)).symm⟩

theorem remove (hR : IsContinuation R) (h : t.Numbered) (selected : α → Bool) :
    Continues R t (t.remove selected) where
  stays a ha b hb hid := (refl hR h).stays a ha b (List.mem_filter.1 hb).1 hid
  fresh b hb := .inl ⟨b, (List.mem_filter.1 hb).1, rfl⟩
  lastId_le := le_rfl

/-- A row that has gone does not come back. -/
theorem gone (ht : t.Numbered) (h : Continues R t t') (h' : Continues R t' t'') {a : α}
    (ha : a ∈ t.rows) (hgone : ∀ b ∈ t'.rows, Identified.id b ≠ Identified.id a) :
    ∀ c ∈ t''.rows, Identified.id c ≠ Identified.id a := by
  intro c hc hid
  rcases h'.fresh c hc with ⟨b, hb, hbc⟩ | hnew
  · exact hgone b hb (hbc.trans hid)
  · have hgiven := ht.given a ha
    have hlt := (mem_issued.1 hnew).1
    have hle := h.lastId_le
    omega

end Continues

end Table

/-! ### Steps -/

/-- One of the tables of a store, with what becomes of its rows. -/
structure Tracked {α : Type} [Identified α] (table : Store → Table α) (R : α → α → Prop) : Prop where
  continuation : IsContinuation R
  numbered : ∀ {s : Store}, s.Consistent → (table s).Numbered
  /-- Keeping other queries prepared does nothing to a table. -/
  seen : ∀ {s s' : Store}, s.SeenAs s' → table s' = table s
  step : ∀ {scope : Scope} {s s' : Store}, Store.Step scope s s' → s.Consistent →
    (table s).Continues R (table s')

namespace Tracked

theorem reports : Tracked Store.reports ReportRow.Continues where
  continuation := ReportRow.continues
  numbered hs := hs.reportsNumbered
  seen := by
    rintro s s' ⟨kept, rfl⟩
    rfl
  step := by
    intro scope s s' h hs
    cases h with
    | start t version _ _ _ =>
      dsimp only
      exact .append ReportRow.continues hs.reportsNumbered fun _ => rfl
    | finish t h =>
      refine .update ReportRow.continues hs.reportsNumbered fun r hr hsel => ?_
      exact ⟨rfl, rfl, rfl, rfl, rfl, .inl (h r hr hsel).2.2⟩
    | removeReports _ => exact .remove ReportRow.continues hs.reportsNumbered _
    | keep | newMetric | setMetric | addValue | skipValue | removeValues | removeMetrics =>
      exact .refl ReportRow.continues hs.reportsNumbered

theorem metrics : Tracked Store.metrics MetricRow.Continues where
  continuation := MetricRow.continues
  numbered hs := hs.metricsNumbered
  seen := by
    rintro s s' ⟨kept, rfl⟩
    rfl
  step := by
    intro scope s s' h hs
    cases h with
    | newMetric _ _ _ _ =>
      dsimp only
      exact .append MetricRow.continues hs.metricsNumbered fun _ => rfl
    | setMetric _ hm hname =>
      refine .update MetricRow.continues hs.metricsNumbered fun x hx hid => ?_
      rw [hs.metric_eq hx hm (by simpa using hid)]
      exact ⟨rfl, rfl, hname⟩
    | removeMetrics _ => exact .remove MetricRow.continues hs.metricsNumbered _
    | keep | start | finish | addValue | skipValue | removeValues | removeReports =>
      exact .refl MetricRow.continues hs.metricsNumbered

theorem values : Tracked Store.values (@Eq ValueRow) where
  continuation := ValueRow.continues
  numbered hs := hs.valuesNumbered
  seen := by
    rintro s s' ⟨kept, rfl⟩
    rfl
  step := by
    intro scope s s' h hs
    cases h with
    | addValue _ _ _ _ _ =>
      dsimp only
      exact .append ValueRow.continues hs.valuesNumbered fun _ => rfl
    | skipValue => exact .skip ValueRow.continues hs.valuesNumbered
    | removeValues _ => exact .remove ValueRow.continues hs.valuesNumbered _
    | keep | start | finish | newMetric | setMetric | removeMetrics | removeReports =>
      exact .refl ValueRow.continues hs.valuesNumbered

/-! ### Calls and runs -/

variable {α : Type} [Identified α] {table : Store → Table α} {R : α → α → Prop}

theorem steps (h : Tracked table R) {scope : Scope} {s s' : Store} (hsteps : Store.Steps scope s s')
    (hs : s.Consistent) : (table s).Continues R (table s') := by
  induction hsteps with
  | refl => exact .refl h.continuation (h.numbered hs)
  | tail hsteps hstep ih =>
    exact ih.trans h.continuation (h.numbered hs) (h.step hstep (Store.Steps.consistent hsteps hs))

theorem call (h : Tracked table R) {e : Engine} (hs : e.store.Consistent) (c : Call) :
    (table e.store).Continues R (table (e.call c).2.store) :=
  h.steps (Engine.call_steps hs c) hs

theorem run (h : Tracked table R) (calls : List Call) :
    ∀ {e : Engine}, e.store.Consistent →
      (table e.store).Continues R (table (e.run calls).store) := by
  induction calls with
  | nil => exact fun hs => .refl h.continuation (h.numbered hs)
  | cons c calls ih =>
    intro e hs
    exact (h.call hs c).trans h.continuation (h.numbered hs)
      (ih ((Engine.call_steps hs c).consistent hs))

end Tracked

/-- The id that a value is recorded under is given out for it. -/
theorem Transaction.record_issued {s s' : Store} (hs : s.Consistent) {reportId t id : Int}
    {spec : MetricSpec} {version : Nat} {value : SampleValue}
    (howner : ∃ r ∈ s.reports.rows, r.id = reportId)
    (hname : spec.eventName ≠ "")
    (h : Yields (record reportId spec version t value) s (some id) s') :
    id ∈ s.values.issued s'.values := by
  obtain ⟨metricId, s₁, hput, h⟩ := yields_bind.1 h
  obtain ⟨-, -, hvalues, -⟩ :=
    putMetric_steps .everything hs howner trivial hname (yields_update.1 hput)
  obtain ⟨u, s₂, hused, h⟩ := yields_bind.1 h
  obtain ⟨kept, rfl⟩ := looks_useKept _ _ _ _ s₁ u s₂ hused
  rcases Store.insertValue_eq_ok (yields_update.1 h) with ⟨-, hnone, -⟩ | ⟨-, hid, rfl⟩
  · cases hnone
  · obtain rfl := Option.some.inj hid
    change s₁.values.nextId ∈ s.values.issued (s₁.values.append _)
    rw [hvalues, Table.issued_append hs.valuesNumbered]
    exact List.mem_singleton.2 rfl

def Reply.isError : Reply → Bool
  | .added result => !result.isOk
  | .done result => !result.isOk
  | .collected result => !result.isOk

namespace Engine

variable {e : Engine}

/-- A call that fails leaves the tables as they were. -/
theorem call_failed (hs : e.store.Undamaged) {c : Call} (h : (e.call c).1.isError = true) :
    e.store.SeenAs (e.call c).2.store := by
  have htransact : ∀ {β : Type} {condition : Except Failure Unit} {t : Transaction β},
      (!(e.transactIf condition t).1.isOk) = true →
        e.store.SeenAs (e.transactIf condition t).2.store := by
    intro β condition t herror
    rcases transactIf_cases hs condition t with ⟨a, s, hok, -⟩ | ⟨err, s, -, hseen, heq⟩
    · rw [hok] at herror
      cases herror
    · rwa [heq]
  cases c with
  | add | startSession | startSeeded | endSession => exact htransact h
  | reopen settings version => exact reopen_seenAs hs settings version
  | collect request exportName files =>
    rcases collect_cases hs request exportName files with
      ⟨report, -, -, -, -, hok, -⟩ | ⟨err, s, -, hseen, heq⟩
    · rw [call, Reply.isError, hok] at h
      cases h
    · change e.store.SeenAs (e.collect request exportName files).engine.store
      rwa [heq]

/-- The ids that a table gives out in a call. -/
def issued {α : Type} (table : Store → Table α) (e : Engine) (c : Call) : List Int :=
  (table e.store).issued (table (e.call c).2.store)

/-- The id that a sample is answered with is given out for it. -/
theorem add_issued (hs : e.store.Consistent) {sample : MetricSample} {id : Int}
    (h : (e.call (.add sample)).1 = .added (.ok (some id))) :
    id ∈ issued Store.values e (.add sample) := by
  have hadd : (e.transactIf sample.validate (.take e.softwareVersion sample)).1 = .ok (some id) :=
    Reply.added.inj h
  rcases transactIf_cases hs.undamaged sample.validate (.take e.softwareVersion sample) with
    ⟨result, s', hok, hsample, htake, heq⟩ | ⟨err, s', herror, -, -⟩
  · obtain rfl : result = some id := Except.ok.inj (hok.symm.trans hadd)
    obtain ⟨hname, hadmits⟩ := Transaction.of_validate hsample
    obtain ⟨reportId, s₁, s₂, hstart, hrecord, -, hrest⟩ := Transaction.take_cases hs hsample htake
    obtain ⟨hsteps₁, r, hr, -, rfl⟩ :=
      Transaction.openOrStart_steps .everything hs hadmits trivial hstart
    have hs₁ := hsteps₁.consistent hs
    obtain ⟨hsteps₂, -⟩ :=
      Transaction.record_steps .everything hs₁ ⟨r, hr, rfl⟩ trivial hname hrecord
    obtain ⟨hlt, hle⟩ := Table.mem_issued.1 (Transaction.record_issued hs₁ ⟨r, hr, rfl⟩ hname hrecord)
    have hbefore := (Tracked.values.steps hsteps₁ hs).lastId_le
    have hafter := (Tracked.values.steps hrest (hsteps₂.consistent hs₁)).lastId_le
    have hstore : (e.call (.add sample)).2.store.values = s'.values := congrArg (·.store.values) heq
    rw [issued, Table.mem_issued, hstore]
    exact ⟨hbefore.trans_lt hlt, hle.trans hafter⟩
  · rw [herror] at hadd
    cases hadd

end Engine

/-! ### Whole runs -/

/-- What becomes of the rows of a table in a run. -/
structure RowsLive {α : Type} [Identified α] (table : Store → Table α) (R : α → α → Prop)
    (e : Engine) (calls : List Call) : Prop where
  /-- Rows of one id, at two moments of the run, are one row. -/
  stays : ∀ before between after, calls = before ++ between ++ after →
    ∀ a ∈ (table (e.run before).store).rows, ∀ b ∈ (table (e.run (before ++ between)).store).rows,
      Identified.id a = Identified.id b → R a b
  /-- A row that has gone does not come back. -/
  gone : ∀ before between after, calls = before ++ between ++ after →
    ∀ a ∈ (table (e.run before).store).rows,
      (∀ b ∈ (table (e.run (before ++ between)).store).rows, Identified.id b ≠ Identified.id a) →
      ∀ c ∈ (table (e.run calls).store).rows, Identified.id c ≠ Identified.id a
  /-- A row that is there after a call was there before, or its id was given out in the call. -/
  fresh : ∀ before c after, calls = before ++ c :: after →
    ∀ b ∈ (table (e.run (before ++ [c])).store).rows,
      (∃ a ∈ (table (e.run before).store).rows, Identified.id a = Identified.id b) ∨
        Identified.id b ∈ Engine.issued table (e.run before) c
  /-- Ids are given out in increasing order, so none is given out twice. -/
  increasing : (Engine.gather (Engine.issued table) e calls).Pairwise (· < ·)
  /-- A call that fails gives out no id, and the table stays as it is. -/
  failed : ∀ before c after, calls = before ++ c :: after →
    ((e.run before).call c).1.isError = true →
    Engine.issued table (e.run before) c = [] ∧
      table (e.run (before ++ [c])).store = table (e.run before).store

namespace Tracked

variable {α : Type} [Identified α] {table : Store → Table α} {R : α → α → Prop}

/-- What the calls of a run give out is what the table has given out from its start to its end. -/
theorem gather_issued (h : Tracked table R) (calls : List Call) :
    ∀ {e : Engine}, e.store.Consistent →
      Engine.gather (Engine.issued table) e calls = (table e.store).issued (table (e.run calls).store) := by
  induction calls with
  | nil => exact fun _ => (Table.issued_eq_nil rfl).symm
  | cons c calls ih =>
    intro e hs
    have hs' := (Engine.call_steps hs c).consistent hs
    rw [Engine.gather, ih hs', Engine.issued,
      ← Table.issued_trans (h.call hs c).lastId_le (h.run calls hs').lastId_le]
    rfl

theorem rowsLive (h : Tracked table R) {e : Engine} (hs : e.store.Consistent) (calls : List Call) :
    RowsLive table R e calls where
  stays before between after _ a ha b hb hid := by
    rw [Engine.run_append] at hb
    exact (h.run between (Engine.run_consistent before hs)).stays a ha b hb hid
  gone before between after hcalls a ha hgone := by
    have hs₁ := Engine.run_consistent before hs
    rw [Engine.run_append] at hgone
    rw [hcalls, Engine.run_append, Engine.run_append]
    exact (h.run between hs₁).gone (h.numbered hs₁) (h.run after (Engine.run_consistent between hs₁))
      ha hgone
  fresh before c after _ b hb := by
    rw [Engine.run_append] at hb
    exact (h.call (Engine.run_consistent before hs) c).fresh b hb
  increasing := by
    rw [h.gather_issued calls hs]
    exact Table.issued_increasing _ _
  failed before c after _ herror := by
    have hseen := h.seen
      (Engine.call_failed (Engine.run_consistent before hs).undamaged herror)
    rw [Engine.run_append]
    exact ⟨Table.issued_eq_nil (congrArg Table.lastId hseen), hseen⟩

end Tracked

/-- **The life of a row.** In every run that begins with an empty store, however often that is opened
again, a report keeps its id, kind, name, start and software version, and an end that has come to it;
a metric keeps its id, report and name; a value stays as it is.  No table gives out an id twice, and
what a sample is answered with is an id given out for it. -/
theorem Engine.run_rowsLive {settings : Settings} {version : Option String} {e : Engine}
    (h : Engine.openEmpty settings version = .ok e) (calls : List Call) :
    RowsLive Store.reports ReportRow.Continues e calls ∧
      RowsLive Store.metrics MetricRow.Continues e calls ∧
      RowsLive Store.values (@Eq ValueRow) e calls ∧
      ∀ before sample after id, calls = before ++ .add sample :: after →
        ((e.run before).call (.add sample)).1 = .added (.ok (some id)) →
        id ∈ Engine.issued Store.values (e.run before) (.add sample) := by
  obtain rfl := Engine.of_openEmpty h
  have hs : (⟨settings, version, .empty⟩ : Engine).store.Consistent := Store.empty_consistent
  exact ⟨Tracked.reports.rowsLive hs calls, Tracked.metrics.rowsLive hs calls,
    Tracked.values.rowsLive hs calls, fun before sample after id _ hreply =>
      Engine.add_issued (Engine.run_consistent before hs) hreply⟩

/-- An id goes with a value that is no number, none with a sample that is refused, and ids go on once
the store is opened again; then a collection. -/
theorem Engine.run_rowsLive_collected :
    let e : Engine := ⟨default, none, .empty⟩
    let samples : List Call := [.add (.of "noise" 5 (.string "low")),
      .add (.of "noise" 6 (.number (Float.ofBits 0x7ff8000000000000))),
      .add (.of "" 7 (.string "low")), .add (.of "noise" 8 (.string "high")),
      .reopen default (some "2"), .add (.of "noise" 9 (.string "low"))]
    let calls := samples ++ [.collect (CollectRequest.atTime 10) "x" default]
    Engine.openEmpty default none = .ok e ∧
      Engine.gather (Engine.issued Store.values) e samples = [1, 2, 3, 4] ∧
      RowsLive Store.reports ReportRow.Continues e calls ∧
      RowsLive Store.metrics MetricRow.Continues e calls ∧
      RowsLive Store.values (@Eq ValueRow) e calls := by
  intro e samples calls
  have hopen : Engine.openEmpty default none = .ok e := rfl
  obtain ⟨hreports, hmetrics, hvalues, -⟩ := Engine.run_rowsLive hopen calls
  exact ⟨hopen, by decide +kernel, hreports, hmetrics, hvalues⟩

end Telemetry
