import Mathlib.Algebra.GroupWithZero.Nat
import Telemetry.Proofs.Carrying
import Telemetry.Proofs.Keys
import Telemetry.Proofs.Sampling

/-!
# How often a sample is counted

A report counts the numbers of a metric that lie in its own time, both ends included.  A sample that
is stored waits in the open accumulator until a collection counts it, so the counts of a run are paid
for by the samples that it stores.  What is carried over comes into the next accumulator besides.
Mostly it is from before that one's time and is not counted again; but where a collection finds a
number of its very own time, the copy lies at the start of the successor, and is.
-/

namespace Telemetry

/-- Is this a number from a window? -/
def Window.counts (w : Window) (v : TimedValue) : Bool :=
  v.value.asNumber?.isSome && decide (w.startMs ≤ v.timeMs) && decide (v.timeMs ≤ w.endMs)

namespace Store

/-- How many numbers of a name a collection counts. -/
def counted (s : Store) (now : Int) (name : String) : Nat :=
  s.hourly?.elim 0 fun r => (s.hourlySeries name).countP (Window.counts ⟨r.startMs, now⟩)

/-- How many numbers of a name a collection can still count, whenever it comes. -/
def pending (s : Store) (name : String) : Nat :=
  s.hourly?.elim 0 fun r => (s.hourlySeries name).countP fun v =>
    v.value.asNumber?.isSome && decide (r.startMs ≤ v.timeMs)

/-- How many numbers of a name a collection carries over that are of its very own time. -/
def recounted (s : Store) (maxAge now : Int) (name : String) : Nat :=
  (s.carried? maxAge now name).toList.countP fun v =>
    v.value.asNumber?.isSome && decide (v.timeMs = now)

/-- Is a count of the name asked for? -/
def AsksCount (s : Store) (name : String) : Prop :=
  ∃ m, s.hourlyMetric? name = some m ∧ .numeric .count ∈ m.spec.aggregations

variable {s s' : Store}

/-- Of the numbers of a window a metric's report counts those from its own time on. -/
theorem countP_numbersQuery (hs : s.Consistent) {m : MetricRow} {r : ReportRow}
    (hm : m ∈ s.metrics.rows) (hr : r ∈ s.reports.rows) (hmr : m.reportId = r.id) {g : MetricGroup}
    (hg : m.id ∈ g.metricIds) {w : Window} (hstart : w.startMs ≤ r.startMs) :
    (s.valuesOf m.id).countP (fun v =>
        v.value.asNumber?.isSome && s.admitsOwned (g.numbersQuery w) v) =
      (s.timedOf m.id).countP (Window.counts ⟨r.startMs, w.endMs⟩) := by
  rw [countP_admitsOwned hs hm hr hmr hg]
  refine List.countP_congr fun v _ => ?_
  have hadmits : admitsFrom (g.numbersQuery w) r.startMs v.timeMs = true ↔
      r.startMs ≤ v.timeMs ∧ v.timeMs ≤ w.endMs := by
    change (decide (w.startMs ≤ v.timeMs) && true && decide (v.timeMs ≤ w.endMs)
      && (false || decide (r.startMs ≤ v.timeMs))) = true ↔ _
    simp only [Bool.and_true, Bool.false_or, Bool.and_eq_true, decide_eq_true_eq]
    omega
  simp [Window.counts, hadmits, and_assoc]

theorem counted_le_pending (s : Store) (now : Int) (name : String) :
    s.counted now name ≤ s.pending name := by
  unfold counted pending
  cases s.hourly? with
  | none => exact le_rfl
  | some r =>
    refine List.countP_mono_left fun v _ hv => ?_
    simp only [Window.counts, Bool.and_eq_true] at hv
    simpa using hv.1

theorem le_of_carried? {maxAge now : Int} {name : String} {v : TimedValue}
    (h : s.carried? maxAge now name = some v) : v.timeMs ≤ now := by
  obtain ⟨m, -, hv⟩ := Option.bind_eq_some_iff.1 h
  have hmem := TimedValue.newest?_mem (Option.filter_eq_some_iff.1 hv).1
  exact of_decide_eq_true (List.mem_filter.1 hmem).2

theorem KeepsHourly.pending_eq (h : KeepsHourly s s') (name : String) :
    s'.pending name = s.pending name := by
  rw [pending, pending, h.hourly, h.series]

/-- What is stored can be counted once. -/
theorem Continues.pending_le {added : String → List TimedValue} (h : Continues s s' added)
    (name : String) : s'.pending name ≤ s.pending name + (added name).length := by
  cases hopen : s.hourly? with
  | some r =>
    rw [pending, pending, h.hourly r hopen, hopen, Option.elim_some, Option.elim_some, h.series,
      List.countP_append]
    exact Nat.add_le_add_left List.countP_le_length _
  | none =>
    have hseries : s'.hourlySeries name = added name := by
      rw [h.series, hourlySeries, hopen]
      rfl
    rw [pending, hseries]
    cases s'.hourly? with
    | none => exact Nat.zero_le _
    | some r => exact List.countP_le_length.trans (Nat.le_add_left _ _)

end Store

/-! ### One collection -/

namespace Collecting

/-- The count in an hourly report is that of the numbers in its time, if it is asked for. -/
theorem hourly_countOf {settings : Settings} {version : Option String} {request : CollectRequest}
    {exportName : String} {p p' : Progress} {report : MetricReport} {path : Option Path}
    (hs : p.store.Consistent) (hderive : request.derivation = none)
    (h : Yields (hourly settings version request exportName) p (report, path) p') (name : String) :
    report.countOf name ≤ p.store.counted request.nowMs name ∧
      (p.store.AsksCount name → report.countOf name = p.store.counted request.nowMs name) := by
  rcases hourly_cases hs h with ⟨hnone, -, rfl⟩ | ⟨r, p₁, hopen, hreport, -⟩
  · have hnone : p.store.hourly? = none := hnone
    refine ⟨Nat.zero_le _, ?_⟩
    rintro ⟨m, hm, -⟩
    rw [Store.hourlyMetric?, hnone] at hm
    cases hm
  · have hopen : p.store.hourly? = some r := hopen
    obtain ⟨hr, hkind, -, hend⟩ := Store.of_hourly? hopen
    obtain ⟨summary, s₁, s₂, hseen, hsummary, hresult, -⟩ := reportHourly_cases hs.undamaged hreport
    obtain rfl := hresult hderive
    have hs₁ := hseen.consistent ((Store.ended_steps .everything hs hr trivial (by simp [hkind]) hend
      request.nowMs).consistent hs)
    obtain ⟨kept, rfl⟩ := hseen
    have hdistinct : ((p.store.metricRowsOf r.id).map MetricGroup.ofRow).Pairwise
        fun a b => a.spec.eventName ≠ b.spec.eventName :=
      List.pairwise_map.2 (hs.metricRowsOf_distinct r.id)
    have hlacks : (MetricReport.empty .hourly none ⟨r.startMs, request.nowMs⟩
        r.softwareVersion).Lacks name := ⟨rfl, rfl⟩
    rcases MetricReport.summarize_countOf _ hdistinct hlacks hsummary with
      ⟨hnone, hnot⟩ | ⟨g, hg, hname, hcount, numbers, hnumbers, hreported⟩
    · refine ⟨hnone.countOf_eq ▸ Nat.zero_le _, ?_⟩
      rintro ⟨m, hm, hcount⟩
      obtain ⟨x, hx, -, hmem, hid, hmname, -⟩ := Store.of_hourlyMetric? hm
      obtain rfl : r = x := Option.some.inj (hopen.symm.trans hx)
      exact absurd hcount (hnot (.ofRow m)
        (List.mem_map_of_mem (Store.mem_metricRowsOf.2 ⟨hmem, hid⟩)) hmname)
    · -- the row of the report is the one that was open, with its end
      obtain ⟨m, hm, rfl⟩ := List.mem_map.1 hg
      obtain ⟨hmem, hid⟩ := Store.mem_metricRowsOf.1 hm
      have hmetric : p.store.hourlyMetric? name = some m := by
        have hfound := hs.metric?_eq hmem
        rw [Store.hourlyMetric?, hopen, Option.bind_some, ← hid, ← hname]
        exact hfound
      obtain ⟨-, -, -, -, -, -, hseries⟩ := Store.of_hourlyMetric? hmetric
      have hrow : { r with endMs := some request.nowMs } ∈
          (p.store.ended r.id request.nowMs).reports.rows := List.mem_map.2 ⟨r, hr, by simp⟩
      have hone : [m.id].Nodup := List.pairwise_singleton _ m.id
      have heq : report.countOf name = p.store.counted request.nowMs name := by
        rw [hreported, Store.count_summarizeNumbers hs₁ hone hnumbers, Store.counted, hopen,
          Option.elim_some, hseries]
        change ([m.id].map _).sum = _
        rw [List.map_singleton, List.sum_singleton]
        exact Store.countP_numbersQuery hs₁ (r := { r with endMs := some request.nowMs })
          (by exact hmem) (by exact hrow) (by exact hid) (List.mem_singleton_self m.id) le_rfl
      exact ⟨heq.le, fun _ => heq⟩

theorem others_hourly {settings : Settings} {request : CollectRequest} {hourly : MetricReport}
    {path : Option Path} {p p' : Progress} {report : CustomReport}
    (h : Yields (others settings request hourly path) p report p') : report.hourly = hourly := by
  obtain ⟨daily, p₁, -, h⟩ := yields_bind.1 h
  obtain ⟨sessions, p₂, -, h⟩ := yields_bind.1 h
  obtain ⟨u, p₃, -, h⟩ := yields_bind.1 h
  obtain ⟨rfl, -⟩ := yields_pure.1 h
  rfl

end Collecting

/-! ### Runs -/

/-- Does the call derive further entries? -/
def Call.derives : Call → Bool
  | .collect request _ _ => request.derivation.isSome
  | _ => false

/-- The count of a name in the hourly report that a call gave. -/
def reported (name : String) : Call × Reply → Nat
  | (.collect .., .collected (.ok report)) => report.hourly.countOf name
  | _ => 0

namespace Engine

/-- How many numbers of a name a call carries over that are of its very own time. -/
def recountedBy (e : Engine) (name : String) : Call → Nat
  | .collect request exportName files =>
    match (e.collect request exportName files).result with
    | .ok _ => e.store.recounted e.settings.retention.carryOverMaxAge request.nowMs name
    | .error _ => 0
  | _ => 0

def recounts (name : String) : Engine → List Call → Nat
  | _, [] => 0
  | e, c :: calls => e.recountedBy name c + recounts name (e.call c).2 calls

variable {e : Engine} {request : CollectRequest} {exportName : String} {files : Files}
  {report : CustomReport}

theorem collect_countOf (hs : e.store.Consistent) (hderive : request.derivation = none)
    (h : (e.collect request exportName files).result = .ok report) (name : String) :
    report.hourly.countOf name ≤ e.store.counted request.nowMs name ∧
      (e.store.AsksCount name →
        report.hourly.countOf name = e.store.counted request.nowMs name) := by
  obtain ⟨report', hourly, path, p₁, p₂, hok, hhourly, hothers, -⟩ | ⟨err, s, herr, -⟩ :=
    collect_cases hs.undamaged request exportName files
  · obtain rfl : report' = report := by simpa [hok] using h
    rw [Collecting.others_hourly hothers]
    exact Collecting.hourly_countOf hs hderive hhourly name
  · rw [herr] at h
    cases h

/-- After a collection nothing can be counted but what was carried over from its very own time. -/
theorem collect_pending (hs : e.store.Consistent)
    (h : (e.collect request exportName files).result = .ok report) (name : String) :
    (e.collect request exportName files).engine.store.pending name =
      e.store.recounted e.settings.retention.carryOverMaxAge request.nowMs name := by
  obtain ⟨-, hstart, hseries⟩ := collect_series hs h
  have hcarried := hseries name
  rw [Store.pending, Store.recounted]
  cases hopen : (e.collect request exportName files).engine.store.hourly? with
  | none =>
    rw [← hcarried, Store.hourlySeries, hopen]
    rfl
  | some r =>
    rw [Option.elim_some, hcarried, hstart r hopen]
    refine List.countP_congr fun v hv => ?_
    have hle := Store.le_of_carried? (Option.mem_toList.1 hv)
    simp only [Bool.and_eq_true, decide_eq_true_eq]
    exact and_congr_right fun _ => ⟨fun hge => le_antisymm hle hge, fun heq => heq.ge⟩

/-- What a call counts was pending or is stored by it, and nothing of that stays pending. -/
theorem call_balance (hs : e.store.Consistent) {c : Call} (hc : c.derives = false)
    (name : String) :
    reported name (c, (e.call c).1) + (e.call c).2.store.pending name ≤
      e.store.pending name + (stored? name (c, (e.call c).1)).toList.length +
        e.recountedBy name c := by
  cases hcollect : c.isCollect with
  | false =>
    have hpending := (call_continues hs hcollect).pending_le name
    have hreported : reported name (c, (e.call c).1) = 0 := by
      cases c with
      | collect request exportName files => cases hcollect
      | add | startSession | startSeeded | endSession | reopen => rfl
    omega
  | true =>
    cases c with
    | add | startSession | startSeeded | endSession | reopen => cases hcollect
    | collect request exportName files =>
    have hderive : request.derivation = none := by simpa [Call.derives] using hc
    change reported name (_, .collected (e.collect request exportName files).result) +
      (e.collect request exportName files).engine.store.pending name ≤ _
    cases hresult : (e.collect request exportName files).result with
    | ok report =>
      have hcount := (collect_countOf hs hderive hresult name).1
      have hpending := e.store.counted_le_pending request.nowMs name
      rw [collect_pending hs hresult]
      simp only [reported, recountedBy, hresult]
      omega
    | error err =>
      obtain ⟨_, _, _, _, _, hok, -⟩ | ⟨_, s, -, hseen, heq⟩ :=
        collect_cases hs.undamaged request exportName files
      · rw [hok] at hresult
        cases hresult
      · rw [heq]
        have hpending := hseen.keepsHourly.pending_eq name
        simp only [reported, recountedBy, hresult]
        omega

/-- The counts of a run are paid for by what it stores and what it carries over from the very times
of its collections. -/
theorem run_balance (calls : List Call) (name : String) :
    ∀ {e : Engine}, e.store.Consistent → (∀ c ∈ calls, c.derives = false) →
      ((e.trace calls).map (reported name)).sum + (e.run calls).store.pending name ≤
        e.store.pending name + (storedIn name (e.trace calls)).length + recounts name e calls := by
  induction calls with
  | nil =>
    intro e _ _
    simp [trace, run, storedIn, recounts]
  | cons c calls ih =>
    intro e hs hcalls
    have hcall := call_balance hs (hcalls c (by simp)) name
    have hrest := ih ((call_steps hs c).consistent hs) fun c' hc' => hcalls c' (by simp [hc'])
    have hstored : (storedIn name (e.trace (c :: calls))).length =
        (stored? name (c, (e.call c).1)).toList.length +
          (storedIn name ((e.call c).2.trace calls)).length := by
      rw [storedIn, trace, List.filterMap_cons]
      cases stored? name (c, (e.call c).1) with
      | none => simp [storedIn]
      | some v => simp [storedIn, Nat.add_comm]
    rw [trace, List.map_cons, List.sum_cons, run, recounts]
    rw [trace] at hstored
    omega

/-- What the next collection counts: what was stored for its time, and what was carried over if that
is a number of the very time of the collection before. -/
theorem recollect_countOf (hs : e.store.Consistent)
    (h : (e.collect request exportName files).result = .ok report) {name : String}
    {v : TimedValue} (hv : e.store.carried? e.settings.retention.carryOverMaxAge request.nowMs name =
      some v) {calls : List Call} (hcalls : ∀ c ∈ calls, c.isCollect = false)
    {request' : CollectRequest} {exportName' : String} {files' : Files} {report' : CustomReport}
    (hderive : request'.derivation = none)
    (h' : ((e.run (.collect request exportName files :: calls)).collect request' exportName'
      files').result = .ok report')
    (hasks : (e.run (.collect request exportName files :: calls)).store.AsksCount name) :
    report'.hourly.countOf name =
      (if v.value.asNumber?.isSome ∧ v.timeMs = request.nowMs ∧ request.nowMs ≤ request'.nowMs
        then 1 else 0) +
      (storedIn name (e.trace (.collect request exportName files :: calls))).countP
        (Window.counts ⟨request.nowMs, request'.nowMs⟩) := by
  obtain ⟨hs₁, hstart, hseries⟩ := collect_series hs h
  have hcarried := hseries name
  rw [hv, Option.toList_some] at hcarried
  obtain ⟨m, hm⟩ := Store.hourlyMetric?_of_series (by rw [hcarried]; simp)
  obtain ⟨r, hopen, -⟩ := Store.of_hourlyMetric? hm
  have hrun := run_continues calls (e := (e.collect request exportName files).engine) hs₁ hcalls
  have hopen' : (e.run (.collect request exportName files :: calls)).store.hourly? = some r :=
    hrun.hourly r hopen
  have hseries' : (e.run (.collect request exportName files :: calls)).store.hourlySeries name =
      [v] ++ storedIn name (e.trace (.collect request exportName files :: calls)) :=
    hcarried ▸ hrun.series name
  rw [(collect_countOf (run_consistent _ hs) hderive h' name).2 hasks, Store.counted, hopen',
    Option.elim_some, hseries', hstart r hopen, List.countP_append, List.countP_singleton]
  congr 1
  -- what is carried over is not from after the first collection
  have hle := Store.le_of_carried? hv
  refine if_congr ?_ rfl rfl
  simp only [Window.counts, Bool.and_eq_true, decide_eq_true_eq, and_assoc]
  exact and_congr_right fun _ => ⟨fun hin => ⟨le_antisymm hle hin.1, hin.1.trans hin.2⟩,
    fun heq => ⟨heq.1.ge, heq.1.le.trans heq.2⟩⟩

/-- The counts of a run are at most what it stored, and one more for each collection that carries
over a number of its very own time.  For such a number, and for no other, the next collection counts
one more than was stored for its time. -/
theorem run_counts {settings : Settings} {version : Option String} {e₀ : Engine}
    (hopen : Engine.openEmpty settings version = .ok e₀) (calls : List Call)
    (hderive : ∀ c ∈ calls, c.derives = false) (name : String) :
    ((e₀.trace calls).map (reported name)).sum ≤
      (storedIn name (e₀.trace calls)).length + recounts name e₀ calls ∧
    ∀ request exportName files report v more request' exportName' files' report',
      let e := e₀.run calls
      let cut := .collect request exportName files :: more
      (e.collect request exportName files).result = .ok report →
      e.store.carried? e.settings.retention.carryOverMaxAge request.nowMs name = some v →
      (∀ c ∈ more, c.isCollect = false) → request'.derivation = none →
      ((e.run cut).collect request' exportName' files').result = .ok report' →
      (e.run cut).store.AsksCount name →
      report'.hourly.countOf name =
        (if v.value.asNumber?.isSome ∧ v.timeMs = request.nowMs ∧ request.nowMs ≤ request'.nowMs
          then 1 else 0) +
        (storedIn name (e.trace cut)).countP (Window.counts ⟨request.nowMs, request'.nowMs⟩) := by
  obtain rfl := of_openEmpty hopen
  have hempty : (⟨settings, version, .empty⟩ : Engine).store.pending name = 0 := rfl
  have hbalance := run_balance calls name (e := ⟨settings, version, .empty⟩)
    Store.empty_consistent hderive
  refine ⟨by omega, ?_⟩
  intro request exportName files report v more request' exportName' files' report' e cut hcollect
    hcarried hmore hderive' hcollect' hasks
  exact recollect_countOf (run_consistent calls Store.empty_consistent) hcollect hcarried hmore
    hderive' hcollect' hasks

def loadAt (t : Int) : MetricSample :=
  { MetricSample.of "load" t (.number 1.0) with
    aggregations := [.numeric .count], carryOver := true }

/-- One sample, of the very time of the first collection, is counted by both. -/
theorem run_counts_load :
    let e₀ : Engine := ⟨default, none, .empty⟩
    let first := (CollectRequest.atTime 100).daily false
    let second := (CollectRequest.atTime 200).daily false
    let calls := [.add (loadAt 100), .collect first "x" default, .collect second "y" default]
    let cut := (e₀.run [.add (loadAt 100)]).run [.collect first "x" default]
    (storedIn "load" (e₀.trace calls)).length = 1 ∧ recounts "load" e₀ calls = 1 ∧
      ((e₀.trace calls).map (reported "load")).sum = 2 ∧
      ((e₀.trace calls).map (reported "load")).sum ≤
        (storedIn "load" (e₀.trace calls)).length + recounts "load" e₀ calls ∧
      ∃ report, (cut.collect second "y" default).result = .ok report ∧
        report.hourly.countOf "load" = 1 := by
  intro e₀ first second calls cut
  have hopen : Engine.openEmpty default none = .ok e₀ := rfl
  have hderive : ∀ c ∈ calls, c.derives = false := by
    simp [calls, first, second, Call.derives, CollectRequest.daily, CollectRequest.atTime]
  refine ⟨by decide +kernel, by decide +kernel, by decide +kernel,
    (run_counts hopen calls hderive "load").1, ?_⟩
  -- the second collection finds nothing but the copy
  have hok : ((e₀.run [.add (loadAt 100)]).collect first "x" default).result.isOk = true := by
    decide +kernel
  have hok' : (cut.collect second "y" default).result.isOk = true := by decide +kernel
  have hcarried : ((e₀.run [.add (loadAt 100)]).store.carried? (3 * dayMs) 100 "load").map
      (fun v => (v.value.asNumber?.isSome, v.timeMs)) = some (true, 100) := by decide +kernel
  have hasks : (cut.store.hourlyMetric? "load").map (·.spec) = some (loadAt 100).spec := by
    decide +kernel
  obtain ⟨v, hv, hcopy⟩ := Option.map_eq_some_iff.1 hcarried
  obtain ⟨hnumber, htime⟩ := Prod.mk.inj hcopy
  obtain ⟨m, hm, hspec⟩ := Option.map_eq_some_iff.1 hasks
  cases hfirst : ((e₀.run [.add (loadAt 100)]).collect first "x" default).result with
  | error err =>
    rw [hfirst] at hok
    cases hok
  | ok report =>
    cases hsecond : (cut.collect second "y" default).result with
    | error err =>
      rw [hsecond] at hok'
      cases hok'
    | ok report' =>
      have hcount := (run_counts hopen [.add (loadAt 100)] (by simp [Call.derives]) "load").2
        first "x" default report v [] second "y" default report' hfirst hv (by simp) rfl hsecond
        ⟨m, hm, by simp [hspec, loadAt, MetricSample.spec]⟩
      refine ⟨report', rfl, hcount.trans ?_⟩
      rw [if_pos ⟨hnumber, htime, by decide⟩]
      rfl

end Engine

end Telemetry
