import Telemetry.Proofs.Settling
import Telemetry.Proofs.StepFunction
import Telemetry.Proofs.Transparency

/-!
# Sessions beside the accumulator

A sample of the hourly accumulator goes to every session as well that covers its time.  A session
that begins with the latest value of a metric, as if it had been sampled at the start, therefore
knows the states of this metric as the accumulator does: from its start to its end both make the
same step function.
-/

namespace Telemetry

/-! ### What a session takes in -/

namespace Transaction

variable {s s' : Store}

theorem recordInAll_seriesOf (sample : MetricSample) (hname : sample.eventName ≠ "")
    (ids : List Int) : ∀ {s s' : Store} {u : Unit}, s.Consistent → ids.Nodup →
      (∀ id ∈ ids, ∃ r ∈ s.reports.rows, r.id = id) → Yields (recordInAll sample ids) s u s' →
      ∀ id name, s'.seriesOf id name = s.seriesOf id name ++
        if id ∈ ids ∧ name = sample.eventName then recorded sample.timeMs sample.value else [] := by
  induction ids with
  | nil =>
    intro s s' u _ _ _ h id name
    obtain ⟨-, rfl⟩ := yields_pure.1 h
    simp
  | cons first ids ih =>
    intro s s' u hs hids howners h id name
    obtain ⟨result, s₁, hrecord, h⟩ := yields_bind.1 h
    obtain ⟨hfirst, hids⟩ := List.nodup_cons.1 hids
    have howner := howners first (by simp)
    obtain ⟨hsteps, hreports⟩ := record_steps .everything hs howner trivial hname hrecord
    obtain ⟨-, hself, hother⟩ := record_seriesOf hs howner hname hrecord
    rw [ih (hsteps.consistent hs) hids (fun id' hid' => hreports ▸ howners id' (by simp [hid'])) h]
    by_cases hboth : id = first ∧ name = sample.eventName
    · obtain ⟨rfl, rfl⟩ := hboth
      rw [if_neg fun h => hfirst h.1, if_pos ⟨List.mem_cons_self, rfl⟩, List.append_nil]
      exact hself
    · rw [hother id name hboth]
      by_cases hid : id = first
      · have hne : name ≠ sample.eventName := fun heq => hboth ⟨hid, heq⟩
        simp [hne]
      · simp [hid]

/-- An hourly sample goes to a session if that covers its time. -/
theorem take_session (hs : s.Consistent) {version : Option String} {sample : MetricSample}
    (hsample : sample.validate = .ok ()) (hkind : sample.reportKind = .hourly) {r : ReportRow}
    (hr : r ∈ s.reports.rows) (hsession : r.kind = .session) {result : Option Int}
    (h : Yields (take version sample) s result s') :
    r ∈ s'.reports.rows ∧ ∀ name, s'.seriesOf r.id name = s.seriesOf r.id name ++
      if r.isSessionAt sample.timeMs = true ∧ name = sample.eventName then
        recorded sample.timeMs sample.value
      else [] := by
  obtain ⟨hname, hadmits⟩ := of_validate hsample
  obtain ⟨id, s₁, s₂, hstart, hrecord, hrest⟩ := take_split h
  obtain ⟨hsteps₁, x, hx, hopen, rfl⟩ := openOrStart_steps
    ⟨fun _ => False, fun _ => True⟩ hs hadmits trivial hstart
  have hs₁ := hsteps₁.consistent hs
  have hr₁ := openOrStart_mem hs.undamaged hstart r hr
  have hsame₁ := hsteps₁.sameReport hs ⟨r, hr, rfl⟩ not_false
  obtain ⟨hsteps₂, hreports₂⟩ := record_steps .everything hs₁ ⟨x, hx, rfl⟩ trivial hname hrecord
  have hs₂ := hsteps₂.consistent hs₁
  obtain ⟨-, -, hother⟩ := record_seriesOf hs₁ ⟨x, hx, rfl⟩ hname hrecord
  -- the accumulator is no session
  have hne : r.id ≠ x.id := by
    intro heq
    obtain rfl := hs₁.report_eq hr₁ hx heq
    cases hsession.symm.trans ((ReportRow.isOpenAs_iff.1 hopen).1.trans hkind)
  have hseries₂ : ∀ name, s₂.seriesOf r.id name = s.seriesOf r.id name := fun name =>
    (hother r.id name fun hboth => hne hboth.1).trans (hsame₁.seriesOf_eq name)
  obtain ⟨-, ids, s₃, hsessions, hall⟩ := hrest.resolve_right fun hnot => hnot.1 hkind
  obtain ⟨⟨kept, rfl⟩, rfl⟩ := sessionsAt_ids hs₂.undamaged hsessions
  have hs₃ : Store.Consistent { s₂ with kept } := hs₂.of_eq rfl rfl rfl rfl
  have hr₂ : r ∈ s₂.reports.rows := hreports₂ ▸ hr₁
  have howners : ∀ id ∈ (s₂.reports.rows.filter (·.isSessionAt sample.timeMs)).map (·.id),
      ∃ y ∈ s₂.reports.rows, y.id = id := by
    intro id hid
    obtain ⟨y, hy, rfl⟩ := List.mem_map.1 hid
    exact ⟨y, (List.mem_filter.1 hy).1, rfl⟩
  have hdistinct : ((s₂.reports.rows.filter (·.isSessionAt sample.timeMs)).map (·.id)).Nodup :=
    List.pairwise_map.2 ((hs₂.reportsNumbered.increasing.filter _).imp fun hlt => ne_of_lt hlt)
  obtain ⟨-, hreports₃⟩ := recordInAll_steps .everything sample hname _ hs₃
    (fun id hid => ⟨trivial, howners id hid⟩) hall
  refine ⟨hreports₃ ▸ hr₂, fun name => ?_⟩
  rw [recordInAll_seriesOf sample hname _ hs₃ hdistinct howners hall]
  change s₂.seriesOf r.id name ++ _ = _
  rw [hseries₂]
  congr 1
  have hcovers : r.id ∈ (s₂.reports.rows.filter (·.isSessionAt sample.timeMs)).map (·.id) ↔
      r.isSessionAt sample.timeMs = true := by
    constructor
    · intro hid
      obtain ⟨y, hy, hyid⟩ := List.mem_map.1 hid
      obtain ⟨hy, hat⟩ := List.mem_filter.1 hy
      rwa [← hs₂.report_eq hy hr₂ hyid]
    · exact fun hat => List.mem_map_of_mem (List.mem_filter.2 ⟨hr₂, hat⟩)
  simp only [hcovers]

/-! ### What a session begins with -/

/-- A copy of a metric's latest value. -/
def seeds (series : List TimedValue) (t : Int) : List TimedValue :=
  (TimedValue.newestAt series t).toList.map fun v => ⟨t, v.value⟩

/-- The copies for a name: one for each time that it is asked for. -/
def seedsFor (keys : List String) (key : String) (series : List TimedValue) (t : Int) :
    List TimedValue :=
  keys.flatMap fun k => if k = key then seeds series t else []

theorem seed_seriesOf {source target t : Int} (hne : source ≠ target) (keys : List String) :
    ∀ {s s' : Store} {u : Unit}, s.Consistent → (∃ r ∈ s.reports.rows, r.id = target) →
      Yields (seed source target t keys) s u s' → ∀ name,
        s'.seriesOf target name =
          s.seriesOf target name ++ seedsFor keys name (s.seriesOf source name) t := by
  induction keys with
  | nil =>
    intro s s' u _ _ h name
    obtain ⟨-, rfl⟩ := yields_pure.1 h
    exact (List.append_nil _).symm
  | cons key keys ih =>
    intro s s' u hs howner h name
    obtain ⟨m?, s₁, hfind, h⟩ := yields_bind.1 h
    obtain ⟨hm, rfl⟩ := yields_query.1 hfind
    rw [Store.findMetric?_eq hs.undamaged, Except.ok.injEq] at hm
    change s.metric? source key = m? at hm
    rw [seedsFor, List.flatMap_cons]
    -- a name without a value gives no copy
    have hnone : TimedValue.newestAt (s.seriesOf source key) t = none →
        (if key = name then seeds (s.seriesOf source name) t else []) = [] := by
      intro hnone
      split
      · next hkey => rw [← hkey, seeds, hnone, Option.toList_none, List.map_nil]
      · rfl
    cases m? with
    | none =>
      rw [hnone (by rw [Store.seriesOf, hm]; rfl), List.nil_append]
      exact ih hs howner h name
    | some m =>
      have hseries : s.seriesOf source key = s.timedOf m.id := by
        rw [Store.seriesOf, hm]
        rfl
      obtain ⟨v?, s₂, hlatest, h⟩ := yields_bind.1 h
      obtain ⟨rfl, hnewest⟩ := latestUpTo_eq hs hlatest
      change v?.map (·.timed) = TimedValue.newestAt (s.timedOf m.id) t at hnewest
      cases v? with
      | none =>
        rw [hnone (by rw [hseries, ← hnewest]; rfl), List.nil_append]
        exact ih hs howner h name
      | some v =>
        obtain ⟨result, s₃, hrecord, h⟩ := yields_bind.1 h
        obtain ⟨hmem, -, hname⟩ := Store.of_metric? hm
        have hnamed := hs.metricNamed m hmem
        obtain ⟨hsteps, hreports⟩ := record_steps .everything hs howner trivial hnamed hrecord
        obtain ⟨-, hself, hother⟩ := record_seriesOf hs howner hnamed hrecord
        have hkept : v.value.IsKept := Store.isKept_of_mem_timedOf hs
          (List.mem_filter.1 (TimedValue.newest?_mem hnewest.symm)).1
        have hrecorded : recorded t v.value = seeds (s.seriesOf source key) t := by
          rw [recorded, hkept.isNaN, hkept.kept, seeds, hseries, ← hnewest]
          rfl
        rw [ih (hsteps.consistent hs) (hreports ▸ howner) h,
          hother source name fun hboth => hne hboth.1, ← List.append_assoc]
        congr 1
        by_cases hkey : key = name
        · rw [if_pos hkey, ← hkey, ← hrecorded]
          exact hname ▸ hself
        · rw [if_neg hkey, List.append_nil, hother target name]
          rintro ⟨-, heq⟩
          exact hkey (hname.symm.trans heq.symm)

/-- A seeded session is started with the copies that the open accumulator gives. -/
theorem startSeeded_session (hs : s.Consistent) {version : Option String} {name : String} {t : Int}
    {keys : List String} (hname : ReportKind.session.Admits (some name))
    (hfree : s.reports.rows.find? (·.isOpenAs .session (some name)) = none) {u : Unit}
    (h : Yields (startSeeded version name t keys) s u s') :
    ⟨s.reports.nextId, .session, some name, t, none, version⟩ ∈ s'.reports.rows ∧
      ∀ key, s'.seriesOf s.reports.nextId key = seedsFor keys key (s.hourlySeries key) t := by
  unfold startSeeded at h
  obtain ⟨r?, s₁, hlook, h⟩ := yields_bind.1 h
  obtain ⟨hopen, rfl⟩ := yields_query.1 hlook
  rw [Store.openReport?_eq hs.undamaged, hfree, Except.ok.injEq] at hopen
  subst hopen
  obtain ⟨id, s₁, hstart, h⟩ := yields_bind.1 h
  obtain ⟨hourly?, s₂, hlook', h⟩ := yields_bind.1 h
  obtain ⟨hhourly, rfl⟩ := yields_query.1 hlook'
  obtain ⟨hsteps, -⟩ :=
    openOrStart_steps ⟨fun _ => False, fun kind => kind = .session⟩ hs hname rfl hstart
  have hs₁ := hsteps.consistent hs
  rw [Store.openReport?_eq hs₁.undamaged, Except.ok.injEq] at hhourly
  have hkeeps := hsteps.keepsHourly hs (fun _ _ => not_false) (by simp)
  obtain ⟨rfl, rfl⟩ : id = s.reports.nextId ∧ s₁ = { s with reports := s.reports.append fun id =>
      ⟨id, .session, some name, t, none, version⟩ } := by
    rcases Store.openOrStart_eq_ok hs.undamaged (yields_update.1 hstart) with
      ⟨r, hr, -⟩ | ⟨-, hid, hs₁⟩
    · rw [hfree] at hr
      cases hr
    · exact ⟨hid, hs₁⟩
  have hnew : (⟨s.reports.nextId, .session, some name, t, none, version⟩ : ReportRow) ∈
      (s.reports.append fun id => ⟨id, .session, some name, t, none, version⟩).rows :=
    List.mem_append_right _ (List.mem_singleton_self _)
  -- the new report is the first one of its id
  have hempty : ∀ key, s.seriesOf s.reports.nextId key = [] := by
    intro key
    cases hm : s.metric? s.reports.nextId key with
    | none => rw [Store.seriesOf, hm, Option.elim_none]
    | some m =>
      obtain ⟨hmem, hid, -⟩ := Store.of_metric? hm
      obtain ⟨r, hr, hrm⟩ := hs.metricOwned m hmem
      exact absurd (hrm.trans hid) (ne_of_lt (hs.reportsNumbered.lt_nextId hr))
  cases hourly? with
  | none =>
    obtain ⟨-, rfl⟩ := yields_pure.1 h
    refine ⟨hnew, fun key => (hempty key).trans ?_⟩
    have hnone : s.hourly? = none := hkeeps.hourly.symm.trans hhourly
    simp [Store.hourlySeries, hnone, seedsFor, seeds, TimedValue.newestAt, TimedValue.newest?]
  | some x =>
    have hx : s.hourly? = some x := hkeeps.hourly.symm.trans hhourly
    have hne : x.id ≠ s.reports.nextId :=
      ne_of_lt (hs.reportsNumbered.lt_nextId (Store.of_hourly? hx).1)
    obtain ⟨-, hreports⟩ := seed_steps .everything trivial keys hs₁ ⟨_, hnew, rfl⟩ h
    refine ⟨hreports ▸ hnew, fun key => (seed_seriesOf hne keys hs₁ ⟨_, hnew, rfl⟩ h key).trans ?_⟩
    change s.seriesOf s.reports.nextId key ++ _ = _
    rw [hempty, List.nil_append, Store.hourlySeries, hx]
    rfl

/-- The end of a session changes its row alone. -/
theorem endSession_session (hs : s.Consistent) {name : String} {t : Int} {r : ReportRow}
    (hr : r ∈ s.reports.rows) (hopen : r.isOpenAs .session (some name) = true) {u : Unit}
    (h : Yields (endSession name t) s u s') :
    { r with endMs := some t } ∈ s'.reports.rows ∧
      ∀ id key, s'.seriesOf id key = s.seriesOf id key := by
  rcases Store.endOpen_eq_ok hs.undamaged (yields_change.1 h) with ⟨hnone, -⟩ | ⟨x, hx, rfl⟩
  · have hfree := List.find?_eq_none.1 hnone r hr
    exact absurd hopen hfree
  · obtain rfl := hs.open_eq (List.mem_of_find?_eq_some hx) hr (List.find?_some hx) hopen
    exact ⟨List.mem_map.2 ⟨x, hr, if_pos (beq_self_eq_true x.id)⟩, fun _ _ => rfl⟩

end Transaction

/-! ### What can be written -/

theorem Engine.run_readOnly (calls : List Call) :
    ∀ {e : Engine}, e.store.Consistent → (e.run calls).store.readOnly = e.store.readOnly := by
  induction calls with
  | nil => exact fun _ => rfl
  | cons c calls ih =>
    intro e hs
    have hsteps := Engine.call_steps hs c
    exact (ih (hsteps.consistent hs)).trans hsteps.readOnly_eq

theorem Engine.Reachable.readOnly_eq {e : Engine} (h : e.Reachable) : e.store.readOnly = false := by
  obtain ⟨settings, version, e₀, calls, hopen, rfl⟩ := h
  obtain rfl := Engine.of_openEmpty hopen
  exact Engine.run_readOnly calls Store.empty_consistent

/-! ### One value in place of another -/

section Copies

variable {w : Window} {new : List TimedValue} {v c : TimedValue}

theorem scannedOf_cons (hv : v.timeMs ≤ w.startMs) (start : Int) (new : List TimedValue) :
    w.scannedOf start (v :: new) =
      (TimedValue.newest? (v :: new.filter fun x => decide (x.timeMs ≤ w.startMs))).toList ++
        TimedValue.byTime (new.filter fun x => decide (w.startMs < x.timeMs) &&
          decide (x.timeMs ≤ w.endMs) && decide (start ≤ x.timeMs)) := by
  have hnot : ¬(decide (w.startMs < v.timeMs) && decide (v.timeMs ≤ w.endMs) &&
      decide (start ≤ v.timeMs)) = true := by
    simp only [Bool.and_eq_true, decide_eq_true_eq]
    omega
  rw [Window.scannedOf, List.filter_cons_of_pos (by simpa using hv), List.filter_cons,
    if_neg hnot]

/-- A value may stand at another time up to the start of the window: the times are the same. -/
theorem timesOf_copied (hvalue : c.value = v.value) (hv : v.timeMs ≤ c.timeMs)
    (hc : c.timeMs ≤ w.startMs) (hw : w.startMs ≤ w.endMs) (hnew : ∀ x ∈ new, c.timeMs ≤ x.timeMs)
    (start : Int) :
    TimeInState.timesOf w (w.scannedOf start (c :: new)) =
      TimeInState.timesOf w (w.scannedOf start (v :: new)) := by
  rw [scannedOf_cons hc, scannedOf_cons (hv.trans hc)]
  -- what is later than the one is later than the other
  cases hold : new.filter fun x => decide (x.timeMs ≤ w.startMs) with
  | nil => exact TimeInState.timesOf_congr_head hvalue hc (hv.trans hc) hw _
  | cons x old =>
    have hmem : x ∈ new.filter fun x => decide (x.timeMs ≤ w.startMs) := hold ▸ List.mem_cons_self
    have hx := hnew x (List.mem_filter.1 hmem).1
    have hlater : TimedValue.later c x = x := if_pos hx
    have hlater' : TimedValue.later v x = x := if_pos (hv.trans hx)
    rw [TimedValue.newest?, TimedValue.newest?, List.foldl_cons, List.foldl_cons, hlater, hlater']

/-- Values from after the window are not read. -/
theorem scannedOf_filter (hw : w.startMs ≤ w.endMs) (start : Int) (values : List TimedValue) :
    w.scannedOf start (values.filter fun x => decide (x.timeMs ≤ w.endMs)) =
      w.scannedOf start values := by
  rw [Window.scannedOf, Window.scannedOf, List.filter_filter, List.filter_filter]
  congr 3
  · refine List.filter_congr fun x _ => ?_
    rw [Bool.eq_iff_iff]
    simp only [Bool.and_eq_true, decide_eq_true_eq]
    exact ⟨And.left, fun h => ⟨h, h.trans hw⟩⟩
  · funext x
    rw [Bool.eq_iff_iff]
    simp only [Bool.and_eq_true, decide_eq_true_eq]
    exact ⟨And.left, fun h => ⟨h, h.1.2⟩⟩

/-- A scan of values with labels, the first of which is from before the window, fills it. -/
theorem timesOf_sum (hv : v.timeMs ≤ w.startMs) (hw : w.startMs ≤ w.endMs) {start : Int}
    (hown : ∀ x ∈ new, w.startMs < x.timeMs → start ≤ x.timeMs)
    (hlabel : ∀ x ∈ v :: new, x.value.stateLabel?.isSome) :
    ((TimeInState.timesOf w (w.scannedOf start (v :: new))).entries.map (·.2)).sum =
      w.durationMs := by
  have htotal := TimeInState.timesOf_total (w := w) (fun _ => true) _ (w.scannedOf_sorted start (v :: new))
  rw [KeyMap.total, List.filter_true] at htotal
  rw [htotal, momentsIn_all hw, Window.durationMs]
  intro t hstart hend
  have hown' : ∀ x ∈ v :: new, w.startMs < x.timeMs → start ≤ x.timeMs := by
    intro x hx hlt
    rcases List.mem_cons.1 hx with rfl | hx
    · exact absurd hlt (not_lt_of_ge hv)
    · exact hown x hx hlt
  rw [TimedValue.stateAt, Window.newestAt_scannedOf hown' hstart hend.le]
  cases hnewest : TimedValue.newestAt (v :: new) t with
  | none =>
    have hmem : v ∈ (v :: new).filter fun x => decide (x.timeMs ≤ t) :=
      List.mem_filter.2 ⟨List.mem_cons_self, decide_eq_true (hv.trans hstart)⟩
    rw [TimedValue.newest?_eq_none.1 hnewest] at hmem
    cases hmem
  | some x => exact hlabel x (List.mem_filter.1 (TimedValue.newest?_mem hnewest)).1

theorem newest?_seedsFor {key : String} {keys : List String} (hkey : key ∈ keys)
    {old : List TimedValue} {t : Int} (hold : ∀ x ∈ old, x.timeMs ≤ t)
    (hv : TimedValue.newest? old = some v) :
    (∀ x ∈ Transaction.seedsFor keys key old t, x = ⟨t, v.value⟩) ∧
      TimedValue.newest? (Transaction.seedsFor keys key old t) = some ⟨t, v.value⟩ := by
  have hall : old.filter (fun x => decide (x.timeMs ≤ t)) = old :=
    List.filter_eq_self.2 fun x hx => decide_eq_true (hold x hx)
  have hseeds : Transaction.seeds old t = [⟨t, v.value⟩] := by
    rw [Transaction.seeds, TimedValue.newestAt, hall, hv]
    rfl
  have hcopy : ∀ x ∈ Transaction.seedsFor keys key old t, x = ⟨t, v.value⟩ := by
    intro x hx
    obtain ⟨k, -, hx⟩ := List.mem_flatMap.1 hx
    split at hx
    · rw [hseeds] at hx
      exact List.mem_singleton.1 hx
    · cases hx
  refine ⟨hcopy, ?_⟩
  cases hnewest : TimedValue.newest? (Transaction.seedsFor keys key old t) with
  | some x => rw [hcopy x (TimedValue.newest?_mem hnewest)]
  | none =>
    have hmem : (⟨t, v.value⟩ : TimedValue) ∈ Transaction.seedsFor keys key old t :=
      List.mem_flatMap.2 ⟨key, hkey, by simp [hseeds]⟩
    rw [TimedValue.newest?_eq_none.1 hnewest] at hmem
    cases hmem

/-- Copies of the latest of old values, and what is new of the window, have the times of all. -/
theorem timesOf_seeded {key : String} {keys : List String} (hkey : key ∈ keys)
    {old new' : List TimedValue} (hheld : old ≠ [])
    (hold : ∀ x ∈ old, x.timeMs ≤ w.startMs ∧ x.value.stateLabel?.isSome)
    (hnew : ∀ x ∈ new ++ new', w.startMs ≤ x.timeMs ∧ x.value.stateLabel?.isSome)
    (hw : w.startMs ≤ w.endMs) {start : Int} (hstart : start ≤ w.startMs) :
    let seeded := w.scannedOf w.startMs (Transaction.seedsFor keys key old w.startMs ++
      (new.filter (fun v => decide (w.startMs ≤ v.timeMs)) ++
        new'.filter fun v => decide (w.startMs ≤ v.timeMs) && decide (v.timeMs ≤ w.endMs)))
    TimeInState.timesOf w seeded =
        TimeInState.timesOf w (w.scannedOf start (old ++ (new ++ new'))) ∧
      ((TimeInState.timesOf w seeded).entries.map (·.2)).sum = w.durationMs := by
  intro seeded
  obtain ⟨v, hv⟩ := exists_newest? hheld
  obtain ⟨hvtime, hvlabel⟩ := hold v (TimedValue.newest?_mem hv)
  obtain ⟨hcopies, hnewest⟩ := newest?_seedsFor hkey (fun x hx => (hold x hx).1) hv
  have hlater : ∀ x ∈ new ++ new', w.startMs < x.timeMs → w.startMs ≤ x.timeMs :=
    fun x hx _ => (hnew x hx).1
  -- of what is new only that up to the end of the window is read
  have hread : seeded = w.scannedOf w.startMs
      (Transaction.seedsFor keys key old w.startMs ++ (new ++ new')) := by
    refine (scannedOf_filter hw w.startMs _).symm.trans
      (Eq.trans (congrArg _ ?_) (scannedOf_filter hw w.startMs _))
    simp only [List.filter_append, List.filter_filter]
    congr 2
    · refine List.filter_congr fun x hx => ?_
      rw [decide_eq_true (hnew x (List.mem_append_left _ hx)).1, Bool.and_true]
    · refine List.filter_congr fun x hx => ?_
      rw [decide_eq_true (hnew x (List.mem_append_right _ hx)).1, Bool.true_and, Bool.and_self]
  have hcarried : seeded = w.scannedOf w.startMs (⟨w.startMs, v.value⟩ :: (new ++ new')) := by
    rw [hread]
    refine (Window.scannedOf_carried hnewest (fun x hx => ?_) hlater hlater).symm
    rw [hcopies x hx]
  have htimes : TimeInState.timesOf w seeded =
      TimeInState.timesOf w (w.scannedOf w.startMs (v :: (new ++ new'))) := by
    rw [hcarried]
    exact timesOf_copied (v := v) (c := ⟨w.startMs, v.value⟩) rfl hvtime le_rfl hw
      (fun x hx => (hnew x hx).1) _
  have hlabels : ∀ x ∈ v :: (new ++ new'), x.value.stateLabel?.isSome := by
    intro x hx
    rcases List.mem_cons.1 hx with rfl | hx
    · exact hvlabel
    · exact (hnew x hx).2
  refine ⟨htimes.trans (congrArg _ ?_), htimes ▸ timesOf_sum hvtime hw hlater hlabels⟩
  exact Window.scannedOf_carried hv (fun x hx => (hold x hx).1) hlater
    fun x hx _ => hstart.trans (hnew x hx).1

end Copies

/-- A value that is kept has a label if it had one. -/
theorem SampleValue.stateLabel?_kept {value : SampleValue} (h : value.stateLabel?.isSome) :
    value.kept.stateLabel?.isSome := by
  match value with
  | .number x =>
    by_cases hx : (x == 0.0) = true
    · have hkept : (SampleValue.number x).kept = .number 0.0 :=
        congrArg SampleValue.number (if_pos hx)
      rw [hkept]
      decide +kernel
    · have hkept : (SampleValue.number x).kept = .number x := congrArg SampleValue.number (if_neg hx)
      rwa [hkept]
  | .bool _ => exact h
  | .string _ => exact h

/-! ### Calls -/

namespace Engine

variable {e : Engine}

/-- Samples for the accumulator, one after the other. -/
def addAll (samples : List MetricSample) : List Call := samples.map .add

/-- A session takes up what is stored of a sample in the accumulator, if it covers its time. -/
theorem add_session (hs : e.store.Consistent) {sample : MetricSample}
    (hkind : sample.reportKind = .hourly) {r : ReportRow} (hr : r ∈ e.store.reports.rows)
    (hsession : r.kind = .session) :
    r ∈ (e.add sample).2.store.reports.rows ∧ ∀ name, (e.add sample).2.store.seriesOf r.id name =
      e.store.seriesOf r.id name ++
        (stored? name (.add sample, .added (e.add sample).1)).toList.filter
          fun v => r.isSessionAt v.timeMs := by
  rcases transactIf_cases hs.undamaged sample.validate (.take e.softwareVersion sample) with
    ⟨result, s, hresult, hsample, htake, heq⟩ | ⟨err, s, hresult, ⟨kept, rfl⟩, heq⟩
  · have hs' := (Transaction.take_steps hs hsample htake).consistent hs
    obtain ⟨hsome, -⟩ := Transaction.take_hourly hs hsample hkind htake
    obtain ⟨hmem, hseries⟩ := Transaction.take_session hs hsample hkind hr hsession htake
    change r ∈ (e.transactIf _ _).2.store.reports.rows ∧ ∀ name,
      (e.transactIf _ _).2.store.seriesOf r.id name = e.store.seriesOf r.id name ++
        (stored? name (_, .added (e.transactIf _ _).1)).toList.filter fun v => r.isSessionAt v.timeMs
    rw [hresult, heq, withStore_eq hs'.undamaged]
    refine ⟨hmem, fun name => (hseries name).trans (congrArg _ ?_)⟩
    cases result with
    | none =>
      have hnan : sample.value.isNaN = true := by simpa using hsome.symm
      simp [stored?, Transaction.recorded, hnan]
    | some id =>
      have hnumber : sample.value.isNaN = false := by simpa using hsome.symm
      simp only [stored?, hkind, true_and, Transaction.recorded, hnumber, Bool.false_eq_true,
        if_false, eq_comm (a := name)]
      by_cases hname : sample.eventName = name
      · by_cases hat : r.isSessionAt sample.timeMs = true <;> simp [hname, hat]
      · simp [hname]
  · change r ∈ (e.transactIf _ _).2.store.reports.rows ∧ ∀ name,
      (e.transactIf _ _).2.store.seriesOf r.id name = e.store.seriesOf r.id name ++
        (stored? name (_, .added (e.transactIf _ _).1)).toList.filter fun v => r.isSessionAt v.timeMs
    rw [hresult, heq]
    exact ⟨hr, fun name => (List.append_nil _).symm⟩

/-- A session takes up what is stored of samples in the accumulator while it covers their times. -/
theorem addAll_session (samples : List MetricSample) :
    ∀ {e : Engine}, e.store.Consistent → (∀ x ∈ samples, x.reportKind = .hourly) →
      ∀ {r : ReportRow}, r ∈ e.store.reports.rows → r.kind = .session →
        r ∈ (e.run (addAll samples)).store.reports.rows ∧ ∀ name,
          (e.run (addAll samples)).store.seriesOf r.id name = e.store.seriesOf r.id name ++
            (storedIn name (e.trace (addAll samples))).filter fun v => r.isSessionAt v.timeMs := by
  induction samples with
  | nil => exact fun _ _ _ hr _ => ⟨hr, fun _ => (List.append_nil _).symm⟩
  | cons x samples ih =>
    intro e hs hsamples r hr hsession
    obtain ⟨hr₁, hseries₁⟩ := add_session hs (hsamples x (by simp)) hr hsession
    obtain ⟨hr₂, hseries₂⟩ := ih ((call_steps hs (.add x)).consistent hs)
      (fun y hy => hsamples y (by simp [hy])) hr₁ hsession
    refine ⟨hr₂, fun name => (hseries₂ name).trans ((congrArg (· ++ _) (hseries₁ name)).trans ?_)⟩
    rw [List.append_assoc, ← List.filter_append]
    congr 2
    change _ = List.filterMap (stored? name) ((.add x, .added (e.add x).1) :: _)
    rw [List.filterMap_cons]
    cases stored? name (.add x, .added (e.add x).1) <;> rfl

/-- What is stored of samples is from them. -/
theorem of_mem_storedIn {name : String} {v : TimedValue} (samples : List MetricSample) :
    ∀ {e : Engine}, v ∈ storedIn name (e.trace (addAll samples)) →
      ∃ x ∈ samples, x.eventName = name ∧ v = ⟨x.timeMs, x.value.kept⟩ := by
  induction samples with
  | nil => exact fun hv => absurd hv List.not_mem_nil
  | cons x samples ih =>
    intro e hv
    change v ∈ List.filterMap (stored? name) ((.add x, .added (e.add x).1) :: _) at hv
    rw [List.filterMap_cons] at hv
    cases hstored : stored? name (.add x, .added (e.add x).1) with
    | none =>
      rw [hstored] at hv
      obtain ⟨y, hy, hyv⟩ := ih hv
      exact ⟨y, by simp [hy], hyv⟩
    | some v' =>
      rw [hstored] at hv
      rcases List.mem_cons.1 hv with rfl | hv
      · unfold stored? at hstored
        split at hstored
        · next heq =>
          obtain ⟨hsample, -⟩ := Prod.mk.inj heq
          obtain rfl := Call.add.inj hsample
          split at hstored
          · next hboth => exact ⟨x, by simp, hboth.2, (Option.some.inj hstored).symm⟩
          · cases hstored
        · cases hstored
      · obtain ⟨y, hy, hyv⟩ := ih hv
        exact ⟨y, by simp [hy], hyv⟩

/-! ### Beside the accumulator -/

theorem transactIf_of_yields {α : Type} {condition : Except Failure Unit} {t : Transaction α}
    {a : α} {s : Store} (hcondition : condition = .ok ()) (h : Yields t e.store a s) :
    e.transactIf condition t = (.ok a, e.withStore s) := by
  have ht : t e.store = (.ok a, s) := h
  simp only [hcondition, transactIf, transact, ht, after]

theorem startSeeded_started (hs : e.store.Consistent) {name : String} {keys : List String} {t : Int}
    (hfree : ∀ r ∈ e.store.reports.rows, r.isOpenAs .session (some name) = false)
    (hok : (e.startSeeded name t keys).1 = .ok ()) :
    validateSessionName name = .ok () ∧
      ⟨e.store.reports.nextId, .session, some name, t, none, e.softwareVersion⟩ ∈
        (e.startSeeded name t keys).2.store.reports.rows ∧
      ∀ key, (e.startSeeded name t keys).2.store.seriesOf e.store.reports.nextId key =
        Transaction.seedsFor keys key (e.store.hourlySeries key) t := by
  have hnone : e.store.reports.rows.find? (·.isOpenAs .session (some name)) = none :=
    List.find?_eq_none.2 fun r hr => by simp [hfree r hr]
  rcases transactIf_cases hs.undamaged (validateSessionName name)
    (.startSeeded e.softwareVersion name t keys) with
    ⟨u, s, -, hname, hstart, heq⟩ | ⟨err, s, hresult, -⟩
  · have hadmits := isSessionName_of_validate hname
    have hs' := (Transaction.startSeeded_steps .everything hs hadmits (fun _ _ => trivial) trivial
      hstart).consistent hs
    rw [startSeeded, heq, withStore_eq hs'.undamaged]
    exact ⟨hname, Transaction.startSeeded_session hs hadmits hnone hstart⟩
  · rw [startSeeded, hresult] at hok
    cases hok

theorem endSession_ended (hs : e.store.Consistent) (hwritable : e.store.readOnly = false)
    {name : String} (hname : validateSessionName name = .ok ()) {t : Int} {r : ReportRow}
    (hr : r ∈ e.store.reports.rows) (hopen : r.isOpenAs .session (some name) = true) :
    { r with endMs := some t } ∈ (e.endSession name t).2.store.reports.rows ∧
      ∀ id key, (e.endSession name t).2.store.seriesOf id key = e.store.seriesOf id key := by
  obtain ⟨s, hend⟩ := Store.endOpen_ok hs.undamaged hwritable .session (some name) t
  have hyields : Yields (Transaction.endSession name t) e.store () s :=
    Transaction.yields_change.2 hend
  have hs' := (Transaction.endSession_steps .everything hs (fun _ _ _ => trivial) hyields).consistent hs
  rw [endSession, transactIf_of_yields hname hyields, withStore_eq hs'.undamaged]
  exact Transaction.endSession_session hs hr hopen hyields

/-- The calls of a seeded session that is ended, with samples before and after its end. -/
def seededCalls (name : String) (keys : List String) (w : Window)
    (during after : List MetricSample) : List Call :=
  .startSeeded name w.startMs keys :: addAll during ++ .endSession name w.endMs :: addAll after

/-- What a session and the accumulator hold of a metric once the session has ended: the session
holds copies, all from its start, and then what is stored in both. -/
theorem seeded_series (hs : e.store.Consistent) (hwritable : e.store.readOnly = false)
    {hourly : ReportRow} (hopen : e.store.hourly? = some hourly) {name : String}
    {keys : List String} {w : Window}
    (hfree : ∀ r ∈ e.store.reports.rows, r.isOpenAs .session (some name) = false)
    (hok : (e.startSeeded name w.startMs keys).1 = .ok ()) {during after : List MetricSample}
    (hhourly : ∀ x ∈ during ++ after, x.reportKind = .hourly) :
    let found := (e.run (seededCalls name keys w during after)).store
    ∃ session ∈ found.reports.rows,
      session = ⟨e.store.reports.nextId, .session, some name, w.startMs, some w.endMs,
        e.softwareVersion⟩ ∧
      found.hourly? = some hourly ∧ ∀ key, ∃ new new',
        (∀ v ∈ new ++ new', ∃ x ∈ during ++ after, x.eventName = key ∧
          v = ⟨x.timeMs, x.value.kept⟩) ∧
        found.seriesOf hourly.id key = e.store.seriesOf hourly.id key ++ (new ++ new') ∧
        found.seriesOf session.id key =
          Transaction.seedsFor keys key (e.store.seriesOf hourly.id key) w.startMs ++
          (new.filter (fun v => decide (w.startMs ≤ v.timeMs)) ++
            new'.filter fun v => decide (w.startMs ≤ v.timeMs) && decide (v.timeMs ≤ w.endMs)) := by
  intro found
  have hcalls : found = ((((e.call (.startSeeded name w.startMs keys)).2.run
      (addAll during)).call (.endSession name w.endMs)).2.run (addAll after)).store :=
    congrArg (·.store) (run_append (e := e) (.startSeeded name w.startMs keys :: addAll during) _)
  obtain ⟨hname, hr₁, hseries₁⟩ := startSeeded_started hs hfree hok
  have hadds : ∀ samples, ∀ c ∈ addAll samples, c.isCollect = false := by
    intro samples c hc
    obtain ⟨x, -, rfl⟩ := List.mem_map.1 hc
    rfl
  have hduring : ∀ x ∈ during, x.reportKind = .hourly := fun x hx => hhourly x (by simp [hx])
  have hafter : ∀ x ∈ after, x.reportKind = .hourly := fun x hx => hhourly x (by simp [hx])
  -- the store after each part
  have hsteps₁ := call_steps hs (.startSeeded name w.startMs keys)
  have hs₁ := hsteps₁.consistent hs
  have hs₂ := run_consistent (addAll during) hs₁
  have hs₃ := (call_steps hs₂ (.endSession name w.endMs)).consistent hs₂
  have hwritable₂ := ((run_readOnly (addAll during) hs₁).trans hsteps₁.readOnly_eq).trans hwritable
  -- the session
  obtain ⟨hr₂, hseries₂⟩ := addAll_session during hs₁ hduring hr₁ rfl
  obtain ⟨hr₃, hseries₃⟩ := endSession_ended hs₂ hwritable₂ hname (t := w.endMs) hr₂
    (by simp [ReportRow.isOpenAs])
  obtain ⟨hr₄, hseries₄⟩ := addAll_session after hs₃ hafter hr₃ rfl
  -- the accumulator
  have hgoes₁ := call_continues hs (c := .startSeeded name w.startMs keys) rfl
  have hgoes₂ := run_continues (addAll during) hs₁ (hadds during)
  have hgoes₃ := call_continues hs₂ (c := .endSession name w.endMs) rfl
  have hgoes₄ := run_continues (addAll after) hs₃ (hadds after)
  have hgoes := ((hgoes₁.trans hgoes₂).trans hgoes₃).trans hgoes₄
  rw [hcalls]
  have hopen' := hgoes.hourly hourly hopen
  refine ⟨_, hr₄, rfl, hopen', fun key => ?_⟩
  have hold : e.store.hourlySeries key = e.store.seriesOf hourly.id key := by
    rw [Store.hourlySeries, hopen, Option.elim_some]
  refine ⟨storedIn key ((e.call (.startSeeded name w.startMs keys)).2.trace (addAll during)),
    storedIn key ((((e.call (.startSeeded name w.startMs keys)).2.run
      (addAll during)).call (.endSession name w.endMs)).2.trace (addAll after)), ?_, ?_, ?_⟩
  · intro v hv
    rcases List.mem_append.1 hv with hv | hv
    · obtain ⟨x, hx, hxv⟩ := of_mem_storedIn during hv
      exact ⟨x, List.mem_append_left _ hx, hxv⟩
    · obtain ⟨x, hx, hxv⟩ := of_mem_storedIn after hv
      exact ⟨x, List.mem_append_right _ hx, hxv⟩
  · have hseries := hgoes.series key
    rw [Store.hourlySeries, hopen', Option.elim_some, hold] at hseries
    simpa [stored?] using hseries
  · have hseries := (hseries₄ key).trans (congrArg (· ++ _) ((hseries₃ _ key).trans
      ((hseries₂ key).trans (congrArg (· ++ _) (hseries₁ key)))))
    simpa [ReportRow.isSessionAt, hold] using hseries

/-- What a seeded session says of a metric is what the accumulator says: over the time of the
session both have the same times in each state, and together these are the time of the session. -/
theorem seeded_times (hreach : e.Reachable) {hourly : ReportRow}
    (hopen : e.store.hourly? = some hourly) {name key : String} {keys : List String} {w : Window}
    (hstart : hourly.startMs ≤ w.startMs)
    (hfree : ∀ r ∈ e.store.reports.rows, r.isOpenAs .session (some name) = false)
    (hheld : e.store.hourlySeries key ≠ [])
    (hold : ∀ v ∈ e.store.hourlySeries key, v.timeMs ≤ w.startMs ∧ v.value.stateLabel?.isSome)
    (hkey : key ∈ keys) (hok : (e.startSeeded name w.startMs keys).1 = .ok ())
    {during after : List MetricSample}
    (hhourly : ∀ x ∈ during ++ after, x.reportKind = .hourly)
    (hnew : ∀ x ∈ during ++ after, x.eventName = key →
      w.startMs ≤ x.timeMs ∧ x.value.stateLabel?.isSome)
    (hw : w.startMs ≤ w.endMs) :
    let found := (e.run (seededCalls name keys w during after)).store
    ∃ session ∈ found.reports.rows, session.kind = .session ∧ session.name = some name ∧
      session.startMs = w.startMs ∧ session.endMs = some w.endMs ∧
      (∀ r ∈ e.store.reports.rows, r.id ≠ session.id) ∧ found.hourly? = some hourly ∧
      ∃ m m', found.metric? session.id key = some m ∧ found.metric? hourly.id key = some m' ∧
        ∀ paging, ∃ values values' s s',
          Yields ((MetricGroup.ofRow m).scanned paging w) found values s ∧
          Yields ((MetricGroup.ofRow m').scanned paging w) found values' s' ∧
          TimeInState.timesOf w values = TimeInState.timesOf w values' ∧
          ((TimeInState.timesOf w values).entries.map (·.2)).sum = w.endMs - w.startMs := by
  intro found
  have hs := hreach.consistent
  have hfound : found.Consistent := run_consistent _ hs
  obtain ⟨session, hr, hrow, hopen', hboth⟩ :=
    seeded_series hs hreach.readOnly_eq hopen hfree hok hhourly
  obtain ⟨new, new', hstored, hseries', hseries⟩ := hboth key
  have hheldSeries : e.store.seriesOf hourly.id key = e.store.hourlySeries key := by
    rw [Store.hourlySeries, hopen, Option.elim_some]
  rw [hheldSeries] at hseries' hseries
  -- a value that is kept has the label that it had
  have hlabels : ∀ x ∈ new ++ new', w.startMs ≤ x.timeMs ∧ x.value.stateLabel?.isSome := by
    intro v hv
    obtain ⟨x, hx, hname, rfl⟩ := hstored v hv
    obtain ⟨htime, hlabel⟩ := hnew x hx hname
    exact ⟨htime, SampleValue.stateLabel?_kept hlabel⟩
  obtain ⟨htimes, hsum⟩ :=
    timesOf_seeded (w := w) hkey hheld hold hlabels hw hstart
  subst hrow
  -- both have a metric of the name
  have hne' : found.seriesOf hourly.id key ≠ [] := fun hempty =>
    hheld (List.append_eq_nil_iff.1 (hseries'.symm.trans hempty)).1
  have hne : found.seriesOf e.store.reports.nextId key ≠ [] := by
    intro hempty
    obtain ⟨v, hv⟩ := exists_newest? hheld
    obtain ⟨-, hnewest⟩ := newest?_seedsFor hkey (fun x hx => (hold x hx).1) hv
    rw [(List.append_eq_nil_iff.1 (hseries.symm.trans hempty)).1] at hnewest
    cases hnewest
  obtain ⟨m', hm', hmem', hid', hof'⟩ := found.metric?_of_seriesOf hne'
  obtain ⟨m, hm, hmem, hid, hof⟩ := found.metric?_of_seriesOf hne
  refine ⟨_, hr, rfl, rfl, rfl, rfl, fun r hr => ne_of_lt (hs.reportsNumbered.lt_nextId hr), hopen',
    m, m', hm, hm', fun paging => ?_⟩
  obtain ⟨s, hscanned⟩ := MetricGroup.scanned_yields hfound hmem hr hid m.spec paging w
  obtain ⟨s', hscanned'⟩ :=
    MetricGroup.scanned_yields hfound hmem' (Store.of_hourly? hopen').1 hid' m'.spec paging w
  rw [← hof, hseries] at hscanned
  rw [← hof', hseries'] at hscanned'
  exact ⟨_, _, s, s', hscanned, hscanned', htimes, hsum⟩

/-- A state that holds when a session begins, asked for twice, and one more sample in the session
and after its end each. -/
theorem seeded_times_power :
    let e : Engine := (⟨default, none, .empty⟩ : Engine).run [.add (powerAt 5 "on")]
    let found := (e.run (seededCalls "a" ["power", "power"] ⟨7, 10⟩ [powerAt 8 "off"]
      [powerAt 9 "on"])).store
    e.store.hourlySeries "power" = [⟨5, .string "on"⟩] ∧
      ∃ session ∈ found.reports.rows, session.name = some "a" ∧
        ∃ m m', found.metric? session.id "power" = some m ∧ found.metric? 1 "power" = some m' ∧
          ∀ paging, ∃ values values' s s',
            Yields ((MetricGroup.ofRow m).scanned paging ⟨7, 10⟩) found values s ∧
            Yields ((MetricGroup.ofRow m').scanned paging ⟨7, 10⟩) found values' s' ∧
            TimeInState.timesOf ⟨7, 10⟩ values = TimeInState.timesOf ⟨7, 10⟩ values' ∧
            ((TimeInState.timesOf ⟨7, 10⟩ values).entries.map (·.2)).sum = 3 := by
  intro e found
  have hreach : e.Reachable := ⟨default, none, _, _, rfl, rfl⟩
  have hopen : e.store.hourly? = some ⟨1, .hourly, none, 5, none, none⟩ := rfl
  have hheld : e.store.hourlySeries "power" = [⟨5, .string "on"⟩] := rfl
  have hfree : ∀ r ∈ e.store.reports.rows, r.isOpenAs .session (some "a") = false := by
    decide +kernel
  have hok : (e.startSeeded "a" 7 ["power", "power"]).1 = .ok () := rfl
  obtain ⟨session, hr, -, hname, -, -, -, -, m, m', hm, hm', hscans⟩ :=
    @seeded_times e hreach _ hopen "a" "power" _ ⟨7, 10⟩ (by decide) hfree (by simp [hheld])
      (by simp [hheld, SampleValue.stateLabel?]) (by simp) hok [powerAt 8 "off"] [powerAt 9 "on"]
      (by decide) (by simp [powerAt, MetricSample.of, SampleValue.stateLabel?]) (by decide)
  dsimp only [found]
  exact ⟨hheld, session, hr, hname, m, m', hm, hm', hscans⟩

end Engine

end Telemetry
