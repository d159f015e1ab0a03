import Telemetry.Proofs.SheetRuns

/-!
# The order of arrival

Values are read by time, so it does not matter in which order they came.  Samples of one metric that
say the same of it and have different times may be taken in in any order: the sheets are the same
then, and with them all that is collected from then on.
-/

namespace Telemetry

/-! ### Values of one metric -/

/-- Values of different times may be added in either order. -/
theorem TimedValue.byTime_swap (vs : List TimedValue) {xs ys : List TimedValue}
    (h : ∀ x ∈ xs, ∀ y ∈ ys, x.timeMs ≠ y.timeMs) :
    byTime (vs ++ (xs ++ ys)) = byTime (vs ++ (ys ++ xs)) := by
  rw [byTime_eq, byTime_eq]
  apply sortedBy_congr
  intro n
  rw [alike_append, alike_append, alike_append, alike_append]
  -- of a time there are values on one side only
  rcases hxs : alike (·.timeMs) n xs with _ | ⟨x, rest⟩
  · rw [hxs, List.nil_append, List.append_nil]
  · have hx : x ∈ alike (·.timeMs) n xs := hxs ▸ List.mem_cons_self
    have hys : alike (·.timeMs) n ys = [] := by
      apply List.filter_eq_nil_iff.2
      intro y hy htime
      have hxtime := mem_alike.1 hx
      exact h x hxtime.1 y hy (hxtime.2.trans (beq_iff_eq.1 htime).symm)
    rw [hys, List.nil_append, List.append_nil]

namespace Track

theorem put_put (spec : MetricSpec) (xs ys : List TimedValue) (tracks : List Track) :
    put spec ys (put spec xs tracks) = put spec (xs ++ ys) tracks := by
  have hself : ∀ values : List TimedValue, isNamed spec.eventName ⟨spec, values⟩ = true := by
    intro values
    rw [isNamed_mk, beq_self_eq_true]
  by_cases hany : tracks.any (isNamed spec.eventName) = true
  · have hany' : (put spec xs tracks).any (isNamed spec.eventName) = true := by
      rw [put, if_pos hany, List.any_map]
      obtain ⟨t, ht, hnamed⟩ := List.any_eq_true.1 hany
      apply List.any_eq_true.2
      refine ⟨t, ht, ?_⟩
      rw [Function.comp_apply, if_pos hnamed, hself]
    rw [put, if_pos hany', put, if_pos hany, put, if_pos hany, List.map_map]
    apply List.map_congr_left
    intro t _
    rw [Function.comp_apply]
    by_cases hnamed : t.isNamed spec.eventName = true
    · rw [if_pos hnamed, if_pos (hself _), if_pos hnamed, TimedValue.byTime_append,
        List.append_assoc]
    · rw [if_neg hnamed, if_neg hnamed, if_neg hnamed]
  · have hnone : ∀ t ∈ tracks, ¬t.isNamed spec.eventName = true := by
      intro t ht hnamed
      exact hany (List.any_eq_true.2 ⟨t, ht, hnamed⟩)
    have hany' : (tracks ++ [(⟨spec, TimedValue.byTime xs⟩ : Track)]).any
        (isNamed spec.eventName) = true := by
      rw [List.any_append, List.any_cons, hself, Bool.true_or, Bool.or_true]
    have hrest : tracks.map (fun t => if t.isNamed spec.eventName then
        (⟨spec, TimedValue.byTime (t.values ++ ys)⟩ : Track) else t) = tracks := by
      refine (List.map_congr_left fun t ht => ?_).trans (List.map_id _)
      exact if_neg (hnone t ht)
    rw [put.eq_def spec xs, if_neg hany, put, if_pos hany', List.map_append, hrest, List.map_singleton,
      if_pos (hself _), TimedValue.byTime_append, put, if_neg hany]

/-- Values of different times may be put in either order. -/
theorem put_swap (spec : MetricSpec) {xs ys : List TimedValue}
    (h : ∀ x ∈ xs, ∀ y ∈ ys, x.timeMs ≠ y.timeMs) (tracks : List Track) :
    put spec ys (put spec xs tracks) = put spec xs (put spec ys tracks) := by
  have hswap : ∀ vs : List TimedValue,
      TimedValue.byTime (vs ++ (xs ++ ys)) = TimedValue.byTime (vs ++ (ys ++ xs)) :=
    fun vs => TimedValue.byTime_swap vs h
  have hnil := hswap []
  rw [List.nil_append, List.nil_append] at hnil
  rw [put_put, put_put]
  simp only [put, hswap, hnil]

end Track

/-! ### Sheets -/

namespace Sheet

theorem record_swap (spec : MetricSpec) {t t' : Int} (hne : t ≠ t') (value value' : SampleValue)
    (x : Sheet) :
    (x.record spec t value).record spec t' value' =
      (x.record spec t' value').record spec t value := by
  have htime : ∀ {t : Int} {value : SampleValue}, ∀ v ∈ Transaction.recorded t value,
      v.timeMs = t := by
    intro t value v hv
    unfold Transaction.recorded at hv
    split at hv
    · cases hv
    · rw [List.mem_singleton.1 hv]
  have hdiffer : ∀ v ∈ Transaction.recorded t value, ∀ w ∈ Transaction.recorded t' value',
      v.timeMs ≠ w.timeMs := by
    intro v hv w hw heq
    exact hne ((htime v hv).symm.trans (heq.trans (htime w hw)))
  rw [record, record, record, record, Track.put_swap spec hdiffer]

theorem recordWhere_swap (p q : ReportRow → Bool) (spec : MetricSpec) {t t' : Int} (hne : t ≠ t')
    (value value' : SampleValue) (xs : List Sheet) :
    recordWhere q spec t' value' (recordWhere p spec t value xs) =
      recordWhere p spec t value (recordWhere q spec t' value' xs) := by
  unfold recordWhere
  rw [List.map_map, List.map_map]
  apply List.map_congr_left
  intro x _
  rw [Function.comp_apply, Function.comp_apply]
  by_cases hp : p x.header = true
  · by_cases hq : q x.header = true
    · rw [if_pos hp, if_pos hq, if_pos (by exact hq), if_pos (by exact hp)]
      exact record_swap spec hne value value' x
    · rw [if_pos hp, if_neg hq, if_neg (by exact hq), if_pos hp]
  · by_cases hq : q x.header = true
    · rw [if_neg hp, if_pos hq, if_neg (by exact hp)]
    · rw [if_neg hp, if_neg hq, if_neg hp]

/-! ### Samples -/

/-- A sample for the hourly accumulator that is open. -/
def takeHourly (xs : List Sheet) (sample : MetricSample) : List Sheet :=
  recordWhere (·.isSessionAt sample.timeMs) sample.spec sample.timeMs sample.value
    (recordWhere (·.isOpenAs .hourly none) sample.spec sample.timeMs sample.value xs)

theorem any_recordWhere (p q : ReportRow → Bool) (spec : MetricSpec) (t : Int)
    (value : SampleValue) (xs : List Sheet) :
    (recordWhere p spec t value xs).any (fun x => q x.header) = xs.any fun x => q x.header := by
  unfold recordWhere
  rw [List.any_map]
  congr 1
  funext x
  rw [Function.comp_apply]
  split
  · rfl
  · rfl

theorem any_takeHourly (q : ReportRow → Bool) (xs : List Sheet) (sample : MetricSample) :
    (takeHourly xs sample).any (fun x => q x.header) = xs.any fun x => q x.header := by
  rw [takeHourly, any_recordWhere, any_recordWhere]

theorem takeIn_eq_takeHourly {sample : MetricSample} (hsample : sample.validate = .ok ())
    (hkind : sample.reportKind = .hourly) {xs : List Sheet}
    (hopen : xs.any (·.header.isOpenAs .hourly none) = true) (version : Option String) :
    takeIn version sample xs = takeHourly xs sample := by
  have hadmits := (Transaction.of_validate hsample).2
  rw [hkind] at hadmits
  have hname : sample.sessionName = none := hadmits
  rw [takeIn, if_pos hkind, hkind, hname, startIn, if_pos hopen, takeHourly]

/-- Two samples of one metric may be taken in in either order. -/
theorem takeHourly_swap {a b : MetricSample} (hspec : a.spec = b.spec) (htime : a.timeMs ≠ b.timeMs)
    (xs : List Sheet) : takeHourly (takeHourly xs a) b = takeHourly (takeHourly xs b) a := by
  have hswap : ∀ (p q : ReportRow → Bool) (ys : List Sheet),
      recordWhere q b.spec b.timeMs b.value (recordWhere p b.spec a.timeMs a.value ys) =
        recordWhere p b.spec a.timeMs a.value (recordWhere q b.spec b.timeMs b.value ys) := by
    intro p q ys
    exact recordWhere_swap p q b.spec htime a.value b.value ys
  simp only [takeHourly, hspec]
  -- each of the two recordings of the one sample passes each of the other
  rw [hswap (·.isSessionAt a.timeMs) (·.isOpenAs .hourly none), hswap _ (·.isOpenAs .hourly none),
    hswap (·.isSessionAt a.timeMs), hswap (·.isOpenAs .hourly none)]

/-- Adding samples to the open accumulator, one after the other, hands nothing out. -/
theorem gatherIn_add (terms : Terms) (later : List Call) (samples : List MetricSample) :
    ∀ {xs : List Sheet}, xs.any (·.header.isOpenAs .hourly none) = true →
      (∀ x ∈ samples, x.validate = .ok () ∧ x.reportKind = .hourly) →
      gatherIn terms xs (samples.map .add ++ later) =
        gatherIn terms (samples.foldl takeHourly xs) later := by
  induction samples with
  | nil =>
    intro xs _ _
    rfl
  | cons sample samples ih =>
    intro xs hopen hsamples
    rw [List.forall_mem_cons] at hsamples
    obtain ⟨⟨hvalid, hkind⟩, hrest⟩ := hsamples
    have hadd : callIn terms.settings terms.softwareVersion xs (.add sample) =
        takeHourly xs sample := by
      rw [callIn, hvalid]
      exact takeIn_eq_takeHourly hvalid hkind hopen _
    have hopen' : (takeHourly xs sample).any (·.header.isOpenAs .hourly none) = true := by
      rw [any_takeHourly (·.isOpenAs .hourly none)]
      exact hopen
    rw [List.foldl_cons, ← ih hopen' hrest, ← hadd]
    rfl

/-- Samples of one metric with different times come to the same in any order. -/
theorem foldl_takeHourly_perm {samples samples' : List MetricSample}
    (hperm : samples.Perm samples') (hspec : ∀ a ∈ samples, ∀ b ∈ samples, a.spec = b.spec)
    (htimes : (samples.map (·.timeMs)).Nodup) (xs : List Sheet) :
    samples.foldl takeHourly xs = samples'.foldl takeHourly xs := by
  apply hperm.foldl_eq'
  intro a ha b hb ys
  by_cases hsame : a = b
  · rw [hsame]
  · have htime : a.timeMs ≠ b.timeMs := by
      intro heq
      exact hsame (List.inj_on_of_nodup_map htimes ha hb heq)
    exact takeHourly_swap (hspec a ha b hb) htime ys

end Sheet

/-! ### Runs -/

namespace Engine

/-- Samples of one metric may come in any order: whatever is called then, the collections hand out
the same and leave the same files. -/
theorem run_reordered {e : Engine} (he : e.Reachable) {r : ReportRow}
    (hopen : e.store.openReport? .hourly none = .ok (some r)) {samples samples' : List MetricSample}
    (hperm : samples.Perm samples') (hvalid : ∀ a ∈ samples, a.validate = .ok ())
    (hkind : ∀ a ∈ samples, a.reportKind = .hourly)
    (hspec : ∀ a ∈ samples, ∀ b ∈ samples, a.spec = b.spec)
    (htimes : (samples.map (·.timeMs)).Nodup) (later : List Call)
    (hstore : ∀ x ∈ e.trace (samples.map .add ++ later), ¬x.2.FailsInStore)
    (hstore' : ∀ x ∈ e.trace (samples'.map .add ++ later), ¬x.2.FailsInStore) :
    gather collected e (samples.map .add ++ later) =
      gather collected e (samples'.map .add ++ later) := by
  obtain ⟨xs, hshows⟩ := he.shows
  have hany : xs.any (·.header.isOpenAs .hourly none) = true := by
    rw [Store.openReport?_eq hshows.consistent.undamaged, Except.ok.injEq] at hopen
    rw [hshows.any_eq (p := (·.isOpenAs .hourly none)) fun _ => rfl]
    exact List.any_eq_true.2 ⟨r, List.mem_of_find?_eq_some hopen, List.find?_some hopen⟩
  have hsamples : ∀ a ∈ samples, a.validate = .ok () ∧ a.reportKind = .hourly := by
    intro a ha
    exact ⟨hvalid a ha, hkind a ha⟩
  have hsamples' : ∀ a ∈ samples', a.validate = .ok () ∧ a.reportKind = .hourly := by
    intro a ha
    exact hsamples a (hperm.mem_iff.2 ha)
  rw [(run_shows _ hshows hstore).2, (run_shows _ hshows hstore').2,
    Sheet.gatherIn_add _ later samples hany hsamples,
    Sheet.gatherIn_add _ later samples' hany hsamples',
    Sheet.foldl_takeHourly_perm hperm hspec htimes]

/-- Two samples, one of them late. -/
theorem run_reordered_pair :
    let e := (⟨default, none, .empty⟩ : Engine).run [.add (.of "power" 5 (.bool true))]
    let samples := [MetricSample.of "power" 7 (.bool false), MetricSample.of "power" 6 (.bool true)]
    let later := [Call.collect (CollectRequest.atTime 9) "x" default]
    (gather collected e (samples.map .add ++ later)).length = 1 ∧
      gather collected e (samples.map .add ++ later) =
        gather collected e (samples.reverse.map .add ++ later) := by
  intro e samples later
  have he : e.Reachable := ⟨default, none, ⟨default, none, .empty⟩, _, rfl, rfl⟩
  have hopen : e.store.openReport? .hourly none = .ok (some ⟨1, .hourly, none, 5, none, none⟩) := by
    decide +kernel
  exact ⟨rfl, run_reordered he hopen (List.reverse_perm samples).symm (by decide) (by decide)
    (by decide) (by decide) later (by decide_cbv) (by decide_cbv)⟩

end Engine

end Telemetry
