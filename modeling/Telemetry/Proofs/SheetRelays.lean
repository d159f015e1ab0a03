import Telemetry.Proofs.HourlySheets
import Telemetry.Proofs.Relays

/-!
# Relays of hourly accumulators

A metric whose samples say the same of it, with the flag to carry it over, is held by every hourly
accumulator from its first sample on, as long as it is young enough at each collection.  The
accumulators that hold it make a relay, up to the open one.  Each sample and each stage of a
collection keeps this; what the daily stage removes, it removes as a whole.
-/

namespace Telemetry

/-- A value that names a state is a number, if it is meant to be one. -/
theorem Transaction.recorded_of_label {value : SampleValue} (h : value.stateLabel?.isSome) (t : Int) :
    recorded t value = [⟨t, value.kept⟩] := by
  have hnumber : ∀ x : Float, x.isFinite = true → x.isNaN = false := by
    intro x hfinite
    change x.toModel.unpack.isFinite = true at hfinite
    change x.toModel.unpack.isNaN = false
    cases hunpack : x.toModel.unpack with
    | notANumber =>
      rw [hunpack] at hfinite
      cases hfinite
    | infinity | zero | finite => rfl
  cases value with
  | bool b => rfl
  | string s => rfl
  | number x =>
    have hfinite : x.isFinite = true := by
      by_contra hnot
      rw [SampleValue.stateLabel?, SampleValue.numberLabel?, if_pos (by simpa using hnot)] at h
      cases h
    apply if_neg
    rw [SampleValue.isNaN, hnumber x hfinite]
    exact Bool.false_ne_true

namespace Sheet

variable {name : String} {xs ys : List Sheet}

/-- What an accumulator that has ended holds under a name. -/
def leg? (name : String) (x : Sheet) : Option Leg :=
  (x.track? name).map fun t =>
    ⟨x.header.startMs, x.header.endMs.getD x.header.startMs, t.values⟩

def legs (name : String) (xs : List Sheet) : List Leg := (endedHourlies xs).filterMap (leg? name)

theorem sourcesNamed_eq (name : String) (xs : List Sheet) :
    sourcesNamed name (endedHourlies xs) = (legs name xs).map Leg.source := by
  rw [legs, sourcesNamed, List.filterMap_eq_flatMap_toList, List.map_flatMap]
  congr 1
  funext x
  rw [leg?]
  cases x.track? name with
  | none => rfl
  | some t => rfl

/-- The open accumulator holds a metric, and those that have ended have handed it on to it. -/
structure Held (spec : MetricSpec) (now : Int) (xs : List Sheet) (x : Sheet)
    (values : List TimedValue) : Prop where
  isOpen : hourly? xs = some x
  track : x.track? spec.eventName = some ⟨spec, values⟩
  filled : values ≠ []
  tracks : ∀ y ∈ endedHourlies xs, ∀ t, y.track? spec.eventName = some t →
    t.spec = spec ∧ t.values ≠ []
  relay : Relay (legs spec.eventName xs) x.header.startMs values
  /-- An accumulator that starts after the last collection holds something from its own time. -/
  begun : x.header.startMs ≤ now ∨ ∃ v ∈ values, x.header.startMs ≤ v.timeMs
  /-- Where some have not held the metric yet, nothing is older than the first that has. -/
  whole : (∀ y ∈ endedHourlies xs, (y.track? spec.eventName).isSome) ∨
    ∀ v ∈ Leg.valuesOf (legs spec.eventName xs) ++ values,
      Relay.beginning (legs spec.eventName xs) x.header.startMs ≤ v.timeMs

/-- All accumulators that have ended did so up to now. -/
def EndedBy (now : Int) (xs : List Sheet) : Prop :=
  ∀ y ∈ endedHourlies xs, ∃ t, y.header.endMs = some t ∧ t ≤ now

/-- A metric is held from its first sample on. -/
structure Handed (spec : MetricSpec) (now : Int) (xs : List Sheet) : Prop where
  past : EndedBy now xs
  held : Lacks spec.eventName xs ∨ ∃ x values, Held spec now xs x values

/-- The metric, if it is held, has been handed on right now. -/
structure HandedOver (spec : MetricSpec) (now : Int) (xs : List Sheet) : Prop where
  past : EndedBy now xs
  held : Lacks spec.eventName xs ∨
    ∃ x v, Held spec now xs x [v] ∧ x.header.startMs = now

variable {spec : MetricSpec} {now : Int} {x : Sheet} {values : List TimedValue}

theorem handed_nil (spec : MetricSpec) (now : Int) : Handed spec now [] :=
  ⟨fun _ hy => (List.not_mem_nil hy).elim, .inl fun _ hy => (List.not_mem_nil hy).elim⟩

theorem Lacks.legs_eq (h : Lacks name xs) : legs name xs = [] := by
  apply List.filterMap_eq_nil_iff.2
  intro y hy
  obtain ⟨hy, hended⟩ := mem_endedHourlies.1 hy
  rw [leg?, h y hy (ReportRow.isEnded_iff.1 hended).1]
  rfl

namespace Held

/-- Nothing changes for the metric. -/
theorem of_same (h : Held spec now xs x values) {y : Sheet} (hopen : hourly? ys = some y)
    (htrack : y.track? spec.eventName = x.track? spec.eventName)
    (hstart : y.header.startMs = x.header.startMs)
    (hlegs : legs spec.eventName ys = legs spec.eventName xs)
    (hended : ∀ z ∈ endedHourlies ys, ∃ z' ∈ endedHourlies xs,
      z.track? spec.eventName = z'.track? spec.eventName) :
    Held spec now ys y values where
  isOpen := hopen
  track := htrack.trans h.track
  filled := h.filled
  tracks := by
    intro z hz t ht
    obtain ⟨z', hz', hsame⟩ := hended z hz
    exact h.tracks z' hz' t (hsame.symm.trans ht)
  relay := by
    rw [hlegs, hstart]
    exact h.relay
  begun := by
    rw [hstart]
    exact h.begun
  whole := by
    rw [hlegs, hstart]
    rcases h.whole with hall | hlate
    · apply Or.inl
      intro z hz
      obtain ⟨z', hz', hsame⟩ := hended z hz
      rw [hsame]
      exact hall z' hz'
    · exact .inr hlate

/-- A sample of the metric that is not from before the accumulator. -/
theorem add (h : Held spec now xs x values) {t : Int} {value : SampleValue}
    (ht : x.header.startMs ≤ t) (hlabel : value.stateLabel?.isSome)
    (hended : endedHourlies ys = endedHourlies xs)
    (hopen : hourly? ys = some (x.record spec t value)) :
    Held spec now ys (x.record spec t value)
      (TimedValue.byTime (values ++ [⟨t, value.kept⟩])) := by
  have hlegs : legs spec.eventName ys = legs spec.eventName xs := by rw [legs, hended, legs]
  have hmem : ∀ v, v ∈ TimedValue.byTime (values ++ [⟨t, value.kept⟩]) ↔
      v ∈ values ∨ v = ⟨t, value.kept⟩ := by
    intro v
    rw [TimedValue.byTime_eq, (sortedBy_perm _).mem_iff, List.mem_append, List.mem_singleton]
  constructor
  · exact hopen
  · rw [track?_record, if_pos rfl, h.track, Option.elim_some, Transaction.recorded_of_label hlabel]
  · exact List.ne_nil_of_mem ((hmem _).2 (.inr rfl))
  · rw [hended]
    exact h.tracks
  · rw [hlegs]
    exact h.relay.add ht
  · exact .inr ⟨_, (hmem _).2 (.inr rfl), ht⟩
  · rw [hended, hlegs]
    apply h.whole.imp_right
    intro hlate v hv
    rcases List.mem_append.1 hv with hv | hv
    · exact hlate v (List.mem_append_left _ hv)
    · rcases (hmem v).1 hv with hv | rfl
      · exact hlate v (List.mem_append_right _ hv)
      · exact h.relay.beginning_le.trans ht

/-- The first sample of a metric, in an accumulator that it is not from before. -/
theorem begin (h : Lacks spec.eventName xs) (hfree : x.track? spec.eventName = none) {t : Int}
    {value : SampleValue} (ht : x.header.startMs ≤ t) (hlabel : value.stateLabel?.isSome)
    (hended : endedHourlies ys = endedHourlies xs)
    (hopen : hourly? ys = some (x.record spec t value)) :
    Held spec now ys (x.record spec t value) [⟨t, value.kept⟩] := by
  have hlegs : legs spec.eventName ys = [] := by
    rw [legs, hended]
    exact h.legs_eq
  have hsorted : TimedValue.byTime [⟨t, value.kept⟩] = [⟨t, value.kept⟩] :=
    List.mergeSort_singleton _
  constructor
  · exact hopen
  · rw [track?_record, if_pos rfl, hfree, Option.elim_none, List.nil_append,
      Transaction.recorded_of_label hlabel, hsorted]
  · exact List.cons_ne_nil _ _
  · intro y hy u hu
    rw [hended] at hy
    obtain ⟨hy, hyended⟩ := mem_endedHourlies.1 hy
    rw [h y hy (ReportRow.isEnded_iff.1 hyended).1] at hu
    cases hu
  · rw [hlegs]
    exact .first _ _
  · exact .inr ⟨_, List.mem_singleton_self _, ht⟩
  · rw [hlegs]
    exact .inr (List.forall_mem_singleton.2 ht)

/-- The accumulator ends, and hands its newest value on to the next one. -/
theorem succeedIn {s : Store} (h : Held spec now xs x values) (hshows : s.Shows xs)
    (hcarry : spec.carryOver = true) {settings : Settings} {now' : Int} (hnow : now ≤ now')
    (hvalues : ∀ v ∈ values, v.timeMs ≤ now')
    (hyoung : ∀ v, TimedValue.newest? values = some v →
      now' - v.timeMs ≤ settings.retention.carryOverMaxAge) (version : Option String) :
    ∃ y v, Held spec now' (x.succeedIn settings version now' xs) y [v] ∧
      y.header.startMs = now' := by
  obtain ⟨v, hv⟩ := exists_newest? h.filled
  have hall : values.filter (fun v => decide (v.timeMs ≤ now')) = values :=
    List.filter_eq_self.2 fun v hv => decide_eq_true (hvalues v hv)
  have hcarried : carriedOf settings now' ⟨spec, values⟩ = some v := by
    rw [carriedOf, TimedValue.newestAt, hall, hv, Option.filter_some,
      if_pos (decide_eq_true (hyoung v hv))]
  have hx := (of_hourly? h.isOpen).1
  have hsucceeds : Succeeds now' spec.eventName (some ⟨spec, [v]⟩)
      (x.succeedIn settings version now' xs) :=
    succeedIn_succeeds (hshows.tracks_distinct hx) h.track hcarry hcarried
      (hshows.values_kept hx h.track v (TimedValue.newest?_mem hv))
  obtain ⟨y, hy, htrack⟩ := Option.bind_eq_some_iff.1 hsucceeds.track
  have hstart := hsucceeds.start y hy
  have hended : endedHourlies (x.succeedIn settings version now' xs) =
      endedHourlies xs ++ [x.ended now'] :=
    endedHourlies_succeedIn h.isOpen hshows.hourlies_eq
  have hlast : (x.ended now').track? spec.eventName = some ⟨spec, values⟩ := h.track
  have hlegs : legs spec.eventName (x.succeedIn settings version now' xs) =
      legs spec.eventName xs ++ [⟨x.header.startMs, now', values⟩] := by
    rw [legs, hended, List.filterMap_append, legs, List.filterMap_cons, leg?, hlast]
    rfl
  have hend : x.header.startMs ≤ now' := by
    rcases h.begun with hbegun | ⟨u, hu, hbegun⟩
    · exact hbegun.trans hnow
    · exact hbegun.trans (hvalues u hu)
  have hrelay := h.relay.hand hend hvalues
  rw [hv, Option.toList_some] at hrelay
  refine ⟨y, v, ⟨hy, htrack, List.cons_ne_nil _ _, ?_, ?_, ?_, ?_⟩, hstart⟩
  · intro z hz t ht
    rw [hended] at hz
    rcases List.mem_append.1 hz with hz | hz
    · exact h.tracks z hz t ht
    · rw [List.mem_singleton.1 hz, hlast] at ht
      obtain rfl := Option.some.inj ht
      exact ⟨rfl, h.filled⟩
  · rw [hlegs, hstart]
    exact hrelay
  · exact .inl hstart.le
  · rw [hended, hlegs, hstart, Relay.beginning_append_singleton, Leg.valuesOf_append_singleton]
    rcases h.whole with hall | hlate
    · apply Or.inl
      intro z hz
      rcases List.mem_append.1 hz with hz | hz
      · exact hall z hz
      · rw [List.mem_singleton.1 hz, hlast]
        rfl
    · apply Or.inr
      intro u hu
      rcases List.mem_append.1 hu with hu | hu
      · exact hlate u hu
      · rw [List.mem_singleton.1 hu]
        exact hlate v (List.mem_append_right _ (TimedValue.newest?_mem hv))

/-- If all that has ended is removed, the relay begins anew with what was handed on. -/
theorem drop (h : Held spec now xs x values) :
    Held spec now (xs.filter fun x => !x.header.isEnded .hourly) x values := by
  have hlegs : legs spec.eventName (xs.filter fun x => !x.header.isEnded .hourly) = [] := by
    rw [legs, endedHourlies_filter_not]
    rfl
  constructor
  · exact hourly?_filter_not h.isOpen
  · exact h.track
  · exact h.filled
  · intro y hy
    rw [endedHourlies_filter_not] at hy
    cases hy
  · rw [hlegs]
    exact .first _ _
  · exact h.begun
  · apply Or.inl
    intro y hy
    rw [endedHourlies_filter_not] at hy
    cases hy

theorem sessionsIn (h : Held spec now xs x values) (settings : Settings)
    (request : CollectRequest) : Held spec now (sessionsIn settings request xs).2 x values := by
  have hended := endedHourlies_sessionsIn settings request xs
  apply h.of_same (hourly?_sessionsIn settings request h.isOpen) rfl rfl
  · rw [legs, hended, legs]
  · intro z hz
    rw [hended] at hz
    exact ⟨z, hz, rfl⟩

/-- What holds the metric is not empty, and stays. -/
theorem tidyIn (h : Held spec now xs x values) (ages : RetentionSettings) (t : Int) :
    Held spec now (tidyIn ages t xs) (tidied (t - ages.accumulatorRetention) x) values := by
  have hxkind := (ReportRow.isOpenAs_iff.1 (of_hourly? h.isOpen).2).1
  have htrack : (tidied (t - ages.accumulatorRetention) x).track? spec.eventName =
      x.track? spec.eventName := by
    apply track?_tidied hxkind
    intro u hu
    rw [h.track] at hu
    obtain rfl := Option.some.inj hu
    exact h.filled
  have hsame : ∀ z ∈ endedHourlies xs,
      (tidied (t - ages.accumulatorRetention) z).track? spec.eventName =
        z.track? spec.eventName := by
    intro z hz
    exact track?_tidied (ReportRow.isEnded_iff.1 (mem_endedHourlies.1 hz).2).1 _
      fun u hu => (h.tracks z hz u hu).2
  have hempty : ∀ {z : Sheet} {u : Track}, z.track? spec.eventName = some u → z.tracks ≠ [] :=
    fun hu => List.ne_nil_of_mem (List.mem_of_find?_eq_some hu)
  apply h.of_same
  · exact hourly?_tidyIn ages t h.isOpen (hempty (htrack.trans h.track))
  · exact htrack
  · rfl
  · -- what is removed is no leg
    rw [legs, endedHourlies_tidyIn, List.filterMap_filter, List.filterMap_map, legs]
    apply List.filterMap_congr
    intro z hz
    have hleg : leg? spec.eventName (tidied (t - ages.accumulatorRetention) z) =
        leg? spec.eventName z := by
      rw [leg?, hsame z hz, leg?]
      rfl
    rw [Function.comp_apply]
    split
    · exact hleg
    · next hgone =>
      rw [← hleg, leg?]
      cases hu : (tidied (t - ages.accumulatorRetention) z).track? spec.eventName with
      | none => rfl
      | some u =>
        rw [List.isEmpty_eq_false_iff.2 (hempty hu)] at hgone
        exact absurd rfl hgone
  · intro z hz
    rw [endedHourlies_tidyIn] at hz
    obtain ⟨z', hz', rfl⟩ := List.mem_map.1 (List.mem_filter.1 hz).1
    exact ⟨z', hz', hsame z' hz'⟩

theorem othersIn (h : Held spec now xs x values) (settings : Settings) (request : CollectRequest)
    (hourly : MetricReport) (path : Option Path) :
    ∃ y, Held spec now (othersIn settings request hourly path xs).2 y values := by
  have hdaily : Held spec now (dailyIn settings request xs).2 x values := by
    rcases dailyIn_cases settings request xs with heq | heq
    · rw [heq]
      exact h
    · rw [heq]
      exact h.drop
  exact ⟨_, (hdaily.sessionsIn settings request).tidyIn _ _⟩

end Held

/-! ### Calls -/

theorem EndedBy.of_subset {now' : Int} (h : EndedBy now xs) (hnow : now ≤ now')
    (hys : ∀ y ∈ endedHourlies ys, ∃ x ∈ endedHourlies xs, y.header = x.header) :
    EndedBy now' ys := by
  intro y hy
  obtain ⟨x, hx, hheader⟩ := hys y hy
  obtain ⟨t, hend, ht⟩ := h x hx
  exact ⟨t, hheader ▸ hend, ht.trans hnow⟩

/-- A sample for the accumulator. -/
theorem Handed.takeIn (h : Handed spec now xs) {sample : MetricSample}
    (hvalid : sample.validate = .ok ()) (hkind : sample.reportKind = .hourly)
    (hsample : sample.eventName = spec.eventName → sample.spec = spec ∧
      sample.value.stateLabel?.isSome ∧
        ∀ x, hourly? xs = some x → x.header.startMs ≤ sample.timeMs)
    (version : Option String) : Handed spec now (takeIn version sample xs) := by
  have hadmits := (Transaction.of_validate hvalid).2
  rw [hkind] at hadmits
  have hname : sample.sessionName = none := hadmits
  have hended := endedHourlies_takeIn hkind version xs
  have hopen := hourly?_takeIn hkind hname version xs
  constructor
  · unfold EndedBy
    rw [hended]
    exact h.past
  by_cases hmetric : sample.eventName = spec.eventName
  · obtain ⟨rfl, hlabel, hstart⟩ := hsample hmetric
    apply Or.inr
    rcases h.held with hlacks | ⟨x, values, hheld⟩
    · refine ⟨_, _, Held.begin hlacks ?_ ?_ hlabel hended hopen⟩
      · cases hx : hourly? xs with
        | none => rfl
        | some x =>
          obtain ⟨hx, hxopen⟩ := of_hourly? hx
          exact hlacks x hx (ReportRow.isOpenAs_iff.1 hxopen).1
      · cases hx : hourly? xs with
        | none => exact le_rfl
        | some x => exact hstart x hx
    · rw [hheld.isOpen, Option.getD_some] at hopen
      exact ⟨_, _, hheld.add (hstart x hheld.isOpen) hlabel hended hopen⟩
  · have hother : sample.spec.eventName ≠ spec.eventName := hmetric
    rcases h.held with hlacks | ⟨x, values, hheld⟩
    · exact .inl (hlacks.takeIn hmetric version)
    · rw [hheld.isOpen, Option.getD_some] at hopen
      refine .inr ⟨_, values, hheld.of_same hopen ?_ rfl ?_ ?_⟩
      · rw [track?_record, if_neg hother]
      · rw [legs, hended, legs]
      · intro z hz
        rw [hended] at hz
        exact ⟨z, hz, rfl⟩

/-- The hourly stage. -/
theorem Handed.hourlyIn {s : Store} (h : Handed spec now xs) (hshows : s.Shows xs)
    (hcarry : spec.carryOver = true) {settings : Settings} {request : CollectRequest}
    (hnow : now ≤ request.nowMs)
    (hopen : ∀ x t, hourly? xs = some x → x.track? spec.eventName = some t →
      (∀ v ∈ t.values, v.timeMs ≤ request.nowMs) ∧
        ∀ v, TimedValue.newest? t.values = some v →
          request.nowMs - v.timeMs ≤ settings.retention.carryOverMaxAge)
    (version : Option String) (exportName : String) (files : Files) :
    HandedOver spec request.nowMs
      (hourlyIn settings version request exportName xs files).2.1 := by
  unfold Sheet.hourlyIn
  cases hx : hourly? xs with
  | none =>
    refine ⟨h.past.of_subset hnow fun y hy => ⟨y, hy, rfl⟩, ?_⟩
    rcases h.held with hlacks | ⟨x, values, hheld⟩
    · exact .inl hlacks
    · rw [hheld.isOpen] at hx
      cases hx
  | some x =>
    dsimp only
    constructor
    · intro y hy
      rw [endedHourlies_succeedIn hx hshows.hourlies_eq] at hy
      rcases List.mem_append.1 hy with hy | hy
      · obtain ⟨t, hend, ht⟩ := h.past y hy
        exact ⟨t, hend, ht.trans hnow⟩
      · rw [List.mem_singleton.1 hy]
        exact ⟨request.nowMs, rfl, le_rfl⟩
    · rcases h.held with hlacks | ⟨x', values, hheld⟩
      · obtain ⟨hmem, hxopen⟩ := of_hourly? hx
        have hnone := hlacks x hmem (ReportRow.isOpenAs_iff.1 hxopen).1
        exact .inl (hlacks.succeedIn hnone settings version request.nowMs)
      · obtain rfl := Option.some.inj (hx.symm.trans hheld.isOpen)
        obtain ⟨hvalues, hyoung⟩ := hopen x _ hx hheld.track
        exact .inr (hheld.succeedIn hshows hcarry hnow hvalues hyoung version)

/-- The stages after the hourly one. -/
theorem HandedOver.othersIn (h : HandedOver spec now xs) (settings : Settings)
    (request : CollectRequest) (hourly : MetricReport) (path : Option Path) :
    Handed spec now (othersIn settings request hourly path xs).2 := by
  constructor
  · apply h.past.of_subset le_rfl
    intro y hy
    unfold Sheet.othersIn at hy
    dsimp only at hy
    rw [endedHourlies_tidyIn] at hy
    obtain ⟨z, hz, rfl⟩ := List.mem_map.1 (List.mem_filter.1 hy).1
    rw [endedHourlies_sessionsIn] at hz
    refine ⟨z, ?_, rfl⟩
    rcases dailyIn_cases settings request xs with heq | heq
    · rwa [heq] at hz
    · rw [heq, endedHourlies_filter_not] at hz
      cases hz
  · rcases h.held with hlacks | ⟨x, v, hheld, -⟩
    · exact .inl (hlacks.othersIn settings request hourly path)
    · obtain ⟨y, hy⟩ := hheld.othersIn settings request hourly path
      exact .inr ⟨y, [v], hy⟩

/-! ### The day -/

theorem mem_legs {l : Leg} :
    l ∈ legs name xs ↔ ∃ y ∈ endedHourlies xs, leg? name y = some l := List.mem_filterMap

theorem mem_headers {r : ReportRow} :
    r ∈ (sortedBy (·.header.startMs) xs).map (·.header) ↔ ∃ y ∈ xs, y.header = r := by
  rw [List.mem_map]
  constructor
  · rintro ⟨y, hy, hyr⟩
    exact ⟨y, (sortedBy_perm _).mem_iff.1 hy, hyr⟩
  · rintro ⟨y, hy, hyr⟩
    exact ⟨y, (sortedBy_perm _).mem_iff.2 hy, hyr⟩

theorem daySpan_start_le {y : Sheet} (hy : y ∈ xs) (now : Int) :
    (daySpan now xs).startMs ≤ y.header.startMs :=
  Collecting.span_start_le (mem_headers.2 ⟨y, hy, rfl⟩)

theorem le_daySpan_start {y : Sheet} (hy : y ∈ xs) {t : Int} (h : ∀ z ∈ xs, t ≤ z.header.startMs)
    (now : Int) : t ≤ (daySpan now xs).startMs := by
  apply Collecting.le_span_start (mem_headers.2 ⟨y, hy, rfl⟩)
  intro r hr
  obtain ⟨z, hz, rfl⟩ := mem_headers.1 hr
  exact h z hz

/-- If an accumulator ended just now, so does the day. -/
theorem EndedBy.daySpan_end (h : EndedBy now xs) {y : Sheet} (hy : y ∈ endedHourlies xs)
    (hend : y.header.endMs = some now) : (daySpan now (endedHourlies xs)).endMs = now := by
  have hmem := mem_headers.2 ⟨y, hy, rfl⟩
  apply le_antisymm
  · apply Collecting.span_end_le hmem hend
    intro r hr e he
    obtain ⟨z, hz, rfl⟩ := mem_headers.1 hr
    obtain ⟨t, hzend, ht⟩ := h z hz
    rw [he] at hzend
    exact (Option.some.inj hzend).trans_le ht
  · exact Collecting.le_span_end hmem hend

/-- A leg has the times of its accumulator. -/
theorem EndedBy.of_mem_legs (h : EndedBy now xs) {l : Leg} (hl : l ∈ legs name xs) :
    ∃ y ∈ endedHourlies xs, y.header.startMs = l.startMs ∧ y.header.endMs = some l.endMs := by
  obtain ⟨y, hy, hyl⟩ := mem_legs.1 hl
  obtain ⟨t, -, rfl⟩ := Option.map_eq_some_iff.1 hyl
  obtain ⟨e, hend, -⟩ := h y hy
  refine ⟨y, hy, rfl, ?_⟩
  rw [hend, Option.getD_some]

/-- A scan over the day comes to the moments of the accumulators. -/
theorem Held.momentsIn_daySpan (h : Held spec now xs x values) (hpast : EndedBy now xs)
    (hstart : x.header.startMs = now) (p : String → Bool) :
    momentsIn (daySpan now (endedHourlies xs)).startMs (daySpan now (endedHourlies xs)).endMs p
        (TimedValue.stateAt ((daySpan now (endedHourlies xs)).readOf
          (sourcesNamed spec.eventName (endedHourlies xs)))) =
      ((legs spec.eventName xs).map (Leg.moments p)).sum := by
  have hrelay := h.relay
  have hwhole := h.whole
  rw [hstart] at hrelay hwhole
  rw [sourcesNamed_eq]
  by_cases hnone : legs spec.eventName xs = []
  · rw [hnone, List.map_nil, Window.readOf_nil]
    exact momentsIn_none fun _ _ _ => rfl
  obtain ⟨last, hlast, hlastEnd⟩ := hrelay.exists_end hnone
  obtain ⟨z, hz, -, hend⟩ := hpast.of_mem_legs hlast
  rw [hlastEnd] at hend
  have hbegin : (daySpan now (endedHourlies xs)).startMs ≤
      Relay.beginning (legs spec.eventName xs) now := by
    obtain ⟨first, rest, hsplit⟩ := List.exists_cons_of_ne_nil hnone
    obtain ⟨y, hy, hystart, -⟩ := hpast.of_mem_legs (hsplit ▸ List.mem_cons_self)
    rw [hsplit]
    exact (daySpan_start_le hy now).trans_eq hystart
  apply hrelay.momentsIn_readOf (hpast.daySpan_end hz hend) hbegin
  rcases hwhole with hall | hlate
  · -- all of them are legs, and none starts before the first one
    refine .inl (le_antisymm hbegin ?_)
    apply le_daySpan_start hz
    intro y hy
    obtain ⟨t, ht⟩ := Option.isSome_iff_exists.1 (hall y hy)
    have hmem : (⟨y.header.startMs, y.header.endMs.getD y.header.startMs, t.values⟩ : Leg) ∈
        legs spec.eventName xs := by
      apply mem_legs.2
      refine ⟨y, hy, ?_⟩
      rw [leg?, ht, Option.map_some]
    exact hrelay.beginning_le_start _ hmem
  · exact .inr hlate

theorem HandedOver.momentsIn_daySpan (h : HandedOver spec now xs) (p : String → Bool) :
    momentsIn (daySpan now (endedHourlies xs)).startMs (daySpan now (endedHourlies xs)).endMs p
        (TimedValue.stateAt ((daySpan now (endedHourlies xs)).readOf
          (sourcesNamed spec.eventName (endedHourlies xs)))) =
      ((legs spec.eventName xs).map (Leg.moments p)).sum := by
  rcases h.held with hlacks | ⟨x, v, hheld, hstart⟩
  · rw [sourcesNamed_eq, hlacks.legs_eq, List.map_nil, Window.readOf_nil]
    exact momentsIn_none fun _ _ _ => rfl
  · exact hheld.momentsIn_daySpan h.past hstart p

end Sheet

end Telemetry
