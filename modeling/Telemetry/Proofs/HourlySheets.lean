import Telemetry.Proofs.SheetRuns

/-!
# Hourly accumulators among the sheets

At most one hourly accumulator is open, and it comes after all that have ended.  What an operation or
a stage of a collection makes of the sheets is told here as far as the hourly accumulators go: which
ones have ended, which one is open, and what is in them under a name.
-/

namespace Telemetry

theorem find?_filter_of {α : Type} {p q : α → Bool} {a : α} (hq : q a = true) {xs : List α}
    (h : xs.find? p = some a) : (xs.filter q).find? p = some a := by
  obtain ⟨hp, before, after, rfl, hbefore⟩ := List.find?_eq_some_iff_append.1 h
  apply List.find?_eq_some_iff_append.2
  refine ⟨hp, before.filter q, after.filter q, ?_, fun x hx => hbefore x (List.mem_filter.1 hx).1⟩
  rw [List.filter_append, List.filter_cons_of_pos hq]

/-- What is found under a name once values are put under some name. -/
theorem Track.find?_put (spec : MetricSpec) (added : List TimedValue) (tracks : List Track)
    (name : String) :
    (put spec added tracks).find? (isNamed name) =
      if spec.eventName = name then
        some ⟨spec, TimedValue.byTime
          (((tracks.find? (isNamed name)).elim [] (·.values)) ++ added)⟩
      else tracks.find? (isNamed name) := by
  have hnew : ∀ values : List TimedValue,
      isNamed name ⟨spec, values⟩ = decide (spec.eventName = name) := by
    intro values
    rw [isNamed_mk, Bool.eq_iff_iff, beq_iff_eq, decide_eq_true_eq]
  by_cases hany : tracks.any (isNamed spec.eventName) = true
  · have hcomp : ∀ t : Track, isNamed name (if t.isNamed spec.eventName then
        ⟨spec, TimedValue.byTime (t.values ++ added)⟩ else t) = t.isNamed name := by
      intro t
      split
      · next hnamed =>
        rw [isNamed_mk, isNamed, beq_iff_eq.1 hnamed]
      · rfl
    rw [put, if_pos hany, List.find?_map, funext (f := isNamed name ∘ _) hcomp]
    by_cases hname : spec.eventName = name
    · subst hname
      obtain ⟨t, ht⟩ := Option.isSome_iff_exists.1 (List.find?_isSome.2 (List.any_eq_true.1 hany))
      rw [ht, if_pos rfl, Option.map_some, if_pos (List.find?_some ht)]
      rfl
    · rw [if_neg hname]
      cases ht : tracks.find? (isNamed name) with
      | none => rfl
      | some t =>
        have hfound : t.isNamed name = true := List.find?_some ht
        have hother : ¬t.isNamed spec.eventName = true := by
          intro hnamed
          exact hname ((beq_iff_eq.1 hnamed).symm.trans (beq_iff_eq.1 hfound))
        rw [Option.map_some, if_neg hother]
  · rw [put, if_neg hany, List.find?_append, List.find?_singleton, hnew]
    by_cases hname : spec.eventName = name
    · have hnone : tracks.find? (isNamed name) = none := by
        apply List.find?_eq_none.2
        intro t ht hnamed
        exact hany (List.any_eq_true.2 ⟨t, ht, hname ▸ hnamed⟩)
      simp [hname, hnone]
    · simp [hname]

namespace Sheet

variable {name : String} {xs : List Sheet}

/-- A new hourly accumulator. -/
def started (t : Int) (version : Option String) : Sheet :=
  ⟨⟨0, .hourly, none, t, none, version⟩, []⟩

/-- An accumulator that has ended. -/
def ended (t : Int) (x : Sheet) : Sheet := { x with header := { x.header with endMs := some t } }

theorem track?_record (spec : MetricSpec) (t : Int) (value : SampleValue) (x : Sheet)
    (name : String) :
    (x.record spec t value).track? name =
      if spec.eventName = name then
        some ⟨spec, TimedValue.byTime
          (((x.track? name).elim [] (·.values)) ++ Transaction.recorded t value)⟩
      else x.track? name :=
  Track.find?_put spec _ x.tracks name

theorem of_hourly? {x : Sheet} (h : hourly? xs = some x) :
    x ∈ xs ∧ x.header.isOpenAs .hourly none = true := by
  have hopen := List.find?_some h
  exact ⟨List.mem_of_find?_eq_some h, hopen⟩

theorem mem_endedHourlies {x : Sheet} :
    x ∈ endedHourlies xs ↔ x ∈ xs ∧ x.header.isEnded .hourly = true := List.mem_filter

/-- Nothing is open that has ended. -/
theorem not_isOpenAs_of_isEnded {kind kind' : ReportKind} {name : Option String} {r : ReportRow}
    (h : r.isEnded kind = true) : r.isOpenAs kind' name = false := by
  rw [← Bool.not_eq_true, ReportRow.isOpenAs_iff]
  exact fun hopen => (ReportRow.isEnded_iff.1 h).2 hopen.2.2

/-! ### Recording -/

theorem endedHourlies_recordWhere {p : ReportRow → Bool}
    (hp : ∀ r, r.isEnded .hourly = true → p r = false) (spec : MetricSpec) (t : Int)
    (value : SampleValue) (xs : List Sheet) :
    endedHourlies (recordWhere p spec t value xs) = endedHourlies xs := by
  have hcomp : ∀ x : Sheet, (if p x.header then x.record spec t value else x).header.isEnded .hourly =
      x.header.isEnded .hourly := by
    intro x
    split
    · rfl
    · rfl
  rw [endedHourlies, recordWhere, List.filter_map, endedHourlies]
  change (xs.filter fun x => (if p x.header then x.record spec t value else x).header.isEnded
    .hourly).map _ = _
  simp only [hcomp]
  refine (List.map_congr_left fun x hx => ?_).trans (List.map_id _)
  rw [hp _ (List.mem_filter.1 hx).2, if_neg Bool.false_ne_true]
  rfl

theorem hourly?_recordWhere (p : ReportRow → Bool) (spec : MetricSpec) (t : Int)
    (value : SampleValue) (xs : List Sheet) :
    hourly? (recordWhere p spec t value xs) =
      (hourly? xs).map fun x => if p x.header then x.record spec t value else x := by
  have hcomp : ∀ x : Sheet,
      (if p x.header then x.record spec t value else x).header.isOpenAs .hourly none =
        x.header.isOpenAs .hourly none := by
    intro x
    split
    · rfl
    · rfl
  rw [hourly?, recordWhere, List.find?_map, hourly?]
  congr 2
  exact funext hcomp

/-- Recording in the open accumulator. -/
theorem hourly?_record (spec : MetricSpec) (t : Int) (value : SampleValue) (xs : List Sheet) :
    hourly? (recordWhere (·.isOpenAs .hourly none) spec t value xs) =
      (hourly? xs).map (record spec t value) := by
  rw [hourly?_recordWhere]
  cases hopen : hourly? xs with
  | none => rfl
  | some x => rw [Option.map_some, if_pos (of_hourly? hopen).2, Option.map_some]

theorem endedHourlies_startIn (kind : ReportKind) (name : Option String) (t : Int)
    (version : Option String) (xs : List Sheet) :
    endedHourlies (startIn kind name t version xs) = endedHourlies xs := by
  unfold startIn
  split
  · rfl
  · rw [endedHourlies, List.filter_append, List.filter_cons_of_neg (by simp [ReportRow.isEnded]),
      List.filter_nil, List.append_nil, endedHourlies]

/-- A new accumulator is started unless one is open. -/
theorem hourly?_startIn (t : Int) (version : Option String) (xs : List Sheet) :
    hourly? (startIn .hourly none t version xs) = some ((hourly? xs).getD (started t version)) := by
  unfold startIn
  split
  · next hany =>
    obtain ⟨x, hx⟩ := Option.isSome_iff_exists.1 (List.find?_isSome.2 (List.any_eq_true.1 hany))
    have hx : hourly? xs = some x := hx
    rw [hx, Option.getD_some]
  · next hnone =>
    have hx : hourly? xs = none := by
      apply List.find?_eq_none.2
      intro x hx hopen
      exact hnone (List.any_eq_true.2 ⟨x, hx, hopen⟩)
    rw [hx, hourly?, List.find?_append]
    change (hourly? xs).or _ = _
    rw [hx]
    rfl

/-! ### Samples -/

theorem endedHourlies_takeIn {sample : MetricSample} (hkind : sample.reportKind = .hourly)
    (version : Option String) (xs : List Sheet) :
    endedHourlies (takeIn version sample xs) = endedHourlies xs := by
  have hsession : ∀ r : ReportRow, r.isEnded .hourly = true →
      r.isSessionAt sample.timeMs = false := by
    intro r hr
    simp [ReportRow.isSessionAt, (ReportRow.isEnded_iff.1 hr).1]
  rw [takeIn, if_pos hkind, endedHourlies_recordWhere hsession,
    endedHourlies_recordWhere fun r hr => not_isOpenAs_of_isEnded hr, endedHourlies_startIn]

/-- A sample is recorded in the open accumulator, or in a new one. -/
theorem hourly?_takeIn {sample : MetricSample} (hkind : sample.reportKind = .hourly)
    (hname : sample.sessionName = none) (version : Option String) (xs : List Sheet) :
    hourly? (takeIn version sample xs) =
      some (((hourly? xs).getD (started sample.timeMs version)).record sample.spec sample.timeMs
        sample.value) := by
  have hsession : ∀ x : Sheet, x.header.isOpenAs .hourly none = true →
      x.header.isSessionAt sample.timeMs = false := by
    intro x hx
    simp [ReportRow.isSessionAt, (ReportRow.isOpenAs_iff.1 hx).1]
  rw [takeIn, if_pos hkind, hkind, hname, hourly?_recordWhere, hourly?_record, hourly?_startIn,
    Option.map_some, Option.map_some]
  have hopen : ((hourly? xs).getD (started sample.timeMs version)).header.isOpenAs .hourly none =
      true := by
    cases hx : hourly? xs with
    | none => rfl
    | some x => exact (of_hourly? hx).2
  refine congrArg some (if_neg ?_)
  rw [Bool.not_eq_true]
  exact hsession _ hopen

/-! ### The end of the accumulator -/

theorem endedHourlies_endWhere (now : Int)
    (h : xs.filter (fun x => x.header.isEnded .hourly || x.header.isOpenAs .hourly none) =
      endedHourlies xs ++ (hourly? xs).toList) :
    endedHourlies (endWhere (·.isOpenAs .hourly none) now xs) =
      endedHourlies xs ++ (hourly? xs).toList.map (ended now) := by
  have hcomp : ∀ x : Sheet, (if x.header.isOpenAs .hourly none then
      { x with header := { x.header with endMs := some now } } else x).header.isEnded .hourly =
        (x.header.isEnded .hourly || x.header.isOpenAs .hourly none) := by
    intro x
    split
    · next hopen =>
      have hkind := (ReportRow.isOpenAs_iff.1 hopen).1
      simp [hopen, ReportRow.isEnded, hkind]
    · next hclosed => simp [hclosed]
  rw [endedHourlies, endWhere, List.filter_map]
  change (xs.filter fun x => (if x.header.isOpenAs .hourly none then
      { x with header := { x.header with endMs := some now } } else x).header.isEnded
    .hourly).map _ = _
  simp only [hcomp]
  rw [h, List.map_append]
  congr 1
  · refine (List.map_congr_left fun x hx => ?_).trans (List.map_id _)
    rw [not_isOpenAs_of_isEnded (mem_endedHourlies.1 hx).2, if_neg Bool.false_ne_true]
    rfl
  · apply List.map_congr_left
    intro x hx
    rw [if_pos (of_hourly? (Option.mem_toList.1 hx)).2]
    rfl

theorem hourly?_endWhere (now : Int) (xs : List Sheet) :
    hourly? (endWhere (·.isOpenAs .hourly none) now xs) = none := by
  apply List.find?_eq_none.2
  intro y hy hopen
  obtain ⟨x, hx, rfl⟩ := List.mem_map.1 hy
  split at hopen
  · cases (ReportRow.isOpenAs_iff.1 hopen).2.2
  · next hclosed => exact hclosed hopen

/-! ### Carrying over -/

section Carry

variable {settings : Settings} {version : Option String} {now : Int}

/-- What is carried over of a metric. -/
def carriedOf (settings : Settings) (now : Int) (t : Track) : Option TimedValue :=
  (TimedValue.newestAt t.values now).filter fun v =>
    decide (now - v.timeMs ≤ settings.retention.carryOverMaxAge)

theorem carryOne_eq (settings : Settings) (version : Option String) (now : Int) (xs : List Sheet)
    (t : Track) :
    carryOne settings version now xs t = (carriedOf settings now t).elim xs fun v =>
      recordWhere (·.isOpenAs .hourly none) t.spec v.timeMs v.value
        (startIn .hourly none now version xs) := by
  rw [carryOne, carriedOf]
  split
  · next h => rw [h, Option.elim_none]
  · next h => rw [h, Option.elim_some]

theorem endedHourlies_carryOne (xs : List Sheet) (t : Track) :
    endedHourlies (carryOne settings version now xs t) = endedHourlies xs := by
  rw [carryOne_eq]
  cases carriedOf settings now t with
  | none => rfl
  | some v =>
    rw [Option.elim_some, endedHourlies_recordWhere fun r hr => not_isOpenAs_of_isEnded hr,
      endedHourlies_startIn]

theorem endedHourlies_foldl_carryOne (ts : List Track) :
    ∀ xs : List Sheet,
      endedHourlies (ts.foldl (carryOne settings version now) xs) = endedHourlies xs := by
  induction ts with
  | nil => exact fun _ => rfl
  | cons t ts ih =>
    intro xs
    rw [List.foldl_cons, ih, endedHourlies_carryOne]

/-- If an accumulator is open, it was started at a time, and holds this under a name. -/
structure Succeeds (now : Int) (name : String) (track : Option Track) (xs : List Sheet) :
    Prop where
  start : ∀ x, hourly? xs = some x → x.header.startMs = now
  track : (hourly? xs).bind (·.track? name) = track

theorem Succeeds.carryOne {track : Option Track} (h : Succeeds now name track xs)
    (settings : Settings) (version : Option String) (t : Track) :
    Succeeds now name
      (if t.spec.eventName = name then
        ((carriedOf settings now t).map fun v => ⟨t.spec, TimedValue.byTime
          ((track.elim [] (·.values)) ++ Transaction.recorded v.timeMs v.value)⟩).or track
      else track)
      (carryOne settings version now xs t) := by
  rw [carryOne_eq]
  cases carriedOf settings now t with
  | none =>
    rw [Option.elim_none, Option.map_none, Option.none_or, ite_self]
    exact h
  | some v =>
    have hopen : hourly? (recordWhere (·.isOpenAs .hourly none) t.spec v.timeMs v.value
        (startIn .hourly none now version xs)) =
        some (((hourly? xs).getD (started now version)).record t.spec v.timeMs v.value) := by
      rw [hourly?_record, hourly?_startIn, Option.map_some]
    -- a new accumulator holds nothing yet
    have hold : ((hourly? xs).getD (started now version)).track? name = track := by
      rw [← h.track]
      cases hourly? xs with
      | none => rfl
      | some x => rfl
    rw [Option.elim_some]
    constructor
    · intro x hx
      obtain rfl := Option.some.inj (hopen.symm.trans hx)
      change ((hourly? xs).getD (started now version)).header.startMs = now
      cases hx : hourly? xs with
      | none => rfl
      | some x => exact h.start x hx
    · rw [hopen, Option.bind_some, track?_record, hold, Option.map_some, Option.some_or]

theorem Succeeds.foldl_carryOne (settings : Settings) (version : Option String)
    (ts : List Track) : ∀ {track : Option Track} {xs : List Sheet}, Succeeds now name track xs →
      (∀ t ∈ ts, t.spec.eventName ≠ name) →
      Succeeds now name track (ts.foldl (Sheet.carryOne settings version now) xs) := by
  induction ts with
  | nil => exact fun h _ => h
  | cons t ts ih =>
    intro track xs h hts
    rw [List.forall_mem_cons] at hts
    have hstep := h.carryOne settings version t
    rw [if_neg hts.1] at hstep
    exact ih hstep hts.2

variable {x : Sheet}

theorem endedHourlies_succeedIn (hopen : hourly? xs = some x)
    (h : xs.filter (fun x => x.header.isEnded .hourly || x.header.isOpenAs .hourly none) =
      endedHourlies xs ++ (hourly? xs).toList) :
    endedHourlies (x.succeedIn settings version now xs) = endedHourlies xs ++ [ended now x] := by
  rw [succeedIn, endedHourlies_foldl_carryOne, endedHourlies_endWhere now h, hopen]
  rfl

/-- The successor holds a copy of what is carried over of a metric. -/
theorem succeedIn_succeeds
    (hdistinct : x.tracks.Pairwise fun a b => a.spec.eventName ≠ b.spec.eventName) {t : Track}
    (ht : x.track? name = some t) (hcarry : t.spec.carryOver = true) {v : TimedValue}
    (hv : carriedOf settings now t = some v) (hkept : v.value.IsKept) :
    Succeeds now name (some ⟨t.spec, [v]⟩) (x.succeedIn settings version now xs) := by
  obtain ⟨hnamed, before, after, hsplit, hbefore⟩ := List.find?_eq_some_iff_append.1 ht
  have hname : t.spec.eventName = name := beq_iff_eq.1 hnamed
  rw [hsplit, List.pairwise_append, List.pairwise_cons] at hdistinct
  have hstart : Succeeds now name none (endWhere (·.isOpenAs .hourly none) now xs) := by
    constructor
    · intro y hy
      rw [hourly?_endWhere] at hy
      cases hy
    · rw [hourly?_endWhere]
      rfl
  -- nothing of this name comes before the metric or after it
  have hnone : ∀ a ∈ before.filter (·.spec.carryOver), a.spec.eventName ≠ name := by
    intro a ha haname
    have hnot := hbefore a (List.mem_filter.1 ha).1
    rw [Track.isNamed, haname, beq_self_eq_true] at hnot
    cases hnot
  have hnone' : ∀ b ∈ after.filter (·.spec.carryOver), b.spec.eventName ≠ name := by
    intro b hb hbname
    exact hdistinct.2.1.1 b (List.mem_filter.1 hb).1 (hname.trans hbname.symm)
  have hrecorded : Transaction.recorded v.timeMs v.value = [v] := by
    rw [Transaction.recorded, hkept.isNaN, hkept.kept]
    rfl
  have hsorted : TimedValue.byTime [v] = [v] := List.mergeSort_singleton v
  have hmiddle := (hstart.foldl_carryOne settings version _ hnone).carryOne settings version t
  rw [if_pos hname, hv, Option.map_some, Option.some_or, Option.elim_none, List.nil_append,
    hrecorded, hsorted] at hmiddle
  have hcarried : (before ++ t :: after).filter (·.spec.carryOver) =
      before.filter (·.spec.carryOver) ++ t :: after.filter (·.spec.carryOver) := by
    rw [List.filter_append, List.filter_cons_of_pos (by exact hcarry)]
  rw [succeedIn, hsplit, hcarried, List.foldl_append, List.foldl_cons]
  exact hmiddle.foldl_carryOne settings version _ hnone'

end Carry

/-! ### Later stages -/

/-- The daily stage drops the accumulators that have ended, or leaves all sheets alone. -/
theorem dailyIn_cases (settings : Settings) (request : CollectRequest) (xs : List Sheet) :
    (dailyIn settings request xs).2 = xs ∨
      (dailyIn settings request xs).2 = xs.filter fun x => !x.header.isEnded .hourly := by
  unfold dailyIn
  dsimp only
  split
  · exact .inl rfl
  split
  · exact .inr rfl
  split
  · exact .inl rfl
  · exact .inr rfl

theorem endedHourlies_filter_not (xs : List Sheet) :
    endedHourlies (xs.filter fun x => !x.header.isEnded .hourly) = [] := by
  apply List.filter_eq_nil_iff.2
  intro x hx hended
  have hnot := (List.mem_filter.1 hx).2
  rw [hended] at hnot
  cases hnot

theorem hourly?_filter_not {x : Sheet} (h : hourly? xs = some x) :
    hourly? (xs.filter fun x => !x.header.isEnded .hourly) = some x := by
  apply find?_filter_of _ h
  rw [Bool.not_eq_true', ← Bool.not_eq_true]
  intro hended
  have hopen := (of_hourly? h).2
  rw [not_isOpenAs_of_isEnded hended] at hopen
  cases hopen

theorem not_isDue_of_hourly {settings : Settings} {request : CollectRequest} {r : ReportRow}
    (h : r.kind = .hourly) : r.isDue settings request = false := by
  simp [ReportRow.isDue, h]

theorem endedHourlies_sessionsIn (settings : Settings) (request : CollectRequest)
    (xs : List Sheet) :
    endedHourlies (sessionsIn settings request xs).2 = endedHourlies xs := by
  unfold endedHourlies sessionsIn
  refine filter_filter_of_imp fun x _ hended => ?_
  rw [not_isDue_of_hourly (ReportRow.isEnded_iff.1 hended).1, Bool.not_false]

theorem hourly?_sessionsIn (settings : Settings) (request : CollectRequest) {x : Sheet}
    (h : hourly? xs = some x) : hourly? (sessionsIn settings request xs).2 = some x := by
  apply find?_filter_of _ h
  rw [not_isDue_of_hourly (ReportRow.isOpenAs_iff.1 (of_hourly? h).2).1, Bool.not_false]

/-- An hourly accumulator keeps what it holds. -/
theorem track?_tidied {x : Sheet} (hkind : x.header.kind = .hourly) (cutoff : Int)
    (h : ∀ t, x.track? name = some t → t.values ≠ []) :
    (tidied cutoff x).track? name = x.track? name := by
  have hother : x.header.isOpenAs .daily none = false := by
    rw [← Bool.not_eq_true, ReportRow.isOpenAs_iff, hkind]
    exact fun hdaily => by cases hdaily.1
  have htracks : (tidied cutoff x).tracks = x.tracks.filter fun t => !t.values.isEmpty := by
    rw [tidied, hother]
    rfl
  rw [track?, htracks]
  cases ht : x.track? name with
  | none =>
    apply List.find?_eq_none.2
    intro t ht'
    exact List.find?_eq_none.1 ht t (List.mem_filter.1 ht').1
  | some t =>
    apply find?_filter_of _ ht
    rw [Bool.not_eq_true', List.isEmpty_eq_false_iff]
    exact h t ht

theorem endedHourlies_tidyIn (ages : RetentionSettings) (now : Int) (xs : List Sheet) :
    endedHourlies (tidyIn ages now xs) =
      ((endedHourlies xs).map (tidied (now - ages.accumulatorRetention))).filter fun x =>
        !x.tracks.isEmpty || decide (now - ages.orphanReportExpiry ≤ x.header.startMs) := by
  rw [endedHourlies, tidyIn, List.filter_comm, List.filter_map]
  rfl

theorem hourly?_tidyIn (ages : RetentionSettings) (now : Int) {x : Sheet}
    (h : hourly? xs = some x)
    (htracks : (tidied (now - ages.accumulatorRetention) x).tracks ≠ []) :
    hourly? (tidyIn ages now xs) = some (tidied (now - ages.accumulatorRetention) x) := by
  rw [hourly?, tidyIn]
  apply find?_filter_of
  · rw [List.isEmpty_eq_false_iff.2 htracks]
    rfl
  · rw [List.find?_map]
    change (hourly? xs).map _ = _
    rw [h, Option.map_some]

/-! ### Lacking a metric -/

/-- No hourly accumulator holds anything under the name. -/
def Lacks (name : String) (xs : List Sheet) : Prop :=
  ∀ x ∈ xs, x.header.kind = .hourly → x.track? name = none

namespace Lacks

theorem map {f : Sheet → Sheet} (h : Lacks name xs)
    (hf : ∀ x, x.header.kind = .hourly → x.track? name = none → (f x).track? name = none)
    (hkind : ∀ x, (f x).header.kind = x.header.kind) : Lacks name (xs.map f) := by
  intro y hy hourly
  obtain ⟨x, hx, rfl⟩ := List.mem_map.1 hy
  rw [hkind] at hourly
  exact hf x hourly (h x hx hourly)

theorem filter (h : Lacks name xs) (p : Sheet → Bool) : Lacks name (xs.filter p) :=
  fun x hx => h x (List.mem_filter.1 hx).1

theorem startIn (h : Lacks name xs) (kind : ReportKind) (session : Option String) (t : Int)
    (version : Option String) : Lacks name (startIn kind session t version xs) := by
  unfold Sheet.startIn
  split
  · exact h
  · intro x hx hourly
    rcases List.mem_append.1 hx with hx | hx
    · exact h x hx hourly
    · rw [List.mem_singleton.1 hx]
      rfl

theorem recordWhere (h : Lacks name xs) (p : ReportRow → Bool) {spec : MetricSpec}
    (hne : spec.eventName ≠ name) (t : Int) (value : SampleValue) :
    Lacks name (recordWhere p spec t value xs) := by
  apply h.map
  · intro x _ hx
    split
    · rw [track?_record, if_neg hne]
      exact hx
    · exact hx
  · intro x
    split
    · rfl
    · rfl

theorem takeIn (h : Lacks name xs) {sample : MetricSample} (hne : sample.eventName ≠ name)
    (version : Option String) : Lacks name (takeIn version sample xs) := by
  have hspec : sample.spec.eventName ≠ name := hne
  unfold Sheet.takeIn
  dsimp only
  split
  · exact ((h.startIn _ _ _ _).recordWhere _ hspec _ _).recordWhere _ hspec _ _
  · exact (h.startIn _ _ _ _).recordWhere _ hspec _ _

theorem succeedIn (h : Lacks name xs) {x : Sheet} (hx : x.track? name = none)
    (settings : Settings) (version : Option String) (now : Int) :
    Lacks name (x.succeedIn settings version now xs) := by
  have hfold : ∀ (ts : List Track) {ys : List Sheet}, Lacks name ys →
      (∀ t ∈ ts, t.spec.eventName ≠ name) →
      Lacks name (ts.foldl (carryOne settings version now) ys) := by
    intro ts
    induction ts with
    | nil => exact fun hys _ => hys
    | cons t ts ih =>
      intro ys hys hts
      rw [List.forall_mem_cons] at hts
      rw [List.foldl_cons]
      apply ih _ hts.2
      rw [carryOne_eq]
      cases carriedOf settings now t with
      | none => exact hys
      | some v => exact (hys.startIn _ _ _ _).recordWhere _ hts.1 _ _
  apply hfold
  · apply h.map
    · intro y _ hy
      split
      · exact hy
      · exact hy
    · intro y
      split
      · rfl
      · rfl
  · intro t ht hname
    apply List.find?_eq_none.1 hx t (List.mem_filter.1 ht).1
    rw [Track.isNamed, hname, beq_self_eq_true]

theorem tidyIn (h : Lacks name xs) (ages : RetentionSettings) (now : Int) :
    Lacks name (tidyIn ages now xs) := by
  apply Lacks.filter
  apply h.map
  · intro x hkind hx
    rw [track?_tidied hkind, hx]
    intro t ht
    rw [hx] at ht
    cases ht
  · exact fun x => rfl

/-- The stages after the hourly one. -/
theorem othersIn (h : Lacks name xs) (settings : Settings) (request : CollectRequest)
    (hourly : MetricReport) (path : Option Path) :
    Lacks name (othersIn settings request hourly path xs).2 := by
  have hdaily : Lacks name (dailyIn settings request xs).2 := by
    rcases dailyIn_cases settings request xs with heq | heq
    · rw [heq]
      exact h
    · rw [heq]
      exact h.filter _
  exact (hdaily.filter _).tidyIn _ _

end Lacks

end Sheet

/-! ### From a store -/

namespace Store.Shows

variable {s : Store} {xs : List Sheet}

/-- The open accumulator comes after those that have ended. -/
theorem hourlies_eq (h : s.Shows xs) :
    xs.filter (fun x => x.header.isEnded .hourly || x.header.isOpenAs .hourly none) =
      Sheet.endedHourlies xs ++ (Sheet.hourly? xs).toList := by
  have hrows : s.reports.rows.filter (fun r => r.isEnded .hourly || r.isOpenAs .hourly none) =
      s.reports.rows.filter (·.isEnded .hourly) ++ s.hourly?.toList := by
    cases hopen : s.hourly? with
    | none =>
      rw [Option.toList_none, List.append_nil]
      apply List.filter_congr
      intro r hr
      have hclosed : r.isOpenAs .hourly none = false := by
        rw [← Bool.not_eq_true]
        exact List.find?_eq_none.1 hopen r hr
      rw [hclosed, Bool.or_false]
    | some r =>
      obtain ⟨hr, before, after, hsplit, hbefore⟩ := List.find?_eq_some_iff_append.1 hopen
      have hincreasing := h.consistent.reportsNumbered.increasing
      have hlast := h.sequential.openLast
      rw [hsplit] at hincreasing hlast ⊢
      have hropen := ReportRow.isOpenAs_iff.1 hr
      have hrclosed : r.isEnded .hourly = false := by
        rw [← Bool.not_eq_true, ReportRow.isEnded_iff]
        exact fun hended => hended.2 hropen.2.2
      -- no hourly accumulator has a greater id
      have hafter : ∀ x ∈ after, x.kind ≠ .hourly := by
        intro x hx hkind
        have hlt := (List.pairwise_cons.1 (List.pairwise_append.1 hincreasing).2.1).1 x hx
        have hle := hlast x (List.mem_append_right _ (List.mem_cons_of_mem _ hx)) r (by simp) hkind
          hropen.1 hropen.2.2
        exact absurd hle (not_le_of_gt hlt)
      have hrest : ∀ x ∈ after, x.isEnded .hourly = false ∧ x.isOpenAs .hourly none = false := by
        intro x hx
        rw [← Bool.not_eq_true, ← Bool.not_eq_true, ReportRow.isEnded_iff, ReportRow.isOpenAs_iff]
        exact ⟨fun hended => hafter x hx hended.1, fun hopen => hafter x hx hopen.1⟩
      have hfirst : before.filter (fun x => x.isEnded .hourly || x.isOpenAs .hourly none) =
          before.filter (·.isEnded .hourly) := by
        apply List.filter_congr
        intro x hx
        have hclosed := hbefore x hx
        rw [Bool.not_eq_true'] at hclosed
        rw [hclosed, Bool.or_false]
      have hnil : after.filter (fun x => x.isEnded .hourly || x.isOpenAs .hourly none) = [] := by
        apply List.filter_eq_nil_iff.2
        intro x hx
        simp [hrest x hx]
      have hnil' : after.filter (·.isEnded .hourly) = [] := by
        apply List.filter_eq_nil_iff.2
        intro x hx
        simp [hrest x hx]
      rw [List.filter_append, List.filter_append, List.filter_cons_of_pos (by simp [hr]),
        List.filter_cons_of_neg (by simp [hrclosed]), hfirst, hnil, hnil', List.append_nil]
      rfl
  have hboth : s.sheets.filter (fun x => x.header.isEnded .hourly || x.header.isOpenAs .hourly none) =
      (s.reports.rows.filter fun r => r.isEnded .hourly || r.isOpenAs .hourly none).map s.sheetOf :=
    filter_sheets s (p := fun r => r.isEnded .hourly || r.isOpenAs .hourly none) fun _ => rfl
  rw [h.endedHourlies_eq, h.hourly?_eq, ← h.sheets, hboth, hrows, List.map_append]
  cases s.hourly? with
  | none => rfl
  | some r => rfl

/-- A sheet has one metric of a name. -/
theorem tracks_distinct (h : s.Shows xs) {x : Sheet} (hx : x ∈ xs) :
    x.tracks.Pairwise fun a b => a.spec.eventName ≠ b.spec.eventName := by
  rw [← h.sheets] at hx
  obtain ⟨r, -, rfl⟩ := List.mem_map.1 hx
  exact List.pairwise_map.2 (h.consistent.metricRowsOf_distinct r.id)

/-- What a sheet holds is as it is kept. -/
theorem values_kept (h : s.Shows xs) {x : Sheet} (hx : x ∈ xs) {name : String} {t : Track}
    (ht : x.track? name = some t) : ∀ v ∈ t.values, v.value.IsKept := by
  rw [← h.sheets] at hx
  obtain ⟨r, -, rfl⟩ := List.mem_map.1 hx
  rw [track?_sheetOf] at ht
  obtain ⟨m, -, rfl⟩ := Option.map_eq_some_iff.1 ht
  intro v hv
  exact isKept_of_mem_timedOf h.consistent ((sortedBy_perm _).mem_iff.1 hv)

end Store.Shows

end Telemetry
