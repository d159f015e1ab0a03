import Telemetry.Proofs.Sources
import Telemetry.Proofs.StepFunction

/-!
# Relays

A metric that is carried over goes from one report to the next like a baton: each report begins where
the one before ended, with a copy of its newest value.  With the copy, a report by itself makes the
step function that all of them make together, for as long as it runs.  In all of them together no
copy counts, whether a scan passes over it or not.  So the moments of the reports add up.
-/

namespace Telemetry

/-! ### Copies -/

namespace TimedValue

/-- The lists have the same last value at each moment. -/
def SameLast (xs ys : List TimedValue) : Prop :=
  ∀ t, (alike (·.timeMs) t xs).getLast? = (alike (·.timeMs) t ys).getLast?

/-- Of a moment up to another one all values are from before that one. -/
theorem alike_upTo (n t : Int) (xs : List TimedValue) :
    alike (·.timeMs) n (xs.filter fun v => decide (v.timeMs ≤ t)) =
      if n ≤ t then alike (·.timeMs) n xs else [] := by
  rw [alike_filter]
  split
  · next hn =>
    apply List.filter_eq_self.2
    intro v hv
    exact decide_eq_true ((mem_alike.1 hv).2.trans_le hn)
  · next hn =>
    apply List.filter_eq_nil_iff.2
    intro v hv hle
    exact hn ((mem_alike.1 hv).2.symm.trans_le (of_decide_eq_true hle))

namespace SameLast

variable {xs ys zs xs' ys' : List TimedValue}

theorem refl (xs : List TimedValue) : SameLast xs xs := fun _ => rfl

theorem symm (h : SameLast xs ys) : SameLast ys xs := fun t => (h t).symm

theorem trans (h : SameLast xs ys) (h' : SameLast ys zs) : SameLast xs zs :=
  fun t => (h t).trans (h' t)

theorem append (h : SameLast xs ys) (h' : SameLast xs' ys') :
    SameLast (xs ++ xs') (ys ++ ys') := by
  intro t
  rw [alike_append, alike_append, List.getLast?_append, List.getLast?_append, h t, h' t]

theorem byTime (xs : List TimedValue) : SameLast (byTime xs) xs := by
  intro t
  rw [byTime_eq, alike_sortedBy]

theorem newestAt_eq (h : SameLast xs ys) (t : Int) : newestAt xs t = newestAt ys t := by
  apply newest?_congr
  intro n
  rw [alike_upTo, alike_upTo]
  split
  · exact h n
  · rfl

/-- Copies of the newest value change nothing. -/
theorem copied {copies : List TimedValue} (h : ∀ v ∈ copies, newest? xs = some v) :
    SameLast (xs ++ copies) xs := by
  intro t
  rw [alike_append, List.getLast?_append]
  cases hlast : (alike (·.timeMs) t copies).getLast? with
  | none => rfl
  | some v =>
    obtain ⟨hv, htime⟩ := mem_alike.1 (List.mem_of_getLast? hlast)
    have hnewest := (newest?_iff.1 (h v hv)).2
    rw [htime] at hnewest
    rw [hnewest]
    rfl

/-- Of a copy and what came after it, only the latter counts. -/
theorem handed {copies new : List TimedValue} (h : ∀ v ∈ copies, newest? xs = some v) :
    SameLast (xs ++ TimedValue.byTime (copies ++ new)) (xs ++ new) := by
  have hsorted := (refl xs).append (byTime (copies ++ new))
  rw [← List.append_assoc] at hsorted
  exact hsorted.trans ((copied h).append (refl new))

end SameLast

theorem newestAt_append_of_lt {xs ys : List TimedValue} {t : Int} (h : ∀ v ∈ ys, t < v.timeMs) :
    newestAt (xs ++ ys) t = newestAt xs t := by
  have hnone : ys.filter (fun v => decide (v.timeMs ≤ t)) = [] :=
    List.filter_eq_nil_iff.2 fun v hv => by simpa using h v hv
  rw [newestAt, List.filter_append, hnone, List.append_nil, newestAt]

end TimedValue

open TimedValue

/-! ### What a scan reads of several reports -/

namespace Source

/-- The values that a scan from a time on does not pass over: what is from after this time has to be
of the report's own time. -/
def readFrom (t : Int) (source : Source) : List TimedValue :=
  source.values.filter fun v => decide (v.timeMs ≤ t) || decide (source.startMs ≤ v.timeMs)

end Source

namespace Window

variable {w : Window}

theorem alike_flatMap_filter (p : Source → Int → Bool) (n : Int) (sources : List Source) :
    alike (·.timeMs) n (sources.flatMap fun source =>
        source.values.filter fun v => p source v.timeMs) =
      sources.flatMap fun source => if p source n then alike (·.timeMs) n source.values else [] := by
  rw [alike, List.filter_flatMap]
  congr 1
  funext source
  change alike _ n _ = _
  rw [alike_filter]
  split
  · next hp =>
    apply List.filter_eq_self.2
    intro v hv
    rwa [(mem_alike.1 hv).2]
  · next hp =>
    apply List.filter_eq_nil_iff.2
    intro v hv
    rwa [(mem_alike.1 hv).2]

theorem readOf_nil (w : Window) : w.readOf [] = [] := List.mergeSort_nil

theorem readOf_sorted (w : Window) (sources : List Source) :
    (w.readOf sources).Pairwise fun a b => a.timeMs ≤ b.timeMs := by
  rw [readOf, List.pairwise_append]
  refine ⟨?_, sortedBy_sorted _, ?_⟩
  · cases newest? ((sources.flatMap (·.values)).filter fun v => decide (v.timeMs ≤ w.startMs)) <;>
      simp
  · intro a ha b hb
    have ha := (List.mem_filter.1 (newest?_mem (Option.mem_toList.1 ha))).2
    obtain ⟨source, -, hb⟩ := List.mem_flatMap.1 ((sortedBy_perm _).mem_iff.1 hb)
    have hb := (List.mem_filter.1 hb).2
    simp only [Bool.and_eq_true, decide_eq_true_eq] at ha hb
    exact ha.trans hb.1.1.le

/-- At every moment of the window a scan has read what is not passed over. -/
theorem newestAt_readOf (sources : List Source) {t : Int} (hstart : w.startMs ≤ t)
    (hend : t ≤ w.endMs) :
    newestAt (w.readOf sources) t =
      newestAt (sources.flatMap (Source.readFrom w.startMs)) t := by
  have hold : ∀ v ∈ (sources.flatMap (·.values)).filter fun v => decide (v.timeMs ≤ w.startMs),
      v.timeMs ≤ t := by
    intro v hv
    exact (of_decide_eq_true (List.mem_filter.1 hv).2).trans hstart
  have hflat : (sources.flatMap (·.values)).filter (fun v => decide (v.timeMs ≤ w.startMs)) =
      sources.flatMap fun source =>
        source.values.filter fun v => decide (v.timeMs ≤ w.startMs) := List.filter_flatMap
  rw [readOf, newestAt_read _ hold, hflat, newestAt, newestAt]
  apply newest?_congr
  intro n
  rw [alike_upTo, alike_upTo]
  split
  · next hn =>
    unfold Source.readFrom
    rw [alike_append, alike_flatMap_filter (fun _ t => decide (t ≤ w.startMs)),
      alike_flatMap_filter fun source t =>
        decide (w.startMs < t) && decide (t ≤ w.endMs) && decide (source.startMs ≤ t),
      alike_flatMap_filter fun source t => decide (t ≤ w.startMs) || decide (source.startMs ≤ t)]
    have hnil : sources.flatMap (fun _ => ([] : List TimedValue)) = [] :=
      List.flatMap_eq_nil_iff.2 fun _ _ => rfl
    -- a moment is up to the start of the window or after it
    by_cases hle : n ≤ w.startMs
    · have hlt : ¬w.startMs < n := not_lt.2 hle
      simp [hle, hlt, hnil]
    · have hlt : w.startMs < n := not_le.1 hle
      have hin : n ≤ w.endMs := hn.trans hend
      simp [hle, hlt, hin, hnil]
  · rfl

end Window

/-! ### Relays -/

/-- The values of a metric in a report that has ended. -/
structure Leg where
  startMs : Int
  endMs : Int
  values : List TimedValue

namespace Leg

def source (l : Leg) : Source := ⟨l.startMs, l.values⟩

def valuesOf (legs : List Leg) : List TimedValue := legs.flatMap (·.values)

/-- The moments of a leg at which the state is selected. -/
def moments (p : String → Bool) (l : Leg) : Int :=
  momentsIn l.startMs l.endMs p (stateAt l.values)

theorem valuesOf_append_singleton (legs : List Leg) (l : Leg) :
    valuesOf (legs ++ [l]) = valuesOf legs ++ l.values := by
  rw [valuesOf, List.flatMap_append, List.flatMap_singleton, valuesOf]

theorem readFrom_append_singleton (t : Int) (legs : List Leg) (l : Leg) :
    ((legs ++ [l]).map source).flatMap (Source.readFrom t) =
      (legs.map source).flatMap (Source.readFrom t) ++ l.source.readFrom t := by
  rw [List.map_append, List.flatMap_append, List.map_singleton, List.flatMap_singleton]

end Leg

/-- The legs of a relay that have ended, and the start and the values of the one that is running.
What the first one holds does not matter: it may have been handed a value of a report that is gone. -/
inductive Relay : List Leg → Int → List TimedValue → Prop where
  | first (startMs : Int) (values : List TimedValue) : Relay [] startMs values
  | next {legs : List Leg} {startMs endMs : Int} {values new : List TimedValue}
      (h : Relay legs startMs values) (hend : startMs ≤ endMs)
      (hvalues : ∀ v ∈ values, v.timeMs ≤ endMs) (hnew : ∀ v ∈ new, endMs ≤ v.timeMs) :
      Relay (legs ++ [⟨startMs, endMs, values⟩]) endMs (byTime ((newest? values).toList ++ new))

namespace Relay

variable {legs : List Leg} {startMs : Int} {values : List TimedValue}

/-- The start of the first leg. -/
def beginning (legs : List Leg) (startMs : Int) : Int := (legs.head?.map (·.startMs)).getD startMs

theorem beginning_append_singleton (legs : List Leg) (startMs endMs t : Int)
    (values : List TimedValue) :
    beginning (legs ++ [⟨startMs, endMs, values⟩]) t = beginning legs startMs := by
  cases legs with
  | nil => rfl
  | cons l legs => rfl

theorem beginning_le (h : Relay legs startMs values) : beginning legs startMs ≤ startMs := by
  induction h with
  | first => exact le_rfl
  | next h hend hvalues hnew ih =>
    rw [beginning_append_singleton]
    exact ih.trans hend

theorem beginning_le_start (h : Relay legs startMs values) :
    ∀ l ∈ legs, beginning legs startMs ≤ l.startMs := by
  induction h with
  | first =>
    intro l hl
    cases hl
  | next h hend hvalues hnew ih =>
    intro l hl
    rw [beginning_append_singleton]
    rcases List.mem_append.1 hl with hl | hl
    · exact ih l hl
    · obtain rfl := List.mem_singleton.1 hl
      exact h.beginning_le

/-- The last leg ends where the running one begins. -/
theorem exists_end (h : Relay legs startMs values) (hlegs : legs ≠ []) :
    ∃ l ∈ legs, l.endMs = startMs := by
  cases h with
  | first => exact absurd rfl hlegs
  | next h hend hvalues hnew => exact ⟨_, List.mem_append_right _ (List.mem_singleton_self _), rfl⟩

/-- What has ended holds nothing from after its end. -/
theorem le_start (h : Relay legs startMs values) :
    ∀ v ∈ Leg.valuesOf legs, v.timeMs ≤ startMs := by
  induction h with
  | first =>
    intro v hv
    cases hv
  | next h hend hvalues hnew ih =>
    intro v hv
    rw [Leg.valuesOf_append_singleton] at hv
    rcases List.mem_append.1 hv with hv | hv
    · exact (ih v hv).trans hend
    · exact hvalues v hv

/-! ### How a relay goes on -/

theorem add (h : Relay legs startMs values) {v : TimedValue} (hv : startMs ≤ v.timeMs) :
    Relay legs startMs (byTime (values ++ [v])) := by
  cases h with
  | first => exact .first _ _
  | next h hend hvalues hnew =>
    rw [byTime_append, List.append_assoc]
    apply h.next hend hvalues
    intro x hx
    rcases List.mem_append.1 hx with hx | hx
    · exact hnew x hx
    · rw [List.mem_singleton.1 hx]
      exact hv

theorem byTime_newest? (vs : List TimedValue) :
    byTime (newest? vs).toList = (newest? vs).toList := by
  cases newest? vs with
  | none => exact List.mergeSort_nil
  | some v => exact List.mergeSort_singleton v

/-- The running leg ends, and its newest value is handed on. -/
theorem hand (h : Relay legs startMs values) {endMs : Int} (hend : startMs ≤ endMs)
    (hvalues : ∀ v ∈ values, v.timeMs ≤ endMs) :
    Relay (legs ++ [⟨startMs, endMs, values⟩]) endMs (newest? values).toList := by
  have hnone : ∀ v ∈ ([] : List TimedValue), endMs ≤ v.timeMs := fun v hv => by cases hv
  have hnext := h.next hend hvalues hnone
  rwa [List.append_nil, byTime_newest?] at hnext

/-! ### The step function of a relay -/

theorem newest?_eq (h : Relay legs startMs values) :
    newest? (Leg.valuesOf legs ++ values) = newest? values := by
  induction h with
  | first => rfl
  | @next legs startMs endMs values new h hend hvalues hnew ih =>
    have hcopy : ∀ v ∈ (newest? values).toList,
        newest? (Leg.valuesOf legs ++ values) = some v := by
      intro v hv
      rw [ih, Option.mem_toList.1 hv]
    rw [Leg.valuesOf_append_singleton, newest?_congr (SameLast.handed hcopy), newest?_append, ih,
      newest?_congr (SameLast.byTime _)]

/-- A copy that is handed on is one of the newest value of all. -/
theorem newest?_of_handed (h : Relay legs startMs values) {v : TimedValue}
    (hv : v ∈ (newest? values).toList) : newest? (Leg.valuesOf legs ++ values) = some v := by
  rw [h.newest?_eq, Option.mem_toList.1 hv]

/-- The running leg by itself says what all legs say. -/
theorem newestAt_eq (h : Relay legs startMs values) {t : Int} (ht : startMs ≤ t) :
    newestAt (Leg.valuesOf legs ++ values) t = newestAt values t := by
  cases h with
  | first => rfl
  | @next legs startMs _ values new h hend hvalues hnew =>
    have hold : ∀ v ∈ Leg.valuesOf legs ++ values, v.timeMs ≤ t := by
      intro v hv
      rcases List.mem_append.1 hv with hv | hv
      · exact (h.le_start v hv).trans (hend.trans ht)
      · exact (hvalues v hv).trans ht
    have hsorted := (SameLast.refl (newest? values).toList).append (SameLast.byTime new)
    rw [Leg.valuesOf_append_singleton,
      (SameLast.handed fun v hv => h.newest?_of_handed hv).newestAt_eq, ← newestAt_read new hold,
      h.newest?_eq, hsorted.newestAt_eq, (SameLast.byTime _).newestAt_eq]

/-- The running leg says nothing of the time before it. -/
theorem newestAt_before (h : Relay legs startMs values) {t : Int} (hbegin : beginning legs startMs ≤ t)
    (ht : t < startMs) :
    newestAt (Leg.valuesOf legs ++ values) t = newestAt (Leg.valuesOf legs) t := by
  cases h with
  | first => exact absurd hbegin (not_le_of_gt ht)
  | next h hend hvalues hnew =>
    rw [Leg.valuesOf_append_singleton,
      (SameLast.handed fun v hv => h.newest?_of_handed hv).newestAt_eq]
    exact newestAt_append_of_lt fun v hv => ht.trans_le (hnew v hv)

/-- The moments of the legs are the moments of all of them together. -/
theorem sum_moments (h : Relay legs startMs values) (p : String → Bool) :
    (legs.map (Leg.moments p)).sum =
      momentsIn (beginning legs startMs) startMs p (stateAt (Leg.valuesOf legs)) := by
  induction h with
  | first => exact (momentsIn_empty le_rfl).symm
  | @next legs startMs endMs values new h hend hvalues hnew ih =>
    rw [List.map_append, List.sum_append, ih, List.map_singleton, List.sum_singleton,
      beginning_append_singleton, Leg.valuesOf_append_singleton,
      momentsIn_split h.beginning_le hend]
    congr 1
    · apply momentsIn_congr
      intro t hbegin ht
      rw [stateAt, stateAt, h.newestAt_before hbegin ht]
    · apply momentsIn_congr
      intro t ht _
      rw [stateAt, stateAt, h.newestAt_eq ht]

/-! ### A scan over all legs -/

/-- All older values come with the first leg, if a scan begins with it; otherwise there are none. -/
def ReadsAll (t : Int) (legs : List Leg) (startMs : Int) (values : List TimedValue) : Prop :=
  t = beginning legs startMs ∨
    ∀ v ∈ Leg.valuesOf legs ++ values, beginning legs startMs ≤ v.timeMs

theorem ReadsAll.of_next {t endMs : Int} {new : List TimedValue}
    (h : ReadsAll t (legs ++ [⟨startMs, endMs, values⟩]) endMs new) :
    ReadsAll t legs startMs values := by
  unfold ReadsAll at h
  rw [beginning_append_singleton, Leg.valuesOf_append_singleton] at h
  apply h.imp_right
  intro hlate v hv
  exact hlate v (List.mem_append_left _ hv)

/-- Nothing is lost of what a scan passes over. -/
theorem sameLast_readFrom (h : Relay legs startMs values) {t : Int}
    (hread : ReadsAll t legs startMs values) :
    SameLast ((legs.map Leg.source).flatMap (Source.readFrom t) ++
      Source.readFrom t ⟨startMs, values⟩) (Leg.valuesOf legs ++ values) := by
  induction h with
  | first startMs values =>
    have hall : Source.readFrom t ⟨startMs, values⟩ = values := by
      apply List.filter_eq_self.2
      intro v hv
      rw [Bool.or_eq_true, decide_eq_true_eq, decide_eq_true_eq]
      rcases hread with rfl | hread
      · exact le_total _ _
      · exact .inr (hread v hv)
    rw [hall]
    exact .refl _
  | @next legs startMs endMs values new h hend hvalues hnew ih =>
    have hnewer : new.filter (fun v => decide (v.timeMs ≤ t) || decide (endMs ≤ v.timeMs)) = new := by
      apply List.filter_eq_self.2
      intro v hv
      rw [decide_eq_true (hnew v hv), Bool.or_true]
    have hlast : Source.readFrom t ⟨endMs, byTime ((newest? values).toList ++ new)⟩ =
        byTime ((newest? values).toList.filter
          (fun v => decide (v.timeMs ≤ t) || decide (endMs ≤ v.timeMs)) ++ new) := by
      rw [Source.readFrom, byTime_eq, ← sortedBy_filter, List.filter_append, hnewer, byTime_eq]
    rw [Leg.readFrom_append_singleton, hlast, Leg.valuesOf_append_singleton]
    -- a copy does not count, whether it is passed over or not
    have hcopy : SameLast (Leg.valuesOf legs ++ values ++ byTime ((newest? values).toList ++ new))
        (Leg.valuesOf legs ++ values ++ new) :=
      SameLast.handed fun v hv => h.newest?_of_handed hv
    have hpassed : SameLast
        (Leg.valuesOf legs ++ values ++ byTime ((newest? values).toList.filter
          (fun v => decide (v.timeMs ≤ t) || decide (endMs ≤ v.timeMs)) ++ new))
        (Leg.valuesOf legs ++ values ++ new) :=
      SameLast.handed fun v hv => h.newest?_of_handed (List.mem_filter.1 hv).1
    exact ((ih hread.of_next).append (.refl _)).trans (hpassed.trans hcopy.symm)

/-- A scan over all legs comes to the moments of the legs. -/
theorem momentsIn_readOf (h : Relay legs startMs values) {w : Window} (hend : w.endMs = startMs)
    (hstart : w.startMs ≤ beginning legs startMs)
    (hread : ReadsAll w.startMs legs startMs values) (p : String → Bool) :
    momentsIn w.startMs w.endMs p (stateAt (w.readOf (legs.map Leg.source))) =
      (legs.map (Leg.moments p)).sum := by
  have hsame : SameLast ((legs.map Leg.source).flatMap (Source.readFrom w.startMs))
      (Leg.valuesOf legs) := by
    cases h with
    | first => exact .refl _
    | @next legs startMs endMs values new h hend hvalues hnew =>
      have hall := h.sameLast_readFrom hread.of_next
      rwa [Leg.readFrom_append_singleton, Leg.valuesOf_append_singleton]
  have hstate : ∀ t, w.startMs ≤ t → t < w.endMs →
      stateAt (w.readOf (legs.map Leg.source)) t = stateAt (Leg.valuesOf legs) t := by
    intro t ht htend
    rw [stateAt, stateAt, Window.newestAt_readOf _ ht htend.le, hsame.newestAt_eq]
  -- before the first leg there is no state
  have hnone : momentsIn w.startMs (beginning legs startMs) p (stateAt (Leg.valuesOf legs)) = 0 := by
    rcases hread with hbegin | hlate
    · exact momentsIn_empty hbegin.ge
    · apply momentsIn_none
      intro t _ ht
      rw [stateAt, newestAt_of_lt]
      · rfl
      · intro v hv
        exact ht.trans_le (hlate v (List.mem_append_left _ hv))
  rw [momentsIn_congr hstate, hend, momentsIn_split hstart h.beginning_le, hnone, h.sum_moments p]
  exact Int.zero_add _

end Relay

end Telemetry
