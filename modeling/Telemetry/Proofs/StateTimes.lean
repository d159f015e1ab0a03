import Mathlib
import Telemetry.Proofs.StepFunction

/-!
# The table of state times

What a scan of states leaves is a table from labels to milliseconds.  It is given here as a whole,
for every window and every stream in the order of time: which labels it has, what it has for each of
them, what the times come to together, and what of it is written to a report.  The times are counted
moment by moment; at a moment the last value of the stream that has come by then says the state.
-/

namespace Telemetry

/-! ### Keys of a map -/

namespace KeyMap

variable {β : Type}

theorem mem_keys {m : KeyMap β} {key : String} : key ∈ m.keys ↔ (m.get? key).isSome := by
  rw [keys, get?, Option.isSome_map, List.find?_isSome, List.mem_map]
  simp only [beq_iff_eq]

theorem mem_keys_insert {m : KeyMap β} {key key' : String} {value : β} :
    key' ∈ (m.insert key value).keys ↔ key' ∈ m.keys ∨ key = key' := by
  rw [mem_keys, mem_keys, get?_insert]
  split
  · next hkey => simp [hkey]
  · next hkey => simp [hkey]

theorem keys_nodup (m : KeyMap β) : m.keys.Nodup :=
  List.pairwise_map.2 (m.increasing.imp fun h => String.ne_of_lt h)

theorem total_all (m : KeyMap Int) : m.total (fun _ => true) = (m.entries.map (·.2)).sum := by
  rw [total, List.filter_eq_self.2 fun _ _ => rfl]

end KeyMap

/-! ### The last value up to a moment -/

namespace TimedValue

/-- The last value of the stream that has come by a moment. -/
def lastBy (vs : List TimedValue) (t : Int) : Option TimedValue :=
  (vs.filter fun v => decide (v.timeMs ≤ t)).getLast?

/-- The state that the last value by a moment names. -/
def labelBy (vs : List TimedValue) (t : Int) : Option String :=
  (lastBy vs t).bind (·.value.stateLabel?)

/-- In the order of time the newest value is the last one. -/
theorem newest?_of_sorted {vs : List TimedValue} (h : vs.Pairwise fun a b => a.timeMs ≤ b.timeMs) :
    newest? vs = vs.getLast? := by
  rcases List.eq_nil_or_concat vs with rfl | ⟨before, v, rfl⟩
  · rfl
  · rw [List.concat_eq_append] at h ⊢
    obtain ⟨-, -, hle⟩ := List.pairwise_append.1 h
    rw [List.getLast?_concat, newest?_iff, alike_append, List.getLast?_append]
    refine ⟨fun x hx => ?_, by simp [alike]⟩
    rcases List.mem_append.1 hx with hx | hx
    · exact hle x hx v (by simp)
    · rw [List.mem_singleton.1 hx]

theorem stateAt_of_sorted {vs : List TimedValue} (h : vs.Pairwise fun a b => a.timeMs ≤ b.timeMs)
    (t : Int) : stateAt vs t = labelBy vs t := by
  rw [stateAt, newestAt, newest?_of_sorted (h.filter _), labelBy, lastBy]

end TimedValue

/-! ### Bounds on a number of moments -/

section Moments

variable {a b : Int} {p : String → Bool} {state : Int → Option String}

theorem momentsIn_card :
    momentsIn a b p state = ((Finset.Ico a b).filter fun x => (state x).any p).card := by
  have hmoments : (Finset.Ico a b).filter (fun x => (state x).any p) =
      ((Finset.range (b - a).toNat).filter fun i : Nat => (state (a + i)).any p).map
        (Nat.castEmbedding.trans (addLeftEmbedding a)) := Finset.filter_map
  rw [hmoments, Finset.card_map, momentsIn, List.countP_eq_length_filter]
  exact congrArg (fun l : List Nat => (l.length : Int))
    (List.filter_congr fun _ _ => Bool.decide_eq_true.symm)

theorem momentsIn_nonneg : 0 ≤ momentsIn a b p state := Int.natCast_nonneg _

theorem momentsIn_le : momentsIn a b p state ≤ max 0 (b - a) := by
  have hle := List.countP_le_length (p := fun i : Nat => (state (a + i)).any p)
    (l := List.range (b - a).toNat)
  rw [List.length_range] at hle
  rw [momentsIn]
  omega

end Moments

/-! ### The labels of the table -/

namespace TimeInState

variable {w : Window}

theorem mem_keys_heldUpTo {times : KeyMap Int} {v : TimedValue} {t : Int} {label : String} :
    label ∈ (heldUpTo w times v t).keys ↔
      label ∈ times.keys ∨ v.value.stateLabel? = some label := by
  rw [heldUpTo]
  cases v.value.stateLabel? with
  | none => simp
  | some own => simp only [addTime, KeyMap.mem_keys_insert, Option.some.injEq]

/-- One value more: its label comes to the table, unless it is from after the window. -/
theorem mem_keys_accept {s : TimeInState} {v : TimedValue} {label : String} :
    label ∈ ((s.accept w v).closedTimes w).keys ↔
      label ∈ (s.closedTimes w).keys ∨ v.timeMs ≤ w.endMs ∧ v.value.stateLabel? = some label := by
  by_cases hend : w.endMs < v.timeMs
  · rw [accept_of_lt hend]
    simp [hend]
  · rw [not_lt] at hend
    cases hlast : s.last with
    | none =>
      have htimes : s.closedTimes w = s.times := by simp only [closedTimes, hlast]
      rw [accept_first hend hlast, closedTimes_eq rfl, mem_keys_heldUpTo, htimes]
      simp [hend]
    | some u =>
      obtain ⟨hnext, htimes⟩ := accept_next hend hlast
      rw [closedTimes_eq hnext, closedTimes_eq hlast, mem_keys_heldUpTo, htimes, mem_keys_heldUpTo,
        mem_keys_heldUpTo]
      simp [hend]

theorem mem_keys_foldl (vs : List TimedValue) {label : String} :
    ∀ s : TimeInState, label ∈ ((vs.foldl (accept w) s).closedTimes w).keys ↔
      label ∈ (s.closedTimes w).keys ∨
        ∃ v ∈ vs, v.timeMs ≤ w.endMs ∧ v.value.stateLabel? = some label := by
  induction vs with
  | nil => simp
  | cons v vs ih =>
    intro s
    rw [List.foldl_cons, ih, mem_keys_accept, or_assoc]
    simp only [List.mem_cons, exists_eq_or_imp]

/-- The labels of the table are those of the values up to the end of the window. -/
theorem mem_keys_timesOf (vs : List TimedValue) (label : String) :
    label ∈ (timesOf w vs).keys ↔
      ∃ v ∈ vs, v.timeMs ≤ w.endMs ∧ v.value.stateLabel? = some label := by
  rw [timesOf, mem_keys_foldl]
  have hempty : (initial.closedTimes w).keys = [] := rfl
  simp [hempty]

/-! ### What is written of it -/

/-- The key under which the time of a label is written as seconds of every hour. -/
def perHourKey (key label : String) : String := s!"{key}_{label}.secs/hour"

theorem perHourKey_inj {key a b : String} (h : perHourKey key a = perHourKey key b) : a = b := by
  have hlabel := (String.append_left_inj ".secs/hour").1 h
  exact (String.append_right_inj _).1 hlabel

/-- Under such a key nothing else is written. -/
theorem of_perHourKey {s : TimeInState} {key label : String} {totals : Bool} {e : String × Json}
    (h : e ∈ s.entries key true totals w) (hkey : e.1 = perHourKey key label) :
    ∃ ms, (label, ms) ∈ (s.closedTimes w).entries ∧
      e.2 = .int (secondsPerHour w.durationMs ms) := by
  have hends : ∀ {a b : String}, b ∈ keySuffixes → b ≠ ".secs/hour" → a ++ b ≠ perHourKey key label :=
    fun hb hne heq => hne (suffix_eq hb (by decide) heq).1
  rcases List.mem_append.1 h with h | h
  · obtain ⟨⟨label', ms⟩, hmem, h⟩ := List.mem_flatMap.1 h
    rcases List.mem_append.1 h with h | h
    · split at h
      · obtain rfl := List.mem_singleton.1 h
        obtain rfl := perHourKey_inj hkey
        exact ⟨ms, hmem, rfl⟩
      · cases h
    · split at h
      · obtain rfl := List.mem_singleton.1 h
        exact absurd hkey (hends (b := ".total_secs") (by decide) (by decide))
      · cases h
  · split at h
    · obtain ⟨sum, -, rfl⟩ := List.mem_map.1 h
      exact absurd hkey (hends (b := ".mean_time_in_state_ms") (by decide) (by decide))
    · cases h

/-- A time that is no longer than the window is written. -/
theorem perHour_written {s : TimeInState} {label : String} {ms : Int}
    (hmem : (label, ms) ∈ (s.closedTimes w).entries) (hms : ms ≤ w.durationMs) (key : String)
    (totals : Bool) (out : MetricMap) :
    (out.insertAll (s.entries key true totals w)).get? (perHourKey key label) =
      some (.int (secondsPerHour w.durationMs ms)) := by
  have hentry : (perHourKey key label, Json.int (secondsPerHour w.durationMs ms)) ∈
      s.entries key true totals w := by
    refine List.mem_append_left _ (List.mem_flatMap.2 ⟨_, hmem, List.mem_append_left _ ?_⟩)
    rw [Bool.true_and, decide_eq_true hms, if_pos rfl]
    exact List.mem_singleton.2 rfl
  have hany : (s.entries key true totals w).any (·.1 == perHourKey key label) = true :=
    List.any_eq_true.2 ⟨_, hentry, beq_self_eq_true _⟩
  rw [KeyMap.get?_insertAll _ (.int (secondsPerHour w.durationMs ms)), hany, if_pos rfl]
  intro e he hkey
  obtain ⟨ms', hmem', hvalue⟩ := of_perHourKey he hkey
  -- the label has one time
  have hsame : some ms' = some ms :=
    (KeyMap.get?_of_mem hmem').symm.trans (KeyMap.get?_of_mem hmem)
  rw [hvalue, Option.some.inj hsame]

/-! ### The table as a whole -/

/-- A scan has measured the step function of a stream over a window. -/
structure Measures (w : Window) (vs : List TimedValue) (s : TimeInState) : Prop where
  /-- The labels are those of the values up to the end of the window. -/
  labels : ∀ label, label ∈ (s.closedTimes w).keys ↔
    ∃ v ∈ vs, v.timeMs ≤ w.endMs ∧ v.value.stateLabel? = some label
  /-- Every label has one entry. -/
  distinct : (s.closedTimes w).keys.Nodup
  /-- A label has the moments at which the last value by then names it. -/
  held : ∀ e ∈ (s.closedTimes w).entries, e.2 =
    ((Finset.Ico w.startMs w.endMs).filter fun t => TimedValue.labelBy vs t = some e.1).card
  bounded : ∀ e ∈ (s.closedTimes w).entries, 0 ≤ e.2 ∧ e.2 ≤ max 0 w.durationMs
  sum_le : ((s.closedTimes w).entries.map (·.2)).sum ≤ max 0 w.durationMs
  /-- Where there is a label all the time, the times come to the window. -/
  sum_eq : ∀ first ∈ vs.head?, first.timeMs ≤ w.startMs →
    (∀ v ∈ vs, v.timeMs ≤ w.endMs → v.value.stateLabel?.isSome) → w.startMs ≤ w.endMs →
    ((s.closedTimes w).entries.map (·.2)).sum = w.durationMs
  /-- No time is left out of a report for being too long. -/
  written : w.startMs ≤ w.endMs → ∀ key totals, ∀ out : MetricMap,
    ∀ e ∈ (s.closedTimes w).entries,
      (out.insertAll (s.entries key true totals w)).get? (perHourKey key e.1) =
        some (.int (secondsPerHour w.durationMs e.2))

/-- There is a label at every moment from the first value on, if the values up to then name one. -/
theorem labelBy_isSome {vs : List TimedValue} {first : TimedValue} {t : Int}
    (hfirst : first ∈ vs) (ht : first.timeMs ≤ t)
    (hlabels : ∀ v ∈ vs, v.timeMs ≤ t → v.value.stateLabel?.isSome) :
    (TimedValue.labelBy vs t).isSome := by
  have hne : vs.filter (fun v => decide (v.timeMs ≤ t)) ≠ [] :=
    List.ne_nil_of_mem (List.mem_filter.2 ⟨hfirst, decide_eq_true ht⟩)
  obtain ⟨hv, hvt⟩ := List.mem_filter.1 (List.getLast_mem hne)
  rw [TimedValue.labelBy, TimedValue.lastBy, List.getLast?_eq_some_getLast hne]
  exact hlabels _ hv (of_decide_eq_true hvt)

/-- A scan measures the step function of a stream in the order of time. -/
theorem scan_measures (w : Window) (vs : List TimedValue)
    (hsorted : vs.Pairwise fun a b => a.timeMs ≤ b.timeMs) :
    (vs.foldl (accept w) initial).Measures w vs := by
  have htotal : ∀ p, (timesOf w vs).total p =
      momentsIn w.startMs w.endMs p (TimedValue.labelBy vs) := fun p =>
    (timesOf_total p vs hsorted).trans
      (momentsIn_congr fun t _ _ => TimedValue.stateAt_of_sorted hsorted t)
  have hheld : ∀ e ∈ (timesOf w vs).entries,
      e.2 = momentsIn w.startMs w.endMs (· == e.1) (TimedValue.labelBy vs) := by
    intro e he
    rw [← htotal, KeyMap.total_key, KeyMap.get?_of_mem he]
    rfl
  have hbounded : ∀ e ∈ (timesOf w vs).entries, 0 ≤ e.2 ∧ e.2 ≤ max 0 w.durationMs :=
    fun e he => hheld e he ▸ ⟨momentsIn_nonneg, momentsIn_le⟩
  have hsum : ((timesOf w vs).entries.map (·.2)).sum =
      momentsIn w.startMs w.endMs (fun _ => true) (TimedValue.labelBy vs) :=
    (KeyMap.total_all _).symm.trans (htotal _)
  refine ⟨mem_keys_timesOf vs, KeyMap.keys_nodup _, fun e he => ?_, hbounded,
    hsum.trans_le momentsIn_le, fun first hfirst hstart hlabels hw => ?_,
    fun hw key totals out e he => ?_⟩
  · refine (hheld e he).trans (momentsIn_card.trans ?_)
    congr 2
    refine Finset.filter_congr fun t _ => ?_
    simp [Option.any_eq_true]
  · refine hsum.trans (momentsIn_all hw fun t hwt htw => ?_)
    exact labelBy_isSome (List.mem_of_mem_head? hfirst) (hstart.trans hwt)
      fun v hv hvt => hlabels v hv (hvt.trans htw.le)
  · have hle : e.2 ≤ w.durationMs := by
      have hmax := (hbounded e he).2
      simp only [Window.durationMs] at hmax ⊢
      omega
    exact perHour_written he hle key totals out

/-- A seed before the window, two values of one time, a value at the end and one after it. -/
theorem scan_measures_seeded :
    let w : Window := ⟨0, 10⟩
    let vs : List TimedValue := [⟨-5, .string "idle"⟩, ⟨3, .string "busy"⟩, ⟨3, .bool true⟩,
      ⟨10, .string "idle"⟩, ⟨11, .string "gone"⟩]
    vs.Pairwise (fun a b => a.timeMs ≤ b.timeMs) ∧
      (timesOf w vs).entries = [("1", 7), ("busy", 0), ("idle", 3)] ∧
      (vs.foldl (accept w) initial).Measures w vs := by
  intro w vs
  have hsorted : vs.Pairwise fun a b => a.timeMs ≤ b.timeMs := by decide
  exact ⟨hsorted, by decide +kernel, scan_measures w vs hsorted⟩

end TimeInState

end Telemetry
