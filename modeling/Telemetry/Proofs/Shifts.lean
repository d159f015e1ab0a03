import Mathlib.Data.List.SplitBy
import Telemetry.Proofs.StateTimes

/-!
# Shifts

A stream in which every value names a state falls into stretches, each as long as its values go on
naming the same state.  A scan commits one shift for each stretch that another one follows, from the
first value of the one to the first value of the other; how the scan is cut to the window does not
matter for that.  The running shift carries the proof: put back to where it began, the latest value
stands for its whole stretch.
-/

namespace Telemetry

/-! ### Stretches of equal states -/

theorem splitBy_cons_cons {α : Type} {r : α → α → Bool} {a b : α} {l : List α} (h : r a b = true) :
    (a :: b :: l).splitBy r = ((b :: l).splitBy r).modifyHead (a :: ·) := by
  have hne : (b :: l).splitBy r ≠ [] := List.splitBy_ne_nil.2 (List.cons_ne_nil b l)
  obtain ⟨first, rest, hsplit⟩ := List.exists_cons_of_ne_nil hne
  obtain ⟨hflat, hnil, hchain, hends⟩ := List.splitBy_eq_iff.1 hsplit
  rw [List.mem_cons, not_or] at hnil
  obtain ⟨c, first, rfl⟩ := List.exists_cons_of_ne_nil (Ne.symm hnil.1)
  obtain ⟨rfl, -⟩ : b = c ∧ l = first ++ rest.flatten := by simpa using hflat
  rw [hsplit, List.modifyHead_cons, List.splitBy_eq_iff]
  refine ⟨by simpa using hflat, by simpa using hnil.2, ?_, ?_⟩
  · rw [List.forall_mem_cons] at hchain ⊢
    exact ⟨List.isChain_cons_cons.2 ⟨h, hchain.1⟩, hchain.2⟩
  · rw [List.isChain_cons] at hends ⊢
    exact ⟨fun next hnext => by simpa using hends.1 next hnext, hends.2⟩

theorem KeyMap.mem_of_get? {β : Type} {m : KeyMap β} {key : String} {value : β}
    (h : m.get? key = some value) : (key, value) ∈ m.entries := by
  obtain ⟨e, hfind, rfl⟩ := Option.map_eq_some_iff.1 h
  have hkey := List.find?_some hfind
  obtain rfl : e.1 = key := beq_iff_eq.1 hkey
  exact List.mem_of_find?_eq_some hfind

namespace TimedValue

/-- The values of a stream that are not from after a window. -/
def upTo (w : Window) (vs : List TimedValue) : List TimedValue :=
  vs.filter fun v => decide (v.timeMs ≤ w.endMs)

/-- The longest stretches of consecutive values that name the same state. -/
def stretches (vs : List TimedValue) : List (List TimedValue) :=
  vs.splitBy fun a b => a.value.stateLabel? == b.value.stateLabel?

/-- The values with which a stretch begins. -/
def firsts (vs : List TimedValue) : List TimedValue := (stretches vs).filterMap (·.head?)

/-- The stretches that another one follows: their state, and the time from their first value to the
first value of the next one. -/
def finished (vs : List TimedValue) : List (Option String × Int) :=
  List.zipWith (fun a b => (a.value.stateLabel?, b.timeMs - a.timeMs)) (firsts vs) (firsts vs).tail

variable {a b : TimedValue} {vs : List TimedValue}

theorem firsts_same (h : a.value.stateLabel? = b.value.stateLabel?) :
    firsts (a :: b :: vs) = a :: (firsts (b :: vs)).tail := by
  have hne : stretches (b :: vs) ≠ [] := List.splitBy_ne_nil.2 (List.cons_ne_nil b vs)
  obtain ⟨first, rest, hsplit⟩ := List.exists_cons_of_ne_nil hne
  have hfirst : first ≠ [] := List.ne_nil_of_mem_splitBy (hsplit ▸ List.mem_cons_self)
  obtain ⟨c, first, rfl⟩ := List.exists_cons_of_ne_nil hfirst
  rw [firsts, stretches, splitBy_cons_cons (by simpa using h), ← stretches, hsplit, firsts, hsplit]
  rfl

theorem firsts_other (h : a.value.stateLabel? ≠ b.value.stateLabel?) :
    firsts (a :: b :: vs) = a :: firsts (b :: vs) := by
  have hsplit := List.splitBy_append_cons (l := [a]) vs
    (r := fun a b => a.value.stateLabel? == b.value.stateLabel?) (a := b) (by simpa using h)
  rw [firsts, stretches, ← List.singleton_append, hsplit]
  rfl

/-- The first value counts only by its state for what comes after its stretch. -/
theorem firsts_tail_congr (h : a.value.stateLabel? = b.value.stateLabel?) :
    (firsts (a :: vs)).tail = (firsts (b :: vs)).tail := by
  cases vs with
  | nil => rfl
  | cons v vs =>
    by_cases hv : a.value.stateLabel? = v.value.stateLabel?
    · rw [firsts_same hv, firsts_same (h.symm.trans hv), List.tail_cons, List.tail_cons]
    · rw [firsts_other hv, firsts_other (h ▸ hv), List.tail_cons, List.tail_cons]

theorem firsts_cons (v : TimedValue) (vs : List TimedValue) :
    firsts (v :: vs) = v :: (firsts (v :: vs)).tail := by
  cases vs with
  | nil => rfl
  | cons x vs =>
    by_cases h : v.value.stateLabel? = x.value.stateLabel?
    · rw [firsts_same h, List.tail_cons]
    · rw [firsts_other h, List.tail_cons]

/-- Within a stretch the next value may take the place of the one before it. -/
theorem finished_same (h : a.value.stateLabel? = b.value.stateLabel?) :
    finished (a :: b :: vs) = finished (⟨a.timeMs, b.value⟩ :: vs) := by
  have htail : (firsts (b :: vs)).tail = (firsts (⟨a.timeMs, b.value⟩ :: vs)).tail :=
    firsts_tail_congr rfl
  rw [finished, firsts_same h, finished, firsts_cons ⟨a.timeMs, b.value⟩, ← htail]
  cases (firsts (b :: vs)).tail with
  | nil => rfl
  | cons c rest => simp [h]

/-- Another state ends a stretch. -/
theorem finished_other (h : a.value.stateLabel? ≠ b.value.stateLabel?) :
    finished (a :: b :: vs) = (a.value.stateLabel?, b.timeMs - a.timeMs) :: finished (b :: vs) := by
  rw [finished, firsts_other h, finished, firsts_cons b]
  rfl

end TimedValue

/-! ### The scan -/

namespace TimeInState

variable {w : Window} {s : TimeInState} {u v : TimedValue} {a b : String}

/-- The shift that goes on from a value of this state. -/
def running (s : TimeInState) (state : String) : Shift := s.pending.getD ⟨state, 0⟩

theorem foldl_accept_upTo (vs : List TimedValue) :
    ∀ s : TimeInState, vs.foldl (accept w) s = (TimedValue.upTo w vs).foldl (accept w) s := by
  induction vs with
  | nil => exact fun _ => rfl
  | cons v vs ih =>
    intro s
    rw [List.foldl_cons, ih, TimedValue.upTo, TimedValue.upTo, List.filter_cons]
    by_cases hv : v.timeMs ≤ w.endMs
    · rw [if_pos (decide_eq_true hv), List.foldl_cons]
    · rw [if_neg (by simpa using hv), accept_of_lt (not_le.1 hv)]

/-- One value more: the running shift goes on up to it, and is committed if it is of another
state. -/
theorem accept_shifts (hv : v.timeMs ≤ w.endMs) (hlast : s.last = some u)
    (ha : u.value.stateLabel? = some a) (hb : v.value.stateLabel? = some b) :
    (b = (s.running a).state ∧ (s.accept w v).shifts = s.shifts ∧ (s.accept w v).pending =
      some ⟨b, (s.running a).durationMs + (v.timeMs - u.timeMs)⟩) ∨
    (b ≠ (s.running a).state ∧ (s.accept w v).shifts =
      ⟨(s.running a).state, (s.running a).durationMs + (v.timeMs - u.timeMs)⟩ :: s.shifts ∧
      (s.accept w v).pending = some ⟨b, 0⟩) := by
  rw [accept, if_neg (not_lt_of_ge hv)]
  simp only [hlast, ha, hb, advance, running]
  split
  · next hsame =>
    refine .inl ⟨hsame, rfl, ?_⟩
    rw [hsame]
  · next hother => exact .inr ⟨hother, rfl, rfl⟩

/-- A shift with its state and its length. -/
def told (shift : Shift) : Option String × Int := (some shift.state, shift.durationMs)

/-- What the rest of a scan commits.  Put back to where the running shift began, the latest value
stands for the stretch up to it. -/
theorem foldl_shifts (vs : List TimedValue) :
    ∀ {s : TimeInState} {u : TimedValue} {a : String}, s.last = some u →
      u.value.stateLabel? = some a → (s.running a).state = a →
      (∀ v ∈ vs, v.timeMs ≤ w.endMs ∧ v.value.stateLabel?.isSome) →
      (vs.foldl (accept w) s).shifts.reverse.map told = s.shifts.reverse.map told ++
        TimedValue.finished (⟨u.timeMs - (s.running a).durationMs, u.value⟩ :: vs) := by
  induction vs with
  | nil =>
    intro s u a _ _ _ _
    exact (List.append_nil _).symm
  | cons v vs ih =>
    intro s u a hlast ha hrunning hvs
    rw [List.forall_mem_cons] at hvs
    obtain ⟨⟨hv, hlabel⟩, hvs⟩ := hvs
    obtain ⟨b, hb⟩ := Option.isSome_iff_exists.1 hlabel
    have hnext := (accept_next hv hlast).1
    rw [List.foldl_cons]
    rcases accept_shifts hv hlast ha hb with
      ⟨hsame, hshifts, hpending⟩ | ⟨hother, hshifts, hpending⟩
    · -- the stretch goes on, and began when it did
      have hrunning' : (s.accept w v).running b =
          ⟨b, (s.running a).durationMs + (v.timeMs - u.timeMs)⟩ := by
        rw [running, hpending, Option.getD_some]
      have hstart : v.timeMs - ((s.running a).durationMs + (v.timeMs - u.timeMs)) =
          u.timeMs - (s.running a).durationMs := by
        omega
      have hstate : u.value.stateLabel? = v.value.stateLabel? := by
        rw [ha, hb, hsame, hrunning]
      rw [ih hnext hb (by rw [hrunning']) hvs, hshifts, hrunning', hstart,
        TimedValue.finished_same (a := ⟨u.timeMs - (s.running a).durationMs, u.value⟩) hstate]
    · -- the stretch is over
      have hrunning' : (s.accept w v).running b = ⟨b, 0⟩ := by
        rw [running, hpending, Option.getD_some]
      have hstate : u.value.stateLabel? ≠ v.value.stateLabel? := by
        rw [ha, hb]
        exact fun heq => hother ((Option.some.inj heq).symm.trans hrunning.symm)
      have hlength : v.timeMs - (u.timeMs - (s.running a).durationMs) =
          (s.running a).durationMs + (v.timeMs - u.timeMs) := by
        omega
      rw [ih hnext hb (by rw [hrunning']) hvs, hshifts, hrunning', Int.sub_zero,
        TimedValue.finished_other (a := ⟨u.timeMs - (s.running a).durationMs, u.value⟩) hstate,
        List.reverse_cons, List.map_append, List.append_assoc, hlength, ha, hrunning]
      rfl

/-- The committed shifts are the stretches that another one follows. -/
theorem shifts_of_labels (vs : List TimedValue)
    (hlabels : ∀ v ∈ vs, v.timeMs ≤ w.endMs → v.value.stateLabel?.isSome) :
    (vs.foldl (accept w) initial).shifts.reverse.map told =
      TimedValue.finished (TimedValue.upTo w vs) := by
  have hupTo : ∀ v ∈ TimedValue.upTo w vs, v.timeMs ≤ w.endMs ∧ v.value.stateLabel?.isSome := by
    intro v hv
    obtain ⟨hmem, hle⟩ := List.mem_filter.1 hv
    exact ⟨of_decide_eq_true hle, hlabels v hmem (of_decide_eq_true hle)⟩
  rw [foldl_accept_upTo]
  cases hvs : TimedValue.upTo w vs with
  | nil => rfl
  | cons u rest =>
    rw [hvs, List.forall_mem_cons] at hupTo
    obtain ⟨⟨hu, hlabel⟩, hrest⟩ := hupTo
    obtain ⟨a, ha⟩ := Option.isSome_iff_exists.1 hlabel
    rw [List.foldl_cons, accept_first hu rfl, foldl_shifts rest rfl ha rfl hrest]
    exact congrArg (fun t => TimedValue.finished (⟨t, u.value⟩ :: rest)) (Int.sub_zero u.timeMs)

/-! ### Mean lengths -/

/-- One shift more in the sums. -/
def addShift (sums : KeyMap (Int × Nat)) (shift : Shift) : KeyMap (Int × Nat) :=
  sums.insert shift.state
    (((sums.get? shift.state).getD (0, 0)).1 + shift.durationMs,
      ((sums.get? shift.state).getD (0, 0)).2 + 1)

theorem shiftSums_eq (s : TimeInState) :
    s.shiftSums = (s.shifts.reverse.filter fun shift => shift.durationMs != 0).foldl addShift
      .empty := rfl

theorem get?_addShift (sums : KeyMap (Int × Nat)) (shift : Shift) (state : String) :
    (addShift sums shift).get? state =
      if shift.state = state then
        some (((sums.get? state).getD (0, 0)).1 + shift.durationMs,
          ((sums.get? state).getD (0, 0)).2 + 1)
      else sums.get? state := by
  rw [addShift, KeyMap.get?_insert]
  split
  · next hstate => rw [hstate]
  · rfl

/-- The lengths of the shifts of a state. -/
def lengthsOf (state : String) (shifts : List Shift) : List Int :=
  (shifts.filter (·.state == state)).map (·.durationMs)

theorem get?_foldl_addShift (state : String) (shifts : List Shift) :
    ∀ sums : KeyMap (Int × Nat), (shifts.foldl addShift sums).get? state =
      if lengthsOf state shifts = [] then sums.get? state
      else some (((sums.get? state).getD (0, 0)).1 + (lengthsOf state shifts).sum,
        ((sums.get? state).getD (0, 0)).2 + (lengthsOf state shifts).length) := by
  induction shifts with
  | nil => exact fun _ => rfl
  | cons shift shifts ih =>
    intro sums
    rw [List.foldl_cons, ih, get?_addShift]
    by_cases hstate : shift.state = state
    · have hlengths : lengthsOf state (shift :: shifts) =
          shift.durationMs :: lengthsOf state shifts := by
        simp [lengthsOf, hstate]
      rw [hlengths, if_neg (List.cons_ne_nil _ _), if_pos hstate, List.sum_cons, List.length_cons]
      split
      · next hnone => simp [hnone]
      · simp only [Option.getD_some, Option.some.injEq, Prod.mk.injEq]
        omega
    · have hlengths : lengthsOf state (shift :: shifts) = lengthsOf state shifts := by
        simp [lengthsOf, hstate]
      rw [hlengths, if_neg hstate]

/-- The lengths of the finished stretches of a state that took time. -/
def finishedLengths (w : Window) (vs : List TimedValue) (state : String) : List Int :=
  ((TimedValue.finished (TimedValue.upTo w vs)).filter fun e => e.1 == some state && e.2 != 0).map
    (·.2)

theorem lengthsOf_eq {vs : List TimedValue}
    (h : s.shifts.reverse.map told = TimedValue.finished (TimedValue.upTo w vs)) (state : String) :
    lengthsOf state (s.shifts.reverse.filter fun shift => shift.durationMs != 0) =
      finishedLengths w vs state := by
  rw [finishedLengths, ← h, lengthsOf, List.filter_map, List.map_map, List.filter_filter]
  congr 1

/-- The key under which the mean length of the shifts of a state is written. -/
def meanKey (key state : String) : String := s!"{key}_{state}.mean_time_in_state_ms"

theorem meanKey_inj {key a b : String} (h : meanKey key a = meanKey key b) : a = b := by
  have hstate := (String.append_left_inj ".mean_time_in_state_ms").1 h
  exact (String.append_right_inj _).1 hstate

/-- Under such a key nothing else is written. -/
theorem of_meanKey {key state : String} {perHour totals : Bool} {e : String × Json}
    (h : e ∈ s.entries key perHour totals w) (hkey : e.1 = meanKey key state) :
    totals = true ∧ ∃ sums, s.shiftSums.get? state = some sums ∧
      e.2 = .int (roundToInt (Float.ofInt sums.1 / Float.ofNat sums.2)) := by
  have hends : ∀ {a b : String}, b ∈ keySuffixes → b ≠ ".mean_time_in_state_ms" →
      a ++ b ≠ meanKey key state :=
    fun hb hne heq => hne (suffix_eq hb (by decide) heq).1
  rcases List.mem_append.1 h with h | h
  · obtain ⟨time, -, h⟩ := List.mem_flatMap.1 h
    rcases List.mem_append.1 h with h | h
    · split at h
      · obtain rfl := List.mem_singleton.1 h
        exact absurd hkey (hends (b := ".secs/hour") (by decide) (by decide))
      · cases h
    · split at h
      · obtain rfl := List.mem_singleton.1 h
        exact absurd hkey (hends (b := ".total_secs") (by decide) (by decide))
      · cases h
  · split at h
    · next htotals =>
      obtain ⟨⟨state', sums⟩, hmem, rfl⟩ := List.mem_map.1 h
      obtain rfl := meanKey_inj hkey
      exact ⟨htotals, sums, KeyMap.get?_of_mem hmem, rfl⟩
    · cases h

/-- The mean length of a state is written where the state has sums. -/
theorem mean_written (s : TimeInState) (w : Window) (key state : String) (perHour totals : Bool)
    (out : MetricMap) :
    (out.insertAll (s.entries key perHour totals w)).get? (meanKey key state) =
      match totals, s.shiftSums.get? state with
      | true, some sums => some (.int (roundToInt (Float.ofInt sums.1 / Float.ofNat sums.2)))
      | _, _ => out.get? (meanKey key state) := by
  have hnone : (totals = true → s.shiftSums.get? state = none) →
      (out.insertAll (s.entries key perHour totals w)).get? (meanKey key state) =
        out.get? (meanKey key state) := by
    intro hsums
    have hno : ∀ e ∈ s.entries key perHour totals w, e.1 ≠ meanKey key state := by
      intro e he hkey
      obtain ⟨htotals, sums, hsome, -⟩ := of_meanKey he hkey
      rw [hsums htotals] at hsome
      cases hsome
    have hany : (s.entries key perHour totals w).any (·.1 == meanKey key state) = false := by
      simpa using hno
    rw [KeyMap.get?_insertAll _ .null _ _ fun e he hkey => absurd hkey (hno e he), hany,
      if_neg Bool.false_ne_true]
  cases totals with
  | false => exact hnone (fun h => absurd h Bool.false_ne_true)
  | true =>
    cases hsums : s.shiftSums.get? state with
    | none => exact hnone fun _ => hsums
    | some sums =>
      have hentry : (state, sums) ∈ s.shiftSums.entries := KeyMap.mem_of_get? hsums
      have hmem : (meanKey key state,
          Json.int (roundToInt (Float.ofInt sums.1 / Float.ofNat sums.2))) ∈
            s.entries key perHour true w :=
        List.mem_append_right _ (List.mem_map.2 ⟨_, hentry, rfl⟩)
      have hany : (s.entries key perHour true w).any (·.1 == meanKey key state) = true :=
        List.any_eq_true.2 ⟨_, hmem, beq_self_eq_true _⟩
      rw [KeyMap.get?_insertAll _ (.int (roundToInt (Float.ofInt sums.1 / Float.ofNat sums.2))),
        hany, if_pos rfl]
      intro e he hkey
      obtain ⟨-, sums', hsums', hvalue⟩ := of_meanKey he hkey
      rw [hsums] at hsums'
      rw [hvalue, Option.some.inj hsums']

/-! ### Streams in which every value names a state -/

/-- A scan has told the stretches of a stream. -/
structure TellsShifts (w : Window) (vs : List TimedValue) (s : TimeInState) : Prop where
  /-- Committed are the stretches that another one follows, in their order. -/
  committed : s.shifts.reverse.map told = TimedValue.finished (TimedValue.upTo w vs)
  /-- The sum and the count of a state are those of its stretches that took time. -/
  sums : ∀ state, s.shiftSums.get? state =
    if finishedLengths w vs state = [] then none
    else some ((finishedLengths w vs state).sum, (finishedLengths w vs state).length)
  /-- A mean is written under the totals, for the states with a stretch that took time. -/
  written : ∀ key state perHour totals, ∀ out : MetricMap,
    (out.insertAll (s.entries key perHour totals w)).get? (meanKey key state) =
      if totals = true ∧ finishedLengths w vs state ≠ [] then
        some (.int (roundToInt (Float.ofInt (finishedLengths w vs state).sum /
          Float.ofNat (finishedLengths w vs state).length)))
      else out.get? (meanKey key state)

/-- A scan tells the stretches of a stream in which every value names a state. -/
theorem scan_shifts (w : Window) (vs : List TimedValue)
    (hlabels : ∀ v ∈ vs, v.timeMs ≤ w.endMs → v.value.stateLabel?.isSome) :
    (vs.foldl (accept w) initial).TellsShifts w vs := by
  have hcommitted := shifts_of_labels (w := w) vs hlabels
  have hsums : ∀ state, (vs.foldl (accept w) initial).shiftSums.get? state =
      if finishedLengths w vs state = [] then none
      else some ((finishedLengths w vs state).sum, (finishedLengths w vs state).length) := by
    intro state
    have hempty : (KeyMap.empty : KeyMap (Int × Nat)).get? state = none := rfl
    rw [shiftSums_eq, get?_foldl_addShift, lengthsOf_eq hcommitted, hempty]
    simp only [Option.getD_none, zero_add]
  refine ⟨hcommitted, hsums, fun key state perHour totals out => ?_⟩
  rw [mean_written, hsums]
  cases totals with
  | false => simp
  | true =>
    by_cases hnone : finishedLengths w vs state = []
    · rw [if_pos hnone, if_neg fun h => h.2 hnone]
    · rw [if_neg hnone, if_pos ⟨rfl, hnone⟩]

/-- A seed before the window, a stretch of two values, one that takes no time, one that is still
running at the end of the window, and a value after it. -/
theorem scan_shifts_seeded :
    let w : Window := ⟨0, 10⟩
    let vs : List TimedValue := [⟨-5, .string "idle"⟩, ⟨-1, .string "idle"⟩, ⟨3, .string "busy"⟩,
      ⟨3, .bool true⟩, ⟨9, .string "idle"⟩, ⟨10, .string "idle"⟩, ⟨11, .string "gone"⟩]
    (∀ v ∈ vs, v.timeMs ≤ w.endMs → v.value.stateLabel?.isSome) ∧
      TimedValue.finished (TimedValue.upTo w vs) =
        [(some "idle", 8), (some "busy", 0), (some "1", 6)] ∧
      (vs.foldl (accept w) initial).TellsShifts w vs := by
  intro w vs
  have hlabels : ∀ v ∈ vs, v.timeMs ≤ w.endMs → v.value.stateLabel?.isSome := by decide
  exact ⟨hlabels, by decide +kernel, scan_shifts w vs hlabels⟩

end TimeInState

/-! ### Values that name no state -/

namespace TimedValue

def namesState (v : TimedValue) : Bool := v.value.stateLabel?.isSome

/-- The neighbours in a stream that both name a state. -/
def linked (vs : List TimedValue) : List (TimedValue × TimedValue) :=
  (vs.zip vs.tail).filter fun p => p.1.namesState && p.2.namesState

/-- The state of the later one of the last such neighbours. -/
def linkedState? (vs : List TimedValue) : Option String :=
  (linked vs).getLast?.bind (·.2.value.stateLabel?)

/-- The times between neighbours, each with the state of the later one of the neighbours before; the
first of them have no others before them, and their own state stands with their time. -/
def charges (ps : List (TimedValue × TimedValue)) : List (Option String × Int) :=
  List.zipWith (fun v p => (v.value.stateLabel?, p.2.timeMs - p.1.timeMs))
    ((ps.head?.map (·.1)).toList ++ ps.map (·.2)) ps

theorem zip_tail_snoc (vs : List TimedValue) (u v : TimedValue) :
    (vs ++ [u, v]).zip (vs ++ [u, v]).tail = (vs ++ [u]).zip (vs ++ [u]).tail ++ [(u, v)] := by
  induction vs with
  | nil => rfl
  | cons x vs ih =>
    cases vs with
    | nil => rfl
    | cons y vs => exact congrArg ((x, y) :: ·) ih

theorem linked_snoc (vs : List TimedValue) (u v : TimedValue) :
    linked (vs ++ [u, v]) =
      linked (vs ++ [u]) ++ if u.namesState && v.namesState then [(u, v)] else [] := by
  rw [linked, zip_tail_snoc, List.filter_append, List.filter_singleton, Bool.cond_eq_ite, linked]

theorem charges_snoc (ps : List (TimedValue × TimedValue)) (p : TimedValue × TimedValue) :
    charges (ps ++ [p]) = charges ps ++
      [((ps.getLast?.elim p.1 (·.2)).value.stateLabel?, p.2.timeMs - p.1.timeMs)] := by
  rcases List.eq_nil_or_concat' ps with rfl | ⟨init, last, rfl⟩
  · rfl
  · -- the states reach one further than the times
    obtain ⟨first, hfirst⟩ : ∃ first, (init ++ [last]).head? = some first := by
      cases init <;> exact ⟨_, rfl⟩
    have hfirst' : (init ++ [last] ++ [p]).head? = some first := by
      rw [List.head?_append, hfirst, Option.some_or]
    have hlength : ([first.1] ++ init.map (·.2)).length = (init ++ [last]).length := by
      simp
    rw [charges, hfirst', charges, hfirst, List.getLast?_concat]
    simp only [Option.map_some, Option.toList_some, Option.elim_some, List.map_append,
      List.map_singleton, ← List.append_assoc]
    rw [List.append_assoc ([first.1] ++ init.map (·.2)), List.zipWith_append hlength,
      ← List.append_nil (init ++ [last]), List.zipWith_append hlength]
    simp

end TimedValue

namespace TimeInState

open TimedValue

variable {w : Window} {s : TimeInState} {u v : TimedValue} {a b : String}

/-- The time of all shifts of a state, the running one included. -/
def shiftMs (s : TimeInState) (state : String) : Int :=
  (lengthsOf state (s.pending.toList ++ s.shifts)).sum

theorem running_state (s : TimeInState) (state : String) :
    (s.running state).state = (s.pending.map (·.state)).getD state := by
  rw [running]
  cases s.pending <;> rfl

/-- The time up to the next value goes to the running shift. -/
theorem accept_shiftMs (hv : v.timeMs ≤ w.endMs) (hlast : s.last = some u)
    (ha : u.value.stateLabel? = some a) (hb : v.value.stateLabel? = some b) (state : String) :
    (s.accept w v).shiftMs state =
      s.shiftMs state + if (s.running a).state = state then v.timeMs - u.timeMs else 0 := by
  have hcons : ∀ (x : Shift) (shifts : List Shift), (lengthsOf state (x :: shifts)).sum =
      (if x.state = state then x.durationMs else 0) + (lengthsOf state shifts).sum := by
    intro x shifts
    by_cases hx : x.state = state
    · simp [lengthsOf, hx]
    · simp [lengthsOf, hx]
  -- a shift that has not begun takes no time
  have hrunning : s.shiftMs state =
      (if (s.running a).state = state then (s.running a).durationMs else 0) +
        (lengthsOf state s.shifts).sum := by
    rw [shiftMs, running]
    cases s.pending with
    | none => simp
    | some shift => exact hcons shift s.shifts
  rw [hrunning, shiftMs]
  rcases accept_shifts hv hlast ha hb with ⟨hsame, hshifts, hpending⟩ | ⟨-, hshifts, hpending⟩
  · rw [hshifts, hpending, Option.toList_some, List.singleton_append, hcons, hsame]
    simp only
    split <;> omega
  · rw [hshifts, hpending, Option.toList_some, List.singleton_append, hcons, hcons, ite_self]
    simp only
    split <;> omega

/-- Between values of which one names no state nothing happens to shifts. -/
theorem accept_unlinked (hlast : s.last = some u) (h : (u.namesState && v.namesState) = false) :
    (s.accept w v).shifts = s.shifts ∧ (s.accept w v).pending = s.pending := by
  by_cases hv : w.endMs < v.timeMs
  · rw [accept_of_lt hv]
    exact ⟨rfl, rfl⟩
  · rw [accept, if_neg hv]
    simp only [hlast]
    simp only [namesState, Bool.and_eq_false_iff, Option.isSome_eq_false_iff,
      Option.isNone_iff_eq_none] at h
    rcases h with h | h
    · simp only [h]
      exact ⟨trivial, trivial⟩
    · cases ha : u.value.stateLabel? with
      | none => exact ⟨rfl, rfl⟩
      | some a =>
        simp only [h]
        exact ⟨trivial, trivial⟩

/-- The time charged to a state. -/
def chargedMs (past : List TimedValue) (state : String) : Int :=
  (((charges (linked past)).filter (·.1 == some state)).map (·.2)).sum

/-- What the stream up to here says of the running shift and of the times of all shifts. -/
structure Follows (past : List TimedValue) (s : TimeInState) : Prop where
  last : s.last = past.getLast?
  pending : s.pending.map (·.state) = linkedState? past
  charged : ∀ state, s.shiftMs state = chargedMs past state

theorem Follows.running_state {past : List TimedValue} (h : s.Follows past) (state : String) :
    (s.running state).state = (linkedState? past).getD state := by
  rw [TimeInState.running_state, h.pending]

theorem chargedMs_snoc (vs : List TimedValue) (ha : u.value.stateLabel? = some a)
    (hb : v.value.stateLabel? = some b) (state : String) :
    chargedMs (vs ++ [u, v]) state = chargedMs (vs ++ [u]) state +
      if (linkedState? (vs ++ [u])).getD a = state then v.timeMs - u.timeMs else 0 := by
  have hlinked : (u.namesState && v.namesState) = true := by
    rw [namesState, namesState, ha, hb]
    rfl
  -- the later one of neighbours that are linked names a state
  have hlast : ((linked (vs ++ [u])).getLast?.elim u (·.2)).value.stateLabel? =
      some ((linkedState? (vs ++ [u])).getD a) := by
    rw [linkedState?]
    cases hps : (linked (vs ++ [u])).getLast? with
    | none => exact ha
    | some p =>
      have hp := (List.mem_filter.1 (List.mem_of_getLast? hps)).2
      rw [Bool.and_eq_true, namesState, namesState] at hp
      obtain ⟨state, hstate⟩ := Option.isSome_iff_exists.1 hp.2
      simp [hstate]
  rw [chargedMs, linked_snoc, hlinked, if_pos rfl, charges_snoc, hlast, chargedMs,
    List.filter_append, List.map_append, List.sum_append]
  by_cases hstate : (linkedState? (vs ++ [u])).getD a = state
  · simp [hstate]
  · simp [hstate]

theorem linkedState?_snoc (vs : List TimedValue) (ha : u.value.stateLabel? = some a)
    (hb : v.value.stateLabel? = some b) : linkedState? (vs ++ [u, v]) = some b := by
  have hlinked : (u.namesState && v.namesState) = true := by
    rw [namesState, namesState, ha, hb]
    rfl
  rw [linkedState?, linked_snoc, hlinked, if_pos rfl, List.getLast?_concat]
  exact hb

theorem accept_follows {past : List TimedValue} (h : s.Follows past) (hv : v.timeMs ≤ w.endMs) :
    (s.accept w v).Follows (past ++ [v]) := by
  rcases List.eq_nil_or_concat' past with rfl | ⟨vs, u, rfl⟩
  · rw [accept_first hv h.last]
    exact ⟨rfl, h.pending, h.charged⟩
  · have hlast : s.last = some u := by rw [h.last, List.getLast?_concat]
    have hnext := (accept_next hv hlast).1
    rw [List.append_assoc, List.singleton_append]
    by_cases hlinked : (u.namesState && v.namesState) = true
    · obtain ⟨hu, hv'⟩ := Bool.and_eq_true_iff.1 hlinked
      obtain ⟨a, ha⟩ := Option.isSome_iff_exists.1 hu
      obtain ⟨b, hb⟩ := Option.isSome_iff_exists.1 hv'
      refine ⟨by rw [hnext]; simp, ?_, fun state => ?_⟩
      · rw [linkedState?_snoc vs ha hb]
        rcases accept_shifts hv hlast ha hb with ⟨-, -, hpending⟩ | ⟨-, -, hpending⟩
        · rw [hpending]
          rfl
        · rw [hpending]
          rfl
      · rw [accept_shiftMs hv hlast ha hb, chargedMs_snoc vs ha hb, h.charged, h.running_state]
    · rw [Bool.not_eq_true] at hlinked
      obtain ⟨hshifts, hpending⟩ := accept_unlinked (w := w) hlast hlinked
      have hsame : linked (vs ++ [u, v]) = linked (vs ++ [u]) := by
        rw [linked_snoc, hlinked, if_neg Bool.false_ne_true, List.append_nil]
      refine ⟨by rw [hnext]; simp, ?_, fun state => ?_⟩
      · rw [hpending, h.pending, linkedState?, linkedState?, hsame]
      · rw [shiftMs, hshifts, hpending, ← shiftMs, h.charged, chargedMs, chargedMs, hsame]

theorem scan_follows (w : Window) (vs : List TimedValue) :
    (vs.foldl (accept w) initial).Follows (upTo w vs) := by
  induction vs using List.reverseRecOn with
  | nil => exact ⟨rfl, rfl, fun _ => rfl⟩
  | append_singleton vs v ih =>
    rw [List.foldl_append, List.foldl_cons, List.foldl_nil, upTo, List.filter_append, ← upTo,
      List.filter_singleton, Bool.cond_eq_ite]
    by_cases hv : v.timeMs ≤ w.endMs
    · rw [if_pos (decide_eq_true hv)]
      exact accept_follows ih hv
    · rw [if_neg (by simpa using hv), List.append_nil, accept_of_lt (not_le.1 hv)]
      exact ih

/-- To which shifts a scan has added time. -/
structure ChargesShifts (w : Window) (vs : List TimedValue) (s : TimeInState) : Prop where
  /-- Of all neighbours that name a state the time is with the shifts of the state charged. -/
  charged : ∀ state, s.shiftMs state = chargedMs (upTo w vs) state
  /-- The time from the latest value to the next one is added to a shift of the state that the last
  neighbours came to, or of its own state if there were none. -/
  next : ∀ u ∈ (upTo w vs).getLast?, ∀ v, v.timeMs ≤ w.endMs →
    ∀ a ∈ u.value.stateLabel?, v.namesState = true → ∀ state,
      (s.accept w v).shiftMs state = s.shiftMs state +
        if (linkedState? (upTo w vs)).getD a = state then v.timeMs - u.timeMs else 0
  /-- No time is added if one of both names no state. -/
  unlinked : ∀ u ∈ (upTo w vs).getLast?, ∀ v, (u.namesState && v.namesState) = false →
    (s.accept w v).shifts = s.shifts ∧ (s.accept w v).pending = s.pending
  /-- That is its own state if the value before the latest one names a state as well, or there is
  none. -/
  own : ∀ before u, upTo w vs = before ++ [u] → (∀ x ∈ before.getLast?, x.namesState = true) →
    ∀ a ∈ u.value.stateLabel?, (linkedState? (upTo w vs)).getD a = a

/-- A scan adds the time from a value to the next one to the shifts of the value's own state, unless
the value comes right after one that names no state. -/
theorem scan_charges (w : Window) (vs : List TimedValue) :
    (vs.foldl (accept w) initial).ChargesShifts w vs := by
  have hfollows := scan_follows w vs
  refine ⟨hfollows.charged, fun u hu v hv a ha hv' state => ?_, fun u hu v hlinked => ?_,
    fun before u hvs hbefore a ha => ?_⟩
  · obtain ⟨b, hb⟩ := Option.isSome_iff_exists.1 hv'
    rw [accept_shiftMs hv (hfollows.last.trans hu) ha hb, hfollows.running_state]
  · exact accept_unlinked (hfollows.last.trans hu) hlinked
  · rw [hvs]
    rcases List.eq_nil_or_concat' before with rfl | ⟨before, x, rfl⟩
    · rfl
    · obtain ⟨b, hb⟩ := Option.isSome_iff_exists.1 (hbefore x List.getLast?_concat)
      rw [List.append_assoc, List.singleton_append, linkedState?_snoc before hb ha,
        Option.getD_some]

/-- After a value that names no state the time goes to the state from before it. -/
example :
    let vs : List TimedValue := [⟨0, .string "low"⟩, ⟨10, .string "high"⟩,
      ⟨10, .number (1.0 / 0.0)⟩, ⟨30, .string "off"⟩, ⟨45, .string "off"⟩]
    (vs.foldl (accept ⟨0, 60⟩) initial).shifts.reverse.map told =
      [(some "low", 10), (some "high", 15)] := by
  decide +kernel

end TimeInState

end Telemetry
