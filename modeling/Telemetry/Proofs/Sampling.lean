import Telemetry.Proofs.Accumulating

/-!
# What calls store

A call that is no collection adds to the open hourly accumulator what its reply says was stored, and
nothing else.  A sample counts as stored where its reply gives the id of a value: a number that is
none leaves no value, and neither does a sample that is refused.
-/

namespace Telemetry

/-- The value of a name that a call stored in the hourly accumulator. -/
def stored? (name : String) : Call × Reply → Option TimedValue
  | (.add sample, .added (.ok (some _))) =>
    if sample.reportKind = .hourly ∧ sample.eventName = name then
      some ⟨sample.timeMs, sample.value.kept⟩
    else none
  | _ => none

/-- The values of a name that a run stored in hourly accumulators, in order. -/
def storedIn (name : String) (trace : List (Call × Reply)) : List TimedValue :=
  trace.filterMap (stored? name)

/-- The open accumulator stays open, and the series of each name goes on as told. -/
structure Store.Continues (s s' : Store) (added : String → List TimedValue) : Prop where
  hourly : ∀ r, s.hourly? = some r → s'.hourly? = some r
  series : ∀ name, s'.hourlySeries name = s.hourlySeries name ++ added name

theorem Store.KeepsHourly.continues {s s' : Store} (h : KeepsHourly s s') :
    Continues s s' fun _ => [] :=
  ⟨fun _ hr => h.hourly.trans hr, fun name => (h.series name).trans (List.append_nil _).symm⟩

theorem Store.Continues.trans {s s' s'' : Store} {added added' : String → List TimedValue}
    (h : Continues s s' added) (h' : Continues s' s'' added') :
    Continues s s'' fun name => added name ++ added' name :=
  ⟨fun r hr => h'.hourly r (h.hourly r hr), fun name => by
    rw [h'.series, h.series, List.append_assoc]⟩

namespace Engine

variable {e : Engine}

/-- A sample adds what was stored of it. -/
theorem add_continues (hs : e.store.Consistent) (sample : MetricSample) :
    e.store.Continues (e.add sample).2.store fun name =>
      (stored? name (.add sample, .added (e.add sample).1)).toList := by
  rcases transactIf_cases hs.undamaged sample.validate (.take e.softwareVersion sample) with
    ⟨result, s, hresult, hsample, htake, heq⟩ | ⟨err, s, hresult, hseen, heq⟩
  · have hs' := (Transaction.take_steps hs hsample htake).consistent hs
    change e.store.Continues (e.transactIf _ _).2.store fun name =>
      (stored? name (_, .added (e.transactIf _ _).1)).toList
    rw [hresult, heq, withStore_eq hs'.undamaged]
    by_cases hkind : sample.reportKind = .hourly
    · obtain ⟨hsome, ⟨r, hopen, hwhich⟩, hseries⟩ := Transaction.take_hourly hs hsample hkind htake
      refine ⟨fun x hx => ?_, fun name => ?_⟩
      · rcases hwhich with hsame | ⟨hnone, -⟩
        · exact hopen.trans (hsame.symm.trans hx)
        · rw [hnone] at hx
          cases hx
      · refine (hseries name).trans (congrArg _ ?_)
        cases result with
        | none =>
          have hnan : sample.value.isNaN = true := by simpa using hsome.symm
          simp [stored?, Transaction.recorded, hnan]
        | some id =>
          have hnumber : sample.value.isNaN = false := by simpa using hsome.symm
          simp only [stored?, hkind, true_and, Transaction.recorded, hnumber, Bool.false_eq_true,
            if_false, eq_comm (a := name)]
          split <;> rfl
    · have hnone : ∀ name, stored? name (.add sample, .added (.ok result)) = none := by
        intro name
        cases result <;> simp [stored?, hkind]
      simp only [hnone]
      exact (Transaction.take_other hs hsample hkind htake).continues
  · change e.store.Continues (e.transactIf _ _).2.store fun name =>
      (stored? name (_, .added (e.transactIf _ _).1)).toList
    rw [hresult, heq]
    exact hseen.keepsHourly.continues

/-- A sample that was taken up for the hourly accumulator is stored. -/
theorem storedIn_add {sample : MetricSample} (hkind : sample.reportKind = .hourly)
    (h : (e.add sample).1.toOption.join.isSome = true) :
    storedIn sample.eventName (e.trace [.add sample]) = [⟨sample.timeMs, sample.value.kept⟩] := by
  cases hadded : (e.add sample).1 with
  | error err =>
    rw [hadded] at h
    cases h
  | ok id? =>
    rw [hadded] at h
    obtain ⟨id, rfl⟩ := Option.isSome_iff_exists.1 h
    simp [storedIn, trace, call, hadded, stored?, hkind]

theorem storedIn_collect {request : CollectRequest} {exportName : String} {files : Files}
    (name : String) (calls : List Call) :
    storedIn name (e.trace (.collect request exportName files :: calls)) =
      storedIn name ((e.collect request exportName files).engine.trace calls) := rfl

/-- Where a transaction that succeeds leaves the accumulator alone, so does the operation. -/
theorem transactIf_keepsHourly {α : Type} (hs : e.store.Consistent)
    {condition : Except Failure Unit} {t : Transaction α}
    (ht : ∀ a s, condition = .ok () → Yields t e.store a s →
      s.Consistent ∧ Store.KeepsHourly e.store s) :
    Store.KeepsHourly e.store (e.transactIf condition t).2.store := by
  rcases transactIf_cases hs.undamaged condition t with
    ⟨a, s, -, hcondition, hyields, heq⟩ | ⟨err, s, -, hseen, heq⟩
  · obtain ⟨hs', hkeeps⟩ := ht a s hcondition hyields
    rw [heq, withStore_eq hs'.undamaged]
    exact hkeeps
  · rw [heq]
    exact hseen.keepsHourly

/-- A call that is no collection adds what it stored. -/
theorem call_continues (hs : e.store.Consistent) {c : Call} (hc : c.isCollect = false) :
    e.store.Continues (e.call c).2.store fun name => (stored? name (c, (e.call c).1)).toList := by
  cases c with
  | add sample => exact add_continues hs sample
  | startSession name t =>
    refine (transactIf_keepsHourly hs fun a s hname h => ⟨?_, ?_⟩).continues
    · exact (Transaction.startSession_steps .everything hs (isSessionName_of_validate hname) trivial
        h).consistent hs
    · exact Transaction.startSession_keepsHourly hs (isSessionName_of_validate hname) h
  | startSeeded name t keys =>
    refine (transactIf_keepsHourly hs fun a s hname h => ⟨?_, ?_⟩).continues
    · exact (Transaction.startSeeded_steps .everything hs (isSessionName_of_validate hname)
        (fun _ _ => trivial) trivial h).consistent hs
    · exact Transaction.startSeeded_keepsHourly hs (isSessionName_of_validate hname) h
  | endSession name t =>
    refine (transactIf_keepsHourly hs fun a s hname h => ⟨?_, ?_⟩).continues
    · exact (Transaction.endSession_steps .everything hs (fun _ _ _ => trivial) h).consistent hs
    · exact Transaction.endSession_keepsHourly hs h
  | reopen settings version =>
    exact (reopen_seenAs hs.undamaged settings version).keepsHourly.continues
  | collect request exportName files => cases hc

theorem run_continues (calls : List Call) :
    ∀ {e : Engine}, e.store.Consistent → (∀ c ∈ calls, c.isCollect = false) →
      e.store.Continues (e.run calls).store fun name => storedIn name (e.trace calls) := by
  induction calls with
  | nil => exact fun _ _ => (Store.KeepsHourly.refl _).continues
  | cons c calls ih =>
    intro e hs hcalls
    have hcall := call_continues hs (hcalls c (by simp))
    have hrest := ih ((call_steps hs c).consistent hs) fun c' hc' => hcalls c' (by simp [hc'])
    refine ⟨(hcall.trans hrest).hourly, fun name => ((hcall.trans hrest).series name).trans ?_⟩
    rw [storedIn, storedIn, trace, List.filterMap_cons]
    cases stored? name (c, (e.call c).1) <;> rfl

end Engine

end Telemetry
