import Mathlib.Data.List.Basic
import Mathlib.Tactic.Common
import Telemetry.Store.Schema

/-!
# Bringing a form up to date again

What a step of a migration makes is there from then on, whatever steps come after it.  When the step
is run again it finds its own work: a table or an index is passed over, a column or a record is
refused and ends the run.  Nothing changes in either case.

So a second migration can only fail, and it does where its first record is refused.  That happens
when a recorded version does not fit in 32 bits: such a version reads as none, also after version 2
has been recorded beside it.
-/

namespace Telemetry

/-- The step passes over what is there already. -/
def SchemaStep.looksFirst : SchemaStep → Bool
  | .createTable _ | .createIndex _ => true
  | .addSoftwareVersion | .record _ => false

namespace Schema

variable {s s' : Schema} {step other : SchemaStep} {steps : List SchemaStep} {v : Int}

/-- What the step makes is there. -/
def Made (s : Schema) : SchemaStep → Prop
  | .createTable t => s.has t
  | .createIndex i => s.has i.table ∧ i ∈ s.indexes
  | .addSoftwareVersion => s.has .reports ∧ s.softwareVersion
  | .record v => s.has .versions ∧ v ∈ s.versions

theorem mem_insertSorted {n : Int} {l : List Int} : v ∈ insertSorted n l ↔ v = n ∨ v ∈ l := by
  induction l with
  | nil => simp [insertSorted]
  | cons m ms ih =>
    rw [insertSorted]
    split
    · simp
    · rw [List.mem_cons, List.mem_cons, ih]
      exact or_left_comm

/-! ### One step -/

/-- All that is in the first form is in the second one. -/
structure IsKept (s s' : Schema) : Prop where
  table : ∀ t, s.has t = true → s'.has t = true
  index : ∀ i ∈ s.indexes, i ∈ s'.indexes
  /-- The column goes where its table is made anew. -/
  softwareVersion : s.has .reports = true → s.softwareVersion = true → s'.softwareVersion = true
  version : ∀ v ∈ s.versions, v ∈ s'.versions

theorem IsKept.refl (s : Schema) : IsKept s s :=
  ⟨fun _ h => h, fun _ h => h, fun _ h => h, fun _ h => h⟩

theorem IsKept.trans {t : Schema} (h : IsKept s t) (h' : IsKept t s') : IsKept s s' where
  table x hx := h'.table x (h.table x hx)
  index i hi := h'.index i (h.index i hi)
  softwareVersion ht hc := h'.softwareVersion (h.table _ ht) (h.softwareVersion ht hc)
  version v hv := h'.version v (h.version v hv)

theorem IsKept.made (h : IsKept s s') (hm : s.Made step) : s'.Made step := by
  cases step with
  | createTable t => exact h.table t hm
  | createIndex i => exact ⟨h.table _ hm.1, h.index i hm.2⟩
  | addSoftwareVersion => exact ⟨h.table _ hm.1, h.softwareVersion hm.1 hm.2⟩
  | record v => exact ⟨h.table _ hm.1, h.version v hm.2⟩

/-- All that a step can do: what was there is kept, what it makes is there then, and it records no
version but its own. -/
theorem after?_spec (h : s.after? step = some s') :
    IsKept s s' ∧ s'.Made step ∧ ∀ v ∈ s'.versions, step = .record v ∨ v ∈ s.versions := by
  cases step with
  | createTable t =>
    by_cases ht : s.has t = true
    · obtain rfl : s = s' := by simpa [after?, ht] using h
      exact ⟨.refl s, ht, fun v hv => .inr hv⟩
    · obtain rfl : _ = s' := by simpa [after?, ht] using h
      refine ⟨⟨?_, fun _ h => h, ?_, fun _ h => h⟩, by simp [Made, has], fun v hv => .inr hv⟩
      · intro x hx
        simp only [has, List.contains_iff_mem] at hx
        simp [has, hx]
      · intro hreports hcolumn
        have hne : t ≠ .reports := fun heq => ht (heq ▸ hreports)
        simpa [hne] using hcolumn
  | createIndex i =>
    by_cases ht : s.has i.table = true
    · by_cases hi : i ∈ s.indexes
      · obtain rfl : s = s' := by simpa [after?, ht, hi] using h
        exact ⟨.refl s, ⟨ht, hi⟩, fun v hv => .inr hv⟩
      · obtain rfl : _ = s' := by simpa [after?, ht, hi] using h
        refine ⟨⟨fun _ h => h, ?_, fun _ h => h, fun _ h => h⟩, ⟨ht, by simp⟩, fun v hv => .inr hv⟩
        exact fun j hj => List.mem_append_left _ hj
    · simp [after?, ht] at h
  | addSoftwareVersion =>
    simp only [after?, Option.ite_none_right_eq_some, Option.some.injEq, Bool.and_eq_true] at h
    obtain ⟨⟨ht, -⟩, rfl⟩ := h
    refine ⟨⟨fun _ h => h, fun _ h => h, fun _ _ => rfl, fun _ h => h⟩, ⟨ht, rfl⟩, ?_⟩
    exact fun v hv => .inr hv
  | record n =>
    simp only [after?, Option.ite_none_left_eq_some, Option.some.injEq, Bool.or_eq_true,
      Bool.not_eq_true', not_or, Bool.not_eq_false] at h
    obtain ⟨⟨ht, -⟩, rfl⟩ := h
    refine ⟨⟨fun _ h => h, fun _ h => h, fun _ h => h, ?_⟩, ⟨ht, mem_insertSorted.2 (.inl rfl)⟩, ?_⟩
    · exact fun v hv => mem_insertSorted.2 (.inr hv)
    · intro v hv
      exact (mem_insertSorted.1 hv).imp_left fun heq => congrArg _ heq.symm

/-- A step that finds its own work passes or fails, and makes nothing. -/
theorem Made.after? (h : s.Made step) :
    s.after? step = if step.looksFirst then some s else none := by
  cases step with
  | createTable t => exact if_pos h
  | createIndex i => simp [Schema.after?, SchemaStep.looksFirst, h.1, h.2]
  | addSoftwareVersion => simp [Schema.after?, SchemaStep.looksFirst, h.2]
  | record v => simp [Schema.after?, SchemaStep.looksFirst, h.2]

/-! ### Runs -/

theorem run_cons_eq_true :
    run (step :: steps) s = (true, s') ↔
      ∃ t, s.after? step = some t ∧ run steps t = (true, s') := by
  rw [run]
  cases s.after? step <;> simp

theorem run_spec (h : run steps s = (true, s')) :
    IsKept s s' ∧ (∀ step ∈ steps, s'.Made step) ∧
      ∀ v ∈ s'.versions, .record v ∈ steps ∨ v ∈ s.versions := by
  induction steps generalizing s with
  | nil =>
    obtain rfl : s = s' := congrArg Prod.snd h
    exact ⟨.refl s, by simp, fun v hv => .inr hv⟩
  | cons step steps ih =>
    obtain ⟨t, hstep, hrun⟩ := run_cons_eq_true.1 h
    obtain ⟨hkept, hmade, hversions⟩ := after?_spec hstep
    obtain ⟨hkept', hmade', hversions'⟩ := ih hrun
    refine ⟨hkept.trans hkept', ?_, ?_⟩
    · exact List.forall_mem_cons.2 ⟨hkept'.made hmade, hmade'⟩
    · intro v hv
      rcases hversions' v hv with hv | hv
      · exact .inl (.tail _ hv)
      · exact (hversions v hv).imp_left fun heq => List.mem_cons.2 (.inl heq.symm)

/-- A run of steps that all find their own work changes nothing. -/
theorem run_of_made (h : ∀ step ∈ steps, s.Made step) :
    run steps s = (steps.all (·.looksFirst), s) := by
  induction steps with
  | nil => rfl
  | cons step steps ih =>
    obtain ⟨hstep, hsteps⟩ := List.forall_mem_cons.1 h
    rw [run, hstep.after?, List.all_cons]
    cases step.looksFirst with
    | false => rfl
    | true => exact ih hsteps

/-! ### The version that is read -/

theorem current_of_max {n : Int} (h : s.versions.max? = some n) :
    s.current = if 0 ≤ n ∧ n < UInt32.size then n else 0 := by
  simp only [current, h, Bool.and_eq_true, decide_eq_true_eq]

/-- A version that does not fit is read as none, whatever is recorded beside it. -/
theorem current_of_beyond (hv : v ∈ s.versions) (hle : UInt32.size ≤ v) : s.current = 0 := by
  cases hmax : s.versions.max? with
  | none => simp [current, hmax]
  | some n =>
    have hvn : v ≤ n := (List.max?_eq_some_iff.1 hmax).2 v hv
    rw [current_of_max hmax, if_neg (by omega)]

theorem le_current (hv : v ∈ s.versions) (h0 : 0 ≤ v)
    (hfit : ∀ v ∈ s.versions, v < UInt32.size) : v ≤ s.current := by
  cases hmax : s.versions.max? with
  | none =>
    rw [List.max?_eq_none_iff] at hmax
    simp [hmax] at hv
  | some n =>
    obtain ⟨hn, hle⟩ := List.max?_eq_some_iff.1 hmax
    have hvn : v ≤ n := hle v hv
    rwa [current_of_max hmax, if_pos ⟨by omega, hfit n hn⟩]

theorem current_mem (h : 0 < s.current) : s.current ∈ s.versions := by
  cases hmax : s.versions.max? with
  | none => simp [current, hmax] at h
  | some n =>
    rw [current_of_max hmax] at h ⊢
    split at h
    · rw [if_pos ‹_›]
      exact (List.max?_eq_some_iff.1 hmax).1
    · omega

/-! ### Migrations -/

theorem record_mem_missing {n : Int} :
    .record v ∈ missing n ↔ v = 1 ∧ n < 1 ∨ v = 2 ∧ n < 2 := by
  rw [missing, List.mem_append]
  by_cases h₁ : n < 1 <;> by_cases h₂ : n < 2 <;> simp [h₁, h₂, firstVersion, secondVersion]

/-- The table of versions is looked for first; making it records nothing. -/
theorem migrate_eq_run (s : Schema) :
    s.migrate = run (.createTable .versions :: missing s.current) s := by
  rw [migrate, run]
  by_cases h : s.has .versions = true
  · simp [after?, h]
  · simp [after?, h, current]

/-- A migration that has succeeded can be run again: it changes nothing, and it succeeds unless a
recorded version does not fit in 32 bits. -/
theorem migrate_again (h : s.migrate = (true, s')) :
    s'.migrate = (decide (∀ v ∈ s'.versions, v < UInt32.size), s') := by
  rw [migrate_eq_run] at h
  obtain ⟨hkept, hmade, hversions⟩ := run_spec h
  rw [migrate_eq_run]
  by_cases hfit : ∀ v ∈ s'.versions, v < UInt32.size
  · have hcurrent : 2 ≤ s'.current := by
      by_cases hs : s.current < 2
      · have hrecord : SchemaStep.record 2 ∈ missing s.current :=
          record_mem_missing.2 (.inr ⟨rfl, hs⟩)
        exact le_current (hmade _ (.tail _ hrecord)).2 (by decide) hfit
      · have hmem : s.current ∈ s'.versions := hkept.version _ (current_mem (by omega))
        have := le_current hmem (by omega) hfit
        omega
    have hmissing : missing s'.current = [] := by
      rw [missing, if_neg (by omega), if_neg (by omega), List.append_nil]
    rw [hmissing, decide_eq_true hfit, run_of_made]
    · rfl
    · exact fun step hstep => hmade step (List.mem_cons.2 (.inl (List.mem_singleton.1 hstep)))
  · obtain ⟨v, hv, hle⟩ : ∃ v ∈ s'.versions, UInt32.size ≤ v := by simpa using hfit
    have hv' : v ∈ s.versions := by
      refine (hversions v hv).resolve_left fun hrecord => ?_
      have hrecord' : .record v ∈ missing s.current := by simpa using hrecord
      have hsize : (UInt32.size : Int) = 4294967296 := rfl
      have := record_mem_missing.1 hrecord'
      omega
    -- both runs read no version, so they have the same steps
    rw [current_of_beyond hv' hle] at hmade
    rw [current_of_beyond hv hle, decide_eq_false hfit, run_of_made hmade]
    rfl

/-- Version 4294967296 is one beyond what fits. -/
theorem migrate_again_beyond :
    (empty.setVersions [4294967296]).2.migrate.1 = true ∧
      (empty.setVersions [4294967296]).2.migrate.2.migrate =
        (false, (empty.setVersions [4294967296]).2.migrate.2) := by
  have h : (empty.setVersions [4294967296]).2.migrate =
      (true, (empty.setVersions [4294967296]).2.migrate.2) := by decide +kernel
  refine ⟨congrArg Prod.fst h, (migrate_again h).trans ?_⟩
  decide +kernel

example : empty.migrate.2.migrate = (true, empty.migrate.2) := by decide +kernel

end Schema

end Telemetry
