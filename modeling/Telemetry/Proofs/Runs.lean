import Telemetry.Engine.Basic
import Telemetry.Proofs.Stages

/-!
# Runs of an engine

An engine is called again and again: samples are taken in, sessions begin and end, reports are
collected, and in between the store may be closed and opened again, under other settings and by
another version of the software.  A call that succeeds is a chain of steps of the store, and one that
fails changes nothing but the queries that are kept prepared.  So whatever is called, with whatever
arguments and results, the store stays consistent.
-/

namespace Telemetry

/-- What an engine can be called to do. Each collection finds files of its own. -/
inductive Call where
  | add (sample : MetricSample)
  | startSession (name : String) (t : Int)
  | startSeeded (name : String) (t : Int) (keys : List String)
  | endSession (name : String) (t : Int)
  | collect (request : CollectRequest) (exportName : String) (files : Files)
  /-- The store is closed and opened again. -/
  | reopen (settings : Settings) (softwareVersion : Option String)

def Call.isCollect : Call → Bool
  | .collect .. => true
  | _ => false

/-- The settings under which a call is to open the store again. -/
def Call.settings? : Call → Option Settings
  | .reopen settings _ => some settings
  | _ => none

/-- What a call results in. -/
inductive Reply where
  | added (result : Except Failure (Option Int))
  | done (result : Except Failure Unit)
  | collected (result : Except Failure CustomReport)

/-- Under which an engine is used. -/
structure Terms where
  settings : Settings
  softwareVersion : Option String

/-- Settings that are not valid are not taken. -/
def Terms.after (terms : Terms) : Call → Terms
  | .reopen settings softwareVersion =>
    if settings.validate.isOk then ⟨settings, softwareVersion⟩ else terms
  | _ => terms

/-- An undamaged store has the form that it should have, so nothing is to be done when it is opened
again. -/
theorem Store.Undamaged.reopened?_eq {s : Store} (hs : s.Undamaged) :
    s.reopened? = some { s with kept := [] } := by
  rw [Undamaged] at hs
  obtain ⟨reports, metrics, values, damage, readOnly, kept⟩ := s
  obtain rfl : damage = Damage.none := hs
  rfl

namespace Engine

def terms (e : Engine) : Terms := ⟨e.settings, e.softwareVersion⟩

/-- Opens the store again; where that fails, the engine stays as it is. -/
def reopen (e : Engine) (settings : Settings) (softwareVersion : Option String) :
    Except Failure Unit × Engine :=
  match openStore settings softwareVersion e.store with
  | .ok e => (.ok (), e)
  | .error err => (.error err, e)

def call (e : Engine) : Call → Reply × Engine
  | .add sample => (.added (e.add sample).1, (e.add sample).2)
  | .startSession name t => (.done (e.startSession name t).1, (e.startSession name t).2)
  | .startSeeded name t keys => (.done (e.startSeeded name t keys).1, (e.startSeeded name t keys).2)
  | .endSession name t => (.done (e.endSession name t).1, (e.endSession name t).2)
  | .collect request exportName files =>
    (.collected (e.collect request exportName files).result,
      (e.collect request exportName files).engine)
  | .reopen settings version => (.done (e.reopen settings version).1, (e.reopen settings version).2)

def run (e : Engine) : List Call → Engine
  | [] => e
  | c :: calls => (e.call c).2.run calls

/-- Calls with their results. -/
def trace (e : Engine) : List Call → List (Call × Reply)
  | [] => []
  | c :: calls => (c, (e.call c).1) :: (e.call c).2.trace calls

/-- What the calls of a run come to, each by itself, in order. -/
def gather {α : Type} (f : Engine → Call → List α) : Engine → List Call → List α
  | _, [] => []
  | e, c :: calls => f e c ++ gather f (e.call c).2 calls

theorem run_append (before after : List Call) :
    ∀ {e : Engine}, e.run (before ++ after) = (e.run before).run after := by
  induction before with
  | nil => exact rfl
  | cons c before ih => exact ih

theorem gather_append {α : Type} (f : Engine → Call → List α) (before after : List Call) :
    ∀ {e : Engine}, gather f e (before ++ after) = gather f e before ++ gather f (e.run before) after := by
  induction before with
  | nil => exact rfl
  | cons c before ih =>
    intro e
    rw [List.cons_append, gather, ih, gather, List.append_assoc]
    rfl

theorem mem_gather {α : Type} {f : Engine → Call → List α} {x : α} (calls : List Call) :
    ∀ {e : Engine}, x ∈ gather f e calls →
      ∃ before c after, calls = before ++ c :: after ∧ x ∈ f (e.run before) c := by
  induction calls with
  | nil =>
    intro e hx
    cases hx
  | cons c calls ih =>
    intro e hx
    rcases List.mem_append.1 hx with hx | hx
    · exact ⟨[], c, calls, rfl, hx⟩
    · obtain ⟨before, c', after, hcalls, hx⟩ := ih hx
      exact ⟨c :: before, c', after, congrArg (c :: ·) hcalls, hx⟩

variable {e : Engine}

/-! ### One operation -/

theorem withStore_eq {s : Store} (hs : s.Undamaged) : e.withStore s = { e with store := s } := by
  rw [Store.Undamaged] at hs
  obtain ⟨reports, metrics, values, damage, readOnly, kept⟩ := s
  obtain rfl : damage = Damage.none := hs
  rfl

/-- An operation succeeds as its transaction does, or fails and leaves the store as it was. -/
theorem transactIf_cases {α : Type} (hs : e.store.Undamaged) (condition : Except Failure Unit)
    (t : Transaction α) :
    (∃ a s, (e.transactIf condition t).1 = .ok a ∧ condition = .ok () ∧ Yields t e.store a s ∧
      (e.transactIf condition t).2 = e.withStore s) ∨
    (∃ err s, (e.transactIf condition t).1 = .error err ∧ e.store.SeenAs s ∧
      (e.transactIf condition t).2 = { e with store := s }) := by
  rcases condition with err | ⟨⟨⟩⟩
  · exact .inr ⟨err, e.store, rfl, .refl _, rfl⟩
  · rcases ht : t e.store with ⟨err | a, s⟩
    · refine .inr ⟨err, { e.store with kept := s.kept }, ?_, ⟨s.kept, rfl⟩, ?_⟩
      · simp only [transactIf, transact, ht]
      · simp only [transactIf, transact, ht, after]
        exact withStore_eq hs
    · refine .inl ⟨a, s, ?_, rfl, ht, ?_⟩
      · simp only [transactIf, transact, ht]
      · simp only [transactIf, transact, ht, after]

/-- A collection succeeds stage by stage, or fails and leaves the store as it was. -/
theorem collect_cases (hs : e.store.Undamaged) (request : CollectRequest) (exportName : String)
    (files : Files) :
    (∃ report hourly path p₁ p₂, (e.collect request exportName files).result = .ok report ∧
      Yields (Collecting.hourly e.settings e.softwareVersion request exportName)
        ⟨e.store, files, []⟩ (hourly, path) p₁ ∧
      Yields (Collecting.others e.settings request hourly path) p₁ report p₂ ∧
      (e.collect request exportName files).engine = e.withStore p₂.store) ∨
    (∃ err s, (e.collect request exportName files).result = .error err ∧ e.store.SeenAs s ∧
      (e.collect request exportName files).engine = { e with store := s }) := by
  unfold collect
  rcases hhourly : Collecting.hourly e.settings e.softwareVersion request exportName
    ⟨e.store, files, []⟩ with ⟨err | ⟨report, path⟩, p₁⟩
  · exact .inr ⟨err, _, rfl, ⟨p₁.store.kept, rfl⟩, withStore_eq hs⟩
  · simp only
    rcases hothers : Collecting.others e.settings request report path p₁ with ⟨err | all, p₂⟩
    · exact .inr ⟨err, _, rfl, ⟨p₂.store.kept, rfl⟩, withStore_eq hs⟩
    · exact .inl ⟨all, report, path, p₁, p₂, rfl, hhourly, hothers, rfl⟩

/-- A store is opened again unless the settings are not valid. -/
theorem reopen_cases (hs : e.store.Undamaged) (settings : Settings) (version : Option String) :
    (settings.validate = .ok () ∧ e.reopen settings version =
        (.ok (), ⟨settings, version, { e.store with kept := [] }⟩)) ∨
      ∃ err, settings.validate = .error err ∧ e.reopen settings version = (.error err, e) := by
  unfold reopen openStore
  rw [hs.reopened?_eq]
  rcases settings.validate with err | ⟨⟨⟩⟩
  · exact .inr ⟨err, rfl, rfl⟩
  · exact .inl ⟨rfl, rfl⟩

/-- What is stored is there again. -/
theorem reopen_seenAs (hs : e.store.Undamaged) (settings : Settings) (version : Option String) :
    e.store.SeenAs (e.reopen settings version).2.store := by
  rcases reopen_cases hs settings version with ⟨-, heq⟩ | ⟨err, -, heq⟩
  · rw [heq]
    exact ⟨[], rfl⟩
  · rw [heq]
    exact .refl _

/-! ### Settings and version -/

theorem after_terms {α : Type} (result : Except Failure α) (store : Store) :
    (e.after result store).terms = e.terms := by
  cases result <;> rfl

theorem transactIf_terms {α : Type} (condition : Except Failure Unit) (t : Transaction α) :
    (e.transactIf condition t).2.terms = e.terms := by
  cases condition with
  | error err => rfl
  | ok u => exact after_terms _ _

theorem collect_terms (request : CollectRequest) (exportName : String) (files : Files) :
    (e.collect request exportName files).engine.terms = e.terms := by
  unfold collect
  split
  · exact after_terms _ _
  · dsimp only
    split
    · exact after_terms _ _
    · exact after_terms _ _

/-- Settings and version change only as the store is opened again. -/
theorem call_terms (hs : e.store.Undamaged) (c : Call) :
    (e.call c).2.terms = e.terms.after c := by
  cases c with
  | add | startSession | startSeeded | endSession => exact transactIf_terms _ _
  | collect request exportName files => exact collect_terms request exportName files
  | reopen settings version =>
    change (e.reopen settings version).2.terms = _
    rcases reopen_cases hs settings version with ⟨hvalid, heq⟩ | ⟨err, hvalid, heq⟩
    · rw [heq, Terms.after, hvalid]
      rfl
    · rw [heq, Terms.after, hvalid]
      rfl

/-- New settings are some that a call asks for, and valid. -/
theorem call_settings (hs : e.store.Undamaged) (c : Call) :
    (e.call c).2.settings = e.settings ∨
      c.settings? = some (e.call c).2.settings ∧ (e.call c).2.settings.validate = .ok () := by
  cases c with
  | add | startSession | startSeeded | endSession | collect =>
    exact .inl (congrArg Terms.settings (call_terms hs _))
  | reopen settings version =>
    change (e.reopen settings version).2.settings = _ ∨
      some settings = some (e.reopen settings version).2.settings ∧
        (e.reopen settings version).2.settings.validate = .ok ()
    rcases reopen_cases hs settings version with ⟨hvalid, heq⟩ | ⟨err, -, heq⟩
    · rw [heq]
      exact .inr ⟨rfl, hvalid⟩
    · rw [heq]
      exact .inl rfl

/-! ### Whole runs -/

theorem transactIf_steps {scope : Scope} {α : Type} (hs : e.store.Consistent)
    {condition : Except Failure Unit} {t : Transaction α}
    (ht : ∀ a s, condition = .ok () → Yields t e.store a s → Store.Steps scope e.store s) :
    Store.Steps scope e.store (e.transactIf condition t).2.store := by
  rcases transactIf_cases hs.undamaged condition t with
    ⟨a, s, -, hcondition, hyields, heq⟩ | ⟨err, s, -, hseen, heq⟩
  · have hsteps := ht a s hcondition hyields
    rw [heq, withStore_eq (hsteps.consistent hs).undamaged]
    exact hsteps
  · rw [heq]
    exact hseen.steps _

/-- A call that is no collection leaves alone what has ended, but for sessions. -/
theorem call_unended (hs : e.store.Consistent) {c : Call} (hc : c.isCollect = false) :
    Store.Steps (.unended e.store) e.store (e.call c).2.store := by
  cases c with
  | add sample =>
    exact transactIf_steps hs fun a s hsample h => Transaction.take_steps hs hsample h
  | startSession name t =>
    exact transactIf_steps hs fun a s hname h =>
      Transaction.startSession_steps _ hs (isSessionName_of_validate hname) trivial h
  | startSeeded name t keys =>
    exact transactIf_steps hs fun a s hname h => Transaction.startSeeded_steps _ hs
      (isSessionName_of_validate hname) (fun id hnew r hr hid => absurd hid (hnew r hr)) trivial h
  | endSession name t =>
    refine transactIf_steps hs fun a s hname h =>
      Transaction.endSession_steps _ hs (fun r hr hopen x hx hid => ?_) h
    obtain rfl := hs.report_eq hx hr hid
    exact .inl (ReportRow.isOpenAs_iff.1 hopen).1
  | reopen settings version => exact (reopen_seenAs hs.undamaged settings version).steps _
  | collect request exportName files => cases hc

theorem collect_steps (hs : e.store.Consistent) (request : CollectRequest) (exportName : String)
    (files : Files) :
    Store.Steps .everything e.store (e.collect request exportName files).engine.store := by
  rcases collect_cases hs.undamaged request exportName files with
    ⟨report, hourly, path, p₁, p₂, -, hhourly, hothers, heq⟩ | ⟨err, s, -, hseen, heq⟩
  · have hsteps₁ := Collecting.hourly_steps hs hhourly
    have hsteps := hsteps₁.trans
      (Collecting.others_steps _ (hsteps₁.consistent hs) (fun _ => trivial) hothers)
    rw [heq, withStore_eq (hsteps.consistent hs).undamaged]
    exact hsteps
  · rw [heq]
    exact hseen.steps _

theorem call_steps (hs : e.store.Consistent) (c : Call) :
    Store.Steps .everything e.store (e.call c).2.store := by
  cases c with
  | collect request exportName files => exact collect_steps hs request exportName files
  | add | startSession | startSeeded | endSession | reopen =>
    exact (call_unended hs rfl).mono (fun _ _ => trivial) fun _ _ => trivial

/-- Whatever is called, a consistent store stays consistent. -/
theorem run_consistent (calls : List Call) :
    ∀ {e : Engine}, e.store.Consistent → (e.run calls).store.Consistent := by
  induction calls with
  | nil => exact fun hs => hs
  | cons c calls ih => exact fun hs => ih ((call_steps hs c).consistent hs)

/-- The settings are those that the engine began with or some that its store was opened again
under. -/
theorem run_settings_mem (calls : List Call) :
    ∀ {e : Engine}, e.store.Consistent →
      (e.run calls).settings ∈ e.settings :: calls.filterMap Call.settings? := by
  induction calls with
  | nil => exact fun _ => List.mem_singleton_self _
  | cons c calls ih =>
    intro e hs
    have hrest := ih ((call_steps hs c).consistent hs)
    rw [List.filterMap_cons]
    rcases call_settings hs.undamaged c with hsame | ⟨hc, -⟩
    · rw [hsame] at hrest
      refine (List.mem_cons.1 hrest).elim (fun h => List.mem_cons.2 (.inl h)) fun h => ?_
      cases c.settings? with
      | none => exact List.mem_cons_of_mem _ h
      | some settings => exact List.mem_cons_of_mem _ (List.mem_cons_of_mem _ h)
    · rw [hc]
      exact List.mem_cons_of_mem _ hrest

theorem run_settings_mem_append (before after : List Call) (hs : e.store.Consistent) :
    (e.run before).settings ∈ e.settings :: (before ++ after).filterMap Call.settings? := by
  rw [List.filterMap_append, ← List.cons_append]
  exact List.mem_append_left _ (run_settings_mem before hs)

/-- Unless the store is opened again, the settings stay. -/
theorem run_settings {calls : List Call} (hs : e.store.Consistent)
    (hcalls : ∀ c ∈ calls, c.settings? = none) : (e.run calls).settings = e.settings := by
  have hmem := run_settings_mem calls hs
  rwa [List.filterMap_eq_nil_iff.2 hcalls, List.mem_singleton] at hmem

/-- An engine is used under settings that are valid. -/
theorem run_validated (calls : List Call) :
    ∀ {e : Engine}, e.store.Consistent → e.settings.validate = .ok () →
      (e.run calls).settings.validate = .ok () := by
  induction calls with
  | nil => exact fun _ hvalid => hvalid
  | cons c calls ih =>
    intro e hs hvalid
    refine ih ((call_steps hs c).consistent hs) ?_
    rcases call_settings hs.undamaged c with hsame | ⟨-, hvalid'⟩
    · rwa [hsame]
    · exact hvalid'

theorem of_openEmpty {settings : Settings} {version : Option String}
    (h : openEmpty settings version = .ok e) : e = ⟨settings, version, .empty⟩ := by
  obtain ⟨u, -, h⟩ := bind_eq_ok.1 h
  cases h
  rfl

end Engine

/-- An engine that was taken into use with an empty store and called since; the store may have been
opened again, under other settings and by another version. -/
def Engine.Reachable (e : Engine) : Prop :=
  ∃ settings version e₀ calls, Engine.openEmpty settings version = .ok e₀ ∧ e₀.run calls = e

theorem Engine.Reachable.consistent {e : Engine} (h : e.Reachable) : e.store.Consistent := by
  obtain ⟨settings, version, e₀, calls, hopen, rfl⟩ := h
  obtain rfl := Engine.of_openEmpty hopen
  exact Engine.run_consistent calls Store.empty_consistent

theorem Engine.Reachable.validated {e : Engine} (h : e.Reachable) :
    e.settings.validate = .ok () := by
  obtain ⟨settings, version, e₀, calls, hopen, rfl⟩ := h
  obtain ⟨u, hvalid, -⟩ := bind_eq_ok.1 hopen
  obtain rfl := Engine.of_openEmpty hopen
  exact Engine.run_validated calls Store.empty_consistent hvalid

/-! ### What the tables hold -/

/-- What can be relied on of the three tables. -/
structure Store.Sound (s : Store) : Prop where
  undamaged : s.damage = Damage.none
  oneHourly : (s.reports.rows.filter fun r => r.kind = .hourly ∧ r.endMs = none).length ≤ 1
  oneDaily : (s.reports.rows.filter fun r => r.kind = .daily ∧ r.endMs = none).length ≤ 1
  oneSession : ∀ name, (s.reports.rows.filter fun r =>
    r.kind = .session ∧ r.name = some name ∧ r.endMs = none).length ≤ 1
  unnamed : ∀ r ∈ s.reports.rows, r.kind ≠ .session → r.name = none
  named : ∀ r ∈ s.reports.rows, r.kind = .session → ∃ name, r.name = some name ∧ IsSessionName name
  dailyOpen : ∀ r ∈ s.reports.rows, r.kind = .daily → r.endMs = none
  metricOwned : ∀ m ∈ s.metrics.rows, ∃ r ∈ s.reports.rows, r.id = m.reportId
  metricNamed : ∀ m ∈ s.metrics.rows, m.spec.eventName ≠ ""
  metricUnique : s.metrics.rows.Pairwise fun a b =>
    ¬(a.reportId = b.reportId ∧ a.spec.eventName = b.spec.eventName)
  valueOwned : ∀ v ∈ s.values.rows, ∃ m ∈ s.metrics.rows, m.id = v.metricId
  /-- Of the cells for a text, a number and a truth value one is filled. -/
  oneCell : ∀ v ∈ s.values.rows,
    [v.cells.text, v.cells.number, v.cells.bool].countP (fun c => !c.isNull) = 1
  noNaN : ∀ v ∈ s.values.rows, ∀ x, v.value = .number x → x.isNaN = false

namespace Store.Consistent

variable {s : Store}

theorem unnamed (hs : s.Consistent) {r : ReportRow} (hr : r ∈ s.reports.rows)
    (hkind : r.kind ≠ .session) : r.name = none := by
  have hnamed := hs.named r hr
  cases hk : r.kind with
  | hourly => rwa [hk] at hnamed
  | daily => rwa [hk] at hnamed
  | session => exact absurd hk hkind

theorem oneOpenUnnamed (hs : s.Consistent) {kind : ReportKind} (hkind : kind ≠ .session) :
    (s.reports.rows.filter fun r => r.kind = kind ∧ r.endMs = none).length ≤ 1 := by
  rw [← List.countP_eq_length_filter]
  refine le_trans (List.countP_mono_left fun r hr hopen => ?_) (hs.oneOpen kind none)
  obtain ⟨rfl, hend⟩ := of_decide_eq_true hopen
  exact ReportRow.isOpenAs_iff.2 ⟨rfl, hs.unnamed hr hkind, hend⟩

theorem metricUnique (hs : s.Consistent) : s.metrics.rows.Pairwise fun a b =>
    ¬(a.reportId = b.reportId ∧ a.spec.eventName = b.spec.eventName) := by
  refine hs.metricsNumbered.increasing.imp_of_mem fun {a b} ha hb hlt hsame => ?_
  have hnamed : a.isNamed a.reportId a.spec.eventName = true := by simp [MetricRow.isNamed]
  have hnamed' : b.isNamed a.reportId a.spec.eventName = true := by simp [MetricRow.isNamed, hsame]
  rw [hs.named_eq ha hb hnamed hnamed'] at hlt
  exact lt_irrefl _ hlt

theorem sound (hs : s.Consistent) : s.Sound where
  undamaged := hs.undamaged
  oneHourly := hs.oneOpenUnnamed (by simp)
  oneDaily := hs.oneOpenUnnamed (by simp)
  oneSession := by
    intro name
    rw [← List.countP_eq_length_filter]
    refine le_trans (List.countP_mono_left fun r _ hopen => ?_) (hs.oneOpen .session (some name))
    exact ReportRow.isOpenAs_iff.2 (of_decide_eq_true hopen)
  unnamed := fun r hr hkind => hs.unnamed hr hkind
  named := by
    intro r hr hkind
    have hnamed := hs.named r hr
    rw [hkind] at hnamed
    cases hname : r.name with
    | none =>
      rw [hname] at hnamed
      exact hnamed.elim
    | some name =>
      rw [hname] at hnamed
      exact ⟨name, rfl, hnamed⟩
  dailyOpen := hs.dailyOpen
  metricOwned := hs.metricOwned
  metricNamed := hs.metricNamed
  metricUnique := hs.metricUnique
  valueOwned := hs.valueOwned
  oneCell := by
    intro v _
    cases hvalue : v.value <;> simp [ValueRow.cells, hvalue, Cell.isNull, Cell.ofBool]
  noNaN := by
    intro v hv x hx
    have hkept := (hs.valueKept v hv).isNaN
    rwa [hx] at hkept

end Store.Consistent

/-- Whatever an engine is called to do, beginning with an empty store, its tables are sound. -/
theorem Engine.run_sound {settings : Settings} {version : Option String} {e : Engine}
    (h : Engine.openEmpty settings version = .ok e) (calls : List Call) :
    (e.run calls).store.Sound := by
  obtain rfl := Engine.of_openEmpty h
  exact (Engine.run_consistent calls Store.empty_consistent).sound

/-- A sample, a seeded session, a collection that ends it and the store opened again. -/
theorem Engine.run_sound_session :
    Engine.openEmpty default none = .ok ⟨default, none, .empty⟩ ∧
      ((⟨default, none, .empty⟩ : Engine).run
        [.add (.of "power" 5 (.number 1.0)), .startSeeded "a" 7 ["power"],
          .collect (CollectRequest.atTime 9).endingSessions "x" default,
          .reopen default (some "2")]).store.Sound :=
  have hopen : Engine.openEmpty default none = .ok ⟨default, none, .empty⟩ := rfl
  ⟨hopen, Engine.run_sound hopen _⟩

end Telemetry
