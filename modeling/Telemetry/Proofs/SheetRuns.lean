import Telemetry.Proofs.Accounting
import Telemetry.Proofs.Rollback
import Telemetry.Proofs.Runs
import Telemetry.Proofs.SheetStages

/-!
# Runs on sheets

What an engine is called to do comes to the same on the sheets of its store, unless the store fails
in a call, and this it does only once the work of the call has used up the ids of a table.  So what
the collections of a run hand out, and the files that they leave, are a function of the sheets that
the run begins with.  Of every engine that was taken into use with an empty store there are sheets.
-/

namespace Telemetry

/-! ### On sheets -/

namespace Sheet

/-- What a call makes of the sheets. -/
def callIn (settings : Settings) (version : Option String) (xs : List Sheet) : Call → List Sheet
  | .add sample => if sample.validate.isOk then takeIn version sample xs else xs
  | .startSession name t =>
    if (validateSessionName name).isOk then startIn .session (some name) t version xs else xs
  | .startSeeded name t keys =>
    if (validateSessionName name).isOk then startSeededIn version name t keys xs else xs
  | .endSession name t =>
    if (validateSessionName name).isOk then endWhere (·.isOpenAs .session (some name)) t xs else xs
  | .collect request exportName files =>
    let (result, ys, _) := collectIn settings version request exportName xs files
    if result.isOk then ys else xs
  | .reopen .. => xs

/-- The result of a collection, and the files after it. -/
def collectedIn (settings : Settings) (version : Option String) (xs : List Sheet) :
    Call → List (Except Failure CustomReport × Files)
  | .collect request exportName files =>
    let (result, _, files) := collectIn settings version request exportName xs files
    [(result, files)]
  | _ => []

/-- What a run makes of the sheets. -/
def runIn : Terms → List Sheet → List Call → List Sheet
  | _, xs, [] => xs
  | terms, xs, c :: calls =>
    runIn (terms.after c) (callIn terms.settings terms.softwareVersion xs c) calls

/-- What the collections of a run hand out. -/
def gatherIn : Terms → List Sheet → List Call → List (Except Failure CustomReport × Files)
  | _, _, [] => []
  | terms, xs, c :: calls =>
    collectedIn terms.settings terms.softwareVersion xs c ++
      gatherIn (terms.after c) (callIn terms.settings terms.softwareVersion xs c) calls

end Sheet

/-! ### Failures -/

/-- It is the store in which an operation has failed. -/
def FailedInStore {α : Type} (result : Except Failure α) : Prop :=
  ∃ e, result = .error e ∧ e.InStore

@[simp] theorem not_failedInStore_ok {α : Type} (a : α) :
    ¬FailedInStore (.ok a : Except Failure α) := by
  rintro ⟨e, ⟨⟩, -⟩

theorem failedInStore_error {α : Type} {e : Failure} :
    FailedInStore (.error e : Except Failure α) ↔ e.InStore := by
  simp [FailedInStore]

@[simp] theorem not_failedInStore_validation {α : Type} (field message : String) :
    ¬FailedInStore (.error (.validation field message) : Except Failure α) := by
  rw [failedInStore_error]
  rintro ⟨cause, ⟨⟩⟩

@[simp] theorem failedInStore_map {α β : Type} (f : α → β) (result : Except Failure α) :
    FailedInStore (result.map f) ↔ FailedInStore result := by
  cases result with
  | error e => exact failedInStore_error.trans failedInStore_error.symm
  | ok a => exact iff_of_false (not_failedInStore_ok (f a)) (not_failedInStore_ok a)

/-- The store failed in the call. -/
def Reply.FailsInStore : Reply → Prop
  | .added (.error e) | .done (.error e) | .collected (.error e) => e.InStore
  | _ => False

instance : DecidablePred Reply.FailsInStore
  | .added (.error e) | .done (.error e) | .collected (.error e) =>
    inferInstanceAs (Decidable e.InStore)
  | .added (.ok _) | .done (.ok _) | .collected (.ok _) => isFalse id

theorem Reply.failsInStore_added {result : Except Failure (Option Int)} :
    (Reply.added result).FailsInStore ↔ FailedInStore result := by
  cases result <;> simp [FailsInStore, FailedInStore]

theorem Reply.failsInStore_done {result : Except Failure Unit} :
    (Reply.done result).FailsInStore ↔ FailedInStore result := by
  cases result <;> simp [FailsInStore, FailedInStore]

theorem Reply.failsInStore_collected {result : Except Failure CustomReport} :
    (Reply.collected result).FailsInStore ↔ FailedInStore result := by
  cases result <;> simp [FailsInStore, FailedInStore]

/-! What is refused has not failed in the store. -/

theorem validateSessionName_refuses (name : String) :
    ¬FailedInStore (validateSessionName name) := by
  unfold validateSessionName
  split
  · simp
  · next fault _ => cases fault <;> exact not_failedInStore_validation _ _

theorem MetricSample.validate_refuses (sample : MetricSample) :
    ¬FailedInStore sample.validate := by
  unfold validate
  split
  · simp
  split
  · simp
  split
  · exact validateSessionName_refuses _
  all_goals simp

theorem Settings.validate_refuses (settings : Settings) : ¬FailedInStore settings.validate := by
  unfold validate
  split_ifs <;> simp

namespace ExportFile

theorem plainly_error {α : Type} {r : Except FileFault α} {e : Failure}
    (h : plainly r = .error e) : ¬e.InStore := by
  rintro ⟨message, rfl⟩
  cases r <;> cases h

theorem createIn_error {folder : Path} {name : String} {files fs : Files} {e : Failure}
    (h : createIn folder name files = (.error e, fs)) : ¬e.InStore := by
  unfold createIn at h
  split at h
  · cases h
    rintro ⟨message, ⟨⟩⟩
  · dsimp only at h
    split at h
    · cases h
    · next hbegun =>
      cases h
      exact plainly_error hbegun

theorem complete_error {file : ExportFile} {text : String} {files : Files} {e : Failure}
    (h : file.complete text files = .error e) : ¬e.InStore := by
  unfold complete at h
  cases hwritten : plainly (files.write file.draft (.text text)) with
  | error e' =>
    rw [hwritten] at h
    cases h
    exact plainly_error hwritten
  | ok fs =>
    rw [hwritten] at h
    exact plainly_error h

/-- What refuses an export is not the store. -/
theorem saveIn_error {folder : Path} {name text : String} {files : Files} {e : Failure}
    (h : (saveIn folder name text files).1 = .error e) : ¬e.InStore := by
  unfold saveIn at h
  split at h
  · next hcreate =>
    cases h
    exact createIn_error hcreate
  · split at h
    · cases h
    · next hcomplete =>
      cases h
      exact complete_error hcomplete

end ExportFile

namespace Sheet

theorem exportIn_refuses (settings : Settings) (request : CollectRequest) (exportName : String)
    (x : Sheet) (files : Files) :
    ¬FailedInStore (x.exportIn settings request exportName files).1 := by
  unfold exportIn
  split
  · simp
  · dsimp only
    rw [failedInStore_map]
    rintro ⟨e, hsaved, hstore⟩
    exact ExportFile.saveIn_error hsaved hstore

/-- On sheets it is the export that is refused where the hourly stage fails. -/
theorem hourlyIn_refuses (settings : Settings) (version : Option String)
    (request : CollectRequest) (exportName : String) (xs : List Sheet) (files : Files) :
    ¬FailedInStore (hourlyIn settings version request exportName xs files).1 := by
  unfold hourlyIn
  split
  · simp
  · dsimp only
    rw [failedInStore_map]
    exact exportIn_refuses settings request exportName _ files

end Sheet

namespace Engine

/-- The result of a collection, and the files after it. -/
def collected (e : Engine) : Call → List (Except Failure CustomReport × Files)
  | .collect request exportName files =>
    [((e.collect request exportName files).result, (e.collect request exportName files).files)]
  | _ => []

/-- The store that the work of a call comes to, before any of it is taken back. -/
def worked (e : Engine) : Call → Store
  | .add sample => (outcome (Transaction.take e.softwareVersion sample) e.store).2
  | .startSession name t => (outcome (Transaction.startSession e.softwareVersion name t) e.store).2
  | .startSeeded name t keys =>
    (outcome (Transaction.startSeeded e.softwareVersion name t keys) e.store).2
  | .endSession name t => (outcome (Transaction.endSession name t) e.store).2
  | .collect request exportName files =>
    let work := do
      let (report, path) ← Collecting.hourly e.settings e.softwareVersion request exportName
      Collecting.others e.settings request report path
    (outcome work ⟨e.store, files, []⟩).2.store
  | .reopen .. => e.store

variable {e : Engine} {xs : List Sheet}

/-! ### One call -/

/-- An operation comes to what its transaction comes to, unless it is refused or out of ids. -/
theorem transactIf_shows {α : Type} (h : e.store.Shows xs) {condition : Except Failure Unit}
    (hcondition : ¬FailedInStore condition) {t : Transaction α} {ys : List Sheet}
    (ht : condition = .ok () → Settles t e.store fun _ s => s.Shows ys) :
    (¬FailedInStore (e.transactIf condition t).1 ∧
      (e.transactIf condition t).2.store.Shows (if condition.isOk then ys else xs)) ∨
      FailedInStore (e.transactIf condition t).1 ∧ (outcome t e.store).2.IsFull ∧
        (e.transactIf condition t).2.store.Shows xs := by
  rcases condition with err | ⟨⟨⟩⟩
  · refine .inl ⟨?_, h⟩
    rintro ⟨err', ⟨⟩, herr⟩
    exact hcondition ⟨err, rfl, herr⟩
  have hundamaged := h.consistent.undamaged
  rcases (ht rfl).cases with ⟨a, s, hyields, hs⟩ | ⟨err, s, hfails, herr, hfull⟩
  · have hrun : t e.store = (.ok a, s) := hyields
    refine .inl ⟨?_, ?_⟩
    · simp only [transactIf, transact, hrun]
      rintro ⟨err, ⟨⟩, -⟩
    · simp only [transactIf, transact, hrun, after]
      rw [withStore_eq hs.consistent.undamaged]
      exact hs
  · have hrun : t e.store = (.error err, s) := hfails
    refine .inr ⟨⟨err, ?_, herr⟩, ?_, ?_⟩
    · simp only [transactIf, transact, hrun]
    · rw [show outcome t e.store = (.error err, s) from hfails]
      exact hfull
    · simp only [transactIf, transact, hrun, after]
      rw [withStore_eq (by exact hundamaged)]
      exact h.seenAs ⟨s.kept, rfl⟩

theorem collect_of_error {request : CollectRequest} {exportName : String} {files : Files}
    {err : Failure} {p : Progress}
    (h : Collecting.hourly e.settings e.softwareVersion request exportName ⟨e.store, files, []⟩ =
      (.error err, p)) :
    e.collect request exportName files =
      ⟨.error err, e.withStore { e.store with kept := p.store.kept }, p.files, p.consulted⟩ := by
  unfold collect
  rw [h]
  rfl

theorem collect_of_ok {request : CollectRequest} {exportName : String} {files : Files}
    {hourly : MetricReport} {path : Option Path} {p p' : Progress} {report : CustomReport}
    (h : Collecting.hourly e.settings e.softwareVersion request exportName ⟨e.store, files, []⟩ =
      (.ok (hourly, path), p))
    (hothers : Yields (Collecting.others e.settings request hourly path) p report p') :
    e.collect request exportName files =
      ⟨.ok report, e.withStore p'.store, p'.files, p'.consulted⟩ := by
  have hothers : Collecting.others e.settings request hourly path p = (.ok report, p') := hothers
  unfold collect
  rw [h]
  dsimp only
  rw [hothers]
  rfl

theorem collect_of_fails {request : CollectRequest} {exportName : String} {files : Files}
    {hourly : MetricReport} {path : Option Path} {p p' : Progress} {err : Failure}
    (h : Collecting.hourly e.settings e.softwareVersion request exportName ⟨e.store, files, []⟩ =
      (.ok (hourly, path), p))
    (hothers : Fails (Collecting.others e.settings request hourly path) p err p') :
    e.collect request exportName files =
      ⟨.error err, e.withStore { e.store with kept := p'.store.kept },
        path.elim p'.files p'.files.discard, p'.consulted⟩ := by
  have hothers : Collecting.others e.settings request hourly path p = (.error err, p') := hothers
  unfold collect
  rw [h]
  dsimp only
  rw [hothers]
  rfl

/-- A collection comes to what it comes to on sheets, unless it runs out of ids. -/
theorem collect_shows (h : e.store.Shows xs) (request : CollectRequest) (exportName : String)
    (files : Files) :
    (¬FailedInStore (e.collect request exportName files).result ∧
      (e.collect request exportName files).engine.store.Shows (Sheet.callIn e.settings
        e.softwareVersion xs (.collect request exportName files)) ∧
      e.collected (.collect request exportName files) = Sheet.collectedIn e.settings
        e.softwareVersion xs (.collect request exportName files)) ∨
      FailedInStore (e.collect request exportName files).result ∧
        (e.worked (.collect request exportName files)).IsFull ∧
        (e.collect request exportName files).engine.store.Shows xs := by
  have hundamaged := h.consistent.undamaged
  have hkeep : ∀ s : Store, (e.withStore { e.store with kept := s.kept }).store.Shows xs := by
    intro s
    rw [withStore_eq (by exact hundamaged)]
    exact h.seenAs ⟨s.kept, rfl⟩
  have hhourly := Collecting.hourly_ends e.settings e.softwareVersion request exportName
    (p := ⟨e.store, files, []⟩) h
  rcases hrun : Collecting.hourly e.settings e.softwareVersion request exportName
    ⟨e.store, files, []⟩ with ⟨result, p₁⟩
  have houtcome : outcome (Collecting.hourly e.settings e.softwareVersion request exportName)
    ⟨e.store, files, []⟩ = (result, p₁) := hrun
  rcases hhourly with ⟨err, p, hfails, herr, hfull⟩ | ⟨hresult, hfiles, hshows⟩
  · obtain ⟨rfl, rfl⟩ := Prod.mk.inj (houtcome.symm.trans hfails)
    rw [collect_of_error hrun]
    refine .inr ⟨⟨err, rfl, herr⟩, ?_, hkeep p₁.store⟩
    rw [worked, outcome_bind, houtcome]
    exact hfull
  have hrefuses := Sheet.hourlyIn_refuses e.settings e.softwareVersion request exportName xs files
  rcases hpure : Sheet.hourlyIn e.settings e.softwareVersion request exportName xs files with
    ⟨result', ys, files'⟩
  rw [houtcome, hpure] at hresult hfiles hshows
  rw [hpure] at hrefuses
  obtain rfl : result = result' := hresult
  obtain rfl : p₁.files = files' := hfiles
  rcases result with err | ⟨hourly, path⟩
  · have hsheets : Sheet.collectIn e.settings e.softwareVersion request exportName xs files =
        (.error err, xs, p₁.files) := by
      rw [Sheet.collectIn, hpure]
    rw [collected, collect_of_error hrun, Sheet.callIn, Sheet.collectedIn, hsheets]
    rw [failedInStore_error] at hrefuses
    exact .inl ⟨failedInStore_error.not.2 hrefuses, hkeep p₁.store, rfl⟩
  have hsheets : Sheet.collectIn e.settings e.softwareVersion request exportName xs files =
      (.ok (Sheet.othersIn e.settings request hourly path ys).1,
        (Sheet.othersIn e.settings request hourly path ys).2, p₁.files) := by
    rw [Sheet.collectIn, hpure]
  -- the stages after the hourly one take no ids, and do not fail
  obtain ⟨report, p₂, hyields, hreport, h₂⟩ :=
    Collecting.others_attains e.settings request hourly (hshows (hourly, path) rfl) path
  have hkept := (Collecting.keepsFiles_others e.settings request hourly path).of_yields hyields
  rw [collected, collect_of_ok hrun hyields, Sheet.callIn, Sheet.collectedIn, hsheets, ← hreport,
    ← hkept]
  refine .inl ⟨?_, ?_, rfl⟩
  · rintro ⟨err, ⟨⟩, -⟩
  · change (e.withStore p₂.store).store.Shows _
    rw [withStore_eq h₂.consistent.undamaged]
    exact h₂

/-- A call comes to what it comes to on sheets, unless it runs out of ids. -/
theorem call_shows (h : e.store.Shows xs) (c : Call) :
    (¬(e.call c).1.FailsInStore ∧
      (e.call c).2.store.Shows (Sheet.callIn e.settings e.softwareVersion xs c) ∧
      e.collected c = Sheet.collectedIn e.settings e.softwareVersion xs c) ∨
      (e.call c).1.FailsInStore ∧ (e.worked c).IsFull ∧ (e.call c).2.store.Shows xs := by
  cases c with
  | add sample =>
    have htake := transactIf_shows h sample.validate_refuses
      (@Transaction.take_settles _ _ h e.softwareVersion sample)
    rw [← Reply.failsInStore_added] at htake
    exact htake.imp_left fun h => ⟨h.1, h.2, rfl⟩
  | startSession name t =>
    have hstart := transactIf_shows h (validateSessionName_refuses name) fun hname =>
      @Transaction.startSession_settles _ _ h e.softwareVersion name t
        (isSessionName_of_validate hname)
    rw [← Reply.failsInStore_done] at hstart
    exact hstart.imp_left fun h => ⟨h.1, h.2, rfl⟩
  | startSeeded name t keys =>
    have hstart := transactIf_shows h (validateSessionName_refuses name) fun hname =>
      @Transaction.startSeeded_settles _ _ h e.softwareVersion name t keys
        (isSessionName_of_validate hname)
    rw [← Reply.failsInStore_done] at hstart
    exact hstart.imp_left fun h => ⟨h.1, h.2, rfl⟩
  | endSession name t =>
    have hend := transactIf_shows h (validateSessionName_refuses name) fun _ =>
      Transaction.endSession_settles h name t
    rw [← Reply.failsInStore_done] at hend
    exact hend.imp_left fun h => ⟨h.1, h.2, rfl⟩
  | reopen settings version =>
    refine .inl ⟨?_, h.seenAs (reopen_seenAs h.consistent.undamaged settings version), rfl⟩
    rw [call, Reply.failsInStore_done]
    rcases reopen_cases h.consistent.undamaged settings version with
      ⟨-, heq⟩ | ⟨err, hinvalid, heq⟩
    · rw [heq]
      exact not_failedInStore_ok ()
    · rw [heq]
      exact hinvalid ▸ settings.validate_refuses
  | collect request exportName files =>
    have hcollect := collect_shows h request exportName files
    rw [← Reply.failsInStore_collected] at hcollect
    exact hcollect

/-- An undamaged store fails in a call only where a table has used up its ids. -/
theorem call_isFull (h : e.store.Shows xs) {c : Call} (hfails : (e.call c).1.FailsInStore) :
    (e.worked c).IsFull := by
  rcases call_shows h c with ⟨hplain, -⟩ | ⟨-, hfull, -⟩
  · exact absurd hfails hplain
  · exact hfull

example :
    let noReports : Store := { Store.empty with reports := ⟨[], Int64.maxValue.toInt⟩ }
    ((⟨default, none, noReports⟩ : Engine).call (.add (.of "power" 5 (.bool true)))).1.FailsInStore :=
  by decide +kernel

/-! ### Whole runs -/

/-- A run in which the store does not fail comes to what it comes to on sheets. -/
theorem run_shows (calls : List Call) :
    ∀ {e : Engine} {xs : List Sheet}, e.store.Shows xs →
      (∀ x ∈ e.trace calls, ¬x.2.FailsInStore) →
      (e.run calls).store.Shows (Sheet.runIn e.terms xs calls) ∧
        gather collected e calls = Sheet.gatherIn e.terms xs calls := by
  induction calls with
  | nil => exact fun h _ => ⟨h, rfl⟩
  | cons c calls ih =>
    intro e xs h hstore
    rw [trace, List.forall_mem_cons] at hstore
    rcases call_shows h c with ⟨-, hshows, hcollected⟩ | ⟨hfails, -⟩
    · have hrest := ih hshows hstore.2
      rw [call_terms h.consistent.undamaged] at hrest
      rw [gather, hcollected, hrest.2]
      exact ⟨hrest.1, rfl⟩
    · exact absurd hfails hstore.1

theorem exists_run_shows (calls : List Call) :
    ∀ {e : Engine} {xs : List Sheet}, e.store.Shows xs → ∃ ys, (e.run calls).store.Shows ys := by
  induction calls with
  | nil => exact fun h => ⟨_, h⟩
  | cons c calls ih =>
    intro e xs h
    rcases call_shows h c with ⟨-, hshows, -⟩ | ⟨-, -, hshows⟩
    · exact ih hshows
    · exact ih hshows

/-- Where the store fails in a run, it is in a call whose work has used up the ids of a table. -/
theorem trace_isFull (calls : List Call) :
    ∀ {e : Engine} {xs : List Sheet}, e.store.Shows xs → ∀ x ∈ e.trace calls, x.2.FailsInStore →
      ∃ before after, calls = before ++ x.1 :: after ∧ ((e.run before).worked x.1).IsFull := by
  induction calls with
  | nil =>
    intro e xs _ x hx
    cases hx
  | cons c calls ih =>
    intro e xs h x hx hfails
    rcases List.mem_cons.1 hx with rfl | hx
    · exact ⟨[], calls, rfl, call_isFull h hfails⟩
    · obtain ⟨ys, hshows⟩ := exists_run_shows [c] h
      obtain ⟨before, after, hcalls, hfull⟩ := ih hshows x hx hfails
      exact ⟨c :: before, after, congrArg (c :: ·) hcalls, hfull⟩

namespace Reachable

/-- There are sheets of every store that an engine comes to. -/
theorem shows (h : e.Reachable) : ∃ xs, e.store.Shows xs := by
  obtain ⟨settings, version, e₀, calls, hopen, rfl⟩ := h
  obtain rfl := of_openEmpty hopen
  exact exists_run_shows calls Store.empty_shows

/-- While no table runs out of ids, the store fails in no call. -/
theorem trace_plain (h : e.Reachable) {calls : List Call}
    (hroom : ∀ before c after, calls = before ++ c :: after → ¬((e.run before).worked c).IsFull) :
    ∀ x ∈ e.trace calls, ¬x.2.FailsInStore := by
  intro x hx hfails
  obtain ⟨xs, hshows⟩ := h.shows
  obtain ⟨before, after, hcalls, hfull⟩ := trace_isFull calls hshows x hx hfails
  exact hroom before x.1 after hcalls hfull

end Reachable

end Engine

end Telemetry
