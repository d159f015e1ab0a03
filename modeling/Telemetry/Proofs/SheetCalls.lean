import Telemetry.Proofs.Carrying
import Telemetry.Proofs.Sheets

/-!
# Taking in on sheets

What an operation that takes something in does to a store is a function of its sheets, unless the
store fails.  A sample is recorded in the open report that it is addressed to and, if that is the
hourly accumulator, in every session that covers its time.
-/

namespace Telemetry

namespace Sheet

/-- The open hourly accumulator. -/
def hourly? (xs : List Sheet) : Option Sheet := xs.find? (·.header.isOpenAs .hourly none)

/-- The latest value of a metric of the hourly accumulator up to a time, with what is known of it. -/
def latestOf? (xs : List Sheet) (name : String) (t : Int) : Option (MetricSpec × TimedValue) :=
  ((hourly? xs).bind (·.track? name)).bind fun track =>
    (TimedValue.newestAt track.values t).map fun v => (track.spec, v)

def takeIn (version : Option String) (sample : MetricSample) (xs : List Sheet) : List Sheet :=
  let taken := recordWhere (·.isOpenAs sample.reportKind sample.sessionName) sample.spec
    sample.timeMs sample.value
    (startIn sample.reportKind sample.sessionName sample.timeMs version xs)
  if sample.reportKind = .hourly then
    recordWhere (·.isSessionAt sample.timeMs) sample.spec sample.timeMs sample.value taken
  else taken

/-- Records the latest value of one hourly metric in a session. -/
def seedOne (session : String) (t : Int) (xs : List Sheet) (name : String) : List Sheet :=
  match latestOf? xs name t with
  | none => xs
  | some (spec, v) => recordWhere (·.isOpenAs .session (some session)) spec t v.value xs

def startSeededIn (version : Option String) (session : String) (t : Int) (names : List String)
    (xs : List Sheet) : List Sheet :=
  if xs.any (·.header.isOpenAs .session (some session)) then xs
  else names.foldl (seedOne session t) (startIn .session (some session) t version xs)

end Sheet

theorem TimedValue.newestAt_byTime (vs : List TimedValue) (t : Int) :
    newestAt (byTime vs) t = newestAt vs t := newest?_filter_byTime _ vs

/-! ### Finding in sheets -/

namespace Store

variable {s : Store} {xs : List Sheet}

theorem track?_sheetOf (s : Store) (r : ReportRow) (name : String) :
    (s.sheetOf r).track? name = (s.metric? r.id name).map s.trackOf := by
  rw [metric?_eq_head?, Sheet.track?, sheetOf, tracksOf, List.find?_map, List.head?_filter]
  rfl

theorem Shows.hourly?_eq (h : s.Shows xs) : Sheet.hourly? xs = s.hourly?.map s.sheetOf := by
  rw [Sheet.hourly?, ← h.sheets]
  exact find?_sheets s fun _ => rfl

theorem Shows.any_eq (h : s.Shows xs) {p : ReportRow → Bool} (hp : ∀ r, p r.unnumbered = p r) :
    xs.any (fun x => p x.header) = s.reports.rows.any p := by
  rw [← h.sheets, Store.sheets, List.any_map]
  exact congrArg s.reports.rows.any (funext hp)

theorem Shows.latestOf?_eq (h : s.Shows xs) (name : String) (t : Int) :
    Sheet.latestOf? xs name t = (s.hourlyMetric? name).bind fun m =>
      (TimedValue.newestAt (s.timedOf m.id) t).map fun v => (m.spec, v) := by
  rw [Sheet.latestOf?, h.hourly?_eq, hourlyMetric?]
  cases s.hourly? with
  | none => rfl
  | some r =>
    rw [Option.map_some, Option.bind_some, Option.bind_some, track?_sheetOf]
    cases s.metric? r.id name with
    | none => rfl
    | some m =>
      rw [Option.map_some, Option.bind_some, Option.bind_some, trackOf, TimedValue.newestAt_byTime]

end Store

namespace Transaction

variable {s : Store} {xs : List Sheet}

/-! ### Reports -/

theorem openOrStart_settles (h : s.Shows xs) {kind : ReportKind} {name : Option String}
    (hname : kind.Admits name) (t : Int) (version : Option String) :
    Settles (openOrStart kind name t version) s fun id s' =>
      s'.Shows (Sheet.startIn kind name t version xs) ∧
        (∃ r ∈ s'.reports.rows, r.id = id ∧ r.isOpenAs kind name = true) ∧
        ∀ r ∈ s.reports.rows, r ∈ s'.reports.rows ∧ Store.SameReport r.id s s' := by
  refine settles_update
    (Store.failsFull_openOrStart h.consistent.undamaged h.writable _ _ _ _) fun id s' hopen => ?_
  have hany := h.any_eq (p := (·.isOpenAs kind name)) fun _ => rfl
  rcases Store.openOrStart_eq_ok h.consistent.undamaged hopen with
    ⟨r, hr, rfl, rfl⟩ | ⟨hnone, rfl, rfl⟩
  · have hsome : s'.reports.rows.any (·.isOpenAs kind name) = true :=
      List.any_eq_true.2 ⟨r, List.mem_of_find?_eq_some hr, by simpa using List.find?_some hr⟩
    rw [Sheet.startIn, hany, hsome, if_pos rfl]
    exact ⟨h, ⟨r, List.mem_of_find?_eq_some hr, rfl, by simpa using List.find?_some hr⟩,
      fun x hx => ⟨hx, .refl x.id s'⟩⟩
  · have hfree : ∀ r ∈ s.reports.rows, r.isOpenAs kind name = false := by
      simpa using List.find?_eq_none.1 hnone
    have hnone : s.reports.rows.any (·.isOpenAs kind name) = false :=
      List.any_eq_false.2 fun r hr => by simp [hfree r hr]
    rw [Sheet.startIn, hany, hnone, if_neg Bool.false_ne_true]
    refine ⟨h.start hname hfree t version, ⟨_, List.mem_append_right _ (List.mem_singleton_self _),
      rfl, by simp [ReportRow.isOpenAs]⟩, fun x hx => ⟨List.mem_append_left _ hx, ?_⟩⟩
    have hne : x.id ≠ s.reports.nextId := ne_of_lt (h.consistent.reportsNumbered.lt_nextId hx)
    exact ⟨Table.filter_append (beq_false_of_ne hne.symm), rfl, fun _ _ => rfl⟩

/-! ### Recording -/

/-- Recording in the one report of some kind. -/
theorem record_shows (h : s.Shows xs) {r : ReportRow} (hr : r ∈ s.reports.rows)
    {p : ReportRow → Bool} (hself : ∀ x ∈ s.reports.rows, p x = true ↔ x.id = r.id)
    (hp : ∀ x, p x.unnumbered = p x) (htakes : s.TakesIn r.id) {spec : MetricSpec}
    (hname : spec.eventName ≠ "") (version : Nat) (t : Int) (value : SampleValue) :
    Settles (record r.id spec version t value) s fun _ s' =>
      s'.Shows (Sheet.recordWhere p spec t value xs) ∧ RecordsIn r.id spec t value s s' := by
  refine (record_settles h.consistent h.writable h.sequential ⟨r, hr, rfl⟩ hname htakes).imp
    fun _ s' hs' => ?_
  refine ⟨⟨hs'.consistent, hs'.writable, hs'.sequential, ?_⟩, hs'⟩
  rw [Sheet.recordWhere, ← h.sheets, Store.sheets, Store.sheets, hs'.reports, List.map_map]
  refine List.map_congr_left fun x hx => ?_
  have hheader : p (s.sheetOf x).header = p x := hp x
  rw [Function.comp_apply, hheader, hs'.sheetOf_eq hx]
  exact if_congr (hself x hx).symm rfl rfl

/-- Recording in the open report of a kind and a name. -/
theorem record_open (h : s.Shows xs) {r : ReportRow} (hr : r ∈ s.reports.rows)
    {kind : ReportKind} {name : Option String} (hopen : r.isOpenAs kind name = true)
    {spec : MetricSpec} (hname : spec.eventName ≠ "") (version : Nat) (t : Int)
    (value : SampleValue) :
    Settles (record r.id spec version t value) s fun _ s' =>
      s'.Shows (Sheet.recordWhere (·.isOpenAs kind name) spec t value xs) ∧
        RecordsIn r.id spec t value s s' := by
  refine record_shows h hr (fun x hx => ⟨fun hx' => ?_, fun hid => ?_⟩) (fun _ => rfl) ?_ hname
    version t value
  · rw [h.consistent.open_eq hx hr hx' hopen]
  · rwa [h.consistent.report_eq hx hr hid]
  · intro x hx hid _
    rw [h.consistent.report_eq hx hr hid]
    exact (ReportRow.isOpenAs_iff.1 hopen).2.2

theorem recordInAll_settles (sample : MetricSample) (hname : sample.eventName ≠ "")
    (ids : List Int) :
    ∀ {s : Store}, s.Consistent → s.readOnly = false → s.Sequential → ids.Nodup →
      (∀ id ∈ ids, (∃ r ∈ s.reports.rows, r.id = id) ∧ s.TakesIn id) →
      Settles (recordInAll sample ids) s fun _ s' => s'.Consistent ∧ s'.readOnly = false ∧
        s'.Sequential ∧ s'.reports = s.reports ∧ ∀ r ∈ s.reports.rows, s'.sheetOf r =
          if r.id ∈ ids then (s.sheetOf r).record sample.spec sample.timeMs sample.value
          else s.sheetOf r := by
  induction ids with
  | nil =>
    intro s hs hwritable hq _ _
    exact settles_pure ⟨hs, hwritable, hq, rfl, fun r _ => by simp⟩
  | cons id ids ih =>
    intro s hs hwritable hq hdistinct hids
    rw [List.nodup_cons] at hdistinct
    obtain ⟨howner, htakes⟩ := hids id (by simp)
    have hspec : sample.spec.eventName ≠ "" := hname
    refine settles_bind ((record_settles hs hwritable hq howner hspec htakes).imp
      fun _ s₁ h₁ => ?_)
    have hids₁ : ∀ id ∈ ids, (∃ r ∈ s₁.reports.rows, r.id = id) ∧ s₁.TakesIn id := by
      intro id' hid'
      rw [Store.TakesIn, h₁.reports]
      exact hids id' (by simp [hid'])
    refine (ih h₁.consistent h₁.writable h₁.sequential hdistinct.2 hids₁).imp fun _ s' h' => ?_
    obtain ⟨hs', hwritable', hq', hreports', hsheets'⟩ := h'
    refine ⟨hs', hwritable', hq', hreports'.trans h₁.reports, fun r hr => ?_⟩
    rw [hsheets' r (h₁.reports ▸ hr), h₁.sheetOf_eq hr]
    by_cases hid : r.id = id
    · rw [if_pos hid, if_pos (List.mem_cons.2 (.inl hid)), if_neg (hid ▸ hdistinct.1)]
    · rw [if_neg hid]
      exact if_congr (by simp [hid]) rfl rfl

theorem sessionsAt_settles (hs : s.Undamaged) (t : Int) :
    Settles (sessionsAt t) s fun ids s' => s.SeenAs s' ∧
      ids = (s'.reports.rows.filter (·.isSessionAt t)).map (·.id) := by
  refine settles_bind (settles_useKept hs fun s' hseen => ?_)
  exact settles_query (congrArg Except.ok (Store.sessionsAt_eq (hseen.undamaged hs) t)) ⟨hseen, rfl⟩

/-- Recording in the sessions that cover the time of a sample. -/
theorem recordInAll_shows (h : s.Shows xs) {sample : MetricSample} (hname : sample.eventName ≠ "") :
    Settles (recordInAll sample
        ((s.reports.rows.filter (·.isSessionAt sample.timeMs)).map (·.id))) s fun _ s' =>
      s'.Shows (Sheet.recordWhere (·.isSessionAt sample.timeMs) sample.spec sample.timeMs
        sample.value xs) := by
  have hs := h.consistent
  have hdistinct : ((s.reports.rows.filter (·.isSessionAt sample.timeMs)).map (·.id)).Nodup :=
    List.pairwise_map.2 ((hs.reportsNumbered.increasing.filter _).imp fun hlt => ne_of_lt hlt)
  have hat : ∀ r ∈ s.reports.rows,
      r.id ∈ (s.reports.rows.filter (·.isSessionAt sample.timeMs)).map (·.id) ↔
        r.isSessionAt sample.timeMs = true := by
    intro r hr
    constructor
    · intro hid
      obtain ⟨x, hx, hxid⟩ := List.mem_map.1 hid
      obtain ⟨hx, hat⟩ := List.mem_filter.1 hx
      rwa [hs.report_eq hx hr hxid] at hat
    · exact fun hat => List.mem_map.2 ⟨r, List.mem_filter.2 ⟨hr, hat⟩, rfl⟩
  refine (recordInAll_settles sample hname _ hs h.writable h.sequential hdistinct
    fun id hid => ?_).imp fun _ s' h' => ?_
  · obtain ⟨r, hr, rfl⟩ := List.mem_map.1 hid
    obtain ⟨hr, hsession⟩ := List.mem_filter.1 hr
    refine ⟨⟨r, hr, rfl⟩, fun x hx hxid hkind => ?_⟩
    rw [← hs.report_eq hx hr hxid] at hsession
    simp [ReportRow.isSessionAt, hkind] at hsession
  · obtain ⟨hs', hwritable', hq', hreports, hsheets⟩ := h'
    refine ⟨hs', hwritable', hq', ?_⟩
    rw [Sheet.recordWhere, ← h.sheets, Store.sheets, Store.sheets, hreports, List.map_map]
    exact List.map_congr_left fun r hr => (hsheets r hr).trans (if_congr (hat r hr) rfl rfl)

/-! ### Samples -/

theorem take_settles (h : s.Shows xs) {version : Option String} {sample : MetricSample}
    (hsample : sample.validate = .ok ()) :
    Settles (take version sample) s fun _ s' => s'.Shows (Sheet.takeIn version sample xs) := by
  obtain ⟨hname, hadmits⟩ := of_validate hsample
  refine settles_bind ((openOrStart_settles h hadmits _ _).imp fun id s₁ h₁ => ?_)
  obtain ⟨hshows₁, ⟨r, hr, rfl, hopen⟩, -⟩ := h₁
  refine settles_bind ((record_open hshows₁ hr hopen hname _ _ _).imp fun valueId s₂ h₂ => ?_)
  obtain ⟨hshows₂, -⟩ := h₂
  unfold Sheet.takeIn
  by_cases hkind : sample.reportKind = .hourly
  · rw [if_pos hkind, if_pos hkind]
    refine settles_bind ((sessionsAt_settles hshows₂.consistent.undamaged _).imp fun ids s₃ h₃ => ?_)
    obtain ⟨hseen, rfl⟩ := h₃
    refine settles_bind ((recordInAll_shows (hshows₂.seenAs hseen) hname).imp fun _ s₄ h₄ => ?_)
    exact settles_pure h₄
  · rw [if_neg hkind, if_neg hkind]
    exact settles_pure hshows₂

/-! ### Sessions -/

theorem startSession_settles (h : s.Shows xs) {version : Option String} {name : String} (t : Int)
    (hname : ReportKind.session.Admits (some name)) :
    Settles (startSession version name t) s fun _ s' =>
      s'.Shows (Sheet.startIn .session (some name) t version xs) :=
  settles_bind ((openOrStart_settles h hname t version).imp fun _ _ h₁ => settles_pure h₁.1)

theorem endSession_settles (h : s.Shows xs) (name : String) (t : Int) :
    Settles (endSession name t) s fun _ s' =>
      s'.Shows (Sheet.endWhere (·.isOpenAs .session (some name)) t xs) := by
  have hs := h.consistent
  refine (attains_change (Store.endOpen_ok hs.undamaged h.writable _ _ _) fun s' hend => ?_).settles
  have hyields : Yields (endSession name t) s () s' := yields_change.2 hend
  have hsteps := endSession_steps .everything hs (fun _ _ _ => trivial) hyields
  rcases Store.endOpen_eq_ok hs.undamaged hend with ⟨hnone, rfl⟩ | ⟨r, hfind, rfl⟩
  · have hsame : Sheet.endWhere (·.isOpenAs .session (some name)) t xs = xs := by
      rw [← h.sheets, Sheet.endWhere]
      refine (List.map_congr_left fun x hx => ?_).trans (List.map_id _)
      obtain ⟨r, hr, rfl⟩ := List.mem_map.1 hx
      exact if_neg (List.find?_eq_none.1 hnone r hr)
    rwa [hsame]
  · have hr := List.mem_of_find?_eq_some hfind
    have hopen : r.isOpenAs .session (some name) = true := by simpa using List.find?_some hfind
    refine h.endWhere t (fun x hx => ?_) (fun _ => rfl) (hsteps.consistent hs)
    rw [Bool.eq_iff_iff, beq_iff_eq]
    constructor
    · intro hid
      rwa [hs.report_eq hx hr hid]
    · intro hx'
      rw [hs.open_eq hx hr hx' hopen]

/-! ### Seeded sessions -/

theorem latestUpTo_settles (hs : s.Consistent) (id t : Int) :
    Settles (latestUpTo id t) s fun v? s' =>
      s = s' ∧ v?.map (·.timed) = TimedValue.newestAt (s.timedOf id) t := by
  obtain ⟨v?, hlatest, -⟩ := Store.latestValue?_eq hs (q := ⟨[id], none, none, t, false⟩) rfl
  have hyields : Yields (latestUpTo id t) s v? s := yields_query.2 ⟨hlatest, rfl⟩
  exact settles_of_yields hyields (latestUpTo_eq hs hyields)

theorem seed_settles {session : String} {t : Int} (names : List String) :
    ∀ {s : Store} {xs : List Sheet} {source target : ReportRow}, s.Shows xs →
      s.hourly? = some source → target ∈ s.reports.rows →
      target.isOpenAs .session (some session) = true →
      Settles (seed source.id target.id t names) s fun _ s' =>
        s'.Shows (names.foldl (Sheet.seedOne session t) xs) := by
  induction names with
  | nil => exact fun h _ _ _ => settles_pure h
  | cons name names ih =>
    intro s xs source target h hsource htarget hopen
    have hs := h.consistent
    have hmetric : s.hourlyMetric? name = s.metric? source.id name := by
      rw [Store.hourlyMetric?, hsource, Option.bind_some]
    have hlatest := h.latestOf?_eq name t
    unfold seed
    refine settles_bind (settles_query (Store.findMetric?_eq hs.undamaged source.id name) ?_)
    rw [List.foldl_cons, Sheet.seedOne, hlatest, hmetric, Store.metric?]
    cases hfind : s.metrics.rows.find? (·.isNamed source.id name) with
    | none => exact ih h hsource htarget hopen
    | some m =>
      refine settles_bind ((latestUpTo_settles hs m.id t).imp fun v? s₁ h₁ => ?_)
      obtain ⟨rfl, hnewest⟩ := h₁
      rw [Option.bind_some, ← hnewest]
      cases v? with
      | none => exact ih h hsource htarget hopen
      | some v =>
        have hname := hs.metricNamed m (List.mem_of_find?_eq_some hfind)
        refine settles_bind ((record_open h htarget hopen hname _ _ _).imp fun _ s₂ h₂ => ?_)
        obtain ⟨h₂, hrecords⟩ := h₂
        have hsource₂ : s₂.hourly? = some source := by
          rw [Store.hourly?, hrecords.reports]
          exact hsource
        exact ih h₂ hsource₂ (hrecords.reports ▸ htarget) hopen

/-- Without an hourly accumulator there is nothing to seed from. -/
theorem foldl_seedOne_of_none {session : String} {t : Int} (names : List String)
    (hnone : Sheet.hourly? xs = none) : names.foldl (Sheet.seedOne session t) xs = xs := by
  induction names with
  | nil => rfl
  | cons name names ih =>
    have hlatest : Sheet.latestOf? xs name t = none := by
      rw [Sheet.latestOf?, hnone]
      rfl
    rw [List.foldl_cons, Sheet.seedOne, hlatest]
    exact ih

theorem startSeeded_settles (h : s.Shows xs) {version : Option String} {name : String} (t : Int)
    (names : List String) (hname : ReportKind.session.Admits (some name)) :
    Settles (startSeeded version name t names) s fun _ s' =>
      s'.Shows (Sheet.startSeededIn version name t names xs) := by
  have hany := h.any_eq (p := (·.isOpenAs .session (some name))) fun _ => rfl
  refine settles_bind (settles_query (Store.openReport?_eq h.consistent.undamaged _ _) ?_)
  rw [Sheet.startSeededIn, hany, ← List.isSome_find?]
  split
  · exact settles_pure h
  refine settles_bind ((openOrStart_settles h hname t version).imp fun id s₁ h₁ => ?_)
  obtain ⟨h₁, ⟨r, hr, rfl, hopen⟩, -⟩ := h₁
  refine settles_bind (settles_query (Store.openReport?_eq h₁.consistent.undamaged _ _) ?_)
  cases hhourly : s₁.reports.rows.find? (·.isOpenAs .hourly none) with
  | none =>
    rw [foldl_seedOne_of_none]
    · exact settles_pure h₁
    · rw [h₁.hourly?_eq, Store.hourly?, hhourly]
      rfl
  | some source => exact seed_settles names h₁ hhourly hr hopen

end Transaction

end Telemetry
