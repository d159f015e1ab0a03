import Telemetry.Proofs.Keys

/-!
# The keys of a metric

A key is the name of a metric and a suffix; where it tells of a state, the label of the state stands
between them.  No suffix ends as another one does, so two metrics of different names can only write
under the same key if both tell of states: one name is then the beginning of the other, and the rest
of the longer name stands in the label of the shorter one.  As labels are arbitrary texts, that
happens.
-/

namespace Telemetry

/-! ### The keys of a metric -/

/-- The keys under which a metric can write, by what it asks for. -/
inductive MetricSpec.MayWrite (spec : MetricSpec) : String → Prop
  | plain (suffix : String) (h : suffix ∈ plainSuffixes) : spec.MayWrite (spec.eventName ++ suffix)
  | state {a : StateAggregation} (ha : .state a ∈ spec.aggregations) (suffix : String)
    (h : suffix ∈ stateSuffixes a) (label : String) :
    spec.MayWrite (spec.eventName ++ "_" ++ label ++ suffix)

/-- The first metric's name is the second one's with more behind it. -/
def Extends (long short : String) : Prop := ∃ more, long = short ++ "_" ++ more

/-- Both metrics tell the same of states, so that one key can be that of a label of the one and of
another label of the other: its name has the rest of the longer name in it. -/
structure MetricSpec.Overlaps (spec spec' : MetricSpec) (key : String) : Prop where
  told : ∃ a, .state a ∈ spec.aggregations ∧ .state a ∈ spec'.aggregations ∧
    ∃ suffix ∈ stateSuffixes a, ∃ label label',
      key = spec.eventName ++ "_" ++ label ++ suffix ∧
      key = spec'.eventName ++ "_" ++ label' ++ suffix
  names : Extends spec.eventName spec'.eventName ∨ Extends spec'.eventName spec.eventName

theorem mem_keySuffixes_of_plain {suffix : String} (h : suffix ∈ plainSuffixes) :
    suffix ∈ keySuffixes :=
  List.mem_append_left _ (List.mem_append_left _ h)

theorem mem_keySuffixes_of_state {a : StateAggregation} {suffix : String}
    (h : suffix ∈ stateSuffixes a) : suffix ∈ keySuffixes := by
  cases a with
  | latest => cases h
  | timePerHour => exact List.mem_append_left _ (List.mem_append_right _ h)
  | timeTotals => exact List.mem_append_right _ h

/-- A suffix tells what was asked for. -/
theorem stateSuffixes_inj {a a' : StateAggregation} {suffix : String} (h : suffix ∈ stateSuffixes a)
    (h' : suffix ∈ stateSuffixes a') : a = a' := by
  have hapart : ∀ x ∈ stateSuffixes .timePerHour, x ∉ stateSuffixes .timeTotals := by decide
  match a, a', h, h' with
  | .timePerHour, .timePerHour, _, _ => rfl
  | .timeTotals, .timeTotals, _, _ => rfl
  | .timePerHour, .timeTotals, h, h' => exact absurd h' (hapart suffix h)
  | .timeTotals, .timePerHour, h, h' => exact absurd h (hapart suffix h')

theorem plain_not_state {suffix : String} (h : suffix ∈ plainSuffixes) (a : StateAggregation) :
    suffix ∉ stateSuffixes a := by
  have hplain : ∀ x ∈ plainSuffixes, x ∉ stateSuffixes .latest ∧ x ∉ stateSuffixes .timePerHour ∧
      x ∉ stateSuffixes .timeTotals := by decide
  obtain ⟨hlatest, hperHour, htotals⟩ := hplain suffix h
  cases a
  · exact hlatest
  · exact hperHour
  · exact htotals

/-- Of two texts that begin the same way one is the other with more behind it. -/
theorem extends_of_append_eq {a b c d : String} (h : a ++ "_" ++ b = c ++ "_" ++ d) (hne : a ≠ c) :
    Extends a c ∨ Extends c a := by
  have hlist : a.toList ++ '_' :: b.toList = c.toList ++ '_' :: d.toList := by
    have hchars := congrArg String.toList h
    simpa [String.toList_append] using hchars
  have hmore : ∀ {x y : String} {more rest rest' : List Char}, x ≠ y →
      x.toList = y.toList ++ more → '_' :: rest = more ++ '_' :: rest' → Extends x y := by
    intro x y more rest rest' hxy hx hrest
    cases more with
    | nil =>
      rw [List.append_nil] at hx
      exact absurd (String.toList_inj.1 hx) hxy
    | cons c more =>
      obtain ⟨rfl, -⟩ := List.cons.inj hrest
      refine ⟨String.ofList more, String.toList_inj.1 ?_⟩
      simp [String.toList_append, hx]
  rcases List.append_eq_append_iff.1 hlist with ⟨more, hc, hb⟩ | ⟨more, ha, hd⟩
  · exact .inr (hmore hne.symm hc hb)
  · exact .inl (hmore hne ha hd)

/-- Metrics of different names write under one key only where they overlap. -/
theorem MetricSpec.MayWrite.overlaps {spec spec' : MetricSpec} {key : String}
    (h : spec.MayWrite key) (h' : spec'.MayWrite key) (hne : spec.eventName ≠ spec'.eventName) :
    spec.Overlaps spec' key := by
  generalize hkey : key = key' at h'
  cases h with
  | plain suffix hs =>
    cases h' with
    | plain suffix' hs' =>
      exact absurd (suffix_eq (mem_keySuffixes_of_plain hs) (mem_keySuffixes_of_plain hs') hkey).2 hne
    | state ha' suffix' hs' label' =>
      obtain ⟨rfl, -⟩ :=
        suffix_eq (mem_keySuffixes_of_plain hs) (mem_keySuffixes_of_state hs') hkey
      exact absurd hs' (plain_not_state hs _)
  | @state a ha suffix hs label =>
    cases h' with
    | plain suffix' hs' =>
      obtain ⟨rfl, -⟩ :=
        suffix_eq (mem_keySuffixes_of_state hs) (mem_keySuffixes_of_plain hs') hkey
      exact absurd hs (plain_not_state hs' _)
    | state ha' suffix' hs' label' =>
      obtain ⟨heq, hstem⟩ :=
        suffix_eq (mem_keySuffixes_of_state hs) (mem_keySuffixes_of_state hs') hkey
      subst heq
      obtain rfl := stateSuffixes_inj hs hs'
      exact ⟨⟨a, ha, ha', suffix, hs, label, label', hkey.symm, rfl⟩,
        extends_of_append_eq hstem hne⟩

/-- A scanner tells of states what was asked for. -/
def Scanner.IsAsked (aggregations : List Aggregation) : Scanner → Prop
  | .timeInState perHour totals _ =>
    (perHour = true → .state .timePerHour ∈ aggregations) ∧
      (totals = true → .state .timeTotals ∈ aggregations)
  | _ => True

theorem Scanner.isAsked_forMetric (aggregations : List Aggregation) :
    ∀ scanner ∈ forMetric aggregations, scanner.IsAsked aggregations := by
  intro scanner h
  rcases List.mem_append.1 h with h | h
  · rcases List.mem_append.1 h with h | h
    · split at h
      · rw [List.mem_singleton.1 h]
        exact ⟨List.contains_iff_mem.1, List.contains_iff_mem.1⟩
      · cases h
    · split at h
      · rw [List.mem_singleton.1 h]
        trivial
      · cases h
  · split at h
    · rw [List.mem_singleton.1 h]
      trivial
    · split at h
      · rw [List.mem_singleton.1 h]
        trivial
      · cases h

theorem Scanner.isAsked_feed {aggregations : List Aggregation} {w : Window}
    (values : List TimedValue) :
    ∀ {scanners : List Scanner}, (∀ scanner ∈ scanners, scanner.IsAsked aggregations) →
      ∀ scanner ∈ feed w scanners values, scanner.IsAsked aggregations := by
  induction values with
  | nil => exact fun h => h
  | cons v values ih =>
    intro scanners h
    refine @ih (scanners.map (accept w v)) ?_
    intro scanner hscanner
    obtain ⟨before, hbefore, rfl⟩ := List.mem_map.1 hscanner
    have hasked := h before hbefore
    cases before with
    | timeInState perHour totals scan => exact hasked
    | drop scan => trivial
    | movingAverage decibel scan => trivial

/-- A scanner writes under keys of its metric. -/
theorem Scanner.entries_mayWrite {spec : MetricSpec} {scanner : Scanner} {w : Window}
    (hasked : scanner.IsAsked spec.aggregations) {e : String × Json}
    (h : e ∈ scanner.entries spec.eventName w) : spec.MayWrite e.1 := by
  cases scanner with
  | timeInState perHour totals scan =>
    obtain ⟨hperHour, htotals⟩ := hasked
    rcases List.mem_append.1 h with h | h
    · obtain ⟨time, -, h⟩ := List.mem_flatMap.1 h
      rcases List.mem_append.1 h with h | h
      · split at h
        · next hon =>
          rw [List.mem_singleton.1 h]
          have hon := (Bool.and_eq_true_iff.1 hon).1
          exact .state (hperHour hon) ".secs/hour" (by decide) time.1
        · cases h
      · split at h
        · next hon =>
          rw [List.mem_singleton.1 h]
          exact .state (htotals hon) ".total_secs" (by decide) time.1
        · cases h
    · split at h
      · next hon =>
        obtain ⟨sum, -, rfl⟩ := List.mem_map.1 h
        exact .state (htotals hon) ".mean_time_in_state_ms" (by decide) sum.1
      · cases h
  | drop scan =>
    rw [List.mem_singleton.1 h]
    exact .plain "_drop" (by decide)
  | movingAverage decibel scan =>
    change e ∈ scan.entries spec.eventName decibel at h
    unfold MovingAverage.entries at h
    split at h
    · cases h
    · rw [List.mem_singleton.1 h]
      exact .plain "_moving_avg" (by decide)

namespace MetricGroup

variable {g : MetricGroup} {paging : PagingSettings} {w : Window} {s s' : Store}
  {entries : List (String × Json)}

theorem numberFor?_mayWrite {spec : MetricSpec} {summary : NumberSummary} {a : Aggregation}
    {e : String × Json} (h : numberFor? spec.eventName summary a = some e) : spec.MayWrite e.1 := by
  unfold numberFor? at h
  split at h
  · cases h
    exact .plain ".count" (by decide)
  · obtain ⟨x, -, rfl⟩ := Option.map_eq_some_iff.1 h
    exact .plain ".sum" (by decide)
  · obtain ⟨x, -, rfl⟩ := Option.map_eq_some_iff.1 h
    exact .plain ".min" (by decide)
  · obtain ⟨x, -, rfl⟩ := Option.map_eq_some_iff.1 h
    exact .plain ".max" (by decide)
  · obtain ⟨x, -, rfl⟩ := Option.map_eq_some_iff.1 h
    exact .plain ".mean" (by decide)
  · cases h

theorem numberEntries_mayWrite (h : Yields (g.numberEntries w) s entries s') :
    ∀ e ∈ entries, g.spec.MayWrite e.1 := by
  unfold numberEntries at h
  split at h
  · obtain ⟨summary, s₁, -, h⟩ := yields_bind.1 h
    obtain ⟨rfl, -⟩ := yields_pure.1 h
    intro e he
    obtain ⟨a, -, he⟩ := List.mem_filterMap.1 he
    exact numberFor?_mayWrite he
  · obtain ⟨rfl, -⟩ := yields_pure.1 h
    simp

theorem latestEntries_mayWrite (h : Yields (g.latestEntries w) s entries s') :
    ∀ e ∈ entries, g.spec.MayWrite e.1 := by
  unfold latestEntries at h
  split at h
  · obtain ⟨v?, s₁, -, h⟩ := yields_bind.1 h
    obtain ⟨rfl, -⟩ := yields_pure.1 h
    intro e he
    obtain ⟨v, -, rfl⟩ := List.mem_map.1 he
    exact .plain ".latest" (by decide)
  · obtain ⟨rfl, -⟩ := yields_pure.1 h
    simp

theorem scanEntries_mayWrite (h : Yields (g.scanEntries paging w) s entries s') :
    ∀ e ∈ entries, g.spec.MayWrite e.1 := by
  unfold scanEntries at h
  split at h
  · obtain ⟨values, s₁, -, h⟩ := yields_bind.1 h
    obtain ⟨rfl, -⟩ := yields_pure.1 h
    intro e he
    obtain ⟨scanner, hscanner, he⟩ := List.mem_flatMap.1 he
    exact Scanner.entries_mayWrite
      (Scanner.isAsked_feed values (Scanner.isAsked_forMetric _) scanner hscanner) he
  · obtain ⟨rfl, -⟩ := yields_pure.1 h
    simp

/-- A metric writes under its own keys. -/
theorem entries_mayWrite (h : Yields (g.entries paging w) s entries s') :
    ∀ e ∈ entries, g.spec.MayWrite e.1 := by
  obtain ⟨numbers, s₁, hnumbers, h⟩ := yields_bind.1 h
  obtain ⟨latest, s₂, hlatest, h⟩ := yields_bind.1 h
  obtain ⟨scans, s₃, hscans, h⟩ := yields_bind.1 h
  obtain ⟨rfl, -⟩ := yields_pure.1 h
  intro e he
  rcases List.mem_append.1 he with he | he
  · rcases List.mem_append.1 he with he | he
    · exact numberEntries_mayWrite hnumbers e he
    · exact latestEntries_mayWrite hlatest e he
  · exact scanEntries_mayWrite hscans e he

end MetricGroup

end Telemetry
