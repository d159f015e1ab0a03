import Telemetry.Proofs.Looks

/-!
# Who writes which entry

An entry of a report is found again under its key.  The key of a count ends as no other key does, so
a metric's count can only be written by that metric.  The count that stands in a report is therefore
that of the metric's values, if it asks for one.
-/

namespace Telemetry

/-! ### Maps -/

namespace KeyMap

variable {β : Type}

theorem find?_putEntry (key key' : String) (value : β) (entries : List (String × β)) :
    (putEntry key value entries).find? (·.1 == key') =
      if key = key' then some (key, value) else entries.find? (·.1 == key') := by
  induction entries with
  | nil =>
    by_cases hkey : key = key' <;> simp [putEntry, hkey]
  | cons head rest ih =>
    obtain ⟨k, v⟩ := head
    unfold putEntry
    split
    · by_cases hkey : key = key' <;> simp [hkey]
    · next hnot =>
      split
      · next hlt =>
        rw [List.find?_cons, List.find?_cons, ih]
        by_cases hkey : key = key'
        · have hne : (k == key') = false := by
            rw [beq_eq_false_iff_ne]
            rintro rfl
            exact String.lt_irrefl _ (hkey ▸ hlt)
          simp [hkey, hne]
        · simp [hkey]
      · next hnot' =>
        obtain rfl : key = k := String.le_antisymm (String.not_lt.1 hnot') (String.not_lt.1 hnot)
        by_cases hkey : key = key' <;> simp [hkey]

theorem get?_insert (m : KeyMap β) (key key' : String) (value : β) :
    (m.insert key value).get? key' = if key = key' then some value else m.get? key' := by
  rw [get?, insert, find?_putEntry]
  split <;> rfl

/-- An entry is what is found under its key. -/
theorem get?_of_mem {m : KeyMap β} {e : String × β} (he : e ∈ m.entries) :
    m.get? e.1 = some e.2 := by
  obtain ⟨before, after, hsplit⟩ := List.append_of_mem he
  -- no key is there twice
  have hnone : before.find? (·.1 == e.1) = none := by
    rw [List.find?_eq_none]
    intro x hx hkey
    have hincreasing := m.increasing
    rw [hsplit, KeysIncreasing, List.pairwise_append] at hincreasing
    exact String.ne_of_lt (hincreasing.2.2 x hx e (by simp)) (beq_iff_eq.1 hkey)
  rw [get?, hsplit, List.find?_append, hnone, Option.none_or, List.find?_cons_of_pos (by simp)]
  rfl

/-- What is found after entries were put that agree on a key. -/
theorem get?_insertAll (key : String) (value : β) (entries : List (String × β)) :
    ∀ m : KeyMap β, (∀ e ∈ entries, e.1 = key → e.2 = value) →
      (m.insertAll entries).get? key =
        if entries.any (·.1 == key) then some value else m.get? key := by
  induction entries with
  | nil => exact fun _ _ => rfl
  | cons e entries ih =>
    intro m hvalue
    rw [insertAll, List.foldl_cons]
    refine (ih _ fun e' he' => hvalue e' (by simp [he'])).trans ?_
    rw [get?_insert, List.any_cons]
    by_cases hkey : e.1 = key
    · simp [hkey, hvalue e (by simp) hkey]
    · rw [beq_false_of_ne hkey, Bool.false_or, if_neg hkey]

/-- What is found after entries were put: what would be found among them alone, or else before. -/
theorem get?_insertAll_or (entries : List (String × β)) (key : String) :
    ∀ m : KeyMap β,
      (m.insertAll entries).get? key = ((ofList entries).get? key).or (m.get? key) := by
  induction entries with
  | nil => exact fun _ => rfl
  | cons e entries ih =>
    intro m
    have hput : ∀ m : KeyMap β, m.insertAll (e :: entries) = (m.insert e.1 e.2).insertAll entries :=
      fun _ => rfl
    rw [ofList, hput, hput, ih (m.insert e.1 e.2), ih (empty.insert e.1 e.2), get?_insert, get?_insert]
    split
    · simp
    · rw [Option.or_assoc]
      rfl

/-- What is found is one of the entries that were put, or was there before. -/
theorem mem_of_get?_insertAll {key : String} {value : β} (entries : List (String × β)) :
    ∀ {m : KeyMap β}, (m.insertAll entries).get? key = some value →
      (key, value) ∈ entries ∨ m.get? key = some value := by
  induction entries with
  | nil => exact fun h => .inr h
  | cons e entries ih =>
    intro m h
    rcases ih h with h | h
    · exact .inl (List.mem_cons_of_mem _ h)
    · rw [get?_insert] at h
      split at h
      · next hkey =>
        obtain rfl := Option.some.inj h
        exact .inl (hkey ▸ List.mem_cons_self)
      · exact .inr h

end KeyMap

/-! ### Keys -/

/-- The key of a metric's count. -/
def countKey (name : String) : String := s!"{name}.count"

/-- What a key may have behind the name of its metric. -/
def plainSuffixes : List String :=
  [".count", ".sum", ".min", ".max", ".mean", ".latest", "_drop", "_moving_avg"]

/-- What a key may have behind the name of its metric and the label of a state. -/
def stateSuffixes : StateAggregation → List String
  | .timePerHour => [".secs/hour"]
  | .timeTotals => [".total_secs", ".mean_time_in_state_ms"]
  | .latest => []

def keySuffixes : List String :=
  plainSuffixes ++ stateSuffixes .timePerHour ++ stateSuffixes .timeTotals

/-- The last letters of a text, from the end. -/
def lastLetters (text : String) : List Char := text.toList.reverse.take 3

theorem lastLetters_append {a b : String} (h : 3 ≤ b.toList.length) :
    lastLetters (a ++ b) = lastLetters b := by
  rw [lastLetters, String.toList_append, List.reverse_append, List.take_append_of_le_length]
  · rfl
  · simpa using h

/-- A key tells its suffix: no two suffixes have the same last letters. -/
theorem suffix_eq {a b c d : String} (hb : b ∈ keySuffixes) (hd : d ∈ keySuffixes)
    (h : a ++ b = c ++ d) : b = d ∧ a = c := by
  have hlong : ∀ x ∈ keySuffixes, 3 ≤ x.toList.length := by decide
  have htell : ∀ x ∈ keySuffixes, ∀ y ∈ keySuffixes, lastLetters x = lastLetters y → x = y := by
    decide
  have hletters : lastLetters b = lastLetters d := by
    rw [← lastLetters_append (hlong b hb), h, lastLetters_append (hlong d hd)]
  obtain rfl := htell b hb d hd hletters
  exact ⟨rfl, (String.append_left_inj b).1 h⟩

theorem countKey_inj {a b : String} (h : countKey a = countKey b) : a = b :=
  (String.append_left_inj ".count").1 h

/-- Keys that end otherwise are not those of counts. -/
theorem ne_countKey {name a b : String} (hb : b ∈ keySuffixes) (hne : b ≠ ".count") :
    a ++ b ≠ countKey name :=
  fun heq => hne (suffix_eq hb (by decide) heq).1

theorem Scanner.entries_ne_countKey {scanner : Scanner} {key : String} {w : Window}
    {e : String × Json} (h : e ∈ scanner.entries key w) (name : String) : e.1 ≠ countKey name := by
  cases scanner with
  | timeInState perHour totals scan =>
    rcases List.mem_append.1 h with h | h
    · obtain ⟨time, -, h⟩ := List.mem_flatMap.1 h
      rcases List.mem_append.1 h with h | h
      · split at h
        · rw [List.mem_singleton.1 h]
          exact ne_countKey (b := ".secs/hour") (by decide) (by decide)
        · cases h
      · split at h
        · rw [List.mem_singleton.1 h]
          exact ne_countKey (b := ".total_secs") (by decide) (by decide)
        · cases h
    · split at h
      · obtain ⟨sum, -, rfl⟩ := List.mem_map.1 h
        exact ne_countKey (b := ".mean_time_in_state_ms") (by decide) (by decide)
      · cases h
  | drop scan =>
    rw [List.mem_singleton.1 h]
    exact ne_countKey (b := "_drop") (by decide) (by decide)
  | movingAverage decibel scan =>
    change e ∈ scan.entries key decibel at h
    unfold MovingAverage.entries at h
    split at h
    · cases h
    · rw [List.mem_singleton.1 h]
      exact ne_countKey (b := "_moving_avg") (by decide) (by decide)

namespace MetricGroup

/-- Of the entries for numbers only the count is written under the key of a count. -/
theorem of_numberFor? {key name : String} {summary : NumberSummary} {a : Aggregation}
    {e : String × Json} (h : numberFor? key summary a = some e) (hkey : e.1 = countKey name) :
    a = .numeric .count ∧ key = name ∧ e.2 = .int summary.count := by
  unfold numberFor? at h
  split at h
  · cases h
    exact ⟨rfl, countKey_inj hkey, rfl⟩
  · obtain ⟨x, -, rfl⟩ := Option.map_eq_some_iff.1 h
    exact absurd hkey (ne_countKey (b := ".sum") (by decide) (by decide))
  · obtain ⟨x, -, rfl⟩ := Option.map_eq_some_iff.1 h
    exact absurd hkey (ne_countKey (b := ".min") (by decide) (by decide))
  · obtain ⟨x, -, rfl⟩ := Option.map_eq_some_iff.1 h
    exact absurd hkey (ne_countKey (b := ".max") (by decide) (by decide))
  · obtain ⟨x, -, rfl⟩ := Option.map_eq_some_iff.1 h
    exact absurd hkey (ne_countKey (b := ".mean") (by decide) (by decide))
  · cases h

variable {s s' : Store} {g : MetricGroup} {w : Window}

/-- The entries for numbers hold a count if one is asked for. -/
theorem numberEntries_count {entries : List (String × Json)}
    (h : Yields (g.numberEntries w) s entries s') (name : String) :
    (∀ e ∈ entries, e.1 = countKey name → g.spec.eventName = name ∧
      .numeric .count ∈ g.spec.aggregations ∧
      ∃ summary, s.summarizeNumbers (g.numbersQuery w) = .ok summary ∧ e.2 = .int summary.count) ∧
    (g.spec.eventName = name → .numeric .count ∈ g.spec.aggregations →
      ∃ e ∈ entries, e.1 = countKey name) := by
  unfold numberEntries at h
  split at h
  · obtain ⟨summary, s₁, hlook, h⟩ := yields_bind.1 h
    obtain ⟨hsummary, rfl⟩ := Transaction.yields_query.1 hlook
    obtain ⟨rfl, rfl⟩ := yields_pure.1 h
    refine ⟨fun e he hkey => ?_, fun hname hcount => ?_⟩
    · obtain ⟨a, ha, he⟩ := List.mem_filterMap.1 he
      obtain ⟨rfl, hname, hvalue⟩ := of_numberFor? he hkey
      exact ⟨hname, ha, summary, hsummary, hvalue⟩
    · exact ⟨_, List.mem_filterMap.2 ⟨_, hcount, rfl⟩, congrArg countKey hname⟩
  · next hnot =>
    obtain ⟨rfl, rfl⟩ := yields_pure.1 h
    refine ⟨by simp, fun _ hcount => ?_⟩
    exact absurd (List.any_eq_true.2 ⟨_, hcount, rfl⟩) hnot

/-- The entries of a metric hold its count if one is asked for, and no other count. -/
theorem entries_count {paging : PagingSettings} {entries : List (String × Json)}
    (h : Yields (g.entries paging w) s entries s') (name : String) :
    (∀ e ∈ entries, e.1 = countKey name → g.spec.eventName = name ∧
      .numeric .count ∈ g.spec.aggregations ∧
      ∃ summary, s.summarizeNumbers (g.numbersQuery w) = .ok summary ∧ e.2 = .int summary.count) ∧
    (g.spec.eventName = name → .numeric .count ∈ g.spec.aggregations →
      ∃ e ∈ entries, e.1 = countKey name) := by
  obtain ⟨numbers, s₁, hnumbers, h⟩ := yields_bind.1 h
  obtain ⟨latest, s₂, hlatest, h⟩ := yields_bind.1 h
  obtain ⟨scans, s₃, hscans, h⟩ := yields_bind.1 h
  obtain ⟨rfl, rfl⟩ := yields_pure.1 h
  obtain ⟨hof, hhas⟩ := numberEntries_count hnumbers name
  have hnolatest : ∀ e ∈ latest, e.1 ≠ countKey name := by
    unfold latestEntries at hlatest
    split at hlatest
    · obtain ⟨v?, s₄, -, hlatest⟩ := yields_bind.1 hlatest
      obtain ⟨rfl, -⟩ := yields_pure.1 hlatest
      intro e he
      obtain ⟨v, -, rfl⟩ := List.mem_map.1 he
      exact ne_countKey (b := ".latest") (by decide) (by decide)
    · obtain ⟨rfl, -⟩ := yields_pure.1 hlatest
      simp
  have hnoscan : ∀ e ∈ scans, e.1 ≠ countKey name := by
    unfold scanEntries at hscans
    split at hscans
    · obtain ⟨values, s₄, -, hscans⟩ := yields_bind.1 hscans
      obtain ⟨rfl, -⟩ := yields_pure.1 hscans
      intro e he
      obtain ⟨scanner, -, he⟩ := List.mem_flatMap.1 he
      exact scanner.entries_ne_countKey he name
    · obtain ⟨rfl, -⟩ := yields_pure.1 hscans
      simp
  refine ⟨fun e he hkey => ?_, fun hname hcount => ?_⟩
  · rcases List.mem_append.1 he with he | he
    · rcases List.mem_append.1 he with he | he
      · exact hof e he hkey
      · exact absurd hkey (hnolatest e he)
    · exact absurd hkey (hnoscan e he)
  · obtain ⟨e, he, hkey⟩ := hhas hname hcount
    exact ⟨e, List.mem_append_left _ (List.mem_append_left _ he), hkey⟩

end MetricGroup

/-! ### Reports -/

/-- The count of a metric that stands in one of a report's maps. -/
def countIn (m : MetricMap) (name : String) : Nat :=
  match m.get? (countKey name) with
  | some (.int n) => n.toNat
  | _ => 0

namespace MetricReport

def countOf (r : MetricReport) (name : String) : Nat :=
  countIn r.metrics name + countIn r.internalMetrics name

/-- No count of the metric stands in the report. -/
structure Lacks (r : MetricReport) (name : String) : Prop where
  metrics : r.metrics.get? (countKey name) = none
  internalMetrics : r.internalMetrics.get? (countKey name) = none

variable {r : MetricReport} {name : String}

theorem Lacks.countOf_eq (h : r.Lacks name) : r.countOf name = 0 := by
  rw [countOf, countIn, countIn, h.metrics, h.internalMetrics]
  rfl

theorem insertAll_other (r : MetricReport) (internal : Bool) {entries : List (String × Json)}
    (h : ∀ e ∈ entries, e.1 ≠ countKey name) :
    (r.insertAll internal entries).metrics.get? (countKey name) = r.metrics.get? (countKey name) ∧
      (r.insertAll internal entries).internalMetrics.get? (countKey name) =
        r.internalMetrics.get? (countKey name) := by
  have hget : ∀ m : MetricMap, (m.insertAll entries).get? (countKey name) = m.get? (countKey name) := by
    intro m
    have hnone : entries.any (·.1 == countKey name) = false := by simpa using h
    rw [KeyMap.get?_insertAll _ .null entries m fun e he hkey => absurd hkey (h e he), hnone,
      if_neg Bool.false_ne_true]
  cases internal with
  | true => exact ⟨rfl, hget _⟩
  | false => exact ⟨hget _, rfl⟩

/-- A count that is put stands in the report. -/
theorem countOf_insertAll {internal : Bool} {entries : List (String × Json)} {n : Nat}
    (hlacks : r.Lacks name) (hvalue : ∀ e ∈ entries, e.1 = countKey name → e.2 = .int n)
    (hhas : ∃ e ∈ entries, e.1 = countKey name) :
    (r.insertAll internal entries).countOf name = n := by
  have hget : ∀ m : MetricMap, (m.insertAll entries).get? (countKey name) = some (.int n) := by
    intro m
    have hsome : entries.any (·.1 == countKey name) = true := by simpa using hhas
    rw [KeyMap.get?_insertAll _ _ entries m hvalue, hsome, if_pos rfl]
  cases internal with
  | true =>
    change countIn r.metrics name + countIn (r.internalMetrics.insertAll entries) name = n
    simp only [countIn, hlacks.metrics, hget]
    simp
  | false =>
    change countIn (r.metrics.insertAll entries) name + countIn r.internalMetrics name = n
    simp only [countIn, hlacks.internalMetrics, hget]
    simp

/-- Metrics of other names leave a count as it is. -/
theorem summarize_other {paging : PagingSettings} {w : Window} (groups : List MetricGroup) :
    ∀ {r r' : MetricReport} {s s' : Store}, (∀ g ∈ groups, g.spec.eventName ≠ name) →
      Yields (r.summarize paging w groups) s r' s' → r'.countOf name = r.countOf name := by
  induction groups with
  | nil =>
    intro r r' s s' _ h
    obtain ⟨rfl, -⟩ := yields_pure.1 h
    rfl
  | cons g groups ih =>
    intro r r' s s' hother h
    obtain ⟨entries, s₁, hentries, h⟩ := yields_bind.1 h
    obtain ⟨hof, -⟩ := MetricGroup.entries_count hentries name
    obtain ⟨hmetrics, hinternal⟩ := insertAll_other r g.spec.internal
      fun e he hkey => hother g (by simp) (hof e he hkey).1
    rw [ih (fun g' hg' => hother g' (by simp [hg'])) h, countOf, countIn, countIn, hmetrics,
      hinternal]
    rfl

/-- The count that a summary has of a metric is that of its numbers, if it asks for one. -/
theorem summarize_countOf {paging : PagingSettings} {w : Window} (groups : List MetricGroup) :
    ∀ {r r' : MetricReport} {s s' : Store},
      groups.Pairwise (fun a b => a.spec.eventName ≠ b.spec.eventName) → r.Lacks name →
      Yields (r.summarize paging w groups) s r' s' →
      r'.Lacks name ∧ (∀ g ∈ groups, g.spec.eventName = name →
        .numeric .count ∉ g.spec.aggregations) ∨
      ∃ g ∈ groups, g.spec.eventName = name ∧ .numeric .count ∈ g.spec.aggregations ∧
        ∃ summary, s.summarizeNumbers (g.numbersQuery w) = .ok summary ∧
          r'.countOf name = summary.count := by
  induction groups with
  | nil =>
    intro r r' s s' _ hlacks h
    obtain ⟨rfl, -⟩ := yields_pure.1 h
    exact .inl ⟨hlacks, by simp⟩
  | cons g groups ih =>
    intro r r' s s' hdistinct hlacks h
    rw [List.pairwise_cons] at hdistinct
    obtain ⟨entries, s₁, hentries, h⟩ := yields_bind.1 h
    obtain ⟨hof, hhas⟩ := MetricGroup.entries_count hentries name
    obtain ⟨kept, rfl⟩ := g.looks_entries paging w s entries s₁ hentries
    by_cases hasked : g.spec.eventName = name ∧ .numeric .count ∈ g.spec.aggregations
    · obtain ⟨hname, hcount⟩ := hasked
      obtain ⟨e, he, hkey⟩ := hhas hname hcount
      obtain ⟨-, -, summary, hsummary, -⟩ := hof e he hkey
      have hvalue : ∀ e ∈ entries, e.1 = countKey name → e.2 = .int summary.count := by
        intro e he hkey
        obtain ⟨-, -, summary', hsummary', hvalue⟩ := hof e he hkey
        obtain rfl : summary' = summary := by simpa [hsummary] using hsummary'.symm
        exact hvalue
      have hothers : ∀ g' ∈ groups, g'.spec.eventName ≠ name :=
        fun g' hg' hname' => hdistinct.1 g' hg' (hname.trans hname'.symm)
      refine .inr ⟨g, by simp, hname, hcount, summary, hsummary, ?_⟩
      exact (summarize_other groups hothers h).trans
        (countOf_insertAll hlacks hvalue ⟨e, he, hkey⟩)
    · have hnone : ∀ e ∈ entries, e.1 ≠ countKey name := fun e he hkey =>
        hasked ⟨(hof e he hkey).1, (hof e he hkey).2.1⟩
      obtain ⟨hmetrics, hinternal⟩ :=
        insertAll_other r g.spec.internal hnone
      have hlacks' : (r.insertAll g.spec.internal entries).Lacks name :=
        ⟨hmetrics.trans hlacks.metrics, hinternal.trans hlacks.internalMetrics⟩
      rcases ih hdistinct.2 hlacks' h with ⟨hnone, hnot⟩ | ⟨g', hg', hrest⟩
      · refine .inl ⟨hnone, fun g' hg' hname' => ?_⟩
        rcases List.mem_cons.1 hg' with rfl | hg'
        · exact fun hcount => hasked ⟨hname', hcount⟩
        · exact hnot g' hg' hname'
      · exact .inr ⟨g', by simp [hg'], hrest⟩

end MetricReport

end Telemetry
