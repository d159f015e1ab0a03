import Telemetry.Export.Writer
import Telemetry.Proofs.SettingsTexts
import Telemetry.Report.Codec

/-!
# Samples, reports and exports come back from their texts

What is written compactly is decoded as it was: a sample whose value is no number, and a report or an
export whose entries and points are plain values.  Fields that are left out where there is nothing to
write are taken as nothing, and a map comes back as the same map, since its entries are written in
the order of their keys.  Lists and maps may be of any size and texts of any characters; all that is
asked for is that integers fit their types.
-/

namespace Telemetry

open Json (Decoder)

/-! ### Maps -/

namespace KeyMap

variable {β : Type}

/-- An entry with a greater key than all others is put behind them. -/
theorem putEntry_last {key : String} {value : β} {entries : List (String × β)}
    (h : ∀ e ∈ entries, e.1 < key) : putEntry key value entries = entries ++ [(key, value)] := by
  induction entries with
  | nil => rfl
  | cons head rest ih =>
    obtain ⟨k, v⟩ := head
    obtain ⟨hk, hrest⟩ := List.forall_mem_cons.1 h
    rw [putEntry, if_neg (String.lt_asymm hk), if_pos hk, ih hrest, List.cons_append]

theorem insertAll_entries (entries : List (String × β)) :
    ∀ m : KeyMap β, KeysIncreasing (m.entries ++ entries) →
      (m.insertAll entries).entries = m.entries ++ entries := by
  induction entries with
  | nil => simp [insertAll]
  | cons e entries ih =>
    intro m h
    have hlast : (m.insert e.1 e.2).entries = m.entries ++ [e] :=
      putEntry_last fun x hx => (List.pairwise_append.1 h).2.2 x hx e (by simp)
    rw [List.append_cons, ← hlast] at h
    rw [List.append_cons, ← hlast]
    exact ih _ h

/-- A map is made again of its entries. -/
theorem ofList_entries (m : KeyMap β) : ofList m.entries = m := by
  have hentries : (ofList m.entries).entries = m.entries :=
    insertAll_entries m.entries empty m.increasing
  obtain ⟨entries, h⟩ := m
  generalize ofList entries = m' at hentries
  obtain ⟨entries', h'⟩ := m'
  obtain rfl : entries' = entries := hentries
  rfl

end KeyMap

/-! ### Plain values -/

namespace Json

/-- Neither a container nor a floating number, and an integer of 64 bits, with a sign or without. -/
inductive IsPlain : Json → Prop where
  | null : IsPlain .null
  | bool (b : Bool) : IsPlain (.bool b)
  | int {n : Int} (hlow : Int64.minValue.toInt ≤ n) (hhigh : n < UInt64.size) : IsPlain (.int n)
  | str (s : String) : IsPlain (.str s)

theorem IsPlain.floatless {v : Json} (h : v.IsPlain) : v.Floatless := by
  cases h with
  | null => exact .null
  | bool b => exact .bool b
  | int _ _ => exact .int _
  | str s => exact .str s

namespace Decoder

variable {level : Nat}

theorem json_tree (level : Nat) {v : Json} (h : v.IsPlain) : json level v.tree = some v := by
  cases h with
  | null => rw [Json.tree, json]
  | bool b => rw [Json.tree, json]
  | int hlow hhigh =>
    rw [Json.tree, json, Decimal.Numeral.integer?_ofInt hlow hhigh]
  | str s => rw [Json.tree, json, join_pieces, Option.map_some, String.ofList_toList]

/-- A name without data comes back if it is one of the names. -/
theorem choice_tree {α : Type} {parse : String → Option α} {name : String} {a : α}
    (h : parse name = some a) (level : Nat) : choice parse level (Json.str name).tree = some a := by
  rw [Json.tree, choice, ← Json.tree, string_tree, Option.bind_some, h]

theorem optional_text (level : Nat) (s : String) :
    optional string level (Json.str s).tree = some (some s) := by
  have hnull : ∀ (h : (Json.str s).tree = .null), False := by simp [Json.tree]
  rw [optional, string_tree]
  · rfl
  · exact hnull

/-- The entries of a map come back in their order. -/
theorem entries_fieldTrees {decoder : Decoder Json} {fields : List (String × Json)}
    (h : ∀ f ∈ fields, decoder level f.2.tree = some f.2) :
    ((fieldTrees fields).mapM fun f => do
        let key ← Piece.join? f.1
        let value ← decoder level f.2
        some (String.ofList key, value)) = some fields := by
  induction fields with
  | nil => rfl
  | cons f fields ih =>
    obtain ⟨k, v⟩ := f
    obtain ⟨hv, hfields⟩ := List.forall_mem_cons.1 h
    rw [fieldTrees, List.mapM_cons, ih hfields, join_pieces, hv]
    simp

end Decoder

end Json

namespace MetricMap

/-- All entries are plain. -/
def Plain (m : MetricMap) : Prop := ∀ e ∈ m.entries, e.2.IsPlain

theorem floatless {m : MetricMap} (h : Plain m) : (toJson m).Floatless :=
  .obj fun e he => (h e he).floatless

theorem decoder_tree {level : Nat} (hlevel : 1 < level) {m : MetricMap} (h : Plain m) :
    decoder level (toJson m).tree = some m := by
  have hplain : ∀ e ∈ m.entries, Decoder.json (level - 1) e.2.tree = some e.2 :=
    fun e he => Decoder.json_tree (level - 1) (h e he)
  have hentries := Decoder.entries_fieldTrees hplain
  rw [toJson, Json.tree, decoder, Decoder.keyMap, Json.descend, if_neg (by omega)]
  simp only [Option.bind_eq_bind, Option.bind_some] at hentries ⊢
  rw [hentries, Option.bind_some, KeyMap.ofList_entries]

end MetricMap

/-! ### Samples -/

section

variable {level : Nat}

theorem ReportKind.decoder_tree (level : Nat) (k : ReportKind) :
    ReportKind.decoder level k.toJson.tree = some k :=
  Decoder.choice_tree (ofName?_name k) level

theorem MetricKind.decoder_tree (level : Nat) (k : MetricKind) :
    MetricKind.decoder level k.toJson.tree = some k :=
  Decoder.choice_tree (ofName?_name k) level

theorem DataKind.decoder_tree (level : Nat) (k : DataKind) :
    DataKind.decoder level k.toJson.tree = some k :=
  Decoder.choice_tree (ofName?_name k) level

theorem Aggregation.decoder_tree (hlevel : 1 < level) (a : Aggregation) :
    Aggregation.decoder level a.toJson.tree = some a := by
  have hdescend : Json.descend level = some (level - 1) := if_neg (by omega)
  cases a with
  | numeric a =>
    have hname := Decoder.choice_tree a.ofName?_name (level - 1)
    simp [toJson, Json.tree, Json.fieldTrees, decoder, hdescend, Json.join_pieces] at hname ⊢
    rw [hname]
  | state a =>
    have hname := Decoder.choice_tree a.ofName?_name (level - 1)
    simp [toJson, Json.tree, Json.fieldTrees, decoder, hdescend, Json.join_pieces] at hname ⊢
    rw [hname]

theorem Aggregation.floatless (a : Aggregation) : a.toJson.Floatless := by
  cases a <;> exact .obj (by simp [Json.Floatless.str])

/-- The value is a text or a truth value. -/
def SampleValue.NoNumber (v : SampleValue) : Prop := ∀ x, v ≠ .number x

theorem SampleValue.decoder_tree (level : Nat) {v : SampleValue} (h : v.NoNumber) :
    SampleValue.decoder level v.toJson.tree = some v := by
  cases v with
  | bool b => rfl
  | number x => exact absurd rfl (h x)
  | string s =>
    rw [toJson, Json.tree, decoder, ← Json.tree, Decoder.string_tree, Option.map_some]

theorem SampleValue.floatless {v : SampleValue} (h : v.NoNumber) : v.toJson.Floatless := by
  cases v with
  | bool b => exact .bool b
  | number x => exact absurd rfl (h x)
  | string s => exact .str s

/-- Every number of the sample, its value aside, is one of its machine type. -/
structure MetricSample.Fits (s : MetricSample) : Prop where
  timeMs : fitsInt64 s.timeMs = true
  version : s.version < UInt32.size

theorem MetricSample.floatless {s : MetricSample} (hvalue : s.value.NoNumber) :
    s.toJson.Floatless := by
  have haggregations : (Json.arr (s.aggregations.map (·.toJson))).Floatless := by
    refine .arr fun v hv => ?_
    obtain ⟨a, -, rfl⟩ := List.mem_map.1 hv
    exact a.floatless
  have hvalue' := SampleValue.floatless hvalue
  unfold toJson
  refine .obj ?_
  cases s.sessionName
  all_goals
    simp [Json.optionalField, ReportKind.toJson, MetricKind.toJson, DataKind.toJson,
      Json.Floatless.str, Json.Floatless.int, Json.Floatless.bool, haggregations, hvalue']

theorem MetricSample.decoder_tree (hlevel : 3 < level) {s : MetricSample} (h : s.Fits)
    (hvalue : s.value.NoNumber) : MetricSample.decoder level s.toJson.tree = some s := by
  have hname := fun name => Decoder.optional_text (level - 1) name
  have haggregations : Decoder.list Aggregation.decoder (level - 1)
      (Json.arr (s.aggregations.map (·.toJson))).tree = some s.aggregations :=
    Decoder.list_tree (by omega) fun a _ => Aggregation.decoder_tree (by omega) a
  have htime : Decoder.int64 (level - 1) (Json.int s.timeMs).tree = some s.timeMs :=
    Decoder.int64_tree _ h.timeMs
  have hversion : Decoder.nat32 (level - 1) (Json.int s.version).tree = some s.version :=
    Decoder.natBelow_tree _ (by decide) h.version
  have hvalue' := SampleValue.decoder_tree (level - 1) hvalue
  have hbool : ∀ b, Decoder.bool (level - 1) (Json.bool b).tree = some b := fun _ => rfl
  obtain ⟨eventName, reportKind, sessionName, timeMs, metricKind, dataKind, aggregations, carryOver,
    internal, value, version⟩ := s
  unfold MetricSample.decoder MetricSample.toJson
  -- the session's name may be left out
  cases sessionName
  all_goals
    rw [Decoder.slots_some (by omega) _ (by simp [fieldNames, Json.optionalField])
      (by simp [Json.optionalField])]
    simp [Decoder.Slots.required, Decoder.Slots.defaulting, Decoder.Slots.find?, Json.optionalField,
      Decoder.string_tree, ReportKind.decoder_tree, MetricKind.decoder_tree, DataKind.decoder_tree,
      haggregations, htime, hversion, hvalue', hbool, hname]

/-! ### Reports -/

/-- Every number of the report, its entries aside, is one of its machine type. -/
structure MetricReport.Fits (r : MetricReport) : Prop where
  version : r.version < UInt32.size
  startMs : fitsInt64 r.startMs = true
  endMs : fitsInt64 r.endMs = true

theorem MetricReport.floatless {r : MetricReport} (hmetrics : r.metrics.Plain)
    (hinternal : r.internalMetrics.Plain) : r.toJson.Floatless := by
  have hmetrics' := MetricMap.floatless hmetrics
  have hinternal' := MetricMap.floatless hinternal
  unfold toJson
  refine .obj ?_
  cases r.name
  all_goals
    cases r.softwareVersion
    all_goals
      simp [Json.optionalField, ReportKind.toJson, Json.Floatless.str, Json.Floatless.int,
        hmetrics', hinternal']

theorem MetricReport.decoder_tree (hlevel : 2 < level) {r : MetricReport} (h : r.Fits)
    (hmetrics : r.metrics.Plain) (hinternal : r.internalMetrics.Plain) :
    MetricReport.decoder level r.toJson.tree = some r := by
  have hlevel' : 1 < level - 1 := by omega
  have hname := fun name => Decoder.optional_text (level - 1) name
  have hversion : Decoder.nat32 (level - 1) (Json.int r.version).tree = some r.version :=
    Decoder.natBelow_tree _ (by decide) h.version
  have hstart : Decoder.int64 (level - 1) (Json.int r.startMs).tree = some r.startMs :=
    Decoder.int64_tree _ h.startMs
  have hend : Decoder.int64 (level - 1) (Json.int r.endMs).tree = some r.endMs :=
    Decoder.int64_tree _ h.endMs
  have hmetrics' := MetricMap.decoder_tree hlevel' hmetrics
  have hinternal' := MetricMap.decoder_tree hlevel' hinternal
  obtain ⟨version, startMs, endMs, kind, name, metrics, internalMetrics, softwareVersion⟩ := r
  unfold MetricReport.decoder MetricReport.toJson
  -- the name and the software version may be left out
  cases name
  all_goals
    cases softwareVersion
    all_goals
      rw [Decoder.slots_some (by omega) _ (by simp [fieldNames, Json.optionalField])
        (by simp [Json.optionalField])]
      simp [Decoder.Slots.required, Decoder.Slots.defaulting, Decoder.Slots.find?,
        Json.optionalField, ReportKind.decoder_tree, hversion, hstart, hend, hmetrics', hinternal',
        hname]

/-! ### Exports -/

/-- Every number of the export, the values of its points aside, is one of its machine type. -/
structure ExportTree.Fits (t : ExportTree) : Prop where
  schemaVersion : t.header.schemaVersion < UInt32.size
  startMs : fitsInt64 t.header.startMs = true
  durationMs : fitsInt64 t.header.durationMs = true
  timeMs : ∀ r ∈ t.rollups, ∀ p ∈ r.points, fitsInt64 p.timeMs = true

/-- The values of all points are plain. -/
def ExportTree.Plain (t : ExportTree) : Prop := ∀ r ∈ t.rollups, ∀ p ∈ r.points, p.value.IsPlain

theorem Producer.decoder_tree (hlevel : 1 < level) (p : Producer) :
    Producer.decoder level p.toJson.tree = some p := by
  have hslots := Decoder.slots_tree hlevel [("version", .str p.version), ("id", .str p.id)] (by simp)
  unfold Producer.decoder Producer.toJson
  simp only [List.map_cons, List.map_nil] at hslots
  rw [hslots]
  simp [Decoder.Slots.required, Decoder.Slots.find?, Decoder.string_tree]

theorem RollupInfo.decoder_tree (hlevel : 1 < level) (i : RollupInfo) :
    RollupInfo.decoder level i.toJson.tree = some i := by
  have hslots := Decoder.slots_tree hlevel [("string_key", .str i.key),
    ("metric_type", .str i.metricType), ("data_type", .str i.dataType),
    ("internal", .bool i.internal)] (by simp)
  have hbool : ∀ b, Decoder.bool (level - 1) (Json.bool b).tree = some b := fun _ => rfl
  unfold RollupInfo.decoder RollupInfo.toJson
  simp only [List.map_cons, List.map_nil] at hslots
  rw [hslots]
  simp [Decoder.Slots.required, Decoder.Slots.find?, Decoder.string_tree, hbool]

theorem DataPoint.decoder_tree (hlevel : 1 < level) {p : DataPoint}
    (htime : fitsInt64 p.timeMs = true) (hvalue : p.value.IsPlain) :
    DataPoint.decoder level p.toJson.tree = some p := by
  have hslots := Decoder.slots_tree hlevel [("t", .int p.timeMs), ("value", p.value)] (by simp)
  have htime' : Decoder.int64 (level - 1) (Json.int p.timeMs).tree = some p.timeMs :=
    Decoder.int64_tree _ htime
  unfold DataPoint.decoder DataPoint.toJson
  simp only [List.map_cons, List.map_nil] at hslots
  rw [hslots]
  simp [Decoder.Slots.required, Decoder.Slots.find?, htime', Decoder.json_tree _ hvalue]

theorem Rollup.decoder_tree (hlevel : 3 < level) {r : Rollup}
    (htime : ∀ p ∈ r.points, fitsInt64 p.timeMs = true) (hvalue : ∀ p ∈ r.points, p.value.IsPlain) :
    Rollup.decoder level r.toJson.tree = some r := by
  have hslots := Decoder.slots_tree (by omega : 1 < level)
    [("metadata", r.info.toJson), ("data", .arr (r.points.map (·.toJson)))] (by simp)
  have hinfo := RollupInfo.decoder_tree (by omega : 1 < level - 1) r.info
  have hpoints : Decoder.list DataPoint.decoder (level - 1)
      (Json.arr (r.points.map (·.toJson))).tree = some r.points :=
    Decoder.list_tree (by omega) fun p hp =>
      DataPoint.decoder_tree (by omega) (htime p hp) (hvalue p hp)
  unfold Rollup.decoder Rollup.toJson
  simp only [List.map_cons, List.map_nil] at hslots
  rw [hslots]
  simp [Decoder.Slots.required, Decoder.Slots.find?, hinfo, hpoints]

theorem ExportTree.decoder_tree (hlevel : 5 < level) {t : ExportTree} (h : t.Fits)
    (hplain : t.Plain) : ExportTree.decoder level t.toJson.tree = some t := by
  have hslots := Decoder.slots_tree (by omega : 1 < level)
    [("schema_version", .int t.header.schemaVersion), ("start_time", .int t.header.startMs),
      ("duration_ms", .int t.header.durationMs), ("report_type", .str t.header.reportType),
      ("producer", t.header.producer.toJson), ("rollups", .arr (t.rollups.map (·.toJson)))]
    (by simp)
  have hversion : Decoder.nat32 (level - 1) (Json.int t.header.schemaVersion).tree =
      some t.header.schemaVersion := Decoder.natBelow_tree _ (by decide) h.schemaVersion
  have hstart : Decoder.int64 (level - 1) (Json.int t.header.startMs).tree =
      some t.header.startMs := Decoder.int64_tree _ h.startMs
  have hduration : Decoder.int64 (level - 1) (Json.int t.header.durationMs).tree =
      some t.header.durationMs := Decoder.int64_tree _ h.durationMs
  have hproducer := Producer.decoder_tree (by omega : 1 < level - 1) t.header.producer
  have hrollups : Decoder.list Rollup.decoder (level - 1)
      (Json.arr (t.rollups.map (·.toJson))).tree = some t.rollups :=
    Decoder.list_tree (by omega) fun r hr =>
      Rollup.decoder_tree (by omega) (h.timeMs r hr) (hplain r hr)
  unfold ExportTree.decoder ExportTree.toJson
  simp only [List.map_cons, List.map_nil] at hslots
  simp only [hslots]
  simp [Decoder.Slots.required, Decoder.Slots.find?, Decoder.string_tree, hversion, hstart,
    hduration, hproducer, hrollups]

theorem Rollup.floatless {r : Rollup} (h : ∀ p ∈ r.points, p.value.IsPlain) :
    r.toJson.Floatless := by
  have hinfo : r.info.toJson.Floatless :=
    .obj (by simp [Json.Floatless.str, Json.Floatless.bool])
  have hpoints : (Json.arr (r.points.map (·.toJson))).Floatless := by
    refine .arr fun v hv => ?_
    obtain ⟨p, hp, rfl⟩ := List.mem_map.1 hv
    exact .obj (by simp [Json.Floatless.int, (h p hp).floatless])
  exact .obj (by simp [hinfo, hpoints])

theorem ExportTree.floatless {t : ExportTree} (h : t.Plain) : t.toJson.Floatless := by
  have hproducer : t.header.producer.toJson.Floatless := .obj (by simp [Json.Floatless.str])
  have hrollups : (Json.arr (t.rollups.map (·.toJson))).Floatless := by
    refine .arr fun v hv => ?_
    obtain ⟨r, hr, rfl⟩ := List.mem_map.1 hv
    exact Rollup.floatless (h r hr)
  exact .obj (by simp [Json.Floatless.int, Json.Floatless.str, hproducer, hrollups])

end

/-! ### Texts -/

/-- **Samples, reports and exports come back from their compact texts.** -/
theorem texts_decode :
    (∀ s : MetricSample, s.Fits → s.value.NoNumber →
      Json.decode MetricSample.decoder s.toJson.compact = some s) ∧
    (∀ r : MetricReport, r.Fits → r.metrics.Plain → r.internalMetrics.Plain →
      Json.decode MetricReport.decoder r.toJson.compact = some r) ∧
    (∀ t : ExportTree, t.Fits → t.Plain →
      Json.decode ExportTree.decoder t.toJson.compact = some t) := by
  refine ⟨fun s hs hvalue => ?_, fun r hr hmetrics hinternal => ?_, fun t ht hplain => ?_⟩
  · rw [Json.decode_compact _ (MetricSample.floatless hvalue)]
    exact MetricSample.decoder_tree (by decide) hs hvalue
  · rw [Json.decode_compact _ (MetricReport.floatless hmetrics hinternal)]
    exact MetricReport.decoder_tree (by decide) hr hmetrics hinternal
  · rw [Json.decode_compact _ (ExportTree.floatless hplain)]
    exact ExportTree.decoder_tree (by decide) ht hplain

/-- Escapes, fields that are left out and ones that are not, and the greatest number of 64 bits. -/
theorem texts_decode_escaped :
    let s : MetricSample :=
      { MetricSample.of "\"q\"\n" (-5) (.string "é\x01\\") with
        reportKind := .session, sessionName := some "s",
        aggregations := [.numeric .latest, .state .latest] }
    let r : MetricReport :=
      { MetricReport.empty .daily none ⟨3, 9⟩ (some "1.0") with
        metrics := KeyMap.ofList [("b", .int 18446744073709551615), ("a", .null)] }
    let t : ExportTree := ⟨⟨2, 3, 6, "Heartbeat", "1.0", "p"⟩,
      [⟨⟨"a", "property", "boolean", true⟩, [⟨3, .bool true⟩, ⟨5, .str "0"⟩]⟩]⟩
    (s.Fits ∧ s.value.NoNumber) ∧ (r.Fits ∧ r.metrics.Plain ∧ r.internalMetrics.Plain) ∧
      (t.Fits ∧ t.Plain) ∧
      Json.decode MetricSample.decoder s.toJson.compact = some s ∧
      Json.decode MetricReport.decoder r.toJson.compact = some r ∧
      Json.decode ExportTree.decoder t.toJson.compact = some t := by
  intro s r t
  have hs : s.Fits := ⟨by decide, by decide⟩
  have hvalue : s.value.NoNumber := fun x h => by cases h
  have hr : r.Fits := ⟨by decide, by decide, by decide⟩
  have hentries : r.metrics.entries = [("a", .null), ("b", .int 18446744073709551615)] := rfl
  have hmetrics : r.metrics.Plain := by
    intro e he
    rw [hentries] at he
    simp only [List.mem_cons, List.not_mem_nil, or_false] at he
    rcases he with rfl | rfl
    · exact .null
    · exact .int (by decide) (by decide)
  have hinternal : r.internalMetrics.Plain := fun e he => by cases he
  have ht : t.Fits := ⟨by decide, by decide, by decide, by decide⟩
  have hplain : t.Plain := by
    simp only [ExportTree.Plain, t, List.forall_mem_cons, List.not_mem_nil, false_implies,
      implies_true, and_true]
    exact ⟨.bool true, .str "0"⟩
  exact ⟨⟨hs, hvalue⟩, ⟨hr, hmetrics, hinternal⟩, ⟨ht, hplain⟩, texts_decode.1 s hs hvalue,
    texts_decode.2.1 r hr hmetrics hinternal, texts_decode.2.2 t ht hplain⟩

end Telemetry
