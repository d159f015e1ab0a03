import Telemetry.Proofs.JsonTexts
import Telemetry.Settings.Basic

/-!
# Settings come back from their text

Decoding the tree of what is encoded gives it back: for integers that fit their type, for strings and
lists of them, and for structures, whose fields are found by their names.  So settings written as
indented text are decoded as they were, and what is decoded always fits.
-/

namespace Telemetry

namespace Json.Decoder

variable {α : Type}

theorem intBetween_tree {low high n : Int} (level : Nat) (hlow : low ≤ n) (hhigh : n ≤ high)
    (hmin : Int64.minValue.toInt ≤ n) (hmax : n < UInt64.size) :
    intBetween low high level (Json.int n).tree = some n := by
  rw [Json.tree, intBetween, Decimal.Numeral.integer?_ofInt hmin hmax]
  simp [Option.filter, hlow, hhigh]

theorem int64_tree {n : Int} (level : Nat) (h : fitsInt64 n = true) :
    int64 level (Json.int n).tree = some n := by
  rw [fitsInt64, Bool.and_eq_true, decide_eq_true_eq, decide_eq_true_eq] at h
  have hmax : Int64.maxValue.toInt < UInt64.size := by decide
  exact intBetween_tree level h.1 h.2 h.1 (by omega)

theorem natBelow_tree {bound n : Nat} (level : Nat) (hbound : bound ≤ UInt64.size) (h : n < bound) :
    natBelow bound level (Json.int n).tree = some n := by
  have hmin : Int64.minValue.toInt ≤ 0 := by decide
  rw [natBelow, intBetween_tree level (by omega) (by omega) (by omega) (by omega)]
  rfl

theorem string_tree (level : Nat) (s : String) : string level (Json.str s).tree = some s := by
  rw [Json.tree, string, join_pieces, Option.map_some, String.ofList_toList]

/-- A list comes back if each of its items does. -/
theorem list_tree {level : Nat} (hlevel : 1 < level) {decoder : Decoder α} {f : α → Json}
    {xs : List α} (h : ∀ x ∈ xs, decoder (level - 1) (f x).tree = some x) :
    list decoder level (Json.arr (xs.map f)).tree = some xs := by
  have hitems : (trees (xs.map f)).mapM (decoder (level - 1)) = some xs := by
    induction xs with
    | nil => rfl
    | cons x xs ih =>
      obtain ⟨hx, hxs⟩ := List.forall_mem_cons.1 h
      rw [List.map_cons, trees, List.mapM_cons, hx, ih hxs]
      rfl
  rw [Json.tree, list, descend, if_neg (by omega)]
  exact hitems

theorem strings_tree {level : Nat} (hlevel : 1 < level) (xs : List String) :
    list string level (Json.strings xs).tree = some xs :=
  list_tree hlevel fun x _ => string_tree (level - 1) x

/-! ### Structures -/

theorem names_fieldTrees (fields : List (String × Json)) :
    (fieldTrees fields).mapM
        (fun f => (Piece.join? f.1).map fun k => (String.ofList k, f.2)) =
      some (fields.map fun f => (f.1, f.2.tree)) := by
  induction fields with
  | nil => rfl
  | cons f fields ih =>
    obtain ⟨k, v⟩ := f
    rw [fieldTrees, List.mapM_cons, ih, join_pieces]
    simp

/-- A structure that is written with some of its fields has these given. -/
theorem slots_some {level : Nat} (hlevel : 1 < level) {names : List String}
    (fields : List (String × Json)) (hnames : ∀ f ∈ fields, f.1 ∈ names)
    (hnodup : (fields.map (·.1)).Nodup) :
    slots names level (Json.obj fields).tree =
      some ⟨level - 1, fields.map fun f => (f.1, f.2.tree)⟩ := by
  have hknown : (fields.map fun f => (f.1, f.2.tree)).filter (fun f => names.contains f.1) =
      fields.map fun f => (f.1, f.2.tree) := by
    rw [List.filter_eq_self]
    intro f hf
    obtain ⟨g, hg, rfl⟩ := List.mem_map.1 hf
    exact List.contains_iff_mem.2 (hnames g hg)
  rw [Json.tree, slots, descend, if_neg (by omega)]
  simp only [Option.bind_eq_bind, Option.bind_some, names_fieldTrees, hknown]
  rw [if_pos (by simpa [List.map_map, Function.comp_def] using hnodup)]

/-- A structure that is written with all its fields has them all given. -/
theorem slots_tree {level : Nat} (hlevel : 1 < level) (fields : List (String × Json))
    (hnodup : (fields.map (·.1)).Nodup) :
    slots (fields.map (·.1)) level (Json.obj fields).tree =
      some ⟨level - 1, fields.map fun f => (f.1, f.2.tree)⟩ :=
  slots_some hlevel fields (fun _ hf => List.mem_map_of_mem hf) hnodup

end Json.Decoder

open Json (Decoder)

/-! ### Settings -/

/-- Every number among the settings is one of its machine type. -/
structure Settings.Fits (s : Settings) : Prop where
  pageSize : s.paging.pageSize < UInt64.size
  bufferSize : s.paging.bufferSize < UInt64.size
  schemaVersion : s.exports.schemaVersion < UInt32.size
  carryOverMaxAge : fitsInt64 s.retention.carryOverMaxAge = true
  accumulatorRetention : fitsInt64 s.retention.accumulatorRetention = true
  orphanReportExpiry : fitsInt64 s.retention.orphanReportExpiry = true
  sessionExpiry : fitsInt64 s.retention.sessionExpiry = true
  dailySpan : fitsInt64 s.retention.dailySpan = true

section

variable {level : Nat}

theorem PagingSettings.decoder_tree (hlevel : 1 < level) {s : PagingSettings}
    (hpage : s.pageSize < UInt64.size) (hbuffer : s.bufferSize < UInt64.size) :
    PagingSettings.decoder level s.toJson.tree = some s := by
  have hslots := Decoder.slots_tree hlevel
    [("page_size", .int s.pageSize), ("buffer_size", .int s.bufferSize)] (by simp)
  unfold PagingSettings.decoder PagingSettings.toJson
  simp only [List.map_cons, List.map_nil] at hslots
  rw [hslots]
  simp [Decoder.Slots.defaulting, Decoder.Slots.find?, Decoder.nat64, Decoder.natBelow_tree, hpage,
    hbuffer]

theorem RetentionSettings.decoder_tree (hlevel : 1 < level) {s : RetentionSettings}
    (hcarry : fitsInt64 s.carryOverMaxAge = true)
    (haccumulator : fitsInt64 s.accumulatorRetention = true)
    (horphan : fitsInt64 s.orphanReportExpiry = true)
    (hsession : fitsInt64 s.sessionExpiry = true) (hdaily : fitsInt64 s.dailySpan = true) :
    RetentionSettings.decoder level s.toJson.tree = some s := by
  have hslots := Decoder.slots_tree hlevel
    [("carry_over_max_age_ms", .int s.carryOverMaxAge),
      ("accumulator_retention_ms", .int s.accumulatorRetention),
      ("orphan_report_expiry_ms", .int s.orphanReportExpiry),
      ("session_expiry_ms", .int s.sessionExpiry), ("daily_span_ms", .int s.dailySpan)] (by simp)
  unfold RetentionSettings.decoder RetentionSettings.toJson
  simp only [List.map_cons, List.map_nil] at hslots
  simp only [hslots]
  simp [Decoder.Slots.defaulting, Decoder.Slots.find?, Decoder.int64_tree _ hcarry,
    Decoder.int64_tree _ haccumulator, Decoder.int64_tree _ horphan, Decoder.int64_tree _ hsession,
    Decoder.int64_tree _ hdaily]

theorem ExportSettings.decoder_tree (hlevel : 1 < level) {s : ExportSettings}
    (hversion : s.schemaVersion < UInt32.size) :
    ExportSettings.decoder level s.toJson.tree = some s := by
  have hslots := Decoder.slots_tree hlevel
    [("schema_version", .int s.schemaVersion), ("producer_id", .str s.producerId),
      ("producer_version", .str s.producerVersion)] (by simp)
  have hfits : UInt32.size ≤ UInt64.size := by decide
  unfold ExportSettings.decoder ExportSettings.toJson
  simp only [List.map_cons, List.map_nil] at hslots
  rw [hslots]
  simp [Decoder.Slots.defaulting, Decoder.Slots.find?, Decoder.nat32, Decoder.natBelow_tree, hfits,
    hversion, Decoder.string_tree]

theorem Settings.decoder_tree (hlevel : 2 < level) {s : Settings} (h : s.Fits) :
    Settings.decoder level s.toJson.tree = some s := by
  have hlevel' : 1 < level := by omega
  have hinner : 1 < level - 1 := by omega
  have hslots := Decoder.slots_tree hlevel'
    [("cursor", s.paging.toJson), ("retention", s.retention.toJson),
      ("export", s.exports.toJson), ("daily_heartbeat_enabled", .bool s.dailyEnabled),
      ("session_daily_metrics", Json.strings s.sessionDailyMetrics)] (by simp)
  have hpaging := PagingSettings.decoder_tree hinner h.pageSize h.bufferSize
  have hretention := RetentionSettings.decoder_tree hinner
    h.carryOverMaxAge h.accumulatorRetention h.orphanReportExpiry h.sessionExpiry h.dailySpan
  have hexports := ExportSettings.decoder_tree hinner h.schemaVersion
  have hbool : Decoder.bool (level - 1) (Json.bool s.dailyEnabled).tree = some s.dailyEnabled := rfl
  have hnames := Decoder.strings_tree hinner s.sessionDailyMetrics
  unfold Settings.decoder Settings.toJson
  simp only [List.map_cons, List.map_nil] at hslots
  simp only [hslots]
  simp [Decoder.Slots.defaulting, Decoder.Slots.find?, hpaging, hretention, hexports, hbool, hnames]

end

theorem Settings.floatless (s : Settings) : s.toJson.Floatless := by
  have hnames : (Json.strings s.sessionDailyMetrics).Floatless := by
    refine .arr fun v hv => ?_
    obtain ⟨name, -, rfl⟩ := List.mem_map.1 hv
    exact .str name
  have hpaging : s.paging.toJson.Floatless := .obj (by simp [Json.Floatless.int])
  have hretention : s.retention.toJson.Floatless := .obj (by simp [Json.Floatless.int])
  have hexports : s.exports.toJson.Floatless :=
    .obj (by simp [Json.Floatless.int, Json.Floatless.str])
  exact .obj (by simp [hpaging, hretention, hexports, hnames, Json.Floatless.bool])

/-- Settings come back from the text that they are kept in. -/
theorem Settings.decode_pretty {s : Settings} (h : s.Fits) :
    Json.decode Settings.decoder s.toJson.pretty = some s := by
  rw [Json.decode_pretty _ s.floatless]
  exact Settings.decoder_tree (by decide) h

end Telemetry
