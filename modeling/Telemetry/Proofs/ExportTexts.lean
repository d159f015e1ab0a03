import Telemetry.Export.Writer

/-!
# An export is one JSON text

The writer puts the text of an export together piece by piece.  What it has written, once it is
finished, is the compact text of the whole tree, with the rollups that have points, none of which is
from before the start of the report.  Where the commas go is the one thing to show: the first rollup
that is written has none before it, and neither has the first point of a rollup.
-/

namespace Telemetry

/-! ### Lists in JSON texts -/

namespace Json

/-- Items with commas before them. -/
def led (xs : List Json) : List Char := xs.flatMap fun x => ',' :: x.chars

theorem led_cons (x : Json) (xs : List Json) : led (x :: xs) = ',' :: x.chars ++ led xs :=
  List.flatMap_cons

/-- Items with commas between them. -/
def separated : List Json → List Char
  | [] => []
  | x :: xs => x.chars ++ led xs

theorem itemsChars_eq (xs : List Json) : itemsChars xs = led xs ++ [']'] := by
  induction xs with
  | nil => rfl
  | cons x xs ih =>
    rw [itemsChars, ih, led_cons, List.append_assoc]

theorem chars_arr (xs : List Json) : chars (.arr xs) = '[' :: separated xs ++ [']'] := by
  cases xs with
  | nil => rfl
  | cons x xs =>
    rw [chars, itemsChars_eq, separated, List.cons_append, List.cons_append, List.append_assoc]

end Json

/-! ### Rollups -/

/-- A rollup with no point from before a time. -/
def Rollup.since (startMs : Int) (r : Rollup) : Rollup :=
  { r with points := r.points.map fun p => { p with timeMs := max p.timeMs startMs } }

theorem Rollup.chars_toJson (r : Rollup) :
    r.toJson.chars = "\x7b\"metadata\":".toList ++ r.info.toJson.chars ++ ",\"data\":[".toList ++
      (Json.separated (r.points.map (·.toJson)) ++ [']', '\x7d']) := by
  have hmetadata : "\x7b\"metadata\":".toList = '\x7b' :: Json.stringChars "metadata" ++ [':'] := by
    decide
  have hdata : ",\"data\":[".toList = ',' :: Json.stringChars "data" ++ [':', '['] := by decide
  rw [hmetadata, hdata, toJson, Json.chars, Json.fieldsChars, Json.fieldsChars, Json.chars_arr]
  simp only [List.append_assoc, List.cons_append, List.nil_append]

namespace ExportWriter

theorem append_append (w : ExportWriter) (cs ds : List Char) :
    (w.append cs).append ds = w.append (cs ++ ds) := by
  unfold append
  rw [String.ofList_append, String.append_assoc]

theorem append_nil (w : ExportWriter) : w.append [] = w := by
  unfold append
  rw [String.ofList_nil, String.append_empty]

/-- Points after the first one of their rollup. -/
theorem writePoints_append (info : RollupInfo) (points : List DataPoint) :
    ∀ (w : ExportWriter) (count : Nat), 0 < count →
      writePoints info w count (points.map .ok) =
        (w.append (Json.led ((points.map w.clampPoint).map (·.toJson))),
          .ok (count + points.length)) := by
  induction points with
  | nil =>
    intro w count _
    rw [List.map_nil, List.map_nil, List.map_nil, Json.led, List.flatMap_nil, append_nil]
    rfl
  | cons p points ih =>
    intro w count hcount
    rw [List.map_cons, writePoints, if_neg (Nat.ne_of_gt hcount), ih _ _ (Nat.succ_pos count),
      append_append, List.length_cons]
    have hclamp : (w.append ([','] ++ (w.clampPoint p).toJson.chars)).clampPoint = w.clampPoint := rfl
    rw [hclamp, List.map_cons, List.map_cons, Json.led_cons]
    congr 2
    omega

/-- What comes before a rollup: a comma, unless it is the first. -/
def lead (w : ExportWriter) : List Char := if 0 < w.rollups then [','] else []

/-- A rollup without points leaves no trace. -/
theorem writeRollup_nil (w : ExportWriter) (info : RollupInfo) :
    w.writeRollup info [] = (w, .ok false) := rfl

/-- A rollup with points is written as its text is, with a comma before it unless it is the first. -/
theorem writeRollup_cons (w : ExportWriter) (r : Rollup) (hr : r.points ≠ []) :
    w.writeRollup r.info (r.points.map .ok) =
      ({ w.append (w.lead ++ (r.since w.startMs).toJson.chars) with rollups := w.rollups + 1 },
        .ok true) := by
  obtain ⟨info, points⟩ := r
  obtain ⟨p, points, rfl⟩ := List.exists_cons_of_ne_nil hr
  have htext : w.openRollup info ++ (w.clampPoint p).toJson.chars ++
      Json.led ((points.map w.clampPoint).map (·.toJson)) ++ [']', '\x7d'] =
      w.lead ++ (Rollup.since w.startMs ⟨info, p :: points⟩).toJson.chars := by
    rw [Rollup.chars_toJson, openRollup, lead, Rollup.since]
    simp only [List.map_cons, Json.separated, List.append_assoc]
    rfl
  unfold writeRollup
  rw [← htext, ← append_append, List.map_cons, writePoints, if_pos rfl,
    writePoints_append _ _ _ _ (Nat.succ_pos 0), append_append, Nat.add_comm]
  rfl

/-- Writes rollups one after the other. -/
def writeRollups (w : ExportWriter) (rs : List Rollup) : ExportWriter :=
  rs.foldl (fun w r => (w.writeRollup r.info (r.points.map .ok)).1) w

theorem writeRollups_cons (w : ExportWriter) (r : Rollup) (rs : List Rollup) :
    w.writeRollups (r :: rs) = (w.writeRollup r.info (r.points.map .ok)).1.writeRollups rs := rfl

end ExportWriter

/-- The rollups that are written: those with points, from the start of the report on. -/
def Rollup.written (startMs : Int) (rs : List Rollup) : List Rollup :=
  (rs.filter fun r => !r.points.isEmpty).map (Rollup.since startMs)

/-- The text grows by the rollups that are written, with a comma before the first one where there
are some already. -/
theorem ExportWriter.writeRollups_written (rs : List Rollup) :
    ∀ w : ExportWriter, (w.writeRollups rs).written = w.written ++ String.ofList
      (if 0 < w.rollups then Json.led ((Rollup.written w.startMs rs).map (·.toJson))
        else Json.separated ((Rollup.written w.startMs rs).map (·.toJson))) := by
  induction rs with
  | nil =>
    intro w
    have hnone : (if 0 < w.rollups then Json.led [] else Json.separated []) = [] := ite_self []
    exact ((congrArg (w.written ++ String.ofList ·) hnone).trans String.append_empty).symm
  | cons r rs ih =>
    intro w
    by_cases hr : r.points = []
    · have hskip : Rollup.written w.startMs (r :: rs) = Rollup.written w.startMs rs := by
        rw [Rollup.written, List.filter_cons_of_neg (by simp [hr]), Rollup.written]
      rw [hskip, writeRollups_cons, hr, List.map_nil, writeRollup_nil, ih]
    · have hkeep : Rollup.written w.startMs (r :: rs) =
          r.since w.startMs :: Rollup.written w.startMs rs := by
        rw [Rollup.written, List.filter_cons_of_pos (by simp [hr]), List.map_cons, Rollup.written]
      rw [hkeep, writeRollups_cons, writeRollup_cons w r hr, ih, if_pos (Nat.succ_pos _), append,
        String.append_assoc, ← String.ofList_append, List.map_cons, lead]
      split
      · rw [Json.led_cons, List.append_assoc]
        rfl
      · rfl

/-! ### The tree -/

theorem ExportTree.chars_toJson (t : ExportTree) :
    t.toJson.chars = ExportWriter.headerChars t.header ++
      (Json.separated (t.rollups.map (·.toJson)) ++ [']', '\x7d']) := by
  have hversion : "\x7b\"schema_version\":".toList =
      '\x7b' :: Json.stringChars "schema_version" ++ [':'] := by decide
  have hstart : ",\"start_time\":".toList = ',' :: Json.stringChars "start_time" ++ [':'] := by decide
  have hduration : ",\"duration_ms\":".toList = ',' :: Json.stringChars "duration_ms" ++ [':'] := by
    decide
  have htype : ",\"report_type\":".toList = ',' :: Json.stringChars "report_type" ++ [':'] := by
    decide
  have hproducer : ",\"producer\":".toList = ',' :: Json.stringChars "producer" ++ [':'] := by decide
  have hrollups : ",\"rollups\":[".toList = ',' :: Json.stringChars "rollups" ++ [':', '['] := by
    decide
  unfold ExportWriter.headerChars ExportTree.toJson
  rw [hversion, hstart, hduration, htype, hproducer, hrollups]
  rw [Json.chars, Json.fieldsChars, Json.fieldsChars, Json.fieldsChars, Json.fieldsChars,
    Json.fieldsChars, Json.fieldsChars, Json.chars_arr, Json.chars, Json.chars, Json.chars, Json.chars]
  simp only [List.append_assoc, List.cons_append, List.nil_append]

/-- The text that is written is that of the tree. -/
theorem ExportWriter.finish_writeRollups (h : ExportHeader) (rs : List Rollup) :
    ((start h).writeRollups rs).finish =
      (ExportTree.mk h (Rollup.written h.startMs rs)).toJson.compact := by
  rw [finish, writeRollups_written, Json.compact, ExportTree.chars_toJson, String.ofList_append,
    String.ofList_append, String.append_assoc]
  rfl

/-! ### Whole exports -/

namespace ExportWriter

/-- Writes rollups one after the other, all of whose points can be had; the second result is what was
told of each. -/
def writeAll (w : ExportWriter) : List Rollup → ExportWriter × List (Except Failure Bool)
  | [] => (w, [])
  | r :: rs =>
    let (w, told) := w.writeRollup r.info (r.points.map .ok)
    let (w, rest) := w.writeAll rs
    (w, told :: rest)

/-- What is told of a rollup does not depend on those before it. -/
theorem writeRollup_told (w : ExportWriter) (r : Rollup) :
    (w.writeRollup r.info (r.points.map .ok)).2 = .ok (!r.points.isEmpty) := by
  by_cases hr : r.points = []
  · rw [hr, List.map_nil, writeRollup_nil]
    rfl
  · rw [writeRollup_cons w r hr, List.isEmpty_eq_false_iff.2 hr]
    rfl

theorem writeAll_eq (rs : List Rollup) :
    ∀ w : ExportWriter,
      w.writeAll rs = (w.writeRollups rs, rs.map fun r => .ok (!r.points.isEmpty)) := by
  induction rs with
  | nil => exact fun w => rfl
  | cons r rs ih =>
    intro w
    rw [writeRollups_cons, List.map_cons, ← writeRollup_told w r, writeAll]
    simp only [ih]

/-- What is written rollup by rollup is the text of one tree: it has the rollups that have points, in
order, with no point from before the start.  Exactly these are told to have been written. -/
theorem writes_tree (h : ExportHeader) (rs : List Rollup) :
    ((start h).writeAll rs).1.finish =
        (ExportTree.mk h (Rollup.written h.startMs rs)).toJson.compact ∧
      ((start h).writeAll rs).2 = rs.map fun r => .ok (!r.points.isEmpty) := by
  rw [writeAll_eq]
  exact ⟨finish_writeRollups h rs, rfl⟩

end ExportWriter

end Telemetry
