import Mathlib.Data.List.DropRight
import Telemetry.Json.Decoder
import Telemetry.Json.Printer

/-!
# What is written can be read

The reader takes the text of a value off the front of what it is given, whatever follows, and makes
the tree of that value of it.  So the text of a value alone is read as its tree, and a decoder of
that tree decodes the text.

Floating numbers are left out: their texts are read as numerals, but which ones is another matter.
Everything else is here: integers of any size, and strings of any characters, those included that
are written by escapes.
-/

namespace Telemetry

/-! ### Digits -/

namespace Decimal

theorem digitsValue_digitChars (n : Nat) : digitsValue (digitChars n) = n :=
  Nat.ofDigitChars_toDigits (by decide) (by decide)

theorem isDigit_of_mem_digitChars {n : Nat} {c : Char} (h : c ∈ digitChars n) : c.isDigit = true :=
  Nat.isDigit_of_mem_toDigits (by decide) (by decide) h

/-- Only zero begins with zero. -/
theorem head_digitChars (n : Nat) : 0 < n → (digitChars n).head? ≠ some '0' := by
  induction n using Nat.strongRecOn with
  | ind n ih =>
    intro hpos
    unfold digitChars at *
    by_cases hten : n < 10
    · have hdigits : ∀ d : Fin 10, 0 < d.val → Nat.digitChar d ≠ '0' := by decide
      rw [Nat.toDigits_of_lt_base hten, List.head?_cons]
      exact fun h => hdigits ⟨n, hten⟩ hpos (Option.some.inj h)
    · rw [Nat.toDigits_of_base_le (by decide) (by omega),
        List.head?_append_of_ne_nil _ Nat.toDigits_ne_nil]
      exact ih (n / 10) (by omega) (by omega)

/-- No number of several digits begins with zero. -/
theorem not_padded (n : Nat) :
    ((digitChars n).head? == some '0' && decide (1 < (digitChars n).length)) = false := by
  by_cases hten : n < 10
  · simp [digitChars, Nat.toDigits_of_lt_base hten]
  · simp [head_digitChars n (by omega)]

/-- An integer as a numeral. -/
def Numeral.ofInt (n : Int) : Numeral := ⟨decide (n < 0), digitChars n.natAbs, none, none⟩

theorem Numeral.integer?_ofInt {n : Int} (hlow : Int64.minValue.toInt ≤ n)
    (hhigh : n < UInt64.size) : (Numeral.ofInt n).integer? = some n := by
  unfold Numeral.integer? Numeral.ofInt
  simp only [digitsValue_digitChars]
  by_cases hneg : n < 0
  · have habs : -(n.natAbs : Int) = n := by omega
    have hpos : 0 < n.natAbs := by omega
    rw [habs, decide_eq_true hneg, decide_eq_true hpos, decide_eq_true hlow]
    rfl
  · have habs : (n.natAbs : Int) = n := by omega
    have hfits : n.natAbs < UInt64.size := by omega
    rw [habs, decide_eq_false hneg, if_pos hfits]
    rfl

end Decimal

namespace Json

open Decimal

/-! ### Strings -/

/-- How a character stands in a string: by its number if it is a control character without a letter
of its own. -/
def pieceOf (c : Char) : Piece :=
  if c.toNat < 32 ∧ c ∉ ['\x08', '\t', '\n', '\x0c', '\r'] then .unit c.toNat else .plain c

def pieces (s : String) : List Piece := s.toList.map pieceOf

theorem hexValue_hexDigit (n : Nat) : hexValue? (hexDigit n) = some (n % 16) := by
  have hall : ∀ d : Fin 16, hexValue? ((Nat.toDigits 16 d).headD '0') = some d.val := by decide
  exact hall ⟨n % 16, Nat.mod_lt n (by decide)⟩

theorem join_pieceOf (c : Char) (rest : List Piece) :
    Piece.join? (pieceOf c :: rest) = (Piece.join? rest).map (c :: ·) := by
  unfold pieceOf
  split
  · next hcontrol =>
    have hsmall : c.toNat < 0xD800 := by omega
    rw [Piece.join?.eq_def]
    simp [hsmall, Char.ofNat_toNat]
  · rfl

theorem join_pieces (s : String) : Piece.join? (pieces s) = some s.toList := by
  unfold pieces
  induction s.toList with
  | nil => rfl
  | cons c cs ih => rw [List.map_cons, join_pieceOf, ih, Option.map_some]

/-- The characters with an escape of one letter. -/
def lettered : List Char := ['"', '\\', '\x08', '\t', '\n', '\x0c', '\r']

theorem escapeChar_lettered {c : Char} (h : c ∈ lettered) :
    ∃ e, e ≠ 'u' ∧ escapeChar c = ['\\', e] ∧ shortEscape? e = some (pieceOf c) := by
  have hall : lettered.all (fun c => decide ((escapeChar c).getLast? ≠ some 'u' ∧
      escapeChar c = ['\\', (escapeChar c).getLastD 'u'] ∧
      shortEscape? ((escapeChar c).getLastD 'u') = some (pieceOf c))) = true := by decide
  obtain ⟨hne, hescape, hshort⟩ := of_decide_eq_true (List.all_eq_true.1 hall c h)
  refine ⟨_, fun hu => hne ?_, hescape, hshort⟩
  rw [hescape, hu]
  rfl

theorem escapeChar_other {c : Char} (h : c ∉ lettered) :
    escapeChar c =
      if c.toNat < 32 then ['\\', 'u', '0', '0', hexDigit (c.toNat / 16), hexDigit c.toNat]
      else [c] := by
  simp only [lettered, List.mem_cons, List.not_mem_nil, or_false, not_or] at h
  simp [escapeChar, h]

theorem readString_escapeChar (c : Char) (after : List Char) :
    readString (escapeChar c ++ after) =
      (readString after).map fun r => (pieceOf c :: r.1, r.2) := by
  by_cases hlettered : c ∈ lettered
  · obtain ⟨e, hne, hescape, hshort⟩ := escapeChar_lettered hlettered
    rw [hescape, List.cons_append, List.cons_append, List.nil_append, readString.eq_def]
    cases hafter : readString after <;> simp [hne, hshort, hafter]
  · have hother := hlettered
    simp only [lettered, List.mem_cons, List.not_mem_nil, or_false, not_or] at hother
    rw [escapeChar_other hlettered]
    split
    · next hcontrol =>
      have hzero : hexValue? '0' = some 0 := by decide
      have hnumber : c.toNat / 16 % 16 * 16 + c.toNat % 16 = c.toNat := by omega
      rw [readString.eq_def]
      cases hafter : readString after <;>
        simp [hzero, hexValue_hexDigit, hnumber, pieceOf, hcontrol, hother, hafter]
    · next hcontrol =>
      rw [List.cons_append, List.nil_append, readString]
      · cases hafter : readString after <;> simp [hcontrol, hother, pieceOf]
      · exact fun h => hother.1 h
      · exact fun _ _ _ _ _ h => absurd h hother.2.1
      · exact fun _ _ h => absurd h hother.2.1

/-- A string is read up to its closing quote. -/
theorem readString_escaped (cs rest : List Char) :
    readString (cs.flatMap escapeChar ++ '"' :: rest) = some (cs.map pieceOf, rest) := by
  induction cs with
  | nil => simp [readString]
  | cons c cs ih =>
    rw [List.flatMap_cons, List.append_assoc, readString_escapeChar, ih]
    rfl

/-! ### Blanks -/

theorem skipBlanks_append {blanks : List Char} (h : ∀ c ∈ blanks, isBlank c = true)
    (cs : List Char) : skipBlanks (blanks ++ cs) = skipBlanks cs :=
  List.dropWhile_append_of_pos h

theorem skipBlanks_skipBlanks (cs : List Char) : skipBlanks (skipBlanks cs) = skipBlanks cs := by
  exact List.dropWhile_idempotent isBlank cs

theorem skipBlanks_cons {c : Char} (h : isBlank c = false) (cs : List Char) :
    skipBlanks (c :: cs) = c :: cs :=
  List.dropWhile_cons_of_neg (by rw [h]; decide)

theorem blank_newline (level : Nat) : ∀ c ∈ newline level, isBlank c = true := by
  intro c hc
  rcases List.mem_cons.1 hc with rfl | hc
  · rfl
  · rw [List.eq_of_mem_replicate hc]
    rfl

/-! ### Numerals -/

/-- Nothing that could belong to a numeral comes next. -/
def Stops (rest : List Char) : Prop :=
  ∀ c ∈ rest.head?, c.isDigit = false ∧ c ∉ ['.', 'e', 'E']

theorem stops_blanks {blanks rest : List Char} (h : ∀ c ∈ blanks, isBlank c = true)
    (hrest : Stops rest) : Stops (blanks ++ rest) := by
  cases blanks with
  | nil => exact hrest
  | cons b blanks =>
    have hb : b ∈ [' ', '\n', '\t', '\r'] := by simpa [isBlank, or_assoc] using h b List.mem_cons_self
    have hall : ∀ b ∈ [' ', '\n', '\t', '\r'], b.isDigit = false ∧ b ∉ ['.', 'e', 'E'] := by simp
    intro c hc
    obtain rfl : b = c := by simpa using hc
    exact hall b hb

theorem stops_cons {c : Char} (h : c ∈ [',', ']', '\x7d']) (rest : List Char) :
    Stops (c :: rest) := by
  have hall : ∀ b ∈ [',', ']', '\x7d'], b.isDigit = false ∧ b ∉ ['.', 'e', 'E'] := by simp
  intro b hb
  obtain rfl : c = b := by simpa using hb
  exact hall c h

theorem spanDigits_append {digits rest : List Char} (h : ∀ c ∈ digits, c.isDigit = true)
    (hrest : Stops rest) : spanDigits (digits ++ rest) = (digits, rest) := by
  unfold spanDigits
  rw [List.takeWhile_append_of_pos h, List.dropWhile_append_of_pos h]
  cases rest with
  | nil => simp
  | cons c rest => simp [(hrest c rfl).1]

theorem readNumeral_digitChars (negative : Bool) (n : Nat) {rest : List Char} (hrest : Stops rest) :
    readNumeral negative (digitChars n ++ rest) =
      some (⟨negative, digitChars n, none, none⟩, rest) := by
  have hnil : (digitChars n).isEmpty = false := by simp [digitChars]
  have hnot : ∀ c r, rest = c :: r → c ∉ ['.', 'e', 'E'] := by
    rintro c r rfl
    exact (hrest c rfl).2
  unfold readNumeral
  rw [spanDigits_append (fun c => isDigit_of_mem_digitChars) hrest]
  simp only [hnil, not_padded, Bool.or_self, Bool.false_eq_true, if_false]
  have hfraction : readFraction rest = some (none, rest) := by
    unfold readFraction
    split
    · next r => exact absurd (hnot '.' r rfl) (by decide)
    · rfl
  rw [hfraction]
  simp only [Option.bind_eq_bind, Option.bind_some]
  split
  · next r => exact absurd (hnot 'e' r rfl) (by decide)
  · next r => exact absurd (hnot 'E' r rfl) (by decide)
  · rfl

/-! ### Texts of trees -/

/-- The characters are taken off as a text of the tree, whatever follows them. -/
def Spells (cs : List Char) (t : Tree) : Prop :=
  ∀ fuel rest, cs.length < fuel → Stops rest → readValue fuel (cs ++ rest) = some (t, rest)

/-- The characters are taken off as items with their closing bracket. -/
def SpellsItems (cs : List Char) (ts : List Tree) : Prop :=
  ∀ fuel rest, cs.length < fuel → readItems fuel (cs ++ rest) = some (ts, rest)

/-- The characters are taken off as fields with their closing brace. -/
def SpellsFields (cs : List Char) (fs : List (List Piece × Tree)) : Prop :=
  ∀ fuel rest, cs.length < fuel → readFields fuel (cs ++ rest) = some (fs, rest)

theorem readValue_skip (fuel : Nat) (cs : List Char) :
    readValue fuel (skipBlanks cs) = readValue fuel cs := by
  cases fuel with
  | zero => rw [readValue, readValue]
  | succ fuel => rw [readValue, readValue, skipBlanks_skipBlanks]

theorem readItems_skip (fuel : Nat) (cs : List Char) :
    readItems fuel (skipBlanks cs) = readItems fuel cs := by
  cases fuel with
  | zero => rw [readItems, readItems]
  | succ fuel => rw [readItems, readItems, readValue_skip]

theorem readFields_skip (fuel : Nat) (cs : List Char) :
    readFields fuel (skipBlanks cs) = readFields fuel cs := by
  cases fuel with
  | zero => rw [readFields, readFields]
  | succ fuel => rw [readFields, readFields, skipBlanks_skipBlanks]

variable {cs gap : List Char} {t : Tree} {ts : List Tree} {fs : List (List Piece × Tree)}

/-- Whoever has fuel for all characters has some. -/
theorem Spells.of_succ (h : ∀ fuel rest, cs.length ≤ fuel → Stops rest →
    readValue (fuel + 1) (cs ++ rest) = some (t, rest)) : Spells cs t
  | 0, _, hfuel, _ => absurd hfuel (Nat.not_lt_zero _)
  | fuel + 1, rest, hfuel, hrest => h fuel rest (Nat.le_of_lt_succ hfuel) hrest

theorem SpellsItems.of_succ (h : ∀ fuel rest, cs.length ≤ fuel →
    readItems (fuel + 1) (cs ++ rest) = some (ts, rest)) : SpellsItems cs ts
  | 0, _, hfuel => absurd hfuel (Nat.not_lt_zero _)
  | fuel + 1, rest, hfuel => h fuel rest (Nat.le_of_lt_succ hfuel)

theorem SpellsFields.of_succ (h : ∀ fuel rest, cs.length ≤ fuel →
    readFields (fuel + 1) (cs ++ rest) = some (fs, rest)) : SpellsFields cs fs
  | 0, _, hfuel => absurd hfuel (Nat.not_lt_zero _)
  | fuel + 1, rest, hfuel => h fuel rest (Nat.le_of_lt_succ hfuel)

theorem Spells.after (hgap : ∀ c ∈ gap, isBlank c = true) (h : Spells cs t) :
    Spells (gap ++ cs) t := by
  intro fuel rest hfuel hrest
  rw [List.length_append] at hfuel
  rw [List.append_assoc, ← readValue_skip, skipBlanks_append hgap, readValue_skip]
  exact h fuel rest (by omega) hrest

theorem spells_null : Spells "null".toList .null :=
  .of_succ fun _ _ _ _ => rfl

theorem spells_true : Spells "true".toList (.bool true) :=
  .of_succ fun _ _ _ _ => rfl

theorem spells_false : Spells "false".toList (.bool false) :=
  .of_succ fun _ _ _ _ => rfl

theorem readValue_digit {c : Char} (hdigit : c.isDigit = true) (fuel : Nat) (cs : List Char) :
    readValue (fuel + 1) (c :: cs) =
      (readNumeral false (c :: cs)).map fun r => (.number r.1, r.2) := by
  have hnone : ∀ b ∈ [' ', '\n', '\t', '\r', 'n', 't', 'f', '"', '[', '\x7b', '-'], b ≠ c := by
    rintro b hb rfl
    have hall : ∀ b ∈ [' ', '\n', '\t', '\r', 'n', 't', 'f', '"', '[', '\x7b', '-'],
        b.isDigit = false := by simp
    rw [hall b hb] at hdigit
    cases hdigit
  have hblank : isBlank c = false := by
    simp only [List.forall_mem_cons] at hnone
    simp [isBlank, Ne.symm hnone.1, Ne.symm hnone.2.1, Ne.symm hnone.2.2.1, Ne.symm hnone.2.2.2.1]
  rw [readValue, skipBlanks_cons hblank]
  split
  iterate 7
    next heq => exact absurd (List.cons.inj heq).1.symm (hnone _ (by decide))
  cases readNumeral false (c :: cs) <;> rfl

theorem spells_int (n : Int) : Spells (intChars n) (.number (.ofInt n)) := by
  refine .of_succ fun fuel rest hfuel hrest => ?_
  unfold intChars
  by_cases hneg : n < 0
  · rw [if_pos hneg, List.cons_append, readValue, skipBlanks_cons (by decide)]
    simp only [readNumeral_digitChars true n.natAbs hrest]
    simp [Numeral.ofInt, hneg]
  · obtain ⟨c, digits, hdigits⟩ : ∃ c digits, digitChars n.natAbs = c :: digits :=
      List.exists_cons_of_ne_nil Nat.toDigits_ne_nil
    have hc : c.isDigit = true := by
      refine isDigit_of_mem_digitChars (n := n.natAbs) ?_
      rw [hdigits]
      exact List.mem_cons_self
    have hnumeral := readNumeral_digitChars false n.natAbs hrest
    rw [if_neg hneg]
    rw [hdigits, List.cons_append] at hnumeral ⊢
    rw [readValue_digit hc, hnumeral]
    simp [Numeral.ofInt, hneg, hdigits]

theorem spells_string (s : String) : Spells (stringChars s) (.text (pieces s)) := by
  refine .of_succ fun fuel rest hfuel hrest => ?_
  unfold stringChars
  rw [List.cons_append, List.cons_append, List.append_assoc, readValue,
    skipBlanks_cons (by decide)]
  simp [readString_escaped, pieces]

/-! ### Containers -/

/-- What begins with a closing bracket is no item. -/
theorem readItems_bracket {r : List Char} (h : skipBlanks cs = ']' :: r) (fuel : Nat) :
    readItems fuel cs = none := by
  cases fuel with
  | zero => rw [readItems]
  | succ fuel =>
    have hvalue : readValue fuel cs = none := by
      cases fuel with
      | zero => rw [readValue]
      | succ fuel =>
        rw [readValue, h]
        rfl
    rw [readItems, hvalue]
    rfl

/-- What begins with a closing brace is no field. -/
theorem readFields_brace {r : List Char} (h : skipBlanks cs = '\x7d' :: r) (fuel : Nat) :
    readFields fuel cs = none := by
  cases fuel with
  | zero => rw [readFields]
  | succ fuel =>
    rw [readFields, h]
    rfl

/-- After a gap stands what closes a container. -/
theorem skipBlanks_close (hgap : ∀ c ∈ gap, isBlank c = true) {c : Char} (hc : isBlank c = false)
    (rest : List Char) : skipBlanks (gap ++ c :: rest) = c :: rest := by
  rw [skipBlanks_append hgap, skipBlanks_cons hc]

theorem SpellsItems.last (hgap : ∀ c ∈ gap, isBlank c = true) (h : Spells cs t) :
    SpellsItems (cs ++ (gap ++ [']'])) [t] := by
  refine .of_succ fun fuel rest hfuel => ?_
  simp only [List.length_append, List.length_cons, List.length_nil] at hfuel
  have hitem := h fuel (gap ++ ']' :: rest) (by omega)
    (stops_blanks hgap (stops_cons (by decide) rest))
  simp only [List.append_assoc, List.cons_append, List.nil_append]
  rw [readItems, hitem]
  simp [skipBlanks_close hgap (c := ']') (by decide) rest]

theorem SpellsItems.cons (h : Spells cs t) {more : List Char} (hmore : SpellsItems more ts) :
    SpellsItems (cs ++ ',' :: more) (t :: ts) := by
  refine .of_succ fun fuel rest hfuel => ?_
  rw [List.length_append, List.length_cons] at hfuel
  have hitem := h fuel (',' :: (more ++ rest)) (by omega) (stops_cons (by decide) _)
  have hitems := hmore fuel rest (by omega)
  rw [List.append_assoc, List.cons_append, readItems, hitem]
  simp [skipBlanks_cons (c := ',') (by decide) (more ++ rest), hitems]

theorem spells_list (h : SpellsItems cs ts) : Spells ('[' :: cs) (.list ts) := by
  refine .of_succ fun fuel rest hfuel hrest => ?_
  have hitems := h fuel rest (by simp at hfuel; omega)
  rw [List.cons_append, readValue, skipBlanks_cons (by decide)]
  simp only
  split
  · next r hclose =>
    rw [readItems_bracket hclose] at hitems
    cases hitems
  · rw [readItems_skip, hitems]
    rfl

theorem spells_emptyList : Spells ['[', ']'] (.list []) :=
  .of_succ fun _ _ _ _ => rfl

/-- What begins a field: its name and the colon, with gaps before and between. -/
theorem readFields_name {before : List Char} (hbefore : ∀ c ∈ before, isBlank c = true)
    (key : String) (fuel : Nat) (after : List Char) :
    readFields (fuel + 1) (before ++ (stringChars key ++ ':' :: after)) = (do
      let (value, r) ← readValue fuel after
      match skipBlanks r with
      | ',' :: r =>
        let (fields, r) ← readFields fuel r
        some ((pieces key, value) :: fields, r)
      | '\x7d' :: r => some ([(pieces key, value)], r)
      | _ => none) := by
  rw [readFields, stringChars, List.cons_append, List.cons_append, List.append_assoc,
    skipBlanks_close hbefore (by decide)]
  simp only [List.cons_append, List.nil_append, readString_escaped]
  simp only [Option.bind_eq_bind, Option.bind_some, skipBlanks_cons (c := ':') (by decide)]
  rfl

variable {before : List Char} {key : String}

theorem SpellsFields.last (hbefore : ∀ c ∈ before, isBlank c = true)
    (hgap : ∀ c ∈ gap, isBlank c = true) (h : Spells cs t) :
    SpellsFields (before ++ (stringChars key ++ ':' :: (cs ++ (gap ++ ['\x7d']))))
      [(pieces key, t)] := by
  refine .of_succ fun fuel rest hfuel => ?_
  simp only [List.length_append, List.length_cons, List.length_nil] at hfuel
  have hvalue := h fuel (gap ++ '\x7d' :: rest) (by omega)
    (stops_blanks hgap (stops_cons (by decide) rest))
  simp only [List.append_assoc, List.cons_append, List.nil_append]
  rw [readFields_name hbefore, hvalue]
  simp [skipBlanks_close hgap (c := '\x7d') (by decide) rest]

theorem SpellsFields.cons (hbefore : ∀ c ∈ before, isBlank c = true) (h : Spells cs t)
    {more : List Char} (hmore : SpellsFields more fs) :
    SpellsFields (before ++ (stringChars key ++ ':' :: (cs ++ ',' :: more)))
      ((pieces key, t) :: fs) := by
  refine .of_succ fun fuel rest hfuel => ?_
  simp only [List.length_append, List.length_cons] at hfuel
  have hvalue := h fuel (',' :: (more ++ rest)) (by omega) (stops_cons (by decide) _)
  have hfields := hmore fuel rest (by omega)
  simp only [List.append_assoc, List.cons_append]
  rw [readFields_name hbefore, hvalue]
  simp [skipBlanks_cons (c := ',') (by decide) (more ++ rest), hfields]

theorem spells_record (h : SpellsFields cs fs) : Spells ('\x7b' :: cs) (.record fs) := by
  refine .of_succ fun fuel rest hfuel hrest => ?_
  have hfields := h fuel rest (by simp at hfuel; omega)
  rw [List.cons_append, readValue, skipBlanks_cons (by decide)]
  simp only
  split
  · next r hclose =>
    rw [readFields_brace hclose] at hfields
    cases hfields
  · rw [readFields_skip, hfields]
    rfl

theorem spells_emptyRecord : Spells ['\x7b', '\x7d'] (.record []) :=
  .of_succ fun _ _ _ _ => rfl

/-! ### Texts of values -/

mutual
/-- The tree of a value without floating numbers. -/
def tree : Json → Tree
  | .null => .null
  | .bool b => .bool b
  | .int n => .number (.ofInt n)
  | .float _ => .null
  | .str s => .text (pieces s)
  | .arr items => .list (trees items)
  | .obj fields => .record (fieldTrees fields)
def trees : List Json → List Tree
  | [] => []
  | v :: vs => tree v :: trees vs
def fieldTrees : List (String × Json) → List (List Piece × Tree)
  | [] => []
  | (k, v) :: fs => (pieces k, tree v) :: fieldTrees fs
end

/-- No floating number is in the value. -/
inductive Floatless : Json → Prop where
  | null : Floatless .null
  | bool (b : Bool) : Floatless (.bool b)
  | int (n : Int) : Floatless (.int n)
  | str (s : String) : Floatless (.str s)
  | arr {items : List Json} (h : ∀ v ∈ items, Floatless v) : Floatless (.arr items)
  | obj {fields : List (String × Json)} (h : ∀ f ∈ fields, Floatless f.2) : Floatless (.obj fields)

variable {level : Nat}

theorem Spells.afterBlank (h : Spells cs t) : Spells (' ' :: cs) t :=
  @Spells.after cs [' '] t (by simp [isBlank]) h

theorem spells_prettyItems {items : List Json}
    (hitems : ∀ v ∈ items, Spells (prettyChars (level + 1) v) v.tree) :
    ∀ {cs : List Char} {t : Tree}, Spells cs t →
      SpellsItems (cs ++ prettyItems level items) (t :: trees items) := by
  induction items with
  | nil => exact fun h => SpellsItems.last (blank_newline level) h
  | cons v items ih =>
    intro cs t h
    obtain ⟨hv, hitems⟩ := List.forall_mem_cons.1 hitems
    rw [prettyItems, List.cons_append, List.cons_append]
    exact .cons h (ih hitems (hv.after (blank_newline (level + 1))))

theorem spells_prettyFields {fields : List (String × Json)}
    (hfields : ∀ f ∈ fields, Spells (prettyChars (level + 1) f.2) f.2.tree) :
    ∀ {key : String} {cs : List Char} {t : Tree}, Spells cs t →
      SpellsFields (newline (level + 1) ++ (stringChars key ++ ':' :: (cs ++ prettyFields level fields)))
        ((pieces key, t) :: fieldTrees fields) := by
  induction fields with
  | nil => exact fun h => .last (blank_newline (level + 1)) (blank_newline level) h
  | cons f fields ih =>
    intro key cs t h
    obtain ⟨k, v⟩ := f
    obtain ⟨hf, hfields⟩ := List.forall_mem_cons.1 hfields
    have hmore := @ih hfields k _ _ hf.afterBlank
    rw [prettyFields]
    simp only [List.append_assoc, List.cons_append] at hmore ⊢
    exact .cons (blank_newline (level + 1)) h hmore

/-- The indented text of a value is read as its tree. -/
theorem spells_pretty {v : Json} (h : Floatless v) :
    ∀ level, Spells (prettyChars level v) v.tree := by
  induction h with
  | null => exact fun _ => spells_null
  | bool b =>
    intro level
    cases b
    · exact spells_false
    · exact spells_true
  | int n => exact fun _ => spells_int n
  | str s => exact fun _ => spells_string s
  | @arr items h ih =>
    intro level
    cases items with
    | nil => exact spells_emptyList
    | cons v items =>
      obtain ⟨hv, hitems⟩ := List.forall_mem_cons.1 ih
      rw [prettyChars, List.cons_append, List.cons_append]
      exact spells_list (spells_prettyItems (fun v hv => hitems v hv (level + 1))
        ((hv (level + 1)).after (blank_newline (level + 1))))
  | @obj fields h ih =>
    intro level
    cases fields with
    | nil => exact spells_emptyRecord
    | cons f fields =>
      obtain ⟨k, v⟩ := f
      obtain ⟨hf, hfields⟩ := List.forall_mem_cons.1 ih
      have hall := @spells_prettyFields level fields (fun f hf => hfields f hf (level + 1)) k _ _
        (hf (level + 1)).afterBlank
      rw [prettyChars]
      simp only [List.append_assoc, List.cons_append] at hall ⊢
      exact spells_record hall

theorem spells_items {items : List Json} (hitems : ∀ v ∈ items, Spells v.chars v.tree) :
    ∀ {cs : List Char} {t : Tree}, Spells cs t →
      SpellsItems (cs ++ itemsChars items) (t :: trees items) := by
  induction items with
  | nil => exact fun {cs t} h => @SpellsItems.last cs [] t (by simp) h
  | cons v items ih =>
    intro cs t h
    obtain ⟨hv, hitems⟩ := List.forall_mem_cons.1 hitems
    exact .cons h (ih hitems hv)

theorem spells_fields {fields : List (String × Json)}
    (hfields : ∀ f ∈ fields, Spells f.2.chars f.2.tree) :
    ∀ {key : String} {cs : List Char} {t : Tree}, Spells cs t →
      SpellsFields (stringChars key ++ ':' :: (cs ++ fieldsChars fields))
        ((pieces key, t) :: fieldTrees fields) := by
  induction fields with
  | nil =>
    exact fun {key cs t} h => @SpellsFields.last cs [] t [] key (by simp) (by simp) h
  | cons f fields ih =>
    intro key cs t h
    obtain ⟨k, v⟩ := f
    obtain ⟨hf, hfields⟩ := List.forall_mem_cons.1 hfields
    have hmore := @ih hfields k _ _ hf
    rw [fieldsChars]
    simp only [List.append_assoc, List.cons_append] at hmore ⊢
    exact @SpellsFields.cons _ _ _ [] key (by simp) h _ hmore

/-- The compact text of a value is read as its tree. -/
theorem spells_compact {v : Json} (h : Floatless v) : Spells v.chars v.tree := by
  induction h with
  | null => exact spells_null
  | bool b =>
    cases b
    · exact spells_false
    · exact spells_true
  | int n => exact spells_int n
  | str s => exact spells_string s
  | @arr items h ih =>
    cases items with
    | nil => exact spells_emptyList
    | cons v items =>
      obtain ⟨hv, hitems⟩ := List.forall_mem_cons.1 ih
      rw [chars, List.cons_append]
      exact spells_list (spells_items hitems hv)
  | @obj fields h ih =>
    cases fields with
    | nil => exact spells_emptyRecord
    | cons f fields =>
      obtain ⟨k, v⟩ := f
      obtain ⟨hf, hfields⟩ := List.forall_mem_cons.1 ih
      have hall := @spells_fields fields hfields k _ _ hf
      rw [chars]
      simp only [List.append_assoc, List.cons_append] at hall ⊢
      exact spells_record hall

theorem read_of_spells (h : Spells cs t) : Tree.ofChars? cs = some t := by
  have hvalue := h (cs.length + 1) [] (by omega) (by simp [Stops])
  rw [List.append_nil] at hvalue
  rw [Tree.ofChars?, hvalue]
  rfl

/-- The text of a value is decoded as its tree is. -/
theorem decode_of_spells {α : Type} (decoder : Decoder α) (h : Spells cs t) :
    decode decoder (String.ofList cs) = decoder levels t := by
  have hread : Tree.read? (String.ofList cs) = some t := by
    rw [Tree.read?, String.toList_ofList]
    exact read_of_spells h
  rw [decode, hread, Option.bind_some]

theorem decode_pretty {α : Type} (decoder : Decoder α) {v : Json} (h : Floatless v) :
    decode decoder v.pretty = decoder levels v.tree :=
  decode_of_spells decoder (spells_pretty h 0)

theorem decode_compact {α : Type} (decoder : Decoder α) {v : Json} (h : Floatless v) :
    decode decoder v.compact = decoder levels v.tree :=
  decode_of_spells decoder (spells_compact h)

end Json

end Telemetry
