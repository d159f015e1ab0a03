import Telemetry.Proofs.Consistency

/-!
# Reading by pages

Reading by pages gives the values that match a query, each once and in their order, whatever the size
of a page and of the buffer.  What a cursor has yet to hand out is its buffer and then the rows that
it has not fetched; fetching a page moves rows from the second part to the first.  Pages are full but
for the last one, so that their number tells how many rows were fetched.
-/

namespace Telemetry

/-! ### The order of values -/

namespace ValueRow

def precedes (a b : ValueRow) : Bool :=
  decide (a.timeMs < b.timeMs) || (decide (a.timeMs = b.timeMs) && decide (a.id ≤ b.id))

/-- Strictly by time, then by id. -/
def Before (a b : ValueRow) : Prop := a.timeMs < b.timeMs ∨ a.timeMs = b.timeMs ∧ a.id < b.id

theorem precedes_iff {a b : ValueRow} :
    a.precedes b = true ↔ a.timeMs < b.timeMs ∨ a.timeMs = b.timeMs ∧ a.id ≤ b.id := by
  simp [precedes]

theorem precedes_trans (a b c : ValueRow) (hab : a.precedes b = true) (hbc : b.precedes c = true) :
    a.precedes c = true := by
  rw [precedes_iff] at *
  omega

theorem precedes_total (a b : ValueRow) : (a.precedes b || b.precedes a) = true := by
  rw [Bool.or_eq_true, precedes_iff, precedes_iff]
  omega

theorem id_eq_of_precedes {a b : ValueRow} (hab : a.precedes b = true) (hba : b.precedes a = true) :
    a.id = b.id := by
  rw [precedes_iff] at *
  omega

end ValueRow

/-- Sorting and selecting commute where the order tells rows apart. -/
theorem filter_mergeSort {α : Type} {le : α → α → Bool} {l : List α} (p : α → Bool)
    (htrans : ∀ a b c, le a b = true → le b c = true → le a c = true)
    (htotal : ∀ a b, (le a b || le b a) = true)
    (hanti : ∀ a ∈ l, ∀ b ∈ l, le a b = true → le b a = true → a = b) :
    (l.mergeSort le).filter p = (l.filter p).mergeSort le := by
  have hsorted := (List.pairwise_mergeSort htrans htotal l).filter p
  have hsorted' := List.pairwise_mergeSort htrans htotal (l.filter p)
  refine List.Perm.eq_of_pairwise ?_ hsorted hsorted' ?_
  · intro a b ha hb
    refine hanti a ?_ b ?_
    · exact List.mem_mergeSort.1 (List.mem_filter.1 ha).1
    · exact (List.mem_filter.1 (List.mem_mergeSort.1 hb)).1
  · exact ((List.mergeSort_perm l le).filter p).trans (List.mergeSort_perm _ le).symm

namespace Store

variable {s : Store}

theorem timeOf_eq (hs : s.Undamaged) (v : ValueRow) : s.timeOf v = .int v.timeMs := by
  rw [Undamaged] at hs
  simp [timeOf, oddCells?, hs, Damage.none]

theorem precedes_eq (hs : s.Undamaged) : s.precedes = ValueRow.precedes := by
  funext a b
  simp only [precedes, timeOf_eq hs, Cell.order]
  unfold ValueRow.precedes
  rcases lt_trichotomy a.timeMs b.timeMs with h | h | h
  · simp [compare_lt_iff_lt.2 h, h]
  · simp [h]
  · simp [compare_gt_iff_gt.2 h, h.ne', not_lt_of_gt h]

/-- The values that match a query, in their order. -/
def ordered (s : Store) (q : ValueQuery) : List ValueRow :=
  (s.values.rows.filter (s.admitsOwned q)).mergeSort ValueRow.precedes

theorem eq_of_precedes (hs : s.Consistent) {a b : ValueRow} (ha : a ∈ s.values.rows)
    (hb : b ∈ s.values.rows) (hab : a.precedes b = true) (hba : b.precedes a = true) : a = b :=
  hs.valuesNumbered.eq_of_id_eq ha hb (ValueRow.id_eq_of_precedes hab hba)

theorem ordered_before (hs : s.Consistent) (q : ValueQuery) :
    (s.ordered q).Pairwise ValueRow.Before := by
  have hsorted : (s.ordered q).Pairwise fun a b => a.precedes b = true :=
    List.pairwise_mergeSort ValueRow.precedes_trans ValueRow.precedes_total _
  have hne : (s.ordered q).Pairwise fun a b => a.id ≠ b.id := by
    refine (List.mergeSort_perm _ _).symm.pairwise ?_ fun h => h.symm
    exact (hs.valuesNumbered.increasing.filter _).imp fun hlt => ne_of_lt hlt
  refine (hsorted.and hne).imp fun {a b} h => ?_
  obtain ⟨hprecedes, hne⟩ := h
  rw [ValueRow.precedes_iff] at hprecedes
  unfold ValueRow.Before
  omega

theorem metricId_mem (hs : s.Undamaged) {q : ValueQuery} {v : ValueRow}
    (h : s.admitsOwned q v = true) : v.metricId ∈ q.metricIds := by
  have hadmits : s.admits q = q.admits := testValue_eq hs _ _
  have hmatch := (Bool.and_eq_true_iff.1 h).1
  rw [hadmits] at hmatch
  simp only [ValueQuery.admits, Bool.and_eq_true, List.contains_iff_mem] at hmatch
  exact hmatch.1.1.1

/-- The number of pages that a query takes; the last one is never full. -/
def pageCount (s : Store) (q : ValueQuery) (pageSize : Nat) : Nat :=
  if q.metricIds = [] then 0 else (s.ordered q).length / pageSize + 1

end Store

namespace ValueCursor

variable {s : Store} {c₀ c : ValueCursor} {left : List ValueRow}

theorem isAhead_iff (hs : s.Undamaged) {a v : ValueRow} (h : c.position = some (a.timeMs, a.id)) :
    c.isAhead s v = true ↔ a.Before v := by
  simp only [isAhead, h, Store.timeOf_eq hs, Cell.order]
  unfold ValueRow.Before
  rcases lt_trichotomy a.timeMs v.timeMs with hlt | heq | hgt
  · simp [compare_lt_iff_lt.2 hlt, hlt]
  · simp [heq]
  · simp [compare_gt_iff_gt.2 hgt, hgt.ne', not_lt_of_gt hgt]

def placeOf (v : ValueRow) : Int × Int := (v.timeMs, v.id)

/-- What a cursor has yet to hand out: its buffer, and the rows after the last one it fetched. -/
structure Follows (s : Store) (c : ValueCursor) (left : List ValueRow) : Prop where
  split : ∃ fetched rest, s.ordered c.query = fetched ++ rest ∧ left = c.buffer ++ rest ∧
    c.position = fetched.getLast?.map placeOf ∧ (c.exhausted = true → rest = [])
  pageSize : 0 < c.pageSize

/-- Does the cursor fetch a page before it hands out a value? -/
def wantsPage (c : ValueCursor) : Bool := !c.exhausted && (c.buffer.isEmpty || c.hasRoom)

/-- Where a reading is that began at `c₀`: the buffer keeps within its bounds, and all pages before
the last one were full. -/
structure Proceeds (s : Store) (c₀ c : ValueCursor) (left : List ValueRow) : Prop
    extends Follows s c left where
  query : c.query = c₀.query
  samePage : c.pageSize = c₀.pageSize
  sameBuffer : c.bufferSize = c₀.bufferSize
  takesPage : c₀.pageSize ≤ c₀.bufferSize
  held : c.buffer.length ≤ c₀.bufferSize
  full : c.exhausted = false → c₀.query.metricIds ≠ [] ∧ ∃ rest, left = c.buffer ++ rest ∧
    (s.ordered c₀.query).length = c.pages * c₀.pageSize + rest.length
  counted : c.exhausted = true → c.pages = s.pageCount c₀.query c₀.pageSize

theorem page_eq (hs : s.Consistent) {fetched rest : List ValueRow}
    (hsplit : s.ordered c.query = fetched ++ rest)
    (hposition : c.position = fetched.getLast?.map placeOf) :
    c.page s = rest.take c.pageSize := by
  have hbefore := Store.ordered_before hs c.query
  rw [hsplit, List.pairwise_append] at hbefore
  obtain ⟨hfetched, -, hcross⟩ := hbefore
  have hahead : (s.ordered c.query).filter (c.isAhead s) = rest := by
    rw [hsplit, List.filter_append]
    rcases List.eq_nil_or_concat fetched with rfl | ⟨init, last, rfl⟩
    · have hall : ∀ v, c.isAhead s v = true := by simp [isAhead, hposition]
      simp [hall]
    · have hlast : c.position = some (last.timeMs, last.id) := by
        simpa [placeOf] using hposition
      have hnone : (init.concat last).filter (c.isAhead s) = [] := by
        refine List.filter_eq_nil_iff.2 fun v hv hahead => ?_
        have hlt := (isAhead_iff hs.undamaged hlast).1 hahead
        rw [List.concat_eq_append] at hv hfetched
        rcases List.mem_append.1 hv with hv | hv
        · have hgt := (List.pairwise_append.1 hfetched).2.2 v hv last (by simp)
          unfold ValueRow.Before at hlt hgt
          omega
        · obtain rfl := List.mem_singleton.1 hv
          unfold ValueRow.Before at hlt
          omega
      have hall : rest.filter (c.isAhead s) = rest := by
        refine List.filter_eq_self.2 fun v hv => ?_
        exact (isAhead_iff hs.undamaged hlast).2 (hcross last (by simp) v hv)
      rw [hnone, hall, List.nil_append]
  unfold page
  rw [Store.precedes_eq hs.undamaged, ← hahead, Store.ordered,
    filter_mergeSort _ ValueRow.precedes_trans ValueRow.precedes_total fun a ha b hb =>
      Store.eq_of_precedes hs (List.mem_filter.1 ha).1 (List.mem_filter.1 hb).1,
    List.filter_filter]
  congr 2
  refine List.filter_congr fun v _ => ?_
  exact Bool.and_comm _ _

theorem readRow_eq (hs : s.Undamaged) (v : ValueRow) :
    readRow s v = .ok (placeOf v, some v) := by
  unfold readRow
  rw [Store.timeOf_eq hs, Store.readValue_eq hs]
  rfl

theorem mapM_readRow_eq (hs : s.Undamaged) (rows : List ValueRow) :
    rows.mapM (readRow s) = .ok (rows.map fun v => (placeOf v, some v)) := by
  induction rows with
  | nil => rfl
  | cons v rows ih =>
    rw [List.mapM_cons, readRow_eq hs, ih]
    rfl

/-- The cursor with one page more, after the rows `fetched` the first of `rest`. -/
def withPage (c : ValueCursor) (fetched rest : List ValueRow) : ValueCursor :=
  { c with
    buffer := c.buffer ++ rest.take c.pageSize
    position := (fetched ++ rest.take c.pageSize).getLast?.map placeOf
    exhausted := decide (rest.length < c.pageSize)
    pages := c.pages + 1 }

theorem fetchPage_eq (hs : s.Consistent) {fetched rest : List ValueRow}
    (hsplit : s.ordered c.query = fetched ++ rest)
    (hposition : c.position = fetched.getLast?.map placeOf) :
    c.fetchPage s = (.ok (), c.withPage fetched rest) := by
  have hlast : ((rest.take c.pageSize).getLast?.map placeOf).or c.position =
      (fetched ++ rest.take c.pageSize).getLast?.map placeOf := by
    rw [hposition, List.getLast?_append]
    cases (rest.take c.pageSize).getLast? <;> simp
  have hfew : decide ((rest.take c.pageSize).length < c.pageSize) =
      decide (rest.length < c.pageSize) := by
    rw [decide_eq_decide, List.length_take]
    omega
  unfold fetchPage withPage
  rw [page_eq hs hsplit hposition, mapM_readRow_eq hs.undamaged, ← hlast, ← hfew]
  generalize rest.take c.pageSize = rows
  simp [List.getLast?_map, List.filterMap_map, Function.comp_def]

/-- Where a page is wanted, it fits in. -/
theorem Proceeds.fits (h : Proceeds s c₀ c left) (hwants : c.wantsPage = true) :
    c.exhausted = false ∧ c.buffer.length + c₀.pageSize ≤ c₀.bufferSize := by
  rw [wantsPage, Bool.and_eq_true, Bool.not_eq_true', Bool.or_eq_true] at hwants
  obtain ⟨hmore, hroom⟩ := hwants
  refine ⟨hmore, ?_⟩
  rcases hroom with hempty | hroom
  · rw [List.isEmpty_iff.1 hempty, List.length_nil, Nat.zero_add]
    exact h.takesPage
  · rw [← h.samePage, ← h.sameBuffer]
    exact of_decide_eq_true hroom

/-- Without room no page is wanted: an empty buffer has room for one. -/
theorem Proceeds.wantsPage_eq (h : Proceeds s c₀ c left) (hroom : ¬c.hasRoom = true) :
    c.wantsPage = false := by
  have hsome : c.buffer.isEmpty = false := by
    by_contra hempty
    have hempty : c.buffer = [] := by simpa using hempty
    refine hroom (decide_eq_true ?_)
    rw [hempty, List.length_nil, Nat.zero_add, h.samePage, h.sameBuffer]
    exact h.takesPage
  simp [wantsPage, hsome, hroom]

/-- A page more leaves what is yet to be handed out. -/
theorem Proceeds.withPage (h : Proceeds s c₀ c left) (hwants : c.wantsPage = true)
    {fetched rest : List ValueRow} (hsplit : s.ordered c.query = fetched ++ rest)
    (hleft : left = c.buffer ++ rest) : Proceeds s c₀ (c.withPage fetched rest) left where
  split := by
    refine ⟨fetched ++ rest.take c.pageSize, rest.drop c.pageSize, ?_, ?_, rfl, fun hfew => ?_⟩
    · rw [List.append_assoc, List.take_append_drop]
      exact hsplit
    · simpa [ValueCursor.withPage] using hleft
    · exact List.drop_eq_nil_of_le (of_decide_eq_true hfew).le
  pageSize := h.pageSize
  query := h.query
  samePage := h.samePage
  sameBuffer := h.sameBuffer
  takesPage := h.takesPage
  held := by
    have hfits := (h.fits hwants).2
    rw [ValueCursor.withPage, List.length_append, List.length_take, h.samePage]
    omega
  full := by
    intro hfull
    have hfull : c.pageSize ≤ rest.length := le_of_not_gt (of_decide_eq_false hfull)
    obtain ⟨hids, rest', hleft', hcount⟩ := h.full (h.fits hwants).1
    obtain rfl : rest = rest' := List.append_cancel_left (hleft.symm.trans hleft')
    refine ⟨hids, rest.drop c.pageSize, by simpa [ValueCursor.withPage] using hleft, ?_⟩
    rw [h.samePage] at hfull
    rw [hcount, ValueCursor.withPage, List.length_drop, h.samePage, Nat.succ_mul]
    omega
  counted := by
    intro hfew
    have hfew : rest.length < c₀.pageSize := h.samePage ▸ of_decide_eq_true hfew
    obtain ⟨hids, rest', hleft', hcount⟩ := h.full (h.fits hwants).1
    obtain rfl : rest = rest' := List.append_cancel_left (hleft.symm.trans hleft')
    rw [Store.pageCount, if_neg hids, hcount, Nat.mul_comm, Nat.mul_add_div (by omega),
      Nat.div_eq_of_lt hfew, Nat.add_zero]
    rfl

/-- A page that is fetched is the last one or full. -/
theorem fetchPage_proceeds (hs : s.Consistent) (h : Proceeds s c₀ c left)
    (hwants : c.wantsPage = true) :
    ∃ c', c.fetchPage s = (.ok (), c') ∧ Proceeds s c₀ c' left ∧
      (c'.exhausted = true ∨ c'.buffer.length = c.buffer.length + c₀.pageSize) := by
  obtain ⟨fetched, rest, hsplit, hleft, hposition, -⟩ := h.split
  refine ⟨_, fetchPage_eq hs hsplit hposition, h.withPage hwants hsplit hleft, ?_⟩
  by_cases hfew : rest.length < c.pageSize
  · exact .inl (decide_eq_true hfew)
  · refine .inr ?_
    rw [withPage, List.length_append, List.length_take, Nat.min_eq_left (le_of_not_gt hfew),
      h.samePage]

/-- Where a page is wanted no more although the buffer is empty, all was handed out. -/
theorem Proceeds.left_eq (h : Proceeds s c₀ c left) (hwants : c.wantsPage = false)
    (hempty : c.buffer = []) : left = [] ∧ c.exhausted = true := by
  obtain ⟨fetched, rest, -, hleft, -, hexhausted⟩ := h.split
  have hdone : c.exhausted = true := by simpa [wantsPage, hempty] using hwants
  rw [hleft, hempty, hexhausted hdone, List.append_nil]
  exact ⟨rfl, hdone⟩

/-- Filling the buffer fetches pages until none is wanted, and `fuel` is enough if it is more than
the number of values that are not fetched. -/
theorem fill_proceeds (hs : s.Consistent) (fuel : Nat) :
    ∀ {c : ValueCursor}, Proceeds s c₀ c left →
      ∃ c', fill s fuel c = (.ok (), c') ∧ Proceeds s c₀ c' left ∧
        (c.exhausted = true ∨ left.length < c.buffer.length + fuel → c'.wantsPage = false) := by
  induction fuel with
  | zero =>
    intro c h
    refine ⟨c, rfl, h, fun henough => ?_⟩
    rcases henough with hdone | hless
    · simp [wantsPage, hdone]
    · obtain ⟨fetched, rest, -, rfl, -⟩ := h.split
      simp at hless
  | succ fuel ih =>
    intro c h
    unfold fill
    split
    · next hwants =>
      obtain ⟨c₁, hfetch, h₁, hpage⟩ := fetchPage_proceeds hs h hwants
      rw [hfetch]
      simp only
      split
      · obtain ⟨c', hfill, h', hstops⟩ := ih h₁
        refine ⟨c', hfill, h', fun henough => hstops ?_⟩
        have hpos : 0 < c₀.pageSize := h.samePage ▸ h.pageSize
        rcases henough with hdone | hless
        · exact absurd hdone (by simp [(h.fits hwants).1])
        · exact hpage.imp_right fun hlength => by omega
      · next hfull => exact ⟨c₁, rfl, h₁, fun _ => h₁.wantsPage_eq hfull⟩
    · next hstop => exact ⟨c, rfl, h, fun _ => Bool.eq_false_iff.2 hstop⟩

/-- More than all values are never fetched. -/
theorem fill_stops (hs : s.Consistent) (h : Proceeds s c₀ c left) {fuel : Nat}
    (hfuel : s.values.rows.length < fuel) :
    ∃ c', fill s fuel c = (.ok (), c') ∧ Proceeds s c₀ c' left ∧ c'.wantsPage = false := by
  obtain ⟨c', hfill, h', hstops⟩ := fill_proceeds hs fuel h
  refine ⟨c', hfill, h', hstops (.inr ?_)⟩
  obtain ⟨fetched, rest, hsplit, rfl, -⟩ := h.split
  have hlength := congrArg List.length hsplit
  have hfilter := List.length_filter_le (s.admitsOwned c.query) s.values.rows
  rw [Store.ordered, List.length_mergeSort, List.length_append] at hlength
  rw [List.length_append]
  omega

/-- A value is handed out as long as there is one. -/
theorem next_proceeds (hs : s.Consistent) (h : Proceeds s c₀ c left) :
    (left = [] ∧ ∃ c', c.next s = (none, c') ∧ Proceeds s c₀ c' [] ∧ c'.exhausted = true) ∨
    ∃ v rest c', left = v :: rest ∧ c.next s = (some (.ok v), c') ∧ Proceeds s c₀ c' rest := by
  obtain ⟨c', hfill, h', hstops⟩ := fill_stops hs h (Nat.lt_succ_self _)
  unfold next
  rw [hfill]
  simp only
  cases hbuffer : c'.buffer with
  | nil =>
    obtain ⟨rfl, hdone⟩ := h'.left_eq hstops hbuffer
    exact .inl ⟨rfl, c', rfl, h', hdone⟩
  | cons v buffer =>
    obtain ⟨fetched, rest, hsplit, hleft, hposition, hexhausted⟩ := h'.split
    rw [hbuffer] at hleft
    refine .inr ⟨v, buffer ++ rest, _, hleft, rfl, ⟨⟨fetched, rest, hsplit, rfl, hposition,
      hexhausted⟩, h'.pageSize⟩, h'.query, h'.samePage, h'.sameBuffer, h'.takesPage, ?_, ?_,
      h'.counted⟩
    · have hheld := h'.held
      rw [hbuffer, List.length_cons] at hheld
      exact (Nat.le_succ _).trans hheld
    · intro hmore
      obtain ⟨hids, rest', hleft', hcount⟩ := h'.full hmore
      rw [hleft, hbuffer] at hleft'
      obtain rfl : rest = rest' := List.append_cancel_left hleft'
      exact ⟨hids, rest, rfl, hcount⟩

/-- The first values are handed out in their order; once nothing came, all pages were fetched. -/
theorem drain_proceeds (hs : s.Consistent) (n : Nat) :
    ∀ {c : ValueCursor} {left : List ValueRow}, Proceeds s c₀ c left →
      ∃ c', c.drain s n = ((left.take n).map .ok, c') ∧ Proceeds s c₀ c' (left.drop n) ∧
        (left.length < n → c'.exhausted = true) := by
  induction n with
  | zero => exact fun {c left} h => ⟨c, rfl, h, fun hlt => absurd hlt (Nat.not_lt_zero _)⟩
  | succ n ih =>
    intro c left h
    unfold drain
    rcases next_proceeds hs h with ⟨rfl, c', hnext, h', hdone⟩ | ⟨v, rest, c₁, rfl, hnext, h₁⟩
    · rw [hnext]
      exact ⟨c', rfl, h', fun _ => hdone⟩
    · obtain ⟨c', hdrain, h', hdone⟩ := ih h₁
      rw [hnext]
      simp only
      rw [hdrain]
      exact ⟨c', rfl, h', fun hlt => hdone (Nat.lt_of_succ_lt_succ hlt)⟩

theorem start_follows (hs : s.Undamaged) (q : ValueQuery) (paging : PagingSettings) :
    Follows s (start q paging) (s.ordered q) := by
  refine ⟨⟨[], s.ordered q, rfl, rfl, rfl, fun hempty => ?_⟩,
    lt_of_lt_of_le one_pos (le_max_right _ _)⟩
  have hids : q.metricIds = [] := List.isEmpty_iff.1 hempty
  have hnone : s.values.rows.filter (s.admitsOwned q) = [] := by
    refine List.filter_eq_nil_iff.2 fun v _ hadmits => ?_
    have hmem := Store.metricId_mem hs hadmits
    rw [hids] at hmem
    exact absurd hmem List.not_mem_nil
  rw [Store.ordered, hnone, List.mergeSort_nil]

/-- Before its first page a cursor has yet to hand out all. -/
theorem start_proceeds (hs : s.Undamaged) (q : ValueQuery) (paging : PagingSettings) :
    Proceeds s (start q paging) (start q paging) (s.ordered q) where
  toFollows := start_follows hs q paging
  query := rfl
  samePage := rfl
  sameBuffer := rfl
  takesPage := le_max_right _ _
  held := Nat.zero_le _
  full := by
    intro hmore
    have hids : q.metricIds ≠ [] := fun hnil => by simp [start, hnil] at hmore
    exact ⟨hids, s.ordered q, rfl, by simp [start]⟩
  counted := by
    intro hempty
    have hids : q.metricIds = [] := List.isEmpty_iff.1 hempty
    exact (if_pos hids).symm

end ValueCursor

/-- Reading by pages gives all values that match, in their order. -/
theorem Store.series_eq {s : Store} (hs : s.Consistent) (q : ValueQuery) (paging : PagingSettings) :
    s.series q paging = (s.ordered q).map .ok := by
  obtain ⟨c, hdrain, -⟩ := ValueCursor.drain_proceeds hs (s.values.rows.length + 1)
    (ValueCursor.start_proceeds hs.undamaged q paging)
  have hall : (s.ordered q).length ≤ s.values.rows.length + 1 := by
    rw [ordered, List.length_mergeSort]
    exact (List.length_filter_le _ _).trans (Nat.le_succ _)
  rw [List.take_of_length_le hall] at hdrain
  rw [series, readSeries, hdrain]

end Telemetry
