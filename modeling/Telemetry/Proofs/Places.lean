import Telemetry.Proofs.FileTree

/-!
# Where paths lead

A path that leads to something leads through folders, so what stands above it is a folder that is
there.  A file in a folder is where the folder is, under its own name.  A file that was written is
where its path leads, and has the text it was written with.
-/

namespace Telemetry

/-! ### Texts of paths -/

namespace Path

theorem joinNames_cons (name next : List Char) (names : List (List Char)) :
    joinNames (name :: next :: names) = name ++ '/' :: joinNames (next :: names) :=
  rfl

theorem joinNames_prefix (before after : List (List Char)) :
    joinNames before <+: joinNames (before ++ after) := by
  induction before with
  | nil => exact List.nil_prefix
  | cons name before ih =>
    cases before with
    | nil =>
      cases after with
      | nil => exact List.prefix_refl _
      | cons next after => exact List.prefix_append _ _
    | cons next before =>
      rw [List.cons_append, List.cons_append, joinNames_cons, joinNames_cons]
      exact (List.prefix_append_right_inj name).2 (List.cons_prefix_cons.2 ⟨rfl, ih⟩)

/-- A slash at the end stands before the next name as well. -/
theorem joinNames_slash_prefix (name : List Char) (before : List (List Char)) :
    joinNames (before ++ [[]]) <+: joinNames (before ++ [name]) := by
  induction before with
  | nil => exact List.nil_prefix
  | cons first before ih =>
    obtain ⟨next, rest, hnext⟩ := List.exists_cons_of_ne_nil (List.concat_ne_nil [] before)
    obtain ⟨next', rest', hnext'⟩ := List.exists_cons_of_ne_nil (List.concat_ne_nil name before)
    rw [List.cons_append, List.cons_append, hnext, hnext', joinNames_cons, joinNames_cons, ← hnext,
      ← hnext']
    exact (List.prefix_append_right_inj first).2 (List.cons_prefix_cons.2 ⟨rfl, ih⟩)

theorem trimNames_prefix (names : List String) : trimNames names <+: names := by
  have hsuffix := List.dropWhile_suffix (l := names.reverse) isIdle
  rw [trimNames, ← List.reverse_suffix, List.reverse_reverse]
  exact hsuffix

/-- Only the last names are trimmed. -/
theorem trim_prefix (p : Path) : p.trim.rooted = p.rooted ∧ p.trim.names <+: p.names := by
  obtain ⟨rooted, names⟩ := p
  unfold trim
  split
  · next hrooted hnames =>
    simp only at hnames
    rw [hnames]
    exact ⟨rfl, List.cons_prefix_cons.2 ⟨rfl, trimNames_prefix _⟩⟩
  · exact ⟨rfl, trimNames_prefix _⟩

/-- What stands above a path has its first names, but not all of them. -/
theorem parent?_prefix {p folder : Path} (h : p.parent? = some folder) :
    folder.rooted = p.rooted ∧
      ∃ name names, p.names = folder.names ++ name :: names := by
  unfold parent? at h
  simp only at h
  split at h
  · cases h
  · next hnames =>
    obtain rfl := Option.some.inj h
    have hnil : p.trim.names ≠ [] := by simpa using hnames
    obtain ⟨hrooted, htrim⟩ := trim_prefix p
    obtain ⟨hrooted', ⟨cut, hcut⟩⟩ := trim_prefix ⟨p.trim.rooted, p.trim.names.dropLast⟩
    obtain ⟨after, hafter⟩ := htrim
    refine ⟨hrooted'.trans hrooted, ?_⟩
    have hsplit : p.names = (trim ⟨p.trim.rooted, p.trim.names.dropLast⟩).names ++
        (cut ++ p.trim.names.getLast hnil :: after) := by
      calc p.names
        _ = (p.trim.names.dropLast ++ [p.trim.names.getLast hnil]) ++ after := by
          rw [List.dropLast_concat_getLast hnil, hafter]
        _ = p.trim.names.dropLast ++ p.trim.names.getLast hnil :: after := by
          rw [List.append_assoc, List.singleton_append]
        _ = _ := by rw [← List.append_assoc, hcut]
    obtain ⟨name, names, hrest⟩ : ∃ name names,
        cut ++ p.trim.names.getLast hnil :: after = name :: names :=
      List.exists_cons_of_ne_nil (by simp)
    rw [hrest] at hsplit
    exact ⟨name, names, hsplit⟩

theorem text_prefix {p q : Path} (hrooted : q.rooted = p.rooted) (hnames : q.names <+: p.names) :
    q.text.toList <+: p.text.toList := by
  obtain ⟨after, hafter⟩ := hnames
  have hjoin := joinNames_prefix (q.names.map String.toList) (after.map String.toList)
  rw [← List.map_append, hafter] at hjoin
  unfold text
  rw [String.toList_ofList, String.toList_ofList, hrooted]
  split
  · exact List.cons_prefix_cons.2 ⟨rfl, hjoin⟩
  · exact hjoin

end Path

/-! ### What is on the way -/

namespace Files

variable {fs fs' : Files} {p : Path} {place : Place}

/-- A path can be followed from the beginning where one with a longer text can, unless it is empty. -/
theorem startOf_text_prefix {p q : Path} {start : Place} (hrooted : q.rooted = p.rooted)
    (hbegins : q.text.toList <+: p.text.toList) (hempty : q.isEmpty = false)
    (h : fs.startOf p = .ok start) : fs.startOf q = .ok start := by
  obtain ⟨after, hafter⟩ := hbegins
  have htext : p.text = q.text ++ String.ofList after := by
    rw [← String.ofList_toList (s := p.text), ← hafter, String.ofList_append, String.ofList_toList]
  have hsize : q.text.utf8ByteSize ≤ p.text.utf8ByteSize := by
    rw [htext, String.utf8ByteSize_append]
    omega
  unfold startOf at h ⊢
  simp only at h ⊢
  split at h
  · cases h
  split at h
  · cases h
  split at h
  · cases h
  next hnul hnonempty hlong =>
  have hnul' : q.text.toList.contains '\x00' = false := by
    rw [Bool.eq_false_iff]
    intro hmem
    refine hnul ?_
    rw [List.contains_iff_mem] at hmem ⊢
    rw [← hafter]
    exact List.mem_append_left _ hmem
  have hempty' : ¬q.text.isEmpty = true := by
    rw [Path.isEmpty] at hempty
    rw [hempty]
    decide
  rw [hnul', if_neg (by decide), if_neg hempty', if_neg (by omega), hrooted]
  exact h

theorem startOf_prefix {p q : Path} {start : Place} (hrooted : q.rooted = p.rooted)
    (hnames : q.names <+: p.names) (hempty : q.isEmpty = false) (h : fs.startOf p = .ok start) :
    fs.startOf q = .ok start :=
  startOf_text_prefix hrooted (Path.text_prefix hrooted hnames) hempty h

theorem walk_append (before after : List String) : ∀ {place : Place},
    fs.walk place (before ++ after) = (fs.walk place before).bind fun q => fs.walk q after := by
  induction before with
  | nil => exact rfl
  | cons name before ih =>
    intro place
    rw [List.cons_append, walk, walk]
    split
    · rfl
    · rfl
    · split
      · rfl
      · exact ih

/-- Whoever takes a step takes it from a folder. -/
theorem of_walk_cons {name : String} {names : List String} {q : Place}
    (h : fs.walk place (name :: names) = .ok q) :
    fs.node? place = some .folder ∧ fs.walk (place.step name) names = .ok q := by
  rw [walk] at h
  split at h
  · cases h
  · cases h
  · next hfolder =>
    split at h
    · cases h
    · exact ⟨hfolder, h⟩

/-- What stands above a path that leads to something is there. -/
theorem contains_parent {folder : Path} (h : fs.contains p = true) (hparent : p.parent? = some folder)
    (hempty : folder.isEmpty = false) : fs.contains folder = true := by
  obtain ⟨hrooted, name, names, hnames⟩ := Path.parent?_prefix hparent
  have hprefix : folder.names <+: p.names := ⟨_, hnames.symm⟩
  have hlocate : ∃ q, fs.locate p = .ok q := by
    unfold contains find at h
    cases hlocate : fs.locate p with
    | ok q => exact ⟨q, rfl⟩
    | error fault =>
      rw [hlocate] at h
      cases h
  obtain ⟨q, hq⟩ := hlocate
  unfold locate at hq
  obtain ⟨start, hstart, hwalk⟩ := bind_eq_ok.1 hq
  rw [hnames, walk_append] at hwalk
  obtain ⟨above, habove, hstep⟩ := bind_eq_ok.1 hwalk
  have hfound : fs.locate folder = .ok above :=
    bind_eq_ok.2 ⟨start, startOf_prefix hrooted hprefix hempty hstart, habove⟩
  have hfind : fs.find folder = .ok .folder := by
    refine bind_eq_ok.2 ⟨above, hfound, ?_⟩
    simp only [(of_walk_cons hstep).1]
  rw [contains, hfind]

end Files

/-! ### In a folder -/

/-- A name that a file can have: it has no slash, and leads to what it names. -/
structure IsFileName (name : String) : Prop where
  slashless : '/' ∉ name.toList
  ordinary : name ≠ "" ∧ name ≠ "." ∧ name ≠ ".."

namespace Path

theorem splitNames_of_slashless (cs : List Char) (h : '/' ∉ cs) : splitNames cs = [cs] := by
  induction cs with
  | nil => rfl
  | cons c cs ih =>
    rw [List.mem_cons, not_or] at h
    rw [splitNames, if_neg (Ne.symm h.1), ih h.2]

theorem ofText_fileName {name : String} (h : IsFileName name) : ofText name = ⟨false, [name]⟩ := by
  unfold ofText
  split
  · next cs hcs =>
    refine absurd ?_ h.slashless
    rw [hcs]
    exact List.mem_cons_self
  · rw [splitNames_of_slashless _ h.slashless, List.map_singleton, String.ofList_toList]

/-- The path of a file in a folder has the names of the folder and its own. -/
structure Within (folder : Path) (name : String) (p : Path) : Prop where
  rooted : folder.rooted = p.rooted
  names : p.names.filter (· ≠ "") = folder.names.filter (· ≠ "") ++ [name]
  text : folder.text.toList <+: p.text.toList

theorem within_join {folder : Path} {name : String} (h : IsFileName name)
    (hempty : folder.isEmpty = false) : Within folder name (folder.join (.ofText name)) := by
  have hname : [name].filter (· ≠ "") = [name] :=
    List.filter_cons_of_pos (by simpa using h.ordinary.1)
  rw [ofText_fileName h]
  unfold join
  rw [hempty, if_neg Bool.false_ne_true, if_neg Bool.false_ne_true]
  split
  · next hlast =>
    -- the slash at the end of the folder is the one before the name
    obtain ⟨before, hbefore⟩ := List.getLast?_eq_some_iff.1 hlast
    obtain ⟨rooted, names⟩ := folder
    obtain rfl : names = before ++ [""] := hbefore
    refine ⟨rfl, ?_, ?_⟩
    · rw [List.dropLast_concat, List.filter_append, List.filter_append, hname]
      simp
    · have hslash := joinNames_slash_prefix name.toList (before.map String.toList)
      rw [text, text, String.toList_ofList, String.toList_ofList, List.dropLast_concat,
        List.map_append, List.map_append]
      split
      · exact List.cons_prefix_cons.2 ⟨rfl, hslash⟩
      · exact hslash
  · refine ⟨rfl, ?_, text_prefix rfl (List.prefix_append _ _)⟩
    rw [List.filter_append, hname]

end Path

namespace Files

variable {fs fs' : Files} {p : Path} {place : Place}

/-! ### Idle names -/

theorem step_empty (place : Place) : place.step "" = place := by
  simp [Place.step, Path.isIdle]

/-- A name without letters asks for the folder that the next name asks for as well. -/
theorem walk_empty (next : String) (names : List String) :
    fs.walk place ("" :: next :: names) = fs.walk place (next :: names) := by
  rw [walk]
  split
  · next hnode => rw [walk, hnode]
  · next hnode => rw [walk, hnode]
  · rw [if_neg (by decide), step_empty]

/-- Names without letters do not matter unless one of them comes last. -/
theorem walk_filter (names : List String) (hlast : names.getLast? ≠ some "") :
    ∀ {place : Place}, fs.walk place (names.filter (· ≠ "")) = fs.walk place names := by
  induction names with
  | nil => exact rfl
  | cons name names ih =>
    intro place
    cases names with
    | nil =>
      have hname : name ≠ "" := by simpa using hlast
      rw [List.filter_cons_of_pos (by simpa using hname)]
      rfl
    | cons next names =>
      rw [List.getLast?_cons_cons] at hlast
      by_cases hname : name = ""
      · rw [hname, List.filter_cons_of_neg (by simp), ih hlast, walk_empty]
      · rw [List.filter_cons_of_pos (by simpa using hname), walk, walk, ih hlast]

/-- Where a folder is asked for after names, the idle ones among them do not matter. -/
theorem walk_of_filter (names : List String) : ∀ {place q : Place},
    fs.walk place (names.filter (· ≠ "") ++ [""]) = .ok q → fs.walk place names = .ok q := by
  induction names with
  | nil =>
    intro place q h
    obtain ⟨-, h⟩ := of_walk_cons h
    rwa [step_empty] at h
  | cons name names ih =>
    intro place q h
    by_cases hname : name = ""
    · rw [List.filter_cons_of_neg (by simp [hname])] at h
      obtain ⟨next, rest, hrest⟩ :=
        List.exists_cons_of_ne_nil (List.concat_ne_nil "" (names.filter (· ≠ "")))
      have hfolder : fs.node? place = some .folder := by
        rw [hrest] at h
        exact (of_walk_cons h).1
      rw [walk, hfolder, hname, step_empty, if_neg (by decide)]
      exact ih h
    · rw [List.filter_cons_of_pos (by simpa using hname), List.cons_append, walk] at h
      rw [walk]
      split at h
      · cases h
      · cases h
      · split at h
        · cases h
        · next hfits =>
          rw [if_neg hfits]
          exact ih h

/-! ### Files -/

theorem eq_of_startOf {start : Place} (h : fs.startOf p = .ok start) :
    start = if p.rooted then [] else fs.current := by
  unfold startOf at h
  simp only at h
  split at h
  · cases h
  split at h
  · cases h
  split at h
  · cases h
  · exact (Except.ok.inj h).symm

/-- A file that is in a folder is where the folder is, under its name. -/
theorem of_ending_join {folder : Path} {name : String} (hname : IsFileName name) {slashed : Bool}
    (h : fs.ending (folder.join (.ofText name)) = .ok (.name place slashed)) :
    ∃ dir, place = dir ++ [name] ∧
      if folder.isEmpty then dir = fs.current else fs.locate folder = .ok dir := by
  unfold ending at h
  obtain ⟨start, hstart, h⟩ := bind_eq_ok.1 h
  -- the names before the last one are those of the folder
  have hwalk : ∀ names, (folder.join (.ofText name)).names.filter (· ≠ "") = names ++ [name] →
      ∃ dir, place = dir ++ [name] ∧ fs.walk start (names ++ [""]) = .ok dir := by
    intro names hnames
    simp only at h
    rw [hnames, List.getLast?_concat, List.dropLast_concat] at h
    obtain ⟨dir, hdir, h⟩ := bind_eq_ok.1 h
    split at h
    · cases h
    · cases h
      exact ⟨dir, rfl, hdir⟩
  cases hempty : folder.isEmpty with
  | true =>
    have hjoin : folder.join (.ofText name) = ⟨false, [name]⟩ := by
      rw [Path.ofText_fileName hname, Path.join, if_neg Bool.false_ne_true, hempty, if_pos rfl]
    obtain ⟨dir, rfl, hdir⟩ := hwalk [] (by
      rw [hjoin]
      exact List.filter_cons_of_pos (by simpa using hname.ordinary.1))
    obtain ⟨-, hdir⟩ := of_walk_cons hdir
    rw [step_empty] at hdir
    obtain rfl := Except.ok.inj hdir
    rw [hjoin] at hstart
    exact ⟨start, rfl, eq_of_startOf hstart⟩
  | false =>
    have hwithin := Path.within_join hname hempty
    obtain ⟨dir, rfl, hdir⟩ := hwalk _ hwithin.names
    refine ⟨dir, rfl, ?_⟩
    rw [if_neg Bool.false_ne_true]
    exact bind_eq_ok.2 ⟨start, startOf_text_prefix hwithin.rooted hwithin.text hempty hstart,
      walk_of_filter _ hdir⟩

/-- A path that ends with a name leads where it ends. -/
theorem locate_of_ending (h : fs.ending p = .ok (.name place false))
    (hfits : (place.getLast?.getD "").utf8ByteSize ≤ longestName) : fs.locate p = .ok place := by
  unfold ending at h
  obtain ⟨start, hstart, h⟩ := bind_eq_ok.1 h
  simp only at h
  split at h
  · cases h
  · next last hlast =>
    obtain ⟨folder, hfolder, h⟩ := bind_eq_ok.1 h
    split at h
    · cases h
    · next hordinary =>
      obtain ⟨rfl, hslashed⟩ : folder ++ [last] = place ∧ ¬p.names.getLast? = some "" := by
        simpa using h
      rw [walk_append] at hfolder
      obtain ⟨above, habove, hstep⟩ := bind_eq_ok.1 hfolder
      obtain ⟨hnode, hrest⟩ := of_walk_cons hstep
      rw [step_empty] at hrest
      obtain rfl := Except.ok.inj hrest
      refine bind_eq_ok.2 ⟨start, hstart, ?_⟩
      have hnames : p.names.filter (· ≠ "") = (p.names.filter (· ≠ "")).dropLast ++ [last] := by
        obtain ⟨before, hbefore⟩ := List.getLast?_eq_some_iff.1 hlast
        rw [hbefore, List.dropLast_concat]
      have hname : last ≠ "" := by
        have hmem := List.mem_of_getLast? hlast
        simpa using (List.mem_filter.1 hmem).2
      rw [← walk_filter _ hslashed, hnames, walk_append]
      refine bind_eq_ok.2 ⟨above, habove, ?_⟩
      have hlong : ¬longestName < last.utf8ByteSize := by simpa using hfits
      rw [walk, hnode]
      simp only [if_neg hlong, walk, Place.step, Path.isIdle]
      simp only [Bool.or_eq_true, decide_eq_true_eq, not_or] at hordinary ⊢
      rw [if_neg (by simp [hname, hordinary.1]), if_neg hordinary.2]

/-! ### What was written -/

/-- Writing a file leaves the folders as they are. -/
theorem write_sameFolders {content : FileContent} (h : fs.write p content = .ok fs') :
    SameFolders fs fs' := by
  obtain ⟨place, hending, hfits, rfl⟩ := of_write h
  have hnode : fs.node? place ≠ some .folder := by
    intro hfolder
    have hlast : fs.lastNode? place = .ok (some .folder) := by
      rw [lastNode?, if_pos hfits, hfolder]
    have hwritable : fs.writable p = .error .isAFolder := by
      unfold writable
      simp [hending, hlast, bind, Except.bind]
    rw [write, hwritable] at h
    cases h
  refine ⟨rfl, fun q => ?_⟩
  rw [node?_put (ne_nil_of_ending hending)]
  by_cases hq : q = place
  · rw [if_pos hq, hq]
    simp [hnode]
  · rw [if_neg hq]

/-- What was written can be read. -/
theorem read_of_write {text : String} (h : fs.write p (.text text) = .ok fs') :
    fs'.read p = .ok text := by
  obtain ⟨place, hending, hfits, rfl⟩ := of_write h
  have hlocate : (fs.put place (.file (.text text))).locate p = .ok place :=
    locate_of_ending ((write_sameFolders h).ending hending) hfits
  have hnode : (fs.put place (.file (.text text))).node? place = some (.file (.text text)) := by
    rw [node?_put (ne_nil_of_ending hending), if_pos rfl]
  have hfind : (fs.put place (.file (.text text))).find p = .ok (.file (.text text)) := by
    refine bind_eq_ok.2 ⟨place, hlocate, ?_⟩
    rw [hnode]
  exact bind_eq_ok.2 ⟨_, hfind, rfl⟩

theorem contains_of_read {text : String} (h : fs.read p = .ok text) : fs.contains p = true := by
  obtain ⟨node, hfind, -⟩ := bind_eq_ok.1 h
  rw [contains, hfind]

end Files

end Telemetry
