import Telemetry.Export.Writer
import Telemetry.Proofs.Plain

/-!
# Trees that gain a file

An export adds one file to a tree of files, first under a name of its own, then under its last one.
As long as nothing was at either place, the file can be taken away again, and the tree is as before.
Where a path leads does not depend on files: only on folders.
-/

namespace Telemetry

namespace Files

/-- The content of the file at a place. -/
def file? (fs : Files) (place : Place) : Option FileContent :=
  match fs.node? place with
  | some (.file content) => some content
  | _ => none

/-- The same files are in both trees. -/
def SameFiles (fs fs' : Files) : Prop := ∀ q, fs'.file? q = fs.file? q

/-- The same folders are in both trees. -/
structure SameFolders (fs fs' : Files) : Prop where
  current : fs'.current = fs.current
  folder : ∀ q, fs'.node? q = some .folder ↔ fs.node? q = some .folder

variable {fs fs' fs'' : Files} {p p' : Path} {place : Place}

theorem SameFiles.refl (fs : Files) : SameFiles fs fs := fun _ => rfl

theorem SameFiles.trans (h : SameFiles fs fs') (h' : SameFiles fs' fs'') : SameFiles fs fs'' :=
  fun q => (h' q).trans (h q)

/-! ### Places -/

theorem find?_filter_other {q : Place} (hq : q ≠ place) (nodes : List (Place × FileNode)) :
    (nodes.filter fun e => e.1 != place).find? (fun e => e.1 == q) =
      nodes.find? fun e => e.1 == q := by
  rw [List.find?_filter]
  congr 1
  funext e
  by_cases he : e.1 = q
  · simp [he, hq]
  · simp [he]

theorem node?_put (hplace : place ≠ []) (node : FileNode) (q : Place) :
    (fs.put place node).node? q = if q = place then some node else fs.node? q := by
  unfold node? put
  by_cases hq : q = place
  · subst hq
    have hnone : (fs.nodes.filter fun e => e.1 != q).find? (fun e => e.1 == q) = none := by
      simp [List.find?_eq_none]
    rw [if_neg hplace, if_pos rfl, List.find?_append, hnone]
    simp
  · have hnot : (place == q) = false := beq_false_of_ne (Ne.symm hq)
    rw [if_neg hq, List.find?_append, find?_filter_other hq]
    simp [hnot]

theorem node?_drop (hplace : place ≠ []) (q : Place) :
    (fs.drop place).node? q = if q = place then none else fs.node? q := by
  unfold node? drop
  by_cases hq : q = place
  · subst hq
    simp [hplace]
  · rw [if_neg hq, find?_filter_other hq]

/-! ### Paths -/

theorem SameFolders.symm (h : SameFolders fs fs') : SameFolders fs' fs :=
  ⟨h.current.symm, fun q => (h.folder q).symm⟩

/-- Where names lead depends on folders alone. -/
theorem SameFolders.walk (h : SameFolders fs fs') (names : List String) :
    ∀ {place q : Place}, fs.walk place names = .ok q → fs'.walk place names = .ok q := by
  induction names with
  | nil => exact fun hq => hq
  | cons name names ih =>
    intro place q hq
    unfold Files.walk at hq ⊢
    split at hq
    · cases hq
    · cases hq
    · next hfolder =>
      rw [(h.folder place).2 hfolder]
      simp only
      split at hq
      · cases hq
      · next hfits =>
        rw [if_neg hfits]
        exact ih hq

theorem SameFolders.startOf (h : SameFolders fs fs') (p : Path) : fs'.startOf p = fs.startOf p := by
  unfold Files.startOf
  rw [h.current]

theorem SameFolders.ending (h : SameFolders fs fs') {e : PathEnding} (he : fs.ending p = .ok e) :
    fs'.ending p = .ok e := by
  unfold Files.ending at he ⊢
  rw [h.startOf]
  obtain ⟨start, hstart, he⟩ := bind_eq_ok.1 he
  refine bind_eq_ok.2 ⟨start, hstart, ?_⟩
  simp only at he ⊢
  split at he
  · exact he
  · obtain ⟨folder, hwalk, he⟩ := bind_eq_ok.1 he
    exact bind_eq_ok.2 ⟨folder, h.walk _ hwalk, he⟩

theorem ne_nil_of_ending {slashed : Bool} (h : fs.ending p = .ok (.name place slashed)) :
    place ≠ [] := by
  unfold ending at h
  obtain ⟨start, -, h⟩ := bind_eq_ok.1 h
  simp only at h
  split at h
  · cases h
  · obtain ⟨folder, -, h⟩ := bind_eq_ok.1 h
    split at h
    · cases h
    · cases h
      simp

/-! ### Creating folders -/

theorem createFolder_sameFiles (h : fs.createFolder p = .ok fs') : SameFiles fs fs' := by
  obtain ⟨e, hending, h⟩ := bind_eq_ok.1 h
  cases e with
  | folder => cases h
  | name place slashed =>
    obtain ⟨node, hnode, h⟩ := bind_eq_ok.1 h
    cases node with
    | some node => cases h
    | none =>
      cases h
      unfold lastNode? at hnode
      split at hnode
      · rw [Except.ok.injEq] at hnode
        intro q
        rw [file?, file?, node?_put (ne_nil_of_ending hending)]
        by_cases hq : q = place
        · rw [if_pos hq, hq, hnode]
        · rw [if_neg hq]
      · cases hnode

theorem ensureFolder_sameFiles (h : fs.ensureFolder p = .ok fs') : SameFiles fs fs' := by
  unfold ensureFolder at h
  split at h
  · split at h
    · cases h
      exact .refl fs
    · cases h
  · exact createFolder_sameFiles h

theorem createHighest_sameFiles (ps : List Path) :
    ∀ {missing : List Path} {fs' : Files}, fs.createHighest ps = .ok (missing, fs') →
      SameFiles fs fs' := by
  induction ps with
  | nil =>
    intro missing fs' h
    cases h
    exact .refl fs
  | cons p above ih =>
    intro missing fs' h
    unfold createHighest at h
    split at h
    · next hensure =>
      cases h
      exact ensureFolder_sameFiles hensure
    · cases habove : fs.createHighest above with
      | error fault =>
        rw [habove] at h
        cases h
      | ok result =>
        obtain ⟨missing', fs₁⟩ := result
        rw [habove] at h
        cases h
        exact ih habove
    · cases h

theorem createEach_sameFiles (ps : List Path) :
    ∀ {fs : Files}, SameFiles fs (fs.createEach ps).2 := by
  induction ps with
  | nil => exact fun {fs} => .refl fs
  | cons p below ih =>
    intro fs
    unfold createEach
    split
    · next hensure => exact (ensureFolder_sameFiles hensure).trans ih
    · exact .refl fs

theorem createFolders_sameFiles (fs : Files) (p : Path) : SameFiles fs (fs.createFolders p).2 := by
  unfold createFolders
  split
  · next hhighest => exact (createHighest_sameFiles _ hhighest).trans (createEach_sameFiles _)
  · exact .refl fs

/-! ### One file more -/

/-- Nothing is where the path leads. -/
def Free (fs : Files) (p : Path) : Prop :=
  ∀ place slashed, fs.ending p = .ok (.name place slashed) → fs.node? place = none

theorem Free.of_ending (place : Place) {slashed : Bool} (h : fs.ending p = .ok (.name place slashed))
    (hnone : fs.node? place = none) : fs.Free p := by
  intro place' slashed' h'
  cases h.symm.trans h'
  exact hnone

/-- The second tree is the first one with a file at the end of a path, where nothing was. -/
structure Gains (fs fs' : Files) (p : Path) (place : Place) (content : FileContent) : Prop where
  current : fs'.current = fs.current
  ending : fs.ending p = .ok (.name place false)
  /-- The last name is not too long. -/
  fits : (place.getLast?.getD "").utf8ByteSize ≤ longestName
  free : fs.node? place = none
  node : ∀ q, fs'.node? q = if q = place then some (.file content) else fs.node? q

variable {content content' : FileContent}

theorem Gains.sameFolders (h : Gains fs fs' p place content) : SameFolders fs fs' where
  current := h.current
  folder := by
    intro q
    rw [h.node]
    by_cases hq : q = place
    · rw [if_pos hq, hq, h.free]
      simp
    · rw [if_neg hq]

theorem Gains.file? (h : Gains fs fs' p place content) (q : Place) :
    fs'.file? q = if q = place then some content else fs.file? q := by
  rw [Files.file?, h.node]
  by_cases hq : q = place
  · rw [if_pos hq, if_pos hq]
  · rw [if_neg hq, if_neg hq]
    rfl

theorem of_lastNode? {node : Option FileNode} (h : fs.lastNode? place = .ok node) :
    (place.getLast?.getD "").utf8ByteSize ≤ longestName ∧ fs.node? place = node := by
  unfold lastNode? at h
  split at h
  · next hfits => exact ⟨hfits, Except.ok.inj h⟩
  · cases h

theorem of_write (h : fs.write p content = .ok fs') :
    ∃ place, fs.ending p = .ok (.name place false) ∧
      (place.getLast?.getD "").utf8ByteSize ≤ longestName ∧
      fs' = fs.put place (.file content) := by
  unfold write at h
  cases hwritable : fs.writable p with
  | error fault =>
    rw [hwritable] at h
    cases h
  | ok place =>
    rw [hwritable] at h
    cases h
    obtain ⟨e, hending, hwritable⟩ := bind_eq_ok.1 hwritable
    split at hwritable
    · cases hwritable
    · cases hwritable
    · obtain ⟨node, hnode, hwritable⟩ := bind_eq_ok.1 hwritable
      split at hwritable
      · cases hwritable
      · cases hwritable
        exact ⟨place, hending, (of_lastNode? hnode).1, rfl⟩

/-- A file that is written where nothing was is one more. -/
theorem Free.write (hfree : fs.Free p) (h : fs.write p content = .ok fs') :
    ∃ place, Gains fs fs' p place content := by
  obtain ⟨place, hending, hfits, rfl⟩ := of_write h
  exact ⟨place, rfl, hending, hfits, hfree place false hending,
    node?_put (ne_nil_of_ending hending) _⟩

/-- Writing it again changes what it holds. -/
theorem Gains.write (hgains : Gains fs fs' p place content)
    (h : fs'.write p content' = .ok fs'') : Gains fs fs'' p place content' := by
  obtain ⟨q, hending, hfits, rfl⟩ := of_write h
  have hsame := hgains.sameFolders.symm.ending hending
  rw [hgains.ending, Except.ok.injEq, PathEnding.name.injEq] at hsame
  obtain ⟨rfl, -⟩ := hsame
  refine ⟨hgains.current, hgains.ending, hfits, hgains.free, fun q => ?_⟩
  rw [node?_put (ne_nil_of_ending hending), hgains.node]
  split <;> rfl

/-- Moving it to where nothing was leaves one file more. -/
theorem Gains.rename (hgains : Gains fs fs' p place content) (hfree : fs.Free p')
    (h : fs'.rename p p' = .ok fs'') : ∃ place', Gains fs fs'' p' place' content := by
  have hsource := hgains.sameFolders.ending hgains.ending
  unfold Files.rename at h
  rw [hsource] at h
  obtain ⟨source, hsource', h⟩ := bind_eq_ok.1 h
  cases hsource'
  obtain ⟨target, htarget, h⟩ := bind_eq_ok.1 h
  have hending := hgains.sameFolders.symm.ending htarget
  cases target with
  | folder => cases h
  | name place' slashed =>
    obtain ⟨node, hnode, h⟩ := bind_eq_ok.1 h
    have hfound := (of_lastNode? hnode).2
    rw [hgains.node, if_pos rfl] at hfound
    subst hfound
    obtain ⟨there, hthere, h⟩ := bind_eq_ok.1 h
    split at h
    · cases h
    · next hslashed =>
      split at h
      · cases h
      · cases h
        obtain rfl : slashed = false := by simpa using hslashed
        refine ⟨place', hgains.current, hending, (of_lastNode? hthere).1,
          hfree place' false hending, fun q => ?_⟩
        rw [node?_put (ne_nil_of_ending hending), node?_drop (ne_nil_of_ending hgains.ending),
          hgains.node]
        -- where it was before, there was nothing at first
        have hbefore : (if q = place then none
            else if q = place then some (.file content) else fs.node? q) = fs.node? q := by
          by_cases hq : q = place
          · rw [if_pos hq, hq, hgains.free]
          · rw [if_neg hq, if_neg hq]
        rw [hbefore]

/-- Discarding it leaves the files that were there before. -/
theorem Gains.discard (hgains : Gains fs fs' p place content) :
    SameFiles fs (fs'.discard p) := by
  have hending := hgains.sameFolders.ending hgains.ending
  have hnode : fs'.node? place = some (.file content) := by rw [hgains.node, if_pos rfl]
  have hlast : fs'.lastNode? place = .ok (some (.file content)) := by
    rw [lastNode?, if_pos hgains.fits, hnode]
  have hremove : fs'.remove p = .ok (fs'.drop place) := by
    unfold remove
    exact bind_eq_ok.2 ⟨_, hending, bind_eq_ok.2 ⟨_, hlast, rfl⟩⟩
  intro q
  rw [Files.discard, hremove]
  change (fs'.drop place).file? q = fs.file? q
  rw [Files.file?, Files.file?, node?_drop (ne_nil_of_ending hgains.ending), hgains.node]
  by_cases hq : q = place
  · rw [if_pos hq, hq, hgains.free]
  · rw [if_neg hq, if_neg hq]

end Files

end Telemetry
