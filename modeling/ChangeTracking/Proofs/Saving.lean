import ChangeTracking.Proofs.NewFiles
import ChangeTracking.Proofs.Restart

/-!
# Saving is all or nothing

`MapFile.save` answers with a tree or with a failure, so it cannot leave anything half done.  What it
stands for takes several moves, though.  A new file is made beside the map's file, the image is
written to it, and it is moved to where the map's path leads; and if a move fails, the new file is
discarded.  `MapFile.saveMoves` makes these moves one after the other, with whatever mishap there may
be on the way.  It ends with the tree of `save` (`save_of_saveMoves`), or with a failure and the tree
that it began with (`tree_saveMoves`).

What was saved is read back by the path that it was saved under, unless the path leads over the very
link that it names (`SavedAt`).
-/

namespace ChangeTracking

/-! ## The moves of a save -/

/-- The name of a new file in a directory: six letters or digits that were chosen for it, after
`.tmp`. -/
structure FreshName where
  chosen : List Char
  six : chosen.length = 6
  alphanumeric : chosen.all Char.isAlphanum = true

namespace FreshName

variable (n : FreshName)

/-- The name as a text. -/
def text : String := ".tmp" ++ String.ofList n.chosen

lemma toList_text : n.text.toList = '.' :: 't' :: 'm' :: 'p' :: n.chosen := by
  simp [text]

lemma notMem_text {c : Char} (h : c ∉ ".tmp".toList) (hc : c.isAlphanum = false) :
    c ∉ n.text.toList := by
  rw [text, String.toList_append, List.mem_append, not_or]
  refine ⟨h, fun hmem => ?_⟩
  rw [List.all_eq_true.mp n.alphanumeric c (by simpa using hmem)] at hc
  cases hc

lemma validName_text : ValidName n.text := by
  have hlist := n.toList_text
  refine ⟨?_, ?_, ?_, n.notMem_text (by decide) (by decide)⟩
  all_goals
    intro htext
    rw [htext] at hlist
    simp at hlist

lemma utf8ByteSize_text : n.text.utf8ByteSize = ".tmp000000".utf8ByteSize := by
  rw [text, String.utf8ByteSize_append, Tree.utf8ByteSize_of_alphanumeric n.alphanumeric, n.six]
  decide

end FreshName

namespace MapFile

variable {t t' : Tree} {p : Path} {m : ChangeMap} {place : Place}

/-- What may happen to a save besides what its paths lead to. -/
inductive Mishap
  /-- No file can be made. -/
  | making (cause : FileError)
  /-- The writing stops, and this much is in the file. -/
  | writing (written : Contents) (cause : FileError)
  /-- The file cannot be moved. -/
  | moving (cause : FileError)

/-- Keeps a map in the file that a path names, move by move: makes a file of the given name, writes
the image to it and moves it.  A file that was made and not moved is discarded. -/
def saveMoves (t : Tree) (p : Path) (m : ChangeMap) (n : FreshName) (mishap? : Option Mishap) :
    Tree.Outcome :=
  match temporaryDirectory t p with
  | .error e => ⟨t, some e⟩
  | .ok directory =>
    let q := directory.join n.text
    let image := Contents.ofBytes m.toImage
    match t.freePlace q, mishap? with
    | .error e, _ | .ok _, some (.making e) => ⟨t, some e⟩
    | .ok beside, some (.writing written e) => ⟨(t.put beside (.file written)).discard q, some e⟩
    | .ok beside, some (.moving e) => ⟨(t.put beside (.file image)).discard q, some e⟩
    | .ok beside, none =>
      match t.permit (.write image) beside with
      | .error e => ⟨(t.put beside (.file (.ofBytes []))).discard q, some e⟩
      | .ok _ =>
        let full := t.put beside (.file image)
        match full.moveFile q p with
        | .ok t' => ⟨t', none⟩
        | .error e => ⟨full.discard q, some e⟩

/-- A map is saved if a file can be made beside the map's file, can be written, and can take its
place. -/
lemma save_eq_ok :
    save t p m = .ok t' ↔
      (∃ directory beside, temporaryDirectory t p = .ok directory ∧
        t.spot (directory.join ".tmp000000") = .ok (.entry beside false) ∧
        t.refusal? .make beside.tail = none ∧
        t.refusal? (.write (.ofBytes m.toImage)) beside.tail = none) ∧
      t.replaceFile p (.ofBytes m.toImage) = .ok t' := by
  unfold save
  rw [temporaryPath_eq]
  cases hdirectory : temporaryDirectory t p with
  | error e => simp [Except.map, bind, Except.bind]
  | ok directory =>
    simp only [Except.map, bind, Except.bind, Except.ok.injEq]
    cases hfile : t.permitFile (directory.join ".tmp000000") (.ofBytes m.toImage) with
    | error e =>
      refine iff_of_false (by simp) ?_
      rintro ⟨⟨_, beside, rfl, hspot, hmade, hwritten⟩, -⟩
      rw [Tree.permitFile_eq_ok.mpr ⟨beside, false, hspot, hmade, hwritten⟩] at hfile
      cases hfile
    | ok _ =>
      obtain ⟨place, slash, hspot, hgranted⟩ := Tree.permitFile_eq_ok.mp hfile
      obtain ⟨beside, hbeside⟩ : ∃ beside, Tree.Spot.entry place slash = .entry beside false := by
        refine exists_spot_temporaryPath (t := t) (p := p) ?_ hspot
        rw [temporaryPath_eq, hdirectory, Except.map]
      obtain ⟨rfl, rfl⟩ := Tree.Spot.entry.inj hbeside
      exact ⟨fun h => ⟨⟨directory, place, rfl, hspot, hgranted⟩, h⟩, fun h => h.2⟩

/-- What the moves come to.  They either stop, with the tree as it was before them, or make a file and
put it in the place of the map's file. -/
lemma saveMoves_cases (t : Tree) (p : Path) (m : ChangeMap) (n : FreshName)
    (mishap? : Option Mishap) :
    (∃ e, saveMoves t p m n mishap? = ⟨t, some e⟩) ∨
      ∃ t' directory beside, saveMoves t p m n mishap? = ⟨t', none⟩ ∧ mishap? = none ∧
        temporaryDirectory t p = .ok directory ∧ t.freePlace (directory.join n.text) = .ok beside ∧
        t.refusal? (.write (.ofBytes m.toImage)) beside.tail = none ∧
        t.replaceFile p (.ofBytes m.toImage) = .ok t' := by
  unfold saveMoves
  cases hdirectory : temporaryDirectory t p with
  | error e => exact .inl ⟨e, rfl⟩
  | ok directory =>
    dsimp only
    cases hnew : t.freePlace (directory.join n.text) with
    | error e => exact .inl ⟨e, rfl⟩
    | ok beside =>
      have hdiscard := Tree.discard_put hnew
      match mishap? with
      | some (.making e) => exact .inl ⟨e, rfl⟩
      | some (.writing written e) => exact .inl ⟨e, by simp only [hdiscard]⟩
      | some (.moving e) => exact .inl ⟨e, by simp only [hdiscard]⟩
      | none =>
        dsimp only
        cases hwritten : t.permit (.write (.ofBytes m.toImage)) beside with
        | error e => exact .inl ⟨e, by simp only [hdiscard]⟩
        | ok _ =>
          dsimp only
          cases hmove : (t.put beside (.file (.ofBytes m.toImage))).moveFile
              (directory.join n.text) p with
          | error e => exact .inl ⟨e, by simp only [hdiscard]⟩
          | ok t' =>
            exact .inr ⟨t', directory, beside, rfl, rfl, rfl, hnew, Tree.permit_eq_ok.mp hwritten,
              (Tree.moveFile_put hnew _).mp hmove⟩

/-- A failure leaves the tree as it was, wherever the moves stop. -/
lemma tree_saveMoves {n : FreshName} {mishap? : Option Mishap}
    (h : (saveMoves t p m n mishap?).failure? ≠ none) : (saveMoves t p m n mishap?).tree = t := by
  rcases saveMoves_cases t p m n mishap? with ⟨e, heq⟩ | ⟨t', _, _, heq, -⟩
  · rw [heq]
  · rw [heq] at h
    exact absurd rfl h

/-- Moves that are all made come to what `save` says. -/
lemma save_of_saveMoves {n : FreshName} {mishap? : Option Mishap}
    (h : (saveMoves t p m n mishap?).failure? = none) :
    save t p m = .ok (saveMoves t p m n mishap?).tree := by
  rcases saveMoves_cases t p m n mishap? with ⟨e, heq⟩ | ⟨t', directory, beside, heq, -, hdirectory,
    hnew, hwritten, hreplace⟩
  · rw [heq] at h
    cases h
  · obtain ⟨hbeside, -, hmade⟩ := Tree.freePlace_eq_ok.mp hnew
    obtain ⟨beside', hspot, htail⟩ := Tree.spot_join_of_size (text_temporaryDirectory_ne hdirectory)
      n.validName_text (by decide) (by decide) n.utf8ByteSize_text.symm hbeside
    rw [← htail] at hmade hwritten
    rw [heq]
    exact save_eq_ok.mpr ⟨⟨directory, beside', hdirectory, hspot, hmade, hwritten⟩, hreplace⟩

/-- A new file's name is not taken. -/
def NameFree (t : Tree) (p : Path) (n : FreshName) : Prop :=
  ∀ directory place slash, temporaryDirectory t p = .ok directory →
    t.spot (directory.join n.text) = .ok (.entry place slash) → t.find? place = none

/-- Where `save` succeeds, all moves are made, unless something happens to them or the name of the new
file is taken. -/
lemma saveMoves_of_save {n : FreshName} (hsave : save t p m = .ok t') (hfree : NameFree t p n) :
    saveMoves t p m n none = ⟨t', none⟩ := by
  obtain ⟨⟨directory, beside', hdirectory, hspot, hmade, hwritten⟩, hreplace⟩ := save_eq_ok.mp hsave
  obtain ⟨beside, hbeside, htail⟩ := Tree.spot_join_of_size (text_temporaryDirectory_ne hdirectory)
    (by decide) n.validName_text (n.notMem_text (by decide) (by decide)) n.utf8ByteSize_text hspot
  rw [← htail] at hmade hwritten
  have hnew := Tree.freePlace_eq_ok.mpr ⟨hbeside, hfree _ _ _ hdirectory hbeside, hmade⟩
  have hwrite := Tree.permit_eq_ok.mpr hwritten
  have hmove := (Tree.moveFile_put hnew _).mpr hreplace
  unfold saveMoves
  simp only [hdirectory, hnew, hwrite, hmove]

/-! ## What is there after a save -/

/-- What became of a tree in which a map was saved under a path. -/
structure SavedAt (p : Path) (m : ChangeMap) (t t' : Tree) (place : Place) : Prop where
  named : t.spot p = .ok (.entry place false)
  file : ∃ contents, t'.find? place = some (.file contents) ∧
    contents.size = (Written.ofMap m).bytes ∧
    ChangeMap.ofImage contents.toBytes = .ok { m with valid := true }
  others : ∀ q, q ≠ place → t'.find? q = t.find? q
  working : t'.working = t.working
  loaded : ¬ t.LeadsOverItself p → load t' p = .ok (some { m with valid := true })
  /-- The file took the place of a link that was on the way. -/
  cut : t.LeadsOverItself p →
    t.LinksToDirectory place ∧ load t' p = .error (.file .notADirectory)

lemma savedAt_of_save (h : save t p m = .ok t') : ∃ place, SavedAt p m t t' place := by
  obtain ⟨place, hspot, hnot, rfl⟩ := exists_of_save h
  have hfind := Tree.find?_put (t := t) (Tree.place_ne_nil hnot) (.file (.ofBytes m.toImage))
  refine ⟨place, hspot, ⟨_, by rw [hfind, if_pos rfl], ?_, ?_⟩, ?_, rfl, ?_, ?_⟩
  · show m.toImage.length + 0 = (Written.ofMap m).bytes
    rw [ChangeMap.length_toImage]
    rfl
  · rw [toBytes_ofBytes, ChangeMap.ofImage_toImage]
  · intro q hq
    rw [hfind, if_neg hq]
  · intro hover
    have htouches := Bool.eq_false_of_not_eq_true fun htouches => hover ⟨place, hspot, htouches⟩
    exact load_put hnot (Tree.spot_put_file hspot hnot htouches _)
  · intro hover
    obtain ⟨hlinks, hcontents⟩ := Tree.contentsAt_cut hspot hnot hover (.ofBytes m.toImage)
    exact ⟨hlinks, by rw [load, hcontents]⟩

end MapFile

namespace ChangeMap

lemma map_slot_range (m : ChangeMap) : (List.range m.slotCount).map m.slot = m.slots.toList := by
  apply List.ext_getElem
  · simp [slotCount]
  · intro j hj _
    have hsize : j < m.slots.size := by simpa [slotCount] using hj
    simp [slot_eq_getElem hsize]

lemma markedCount_eq (m : ChangeMap) :
    m.markedCount = ((List.range m.slotCount).filter fun j => m.slot j ≠ Lsn.never).length := by
  rw [markedCount, ← Array.countP_toList, ← map_slot_range, List.countP_map,
    List.countP_eq_length_filter]
  congr 2
  funext j
  rw [Function.comp_apply, Bool.eq_iff_iff, Lsn.known_iff, decide_eq_true_eq]

end ChangeMap

namespace Tracking

variable {s : Tracking}

/-- Keeps the live map on disk, move by move. -/
def checkpointMoves (s : Tracking) (n : FreshName) (mishap? : Option MapFile.Mishap) :
    Option FileError × Tracking :=
  match s.liveMap? with
  | none => (none, s)
  | some m =>
    let outcome := MapFile.saveMoves s.host.tree s.tracker.config.mapLocation m n mishap?
    (outcome.failure?, s.withHost { s.host with tree := outcome.tree })

/-- A checkpoint that fails changes nothing, wherever its moves stop, and one that does not fail comes
to what `checkpoint` says. -/
lemma checkpointMoves_spec (s : Tracking) (n : FreshName) (mishap? : Option MapFile.Mishap) :
    ((s.checkpointMoves n mishap?).1 = none →
        s.checkpoint = (.ok (), (s.checkpointMoves n mishap?).2)) ∧
      ((s.checkpointMoves n mishap?).1 ≠ none → (s.checkpointMoves n mishap?).2 = s) := by
  unfold checkpointMoves checkpoint
  cases hlive : s.liveMap? with
  | none => exact ⟨fun _ => rfl, fun h => absurd rfl h⟩
  | some m =>
    constructor
    · intro hdone
      simp only [MapFile.save_of_saveMoves hdone]
    · intro hfailed
      simp only [MapFile.tree_saveMoves hfailed]
      rfl

lemma checkpoint_of_error {e : Error} (h : s.checkpoint.1 = .error e) : s.checkpoint.2 = s := by
  rcases s.checkpoint_cases with ⟨-, heq⟩ | ⟨live, -, ⟨fault, -, heq⟩ | ⟨tree, -, heq⟩⟩
  · rw [heq]
  · rw [heq]
  · rw [heq] at h
    cases h

lemma replaceMap_of_bad_size {bytes : UInt64} (h : ¬ GoodMapSize bytes) :
    s.replaceMap bytes = (.error (.invalidMapSize bytes), s) := by
  rcases s.replaceMap_cases bytes with ⟨-, heq⟩ | ⟨hgood, -⟩
  · exact heq
  · exact absurd hgood h

end Tracking

namespace MapFile

end MapFile

end ChangeTracking
