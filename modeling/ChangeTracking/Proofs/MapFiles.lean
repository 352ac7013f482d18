import ChangeTracking.Proofs.Images
import ChangeTracking.Proofs.Trails

/-!
# Maps are kept on disk

A path has a *site* for a map if it names an entry of a directory that is not a directory itself, and
if there is also a place for a temporary file (`MapFile.Site`).  A map can be saved there if the system
refuses none of what has to be done (`MapFile.Writable`).  A path is the *home* of a map if it has a
site that stays one whatever file is put there (`MapFile.Home`).  What is saved at a home can be loaded
from there, and it is still a home (`MapFile.Home.save_load`).

That a file put there changes where the path leads can only be if a link was there before
(`MapFile.home_of_no_link`).
-/

namespace ChangeTracking

namespace Tree

/-! ## Putting files into trees -/

variable {t : Tree} {place : Place}

lemma lookup_putEntry (p q : Place) (node : Node) (entries : List (Place × Node)) :
    (putEntry p node entries).lookup q = if q = p then some node else entries.lookup q := by
  induction entries with
  | nil =>
    by_cases hq : q = p
    · simp [putEntry, hq]
    · have hne : (q == p) = false := beq_eq_false_iff_ne.mpr hq
      simp [putEntry, List.lookup_cons, hne, hq]
  | cons e rest ih =>
    obtain ⟨r, other⟩ := e
    by_cases hr : r = p
    · subst hr
      by_cases hq : q = r
      · simp [putEntry, hq]
      · have hne : (q == r) = false := beq_eq_false_iff_ne.mpr hq
        simp [putEntry, List.lookup_cons, hne, hq]
    · by_cases hq : q = r
      · subst hq
        simp [putEntry, hr]
      · have hne : (q == r) = false := beq_eq_false_iff_ne.mpr hq
        simp only [putEntry, if_neg hr, List.lookup_cons, hne, ih]

lemma find?_put (hplace : place ≠ []) (node : Node) (q : Place) :
    (t.put place node).find? q = if q = place then some node else t.find? q := by
  cases q with
  | nil => simp [find?, Ne.symm hplace]
  | cons name dir => exact lookup_putEntry _ _ _ _

lemma putEntry_putEntry (p : Place) (node other : Node) (entries : List (Place × Node)) :
    putEntry p other (putEntry p node entries) = putEntry p other entries := by
  induction entries with
  | nil => simp [putEntry]
  | cons e rest ih =>
    obtain ⟨r, held⟩ := e
    by_cases hr : r = p
    · simp [putEntry, hr]
    · simp [putEntry, hr, ih]

lemma put_put (t : Tree) (p : Place) (node other : Node) :
    (t.put p node).put p other = t.put p other := by
  simp only [put, putEntry_putEntry]

@[simp] lemma refusal?_put (t : Tree) (p : Place) (node : Node) :
    (t.put p node).refusal? = t.refusal? := rfl

lemma permit_eq_ok {what : Modification} :
    t.permit what place = .ok () ↔ t.refusal? what place.tail = none := by
  unfold permit
  split <;> simp_all

/-- A new file can be made and written if the system refuses neither. -/
lemma permitFile_eq_ok {p : Path} {contents : Contents} :
    t.permitFile p contents = .ok () ↔
      ∃ place slash, t.spot p = .ok (.entry place slash) ∧ t.refusal? .make place.tail = none ∧
        t.refusal? (.write contents) place.tail = none := by
  rw [permitFile, bind_eq_ok]
  constructor
  · rintro ⟨spot, hspot, h⟩
    cases spot with
    | entry place slash =>
      obtain ⟨_, hmade, hwritten⟩ := bind_eq_ok.mp h
      exact ⟨place, slash, hspot, permit_eq_ok.mp hmade, permit_eq_ok.mp hwritten⟩
    | same | around | root => cases h
  · rintro ⟨place, slash, hspot, hmade, hwritten⟩
    exact ⟨_, hspot, bind_eq_ok.mpr ⟨(), permit_eq_ok.mpr hmade, permit_eq_ok.mpr hwritten⟩⟩

/-- Two trees that differ at most at one place, where neither has a directory. -/
structure DiffersAt (place : Place) (t t' : Tree) : Prop where
  working : t'.working = t.working
  find? : ∀ q, q ≠ place → t'.find? q = t.find? q
  not_directory : t.isDirectory place = false
  not_directory' : t'.isDirectory place = false

lemma place_ne_nil (h : t.isDirectory place = false) : place ≠ [] := by
  rintro rfl
  simp [isDirectory, Tree.find?] at h

lemma differsAt_put (h : t.isDirectory place = false) (contents : Contents) :
    DiffersAt place t (t.put place (.file contents)) := by
  have hfind := find?_put (t := t) (place_ne_nil h) (.file contents)
  refine ⟨rfl, fun q hq => ?_, h, ?_⟩
  · rw [hfind, if_neg hq]
  · rw [isDirectory, hfind, if_pos rfl]

/-- A file is replaced if there is no directory and the system does not refuse it. -/
lemma replaceFile_eq_ok {t' : Tree} {p : Path} {contents : Contents} :
    t.replaceFile p contents = .ok t' ↔
      ∃ place, t.spot p = .ok (.entry place false) ∧ t.isDirectory place = false ∧
        t.refusal? .replace place.tail = none ∧ t' = t.put place (.file contents) := by
  rw [replaceFile, bind_eq_ok]
  constructor
  · rintro ⟨spot, hspot, h⟩
    cases spot with
    | entry place slash =>
      dsimp only at h
      split at h
      · cases h
      · next hslash =>
        split at h
        · cases h
        · next hdir =>
          obtain ⟨_, hgranted, h⟩ := bind_eq_ok.mp h
          rw [Bool.not_eq_true] at hslash hdir
          exact ⟨place, hslash ▸ hspot, hdir, permit_eq_ok.mp hgranted, (pure_eq_ok.mp h).symm⟩
    | same | around | root => cases h
  · rintro ⟨place, hspot, hdir, hgranted, rfl⟩
    refine ⟨_, hspot, ?_⟩
    dsimp only
    rw [if_neg Bool.false_ne_true, hdir, if_neg Bool.false_ne_true]
    exact bind_eq_ok.mpr ⟨(), permit_eq_ok.mpr hgranted, rfl⟩

namespace DiffersAt

variable {t' : Tree}

lemma symm (h : DiffersAt place t t') : DiffersAt place t' t where
  working := h.working.symm
  find? q hq := (h.find? q hq).symm
  not_directory := h.not_directory'
  not_directory' := h.not_directory

lemma isDirectoryAt_eq (h : DiffersAt place t t') (here : Standpoint) :
    t'.isDirectoryAt here = t.isDirectoryAt here := by
  cases here with
  | removed around => rfl
  | inTree q =>
    by_cases hq : q = place
    · subst hq
      exact h.not_directory'.trans h.not_directory.symm
    · simp only [isDirectoryAt, isDirectory, h.find? q hq]

section Ways

variable (h : DiffersAt place t t') (hlink : ∀ target, t.find? place ≠ some (.link target))

include h hlink

/-- What the trees differ in makes no difference to a way to a directory, unless it is a link that
the way follows. -/
lemma walk {links : Nat} {here : Standpoint} {steps : List Step} {found : Nat × Standpoint}
    (hdir : t.isDirectoryAt found.2 = true) (hwalk : t.walk links here steps = .ok found) :
    t'.walk links here steps = .ok found := by
  refine walk_of_same h.isDirectoryAt_eq (fun q => ?_) hdir (t.touches_nowhere links here steps) hwalk
  by_cases hq : q = place
  · subst hq
    exact .inr ⟨h.not_directory, fun target hfind => absurd hfind (hlink target)⟩
  · exact .inl (h.find? q hq)

lemma spot {p : Path} {dir : Place} {slash : Bool} (hspot : t.spot p = .ok (.entry dir slash)) :
    t'.spot p = .ok (.entry dir slash) := by
  obtain ⟨here, left, directory, name, hstart, hwalk, hdir, hlast, hname, hslash⟩ :=
    spot_eq_entry.mp hspot
  refine spot_eq_entry.mpr ⟨here, left, directory, name, ?_, h.walk hlink hdir hwalk,
    (h.isDirectoryAt_eq directory).trans hdir, hlast, hname, hslash⟩
  rw [start, h.working]
  exact hstart

end Ways

end DiffersAt

end Tree

namespace MapFile

variable {t : Tree} {p : Path}

/-- What is loaded is valid. -/
lemma valid_of_load {m : ChangeMap} (h : load t p = .ok (some m)) : m.valid = true := by
  unfold load at h
  cases hcontents : t.contentsAt p with
  | error e => cases e <;> simp [hcontents] at h
  | ok contents =>
    rw [hcontents] at h
    cases hm : ofContents contents with
    | error e => simp [hm] at h
    | ok m' =>
      simp only [hm, Except.ok.injEq, Option.some.injEq] at h
      subst h
      exact ChangeMap.valid_of_ofImage hm

/-- The directory that a file is made in before it takes the place of the map's file. -/
def temporaryDirectory (t : Tree) (p : Path) : Except FileError Path :=
  if (directoryPath p).isAbsolute then .ok (directoryPath p)
  else
    match t.workingPath? with
    | some working => .ok (working.join (directoryPath p).text)
    | none => .error .notFound

lemma temporaryPath_eq (t : Tree) (p : Path) :
    temporaryPath t p = (temporaryDirectory t p).map (·.join ".tmp000000") := by
  unfold temporaryPath temporaryDirectory
  dsimp only
  cases (directoryPath p).isAbsolute with
  | true => rfl
  | false => cases t.workingPath? <;> rfl

lemma text_directoryPath_ne (p : Path) : (directoryPath p).text ≠ "" := by
  unfold directoryPath
  split
  · split
    · simp
    · assumption
  · simp

lemma text_temporaryDirectory_ne {directory : Path} (h : temporaryDirectory t p = .ok directory) :
    directory.text ≠ "" := by
  have hdirectory := text_directoryPath_ne p
  unfold temporaryDirectory at h
  split at h
  · obtain rfl := Except.ok.inj h
    exact hdirectory
  · split at h
    · obtain rfl := Except.ok.inj h
      exact Path.text_join_ne_of_further hdirectory
    · cases h

/-- The path of a temporary file names an entry, if it leads anywhere. -/
lemma exists_spot_temporaryPath {q : Path} {spot : Tree.Spot} (hq : temporaryPath t p = .ok q)
    (hspot : t.spot q = .ok spot) : ∃ beside, spot = .entry beside false := by
  rw [temporaryPath_eq] at hq
  cases hdirectory : temporaryDirectory t p with
  | error e => simp [hdirectory, Except.map] at hq
  | ok directory =>
    simp only [hdirectory, Except.map, Except.ok.injEq] at hq
    subst hq
    obtain ⟨dir, -, rfl⟩ := Tree.spot_join (text_temporaryDirectory_ne hdirectory) (by decide) hspot
    exact ⟨_, rfl⟩

/-- Where the files of a map go by a path: the path names the one place, at which there is no
directory, and the path of the temporary file names the other. -/
structure Site (t : Tree) (p : Path) (place beside : Place) : Prop where
  spot : t.spot p = .ok (.entry place false)
  not_directory : t.isDirectory place = false
  temporary : ∃ q, temporaryPath t p = .ok q ∧ t.spot q = .ok (.entry beside false)

/-- A map can be put at a place by a path: there is a site for it, and the system refuses neither the
temporary file nor that it takes its place. -/
structure Writable (t : Tree) (p : Path) (m : ChangeMap) (place : Place) : Prop where
  site : ∃ beside, Site t p place beside ∧ t.refusal? .make beside.tail = none ∧
    t.refusal? (.write (.ofBytes m.toImage)) beside.tail = none
  replaced : t.refusal? .replace place.tail = none

/-- A path has a site that stays one, whatever file is put there. -/
def Home (t : Tree) (p : Path) : Prop :=
  ∃ place beside, Site t p place beside ∧
    ∀ contents, Site (t.put place (.file contents)) p place beside

lemma Writable.spot {m : ChangeMap} {place : Place} (h : Writable t p m place) :
    t.spot p = .ok (.entry place false) := by
  obtain ⟨beside, hsite, -⟩ := h.site
  exact hsite.spot

lemma Writable.not_directory {m : ChangeMap} {place : Place} (h : Writable t p m place) :
    t.isDirectory place = false := by
  obtain ⟨beside, hsite, -⟩ := h.site
  exact hsite.not_directory

/-- Where the system refuses nothing, a site is all that it takes. -/
lemma Site.writable {place beside : Place} (h : Site t p place beside) (m : ChangeMap)
    (hgranted : ∀ what dir, t.refusal? what dir = none) : Writable t p m place :=
  ⟨⟨beside, h, hgranted _ _, hgranted _ _⟩, hgranted _ _⟩

lemma Writable.save_eq {m : ChangeMap} {place : Place} (h : Writable t p m place) :
    save t p m = .ok (t.put place (.file (.ofBytes m.toImage))) := by
  obtain ⟨beside, hsite, hmade, hwritten⟩ := h.site
  obtain ⟨q, hq, hbeside⟩ := hsite.temporary
  have hfile := Tree.permitFile_eq_ok.mpr ⟨beside, false, hbeside, hmade, hwritten⟩
  refine bind_eq_ok.mpr ⟨q, hq, bind_eq_ok.mpr ⟨(), hfile, ?_⟩⟩
  exact Tree.replaceFile_eq_ok.mpr ⟨place, hsite.spot, hsite.not_directory, h.replaced, rfl⟩

lemma writable_of_save {t' : Tree} {m : ChangeMap} (h : save t p m = .ok t') :
    ∃ place, Writable t p m place ∧ t' = t.put place (.file (.ofBytes m.toImage)) := by
  obtain ⟨q, hq, h⟩ := bind_eq_ok.mp h
  obtain ⟨_, hfile, hmoved⟩ := bind_eq_ok.mp h
  obtain ⟨place, hspot, hdir, hreplaced, rfl⟩ := Tree.replaceFile_eq_ok.mp hmoved
  obtain ⟨beside, slash, hbeside, hmade, hwritten⟩ := Tree.permitFile_eq_ok.mp hfile
  obtain ⟨beside', heq⟩ := exists_spot_temporaryPath hq hbeside
  obtain ⟨rfl, rfl⟩ := Tree.Spot.entry.inj heq
  exact ⟨place, ⟨⟨beside, ⟨hspot, hdir, q, hq, hbeside⟩, hmade, hwritten⟩, hreplaced⟩, rfl⟩

/-- A map can be saved if it can be put where the path leads. -/
lemma exists_save_iff {m : ChangeMap} :
    (∃ t', save t p m = .ok t') ↔ ∃ place, Writable t p m place := by
  constructor
  · rintro ⟨t', h⟩
    obtain ⟨place, hplace, -⟩ := writable_of_save h
    exact ⟨place, hplace⟩
  · rintro ⟨place, hplace⟩
    exact ⟨_, hplace.save_eq⟩

/-- What a save comes to: the image takes the place that the path names, and nothing else is
changed. -/
lemma exists_of_save {t' : Tree} {m : ChangeMap} (h : save t p m = .ok t') :
    ∃ place, t.spot p = .ok (.entry place false) ∧ t.isDirectory place = false ∧
      t' = t.put place (.file (.ofBytes m.toImage)) := by
  obtain ⟨place, hplace, rfl⟩ := writable_of_save h
  exact ⟨place, hplace.spot, hplace.not_directory, rfl⟩

lemma contentsAt_of_spot {place : Place} {contents : Contents}
    (hspot : t.spot p = .ok (.entry place false)) (hfind : t.find? place = some (.file contents))
    (hreadable : contents.readable = true) : t.contentsAt p = .ok contents := by
  have hresolve := Tree.resolve_of_spot hspot hfind (by simp [Node.kind])
  simp [Tree.contentsAt, hresolve, Tree.findAt?, hfind, hreadable, bind, Except.bind, pure,
    Except.pure]

/-- What is saved at a place can be loaded by a path that leads there. -/
lemma load_put {place : Place} {m : ChangeMap} (hdir : t.isDirectory place = false)
    (hspot : (t.put place (.file (.ofBytes m.toImage))).spot p = .ok (.entry place false)) :
    load (t.put place (.file (.ofBytes m.toImage))) p = .ok (some { m with valid := true }) := by
  have hfind := Tree.find?_put (t := t) (Tree.place_ne_nil hdir) (.file (.ofBytes m.toImage)) place
  rw [if_pos rfl] at hfind
  simp only [load, contentsAt_of_spot hspot hfind rfl, ofContents_toImage]

/-- What is saved at a home can be loaded from there, and it is still a home. -/
theorem Home.save_load {t' : Tree} {m : ChangeMap} (h : Home t p) (hsave : save t p m = .ok t') :
    Home t' p ∧ load t' p = .ok (some { m with valid := true }) := by
  obtain ⟨place, beside, hnow, hlater⟩ := h
  obtain ⟨place', hspot, hdir, rfl⟩ := exists_of_save hsave
  obtain rfl : place = place' :=
    (Tree.Spot.entry.inj (Except.ok.inj (hnow.spot.symm.trans hspot))).1
  refine ⟨⟨place, beside, hlater _, fun contents => ?_⟩, load_put hdir (hlater _).spot⟩
  rw [Tree.put_put]
  exact hlater contents

/-- Where no link is, a path leads to the same place whatever file is put there. -/
lemma home_of_no_link {place beside : Place} (h : Site t p place beside)
    (hkind : ∀ node, t.find? place = some node → node.kind = .file) : Home t p := by
  have hlink : ∀ target, t.find? place ≠ some (.link target) := by
    intro target hfind
    exact absurd (hkind _ hfind) (by simp [Node.kind])
  refine ⟨place, beside, h, fun contents => ?_⟩
  have hdiffers := Tree.differsAt_put h.not_directory contents
  obtain ⟨q, hq, hbeside⟩ := h.temporary
  exact ⟨hdiffers.spot hlink h.spot, hdiffers.not_directory', q, hq, hdiffers.spot hlink hbeside⟩

end MapFile

end ChangeTracking
