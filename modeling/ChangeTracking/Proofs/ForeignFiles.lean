import ChangeTracking.Proofs.LocalDamage
import ChangeTracking.Proofs.Saving

/-!
# Files that others put into a tree

`Tree.WithFiles` relates a tree to one that has files at some of the given places, over what was there
unless that was a directory.  That is what becomes of a tree in which somebody else saves maps.

Whatever entry a path comes to in the tree with the files, it comes to without them
(`WithFiles.spot_of_spot`), and the other way round as well, if it follows no link that a file may have
taken the place of (`WithFiles.spot`).  So a map can be saved in both of the trees or in neither, and
they are related again after that (`WithFiles.saved`), also if the map was saved in the first one
already (`WithFiles.saved_again`).  Walks find the same in both trees, as long as what they find is not
reached over the places (`listing_eq_of_same_off`).
-/

namespace ChangeTracking

namespace Tree

variable {t t' : Tree} {places : Place → Bool}

/-- Those of the places at which the tree has links. -/
def linksAt (t : Tree) (places : Place → Bool) (q : Place) : Bool :=
  places q && match t.find? q with
    | some (.link _) => true
    | _ => false

/-- The second tree is the first one with files at some of the places. -/
structure WithFiles (places : Place → Bool) (t t' : Tree) : Prop where
  working : t'.working = t.working
  refusal? : t'.refusal? = t.refusal?
  find? : ∀ q, t'.find? q = t.find? q ∨
    places q = true ∧ t.isDirectory q = false ∧ ∃ contents, t'.find? q = some (.file contents)

lemma linksAt_of_find? {q : Place} {target : String} (hplace : places q = true)
    (hfind : t.find? q = some (.link target)) : t.linksAt places q = true := by
  rw [linksAt, hplace, hfind]
  rfl

namespace WithFiles

lemma refl (places : Place → Bool) (t : Tree) : WithFiles places t t :=
  ⟨rfl, rfl, fun _ => .inl rfl⟩

variable (h : WithFiles places t t')

include h

lemma find?_of_not_mem {q : Place} (hq : places q = false) : t'.find? q = t.find? q := by
  rcases h.find? q with heq | ⟨hmem, -⟩
  · exact heq
  · cases hq.symm.trans hmem

lemma isDirectory_eq (q : Place) : t'.isDirectory q = t.isDirectory q := by
  rcases h.find? q with heq | ⟨-, hnot, contents, hfile⟩
  · simp only [isDirectory, heq]
  · rw [hnot, isDirectory, hfile]

lemma isDirectoryAt_eq (here : Standpoint) : t'.isDirectoryAt here = t.isDirectoryAt here := by
  cases here with
  | removed around => rfl
  | inTree q => exact h.isDirectory_eq q

/-! ## Changes -/

/-- Another file at one of the places. -/
lemma putFile {place : Place} (hplace : places place = true) (hnot : t'.isDirectory place = false)
    (contents : Contents) : WithFiles places t (t'.put place (.file contents)) where
  working := h.working
  refusal? := h.refusal?
  find? q := by
    rw [find?_put (place_ne_nil hnot)]
    by_cases hq : q = place
    · subst hq
      exact .inr ⟨hplace, (h.isDirectory_eq q).symm.trans hnot, contents, if_pos rfl⟩
    · rw [if_neg hq]
      exact h.find? q

/-- The same change of both trees at one place. -/
lemma put {place : Place} (hplace : place ≠ []) (node : Node) :
    WithFiles places (t.put place node) (t'.put place node) where
  working := h.working
  refusal? := h.refusal?
  find? q := by
    simp only [isDirectory, find?_put hplace]
    by_cases hq : q = place
    · exact .inl (by rw [if_pos hq, if_pos hq])
    · simp only [if_neg hq]
      exact h.find? q

lemma remove {place : Place} (hplace : place ≠ []) :
    WithFiles places (t.remove place) (t'.remove place) where
  working := by simp only [Tree.remove, h.working]
  refusal? := h.refusal?
  find? q := by
    have hfind (t : Tree) : (t.remove place).find? q = (t.without place).find? q := by
      cases q <;> rfl
    simp only [isDirectory, hfind, find?_without hplace]
    by_cases hq : place.isSuffixOf q = true
    · exact .inl (by rw [if_pos hq, if_pos hq])
    · simp only [if_neg hq]
      exact h.find? q

lemma withWorking (there : Standpoint) :
    WithFiles places { t with working := there } { t' with working := there } where
  working := rfl
  refusal? := h.refusal?
  find? q := by
    have hfind (t : Tree) : ({ t with working := there } : Tree).find? q = t.find? q := by
      cases q <;> rfl
    simp only [isDirectory, hfind]
    exact h.find? q

lemma withRefusal (refusal? : Modification → Place → Option FileError) :
    WithFiles places { t with refusal? := refusal? } { t' with refusal? := refusal? } where
  working := h.working
  refusal? := rfl
  find? q := by
    have hfind (t : Tree) : ({ t with refusal? := refusal? } : Tree).find? q = t.find? q := by
      cases q <;> rfl
    simp only [isDirectory, hfind]
    exact h.find? q

/-! ## Ways -/

variable {p : Path} {place : Place} {slash : Bool}

lemma start_eq (p : Path) : t'.start p = t.start p := by
  rw [start, start, h.working]

/-- A path comes to an entry with the files as without, unless it leads over a link that a file may
have taken the place of. -/
lemma spot (hover : t.leadsOver (t.linksAt places) p = false)
    (hspot : t.spot p = .ok (.entry place slash)) : t'.spot p = .ok (.entry place slash) := by
  obtain ⟨here, left, directory, name, hstart, hwalk, hdir, hlast, hname, hslash⟩ :=
    spot_eq_entry.mp hspot
  rw [leadsOver_eq, ← (start_eq_ok.mp hstart).2, ← List.dropLast_append_getLast? _ hlast,
    touches_append, Bool.or_eq_false_iff] at hover
  refine spot_eq_entry.mpr ⟨here, left, directory, name, (h.start_eq p).trans hstart, ?_,
    (h.isDirectoryAt_eq directory).trans hdir, hlast, hname, hslash⟩
  refine walk_of_same h.isDirectoryAt_eq (fun q => (h.find? q).imp_right ?_) hdir hover.1 hwalk
  rintro ⟨hmem, hnot, -⟩
  exact ⟨hnot, fun target hfind => linksAt_of_find? hmem hfind⟩

/-- A path that comes to an entry with the files does so without them. -/
lemma spot_of_spot (hspot : t'.spot p = .ok (.entry place slash)) :
    t.spot p = .ok (.entry place slash) := by
  obtain ⟨here, left, directory, name, hstart, hwalk, hdir, hlast, hname, hslash⟩ :=
    spot_eq_entry.mp hspot
  refine spot_eq_entry.mpr ⟨here, left, directory, name, (h.start_eq p).symm.trans hstart, ?_,
    (h.isDirectoryAt_eq directory).symm.trans hdir, hlast, hname, hslash⟩
  refine walk_of_same (fun there => (h.isDirectoryAt_eq there).symm) (fun q => ?_) hdir
    (t'.touches_nowhere _ _ _) hwalk
  rcases h.find? q with heq | ⟨-, hnot, contents, hfile⟩
  · exact .inl heq.symm
  · refine .inr ⟨(h.isDirectory_eq q).trans hnot, fun target hlink => ?_⟩
    cases hfile.symm.trans hlink

lemma alikeOff : AlikeOff places t t' where
  working := h.working
  find? _ hq := .inl (h.find?_of_not_mem hq)

/-- What a path leads to is the same, unless it leads over the places. -/
lemma contentsAt_eq (hover : t.leadsOver places p = false) : t'.contentsAt p = t.contentsAt p := by
  rw [contentsAt, contentsAt, h.alikeOff.resolve_eq hover]
  cases hresolve : t.resolve p with
  | error e => rfl
  | ok there =>
    have hsame : t'.findAt? there = t.findAt? there := by
      cases there with
      | removed around => rfl
      | inTree q => exact h.find?_of_not_mem (not_mem_of_resolve hover hresolve)
    simp only [bind, Except.bind, hsame]

end WithFiles

/-! ## Walks -/

/-- The tree with nothing at the given places. -/
def emptied (t : Tree) (places : Place → Bool) : Tree where
  entries := t.entries.filter fun e => !places e.1
  working := t.working
  nodup := t.nodup.sublist (List.filter_sublist.map _)

/-- An emptied tree is any tree that is the same off the places with what is there lost. -/
lemma loses_emptied (hroot : places [] = false) (hworking : t'.working = t.working)
    (hsame : ∀ q, places q = false → t'.find? q = t.find? q) :
    Loses places (fun _ => false) t' (t.emptied places) := by
  have hfind (q : Place) : (t.emptied places).find? q = if places q then none else t.find? q := by
    cases q with
    | nil =>
      rw [hroot]
      rfl
    | cons name dir =>
      have hlookup := lookup_filter (fun q => !places q) (name :: dir) t.entries
      cases hplace : places (name :: dir) <;> simpa [hplace, find?, emptied] using hlookup
  refine ⟨hworking.symm, fun q hq => ?_, fun q hq => Bool.noConfusion hq, fun q hq _ => ?_⟩
  · rw [hfind, if_pos hq]
  · rw [hfind, if_neg (Bool.eq_false_iff.mp hq), hsame q hq]

end Tree

namespace Walk

variable {t t' : Tree} {places : Place → Bool} {version : String} {r : Root}

lemma listing_eq_found (t : Tree) (version : String) (r : Root) :
    r.listing t version
      = (found t version (roomFor r.path) [] r.path r.context).map Find.segment := by
  rw [← segments_course_root, found_root]

/-- A loss is none to a walk that finds nothing over what is lost. -/
lemma listing_eq_of_loses (h : t.Loses places (fun _ => false) t')
    (hclear : ∀ f ∈ r.listing t version, t.leadsOver places f.path = false) :
    r.listing t' version = r.listing t version := by
  rw [listing_eq_found] at hclear
  rw [listing_eq_found, listing_eq_found, found_eq h (by simp)]
  refine congrArg _ (List.filter_eq_self.mpr fun x hx => ?_)
  have hnowhere (d : Path) : t.leadsTo (fun _ => false) d = false := by
    unfold Tree.leadsTo Standpoint.isIn
    split
    · split <;> rfl
    · rfl
  rw [Find.isBelow, hclear _ (List.mem_map_of_mem hx), Bool.false_or, Bool.not_eq_true',
    List.any_eq_false]
  exact fun d _ => Bool.eq_false_iff.mp (hnowhere d)

/-- Walks find the same in trees that are the same off some places, if they find nothing over these. -/
lemma listing_eq_of_same_off (hroot : places [] = false) (hworking : t'.working = t.working)
    (hsame : ∀ q, places q = false → t'.find? q = t.find? q)
    (hclear : ∀ f ∈ r.listing t version, t.leadsOver places f.path = false)
    (hclear' : ∀ f ∈ r.listing t' version, t'.leadsOver places f.path = false) :
    r.listing t' version = r.listing t version := by
  rw [← listing_eq_of_loses (Tree.loses_emptied hroot rfl fun _ _ => rfl) hclear,
    ← listing_eq_of_loses (Tree.loses_emptied hroot hworking hsame) hclear']

end Walk

/-! ## Saving -/

namespace MapFile

variable {t t' : Tree} {places : Place → Bool} {p : Path} {m : ChangeMap} {place : Place}

/-- The tree after a map was to be kept in the file that a path names, whatever came of it. -/
def saved (t : Tree) (p : Path) (m : ChangeMap) : Tree :=
  match save t p m with
  | .ok t' => t'
  | .error _ => t

lemma Writable.saved_eq (h : Writable t p m place) :
    saved t p m = t.put place (.file (.ofBytes m.toImage)) := by
  unfold saved
  rw [h.save_eq]

/-- A save finds a place that it can write to, or leaves the tree alone. -/
lemma saved_cases (t : Tree) (p : Path) (m : ChangeMap) :
    (∃ place, Writable t p m place) ∨ (¬ ∃ place, Writable t p m place) ∧ saved t p m = t := by
  by_cases hplace : ∃ place, Writable t p m place
  · exact .inl hplace
  · refine .inr ⟨hplace, ?_⟩
    unfold saved
    cases hsave : save t p m with
    | error e => rfl
    | ok t' => exact absurd (exists_save_iff.mp ⟨t', hsave⟩) hplace

lemma Home.load_saved (h : Home t p) (hplace : Writable t p m place) :
    load (saved t p m) p = .ok (some { m with valid := true }) := by
  rw [hplace.saved_eq]
  exact (h.save_load hplace.save_eq).2

lemma Writable.place_unique {m' : ChangeMap} {other : Place} (h : Writable t p m place)
    (h' : Writable t p m' other) : place = other :=
  (Tree.Spot.entry.inj (Except.ok.inj (h.spot.symm.trans h'.spot))).1

/-- Neither the path of a map nor that of the file that is made beside it leads over a link at one of
the places. -/
structure Clear (places : Place → Bool) (t : Tree) (p : Path) : Prop where
  file : t.leadsOver (t.linksAt places) p = false
  beside : ∀ q, temporaryPath t p = .ok q → t.leadsOver (t.linksAt places) q = false

section WithFiles

variable (h : t.WithFiles places t')

include h

lemma temporaryPath_eq_of_withFiles (p : Path) : temporaryPath t' p = temporaryPath t p := by
  simp only [temporaryPath, Tree.workingPath?, h.working]

lemma Writable.without (hplace : Writable t' p m place) : Writable t p m place := by
  obtain ⟨beside, hsite, hmade, hwritten⟩ := hplace.site
  obtain ⟨q, hq, hbeside⟩ := hsite.temporary
  have hreplaced := hplace.replaced
  rw [temporaryPath_eq_of_withFiles h] at hq
  rw [h.refusal?] at hmade hwritten hreplaced
  exact ⟨⟨beside, ⟨h.spot_of_spot hsite.spot,
    (h.isDirectory_eq place).symm.trans hsite.not_directory, q, hq, h.spot_of_spot hbeside⟩, hmade,
    hwritten⟩, hreplaced⟩

lemma Writable.withFiles (hclear : Clear places t p) (hplace : Writable t p m place) :
    Writable t' p m place := by
  obtain ⟨beside, hsite, hmade, hwritten⟩ := hplace.site
  obtain ⟨q, hq, hbeside⟩ := hsite.temporary
  have hreplaced := hplace.replaced
  rw [← h.refusal?] at hmade hwritten hreplaced
  exact ⟨⟨beside, ⟨h.spot hclear.file hsite.spot,
    (h.isDirectory_eq place).trans hsite.not_directory, q,
    (temporaryPath_eq_of_withFiles h p).trans hq, h.spot (hclear.beside q hq) hbeside⟩, hmade,
    hwritten⟩, hreplaced⟩

end WithFiles

/-- A map that was kept once is kept: to keep it again changes nothing, even if its file has cut the
way that its path took. -/
lemma saved_saved (t : Tree) (p : Path) (m : ChangeMap) :
    saved (saved t p m) p m = saved t p m := by
  rcases saved_cases t p m with ⟨place, hplace⟩ | ⟨-, heq⟩
  · rw [hplace.saved_eq]
    rcases saved_cases (t.put place (.file (.ofBytes m.toImage))) p m with ⟨other, hother⟩ | ⟨-, heq⟩
    · have hfile : t.WithFiles (fun q => decide (q = place))
          (t.put place (.file (.ofBytes m.toImage))) :=
        (Tree.WithFiles.refl _ t).putFile (decide_eq_true rfl) hplace.not_directory _
      obtain rfl := hplace.place_unique (hother.without hfile)
      rw [hother.saved_eq, Tree.put_put]
    · exact heq
  · rw [heq, heq]

end MapFile

namespace Tree.WithFiles

open MapFile

variable {t t' : Tree} {places : Place → Bool} {p : Path} {m : ChangeMap}

/-- A map is kept in both trees or in neither. -/
lemma saved (h : t.WithFiles places t') (hclear : Clear places t p) (m : ChangeMap) :
    (MapFile.saved t p m).WithFiles places (MapFile.saved t' p m) := by
  rcases saved_cases t p m with ⟨place, hplace⟩ | ⟨hnone, heq⟩
  · rw [hplace.saved_eq, (hplace.withFiles h hclear).saved_eq]
    exact h.put (place_ne_nil hplace.not_directory) _
  · rcases saved_cases t' p m with ⟨place, hplace⟩ | ⟨-, heq'⟩
    · exact absurd ⟨place, hplace.without h⟩ hnone
    · rwa [heq, heq']

/-- A map that is kept in the first tree already may be kept in the other one as well. -/
lemma saved_again (h : (MapFile.saved t p m).WithFiles places t') :
    (MapFile.saved t p m).WithFiles places (MapFile.saved t' p m) := by
  rcases saved_cases t' p m with ⟨place, hplace⟩ | ⟨-, heq⟩
  · rw [hplace.saved_eq, ← saved_saved t p m, (hplace.without h).saved_eq]
    exact h.put (place_ne_nil hplace.not_directory) _
  · rwa [heq]

/-- Somebody else's map may be kept at the places of others. -/
lemma saved_foreign (h : t.WithFiles places t')
    (hplaces : ∀ place, Writable t' p m place → places place = true) :
    t.WithFiles places (MapFile.saved t' p m) := by
  rcases saved_cases t' p m with ⟨place, hplace⟩ | ⟨-, heq⟩
  · rw [hplace.saved_eq]
    exact h.putFile (hplaces place hplace) hplace.not_directory _
  · rwa [heq]

end Tree.WithFiles

end ChangeTracking
