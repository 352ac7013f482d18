import ChangeTracking.Proofs.Startup

/-!
# New files

A program that replaces a file makes a new one beside it, and moves that to the place of the old one
when it is complete.  A new file makes no difference to where other files can be put
(`spot_put_iff`), so to move it comes to what `Tree.replaceFile` does in one move (`moveFile_put`), and
to discard it leaves nothing behind (`discard_put`).

The file that was moved can cut the way on which it came: where the path names a link to a directory
and leads over that link, the way ends at the file that took the link's place (`contentsAt_cut`).
-/

namespace ChangeTracking

namespace Tree

variable {t t' : Tree} {place : Place} {p q : Path} {contents : Contents}

/-! ## New files that are moved or discarded -/

/-- The tree without the entry at a place.  It is for files, which nothing is below. -/
def unlink (t : Tree) (place : Place) : Tree :=
  { t with
    entries := t.entries.filter fun e => e.1 ≠ place
    nodup := t.nodup.sublist (List.filter_sublist.map _) }

/-- The place of a new file of the given path, if there is nothing yet and the file can be made. -/
def freePlace (t : Tree) (q : Path) : Except FileError Place := do
  match ← t.spot q with
  | .entry place false =>
    if (t.find? place).isSome then .error .alreadyExists
    else
      t.permit .make place
      return place
  | _ => .error .isADirectory

/-- Deletes the file that a path names, if that can be done. -/
def discard (t : Tree) (q : Path) : Tree :=
  match t.spot q with
  | .ok (.entry place _) => t.unlink place
  | _ => t

/-- Moves the file that the path `q` names to the place that `p` names.  A link there is replaced and
not followed; a directory is not replaced. -/
def moveFile (t : Tree) (q p : Path) : Except FileError Tree := do
  match ← t.spot q, ← t.spot p with
  | .entry old _, .entry new slashEnded =>
    match t.find? old with
    | some (.file contents) =>
      if slashEnded then .error .notADirectory
      else if t.isDirectory new then .error .isADirectory
      else
        t.permit .replace new
        return if new = old then t else (t.unlink old).put new (.file contents)
    | _ => .error .notFound
  | _, _ => .error .busy

lemma freePlace_eq_ok :
    t.freePlace q = .ok place ↔ t.spot q = .ok (.entry place false) ∧ t.find? place = none ∧
      t.refusal? .make place.tail = none := by
  rw [freePlace, bind_eq_ok]
  constructor
  · rintro ⟨spot, hspot, h⟩
    cases spot with
    | entry found slash =>
      cases slash with
      | true => cases h
      | false =>
        dsimp only at h
        split at h
        · cases h
        · next hfree =>
          obtain ⟨_, hmade, h⟩ := bind_eq_ok.mp h
          obtain rfl := pure_eq_ok.mp h
          exact ⟨hspot, Option.not_isSome_iff_eq_none.mp hfree, permit_eq_ok.mp hmade⟩
    | same | around | root => cases h
  · rintro ⟨hspot, hfree, hmade⟩
    refine ⟨_, hspot, ?_⟩
    dsimp only
    rw [hfree, Option.isSome_none, if_neg Bool.false_ne_true]
    exact bind_eq_ok.mpr ⟨(), permit_eq_ok.mpr hmade, rfl⟩

lemma filter_putEntry {node : Node} {entries : List (Place × Node)}
    (h : ∀ e ∈ entries, e.1 ≠ place) :
    (putEntry place node entries).filter (fun e => e.1 ≠ place) = entries := by
  induction entries with
  | nil => simp [putEntry]
  | cons e rest ih =>
    have hfirst := h e (List.mem_cons_self ..)
    have hrest := ih fun e he => h e (List.mem_cons_of_mem _ he)
    rw [putEntry, if_neg hfirst, List.filter_cons_of_pos (by simpa using hfirst), hrest]

/-- A new file that is deleted again leaves nothing behind. -/
lemma unlink_put (h : t.find? place = none) (node : Node) : (t.put place node).unlink place = t := by
  have hne : place ≠ [] := by
    rintro rfl
    cases h
  have hentries : ∀ e ∈ t.entries, e.1 ≠ place := by
    rintro ⟨q, found⟩ he rfl
    rw [find?_of_mem_entries hne he] at h
    cases h
  simp only [unlink, put, filter_putEntry hentries]

lemma isDirectory_of_find?_eq_none (h : t.find? place = none) : t.isDirectory place = false := by
  rw [isDirectory, h]

/-- A file is moved where no directory is, unless that is refused. -/
lemma moveFile_eq_ok {old : Place} {slash : Bool} (hspot : t.spot q = .ok (.entry old slash))
    (hfind : t.find? old = some (.file contents)) :
    t.moveFile q p = .ok t' ↔
      ∃ place, t.spot p = .ok (.entry place false) ∧ t.isDirectory place = false ∧
        t.refusal? .replace place.tail = none ∧
        t' = if place = old then t else (t.unlink old).put place (.file contents) := by
  unfold moveFile
  rw [hspot]
  cases hto : t.spot p with
  | error e => simp [bind, Except.bind]
  | ok spot =>
    cases spot with
    | entry place slash =>
      cases slash with
      | true => simp [bind, Except.bind, hfind]
      | false =>
        cases hdir : t.isDirectory place with
        | true => simp [bind, Except.bind, hfind, hdir]
        | false =>
          cases hrefusal : t.refusal? .replace place.tail <;>
            simp [bind, Except.bind, pure, Except.pure, permit, hfind, hdir, hrefusal, @eq_comm _ t']
    | same | around | root => simp [bind, Except.bind]

section NewFile

variable {beside : Place} (hnew : t.freePlace q = .ok beside)

include hnew

/-- A new file is found under the path that it was made under. -/
lemma spot_put_of_freePlace (contents : Contents) :
    (t.put beside (.file contents)).spot q = .ok (.entry beside false) := by
  obtain ⟨hspot, hfree, -⟩ := freePlace_eq_ok.mp hnew
  have hdiffers := differsAt_put (isDirectory_of_find?_eq_none hfree) contents
  exact hdiffers.spot (fun target hlink => by rw [hfree] at hlink; cases hlink) hspot

lemma discard_put (contents : Contents) : (t.put beside (.file contents)).discard q = t := by
  rw [discard, spot_put_of_freePlace hnew]
  exact unlink_put (freePlace_eq_ok.mp hnew).2.1 _

/-- A new file makes no difference to where other files can be put. -/
lemma spot_put_iff (contents : Contents) {slash : Bool} :
    (t.put beside (.file contents)).spot p = .ok (.entry place slash) ↔
      t.spot p = .ok (.entry place slash) := by
  obtain ⟨-, hfree, -⟩ := freePlace_eq_ok.mp hnew
  have hnot := isDirectory_of_find?_eq_none hfree
  have hdiffers := differsAt_put hnot contents
  have hfind := find?_put (t := t) (place_ne_nil hnot) (.file contents) beside
  rw [if_pos rfl] at hfind
  constructor
  · exact hdiffers.symm.spot fun target hlink => by rw [hfind] at hlink; cases hlink
  · exact hdiffers.spot fun target hlink => by rw [hfree] at hlink; cases hlink

/-- Moving a new file comes to what replacing the old one as a whole does. -/
lemma moveFile_put (contents : Contents) :
    (t.put beside (.file contents)).moveFile q p = .ok t' ↔ t.replaceFile p contents = .ok t' := by
  obtain ⟨-, hfree, -⟩ := freePlace_eq_ok.mp hnew
  have hnot := isDirectory_of_find?_eq_none hfree
  have hdiffers := differsAt_put hnot contents
  have hfind := find?_put (t := t) (place_ne_nil hnot) (.file contents) beside
  rw [if_pos rfl] at hfind
  rw [moveFile_eq_ok (spot_put_of_freePlace hnew contents) hfind, replaceFile_eq_ok]
  refine exists_congr fun place => ?_
  have hdirectory : (t.put beside (.file contents)).isDirectory place = t.isDirectory place :=
    hdiffers.isDirectoryAt_eq (.inTree place)
  have hmoved : (if place = beside then t.put beside (.file contents)
      else ((t.put beside (.file contents)).unlink beside).put place (.file contents))
      = t.put place (.file contents) := by
    split
    · next hsame => rw [hsame]
    · rw [unlink_put hfree]
  rw [spot_put_iff hnew, hdirectory, hmoved, refusal?_put]

end NewFile

/-! ## Paths of new files -/

lemma val_le_of_alphanumeric {c : Char} (h : c.isAlphanum = true) : c.val ≤ 127 := by
  have hrange : c.val ≤ 'Z'.val ∨ c.val ≤ 'z'.val ∨ c.val ≤ '9'.val := by
    rcases (Bool.or_eq_true _ _).mp h with hletter | hdigit
    · rcases (Bool.or_eq_true _ _).mp hletter with hupper | hlower
      · exact .inl (of_decide_eq_true hupper).2
      · exact .inr (.inl (of_decide_eq_true ((Bool.and_eq_true _ _).mp hlower).2))
    · exact .inr (.inr (of_decide_eq_true ((Bool.and_eq_true _ _).mp hdigit).2))
  rcases hrange with h | h | h <;> exact UInt32.le_trans h (by decide)

lemma utf8ByteSize_of_alphanumeric {chars : List Char} (h : chars.all Char.isAlphanum = true) :
    (String.ofList chars).utf8ByteSize = chars.length := by
  rw [String.utf8ByteSize_ofList]
  induction chars with
  | nil => rfl
  | cons c rest ih =>
    obtain ⟨hc, hrest⟩ := (Bool.and_eq_true _ _).mp (List.all_cons ▸ h)
    rw [String.utf8Len_cons, ih hrest, Char.utf8Size_eq_one_iff.mpr (val_le_of_alphanumeric hc)]
    rfl

/-- Whether there is a place for a file in a directory does not depend on its name, but for the name's
size. -/
lemma spot_join_of_size {directory : Path} {name other : String} {beside : Place} {slash : Bool}
    (hdirectory : directory.text ≠ "") (hname : ValidName name) (hother : ValidName other)
    (hnull : '\x00' ∉ other.toList) (hsize : other.utf8ByteSize = name.utf8ByteSize)
    (h : t.spot (directory.join name) = .ok (.entry beside slash)) :
    ∃ beside', t.spot (directory.join other) = .ok (.entry beside' false) ∧
      beside'.tail = beside.tail := by
  obtain ⟨dir, -, heq⟩ := spot_join hdirectory hname h
  obtain ⟨rfl, rfl⟩ := Spot.entry.inj heq
  obtain ⟨here, left, around, last, hstart, hwalk, hdir, hlast, hplace, -⟩ := spot_eq_entry.mp h
  have hsteps := hname.plainSteps_join hdirectory
  have hsteps' := hother.plainSteps_join hdirectory
  rw [hsteps, List.getLast?_concat, Option.some.injEq, Step.down.injEq] at hlast
  rw [hsteps, List.dropLast_concat] at hwalk
  subst hlast
  obtain ⟨dir', rfl, hdirs, hfits⟩ := placeOf_eq_ok hplace
  refine ⟨⟨other, hother⟩ :: dir', spot_eq_entry.mpr ⟨here, left, .inTree dir', ⟨other, hother⟩, ?_,
    ?_, hdir, ?_, ?_, ?_⟩, (List.cons.inj hdirs).2.symm⟩
  · obtain ⟨hcheck, hhere⟩ := start_eq_ok.mp hstart
    refine start_eq_ok.mpr ⟨?_, ?_⟩
    · obtain ⟨hpath, -, hshort⟩ := checkPath_eq_ok.mp hcheck
      rw [Path.join_eq hdirectory hname.isAbsolute] at hpath hshort
      have hother' := Path.text_join_ne hdirectory hother.isAbsolute
      rw [Path.join_eq hdirectory hother.isAbsolute] at hother' ⊢
      refine checkPath_eq_ok.mpr ⟨?_, hother', ?_⟩
      · rw [String.toList_append, List.mem_append, not_or] at hpath ⊢
        exact ⟨hpath.1, hnull⟩
      · rw [String.utf8ByteSize_append] at hshort ⊢
        rw [hsize]
        exact hshort
    · rw [hhere, Path.isAbsolute_join hdirectory hname.isAbsolute,
        Path.isAbsolute_join hdirectory hother.isAbsolute]
  · rw [hsteps', List.dropLast_concat]
    exact hwalk
  · rw [hsteps', List.getLast?_concat]
  · rw [placeOf, if_neg (Nat.not_lt.mpr (hsize ▸ hfits))]
  · exact (hother.slashEnded_join hdirectory).symm

/-! ## Ways that a new file cuts -/

/-- The way to the entry that a path names leads over that entry. -/
def LeadsOverItself (t : Tree) (p : Path) : Prop :=
  ∃ place, t.spot p = .ok (.entry place false) ∧
    t.touches (· == place) linkLimit (if p.isAbsolute then .root else t.working)
      p.plainSteps.dropLast = true

lemma walkWith_of_not_directory {links : Nat}
    {follow : Standpoint → List Step → Except FileError (Nat × Standpoint)} {here : Standpoint}
    {steps : List Step} (hdir : t.isDirectoryAt here = false) (hsteps : steps ≠ []) :
    t.walkWith links follow here steps = .error .notADirectory := by
  obtain ⟨step, rest, rfl⟩ := List.exists_cons_of_ne_nil hsteps
  simp [walkWith, hdir]

section Cut

variable {second : List Step} (hdiffers : DiffersAt place t t') (hsecond : second ≠ [])

include hdiffers hsecond

lemma walkWith_cut {links : Nat}
    {follow follow' : Standpoint → List Step → Except FileError (Nat × Standpoint)}
    {touched : Standpoint → List Step → Bool} {found : Nat × Standpoint} {contents : Contents}
    (hfile : t'.find? place = some (.file contents)) (hdir : t.isDirectoryAt found.2 = true)
    (hfollow : ∀ here steps, touched here steps = true → follow here steps = .ok found →
      follow' here (steps ++ second) = .error .notADirectory)
    {here : Standpoint} {steps : List Step}
    (hover : t.touchesWith (· == place) touched here steps = true)
    (h : t.walkWith links follow here steps = .ok found) :
    t'.walkWith links follow' here (steps ++ second) = .error .notADirectory := by
  induction steps generalizing here with
  | nil =>
    have hin := isIn_eq_false_of_walkWith hdiffers.not_directory hdir h
    exact absurd hin (Bool.not_eq_false _ ▸ hover)
  | cons step rest ih =>
    have hin := isIn_eq_false_of_walkWith hdiffers.not_directory hdir h
    simp only [touchesWith, hin, Bool.false_or, Bool.and_eq_true] at hover
    obtain ⟨hdirectory, hover⟩ := hover
    simp only [walkWith, if_pos hdirectory] at h
    simp only [List.cons_append, walkWith, hdiffers.isDirectoryAt_eq, if_pos hdirectory]
    cases step with
    | stay => exact ih hover h
    | up => exact ih hover h
    | down name =>
      dsimp only at hover h ⊢
      cases hnext : placeOf here name with
      | error e => simp [hnext] at h
      | ok next =>
        simp only [hnext] at hover h ⊢
        by_cases hsame : next = place
        · -- the file that is there now cannot be passed
          have hstuck : t'.isDirectoryAt (.inTree place) = false := hdiffers.not_directory'
          rw [hsame, hfile]
          exact walkWith_of_not_directory hstuck (by simp [hsecond])
        · rw [beq_eq_false_iff_ne.mpr hsame, Bool.false_or] at hover
          rw [hdiffers.find? next hsame]
          cases hfind : t.find? next with
          | none => simp [hfind] at h
          | some node =>
            rw [hfind] at hover h
            cases node with
            | link target =>
              dsimp only
              rw [← List.append_assoc]
              exact hfollow _ _ hover h
            | file contents => exact ih hover h
            | directory readable => exact ih hover h

/-- A way that leads over a place to a directory, and on from there, is cut by a file at that place. -/
lemma walk_cut {links : Nat} {here : Standpoint} {steps : List Step} {found : Nat × Standpoint}
    {contents : Contents} (hfile : t'.find? place = some (.file contents))
    (hdir : t.isDirectoryAt found.2 = true)
    (hover : t.touches (· == place) links here steps = true)
    (h : t.walk links here steps = .ok found) :
    t'.walk links here (steps ++ second) = .error .notADirectory := by
  induction links generalizing here steps with
  | zero =>
    exact walkWith_cut hdiffers hsecond hfile hdir (fun _ _ _ h => by cases h) hover h
  | succ links ih =>
    exact walkWith_cut hdiffers hsecond hfile hdir (fun _ _ hover h => ih hover h) hover h

end Cut

/-- A path that leads over the entry that it names leads nowhere once a file is there, and that entry
is a link to a directory. -/
lemma contentsAt_cut (hspot : t.spot p = .ok (.entry place false))
    (hnot : t.isDirectory place = false) (hover : t.LeadsOverItself p) (contents : Contents) :
    t.LinksToDirectory place ∧
      (t.put place (.file contents)).contentsAt p = .error .notADirectory := by
  obtain ⟨place', hspot', htouches⟩ := hover
  obtain rfl : place = place' := (Spot.entry.inj (Except.ok.inj (hspot.symm.trans hspot'))).1
  obtain ⟨here, left, directory, name, hstart, hwalk, hdir, hlast, hplace, hended⟩ :=
    spot_eq_entry.mp hspot
  rw [← (start_eq_ok.mp hstart).2] at htouches
  refine ⟨linksToDirectory_of_walk hnot hdir htouches hwalk, ?_⟩
  have hdiffers := differsAt_put hnot contents
  have hfile := find?_put (t := t) (place_ne_nil hnot) (.file contents) place
  rw [if_pos rfl] at hfile
  have hsteps : p.steps = p.plainSteps.dropLast ++ [.down name] := by
    rw [Path.steps, ← hended, if_neg Bool.false_ne_true, List.dropLast_append_getLast? _ hlast]
  have hcut : (t.put place (.file contents)).walk linkLimit here p.steps
      = .error .notADirectory := by
    rw [hsteps]
    exact walk_cut hdiffers (by simp) hfile hdir htouches hwalk
  have hstart' : (t.put place (.file contents)).start p = .ok here := hstart
  simp [contentsAt, resolve, hstart', hcut, bind, Except.bind]

end Tree

end ChangeTracking
