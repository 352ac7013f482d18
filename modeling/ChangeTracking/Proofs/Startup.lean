import ChangeTracking.Proofs.DamagedTrees
import ChangeTracking.Proofs.Replacement

/-!
# What a tracker starts with

A tracker that starts looks for the map that was left on disk, and goes by what it finds there:
`Reconciled` says how, with one case for each thing that can be found, and `start_reconciles` that
every start with settings that are accepted is of that kind.

What it does to the disk may be refused there.  A new map is kept if it can be put at its place
(`SavedIfPossible`), and a map that is not wanted any more is removed if the system allows it
(`MapFile.Removable`); the start succeeds in any case, so a map may be left over
(`start_keeps_refused_file`).

The one thing that is not read off is that a new map can be read again where it was put.  A link may
be there, which the new file replaces, and the path of the map may lead over that link itself.  But
then the link leads to a directory, so what would be found in the first place is a directory, and no
new map is written (`touches_eq_false_of_contentsAt`).
-/

namespace ChangeTracking

namespace Tree

variable {t t' : Tree} {place : Place} {p : Path}

/-! ## Ways over a link -/

lemma walkWith_links_cases {links links' : Nat}
    {follow follow' : Standpoint → List Step → Except FileError (Nat × Standpoint)}
    (hfollow : ∀ here steps left there, follow here steps = .ok (left, there) →
      follow' here steps = .error .tooManyLinks ∨ ∃ left', follow' here steps = .ok (left', there))
    {here there : Standpoint} {steps : List Step} {left : Nat}
    (h : t.walkWith links follow here steps = .ok (left, there)) :
    t.walkWith links' follow' here steps = .error .tooManyLinks ∨
      ∃ left', t.walkWith links' follow' here steps = .ok (left', there) := by
  induction steps generalizing here with
  | nil =>
    obtain ⟨-, rfl⟩ := Prod.mk.inj (Except.ok.inj h)
    exact .inr ⟨links', rfl⟩
  | cons step rest ih =>
    simp only [walkWith] at h ⊢
    by_cases hdir : t.isDirectoryAt here = true
    · simp only [if_pos hdir] at h ⊢
      cases step with
      | stay => exact ih h
      | up => exact ih h
      | down name =>
        dsimp only at h ⊢
        cases hplace : placeOf here name with
        | error e => simp [hplace] at h
        | ok next =>
          simp only [hplace] at h ⊢
          cases hfind : t.find? next with
          | none => simp [hfind] at h
          | some node =>
            rw [hfind] at h
            cases node with
            | link target => exact hfollow _ _ _ _ h
            | file contents => exact ih h
            | directory readable => exact ih h
    · simp [hdir] at h

/-- How many links may be followed makes no difference to where steps lead, as long as they are
enough. -/
lemma walk_links_cases {links left : Nat} {here there : Standpoint} {steps : List Step}
    (h : t.walk links here steps = .ok (left, there)) (links' : Nat) :
    t.walk links' here steps = .error .tooManyLinks ∨
      ∃ left', t.walk links' here steps = .ok (left', there) := by
  induction links' generalizing links here steps left there with
  | zero => cases links with
    | zero => exact walkWith_links_cases (fun _ _ _ _ h => by cases h) h
    | succ links => exact walkWith_links_cases (fun _ _ _ _ _ => .inl rfl) h
  | succ links' ih => cases links with
    | zero => exact walkWith_links_cases (fun _ _ _ _ h => by cases h) h
    | succ links => exact walkWith_links_cases (fun _ _ _ _ h => ih h) h

lemma isDirectoryAt_of_walk {links left : Nat} {here there : Standpoint} {steps : List Step}
    (h : t.walk links here steps = .ok (left, there)) (hdir : t.isDirectoryAt there = true) :
    t.isDirectoryAt here = true := by
  by_contra hnot
  have hhere : t.isDirectoryAt here = false := Bool.eq_false_iff.mpr hnot
  have hfound : (left, there) = (links, here) := by
    cases links with
    | zero => exact eq_of_walkWith hhere h
    | succ links => exact eq_of_walkWith hhere h
  obtain ⟨-, rfl⟩ := Prod.mk.inj hfound
  exact hnot hdir

/-- There is a link at the place, and it leads to a directory. -/
def LinksToDirectory (t : Tree) (place : Place) : Prop :=
  ∃ target links left there, t.find? place = some (.link target) ∧
    t.walk links (linkStart target (.inTree place.tail)) (Path.mk target).steps
      = .ok (left, there) ∧ t.isDirectoryAt there = true

section Follow

variable {links : Nat} {follow : Standpoint → List Step → Except FileError (Nat × Standpoint)}
  {found : Nat × Standpoint} {here : Standpoint} {steps : List Step}
  (hnot : t.isDirectory place = false) (hdir : t.isDirectoryAt found.2 = true)

include hnot hdir

/-- No way to a directory goes on from a place that holds none. -/
lemma isIn_eq_false_of_walkWith (h : t.walkWith links follow here steps = .ok found) :
    here.isIn (· == place) = false := by
  cases here with
  | removed around => rfl
  | inTree q =>
    refine beq_eq_false_iff_ne.mpr ?_
    rintro rfl
    have hplace : t.isDirectoryAt (.inTree q) = false := hnot
    rw [eq_of_walkWith hplace h] at hdir
    exact absurd hplace (Bool.not_eq_false _ ▸ hdir)

lemma linksToDirectory_of_walkWith {touched : Standpoint → List Step → Bool}
    (hhit : ∀ target rest, t.find? place = some (.link target) →
      follow (linkStart target (.inTree place.tail)) ((Path.mk target).steps ++ rest) = .ok found →
      t.LinksToDirectory place)
    (hfollow : ∀ here steps, touched here steps = true → follow here steps = .ok found →
      t.LinksToDirectory place)
    (hover : t.touchesWith (· == place) touched here steps = true)
    (h : t.walkWith links follow here steps = .ok found) : t.LinksToDirectory place := by
  have hstuck : ∀ rest, t.walkWith links follow (.inTree place) rest ≠ .ok found := by
    intro rest hrest
    have hin := isIn_eq_false_of_walkWith hnot hdir hrest
    simp [Standpoint.isIn] at hin
  induction steps generalizing here with
  | nil => exact absurd (isIn_eq_false_of_walkWith hnot hdir h) (Bool.not_eq_false _ ▸ hover)
  | cons step rest ih =>
    have hin := isIn_eq_false_of_walkWith hnot hdir h
    simp only [touchesWith, hin, Bool.false_or, Bool.and_eq_true] at hover
    obtain ⟨hdirectory, hover⟩ := hover
    simp only [walkWith, if_pos hdirectory] at h
    cases step with
    | stay => exact ih hover h
    | up => exact ih hover h
    | down name =>
      dsimp only at hover h
      cases hplace : placeOf here name with
      | error e => simp [hplace] at h
      | ok next =>
        simp only [hplace] at hover h
        by_cases hsame : next = place
        · obtain ⟨dir, rfl, rfl, -⟩ := placeOf_eq_ok hplace
          cases hfind : t.find? (name :: dir) with
          | none => simp [hfind] at h
          | some node =>
            rw [hfind] at h
            cases node with
            | link target =>
              subst hsame
              exact hhit target rest hfind h
            | file contents => exact absurd (hsame ▸ h) (hstuck rest)
            | directory readable => exact absurd (hsame ▸ h) (hstuck rest)
        · rw [beq_eq_false_iff_ne.mpr hsame, Bool.false_or] at hover
          cases hfind : t.find? next with
          | none => simp [hfind] at h
          | some node =>
            rw [hfind] at hover h
            cases node with
            | link target => exact hfollow _ _ hover h
            | file contents => exact ih hover h
            | directory readable => exact ih hover h

end Follow

/-- A way to a directory touches a place that holds none only over a link that leads to one. -/
lemma linksToDirectory_of_walk {links : Nat} {here : Standpoint} {steps : List Step}
    {found : Nat × Standpoint} (hnot : t.isDirectory place = false)
    (hdir : t.isDirectoryAt found.2 = true)
    (hover : t.touches (· == place) links here steps = true)
    (h : t.walk links here steps = .ok found) : t.LinksToDirectory place := by
  induction links generalizing here steps with
  | zero =>
    exact linksToDirectory_of_walkWith hnot hdir (fun _ _ _ h => by cases h)
      (fun _ _ _ h => by cases h) hover h
  | succ links ih =>
    refine linksToDirectory_of_walkWith hnot hdir ?_ (fun _ _ hover h => ih hover h) hover h
    intro target rest hfind hwalk
    obtain ⟨left, there, hfirst, hsecond⟩ := walk_append_eq_ok.mp hwalk
    exact ⟨target, links, left, there, hfind, hfirst, isDirectoryAt_of_walk hsecond hdir⟩

lemma exists_of_isDirectoryAt {there : Standpoint} (h : t.isDirectoryAt there = true) :
    ∃ readable, t.findAt? there = some (.directory readable) := by
  cases there with
  | removed around => exact ⟨true, rfl⟩
  | inTree q =>
    rw [isDirectoryAt, isDirectory] at h
    split at h
    · next readable hnode => exact ⟨readable, hnode⟩
    · cases h

lemma walk_down_link {links : Nat} {here : Standpoint} {name : Name} {target : String}
    (hdir : t.isDirectoryAt here = true) (hplace : placeOf here name = .ok place)
    (hlink : t.find? place = some (.link target)) :
    t.walk links here [.down name] = match links with
      | 0 => .error .tooManyLinks
      | links + 1 => t.walk links (linkStart target here) (Path.mk target).steps := by
  cases links <;> simp [walk, walkWith, hdir, hplace, hlink]

/-- Where a path leads to no directory, the way to the entry that it names does not lead over that
entry. -/
lemma touches_eq_false_of_contentsAt (hspot : t.spot p = .ok (.entry place false))
    (hnot : t.isDirectory place = false)
    (hfound : t.contentsAt p = .error .notFound ∨ ∃ contents, t.contentsAt p = .ok contents) :
    t.touches (· == place) linkLimit (if p.isAbsolute then .root else t.working)
      p.plainSteps.dropLast = false := by
  obtain ⟨here, left, directory, name, hstart, hwalk, hdir, hlast, hplace, hended⟩ :=
    spot_eq_entry.mp hspot
  rw [← (start_eq_ok.mp hstart).2]
  by_contra hover
  obtain ⟨target, links, left', there, hlink, hto, hthere⟩ :=
    linksToDirectory_of_walk hnot hdir (Bool.eq_true_of_not_eq_false hover) hwalk
  have hdirectory : directory = .inTree place.tail := by
    obtain ⟨dir, rfl, rfl, -⟩ := placeOf_eq_ok hplace
    rfl
  have hsteps : p.steps = p.plainSteps.dropLast ++ [.down name] := by
    rw [Path.steps, ← hended, if_neg Bool.false_ne_true, List.dropLast_append_getLast? _ hlast]
  -- The path follows the link in the end, so it leads to the directory as well, or over too many.
  have hall : t.walk linkLimit here p.steps = .error .tooManyLinks ∨
      ∃ left', t.walk linkLimit here p.steps = .ok (left', there) := by
    have hwhole : t.walk linkLimit here p.steps = t.walk left directory [.down name] := by
      rw [hsteps, walk_append, hwalk]
      rfl
    rw [hwhole, walk_down_link hdir hplace hlink, hdirectory]
    cases left with
    | zero => exact .inl rfl
    | succ left => exact walk_links_cases hto left
  have hcontents : (∃ e, t.contentsAt p = .error e) ∧ t.contentsAt p ≠ .error .notFound := by
    rcases hall with hall | ⟨left', hall⟩
    · have hbad : t.contentsAt p = .error .tooManyLinks := by
        simp [contentsAt, resolve, hstart, hall, bind, Except.bind]
      rw [hbad]
      exact ⟨⟨_, rfl⟩, by simp⟩
    · have hresolve : t.resolve p = .ok there := by
        simp [resolve, hstart, hall, bind, Except.bind, pure, Except.pure]
      obtain ⟨readable, hnode⟩ := exists_of_isDirectoryAt hthere
      cases readable <;> simp [contentsAt, hresolve, hnode, bind, Except.bind]
  obtain ⟨⟨e, he⟩, hother⟩ := hcontents
  rcases hfound with hmissing | ⟨contents, hcontents⟩
  · exact hother hmissing
  · rw [he] at hcontents
    cases hcontents

/-- A way that does not lead over the entry that it leads to leads there whatever is put there. -/
lemma spot_put_file (hspot : t.spot p = .ok (.entry place false))
    (hnot : t.isDirectory place = false)
    (hover : t.touches (· == place) linkLimit (if p.isAbsolute then .root else t.working)
      p.plainSteps.dropLast = false) (contents : Contents) :
    (t.put place (.file contents)).spot p = .ok (.entry place false) := by
  have halike : AlikeOff (· == place) t (t.put place (.file contents)) := by
    refine ⟨rfl, fun q hq => .inl ?_⟩
    rw [find?_put (place_ne_nil hnot), if_neg (beq_eq_false_iff_ne.mp hq)]
  obtain ⟨here, left, directory, name, hstart, hwalk, hdir, hlast, hplace, hended⟩ :=
    spot_eq_entry.mp hspot
  rw [← (start_eq_ok.mp hstart).2] at hover
  have hhere : directory.isIn (· == place) = false := by
    cases directory with
    | removed around => rfl
    | inTree q =>
      refine beq_eq_false_iff_ne.mpr ?_
      rintro rfl
      rw [isDirectoryAt, hnot] at hdir
      cases hdir
  exact spot_eq_entry.mpr ⟨here, left, directory, name, hstart, (halike.walk_eq hover).trans hwalk,
    (halike.isDirectoryAt_eq hhere).trans hdir, hlast, hplace, hended⟩

/-! ## Removing what a path names -/

lemma exists_spot_of_entryAt? {node : Node} {name : Name} (h : t.entryAt? p = .ok node)
    (hlast : p.plainSteps.getLast? = some (.down name)) (hslash : p.slashEnded = false) :
    ∃ place, t.spot p = .ok (.entry place false) ∧ t.find? place = some node := by
  obtain ⟨spot, hspot, -⟩ := bind_eq_ok.mp h
  obtain ⟨place, rfl⟩ : ∃ place, spot = .entry place false := by
    rw [Tree.spot, hlast, hslash] at hspot
    obtain ⟨here, -, hspot⟩ := bind_eq_ok.mp hspot
    obtain ⟨⟨left, directory⟩, -, hspot⟩ := bind_eq_ok.mp hspot
    obtain ⟨place, -, hentry⟩ := bind_eq_ok.mp hspot
    exact ⟨place, (pure_eq_ok.mp hentry).symm⟩
  exact ⟨place, hspot, find?_of_entryAt? hspot h⟩

lemma find?_remove (hplace : place ≠ []) : (t.remove place).find? place = none := by
  have hwithout := find?_without (t := t) hplace place
  rw [if_pos (List.isSuffixOf_iff_suffix.mpr List.suffix_rfl)] at hwithout
  cases place with
  | nil => exact absurd rfl hplace
  | cons name dir => exact hwithout

/-- What a path named cannot be looked up by it any more once it was removed, unless the current
directory went with it. -/
lemma entryAt?_remove (hspot : t.spot p = .ok (.entry place false)) (hplace : place ≠ [])
    (hworking : t.working.withoutPlace place = t.working) (node : Node) :
    (t.remove place).entryAt? p ≠ .ok node := by
  have hremove : t.remove place = t.damaged place .missing := by
    rw [damaged, without, ← hworking]
    rfl
  have hloses := loses_damaged (t := t) hplace (d := .missing) (.inl rfl)
  rw [← hremove] at hloses
  obtain ⟨here, left, directory, name, hstart, hwalk, hdir, hlast, hof, hended⟩ :=
    spot_eq_entry.mp hspot
  intro hentry
  obtain ⟨place', hspot', hfind⟩ := exists_spot_of_entryAt? hentry hlast hended.symm
  obtain ⟨here', left', directory', name', hstart', hwalk', hdir', hlast', hof', -⟩ :=
    spot_eq_entry.mp hspot'
  rw [hloses.start_eq, hstart, Except.ok.injEq] at hstart'
  rw [hlast, Option.some.injEq, Step.down.injEq] at hlast'
  subst hstart' hlast'
  cases hover : t.touches (Damage.lost place .missing) linkLimit here p.plainSteps.dropLast with
  | true =>
    have hgone := hloses.not_isDirectoryAt (hloses.isIn_of_walk hover hwalk')
    rw [hgone] at hdir'
    cases hdir'
  | false =>
    rw [hloses.walk_eq hover, hwalk, Except.ok.injEq, Prod.mk.injEq] at hwalk'
    obtain ⟨-, rfl⟩ := hwalk'
    obtain rfl : place = place' := Except.ok.inj (hof.symm.trans hof')
    rw [hloses.gone place (List.isSuffixOf_iff_suffix.mpr List.suffix_rfl)] at hfind
    cases hfind

end Tree

namespace MapFile

variable {t t' : Tree} {p : Path} {m : ChangeMap}

/-- What is put where no directory was found is found there. -/
lemma contentsAt_put {place : Place} (hspot : t.spot p = .ok (.entry place false))
    (hnot : t.isDirectory place = false)
    (hfound : t.contentsAt p = .error .notFound ∨ ∃ contents, t.contentsAt p = .ok contents) :
    (t.put place (.file (.ofBytes m.toImage))).contentsAt p = .ok (.ofBytes m.toImage) := by
  have hover := Tree.touches_eq_false_of_contentsAt hspot hnot hfound
  apply contentsAt_of_spot (Tree.spot_put_file hspot hnot hover _) _ rfl
  rw [Tree.find?_put (Tree.place_ne_nil hnot), if_pos rfl]

lemma load_eq_ok_none (h : t.contentsAt p = .error .notFound) : load t p = .ok none := by
  rw [load, h]

lemma load_eq_ok_some {contents : Contents} (h : t.contentsAt p = .ok contents)
    (hm : ChangeMap.ofImage contents.toBytes = .ok m) : load t p = .ok (some m) := by
  rw [load, h]
  dsimp only
  rw [ofContents_eq_ok_iff.mpr hm]

/-- What loading comes to, where there is neither no file nor the image of a map. -/
lemma exists_load_eq_error (hfile : t.contentsAt p ≠ .error .notFound)
    (himage : ∀ contents m, t.contentsAt p = .ok contents →
      ChangeMap.ofImage contents.toBytes ≠ .ok m) : ∃ cause, load t p = .error cause := by
  cases hcontents : t.contentsAt p with
  | error e =>
    have hother : e ≠ .notFound := fun he => hfile (he ▸ hcontents)
    refine ⟨.file e, ?_⟩
    rw [load, hcontents]
    cases e <;> first | rfl | exact absurd rfl hother
  | ok contents =>
    cases hof : ofContents contents with
    | error e => exact ⟨.corrupt e, by simp [load, hcontents, hof]⟩
    | ok m => exact absurd (ofContents_eq_ok_iff.mp hof) (himage contents m hcontents)

end MapFile

/-- A map in which nothing was recorded yet. -/
structure ChangeMap.IsNew (m : ChangeMap) (count : Nat) (epoch : Lsn) : Prop where
  count : m.slotCount = count
  slots : ∀ j, m.slot j = Lsn.never
  epoch : m.epoch = epoch
  valid : m.valid = true

/-- How a tree changes when a map is kept in it if that can be done: the file at the place that the
path leads to is the image of the map then, and if it cannot be done nothing changes. -/
structure SavedIfPossible (p : Path) (m : ChangeMap) (t t' : Tree) : Prop where
  saved : ∀ place, MapFile.Writable t p m place →
    (∃ contents, t'.find? place = some (.file contents) ∧ t'.contentsAt p = .ok contents ∧
      ChangeMap.ofImage contents.toBytes = .ok m) ∧
    ∀ q, q ≠ place → t'.find? q = t.find? q
  unsaved : (¬ ∃ place, MapFile.Writable t p m place) → t' = t

/-- There is a file or link at a place, to which the path leads, and the system does not refuse to
remove it. -/
structure MapFile.Removable (t : Tree) (p : Path) (place : Place) : Prop where
  spot : t.spot p = .ok (.entry place false)
  found : ∃ node, t.find? place = some node ∧ node.kind ≠ .directory
  granted : t.refusal? .remove place.tail = none

namespace Tracking

variable {config : Config} {isExempt : Path → Bool} {host : Host} {s : Tracking}

/-- The tracker begins an epoch with a new map. -/
def BeginsAnew (config : Config) (host : Host) (epoch : Lsn) (s : Tracking) : Prop :=
  ∃ m, s.liveMap? = some m ∧ m.IsNew (config.mapSize.toNat / slotBytes) epoch ∧
    SavedIfPossible config.mapLocation m host.tree s.host.tree

/-- The tracker that starts goes by what it finds at the path of the map. -/
structure Reconciled (config : Config) (isExempt : Path → Bool) (host : Host) (s : Tracking) :
    Prop where
  settings : s.tracker.config = config ∧ s.tracker.isExempt = isExempt
  /-- Without tracking, a file or link that the path names is removed.  It cannot be looked up any
  more, unless the current directory was below it.  If there is none or the removal is refused, nothing
  is changed. -/
  turnedOff : config.mapSize = 0 → s.tracker.mode = .idle .turnedOff ∧
    (∀ place, MapFile.Removable host.tree config.mapLocation place →
      s.host.tree.find? place = none ∧
      (host.tree.working.withoutPlace place = host.tree.working →
        ∀ found, s.host.tree.entryAt? config.mapLocation ≠ .ok found)) ∧
    ((¬ ∃ place, MapFile.Removable host.tree config.mapLocation place) → s.host.tree = host.tree)
  /-- Where no file is, the first epoch starts at the log's position. -/
  missing : config.mapSize ≠ 0 → host.tree.contentsAt config.mapLocation = .error .notFound →
    s.BeginsAnew config host host.position
  /-- A map of the right size is taken up as it is. -/
  resumed : config.mapSize ≠ 0 → ∀ contents m,
    host.tree.contentsAt config.mapLocation = .ok contents →
    ChangeMap.ofImage contents.toBytes = .ok m →
    m.slotCount = config.mapSize.toNat / slotBytes →
      s.liveMap? = some m ∧ s.host.tree = host.tree
  /-- A map of another size makes way for a new one, whose epoch starts after its own. -/
  resized : config.mapSize ≠ 0 → ∀ contents m,
    host.tree.contentsAt config.mapLocation = .ok contents →
    ChangeMap.ofImage contents.toBytes = .ok m →
    m.slotCount ≠ config.mapSize.toNat / slotBytes →
      s.BeginsAnew config host (max host.position m.epoch.next)
  /-- Whatever else is there is left alone, and the tracker is idle. -/
  unreadable : config.mapSize ≠ 0 →
    host.tree.contentsAt config.mapLocation ≠ .error .notFound →
    (∀ contents m, host.tree.contentsAt config.mapLocation = .ok contents →
      ChangeMap.ofImage contents.toBytes ≠ .ok m) →
      (∃ cause, s.tracker.mode = .idle (.unreadable cause)) ∧ s.host.tree = host.tree

lemma goodMapSize_of_check (hcheck : config.check = .ok ()) (htracks : config.tracks = true) :
    GoodMapSize config.mapSize := by
  by_contra hbad
  simp only [Config.check, htracks, slotsFor, hbad, if_false, if_true, Except.map] at hcheck
  split at hcheck
  · cases hcheck
  · split at hcheck <;> cases hcheck

lemma exists_start (hcheck : config.check = .ok ()) (isExempt : Path → Bool) (host : Host) :
    ∃ s, start config isExempt host = .ok s := by
  unfold start
  rw [hcheck]
  cases htracks : config.tracks with
  | false => exact ⟨_, rfl⟩
  | true =>
    have hsize := goodMapSize_of_check hcheck htracks
    rw [slotsFor_eq_ok hsize]
    cases hload : MapFile.load host.tree config.mapLocation with
    | error cause => exact ⟨_, rfl⟩
    | ok saved =>
      obtain ⟨m, hm⟩ := ChangeMap.exists_create hsize (epochStart host.position saved)
      cases hsaved : saved.filter (·.slotCount = config.mapSize.toNat / slotBytes) with
      | some m => exact ⟨_, by simp [bind, Except.bind, pure, Except.pure, hsaved]; rfl⟩
      | none => exact ⟨_, by simp [bind, Except.bind, pure, Except.pure, hsaved, hm]; rfl⟩

lemma mapSize_eq_zero_iff : config.tracks = false ↔ config.mapSize = 0 := by
  simp [Config.tracks]

/-- What becomes of a tree that a new map is kept in, if it can be. -/
lemma savedIfPossible_withNewMap {m : ChangeMap} (hvalid : m.valid = true)
    (hfound : host.tree.contentsAt config.mapLocation = .error .notFound ∨
      ∃ contents, host.tree.contentsAt config.mapLocation = .ok contents) :
    SavedIfPossible config.mapLocation m host.tree
      ((idle config isExempt host .turnedOff).withNewMap m).host.tree := by
  rw [tree_withNewMap]
  show SavedIfPossible config.mapLocation m host.tree (host.trySave config.mapLocation m).tree
  constructor
  · intro place hplace
    have hput := Tree.find?_put (t := host.tree) (Tree.place_ne_nil hplace.not_directory)
      (.file (.ofBytes m.toImage))
    rw [Host.trySave_of_save hplace.save_eq]
    refine ⟨⟨_, by rw [hput, if_pos rfl],
      MapFile.contentsAt_put hplace.spot hplace.not_directory hfound, ?_⟩, fun q hq => ?_⟩
    · rw [MapFile.toBytes_ofBytes, ChangeMap.ofImage_toImage, ← hvalid]
    · rw [hput, if_neg hq]
  · intro hnone
    cases hsave : MapFile.save host.tree config.mapLocation m with
    | error e => rw [Host.trySave_of_error hsave]
    | ok t' => exact absurd (MapFile.exists_save_iff.mp ⟨t', hsave⟩) hnone

lemma beginsAnew_withNewMap {m : ChangeMap} {epoch : Lsn}
    (hcreate : ChangeMap.create config.mapSize epoch = .ok m)
    (hfound : host.tree.contentsAt config.mapLocation = .error .notFound ∨
      ∃ contents, host.tree.contentsAt config.mapLocation = .ok contents) :
    BeginsAnew config host epoch ((idle config isExempt host .turnedOff).withNewMap m) := by
  have hvalid := ChangeMap.valid_create hcreate
  refine ⟨m, ?_, ⟨ChangeMap.slotCount_create hcreate, ChangeMap.slot_create hcreate,
    ChangeMap.epoch_create hcreate, hvalid⟩, savedIfPossible_withNewMap hvalid hfound⟩
  have hlive := (idle config isExempt host .turnedOff).live?_withNewMap m
  rw [liveMap?_of_live? hlive,
    Host.map_of_maps_eq_push ((idle config isExempt host .turnedOff).maps_withNewMap m)]

/-- What a path names is removed with the map, if it is a file or a link and that is not refused. -/
lemma removeFile_eq_ok {t t' : Tree} {p : Path} :
    t.removeFile p = .ok t' ↔ ∃ place, MapFile.Removable t p place ∧ t' = t.remove place := by
  constructor
  · intro h
    obtain ⟨spot, hspot, h⟩ := bind_eq_ok.mp h
    cases spot with
    | entry place slash =>
      dsimp only at h
      split at h
      · cases h
      · cases h
      · next node hnot hfind =>
        split at h
        · cases h
        · next hslash =>
          rw [Bool.not_eq_true] at hslash
          obtain ⟨_, hgranted, h⟩ := bind_eq_ok.mp h
          refine ⟨place, ⟨hslash ▸ hspot, ⟨node, hfind, fun hkind => ?_⟩,
            Tree.permit_eq_ok.mp hgranted⟩, (pure_eq_ok.mp h).symm⟩
          cases node with
          | directory readable => exact hnot readable rfl
          | file | link => cases hkind
    | same | around | root => cases h
  · rintro ⟨place, ⟨hspot, ⟨node, hfind, hkind⟩, hgranted⟩, rfl⟩
    refine bind_eq_ok.mpr ⟨_, hspot, ?_⟩
    dsimp only
    rw [hfind]
    cases node with
    | directory readable => exact absurd rfl hkind
    | file | link => exact bind_eq_ok.mpr ⟨(), Tree.permit_eq_ok.mpr hgranted, rfl⟩

lemma tree_tryDelete {p : Path} {place : Place} (h : MapFile.Removable host.tree p place) :
    (host.tryDelete p).tree = host.tree.remove place := by
  rw [Host.tryDelete, MapFile.delete, removeFile_eq_ok.mpr ⟨place, h, rfl⟩]

lemma tree_tryDelete_of_not {p : Path} (h : ¬ ∃ place, MapFile.Removable host.tree p place) :
    (host.tryDelete p).tree = host.tree := by
  unfold Host.tryDelete MapFile.delete
  cases hremove : host.tree.removeFile p with
  | error e => cases e <;> rfl
  | ok t' =>
    obtain ⟨place, hplace, -⟩ := removeFile_eq_ok.mp hremove
    exact absurd ⟨place, hplace⟩ h

/-! ## The four ways to start -/

lemma reconciled_turnedOff (htracks : config.tracks = false) :
    Reconciled config isExempt host
      (idle config isExempt (host.tryDelete config.mapLocation) .turnedOff) where
  settings := ⟨rfl, rfl⟩
  turnedOff _ := by
    refine ⟨rfl, fun place hremovable => ?_, tree_tryDelete_of_not⟩
    have hplace : place ≠ [] := by
      rintro rfl
      obtain ⟨node, hfind, hkind⟩ := hremovable.found
      obtain rfl : Node.directory true = node := Option.some.inj hfind
      exact hkind rfl
    show (host.tryDelete config.mapLocation).tree.find? place = none ∧ (_ → ∀ found,
      (host.tryDelete config.mapLocation).tree.entryAt? config.mapLocation ≠ .ok found)
    rw [tree_tryDelete hremovable]
    exact ⟨Tree.find?_remove hplace, Tree.entryAt?_remove hremovable.spot hplace⟩
  missing hsize := absurd (mapSize_eq_zero_iff.mp htracks) hsize
  resumed hsize := absurd (mapSize_eq_zero_iff.mp htracks) hsize
  resized hsize := absurd (mapSize_eq_zero_iff.mp htracks) hsize
  unreadable hsize := absurd (mapSize_eq_zero_iff.mp htracks) hsize

section Tracks

variable (htracks : config.tracks = true)

include htracks

lemma mapSize_ne_zero : config.mapSize ≠ 0 := by
  intro hzero
  rw [mapSize_eq_zero_iff.mpr hzero] at htracks
  cases htracks

lemma reconciled_unreadable {cause : Error}
    (hload : MapFile.load host.tree config.mapLocation = .error cause) :
    Reconciled config isExempt host (idle config isExempt host (.unreadable cause)) where
  settings := ⟨rfl, rfl⟩
  turnedOff hzero := absurd hzero (mapSize_ne_zero htracks)
  missing _ hnone := by
    rw [MapFile.load_eq_ok_none hnone] at hload
    cases hload
  resumed _ contents m hcontents hm := by
    rw [MapFile.load_eq_ok_some hcontents hm] at hload
    cases hload
  resized _ contents m hcontents hm := by
    rw [MapFile.load_eq_ok_some hcontents hm] at hload
    cases hload
  unreadable _ _ _ := ⟨⟨cause, rfl⟩, rfl⟩

lemma reconciled_resumed {m : ChangeMap}
    (hload : MapFile.load host.tree config.mapLocation = .ok (some m))
    (hcount : m.slotCount = config.mapSize.toNat / slotBytes) :
    Reconciled config isExempt host ((idle config isExempt host .turnedOff).withMap m) where
  settings := ⟨rfl, rfl⟩
  turnedOff hzero := absurd hzero (mapSize_ne_zero htracks)
  missing _ hnone := by
    rw [MapFile.load_eq_ok_none hnone] at hload
    cases hload
  resumed _ contents found hcontents hfound _ := by
    rw [MapFile.load_eq_ok_some hcontents hfound, Except.ok.injEq, Option.some.injEq] at hload
    refine ⟨?_, rfl⟩
    have hlive := (idle config isExempt host .turnedOff).live?_withMap m
    rw [liveMap?_of_live? hlive, hload,
      Host.map_of_maps_eq_push ((idle config isExempt host .turnedOff).maps_withMap m)]
  resized _ contents found hcontents hfound hother := by
    rw [MapFile.load_eq_ok_some hcontents hfound, Except.ok.injEq, Option.some.injEq] at hload
    exact absurd (hload ▸ hcount) hother
  unreadable _ hfile himage := by
    obtain ⟨cause, hcause⟩ := MapFile.exists_load_eq_error hfile himage
    cases hload.symm.trans hcause

lemma reconciled_fresh {saved : Option ChangeMap} {m : ChangeMap}
    (hload : MapFile.load host.tree config.mapLocation = .ok saved)
    (hcount : ∀ old, saved = some old → old.slotCount ≠ config.mapSize.toNat / slotBytes)
    (hcreate : ChangeMap.create config.mapSize (epochStart host.position saved) = .ok m) :
    Reconciled config isExempt host ((idle config isExempt host .turnedOff).withNewMap m) where
  settings := ⟨config_withNewMap _ m, rfl⟩
  turnedOff hzero := absurd hzero (mapSize_ne_zero htracks)
  missing _ hnone := by
    rw [MapFile.load_eq_ok_none hnone, Except.ok.injEq] at hload
    subst hload
    exact beginsAnew_withNewMap hcreate (.inl hnone)
  resumed _ contents old hcontents hold hsame := by
    rw [MapFile.load_eq_ok_some hcontents hold, Except.ok.injEq] at hload
    exact absurd hsame (hcount old hload.symm)
  resized _ contents old hcontents hold _ := by
    rw [MapFile.load_eq_ok_some hcontents hold, Except.ok.injEq] at hload
    subst hload
    rw [epochStart, Lsn.latest_eq_max] at hcreate
    exact beginsAnew_withNewMap hcreate (.inr ⟨contents, hcontents⟩)
  unreadable _ hfile himage := by
    obtain ⟨cause, hcause⟩ := MapFile.exists_load_eq_error hfile himage
    cases hload.symm.trans hcause

end Tracks

lemma reconciled_of_started (h : Started config isExempt host s) :
    Reconciled config isExempt host s := by
  cases h with
  | turnedOff htracks => exact reconciled_turnedOff htracks
  | unreadable htracks hload => exact reconciled_unreadable htracks hload
  | attached htracks hload hcount => exact reconciled_resumed htracks hload hcount
  | fresh htracks hload hcount hcreate => exact reconciled_fresh htracks hload hcount hcreate

/-- **Startup goes by what is on disk.**  A start fails if and only if the settings are not accepted,
and with the fault that they have; nothing is changed then, as there is no host that a failed start
leaves.  Otherwise it succeeds, and `Reconciled` says what has become of the tracker and of the tree in
each case. -/
theorem start_reconciles (config : Config) (isExempt : Path → Bool) (host : Host) :
    (∀ e, start config isExempt host = .error e ↔ config.check = .error e) ∧
    (config.check = .ok () →
      ∃ s, start config isExempt host = .ok s ∧ Reconciled config isExempt host s) := by
  refine ⟨fun e => ?_, fun hcheck => ?_⟩
  · cases hcheck : config.check with
    | error fault => simp [start, hcheck, bind, Except.bind]
    | ok _ =>
      obtain ⟨s, hs⟩ := exists_start hcheck isExempt host
      simp [hs]
  · obtain ⟨s, hs⟩ := exists_start hcheck isExempt host
    exact ⟨s, hs, reconciled_of_started (started_of_start hs).2⟩

/-- A tracker that finds a map of two slots and is to have one of one slot, which it keeps in the place
of the other. -/
theorem start_reconciles_resized :
    ∃ s m contents, start ⟨⟨"data"⟩, 8, "v1", some ⟨"/m"⟩⟩ exemptNone
        ⟨Tree.empty.put [.ofText "m"] (.file (.ofBytes (ChangeMap.empty 2 ⟨60⟩ (by decide)).toImage)),
          ⟨50⟩, #[]⟩ = .ok s ∧
      s.liveMap? = some m ∧ m.slotCount = 1 ∧ m.epoch = ⟨61⟩ ∧
      s.host.tree.find? [.ofText "m"] = some (.file contents) ∧
      ChangeMap.ofImage contents.toBytes = .ok m := by
  obtain ⟨old, hold⟩ : ∃ old, old = ChangeMap.empty 2 ⟨60⟩ (by decide) := ⟨_, rfl⟩
  rw [← hold]
  obtain ⟨s, hs, hreconciled⟩ := (start_reconciles ⟨⟨"data"⟩, 8, "v1", some ⟨"/m"⟩⟩ exemptNone
    ⟨Tree.empty.put [.ofText "m"] (.file (.ofBytes old.toImage)), ⟨50⟩, #[]⟩).2 rfl
  have himage : ChangeMap.ofImage (Contents.ofBytes old.toImage).toBytes = .ok old := by
    rw [MapFile.toBytes_ofBytes, ChangeMap.ofImage_toImage, hold]
    rfl
  have hcontents : (Tree.empty.put [.ofText "m"] (.file (.ofBytes old.toImage))).contentsAt ⟨"/m"⟩
      = .ok (.ofBytes old.toImage) :=
    MapFile.contentsAt_of_spot rfl (Tree.find?_put (by simp) _ _) rfl
  obtain ⟨m, hm, hnew, hsaved⟩ := hreconciled.resized (by decide) _ old hcontents himage
    (by rw [hold]; decide)
  have hsite : MapFile.Site (Tree.empty.put [.ofText "m"] (.file (.ofBytes old.toImage))) ⟨"/m"⟩
      [.ofText "m"] [.ofText ".tmp000000"] := ⟨rfl, rfl, ⟨"/.tmp000000"⟩, rfl, rfl⟩
  obtain ⟨⟨contents, hfile, -, hofImage⟩, -⟩ :=
    hsaved.saved _ (hsite.writable m fun _ _ => rfl)
  refine ⟨s, m, contents, hs, hm, hnew.count, hnew.epoch.trans ?_, hfile, hofImage⟩
  rw [hold]
  rfl

/-- A file that the system keeps from being removed: by its rights, or because its path is written with
a slash at the end. -/
theorem start_keeps_refused_file :
    let lockedTree : Tree :=
      { Tree.empty.put [.ofText "m"] (.file (.zeros 44)) with
        refusal? := fun
          | .remove, _ => some .permissionDenied
          | _, _ => none }
    (∃ s, start ⟨⟨"data"⟩, 0, "v1", some ⟨"/m"⟩⟩ exemptNone ⟨lockedTree, ⟨50⟩, #[]⟩ = .ok s ∧
      s.tracker.mode = .idle .turnedOff ∧
      s.host.tree.find? [.ofText "m"] = some (.file (.zeros 44))) ∧
    (Path.mk "/m/").components = (Path.mk "/m").components ∧
    ∃ s, start ⟨⟨"data"⟩, 0, "v1", some ⟨"/m/"⟩⟩ exemptNone
        ⟨Tree.empty.put [.ofText "m"] (.file (.zeros 44)), ⟨50⟩, #[]⟩ = .ok s ∧
      s.tracker.mode = .idle .turnedOff ∧
      s.host.tree.find? [.ofText "m"] = some (.file (.zeros 44)) :=
  ⟨⟨_, rfl, rfl, rfl⟩, rfl, _, rfl, rfl, rfl⟩

end Tracking

end ChangeTracking
