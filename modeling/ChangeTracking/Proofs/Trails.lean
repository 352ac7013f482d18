import ChangeTracking.Proofs.Lookup

/-!
# The places that a way touches

Where a path leads depends on what is at the places that it comes to or looks for, and on no others.
`Tree.touches` says whether some of given places are among these, step by step as `Tree.walk` goes.

A way in two parts touches what its parts touch (`touches_append`).  So a path that leads on by a name
touches what the path itself does and the place of the entry of that name (`leadsOver_join`).  In two
trees that have the same off some places, a way is the same if it touches none of them
(`AlikeOff.walk_eq`, `AlikeOff.resolve_eq`).  A way to a directory may even pass by places at which
two trees differ, as long as there are no directories in either and the way follows no link there
(`walk_of_same`).
-/

namespace ChangeTracking

/-- Whether a standpoint is at one of the given places. -/
def Standpoint.isIn (places : Place → Bool) : Standpoint → Bool
  | .inTree place => places place
  | .removed _ => false

namespace Tree

variable {t : Tree} {places : Place → Bool}

/-- Whether the given steps come to one of the places or look for what is there.  What is done about a
link is left to `follow`, as in `walkWith`. -/
def touchesWith (t : Tree) (places : Place → Bool) (follow : Standpoint → List Step → Bool)
    (here : Standpoint) : List Step → Bool
  | [] => here.isIn places
  | step :: rest =>
    here.isIn places || (t.isDirectoryAt here &&
      match step with
      | .stay => touchesWith t places follow here rest
      | .up => touchesWith t places follow here.around rest
      | .down name =>
        match placeOf here name with
        | .error _ => false
        | .ok place =>
          places place ||
            match t.find? place with
            | none => false
            | some (.link target) =>
              follow (linkStart target here) ((Path.mk target).steps ++ rest)
            | some _ => touchesWith t places follow (.inTree place) rest)

/-- Whether the given steps come to one of the places or look for what is there, where at most the
given number of links is followed. -/
def touches (t : Tree) (places : Place → Bool) : Nat → Standpoint → List Step → Bool
  | 0 => touchesWith t places fun _ _ => false
  | links + 1 => touchesWith t places (touches t places links)

/-- Whether a path leads over one of the places. -/
def leadsOver (t : Tree) (places : Place → Bool) (p : Path) : Bool :=
  t.touches places linkLimit (if p.isAbsolute then .root else t.working) p.steps

/-- Whether a path leads to one of the places. -/
def leadsTo (t : Tree) (places : Place → Bool) (p : Path) : Bool :=
  match t.resolve p with
  | .ok there => there.isIn places
  | .error _ => false

/-! ## Ways in two parts -/

lemma touches_of_isIn {here : Standpoint} (h : here.isIn places = true) (links : Nat)
    (steps : List Step) : t.touches places links here steps = true := by
  cases links <;> cases steps <;> simp [touches, touchesWith, h]

/-- What is touched after a walk has come to its end, if it has. -/
def touchesAfter (t : Tree) (places : Place → Bool) (steps : List Step) :
    Except FileError (Nat × Standpoint) → Bool
  | .ok (left, there) => t.touches places left there steps
  | .error _ => false

lemma touchesWith_append {links : Nat} {follow : Standpoint → List Step → Bool}
    {go : Standpoint → List Step → Except FileError (Nat × Standpoint)} {second : List Step}
    (hfollow : ∀ here steps, follow here (steps ++ second)
      = (follow here steps || t.touchesAfter places second (go here steps)))
    (hsecond : ∀ here, t.touchesWith places follow here second = t.touches places links here second)
    (here : Standpoint) (first : List Step) :
    t.touchesWith places follow here (first ++ second)
      = (t.touchesWith places follow here first
          || t.touchesAfter places second (t.walkWith links go here first)) := by
  induction first generalizing here with
  | nil =>
    simp only [List.nil_append, touchesWith, walkWith, touchesAfter, hsecond]
    cases hhere : here.isIn places with
    | true => exact touches_of_isIn hhere links second
    | false => rfl
  | cons step rest ih =>
    simp only [List.cons_append, touchesWith, walkWith]
    cases here.isIn places with
    | true => rfl
    | false =>
      by_cases hdir : t.isDirectoryAt here = true
      · simp only [hdir, if_true, Bool.true_and, Bool.false_or]
        cases step with
        | stay => exact ih here
        | up => exact ih here.around
        | down name =>
          dsimp only
          cases placeOf here name with
          | error e => rfl
          | ok place =>
            dsimp only
            cases places place with
            | true => rfl
            | false =>
              cases t.find? place with
              | none => rfl
              | some node =>
                cases node with
                | link target =>
                  dsimp only
                  rw [← List.append_assoc]
                  exact hfollow _ _
                | file contents => exact ih _
                | directory readable => exact ih _
      · simp only [hdir, Bool.false_eq_true, if_false, Bool.false_and, Bool.or_false]
        rfl

/-- Steps that are gone in two parts touch what the parts touch. -/
lemma touches_append (t : Tree) (places : Place → Bool) (links : Nat) (here : Standpoint)
    (first second : List Step) :
    t.touches places links here (first ++ second)
      = (t.touches places links here first
          || t.touchesAfter places second (t.walk links here first)) := by
  induction links generalizing here first with
  | zero => exact touchesWith_append (fun _ _ => rfl) (fun _ => rfl) here first
  | succ links ih =>
    exact touchesWith_append (fun here steps => ih here steps) (fun _ => rfl) here first

/-- Steps that come to one of the places touch it. -/
lemma touches_of_walk {links left : Nat} {here there : Standpoint} {steps : List Step}
    (hwalk : t.walk links here steps = .ok (left, there)) (hthere : there.isIn places = true) :
    t.touches places links here steps = true := by
  have happend := t.touches_append places links here steps []
  rw [List.append_nil, hwalk, touchesAfter, touches_of_isIn hthere, Bool.or_true] at happend
  exact happend

/-! ## One more name -/

lemma touches_stay (links : Nat) (here : Standpoint) :
    t.touches places links here [.stay] = here.isIn places := by
  cases links <;> simp [touches, touchesWith]

lemma touches_down {links : Nat} {dir : Place} {name : Name}
    (hdir : t.isDirectory dir = true) (hsize : name.val.utf8ByteSize ≤ nameLimit)
    (hplace : places (name :: dir) = true) :
    t.touches places links (.inTree dir) [.down name] = true := by
  have hdirectory : t.isDirectoryAt (.inTree dir) = true := hdir
  have hof : placeOf (.inTree dir) name = .ok (name :: dir) := by
    rw [placeOf, if_neg (Nat.not_lt.mpr hsize)]
  cases links <;> simp [touches, touchesWith, hdirectory, hof, hplace]

lemma touches_down_eq {links : Nat} {dir : Place} {name : Name} {node : Node}
    (hdir : t.isDirectory dir = true) (hsize : name.val.utf8ByteSize ≤ nameLimit)
    (hnode : t.find? (name :: dir) = some node) (hlink : node.kind ≠ .link) :
    t.touches places links (.inTree dir) [.down name]
      = (places dir || places (name :: dir)) := by
  have hdirectory : t.isDirectoryAt (.inTree dir) = true := hdir
  have hof : placeOf (.inTree dir) name = .ok (name :: dir) := by
    rw [placeOf, if_neg (Nat.not_lt.mpr hsize)]
  cases node with
  | link target => exact absurd rfl hlink
  | file contents =>
    cases links <;> simp [touches, touchesWith, hdirectory, hof, hnode, Standpoint.isIn]
  | directory readable =>
    cases links <;> simp [touches, touchesWith, hdirectory, hof, hnode, Standpoint.isIn]

section Paths

variable {p : Path}

/-- A slash at the end of a path makes no difference to what it leads over. -/
lemma leadsOver_eq (t : Tree) (places : Place → Bool) (p : Path) :
    t.leadsOver places p
      = t.touches places linkLimit (if p.isAbsolute then .root else t.working) p.plainSteps := by
  unfold leadsOver Path.steps
  generalize (if p.isAbsolute = true then Standpoint.root else t.working) = here
  split
  · rw [touches_append]
    cases hwalk : t.walk linkLimit here p.plainSteps with
    | error e => rw [touchesAfter, Bool.or_false]
    | ok found =>
      obtain ⟨left, there⟩ := found
      rw [touchesAfter, touches_stay]
      cases hthere : there.isIn places with
      | true => rw [Bool.or_true, touches_of_walk hwalk hthere]
      | false => rw [Bool.or_false]
  · rfl

/-- A path leads over the place that it leads to. -/
lemma leadsOver_of_resolve {there : Standpoint} (h : t.resolve p = .ok there)
    (hthere : there.isIn places = true) : t.leadsOver places p = true := by
  obtain ⟨here, left, hstart, hwalk⟩ := resolve_eq_ok.mp h
  rw [leadsOver, ← (start_eq_ok.mp hstart).2]
  exact touches_of_walk hwalk hthere

lemma not_mem_of_resolve {dir : Place} (hover : t.leadsOver places p = false)
    (h : t.resolve p = .ok (.inTree dir)) : places dir = false := by
  cases hmem : places dir with
  | false => rfl
  | true => cases hover.symm.trans (leadsOver_of_resolve h hmem)

variable {name : Name} (hp : p.text ≠ "")

include hp

/-- What a path that leads on by a name leads over: what the path itself does, and what is touched
from there on. -/
lemma leadsOver_join (t : Tree) (places : Place → Bool) (name : Name) :
    t.leadsOver places (p.join name.val)
      = (t.leadsOver places p || t.touchesAfter places [.down name]
          (t.walk linkLimit (if p.isAbsolute then .root else t.working) p.plainSteps)) := by
  have hname := name.property
  rw [leadsOver_eq, leadsOver_eq, hname.plainSteps_join hp, touches_append,
    Path.isAbsolute_join hp hname.isAbsolute]

lemma leadsOver_join_of_leadsOver (h : t.leadsOver places p = true) :
    t.leadsOver places (p.join name.val) = true := by
  rw [leadsOver_join hp, h, Bool.true_or]

section Directory

variable {dir : Place} (hresolve : t.resolve p = .ok (.inTree dir))
  (hdir : t.isDirectory dir = true) (hsize : name.val.utf8ByteSize ≤ nameLimit)

include hresolve hdir hsize

/-- A path that leads on from a directory by the name of one of the places leads over it. -/
lemma leadsOver_join_of_mem (hplace : places (name :: dir) = true) :
    t.leadsOver places (p.join name.val) = true := by
  obtain ⟨here, left, hstart, hwalk⟩ := exists_walk_of_resolve hresolve
  rw [leadsOver_join hp, ← (start_eq_ok.mp hstart).2, hwalk, touchesAfter,
    touches_down hdir hsize hplace, Bool.or_true]

/-- A path that leads on by the name of a file or directory touches the place of that besides. -/
lemma leadsOver_join_eq {node : Node} (hnode : t.find? (name :: dir) = some node)
    (hlink : node.kind ≠ .link) :
    t.leadsOver places (p.join name.val) = (t.leadsOver places p || places (name :: dir)) := by
  obtain ⟨here, left, hstart, hwalk⟩ := exists_walk_of_resolve hresolve
  rw [leadsOver_join hp, ← (start_eq_ok.mp hstart).2, hwalk, touchesAfter,
    touches_down_eq hdir hsize hnode hlink]
  cases hhere : places dir with
  | true => rw [leadsOver_of_resolve hresolve hhere, Bool.true_or, Bool.true_or]
  | false => rfl

end Directory

end Paths

/-! ## Trees that have the same off some places -/

/-- Two trees that have the same at all places but the given ones.  A directory may refuse to be
listed in one of them only. -/
structure AlikeOff (places : Place → Bool) (t t' : Tree) : Prop where
  working : t'.working = t.working
  find? : ∀ q, places q = false → t'.find? q = t.find? q ∨
    ∃ readable readable', t.find? q = some (.directory readable) ∧
      t'.find? q = some (.directory readable')

namespace AlikeOff

variable {t' : Tree} (h : AlikeOff places t t')

include h

lemma isDirectoryAt_eq {here : Standpoint} (hhere : here.isIn places = false) :
    t'.isDirectoryAt here = t.isDirectoryAt here := by
  cases here with
  | removed around => rfl
  | inTree q =>
    rcases h.find? q hhere with heq | ⟨readable, readable', hdir, hdir'⟩
    · simp only [isDirectoryAt, isDirectory, heq]
    · simp only [isDirectoryAt, isDirectory, hdir, hdir']

lemma walkWith_eq {links : Nat}
    {follow follow' : Standpoint → List Step → Except FileError (Nat × Standpoint)}
    {touched : Standpoint → List Step → Bool}
    (hfollow : ∀ here steps, touched here steps = false → follow' here steps = follow here steps)
    {here : Standpoint} {steps : List Step}
    (hover : t.touchesWith places touched here steps = false) :
    t'.walkWith links follow' here steps = t.walkWith links follow here steps := by
  induction steps generalizing here with
  | nil => rfl
  | cons step rest ih =>
    simp only [touchesWith, Bool.or_eq_false_iff] at hover
    obtain ⟨hhere, hover⟩ := hover
    simp only [walkWith, h.isDirectoryAt_eq hhere]
    by_cases hdir : t.isDirectoryAt here = true
    · simp only [hdir, Bool.true_and, if_true] at hover ⊢
      cases step with
      | stay => exact ih hover
      | up => exact ih hover
      | down name =>
        dsimp only at hover ⊢
        cases hplace : placeOf here name with
        | error e => rfl
        | ok place =>
          simp only [hplace, Bool.or_eq_false_iff] at hover
          obtain ⟨hlost, hover⟩ := hover
          dsimp only
          rcases h.find? place hlost with heq | ⟨readable, readable', hfind, hfind'⟩
          · rw [heq]
            cases hfind : t.find? place with
            | none => rfl
            | some node =>
              rw [hfind] at hover
              cases node with
              | link target => exact hfollow _ _ hover
              | file contents => exact ih hover
              | directory readable => exact ih hover
          · rw [hfind] at hover
            rw [hfind, hfind']
            exact ih hover
    · simp only [hdir, Bool.false_eq_true, if_false]

/-- A way that touches none of the places is the same in both trees. -/
lemma walk_eq {links : Nat} {here : Standpoint} {steps : List Step}
    (hover : t.touches places links here steps = false) :
    t'.walk links here steps = t.walk links here steps := by
  induction links generalizing here steps with
  | zero => exact h.walkWith_eq (fun _ _ _ => rfl) hover
  | succ links ih => exact h.walkWith_eq (fun _ _ hover => ih hover) hover

lemma start_eq (p : Path) : t'.start p = t.start p := by
  rw [start, start, h.working]

/-- A path that leads over none of the places leads to the same in both trees. -/
lemma resolve_eq {p : Path} (hover : t.leadsOver places p = false) :
    t'.resolve p = t.resolve p := by
  cases hstart : t.start p with
  | error e => simp [resolve, h.start_eq, hstart, bind, Except.bind]
  | ok here =>
    rw [leadsOver, ← (start_eq_ok.mp hstart).2] at hover
    simp [resolve, h.start_eq, hstart, h.walk_eq hover, bind, Except.bind]

end AlikeOff

/-! ## Ways to directories -/

/-- Steps cannot be gone from what is not a directory. -/
lemma eq_of_walkWith {links : Nat}
    {follow : Standpoint → List Step → Except FileError (Nat × Standpoint)} {here : Standpoint}
    {steps : List Step} {found : Nat × Standpoint} (hdir : t.isDirectoryAt here = false)
    (h : t.walkWith links follow here steps = .ok found) : found = (links, here) := by
  cases steps with
  | nil => exact (Except.ok.inj h).symm
  | cons step rest => simp [walkWith, hdir] at h

/-- A way touches none of no places. -/
lemma touches_nowhere (t : Tree) (links : Nat) (here : Standpoint) (steps : List Step) :
    t.touches (fun _ => false) links here steps = false := by
  have hstep {follow : Standpoint → List Step → Bool}
      (hfollow : ∀ here steps, follow here steps = false) (here : Standpoint) (steps : List Step) :
      t.touchesWith (fun _ => false) follow here steps = false := by
    have hnowhere (there : Standpoint) : there.isIn (fun _ => false) = false := by
      cases there <;> rfl
    induction steps generalizing here with
    | nil => exact hnowhere here
    | cons step rest ih =>
      simp only [touchesWith, hnowhere, Bool.false_or, Bool.and_eq_false_iff]
      refine .inr ?_
      cases step with
      | stay => exact ih here
      | up => exact ih here.around
      | down name =>
        dsimp only
        cases placeOf here name with
        | error e => rfl
        | ok place =>
          dsimp only
          cases t.find? place with
          | none => rfl
          | some node =>
            cases node with
            | link target => exact hfollow _ _
            | file contents => exact ih _
            | directory readable => exact ih _
  induction links generalizing here steps with
  | zero => exact hstep (fun _ _ => rfl) here steps
  | succ links ih => exact hstep ih here steps

section Ways

variable {t' : Tree} {cuts : Place → Bool} {links : Nat} {found : Nat × Standpoint}
  (hdirectory : ∀ here, t'.isDirectoryAt here = t.isDirectoryAt here)
  (hsame : ∀ q, t'.find? q = t.find? q ∨ t.isDirectory q = false ∧
    ∀ target, t.find? q = some (.link target) → cuts q = true)
  (hfound : t.isDirectoryAt found.2 = true)

include hdirectory hsame hfound

/-- Where two trees differ, the first one has no directory, and so its ways to directories only pass
where it has links. -/
lemma walkWith_of_same
    {follow follow' : Standpoint → List Step → Except FileError (Nat × Standpoint)}
    {touched : Standpoint → List Step → Bool}
    (hfollow : ∀ here steps, touched here steps = false → follow here steps = .ok found →
      follow' here steps = .ok found)
    {here : Standpoint} {steps : List Step} (hover : t.touchesWith cuts touched here steps = false)
    (hwalk : t.walkWith links follow here steps = .ok found) :
    t'.walkWith links follow' here steps = .ok found := by
  induction steps generalizing here with
  | nil => exact hwalk
  | cons step rest ih =>
    simp only [touchesWith, Bool.or_eq_false_iff] at hover
    replace hover := hover.2
    simp only [walkWith, hdirectory] at hwalk ⊢
    by_cases hhere : t.isDirectoryAt here = true
    · simp only [hhere, if_true, Bool.true_and] at hover hwalk ⊢
      cases step with
      | stay => exact ih hover hwalk
      | up => exact ih hover hwalk
      | down name =>
        dsimp only at hover hwalk ⊢
        cases hplace : placeOf here name with
        | error e => simp [hplace] at hwalk
        | ok place =>
          simp only [hplace, Bool.or_eq_false_iff] at hover hwalk ⊢
          obtain ⟨hcut, hover⟩ := hover
          rcases hsame place with heq | ⟨hnot, hlink⟩
          · rw [heq]
            cases hfind : t.find? place with
            | none => simp [hfind] at hwalk
            | some node =>
              rw [hfind] at hover hwalk
              cases node with
              | link target => exact hfollow _ _ hover hwalk
              | file contents => exact ih hover hwalk
              | directory readable => exact ih hover hwalk
          · -- the way would end here, where no directory is
            have hstuck : t.walkWith links follow (.inTree place) rest ≠ .ok found := by
              intro hrest
              have hend : t.isDirectoryAt (.inTree place) = false := hnot
              rw [eq_of_walkWith hend hrest, hend] at hfound
              cases hfound
            cases hfind : t.find? place with
            | none => simp [hfind] at hwalk
            | some node =>
              rw [hfind] at hwalk
              cases node with
              | link target => cases hcut.symm.trans (hlink target hfind)
              | file contents => exact absurd hwalk hstuck
              | directory readable => exact absurd hwalk hstuck
    · simp [hhere] at hwalk

lemma walk_of_same {here : Standpoint} {steps : List Step}
    (hover : t.touches cuts links here steps = false) (hwalk : t.walk links here steps = .ok found) :
    t'.walk links here steps = .ok found := by
  induction links generalizing here steps with
  | zero =>
    exact walkWith_of_same hdirectory hsame hfound (fun _ _ _ hfollowed => by cases hfollowed)
      hover hwalk
  | succ links ih => exact walkWith_of_same hdirectory hsame hfound (fun _ _ => ih) hover hwalk

end Ways

end Tree

end ChangeTracking
