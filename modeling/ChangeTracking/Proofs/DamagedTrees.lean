import ChangeTracking.Proofs.MapFiles
import ChangeTracking.Proofs.Trails
import ChangeTracking.Proofs.Visits

/-!
# Trees that are damaged

A tree can lose what is at some places, and some of its directories may refuse to be listed from then
on.  `Tree.Loses` says how the tree after that looks, and `Tree.Damage` is about one place: what is
there is missing, or the directory there cannot be read, with what is in it or without.

A path that does not lead over what was lost leads where it led (`Loses.resolve_eq`), and one that does
comes to nothing any more (`Loses.isIn_of_resolve`).  What could be listed is listed without what was
lost (`Loses.listed_eq`).
-/

namespace ChangeTracking

namespace Tree

variable {t t' : Tree}

/-- What becomes of a tree in which the `lost` places are empty and the directories at the `shut` ones
cannot be listed. -/
structure Loses (lost shut : Place → Bool) (t t' : Tree) : Prop where
  working : t'.working = t.working
  gone : ∀ q, lost q = true → t'.find? q = none
  closed : ∀ q, shut q = true → t.isDirectory q = true ∧ t'.find? q = some (.directory false)
  kept : ∀ q, lost q = false → shut q = false → t'.find? q = t.find? q

namespace Loses

variable {lost shut : Place → Bool} (h : Loses lost shut t t')

include h

/-! ## Ways -/

/-- What was not lost is what it was, but for a directory that cannot be listed any more. -/
lemma find?_cases {q : Place} (hq : lost q = false) :
    t'.find? q = t.find? q ∨
      ∃ readable, t.find? q = some (.directory readable) ∧
        t'.find? q = some (.directory false) := by
  cases hshut : shut q with
  | false => exact .inl (h.kept q hq hshut)
  | true =>
    obtain ⟨hdir, hfind⟩ := h.closed q hshut
    unfold isDirectory at hdir
    split at hdir
    · next readable hdirectory => exact .inr ⟨readable, hdirectory, hfind⟩
    · cases hdir

lemma alikeOff : AlikeOff lost t t' where
  working := h.working
  find? q hq := by
    refine (h.find?_cases hq).imp_right ?_
    rintro ⟨readable, hdir, hdir'⟩
    exact ⟨readable, false, hdir, hdir'⟩

lemma not_isDirectoryAt {here : Standpoint} (hhere : here.isIn lost = true) :
    t'.isDirectoryAt here = false := by
  cases here with
  | removed around => cases hhere
  | inTree q => simp only [isDirectoryAt, isDirectory, h.gone q hhere]

lemma walk_eq {links : Nat} {here : Standpoint} {steps : List Step}
    (hover : t.touches lost links here steps = false) :
    t'.walk links here steps = t.walk links here steps := h.alikeOff.walk_eq hover

lemma isIn_of_walkWith {links : Nat}
    {follow' : Standpoint → List Step → Except FileError (Nat × Standpoint)}
    {touched : Standpoint → List Step → Bool} {found : Nat × Standpoint}
    (hfollow : ∀ here steps, touched here steps = true → follow' here steps = .ok found →
      found.2.isIn lost = true)
    {here : Standpoint} {steps : List Step}
    (hover : t.touchesWith lost touched here steps = true)
    (hwalk : t'.walkWith links follow' here steps = .ok found) : found.2.isIn lost = true := by
  induction steps generalizing here with
  | nil =>
    obtain rfl := Except.ok.inj hwalk
    exact hover
  | cons step rest ih =>
    cases hhere : here.isIn lost with
    | true => simp [walkWith, h.not_isDirectoryAt hhere] at hwalk
    | false =>
      simp only [touchesWith, hhere, Bool.false_or, Bool.and_eq_true] at hover
      obtain ⟨hdir, hover⟩ := hover
      simp only [walkWith, h.alikeOff.isDirectoryAt_eq hhere, hdir, if_true] at hwalk
      cases step with
      | stay => exact ih hover hwalk
      | up => exact ih hover hwalk
      | down name =>
        dsimp only at hover hwalk
        cases hplace : placeOf here name with
        | error e => simp [hplace] at hwalk
        | ok place =>
          simp only [hplace, Bool.or_eq_true] at hover hwalk
          cases hlost : lost place with
          | true => simp [h.gone place hlost] at hwalk
          | false =>
            simp only [hlost, Bool.false_eq_true, false_or] at hover
            rcases h.find?_cases hlost with heq | ⟨readable, hfind, hfind'⟩
            · rw [heq] at hwalk
              cases hfind : t.find? place with
              | none => simp [hfind] at hwalk
              | some node =>
                rw [hfind] at hover hwalk
                cases node with
                | link target => exact hfollow _ _ hover hwalk
                | file contents => exact ih hover hwalk
                | directory readable => exact ih hover hwalk
            · rw [hfind] at hover
              rw [hfind'] at hwalk
              exact ih hover hwalk

lemma isIn_of_walk {links : Nat} {here : Standpoint} {steps : List Step}
    {found : Nat × Standpoint} (hover : t.touches lost links here steps = true)
    (hwalk : t'.walk links here steps = .ok found) : found.2.isIn lost = true := by
  induction links generalizing here steps with
  | zero => exact h.isIn_of_walkWith (fun _ _ hover => by cases hover) hover hwalk
  | succ links ih => exact h.isIn_of_walkWith (fun _ _ hover hwalk => ih hover hwalk) hover hwalk

/-! ## Paths and listings -/

variable {p : Path}

lemma start_eq (p : Path) : t'.start p = t.start p := h.alikeOff.start_eq p

lemma resolve_eq (hover : t.leadsOver lost p = false) : t'.resolve p = t.resolve p :=
  h.alikeOff.resolve_eq hover

lemma isIn_of_resolve {there : Standpoint} (hover : t.leadsOver lost p = true)
    (hresolve : t'.resolve p = .ok there) : there.isIn lost = true := by
  obtain ⟨here, left, hstart, hwalk⟩ := resolve_eq_ok.mp hresolve
  rw [h.start_eq] at hstart
  rw [leadsOver, ← (start_eq_ok.mp hstart).2] at hover
  exact h.isIn_of_walk hover hwalk

/-- What a path led to over what was lost cannot be listed. -/
lemma not_isListable (hover : t.leadsOver lost p = true) : t'.isListable p = false := by
  by_contra hlist
  obtain ⟨there, hresolve, hfind⟩ := isListable_iff.mp (Bool.eq_true_of_not_eq_false hlist)
  have hlost := h.isIn_of_resolve hover hresolve
  cases there with
  | removed around => cases hlost
  | inTree q =>
    have hnone : t'.findAt? (.inTree q) = none := h.gone q hlost
    cases hnone.symm.trans hfind

/-- No directory can be listed that could not be listed before. -/
lemma isListable_of_isListable (hlist : t'.isListable p = true) : t.isListable p = true := by
  cases hover : t.leadsOver lost p with
  | true => cases (h.not_isListable hover).symm.trans hlist
  | false =>
    obtain ⟨there, hresolve, hfind⟩ := isListable_iff.mp hlist
    rw [h.resolve_eq hover] at hresolve
    refine isListable_iff.mpr ⟨there, hresolve, ?_⟩
    cases there with
    | removed around => exact hfind
    | inTree q =>
      rcases h.find?_cases (not_mem_of_resolve hover hresolve) with heq | ⟨readable, -, hdir'⟩
      · exact heq.symm.trans hfind
      · cases hdir'.symm.trans hfind

/-- A directory that is shut cannot be listed. -/
lemma not_isListable_of_shut {q : Place} (hover : t.leadsOver lost p = false)
    (hresolve : t.resolve p = .ok (.inTree q)) (hshut : shut q = true) :
    t'.isListable p = false := by
  by_contra hlist
  obtain ⟨there, hthere, hfind⟩ := isListable_iff.mp (Bool.eq_true_of_not_eq_false hlist)
  rw [h.resolve_eq hover, hresolve, Except.ok.injEq] at hthere
  subst hthere
  cases (h.closed q hshut).2.symm.trans hfind

section Directory

variable {dir : Place} (hover : t.leadsOver lost p = false)
  (hresolve : t.resolve p = .ok (.inTree dir))

include hover hresolve

variable (hfind : t.find? dir = some (.directory true)) (hshut : shut dir = false)

include hfind hshut

/-- A directory that can be listed still is listed without what was lost. -/
lemma listed_eq :
    Walk.listed t' p = (Walk.listed t p).filter fun e => !lost (e.name :: dir) := by
  have hlost := not_mem_of_resolve hover hresolve
  have hfind' : t'.find? dir = some (.directory true) := (h.kept dir hlost hshut).trans hfind
  have hresolve' : t'.resolve p = .ok (.inTree dir) := (h.resolve_eq hover).trans hresolve
  have hsame : ((t'.entriesAt dir).mergeSort listingOrder).filter (fun e => !lost (e.name :: dir))
      = ((t.entriesAt dir).mergeSort listingOrder).filter fun e => !lost (e.name :: dir) := by
    refine filter_sorted_eq fun e he => ?_
    rw [mem_entriesAt_iff, mem_entriesAt_iff]
    rcases h.find?_cases ((Bool.not_eq_true' _).mp he) with heq | ⟨readable, hdir, hdir'⟩
    · rw [heq]
    · simp [hdir, hdir', Node.kind]
  rw [Walk.listed_of_resolve hresolve hfind, Walk.listed_of_resolve hresolve' hfind', ← hsame]
  refine (List.filter_eq_self.mpr fun e he => ?_).symm
  rw [List.mem_mergeSort, mem_entriesAt_iff] at he
  obtain ⟨node, hnode, -⟩ := he
  rw [Bool.not_eq_true']
  by_contra hgone
  rw [h.gone _ (Bool.eq_true_of_not_eq_false hgone)] at hnode
  cases hnode

/-- The walk does about an entry that was not lost what it did before. -/
lemma lookAt_eq (hp : p.text ≠ "") {version : String} {context : Context} {e : Entry}
    (he : e ∈ Walk.listed t p) (hkept : lost (e.name :: dir) = false) :
    Walk.lookAt t' version p context e = Walk.lookAt t version p context e := by
  have hlost := not_mem_of_resolve hover hresolve
  have hfind' : t'.find? dir = some (.directory true) := (h.kept dir hlost hshut).trans hfind
  have hresolve' : t'.resolve p = .ok (.inTree dir) := (h.resolve_eq hover).trans hresolve
  refine lookAt_congr fun hkind node => ?_
  rw [entryAt?_join_iff hp e.name.property hresolve (isDirectory_of_find? hfind),
    entryAt?_join_iff hp e.name.property hresolve' (isDirectory_of_find? hfind')]
  rcases h.find?_cases hkept with heq | ⟨readable, hdir, -⟩
  · rw [heq]
  · -- a file was not a directory
    obtain ⟨dir', node', hresolve'', -, hnode, hsame⟩ := Walk.mem_listed_iff.mp he
    obtain rfl := place_unique hresolve hresolve''
    obtain rfl := Option.some.inj (hdir.symm.trans hnode)
    cases hsame.trans hkind

end Directory

end Loses

/-! ## Damage at one place -/

/-- What can happen to what is at a place. -/
inductive Damage
  /-- It is missing, with all that is below it. -/
  | missing
  /-- It is a directory that cannot be listed any more. -/
  | unlistable
  /-- It is a directory that cannot be read at all: it cannot be listed, and what is below it cannot
  be come to. -/
  | unreadable

namespace Damage

/-- The places at which nothing is any more. -/
def lost (place : Place) : Damage → Place → Bool
  | missing, q => place.isSuffixOf q
  | unlistable, _ => false
  | unreadable, q => place.isSuffixOf q && q != place

/-- The places of the directories that cannot be listed any more. -/
def shut (place : Place) : Damage → Place → Bool
  | missing, _ => false
  | unlistable, q => q == place
  | unreadable, q => q == place

end Damage

/-- The tree without what is at a place and below it.  The current directory is the same one, so it is
missing if it was there. -/
def without (t : Tree) (place : Place) : Tree := { t.remove place with working := t.working }

/-- The tree with what is at a place damaged. -/
def damaged (t : Tree) (place : Place) : Damage → Tree
  | .missing => t.without place
  | .unlistable => t.put place (.directory false)
  | .unreadable => (t.without place).put place (.directory false)

variable {place : Place}

lemma lookup_filter (keep : Place → Bool) (q : Place) (entries : List (Place × Node)) :
    (entries.filter fun e => keep e.1).lookup q = if keep q then entries.lookup q else none := by
  induction entries with
  | nil => simp
  | cons e rest ih =>
    obtain ⟨r, node⟩ := e
    by_cases hqr : q = r
    · subst hqr
      cases hkeep : keep q with
      | true => simp [hkeep]
      | false => simp [hkeep, ih]
    · have hne : (q == r) = false := beq_eq_false_iff_ne.mpr hqr
      cases hkeep : keep r with
      | true => simp [hkeep, List.lookup_cons, hne, ih]
      | false => simp [hkeep, List.lookup_cons, hne, ih]

lemma find?_without (hplace : place ≠ []) (q : Place) :
    (t.without place).find? q = if place.isSuffixOf q then none else t.find? q := by
  cases q with
  | nil =>
    have hroot : place.isSuffixOf [] = false := by
      rw [← Bool.not_eq_true, List.isSuffixOf_iff_suffix, List.suffix_nil]
      exact hplace
    rw [hroot]
    rfl
  | cons name dir =>
    have hlookup := lookup_filter (fun q => !place.isSuffixOf q) (name :: dir) t.entries
    cases hbelow : place.isSuffixOf (name :: dir) with
    | true => simpa [hbelow, find?, without, remove] using hlookup
    | false => simpa [hbelow, find?, without, remove] using hlookup

/-- A damaged tree has lost what the damage says. -/
theorem loses_damaged (hplace : place ≠ []) {d : Damage}
    (hdir : d = .missing ∨ t.isDirectory place = true) :
    Loses (d.lost place) (d.shut place) t (t.damaged place d) := by
  cases d with
  | missing =>
    refine ⟨rfl, fun q hq => ?_, fun q hq => Bool.noConfusion hq, fun q hq _ => ?_⟩
    · rw [Damage.lost] at hq
      rw [damaged, find?_without hplace, if_pos hq]
    · rw [Damage.lost] at hq
      rw [damaged, find?_without hplace, if_neg (Bool.eq_false_iff.mp hq)]
  | unlistable =>
    have hdir := hdir.resolve_left (by simp)
    refine ⟨rfl, fun q hq => Bool.noConfusion hq, fun q hq => ?_,
      fun q _ hq => ?_⟩
    · obtain rfl : q = place := by simpa [Damage.shut] using hq
      exact ⟨hdir, (find?_put hplace _ q).trans (if_pos rfl)⟩
    · have hother : q ≠ place := by simpa [Damage.shut] using hq
      exact (find?_put hplace _ q).trans (if_neg hother)
  | unreadable =>
    have hdir := hdir.resolve_left (by simp)
    refine ⟨rfl, fun q hq => ?_, fun q hq => ?_, fun q hq hq' => ?_⟩
    · have hboth : place.isSuffixOf q = true ∧ q ≠ place := by
        simpa [Damage.lost, List.isSuffixOf_iff_suffix] using hq
      rw [damaged, find?_put hplace, if_neg hboth.2, find?_without hplace, if_pos hboth.1]
    · obtain rfl : q = place := by simpa [Damage.shut] using hq
      exact ⟨hdir, (find?_put hplace _ q).trans (if_pos rfl)⟩
    · have hother : q ≠ place := by simpa [Damage.shut] using hq'
      have hbelow : place.isSuffixOf q = false := by
        rw [Damage.lost, bne_iff_ne.mpr hother, Bool.and_true] at hq
        exact hq
      rw [damaged, find?_put hplace, if_neg hother, find?_without hplace,
        if_neg (Bool.eq_false_iff.mp hbelow)]

end Tree

end ChangeTracking
