import ChangeTracking.Proofs.Reports
import ChangeTracking.Proofs.WalkLoop
import Mathlib.Algebra.Group.Action.Defs
import Mathlib.Algebra.GroupWithZero.Nat
import Mathlib.Algebra.Order.BigOperators.Group.List

/-!
# The links that a walk follows

A walk follows a link only where it knows nothing yet, and knows the tablespace from then on; so it
follows one link at most on its way down from a root, and ends.  The number zero breaks this: it
stands for a tablespace that is not known, so behind a link with that name the walk knows as little as
before and follows the next one (`Descends.enter_zero`).  Where no link that it comes to has that name,
the number of directories it goes into is bounded by the number of entries of the tree
(`length_opened_course_le`): below what is known there is at most one of them for each entry, and each
other entry is a directory that the walk passes once or a link to one of the former.
-/

namespace ChangeTracking

open Layout

/-- Whether an entry is a link. -/
def Tree.Entry.isLink (e : Tree.Entry) : Bool := e.kind == .link

/-- Whether an entry's name is a way to write zero. -/
def Tree.Entry.namesZero (e : Tree.Entry) : Bool := readOid? e.name.val.toList == some noOid

/-! ## The number of entries below a place -/

/-- If each of some amounts is bounded by the number of entries of a kind, and no entry is of two of
the kinds, then their sum is bounded by the number of entries of any of the kinds. -/
lemma sum_le_countP {α β : Type} {l : List α} {amount : α → Nat} {weight : Nat} {entries : List β}
    (kind : α → β → Bool) (any : β → Bool)
    (hamount : ∀ a ∈ l, amount a ≤ weight * entries.countP (kind a))
    (hany : ∀ a ∈ l, ∀ e, kind a e = true → any e = true)
    (hdisjoint : l.Pairwise fun a b => ∀ e, kind b e = true → kind a e = false) :
    (l.map amount).sum ≤ weight * entries.countP any := by
  induction l generalizing any with
  | nil => simp
  | cons a rest ih =>
    obtain ⟨hfirst, hothers⟩ := List.pairwise_cons.mp hdisjoint
    have hrest := ih (fun e => any e && !kind a e)
      (fun b hb => hamount b (List.mem_cons_of_mem a hb))
      (fun b hb e he => by
        rw [hany b (List.mem_cons_of_mem a hb) e he, hfirst b hb e he]
        rfl)
      hothers
    have hkind : entries.countP (fun e => any e && kind a e) = entries.countP (kind a) :=
      List.countP_congr fun e _ => by
        have := hany a List.mem_cons_self e
        simpa using this
    have hsplit := List.countP_eq_countP_filter_add entries any (kind a)
    rw [List.countP_filter, List.countP_filter, hkind] at hsplit
    calc ((a :: rest).map amount).sum
        = amount a + (rest.map amount).sum := List.sum_cons
      _ ≤ weight * entries.countP (kind a)
            + weight * entries.countP (fun e => any e && !kind a e) :=
          Nat.add_le_add (hamount a List.mem_cons_self) hrest
      _ = weight * entries.countP any := by rw [← Nat.mul_add, hsplit]

namespace Tree

variable {t : Tree} {place : Place}

/-- The number of entries at a place and below it. -/
def sizeAt (t : Tree) (place : Place) : Nat := t.entries.countP fun e => place.isSuffixOf e.1

/-- The number of entries below a place. -/
def sizeBelow (t : Tree) (place : Place) : Nat :=
  t.entries.countP fun e => place.isSuffixOf e.1 && e.1 != place

lemma sizeBelow_le (t : Tree) (place : Place) : t.sizeBelow place ≤ t.entries.length :=
  List.countP_le_length

lemma sizeBelow_lt_sizeAt {name : Name} {node : Node} (h : t.find? (name :: place) = some node) :
    t.sizeBelow (name :: place) < t.sizeAt (name :: place) := by
  obtain ⟨before, after, hentries, -⟩ := List.lookup_eq_some_iff.mp h
  have hthere : 0 < (t.entries.filter fun e => !(e.1 != name :: place)).countP
      fun e => (name :: place).isSuffixOf e.1 := by
    refine List.countP_pos_iff.mpr ⟨(name :: place, node), List.mem_filter.mpr ⟨?_, by simp⟩, ?_⟩
    · simp [hentries]
    · exact List.isSuffixOf_iff_suffix.mpr List.suffix_rfl
  rw [sizeAt, List.countP_eq_countP_filter_add _ _ fun e => e.1 != name :: place, List.countP_filter]
  exact Nat.lt_add_of_pos_right hthere

/-- If what belongs to the entries of a directory is bounded by the numbers of entries at their
places, all of it is bounded by the number of entries below the directory. -/
lemma sum_le_sizeBelow {l : List Entry} (hnames : (l.map Entry.name).Nodup) {amount : Entry → Nat}
    {weight : Nat} (hamount : ∀ e ∈ l, amount e ≤ weight * t.sizeAt (e.name :: place)) :
    (l.map amount).sum ≤ weight * t.sizeBelow place := by
  refine sum_le_countP (fun (e : Entry) (x : Place × Node) => (e.name :: place).isSuffixOf x.1) _
    hamount (fun e _ x hx => ?_) ((List.pairwise_map.mp hnames).imp fun {a b} hname x hx => ?_)
  · have hsuffix := List.isSuffixOf_iff_suffix.mp hx
    rw [Bool.and_eq_true, List.isSuffixOf_iff_suffix, bne_iff_ne]
    refine ⟨(List.suffix_cons _ _).trans hsuffix, fun hplace => ?_⟩
    have hlength := hsuffix.length_le
    rw [hplace, List.length_cons] at hlength
    omega
  · rw [← Bool.not_eq_true, List.isSuffixOf_iff_suffix]
    intro hsuffix
    have hsame := (List.suffix_of_suffix_length_le hsuffix (List.isSuffixOf_iff_suffix.mp hx)
      le_rfl).eq_of_length rfl
    exact hname (List.cons.inj hsame).1

end Tree

namespace Walk

variable {t : Tree} {version : String} {roots : List Root} {context inner : Context}

/-! ## What is known behind an entry -/

/-- A number is not taken for the name of a temporary relation's file. -/
lemma isTemporaryName_of_readOid? {name : String} {oid : Oid}
    (h : readOid? name.toList = some oid) : isTemporaryName name = false := by
  have hdigits := allDigits_of_readOid? h
  simp only [allDigits, Bool.and_eq_true, Bool.not_eq_true', List.isEmpty_eq_false_iff,
    List.all_eq_true, decide_eq_true_eq] at hdigits
  obtain ⟨hne, hdigits⟩ := hdigits
  obtain ⟨c, rest, hname⟩ := List.exists_cons_of_ne_nil hne
  exact isTemporaryName_of_digit hname (Text.isDigit_iff.mpr (hdigits c (by simp [hname])))

/-- Where something is known the walk goes into directories only, and something is known there. -/
lemma enter?_of_known {name : String} {kind : Kind} (hcontext : context ≠ .unknown)
    (h : context.enter? version name kind = some inner) : kind = .directory ∧ inner ≠ .unknown := by
  rcases enter?_cases h with ⟨database, hkind, hdatabase, -, rfl⟩ | ⟨hkind, htablespace, -, rfl⟩ |
    ⟨-, -, hunknown, -⟩
  · refine ⟨hkind, fun hinner => hcontext ?_⟩
    have htablespace : context.tablespace = noOid := congrArg Context.tablespace hinner
    cases context
    exact congrArg₂ Context.mk htablespace hdatabase
  · exact ⟨hkind, fun hinner => htablespace (congrArg Context.tablespace hinner)⟩
  · exact absurd hunknown hcontext

/-- A link is followed where nothing is known; something is known behind it, unless its name is
zero. -/
lemma enter?_link {name : String} (h : context.enter? version name .link = some inner) :
    context = .unknown ∧ (inner = .unknown → readOid? name.toList = some noOid) := by
  rcases enter?_cases h with ⟨-, hkind, -⟩ | ⟨hkind, -⟩ | ⟨tablespace, -, hunknown, hread, rfl⟩
  · cases hkind
  · cases hkind
  · refine ⟨hunknown, fun hinner => ?_⟩
    obtain rfl : tablespace = noOid := congrArg Context.tablespace hinner
    exact hread

/-! ## Ways down from a root -/

/-- A walk over some roots comes down from one of them by these entries to a directory, and knows this
about it. -/
inductive Descends (t : Tree) (version : String) (roots : List Root) :
    List Tree.Entry → Path → Context → Prop
  | root {r : Root} (hr : r ∈ roots) (hleads : t.leadsSomewhere r.path = true) :
      Descends t version roots [] r.path r.context
  | enter {way : List Tree.Entry} {dir : Path} {context inner : Context} {e : Tree.Entry}
      (hway : Descends t version roots way dir context) (he : e ∈ listed t dir)
      (hlook : lookAt t version dir context e = .enter inner) :
      Descends t version roots (way ++ [e]) (dir.join e.name.val) inner

namespace Descends

variable {way : List Tree.Entry} {dir : Path}

lemma enter_of_find? (h : Descends t version roots way dir context) {place : Place} {name : Name}
    {node : Node} (hresolve : t.resolve dir = .ok (.inTree place))
    (hdir : t.find? place = some (.directory true)) (hnode : t.find? (name :: place) = some node)
    (htemporary : isTemporaryName name.val = false)
    (henter : context.enter? version name.val node.kind = some inner) :
    Descends t version roots (way ++ [⟨name, node.kind⟩]) (dir.join name.val) inner :=
  h.enter (mem_listed_iff.mpr ⟨place, node, hresolve, hdir, hnode, rfl⟩)
    (lookAt_eq_enter.mpr ⟨htemporary, henter⟩)

/-- Where nothing is known, the walk has come over no links but those that are named by zero. -/
lemma namesZero_of_unknown (h : Descends t version roots way dir context)
    (hunknown : context = .unknown) : ∀ e ∈ way, e.isLink = true → e.namesZero = true := by
  induction h with
  | root => simp
  | @enter way dir context inner last hway he hlook ih =>
    have henter := enter?_of_lookAt hlook
    by_cases hcontext : context = .unknown
    · intro e hmem hlink
      rcases List.mem_append.mp hmem with hmem | hmem
      · exact ih hcontext e hmem hlink
      · obtain rfl := List.mem_singleton.mp hmem
        rw [beq_iff_eq.mp hlink] at henter
        exact beq_iff_eq.mpr ((enter?_link henter).2 hunknown)
    · exact absurd hunknown (enter?_of_known hcontext henter).2

/-- The way up to one of its entries. -/
lemma exists_before {before after : List Tree.Entry} {e : Tree.Entry}
    (h : Descends t version roots (before ++ e :: after) dir context) :
    ∃ around context inner, Descends t version roots before around context ∧ e ∈ listed t around ∧
      lookAt t version around context e = .enter inner := by
  generalize hway : before ++ e :: after = way at h
  induction h generalizing after with
  | root => simp at hway
  | @enter way dir context inner last hdown hmem hlook ih =>
    rcases List.eq_nil_or_concat after with rfl | ⟨after, other, rfl⟩
    · obtain ⟨rfl, hlast⟩ := List.append_inj' hway rfl
      obtain rfl := List.singleton_inj.mp hlast
      exact ⟨dir, context, inner, hdown, hmem, hlook⟩
    · have hlong : (before ++ e :: after) ++ [other] = way ++ [last] := by simpa using hway
      exact ih (List.append_inj' hlong rfl).1

/-- No link is followed behind another one, unless that is named by zero. -/
lemma namesZero_of_before {before after : List Tree.Entry} {e : Tree.Entry}
    (h : Descends t version roots (before ++ e :: after) dir context) (he : e.isLink = true) :
    ∀ l ∈ before, l.isLink = true → l.namesZero = true := by
  obtain ⟨around, context, inner, hbefore, -, hlook⟩ := h.exists_before
  have henter := enter?_of_lookAt hlook
  rw [beq_iff_eq.mp he] at henter
  exact hbefore.namesZero_of_unknown (enter?_link henter).1

/-- Behind a link that is named by zero the walk knows as little as before. -/
lemma enter_zero (h : Descends t version roots way dir .unknown) {e : Tree.Entry}
    (he : e ∈ listed t dir) (hlink : e.isLink = true) (hzero : e.namesZero = true) :
    Descends t version roots (way ++ [e]) (dir.join e.name.val) .unknown := by
  have hread : readOid? e.name.val.toList = some noOid := beq_iff_eq.mp hzero
  have hkind : e.kind = .link := beq_iff_eq.mp hlink
  refine h.enter he (lookAt_eq_enter.mpr ⟨isTemporaryName_of_readOid? hread, ?_⟩)
  rw [hkind, Context.enter?, if_pos rfl, hread]
  rfl

/-- The entries of a way are entries of the tree. -/
lemma exists_find? (h : Descends t version roots way dir context) :
    ∀ e ∈ way, ∃ place node, t.find? (e.name :: place) = some node := by
  intro e he
  obtain ⟨before, after, rfl⟩ := List.append_of_mem he
  obtain ⟨around, -, -, -, hmem, -⟩ := h.exists_before
  obtain ⟨place, node, -, -, hfind, -⟩ := mem_listed_iff.mp hmem
  exact ⟨place, node, hfind⟩

/-- Where no link is named by zero, one link is followed at most. -/
lemma length_links_le (h : Descends t version roots way dir context)
    (hzero : ∀ e ∈ way, e.isLink = true → e.namesZero = false) :
    (way.filter Tree.Entry.isLink).length ≤ 1 := by
  induction h with
  | root => simp
  | @enter way dir context inner last hdown _ hlook ih =>
    have hbefore : ∀ e ∈ way, e.isLink = true → e.namesZero = false :=
      fun e he => hzero e (List.mem_append_left _ he)
    rw [List.filter_append, List.length_append]
    cases hlink : last.isLink with
    | false => simpa [hlink] using ih hbefore
    | true =>
      have henter := enter?_of_lookAt hlook
      rw [beq_iff_eq.mp hlink] at henter
      have hnone : way.filter Tree.Entry.isLink = [] := by
        refine List.filter_eq_nil_iff.mpr fun e he hlink => ?_
        cases (hbefore e he hlink).symm.trans
          (hdown.namesZero_of_unknown (enter?_link henter).1 e he hlink)
      simp [hnone, hlink]

end Descends

/-! ## The directories that a walk goes into -/

/-- The directories that a walk goes into at an entry. -/
def openedAt (t : Tree) (version : String) (room : Nat) (within : List Path) (dir : Path)
    (context : Context) (e : Tree.Entry) : List Path :=
  (actsAt t version (course t version room) within dir context e).filterMap Act.opened?

/-- The directories below a directory that a walk goes into. -/
def openedIn (t : Tree) (version : String) (room : Nat) (within : List Path) (dir : Path)
    (context : Context) : List Path :=
  (course t version room within dir context).filterMap Act.opened?

section Opened

variable {room : Nat} {within : List Path} {dir p : Path} {way : List Tree.Entry}

@[simp] lemma openedIn_zero : openedIn t version 0 within dir context = [] := rfl

lemma openedIn_succ : openedIn t version (room + 1) within dir context
    = (listed t dir).flatMap (openedAt t version room within dir context) := by
  rw [openedIn, course, List.filterMap_flatMap]
  rfl

lemma openedIn_eq_nil (h : listed t dir = []) :
    openedIn t version room within dir context = [] := by
  rw [openedIn, course_eq_nil h, List.filterMap_nil]

lemma openedAt_eq (e : Tree.Entry) : openedAt t version room within dir context e =
    match lookAt t version dir context e with
    | .enter inner => dir.join e.name.val ::
        openedIn t version room (dir :: within) (dir.join e.name.val) inner
    | _ => [] := by
  rw [openedAt, actsAt]
  cases lookAt t version dir context e <;> rfl

lemma opened_root (t : Tree) (version : String) (r : Root) :
    (r.course t version).filterMap Act.opened? = if t.leadsSomewhere r.path then
      r.path :: openedIn t version (roomFor r.path) [] r.path r.context else [] := by
  unfold Root.course
  split <;> rfl

lemma mem_openedIn_succ : p ∈ openedIn t version (room + 1) within dir context ↔
    ∃ e ∈ listed t dir, ∃ inner, lookAt t version dir context e = .enter inner ∧
      (p = dir.join e.name.val ∨
        p ∈ openedIn t version room (dir :: within) (dir.join e.name.val) inner) := by
  rw [openedIn_succ, List.mem_flatMap]
  refine exists_congr fun e => and_congr_right fun _ => ?_
  rw [openedAt_eq]
  cases lookAt t version dir context e <;> simp

/-- A walk comes down to every directory that it goes into. -/
lemma Descends.of_mem_openedIn (h : Descends t version roots way dir context)
    (hp : p ∈ openedIn t version room within dir context) :
    ∃ way context, Descends t version roots way p context := by
  induction room generalizing within dir context way with
  | zero => simp at hp
  | succ room ih =>
    obtain ⟨e, he, inner, hlook, rfl | hinside⟩ := mem_openedIn_succ.mp hp
    · exact ⟨_, inner, h.enter he hlook⟩
    · exact ih (h.enter he hlook) hinside

/-- A walk goes into every directory that it comes down to, and does all there that there is to do. -/
lemma Descends.exists_root (h : Descends t version roots way dir context) :
    ∃ r ∈ roots, .opens dir ∈ r.course t version ∧ ∃ room within, roomFor dir ≤ room ∧
      course t version room within dir context ⊆ r.course t version := by
  induction h with
  | @root r hr hleads =>
    refine ⟨r, hr, ?_, roomFor r.path, [], le_rfl, ?_⟩
    · rw [Root.course, if_pos hleads]
      exact List.mem_cons_self
    · rw [Root.course, if_pos hleads]
      exact List.subset_cons_self _ _
  | @enter way dir context inner e _ he hlook ih =>
    obtain ⟨r, hr, -, room, within, hroom, hsubset⟩ := ih
    have hless := roomFor_join_lt he
    obtain ⟨less, rfl⟩ := Nat.exists_eq_add_of_lt (Nat.lt_of_lt_of_le hless hroom)
    have hacts : Act.opens (dir.join e.name.val) ::
        course t version (roomFor (dir.join e.name.val) + less) (dir :: within)
          (dir.join e.name.val) inner ⊆ r.course t version := by
      intro a ha
      refine hsubset (List.mem_flatMap.mpr ⟨e, he, ?_⟩)
      rw [actsAt, hlook]
      exact ha
    exact ⟨r, hr, hacts List.mem_cons_self, _, dir :: within, Nat.le_add_right _ _,
      fun a ha => hacts (List.mem_cons_of_mem _ ha)⟩

/-! ## Their number -/

/-- What is known about the places that the walk has come to, one level further down: a directory's
place is the one of its name. -/
lemma resolve_join_of_listed {place : Place} {e : Tree.Entry} (he : e ∈ listed t dir)
    (hkind : e.kind = .directory) (hplace : t.resolve dir = .ok (.inTree place))
    (hlist : t.isListable (dir.join e.name.val) = true) :
    t.resolve (dir.join e.name.val) = .ok (.inTree (e.name :: place)) := by
  have hdir := text_ne_of_mem_listed he
  obtain ⟨node, hentry, hnode⟩ := exists_entryAt?_of_listed hdir he hlist
  refine Tree.resolve_join hdir e.name.property hentry ?_ hplace
  rw [hnode, hkind]
  decide

/-- The number of directories that a walk goes into below a directory, if there is a bound for what
is behind each link that it follows. -/
lemma length_openedIn_le {weight : Nat} (hweight : 0 < weight) (known : Path → Context → Prop)
    (hdirectory : ∀ {dir : Path} {context inner : Context} {e : Tree.Entry}, known dir context →
      e ∈ listed t dir → lookAt t version dir context e = .enter inner → e.kind = .directory →
        known (dir.join e.name.val) inner)
    (hlink : ∀ {dir : Path} {context inner : Context} {e : Tree.Entry} (room : Nat)
      (within : List Path), known dir context → e ∈ listed t dir →
        lookAt t version dir context e = .enter inner → e.kind = .link →
          (openedIn t version room within (dir.join e.name.val) inner).length < weight)
    (hknown : known dir context) {place : Place}
    (hplace : t.isListable dir = true → t.resolve dir = .ok (.inTree place)) :
    (openedIn t version room within dir context).length ≤ weight * t.sizeBelow place := by
  induction room generalizing within dir context place with
  | zero => simp
  | succ room ih =>
    rw [openedIn_succ, List.length_flatMap]
    refine Tree.sum_le_sizeBelow (nodup_names_listed t dir) fun e he => ?_
    have hresolve := hplace (isListable_of_mem_listed he)
    obtain ⟨place', node, hresolve', -, hfind, -⟩ := mem_listed_iff.mp he
    obtain rfl := Tree.place_unique hresolve hresolve'
    have hsize : weight * (t.sizeBelow (e.name :: place) + 1)
        ≤ weight * t.sizeAt (e.name :: place) :=
      Nat.mul_le_mul_left weight (Tree.sizeBelow_lt_sizeAt hfind)
    rw [Nat.mul_add, Nat.mul_one] at hsize
    rw [openedAt_eq]
    cases hlook : lookAt t version dir context e with
    | skip => simp
    | file f => simp
    | enter inner =>
      rw [List.length_cons]
      cases hkind : e.kind with
      | file =>
        have henter := enter?_of_lookAt hlook
        rw [hkind] at henter
        cases henter
      | directory =>
        have hbelow : (openedIn t version room (dir :: within) (dir.join e.name.val) inner).length
            ≤ weight * t.sizeBelow (e.name :: place) :=
          ih (hdirectory hknown he hlook hkind) (resolve_join_of_listed he hkind hresolve)
        omega
      | link =>
        have hbehind := hlink room (dir :: within) hknown he hlook hkind
        omega

/-- Where something is known a walk goes into no more directories than the tree has entries. -/
lemma length_openedIn_of_known (hcontext : context ≠ .unknown) :
    (openedIn t version room within dir context).length ≤ t.entries.length := by
  cases hlisted : listed t dir with
  | nil => simp [openedIn_eq_nil hlisted]
  | cons e rest =>
    have he : e ∈ listed t dir := hlisted ▸ List.mem_cons_self
    obtain ⟨place, -, hresolve, -⟩ := mem_listed_iff.mp he
    have hbelow : (openedIn t version room within dir context).length ≤ 1 * t.sizeBelow place := by
      refine length_openedIn_le Nat.one_pos (fun _ context => context ≠ .unknown) ?_ ?_ hcontext
        fun _ => hresolve
      · intro dir context inner e hcontext _ hlook _
        exact (enter?_of_known hcontext (enter?_of_lookAt hlook)).2
      · intro dir context inner e room within hcontext _ hlook hkind
        cases hkind.symm.trans (enter?_of_known hcontext (enter?_of_lookAt hlook)).1
    rw [Nat.one_mul] at hbelow
    exact hbelow.trans (t.sizeBelow_le place)

/-- Where no link is named by zero, a walk goes into no more directories below a root than there are
pairs of entries. -/
lemma length_openedIn_of_links
    (hzero : ∀ {way : List Tree.Entry} {dir : Path} {context : Context},
      Descends t version roots way dir context → ∀ e ∈ way, e.isLink = true → e.namesZero = false)
    (h : Descends t version roots way dir context) :
    (openedIn t version room within dir context).length
      ≤ (t.entries.length + 1) * t.entries.length := by
  cases hlisted : listed t dir with
  | nil => simp [openedIn_eq_nil hlisted]
  | cons e rest =>
    have he : e ∈ listed t dir := hlisted ▸ List.mem_cons_self
    obtain ⟨place, -, hresolve, -⟩ := mem_listed_iff.mp he
    refine (length_openedIn_le (Nat.succ_pos t.entries.length)
      (fun dir context => ∃ way, Descends t version roots way dir context) ?_ ?_ ⟨way, h⟩
      fun _ => hresolve).trans (Nat.mul_le_mul_left _ (t.sizeBelow_le place))
    · rintro dir context inner e ⟨way, hway⟩ he hlook -
      exact ⟨_, hway.enter he hlook⟩
    · rintro dir context inner e room within ⟨way, hway⟩ he hlook hkind
      refine Nat.lt_succ_of_le (length_openedIn_of_known fun hunknown => ?_)
      have hlast : e ∈ way ++ [e] := List.mem_append_right _ (List.mem_singleton_self e)
      have hlink : e.isLink = true := beq_iff_eq.mpr hkind
      have hdown := hway.enter he hlook
      cases (hzero hdown e hlast hlink).symm.trans
        (hdown.namesZero_of_unknown hunknown e hlast hlink)

lemma length_opened_root
    (hzero : ∀ {way : List Tree.Entry} {dir : Path} {context : Context},
      Descends t version roots way dir context → ∀ e ∈ way, e.isLink = true → e.namesZero = false)
    {r : Root} (hr : r ∈ roots) :
    ((r.course t version).filterMap Act.opened?).length
      ≤ 1 + (t.entries.length + 1) * t.entries.length := by
  rw [opened_root]
  split
  · next hleads =>
    rw [List.length_cons, Nat.add_comm]
    exact Nat.add_le_add_left (length_openedIn_of_links hzero (.root hr hleads)) 1
  · exact Nat.zero_le _

/-- A walk goes into the directories that it comes down to. -/
lemma mem_opened_iff : p ∈ (roots.flatMap (Root.course t version)).filterMap Act.opened? ↔
    ∃ way context, Descends t version roots way p context := by
  constructor
  · intro hp
    rw [List.filterMap_flatMap] at hp
    obtain ⟨r, hr, hp⟩ := List.mem_flatMap.mp hp
    rw [opened_root] at hp
    split at hp
    · next hleads =>
      rcases List.mem_cons.mp hp with rfl | hp
      · exact ⟨[], _, .root hr hleads⟩
      · exact (Descends.root hr hleads).of_mem_openedIn hp
    · simp at hp
  · rintro ⟨way, context, h⟩
    obtain ⟨r, hr, hopens, -⟩ := h.exists_root
    exact List.mem_filterMap.mpr ⟨.opens p, List.mem_flatMap.mpr ⟨r, hr, hopens⟩, rfl⟩

end Opened

end Walk

namespace Walker

open Walk

/-- **How many links a walk follows.**  The walk over a data directory comes to its end in every tree,
links that lead in a circle included, and goes into just the directories to which there is a way down
from one of its roots.  On such a way no link is followed behind another one, unless that is named by
zero; behind one that is, the walk goes on as if there had been none.  So if no link on the way has
that name, there is at most one; and if that is so of all ways, the number of directories that the walk
goes into is bounded by the number of entries of the tree. -/
theorem descends_over_links (t : Tree) (version : String) (data : Path) :
    ∃ acts, Loop.Runs t version ⟨[], (ofDataDirectory version data).roots⟩ acts ∧
      (∀ p, p ∈ acts.filterMap Act.opened? ↔ ∃ way context,
        Descends t version (ofDataDirectory version data).roots way p context) ∧
      (∀ before e after p context,
        Descends t version (ofDataDirectory version data).roots (before ++ e :: after) p context →
          e.isLink = true → ∀ l ∈ before, l.isLink = true → l.namesZero = true) ∧
      (∀ way p, Descends t version (ofDataDirectory version data).roots way p .unknown →
        ∀ e ∈ listed t p, e.isLink = true → e.namesZero = true →
          Descends t version (ofDataDirectory version data).roots (way ++ [e])
            (p.join e.name.val) .unknown) ∧
      (∀ way p context, Descends t version (ofDataDirectory version data).roots way p context →
        (∀ l ∈ way, l.isLink = true → l.namesZero = false) →
          (way.filter Tree.Entry.isLink).length ≤ 1) ∧
      ((∀ way p context, Descends t version (ofDataDirectory version data).roots way p context →
          ∀ l ∈ way, l.isLink = true → l.namesZero = false) →
        (acts.filterMap Act.opened?).length
          ≤ 3 * (1 + (t.entries.length + 1) * t.entries.length)) := by
  have hroots : (ofDataDirectory version data).roots.length = 3 := rfl
  generalize (ofDataDirectory version data).roots = roots at hroots ⊢
  refine ⟨_, Loop.runs_roots t version roots, fun p => mem_opened_iff,
    fun before e after p context h he => h.namesZero_of_before he,
    fun way p h e he hlink hzero => h.enter_zero he hlink hzero,
    fun way p context h hzero => h.length_links_le hzero, fun hzero => ?_⟩
  have hsum := List.sum_le_card_nsmul
    (roots.map fun r => ((r.course t version).filterMap Act.opened?).length)
    (1 + (t.entries.length + 1) * t.entries.length) fun n hn => by
      obtain ⟨r, hr, rfl⟩ := List.mem_map.mp hn
      exact length_opened_root (fun h => hzero _ _ _ h) hr
  rw [List.length_map, hroots, smul_eq_mul] at hsum
  rwa [List.filterMap_flatMap, List.length_flatMap]

/-- A tablespace that is behind one link is come to over that link, and the walk goes into a bounded
number of directories. -/
theorem descends_over_links_tablespace :
    ∃ acts, Loop.Runs Tracking.linkedTree "v1" ⟨[], (ofDataDirectory "v1" ⟨"d"⟩).roots⟩ acts ∧
      (∃ way context, way ≠ [] ∧ Descends Tracking.linkedTree "v1"
          (ofDataDirectory "v1" ⟨"d"⟩).roots way ⟨"d/pg_tblspc/16500"⟩ context ∧
        (way.filter Tree.Entry.isLink).length ≤ 1) ∧
      (acts.filterMap Act.opened?).length ≤ 3 * (1 + (11 + 1) * 11) := by
  obtain ⟨acts, hruns, -, -, -, hlinks, hbound⟩ :=
    descends_over_links Tracking.linkedTree "v1" ⟨"d"⟩
  have hzero : ∀ way p context, Descends Tracking.linkedTree "v1"
      (ofDataDirectory "v1" ⟨"d"⟩).roots way p context →
        ∀ l ∈ way, l.isLink = true → l.namesZero = false := by
    intro way p context h l hl _
    obtain ⟨place, node, hfind⟩ := h.exists_find? l hl
    have hnames : ∀ entry ∈ Tracking.linkedTree.entries, ∀ name ∈ entry.1.head?,
        (readOid? name.val.toList == some noOid) = false := by decide +kernel
    obtain ⟨before, after, hentries, -⟩ := List.lookup_eq_some_iff.mp hfind
    exact hnames (l.name :: place, node) (by simp [hentries]) l.name rfl
  have hroot : Descends Tracking.linkedTree "v1" (ofDataDirectory "v1" ⟨"d"⟩).roots
      [] ((Path.mk "d").join "pg_tblspc") .unknown :=
    .root (r := ⟨(Path.mk "d").join "pg_tblspc", .unknown⟩) (by simp [ofDataDirectory, ofRoots])
      (by decide +kernel)
  have hresolve : Tracking.linkedTree.resolve ((Path.mk "d").join "pg_tblspc")
      = .ok (.inTree [.ofText "pg_tblspc", .ofText "d"]) := by decide +kernel
  have hlink : Tracking.linkedTree.find? [.ofText "16500", .ofText "pg_tblspc", .ofText "d"]
      = some (.link "../../t") := by decide +kernel
  have hway : Descends Tracking.linkedTree "v1" (ofDataDirectory "v1" ⟨"d"⟩).roots
      [⟨.ofText "16500", .link⟩] ((Path.mk "d").join "pg_tblspc" |>.join "16500") ⟨16500, noOid⟩ :=
    hroot.enter_of_find? hresolve (by decide +kernel) hlink (by decide +kernel) (by decide +kernel)
  have hpath : ((Path.mk "d").join "pg_tblspc" |>.join "16500") = ⟨"d/pg_tblspc/16500"⟩ := by
    decide +kernel
  rw [hpath] at hway
  exact ⟨acts, hruns, ⟨_, _, List.cons_ne_nil _ _, hway, hlinks _ _ _ hway (hzero _ _ _ hway)⟩,
    hbound hzero⟩

/-- A data directory `d` with a link `0` to a directory that has a link `0` as well, which leads to a
database with one relation. -/
def zeroTree : Tree where
  entries :=
    [([.ofText "d"], .directory true),
      ([.ofText "pg_tblspc", .ofText "d"], .directory true),
      ([.ofText "0", .ofText "pg_tblspc", .ofText "d"], .link "../../x"),
      ([.ofText "x"], .directory true),
      ([.ofText "0", .ofText "x"], .link "../y"),
      ([.ofText "y"], .directory true),
      ([.ofText "5", .ofText "y"], .directory true),
      ([.ofText "16384", .ofText "5", .ofText "y"], .file (.zeros 8192))]
  working := .root
  nodup := by decide

/-- Over links that are named by zero a walk comes down by two links. -/
theorem descends_over_two_links :
    ∃ way context, Descends zeroTree "v1" (ofDataDirectory "v1" ⟨"d"⟩).roots way
        ⟨"d/pg_tblspc/0/0"⟩ context ∧
      (way.filter Tree.Entry.isLink).length = 2 := by
  have hroot : Descends zeroTree "v1" (ofDataDirectory "v1" ⟨"d"⟩).roots
      [] ((Path.mk "d").join "pg_tblspc") .unknown :=
    .root (r := ⟨(Path.mk "d").join "pg_tblspc", .unknown⟩) (by simp [ofDataDirectory, ofRoots])
      (by decide +kernel)
  have hresolve : zeroTree.resolve ((Path.mk "d").join "pg_tblspc")
      = .ok (.inTree [.ofText "pg_tblspc", .ofText "d"]) := by decide +kernel
  have hresolve' : zeroTree.resolve ((Path.mk "d").join "pg_tblspc" |>.join "0")
      = .ok (.inTree [.ofText "x"]) := by decide +kernel
  have hlink : zeroTree.find? [.ofText "0", .ofText "pg_tblspc", .ofText "d"]
      = some (.link "../../x") := by decide +kernel
  have hlink' : zeroTree.find? [.ofText "0", .ofText "x"] = some (.link "../y") := by
    decide +kernel
  have hfirst : Descends zeroTree "v1" (ofDataDirectory "v1" ⟨"d"⟩).roots
      [⟨.ofText "0", .link⟩] ((Path.mk "d").join "pg_tblspc" |>.join "0") .unknown :=
    hroot.enter_of_find? hresolve (by decide +kernel) hlink (by decide +kernel) (by decide +kernel)
  have hsecond : Descends zeroTree "v1" (ofDataDirectory "v1" ⟨"d"⟩).roots
      [⟨.ofText "0", .link⟩, ⟨.ofText "0", .link⟩]
      (((Path.mk "d").join "pg_tblspc" |>.join "0").join "0") .unknown :=
    hfirst.enter_of_find? hresolve' (by decide +kernel) hlink' (by decide +kernel)
      (by decide +kernel)
  have hpath : (((Path.mk "d").join "pg_tblspc" |>.join "0").join "0") = ⟨"d/pg_tblspc/0/0"⟩ := by
    decide +kernel
  rw [hpath] at hsecond
  exact ⟨_, _, hsecond, rfl⟩

end Walker

end ChangeTracking
