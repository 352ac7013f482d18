import ChangeTracking.Proofs.Lookup
import ChangeTracking.Walk.Listing
import Mathlib.Data.List.Nodup
import Mathlib.Data.String.Basic

/-!
# Listings

A directory that can be listed is listed in the order of its names, of which it has each at most
once.  So what it has determines the listing (`Tree.eq_of_sorted`), and a walk reads from it just
the entries of the place that the directory's path leads to (`mem_listed_iff`).
-/

namespace ChangeTracking

namespace Tree

variable {t t' : Tree}

/-- The entries of the directory at a place, in no particular order. -/
def entriesAt (t : Tree) (dir : Place) : List Entry :=
  (t.children dir).map fun (name, node) => Entry.mk name node.kind

lemma mem_entriesAt_iff {dir : Place} {e : Entry} :
    e ∈ t.entriesAt dir ↔ ∃ node, t.find? (e.name :: dir) = some node ∧ node.kind = e.kind := by
  constructor
  · intro he
    obtain ⟨⟨name, node⟩, hchild, rfl⟩ := List.mem_map.mp he
    exact ⟨node, find?_of_mem_children hchild, rfl⟩
  · rintro ⟨node, hfind, hkind⟩
    refine List.mem_map.mpr ⟨_, mem_children hfind, ?_⟩
    simp [hkind]

/-- A directory has at most one entry of a name. -/
lemma nodup_children (t : Tree) (dir : Place) : ((t.children dir).map Prod.fst).Nodup := by
  have hsublist : ((t.children dir).map fun child => child.1 :: dir).Sublist
      (t.entries.map Prod.fst) := by
    unfold children
    induction t.entries with
    | nil => exact .slnil
    | cons e rest ih =>
      obtain ⟨place, node⟩ := e
      cases place with
      | nil => exact .cons _ ih
      | cons name parent =>
        by_cases hparent : parent = dir
        · subst hparent
          simpa using ih.cons_cons (name :: parent)
        · simpa [hparent] using ih.cons (name :: parent)
  have hplaces := t.nodup.sublist hsublist
  refine List.Nodup.of_map (fun name : Name => name :: dir) ?_
  rw [List.map_map]
  exact hplaces

lemma nodup_names_entriesAt (t : Tree) (dir : Place) :
    ((t.entriesAt dir).map Entry.name).Nodup := by
  rw [entriesAt, List.map_map]
  exact t.nodup_children dir

/-- The order in which a directory is listed. -/
def listingOrder (a b : Entry) : Bool := decide (a.name.val ≤ b.name.val)

lemma pairwise_sorted (entries : List Entry) :
    (entries.mergeSort listingOrder).Pairwise fun a b => listingOrder a b = true := by
  apply List.pairwise_mergeSort
  · intro a b c hab hbc
    exact decide_eq_true ((of_decide_eq_true hab).trans (of_decide_eq_true hbc))
  · intro a b
    simpa [listingOrder] using le_total a.name.val b.name.val

/-- The order of names leaves entries of different names no choice. -/
lemma eq_of_sorted {a b : List Entry} (hnames : (a.map Entry.name).Nodup)
    (ha : a.Pairwise fun e f => listingOrder e f = true)
    (hb : b.Pairwise fun e f => listingOrder e f = true) (hperm : a.Perm b) : a = b := by
  refine List.Perm.eq_of_pairwise ?_ ha hb hperm
  intro e f he hf hef hfe
  have hname : e.name = f.name :=
    Subtype.ext (le_antisymm (of_decide_eq_true hef) (of_decide_eq_true hfe))
  exact List.inj_on_of_nodup_map hnames he (hperm.mem_iff.mpr hf) hname

/-- Directories that have the same entries among those of a kind list them in the same way. -/
lemma filter_sorted_eq {dir dir' : Place} {p : Entry → Bool}
    (hmem : ∀ e, p e = true → (e ∈ t'.entriesAt dir' ↔ e ∈ t.entriesAt dir)) :
    ((t'.entriesAt dir').mergeSort listingOrder).filter p
      = ((t.entriesAt dir).mergeSort listingOrder).filter p := by
  have hnodup : ∀ (t : Tree) (dir : Place), (t.entriesAt dir).Nodup :=
    fun t dir => (t.nodup_names_entriesAt dir).of_map _
  have hsorted : ∀ (t : Tree) (dir : Place),
      (((t.entriesAt dir).mergeSort listingOrder).filter p).Perm ((t.entriesAt dir).filter p) :=
    fun t dir => (List.mergeSort_perm _ _).filter p
  have hperm : ((t'.entriesAt dir').filter p).Perm ((t.entriesAt dir).filter p) := by
    refine (List.perm_ext_iff_of_nodup ((hnodup t' dir').filter p) ((hnodup t dir).filter p)).mpr ?_
    intro e
    rw [List.mem_filter, List.mem_filter]
    exact and_congr_left fun he => hmem e he
  refine eq_of_sorted ?_ ((pairwise_sorted _).filter p) ((pairwise_sorted _).filter p)
    ((hsorted t' dir').trans (hperm.trans (hsorted t dir).symm))
  refine List.Nodup.sublist (List.filter_sublist.map _) ?_
  exact ((List.mergeSort_perm _ _).map _).nodup_iff.mpr (t'.nodup_names_entriesAt dir')

/-- Directories that have the same entries list them in the same way. -/
lemma sorted_eq {dir : Place} (hmem : ∀ e, e ∈ t'.entriesAt dir ↔ e ∈ t.entriesAt dir) :
    (t'.entriesAt dir).mergeSort listingOrder = (t.entriesAt dir).mergeSort listingOrder := by
  have hfilter := filter_sorted_eq (p := fun _ => true) fun e _ => hmem e
  rwa [List.filter_true, List.filter_true] at hfilter

/-! ## Directories that can be listed -/

lemma isListable_iff {p : Path} :
    t.isListable p = true ↔
      ∃ there, t.resolve p = .ok there ∧ t.findAt? there = some (.directory true) := by
  unfold isListable listDirectory
  cases hresolve : t.resolve p with
  | error e => simp [bind, Except.bind, Except.isOk, Except.toBool]
  | ok there =>
    simp only [bind, Except.bind, Except.ok.injEq, exists_eq_left']
    split
    · next hfind => simp [hfind, pure, Except.pure, Except.isOk, Except.toBool]
    · next hfind => simp [hfind, Except.isOk, Except.toBool]
    · next hreadable hrefuses =>
      simp only [Except.isOk, Except.toBool, Bool.false_eq_true, false_iff]
      exact hreadable

lemma isDirectory_of_find? {place : Place} {readable : Bool}
    (h : t.find? place = some (.directory readable)) : t.isDirectory place = true := by
  rw [isDirectory, h]

end Tree

namespace Walk

open ChangeTracking.Tree

variable {t : Tree} {dir : Path}

lemma listed_of_resolve {place : Place} (hresolve : t.resolve dir = .ok (.inTree place))
    (hfind : t.find? place = some (.directory true)) :
    listed t dir = (t.entriesAt place).mergeSort listingOrder := by
  simp only [listed, listDirectory, hresolve, findAt?, hfind, bind, Except.bind, pure, Except.pure]
  rfl

/-- A walk reads the entries of the place that a directory's path leads to, if it can be listed. -/
theorem mem_listed_iff {e : Entry} :
    e ∈ listed t dir ↔ ∃ place node, t.resolve dir = .ok (.inTree place) ∧
      t.find? place = some (.directory true) ∧ t.find? (e.name :: place) = some node ∧
      node.kind = e.kind := by
  constructor
  · intro he
    have hlist : t.isListable dir = true := by
      unfold listed at he
      unfold isListable
      cases hlist : t.listDirectory dir with
      | error e => simp [hlist] at he
      | ok entries => rfl
    obtain ⟨there, hresolve, hthere⟩ := isListable_iff.mp hlist
    cases there with
    | inTree place =>
      rw [listed_of_resolve hresolve hthere, List.mem_mergeSort, mem_entriesAt_iff] at he
      obtain ⟨node, hfind, hkind⟩ := he
      exact ⟨place, node, hresolve, hthere, hfind, hkind⟩
    | removed around =>
      simp [listed, listDirectory, hresolve, findAt?, childrenAt, bind, Except.bind, pure,
        Except.pure] at he
  · rintro ⟨place, node, hresolve, hthere, hfind, hkind⟩
    rw [listed_of_resolve hresolve hthere, List.mem_mergeSort, mem_entriesAt_iff]
    exact ⟨node, hfind, hkind⟩

/-- A directory that was removed has no entries. -/
lemma listed_of_removed {around : Place} (h : t.resolve dir = .ok (.removed around)) :
    listed t dir = [] := by
  refine List.eq_nil_iff_forall_not_mem.mpr fun e he => ?_
  obtain ⟨place, -, hplace, -⟩ := mem_listed_iff.mp he
  cases h.symm.trans hplace

lemma isListable_of_mem_listed {e : Entry} (h : e ∈ listed t dir) : t.isListable dir = true := by
  obtain ⟨place, -, hresolve, hfind, -⟩ := mem_listed_iff.mp h
  exact isListable_iff.mpr ⟨.inTree place, hresolve, hfind⟩

lemma listed_eq_nil_of_not_isListable (h : t.isListable dir = false) : listed t dir = [] :=
  List.eq_nil_iff_forall_not_mem.mpr fun _ he =>
    Bool.noConfusion (h.symm.trans (isListable_of_mem_listed he))

/-- What holds of all entries of a place holds of all that a walk reads there. -/
lemma forall_listed {P : Entry → Prop} {place : Place}
    (hresolve : t.resolve dir = .ok (.inTree place))
    (h : ∀ child ∈ t.children place, P ⟨child.1, child.2.kind⟩) : ∀ e ∈ listed t dir, P e := by
  intro e he
  obtain ⟨place', node, hresolve', -, hfind, hkind⟩ := mem_listed_iff.mp he
  obtain rfl := place_unique hresolve hresolve'
  have hchild := h _ (mem_children hfind)
  rw [hkind] at hchild
  exact hchild

lemma forall_listed_of_not_isListable {P : Entry → Prop} (h : t.isListable dir = false) :
    ∀ e ∈ listed t dir, P e := by
  intro e he
  cases h.symm.trans (isListable_of_mem_listed he)

/-- A walk reads each name at most once. -/
lemma nodup_names_listed (t : Tree) (dir : Path) : ((listed t dir).map Entry.name).Nodup := by
  cases hlisted : listed t dir with
  | nil => simp
  | cons e rest =>
    have he : e ∈ listed t dir := by
      rw [hlisted]
      exact List.mem_cons_self
    obtain ⟨place, -, hresolve, hfind, -⟩ := mem_listed_iff.mp he
    rw [← hlisted, listed_of_resolve hresolve hfind]
    exact ((List.mergeSort_perm _ _).map _).nodup_iff.mpr (t.nodup_names_entriesAt place)

end Walk

end ChangeTracking
