import ChangeTracking.Proofs.BulkMarks
import ChangeTracking.Proofs.Components
import ChangeTracking.Proofs.MeantDirectories
import ChangeTracking.Proofs.Reports
import ChangeTracking.Proofs.WalkLoop

/-!
# Spellings of a copied directory

A directory below the data directory can be named by its path from there on, and by a path in full,
from which the components of the data directory are taken away.  What is left then is the path below,
from its first component to its last one, but maybe not as it would have been written: there may be
slashes and dots around that.

So it comes down to what the spelling of a path has to do with the files that a walk finds.  Their
paths begin with that of the directory, but no mark depends on these (`Segment.unplaced`).  And a
file of which the path is too long is not found: of two spellings the longer one finds the same
files, but for those that have no room for it (`Walk.listing_of_components`).  That a copy is tracked
alike by both spellings follows (`Tracking.copied_absolute`), where the data directory is given in
full.  Whether a directory is exempt is asked of the path as it is written, so both spellings have to
be exempt or none.
-/

namespace ChangeTracking

open Walk

/-- A segment file, but for where it was found. -/
def Segment.unplaced (f : Segment) : Segment := { f with path := ⟨""⟩ }

namespace Walk

open ChangeTracking.Tree

variable {t : Tree} {version : String} {p q : Path} {context : Context} {room extra : Nat}
  {f : Segment}

lemma listed_of_components (hsame : p.components = q.components) (hp : checkPath p = .ok ())
    (hq : checkPath q = .ok ()) : listed t p = listed t q := by
  by_cases hlist : t.isListable p = true
  · rw [listed, listed, listDirectory_of_components hsame hq hlist]
  · by_cases hlist' : t.isListable q = true
    · rw [listed, listed, listDirectory_of_components hsame.symm hp hlist']
    · rw [listed_eq_nil_of_not_isListable (Bool.eq_false_of_not_eq_true hlist),
        listed_eq_nil_of_not_isListable (Bool.eq_false_of_not_eq_true hlist')]

/-- The path of a file that is found is longer than that of the directory, and not too long. -/
lemma size_of_mem_listing (hp : p.text ≠ "") (hf : f ∈ listing t version room p context) :
    p.lead.utf8ByteSize < f.path.text.utf8ByteSize ∧ f.path.text.utf8ByteSize < pathLimit := by
  induction room generalizing p context with
  | zero => exact absurd hf List.not_mem_nil
  | succ room ih =>
    obtain ⟨e, he, hfile | ⟨inner, -, hinside⟩⟩ := mem_listing_succ.mp hf
    · obtain ⟨-, -, -, _, _, -, hentry, -⟩ := lookAt_eq_file.mp hfile
      have hpos := e.name.property.size_pos
      have hsize := size_lt_of_entryAt? hentry
      rw [path_of_lookAt hfile]
      refine ⟨?_, hsize⟩
      rw [Path.text_join_of_valid e.name.property hp, String.utf8ByteSize_append]
      omega
    · have hpos := e.name.property.size_pos
      have hinner := ih (Path.text_join_ne hp e.name.property.isAbsolute) hinside
      rw [Path.lead_join_of_valid e.name.property hp, String.utf8ByteSize_append,
        String.utf8ByteSize_append] at hinner
      omega

/-- The files of which the path may be longer by so many bytes. -/
def withRoom (extra : Nat) (files : List Segment) : List Segment :=
  files.filter fun f => f.path.text.utf8ByteSize + extra < pathLimit

lemma lookAt_eq_skip {e : Entry} (hfile : ∀ f, lookAt t version p context e ≠ .file f)
    (henter : ∀ inner, lookAt t version p context e ≠ .enter inner) :
    lookAt t version p context e = .skip := by
  cases hlook : lookAt t version p context e with
  | skip => rfl
  | file f => exact absurd hlook (hfile f)
  | enter inner => exact absurd hlook (henter inner)

section Components

variable (hsame : p.components = q.components) (hp : p.text ≠ "") (hq : q.text ≠ "")
  (hlead : p.lead.utf8ByteSize = q.lead.utf8ByteSize + extra)

include hsame hp hq hlead

/-- The longer one of two spellings finds those files of which the path is not too long then. -/
lemma lookAt_of_components {e : Entry} (he : e ∈ listed t q) (hcheck : checkPath p = .ok ()) :
    lookAt t version p context e = .file f ↔
      ∃ g, lookAt t version q context e = .file g ∧ g.path.text.utf8ByteSize + extra < pathLimit ∧
        f = { g with path := p.join e.name.val } := by
  have hname := e.name.property
  obtain ⟨place, -, hresolve, hfind, -⟩ := mem_listed_iff.mp he
  have hdir := isDirectory_of_find? hfind
  have hresolve' := resolve_of_components hsame.symm hcheck hresolve hdir
  have hjoin : (p.join e.name.val).components = (q.join e.name.val).components := by
    rw [hname.components_join hp, hname.components_join hq, hsame]
  have hsize : (p.join e.name.val).text.utf8ByteSize
      = (q.join e.name.val).text.utf8ByteSize + extra := by
    rw [Path.text_join_of_valid hname hp, Path.text_join_of_valid hname hq,
      String.utf8ByteSize_append, String.utf8ByteSize_append]
    omega
  have hentry : ∀ node, t.entryAt? (p.join e.name.val) = .ok node ↔
      t.entryAt? (q.join e.name.val) = .ok node ∧
        (q.join e.name.val).text.utf8ByteSize + extra < pathLimit := by
    intro node
    rw [entryAt?_join_iff hp hname hresolve' hdir, entryAt?_join_iff hq hname hresolve hdir,
      checkPath_iff_of_components hjoin (Path.text_join_ne hp hname.isAbsolute)
        (Path.text_join_ne hq hname.isAbsolute) hsize]
    tauto
  rw [lookAt_eq_file]
  constructor
  · rintro ⟨htemporary, hkind, hsegments, n, node, hread, hnode, rfl⟩
    obtain ⟨hnode, hroom⟩ := (hentry node).mp hnode
    exact ⟨_, lookAt_eq_file.mpr ⟨htemporary, hkind, hsegments, n, node, hread, hnode, rfl⟩, hroom,
      rfl⟩
  · rintro ⟨g, hlook, hroom, rfl⟩
    obtain ⟨htemporary, hkind, hsegments, n, node, hread, hnode, rfl⟩ := lookAt_eq_file.mp hlook
    exact ⟨htemporary, hkind, hsegments, n, node, hread, (hentry node).mpr ⟨hnode, hroom⟩, rfl⟩

lemma segmentsOf_of_components {inside : Path → Context → List Segment} {e : Entry}
    (he : e ∈ listed t q) (hcheck : checkPath p = .ok ())
    (hinside : ∀ inner, (inside (p.join e.name.val) inner).map Segment.unplaced
      = (withRoom extra (inside (q.join e.name.val) inner)).map Segment.unplaced) :
    (segmentsOf t version inside p context e).map Segment.unplaced
      = (withRoom extra (segmentsOf t version inside q context e)).map Segment.unplaced := by
  have hfile (f : Segment) : lookAt t version p context e = .file f ↔
      ∃ g, lookAt t version q context e = .file g ∧ g.path.text.utf8ByteSize + extra < pathLimit ∧
        f = { g with path := p.join e.name.val } :=
    lookAt_of_components hsame hp hq hlead he hcheck
  have henter (inner : Context) : lookAt t version p context e = .enter inner ↔
      lookAt t version q context e = .enter inner := by
    rw [lookAt_eq_enter, lookAt_eq_enter]
  have hskip (hnofile : ∀ g, lookAt t version q context e = .file g →
        ¬ g.path.text.utf8ByteSize + extra < pathLimit)
      (hnoenter : ∀ inner, lookAt t version q context e ≠ .enter inner) :
      lookAt t version p context e = .skip := by
    apply lookAt_eq_skip
    · intro f hf
      obtain ⟨g, hg, hroom, -⟩ := (hfile f).mp hf
      exact hnofile g hg hroom
    · intro inner hinner
      exact hnoenter inner ((henter inner).mp hinner)
  unfold segmentsOf
  cases hlook : lookAt t version q context e with
  | enter inner =>
    rw [(henter inner).mpr hlook]
    exact hinside inner
  | skip =>
    rw [hskip (by simp [hlook]) (by simp [hlook])]
    rfl
  | file g =>
    by_cases hroom : g.path.text.utf8ByteSize + extra < pathLimit
    · rw [(hfile _).mpr ⟨g, hlook, hroom, rfl⟩]
      simp [withRoom, hroom, Segment.unplaced]
    · rw [hskip (by simpa [hlook] using hroom) (by simp [hlook])]
      simp [withRoom, hroom]

end Components

lemma listing_eq_nil_of_checkPath (hp : checkPath p ≠ .ok ()) (room : Nat) :
    listing t version room p context = [] :=
  listing_eq_nil (Bool.eq_false_of_not_eq_true fun hlist => hp (checkPath_of_isListable hlist)) room

/-- The longer one of two spellings of a directory finds the same files there, but for those of which
the path is too long then. -/
theorem listing_of_components (hsame : p.components = q.components) (hp : p.text ≠ "")
    (hq : q.text ≠ "") (hlead : p.lead.utf8ByteSize = q.lead.utf8ByteSize + extra) :
    (listing t version room p context).map Segment.unplaced
      = (withRoom extra (listing t version room q context)).map Segment.unplaced := by
  induction room generalizing p q context with
  | zero => rfl
  | succ room ih =>
    by_cases hfar : pathLimit ≤ p.lead.utf8ByteSize
    · -- Nothing can be found under the longer path, nor be left of what is found under the other.
      have hnone : listing t version (room + 1) p context = [] := by
        refine List.eq_nil_iff_forall_not_mem.mpr fun f hf => ?_
        have hsize := size_of_mem_listing hp hf
        omega
      have hnone' : withRoom extra (listing t version (room + 1) q context) = [] := by
        refine List.filter_eq_nil_iff.mpr fun f hf => ?_
        have hsize := size_of_mem_listing hq hf
        rw [decide_eq_true_eq]
        omega
      rw [hnone, hnone']
    · have hnear := Path.size_le_lead p
      have hnear' := Path.size_le_lead q
      have hcheck : checkPath p = .ok () ↔ checkPath q = .ok () := by
        have hpsize : p.text.utf8ByteSize < pathLimit := by omega
        have hqsize : q.text.utf8ByteSize < pathLimit := by omega
        rw [checkPath_eq_ok, checkPath_eq_ok,
          Path.mem_text_of_components hsame (by decide) (by decide)]
        tauto
      by_cases hpcheck : checkPath p = .ok ()
      · have hqcheck := hcheck.mp hpcheck
        rw [listing, listing, listed_of_components hsame hpcheck hqcheck, withRoom,
          List.filter_flatMap, List.map_flatMap, List.map_flatMap]
        refine List.flatMap_congr fun e he => ?_
        refine segmentsOf_of_components hsame hp hq hlead he hpcheck fun inner => ?_
        have hname := e.name.property
        refine ih ?_ (Path.text_join_ne hp hname.isAbsolute) (Path.text_join_ne hq hname.isAbsolute)
          ?_
        · rw [hname.components_join hp, hname.components_join hq, hsame]
        · rw [Path.lead_join_of_valid hname hp, Path.lead_join_of_valid hname hq]
          simp only [String.utf8ByteSize_append]
          omega
      · have hqcheck : checkPath q ≠ .ok () := fun hq => hpcheck (hcheck.mpr hq)
        rw [listing_eq_nil_of_checkPath hpcheck, listing_eq_nil_of_checkPath hqcheck]
        rfl

/-- The paths of all files that are found from a root may be longer by so many bytes. -/
def Root.HasRoom (t : Tree) (version : String) (root : Root) (extra : Nat) : Prop :=
  ∀ f ∈ root.listing t version, f.path.text.utf8ByteSize + extra < pathLimit

lemma Root.hasRoom_zero {root : Root} (hroot : root.path.text ≠ "") :
    root.HasRoom t version 0 := by
  intro f hf
  rw [listing_of_root] at hf
  exact (size_of_mem_listing hroot hf).2

/-- If there is room for it, the longer one of two spellings of a root finds the same files. -/
lemma listing_root_of_components (hsame : p.components = q.components) (hp : p.text ≠ "")
    (hq : q.text ≠ "") (hlead : p.lead.utf8ByteSize = q.lead.utf8ByteSize + extra)
    (hroom : (Root.mk q context).HasRoom t version extra) :
    ((Root.mk p context).listing t version).map Segment.unplaced
      = ((Root.mk q context).listing t version).map Segment.unplaced := by
  have hall : withRoom extra ((Root.mk q context).listing t version)
      = (Root.mk q context).listing t version :=
    List.filter_eq_self.mpr fun f hf => decide_eq_true (hroom f hf)
  rw [← hall, listing_of_root, listing_of_root,
    ← listing_roomFor (le_max_left (roomFor p) (roomFor q)),
    ← listing_roomFor (le_max_right (roomFor p) (roomFor q))]
  exact listing_of_components hsame hp hq hlead

end Walk

/-! ## Marks do not depend on where files were found -/

lemma ChangeMap.segmentMarks_unplaced (l : Lsn) (files : List Segment) :
    segmentMarks l (files.map Segment.unplaced) = segmentMarks l files := by
  rw [segmentMarks, List.flatMap_map]
  rfl

lemma BulkStats.ofSegments_unplaced (files : List Segment) :
    ofSegments (files.map Segment.unplaced) = ofSegments files := by
  rw [ofSegments, List.length_map, List.map_map]
  rfl

namespace Tracking

variable {s : Tracking} {root root' : Root}

lemma markPass_congr (live : MapId)
    (h : (root.listing s.host.tree s.tracker.config.versionDirectory).map Segment.unplaced
      = (root'.listing s.host.tree s.tracker.config.versionDirectory).map Segment.unplaced) :
    s.markPass live root [] = s.markPass live root' [] := by
  rw [markPass_eq, markPass_eq, List.foldl_nil, passMarks, passMarks,
    ← BulkStats.ofSegments_unplaced, h, BulkStats.ofSegments_unplaced,
    ← ChangeMap.segmentMarks_unplaced, h, ChangeMap.segmentMarks_unplaced]

lemma markDirectory_congr
    (hexempt : s.tracker.isExempt root.path = s.tracker.isExempt root'.path)
    (h : (root.listing s.host.tree s.tracker.config.versionDirectory).map Segment.unplaced
      = (root'.listing s.host.tree s.tracker.config.versionDirectory).map Segment.unplaced) :
    s.markDirectory root [] = s.markDirectory root' [] := by
  have hpass : ∀ live, s.markPass live root [] = s.markPass live root' [] :=
    fun live => markPass_congr live h
  simp only [markDirectory, markPasses, hexempt, hpass]

/-- What a copy means does not depend on the spelling of its path below the data directory, if it is
exempt by both spellings or by none and there is room for the longer one. -/
lemma copied_of_moves {p q : Path} {extra : Nat} (hdata : s.tracker.config.dataDirectory.text ≠ "")
    (hp : p.isAbsolute = false) (hq : q.isAbsolute = false) (hmoves : p.moves = q.moves)
    (hlead : p.lead.utf8ByteSize = q.lead.utf8ByteSize + extra)
    (hexempt : s.tracker.isExempt (s.tracker.config.dataDirectory.join p.text)
      = s.tracker.isExempt (s.tracker.config.dataDirectory.join q.text))
    (hroom : ∀ id, Layout.databaseAt? p s.tracker.config.versionDirectory = some id →
      (Root.mk (s.tracker.config.dataDirectory.join q.text) ⟨id.1, id.2⟩).HasRoom s.host.tree
        s.tracker.config.versionDirectory extra) :
    s.copied p = s.copied q := by
  have hnames : p.names = q.names := by rw [Path.names_eq_moves, Path.names_eq_moves, hmoves]
  have hid : Layout.databaseAt? p s.tracker.config.versionDirectory
      = Layout.databaseAt? q s.tracker.config.versionDirectory := by
    rw [Layout.databaseAt?, Layout.databaseAt?, hnames]
  have hsame : (s.tracker.config.dataDirectory.join p.text).components
      = (s.tracker.config.dataDirectory.join q.text).components := by
    rw [Path.components_join hdata hp, Path.components_join hdata hq]
    exact congrArg _ hmoves
  rw [copied_of_relative hp, copied_of_relative hq, ← hid]
  cases hclass : Layout.databaseAt? p s.tracker.config.versionDirectory with
  | none => rfl
  | some id =>
    have hpne : p.text ≠ "" := Layout.text_ne_of_databaseAt? hclass
    have hqne : q.text ≠ "" := Layout.text_ne_of_databaseAt? (hid.symm.trans hclass)
    have hplead : (s.tracker.config.dataDirectory.join p.text).lead
        = s.tracker.config.dataDirectory.lead ++ p.lead := Path.lead_join hdata hp hpne
    have hqlead : (s.tracker.config.dataDirectory.join q.text).lead
        = s.tracker.config.dataDirectory.lead ++ q.lead := Path.lead_join hdata hq hqne
    have hsize : (s.tracker.config.dataDirectory.join p.text).lead.utf8ByteSize
        = (s.tracker.config.dataDirectory.join q.text).lead.utf8ByteSize + extra := by
      rw [hplead, hqlead, String.utf8ByteSize_append, String.utf8ByteSize_append, hlead,
        Nat.add_assoc]
    have hfiles := listing_root_of_components hsame (Path.text_join_ne hdata hp)
      (Path.text_join_ne hdata hq) hsize (hroom id hclass)
    have hmark : s.markDirectory ⟨s.tracker.config.dataDirectory.join p.text, ⟨id.1, id.2⟩⟩ []
        = s.markDirectory ⟨s.tracker.config.dataDirectory.join q.text, ⟨id.1, id.2⟩⟩ [] :=
      markDirectory_congr hexempt hfiles
    exact congrArg Prod.snd hmark

/-- The path in full of what is below the data directory. -/
def inFull (s : Tracking) (working rel : Path) : Path :=
  (working.join s.tracker.config.dataDirectory.text).join rel.text

lemma copied_of_copiedPath? {p q : Path} (h : s.copiedPath? p = s.copiedPath? q) :
    s.copied p = s.copied q := by
  simp only [copied, h]

/-- **Copied directories are tracked alike by both spellings, if the data directory is given in
full.**  Then a copy to a path in full is tracked as one to the path below the data directory,
without the slashes and dots around that.  So it is as one to the path with these, if the directory
is exempt by both spellings or by none, and if the paths of the files found there may be that much
longer; they may be if no more is around the path than a slash at its end (`Root.hasRoom_zero`).

But if the data directory is given from the working directory on, no path in full is taken for one
below it, and a copy there goes unnoticed. -/
theorem copied_absolute (hcheck : s.tracker.config.check = .ok ()) {working rel : Path}
    (hworking : working.isAbsolute = true) (hrel : rel.isAbsolute = false) :
    (s.tracker.config.dataDirectory.isAbsolute = true →
      s.copied (s.inFull working rel) = s.copied rel.trimmed ∧
      (s.tracker.isExempt (s.tracker.config.dataDirectory.join rel.text)
          = s.tracker.isExempt (s.tracker.config.dataDirectory.join rel.trimmed.text) →
        (∀ id, Layout.databaseAt? rel s.tracker.config.versionDirectory = some id →
          (Root.mk (s.tracker.config.dataDirectory.join rel.trimmed.text) ⟨id.1, id.2⟩).HasRoom
            s.host.tree s.tracker.config.versionDirectory
            (rel.lead.utf8ByteSize - rel.trimmed.lead.utf8ByteSize)) →
        s.copied (s.inFull working rel) = s.copied rel)) ∧
    (s.tracker.config.dataDirectory.isAbsolute = false →
      s.copied (s.inFull working rel) = s) := by
  have hdata := dataDirectory_ne_of_check hcheck
  constructor
  · intro habsolute
    have hfull : s.inFull working rel = s.tracker.config.dataDirectory.join rel.text := by
      have hbase : working.join s.tracker.config.dataDirectory.text
          = s.tracker.config.dataDirectory := by
        rw [Path.join, if_pos habsolute]
      rw [inFull, hbase]
    have htrimmed : s.copied (s.inFull working rel) = s.copied rel.trimmed := by
      apply copied_of_copiedPath?
      rw [hfull, copiedPath?, copiedPath?, Path.isAbsolute_join hdata hrel, if_pos habsolute,
        Path.relativeTo?_join hdata hrel, Path.isAbsolute_trimmed, if_neg Bool.false_ne_true]
    refine ⟨htrimmed, fun hexempt hroom => ?_⟩
    have hlead := rel.size_lead_trimmed
    have hsame : s.copied rel = s.copied rel.trimmed :=
      copied_of_moves hdata hrel rel.isAbsolute_trimmed rel.moves_trimmed.symm (by omega) hexempt
        hroom
    rw [htrimmed, hsame]
  · intro hrelative
    have hwork : working.text ≠ "" := by
      intro hempty
      rw [Path.isAbsolute, hempty] at hworking
      cases hworking
    have hfull : (s.inFull working rel).isAbsolute = true := by
      rw [inFull, Path.isAbsolute_join (Path.text_join_ne hwork hrelative) hrel,
        Path.isAbsolute_join hwork hrelative, hworking]
    have hnone : s.copiedPath? (s.inFull working rel) = none := by
      rw [copiedPath?, if_pos hfull, Path.relativeTo?_of_relative hfull hrelative hdata]
    simp only [copied, hnone]

/-- A copy to a directory with a slash after its name is tracked by both spellings, where the data
directory has one, too. -/
theorem copied_absolute_slash :
    ∃ s, start ⟨⟨"/data/"⟩, 8, "v1", some ⟨"x/m"⟩⟩ exemptNone ⟨databaseTree, ⟨50⟩, #[]⟩ = .ok s ∧
      s.live? = some 0 ∧ Layout.databaseAt? ⟨"base/5/"⟩ "v1" = some (defaultTablespace, 5) ∧
      s.copied ⟨"/data/base/5/"⟩ = s.copied ⟨"base/5/"⟩ := by
  obtain ⟨s, hstart, hlive, hconfig, hexempt⟩ :
      ∃ s, start ⟨⟨"/data/"⟩, 8, "v1", some ⟨"x/m"⟩⟩ exemptNone ⟨databaseTree, ⟨50⟩, #[]⟩ = .ok s ∧
        s.live? = some 0 ∧ s.tracker.config = ⟨⟨"/data/"⟩, 8, "v1", some ⟨"x/m"⟩⟩ ∧
        s.tracker.isExempt = exemptNone :=
    ⟨_, rfl, rfl, rfl, rfl⟩
  refine ⟨s, hstart, hlive, by decide, ?_⟩
  have hcheck : s.tracker.config.check = .ok () := by
    rw [hconfig]
    decide
  have hworking : (Path.mk "/").isAbsolute = true := rfl
  have hrel : (Path.mk "base/5/").isAbsolute = false := rfl
  have hextra : (Path.mk "base/5/").lead.utf8ByteSize
      - (Path.mk "base/5/").trimmed.lead.utf8ByteSize = 0 := by decide +kernel
  have hfull : s.inFull ⟨"/"⟩ ⟨"base/5/"⟩ = ⟨"/data/base/5/"⟩ := by
    rw [inFull, hconfig]
    decide
  have hboth := (copied_absolute hcheck hworking hrel).1
  rw [hfull, hconfig, hextra] at hboth
  have hbelow : (Path.mk "base/5/").trimmed.isAbsolute = false :=
    Path.isAbsolute_trimmed ⟨"base/5/"⟩
  exact (hboth rfl).2 (by rw [hexempt]; rfl) fun id _ =>
    Root.hasRoom_zero (Path.text_join_ne (by decide) hbelow)

/-- Where the data directory is given from the working directory on, only the spelling from there is
tracked. -/
theorem copied_absolute_unnoticed :
    ∃ s, start ⟨⟨"data"⟩, 8, "v1", some ⟨"x/m"⟩⟩ exemptNone ⟨databaseTree, ⟨50⟩, #[]⟩ = .ok s ∧
      s.host.tree.workingPath? = some ⟨"/"⟩ ∧
      s.inFull ⟨"/"⟩ ⟨"base/5"⟩ = ⟨"/data/base/5"⟩ ∧
      s.copied ⟨"/data/base/5"⟩ = s ∧ s.copied ⟨"base/5"⟩ ≠ s := by
  obtain ⟨s, hstart, hworking, hfull, hsame, hlive, hvalid, hexempt, htree, hversion, hbelow,
      hposition, hslots⟩ :
      ∃ s, start ⟨⟨"data"⟩, 8, "v1", some ⟨"x/m"⟩⟩ exemptNone ⟨databaseTree, ⟨50⟩, #[]⟩ = .ok s ∧
        s.host.tree.workingPath? = some ⟨"/"⟩ ∧
        s.inFull ⟨"/"⟩ ⟨"base/5"⟩ = ⟨"/data/base/5"⟩ ∧ s.copied ⟨"/data/base/5"⟩ = s ∧
        s.live? = some 0 ∧ (s.host.map 0).valid = true ∧
        s.tracker.isExempt databaseRoot.path = false ∧ s.host.tree = databaseTree ∧
        s.tracker.config.versionDirectory = "v1" ∧
        s.copied ⟨"base/5"⟩ = (s.markDirectory databaseRoot []).2 ∧
        s.host.position.latest (s.host.map 0).epoch = ⟨50⟩ ∧ (s.host.map 0).slots = #[Lsn.never] :=
    ⟨_, rfl, rfl, rfl, rfl, rfl, rfl, rfl, rfl, rfl, rfl, rfl, rfl⟩
  refine ⟨s, hstart, hworking, hfull, hsame, fun hboth => ?_⟩
  set f := segmentOf "v1" ⟨"data/base/5"⟩ ⟨defaultTablespace, 5⟩ ⟨16384, .main, 0⟩ blockSize with hf
  have hcoherent := coherent_of_started (started_of_start hstart).2
  have hmarks : (f.block 0, ⟨50⟩) ∈ s.passMarks 0 databaseRoot := by
    rw [passMarks, hposition, htree, hversion, listing_databaseTree, ← hf]
    exact ChangeMap.mem_segmentMarks.mpr
      ⟨rfl, f, List.mem_singleton_self f, 0, by decide +kernel, rfl⟩
  have hread : (⟨50⟩ : Lsn) ≤ ((s.copied ⟨"base/5"⟩).host.map 0).read (f.block 0) := by
    rw [hbelow, markDirectory_eq hlive hvalid (by simp) hexempt, markPass_eq, List.foldl_nil,
      host_withHost, Host.map_updateMap_self (hcoherent 0 hlive)]
    exact ChangeMap.le_read_markAll hmarks
  have hnever : (s.host.map 0).read (f.block 0) = Lsn.never := by
    rw [ChangeMap.read_eq_slot, ChangeMap.slot, hslots]
    cases h : (s.host.map 0).slotOf (f.block 0) <;> rfl
  rw [hboth, hnever] at hread
  exact absurd hread (by decide)

end Tracking

end ChangeTracking
