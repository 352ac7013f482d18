import ChangeTracking.Proofs.Listings
import ChangeTracking.Proofs.Paths
import Mathlib.Tactic.Common

/-!
# Paths of the same components

The components of a path are what is left of it without the slashes and dots that do not count.  So
paths of the same components start in the same place, have the same names (`Path.names_eq_moves`) and
lead to the same directory (`Tree.resolve_of_components`).  Their steps differ in that the one stays
where the other goes on.  Only in a directory can a path stay; but it can go on from there only, too,
so on the way to a directory this makes no difference (`Tree.walkToDirectory_filter`).

They may be of different length, however, and what is too long is no path
(`Tree.checkPath_iff_of_components`).  Without what is around its first and its last component a path
is never longer (`Path.size_lead_trimmed`).
-/

namespace ChangeTracking

/-- Whether the step leads anywhere. -/
def Step.leads : Step → Bool
  | .stay => false
  | .up | .down _ => true

/-- The step that a component asks for. -/
def Step.ofComponent? : Path.Component → Option Step
  | .root | .here => none
  | .up => some .up
  | .name s => if h : ValidName s then some (.down ⟨s, h⟩) else none

namespace Text

/-- A character that is not the separator is in one of the pieces. -/
lemma mem_iff_pieces {sep c : Char} (hc : c ≠ sep) {text : List Char} :
    c ∈ text ↔ ∃ piece ∈ pieces sep text, c ∈ piece := by
  induction text with
  | nil => simp [pieces]
  | cons d rest ih =>
    rw [pieces, List.mem_cons, ih]
    split
    · next hd =>
      subst hd
      simp [hc]
    · split
      · next hnil => exact absurd hnil (pieces_ne_nil sep rest)
      · next piece others heq => simp [heq, or_assoc]

end Text

namespace Path

variable {p q : Path}

/-! ## What paths of the same components have in common -/

/-- The components of a path but for the one in front that says where it starts. -/
def moves (p : Path) : List Component := p.segments.filterMap Component.ofSegment?

lemma components_eq (p : Path) :
    p.components = if p.isAbsolute then .root :: p.moves
      else if p.segments.head? = some "." then .here :: p.moves else p.moves := rfl

lemma start_of_mem_moves {c : Component} (h : c ∈ p.moves) : c ≠ .root ∧ c ≠ .here := by
  obtain ⟨segment, -, hsegment⟩ := List.mem_filterMap.mp h
  unfold Component.ofSegment? at hsegment
  split at hsegment
  · cases hsegment
  · split at hsegment
    · cases hsegment
      exact ⟨nofun, nofun⟩
    · cases hsegment
      exact ⟨nofun, nofun⟩

lemma isAbsolute_iff : p.isAbsolute = true ↔ .root ∈ p.components := by
  rw [components_eq]
  split
  · next habsolute => simp [habsolute]
  · next hrelative =>
    have hroot : Component.root ∉ p.moves := fun h => (start_of_mem_moves h).1 rfl
    split <;> simp [hrelative, hroot]

/-- The moves are all components but those that say where the path starts. -/
lemma moves_eq (p : Path) : p.moves = p.components.filter fun c => c ≠ .root ∧ c ≠ .here := by
  have hmoves : (p.moves.filter fun c => c ≠ .root ∧ c ≠ .here) = p.moves :=
    List.filter_eq_self.mpr fun c hc => decide_eq_true (start_of_mem_moves hc)
  rw [components_eq]
  split
  · simpa using hmoves.symm
  · split
    · simpa using hmoves.symm
    · exact hmoves.symm

lemma names_eq_moves (p : Path) :
    p.names = p.moves.filterMap fun
      | .name s => some s
      | _ => none := by
  rw [names, components_eq]
  split
  · rfl
  · split <;> rfl

/-- The steps of a path that lead anywhere are those of its components. -/
lemma filter_plainSteps (p : Path) :
    p.plainSteps.filter Step.leads = p.components.filterMap Step.ofComponent? := by
  have hsegment : ∀ segment, (Step.ofSegment? segment).filter Step.leads
      = (Component.ofSegment? segment).bind Step.ofComponent? := by
    intro segment
    unfold Step.ofSegment? Component.ofSegment?
    by_cases hempty : segment = ""
    · simp [hempty]
    by_cases hdot : segment = "."
    · simp [hdot, Step.leads]
    by_cases hdots : segment = ".."
    · simp [hdots, Step.leads, Step.ofComponent?]
    by_cases hvalid : ValidName segment
    · simp [hempty, hdot, hdots, hvalid, Step.leads, Step.ofComponent?]
    · simp [hempty, hdot, hdots, hvalid, Step.ofComponent?]
  have hmoves : p.moves.filterMap Step.ofComponent? = p.plainSteps.filter Step.leads := by
    rw [moves, plainSteps, List.filterMap_filterMap, List.filter_filterMap]
    exact List.filterMap_congr fun segment _ => (hsegment segment).symm
  rw [components_eq, ← hmoves]
  split
  · rfl
  · split <;> rfl

lemma Component.ofSegment?_eq_none {segment : String} :
    Component.ofSegment? segment = none ↔ segment = "" ∨ segment = "." := by
  unfold Component.ofSegment?
  split
  · next hstay => exact ⟨fun _ => hstay, fun _ => rfl⟩
  · next hgo =>
    constructor
    · intro h
      split at h <;> cases h
    · exact fun hstay => absurd hstay hgo

lemma Component.text_of_ofSegment? {segment : String} {c : Component}
    (h : Component.ofSegment? segment = some c) : c.text = segment := by
  unfold Component.ofSegment? at h
  split at h
  · cases h
  · split at h
    · next hup =>
      cases h
      exact hup.symm
    · cases h
      rfl

/-- All characters of a path but slashes and dots are in its components. -/
lemma mem_text_iff {c : Char} (hslash : c ≠ '/') (hdot : c ≠ '.') :
    c ∈ p.text.toList ↔ ∃ component ∈ p.moves, c ∈ component.text.toList := by
  have hpieces : c ∈ p.text.toList ↔ ∃ segment ∈ p.segments, c ∈ segment.toList := by
    rw [Text.mem_iff_pieces hslash]
    simp [segments]
  rw [hpieces]
  constructor
  · rintro ⟨segment, hsegment, hc⟩
    cases hmakes : Component.ofSegment? segment with
    | none =>
      rcases Component.ofSegment?_eq_none.mp hmakes with rfl | rfl
      · simp at hc
      · simp [hdot] at hc
    | some component =>
      exact ⟨component, List.mem_filterMap.mpr ⟨segment, hsegment, hmakes⟩,
        Component.text_of_ofSegment? hmakes ▸ hc⟩
  · rintro ⟨component, hcomponent, hc⟩
    obtain ⟨segment, hsegment, hmakes⟩ := List.mem_filterMap.mp hcomponent
    exact ⟨segment, hsegment, Component.text_of_ofSegment? hmakes ▸ hc⟩

/-- Paths of the same components have the same characters in their names. -/
lemma mem_text_of_components (h : p.components = q.components) {c : Char} (hslash : c ≠ '/')
    (hdot : c ≠ '.') : c ∈ p.text.toList ↔ c ∈ q.text.toList := by
  rw [mem_text_iff hslash hdot, mem_text_iff hslash hdot, moves_eq, moves_eq, h]

lemma size_le_lead (p : Path) : p.text.utf8ByteSize ≤ p.lead.utf8ByteSize := by
  unfold lead
  split <;> simp

/-- A relative path starts with the text before its first slash, if that is not empty. -/
lemma head_segments_ne (hp : p.text ≠ "") (hrelative : p.isAbsolute = false) :
    ∃ first rest, p.segments = first :: rest ∧ first ≠ "" := by
  have hwhole := ofNames_segments p
  cases hsegments : p.segments with
  | nil =>
    rw [hsegments] at hwhole
    exact absurd (congrArg Path.text hwhole.symm) hp
  | cons first rest =>
    refine ⟨first, rest, rfl, ?_⟩
    rintro rfl
    rw [hsegments] at hwhole
    cases rest with
    | nil => exact hp (congrArg Path.text hwhole.symm)
    | cons second rest =>
      rw [← hwhole, isAbsolute, text_ofNames_cons_cons] at hrelative
      simp at hrelative

/-- Only the empty path has no components. -/
lemma components_ne_nil (hp : p.text ≠ "") : p.components ≠ [] := by
  intro hnone
  rw [components_eq] at hnone
  split at hnone
  · cases hnone
  · next hrelative =>
    obtain ⟨first, rest, hsegments, hne⟩ :=
      head_segments_ne hp (Bool.eq_false_of_not_eq_true hrelative)
    split at hnone
    · cases hnone
    · next hdot =>
      rw [hsegments, List.head?_cons, Option.some.injEq] at hdot
      have hstays := List.filterMap_eq_nil_iff.mp hnone first (hsegments ▸ List.mem_cons_self)
      exact (Component.ofSegment?_eq_none.mp hstays).elim hne hdot

/-- No absolute path leads on from a relative one. -/
lemma relativeTo?_of_relative (hp : p.isAbsolute = true) (hq : q.isAbsolute = false)
    (hne : q.text ≠ "") : p.relativeTo? q = none := by
  have hroot : Component.root ∉ q.components := by
    rw [← isAbsolute_iff, hq]
    exact Bool.false_ne_true
  obtain ⟨c, rest, hcomponents⟩ := List.exists_cons_of_ne_nil (components_ne_nil hne)
  rw [hcomponents, List.mem_cons, not_or] at hroot
  rw [relativeTo?, hcomponents, components_eq p, if_pos hp, after?, if_neg (Ne.symm hroot.1)]
  rfl

/-! ## Paths without slashes and dots around them -/

lemma segments_trimmed (hcore : p.core ≠ []) : p.trimmed.segments = p.core := by
  obtain ⟨first, rest, hcons⟩ := List.exists_cons_of_ne_nil hcore
  rw [trimmed, hcons]
  refine segments_ofNames_of_notMem fun segment hsegment => ?_
  exact notMem_of_mem_segments (mem_segments_of_mem_core (hcons ▸ hsegment))

lemma moves_trimmed (p : Path) : p.trimmed.moves = p.moves := by
  obtain ⟨front, back, hsegments, hfront, hback⟩ := p.exists_segments_eq
  have hnone : ∀ {segments : List String}, (∀ s ∈ segments, makesComponent s = false) →
      segments.filterMap Component.ofSegment? = [] := fun h =>
    List.filterMap_eq_nil_iff.mpr fun s hs => makesComponent_eq_false.mp (h s hs)
  have hmoves : p.moves = p.core.filterMap Component.ofSegment? := by
    rw [moves, hsegments, List.filterMap_append, List.filterMap_append, hnone hfront, hnone hback,
      List.nil_append, List.append_nil]
  rw [hmoves]
  by_cases hcore : p.core = []
  · rw [trimmed, hcore]
    rfl
  · rw [moves, segments_trimmed hcore]

lemma isAbsolute_trimmed (p : Path) : p.trimmed.isAbsolute = false := by
  apply isAbsolute_ofNames_of_notMem
  intro first hfirst
  constructor
  · rintro rfl
    cases makesComponent_of_head?_core hfirst
  · exact notMem_of_mem_segments (mem_segments_of_mem_core (List.mem_of_head? hfirst))

/-- The size of texts with a slash after each. -/
def sizeWithSlashes : List String → Nat
  | [] => 0
  | segment :: rest => segment.utf8ByteSize + 1 + sizeWithSlashes rest

lemma sizeWithSlashes_append (first second : List String) :
    sizeWithSlashes (first ++ second) = sizeWithSlashes first + sizeWithSlashes second := by
  induction first with
  | nil => simp [sizeWithSlashes]
  | cons segment rest ih =>
    rw [List.cons_append, sizeWithSlashes, sizeWithSlashes, ih]
    omega

lemma size_ofNames (first : String) (rest : List String) :
    (ofNames (first :: rest)).text.utf8ByteSize + 1 = sizeWithSlashes (first :: rest) := by
  induction rest generalizing first with
  | nil => simp [ofNames, sizeWithSlashes]
  | cons second rest ih =>
    have hslash : "/".utf8ByteSize = 1 := rfl
    have hrest := ih second
    rw [text_ofNames_cons_cons, sizeWithSlashes, String.utf8ByteSize_append,
      String.utf8ByteSize_append]
    omega

lemma getLast?_segments (hp : p.slashEnded = true) : p.segments.getLast? = some "" := by
  rw [slashEnded, beq_iff_eq] at hp
  have hsplit := List.dropLast_append_getLast? '/' hp
  rw [segments, ← hsplit, Text.pieces_append]
  simp [Text.pieces]

lemma size_lead_pos (p : Path) : 0 < p.lead.utf8ByteSize := by
  have hone : "/".utf8ByteSize = 1 := rfl
  rw [lead]
  split
  · next hslash =>
    rw [Nat.pos_iff_ne_zero, Ne, String.utf8ByteSize_eq_zero_iff]
    intro hempty
    rw [slashEnded, hempty] at hslash
    cases hslash
  · rw [String.utf8ByteSize_append]
    omega

/-- With a slash behind it, a path is not longer without what is around it. -/
lemma size_lead_trimmed (p : Path) : p.trimmed.lead.utf8ByteSize ≤ p.lead.utf8ByteSize := by
  by_cases hcore : p.core = []
  · rw [trimmed, hcore]
    exact p.size_lead_pos
  obtain ⟨front, back, hsegments, -, hback⟩ := p.exists_segments_eq
  obtain ⟨first, rest, hcons⟩ := List.exists_cons_of_ne_nil hcore
  have hsize : p.text.utf8ByteSize + 1 = sizeWithSlashes p.segments := by
    cases hall : p.segments with
    | nil => simp [hcons, hall] at hsegments
    | cons s others =>
      have hwhole := size_ofNames s others
      rwa [← hall, ofNames_segments, hall] at hwhole
  have hparts : sizeWithSlashes p.segments
      = sizeWithSlashes front + sizeWithSlashes p.core + sizeWithSlashes back := by
    rw [hsegments, sizeWithSlashes_append, sizeWithSlashes_append]
  have htrimmed : p.trimmed.text.utf8ByteSize + 1 = sizeWithSlashes p.core := by
    rw [trimmed, hcons]
    exact size_ofNames first rest
  have hlast : p.core.getLast? ≠ some "" := fun hlast => by
    cases makesComponent_of_getLast?_core hlast
  have hplain : p.trimmed.slashEnded = false := by
    refine Bool.eq_false_of_not_eq_true fun hslash => hlast ?_
    rw [← segments_trimmed hcore]
    exact getLast?_segments hslash
  have hone : "/".utf8ByteSize = 1 := rfl
  rw [lead, hplain, if_neg Bool.false_ne_true, String.utf8ByteSize_append, hone, htrimmed]
  by_cases hslash : p.slashEnded = true
  · -- the text after the slash makes no component
    have hpos : 0 < sizeWithSlashes back := by
      cases back with
      | nil =>
        rw [List.append_nil] at hsegments
        have hempty := getLast?_segments hslash
        rw [hsegments, List.getLast?_append_of_ne_nil _ hcore] at hempty
        exact absurd hempty hlast
      | cons segment others =>
        rw [sizeWithSlashes]
        omega
    rw [lead, if_pos hslash]
    omega
  · rw [lead, if_neg hslash, String.utf8ByteSize_append]
    omega

lemma lead_join {further : String} (hp : p.text ≠ "")
    (hfurther : (Path.mk further).isAbsolute = false) (hne : further ≠ "") :
    (p.join further).lead = p.lead ++ (Path.mk further).lead := by
  rw [lead, slashEnded_join hp hfurther hne, join_eq hp hfurther]
  simp only [lead]
  split
  · rfl
  · exact String.append_assoc ..

section Names

variable {name : String} (hname : ValidName name) (hp : p.text ≠ "")

include hname hp

lemma text_join_of_valid : (p.join name).text = p.lead ++ name := by
  rw [join_eq hp hname.isAbsolute]

lemma lead_join_of_valid : (p.join name).lead = p.lead ++ name ++ "/" := by
  rw [lead, hname.slashEnded_join hp, if_neg Bool.false_ne_true, text_join_of_valid hname hp]

end Names

end Path

namespace Tree

variable {t : Tree} {p q : Path}

/-- On the way to a directory it makes no difference to stay anywhere. -/
lemma walkToDirectory_stay (t : Tree) (links : Nat) (here : Standpoint) (first rest : List Step) :
    t.walkToDirectory links here (first ++ .stay :: rest)
      = t.walkToDirectory links here (first ++ rest) := by
  unfold walkToDirectory
  rw [walk_append, walk_append]
  cases t.walk links here first with
  | error e => rfl
  | ok found =>
    obtain ⟨left, there⟩ := found
    dsimp only [Except.bind]
    by_cases hdir : t.isDirectoryAt there = true
    · have hstay : t.walk left there (.stay :: rest) = t.walk left there rest := by
        cases left <;> simp [walk, walkWith, hdir]
      rw [hstay]
    · have hstuck : ∀ step rest, t.walk left there (step :: rest) = .error .notADirectory := by
        intro step rest
        cases left <;> simp [walk, walkWith, hdir]
      cases rest with
      | nil => simp [hstuck, hdir]
      | cons step rest => rw [hstuck, hstuck]

/-- Only the steps that lead anywhere count on the way to a directory. -/
lemma walkToDirectory_filter (t : Tree) (links : Nat) (here : Standpoint) (steps : List Step) :
    t.walkToDirectory links here (steps.filter Step.leads)
      = t.walkToDirectory links here steps := by
  suffices h : ∀ first, t.walkToDirectory links here (first ++ steps.filter Step.leads)
      = t.walkToDirectory links here (first ++ steps) from h []
  induction steps with
  | nil => intro first; rfl
  | cons step rest ih =>
    intro first
    cases step with
    | stay =>
      rw [List.filter_cons_of_neg (by simp [Step.leads]), walkToDirectory_stay]
      exact ih first
    | up =>
      rw [List.filter_cons_of_pos (by rfl), List.append_cons, List.append_cons first .up rest]
      exact ih (first ++ [.up])
    | down name =>
      rw [List.filter_cons_of_pos (by rfl), List.append_cons,
        List.append_cons first (.down name) rest]
      exact ih (first ++ [.down name])

section Components

variable (hsame : p.components = q.components)

include hsame

/-- Paths of the same components lead to the same directory, if they lead anywhere. -/
lemma resolve_of_components (hq : checkPath q = .ok ()) {there : Standpoint}
    (h : t.resolve p = .ok there) (hdir : t.isDirectoryAt there = true) :
    t.resolve q = .ok there := by
  obtain ⟨here, left, hstart, hwalk⟩ := exists_walk_of_resolve h
  have habsolute : q.isAbsolute = p.isAbsolute := by
    rw [Bool.eq_iff_iff, Path.isAbsolute_iff, Path.isAbsolute_iff, hsame]
  have hstart' : t.start q = .ok here := by
    refine start_eq_ok.mpr ⟨hq, ?_⟩
    rw [habsolute]
    exact (start_eq_ok.mp hstart).2
  have hwalk' : t.walkToDirectory linkLimit here q.plainSteps = .ok (left, there) := by
    rw [← walkToDirectory_filter, Path.filter_plainSteps, ← hsame, ← Path.filter_plainSteps,
      walkToDirectory_filter]
    exact walkToDirectory_eq_ok.mpr ⟨hwalk, hdir⟩
  exact resolve_of_directory hstart' (walkToDirectory_eq_ok.mp hwalk').1 hdir

lemma checkPath_iff_of_components (hp : p.text ≠ "") (hq : q.text ≠ "") {extra : Nat}
    (hsize : p.text.utf8ByteSize = q.text.utf8ByteSize + extra) :
    checkPath p = .ok () ↔
      checkPath q = .ok () ∧ q.text.utf8ByteSize + extra < pathLimit := by
  rw [checkPath_eq_ok, checkPath_eq_ok, Path.mem_text_of_components hsame (by decide) (by decide),
    hsize]
  constructor
  · rintro ⟨hnull, -, hlt⟩
    exact ⟨⟨hnull, hq, Nat.lt_of_le_of_lt (Nat.le_add_right _ extra) hlt⟩, hlt⟩
  · rintro ⟨⟨hnull, -, -⟩, hlt⟩
    exact ⟨hnull, hp, hlt⟩

lemma listDirectory_of_components (hq : checkPath q = .ok ()) (hlist : t.isListable p = true) :
    t.listDirectory q = t.listDirectory p := by
  obtain ⟨there, hthere, hfind⟩ := isListable_iff.mp hlist
  have hdir : t.isDirectoryAt there = true := by
    cases there with
    | inTree place => exact isDirectory_of_find? hfind
    | removed around => rfl
  rw [listDirectory, listDirectory, resolve_of_components hsame hq hthere hdir, hthere]

end Components

end Tree

end ChangeTracking
