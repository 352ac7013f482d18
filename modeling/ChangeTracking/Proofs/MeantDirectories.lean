import ChangeTracking.Proofs.Paths
import ChangeTracking.Tracker.Copy
import Mathlib.Tactic.Common

/-!
# Directories that paths mean

Two dots in a path take away the name before them: `base/1/../2` means the directory `base/2`.
`databaseAt?` passes over all dots and goes by the names that it finds first, here `base` and `1`.
So a copied directory is classified by what is meant as long as two dots take away none of the names
that decide (`databaseAt?_meant`).  Else any other directory can be taken for the
one that the first names lead to, by a path that goes back from there (`Path.detour`).

What is meant is said by a stack of names (`Path.climb`).  Beside it runs the list of all names so
far, which is what `databaseAt?` sees; up to the first time that one of the first `n` names is taken
away, the two lists begin with the same `n` names.
-/

namespace ChangeTracking

namespace Path

/-- The names that lead to where some components lead from where the names of `stack` lead.  The last
name comes first; `none` means that two dots lead up from the first directory. -/
def climb : (stack : List String) → List Component → Option (List String)
  | stack, [] => some stack
  | stack, .name s :: rest => climb (s :: stack) rest
  | [], .up :: _ => none
  | _ :: stack, .up :: rest => climb stack rest
  | stack, .root :: rest | stack, .here :: rest => climb stack rest

/-- The names that lead to the directory that a path means below the one where it starts, if it does
not climb above that. -/
def meant? (p : Path) : Option (List String) := (climb [] p.components).map List.reverse

/-- Whether two dots take away none of the first `n` names, where `depth` names lead down to where
the components start. -/
def keepsFirst (n : Nat) : (depth : Nat) → List Component → Bool
  | _, [] => true
  | depth, .name _ :: rest => keepsFirst n (depth + 1) rest
  | depth, .up :: rest => n < depth && keepsFirst n (depth - 1) rest
  | depth, .root :: rest | depth, .here :: rest => keepsFirst n depth rest

/-- The names among components. -/
def namesOf (components : List Component) : List String :=
  components.filterMap fun
    | .name s => some s
    | _ => none

variable {p : Path} {components : List Component} {stack : List String} {n : Nat}

lemma names_eq (p : Path) : p.names = namesOf p.components := rfl

/-- The names that two dots leave in place are the first of all names.  `seen` are all names so far,
the last one first. -/
lemma take_climb (seen stack : List String) {left : List String}
    (hkeeps : keepsFirst n stack.length components = true)
    (hfirst : seen.reverse.take n = stack.reverse.take n)
    (hshort : stack.length < n → seen = stack) (hclimb : climb stack components = some left) :
    left.reverse.take n = (seen.reverse ++ namesOf components).take n := by
  induction components generalizing stack seen with
  | nil =>
    obtain rfl : stack = left := Option.some.inj hclimb
    simpa [namesOf] using hfirst.symm
  | cons component rest ih =>
    cases component with
    | root => exact ih _ _ hkeeps hfirst hshort (by rwa [climb] at hclimb)
    | here => exact ih _ _ hkeeps hfirst hshort (by rwa [climb] at hclimb)
    | name s =>
      rw [climb] at hclimb
      have hnames : seen.reverse ++ namesOf (.name s :: rest)
          = (s :: seen).reverse ++ namesOf rest := by simp [namesOf]
      rw [hnames]
      refine ih _ _ hkeeps ?_ ?_ hclimb
      · by_cases hlength : stack.length < n
        · rw [hshort hlength]
        · -- Both lists have `n` names already, so one more at the end does not count.
          have hseen : n ≤ seen.length := by
            have := congrArg List.length hfirst
            simp only [List.length_take, List.length_reverse] at this
            omega
          rw [List.reverse_cons, List.reverse_cons, List.take_append_of_le_length (by simpa),
            List.take_append_of_le_length (by simpa using Nat.le_of_not_lt hlength), hfirst]
      · intro hlength
        rw [List.length_cons] at hlength
        rw [hshort (Nat.lt_of_succ_lt hlength)]
    | up =>
      cases stack with
      | nil => simp [climb] at hclimb
      | cons top stack =>
        rw [climb] at hclimb
        simp only [keepsFirst, List.length_cons, Bool.and_eq_true, decide_eq_true_eq,
          Nat.add_sub_cancel] at hkeeps
        have hkept : n ≤ stack.reverse.length := by
          rw [List.length_reverse]
          omega
        refine ih _ _ hkeeps.2 ?_ ?_ hclimb
        · rw [hfirst, List.reverse_cons, List.take_append_of_le_length hkept]
        · intro hlength
          rw [List.length_reverse] at hkept
          omega

/-- A path whose first `n` names are never taken away means a directory that these lead to. -/
lemma take_meant {names : List String} (hmeant : p.meant? = some names)
    (hkeeps : keepsFirst n 0 p.components = true) : names.take n = p.names.take n := by
  obtain ⟨left, hleft, rfl⟩ := Option.map_eq_some_iff.mp hmeant
  simpa [names_eq] using take_climb [] [] hkeeps rfl (fun _ => rfl) hleft

/-! ## What names paths have -/

lemma validName_of_ofSegment? {segment name : String} (hslash : '/' ∉ segment.toList)
    (h : Component.ofSegment? segment = some (.name name)) : ValidName name := by
  unfold Component.ofSegment? at h
  split at h
  · cases h
  · next hnone =>
    rw [not_or] at hnone
    split at h
    · cases h
    · next hup =>
      obtain rfl : segment = name := Component.name.inj (Option.some.inj h)
      exact ⟨hnone.1, hnone.2, hup, hslash⟩

lemma validName_of_mem_names {name : String} (h : name ∈ p.names) : ValidName name := by
  have hcomponent : Component.name name ∈ p.components := by
    obtain ⟨component, hcomponent, heq⟩ := List.mem_filterMap.mp h
    cases component with
    | name s =>
      obtain rfl : s = name := Option.some.inj heq
      exact hcomponent
    | root | here | up => cases heq
  have hbody : Component.name name ∈ p.segments.filterMap Component.ofSegment? := by
    unfold components at hcomponent
    dsimp only at hcomponent
    split at hcomponent
    · simpa using hcomponent
    · split at hcomponent
      · simpa using hcomponent
      · exact hcomponent
  obtain ⟨segment, hsegment, hmakes⟩ := List.mem_filterMap.mp hbody
  exact validName_of_ofSegment? (notMem_of_mem_segments hsegment) hmakes

lemma mem_of_climb {left : List String} (h : climb stack components = some left) {name : String}
    (hname : name ∈ left) : name ∈ stack ∨ name ∈ namesOf components := by
  induction components generalizing stack with
  | nil =>
    obtain rfl : stack = left := Option.some.inj h
    exact .inl hname
  | cons component rest ih =>
    match component, stack, h with
    | .root, _, h | .here, _, h => exact ih (by rwa [climb] at h)
    | .name s, _, h =>
      rw [climb] at h
      have hmem := ih h
      simp only [namesOf, List.mem_cons, List.filterMap_cons] at hmem ⊢
      tauto
    | .up, _ :: stack, h =>
      rw [climb] at h
      exact (ih h).imp_left (List.mem_cons_of_mem _)

/-- What a path means is a path of names. -/
lemma validName_of_meant {names : List String} (h : p.meant? = some names) :
    ∀ name ∈ names, ValidName name := by
  obtain ⟨left, hleft, rfl⟩ := Option.map_eq_some_iff.mp h
  intro name hname
  have hmem := mem_of_climb hleft (List.mem_reverse.mp hname)
  exact validName_of_mem_names (hmem.resolve_left List.not_mem_nil)

lemma names_ofNames_of_valid {names : List String} (h : ∀ name ∈ names, ValidName name) :
    (ofNames names).names = names := by
  cases names with
  | nil => rfl
  | cons first rest => exact names_ofNames h

/-! ## Detours -/

/-- A way to where `other` leads: along `p`, which means the directory of the given names, back to
the beginning by two dots for each name, and from there on. -/
def detour (p : Path) (names other : List String) : Path :=
  p.join (ofNames (names.map (fun _ => "..") ++ other)).text

lemma climb_append (first second : List Component) :
    climb stack (first ++ second) = (climb stack first).bind (climb · second) := by
  induction first generalizing stack with
  | nil => rfl
  | cons component first ih =>
    match component, stack with
    | .root, _ | .here, _ | .name _, _ | .up, _ :: _ => exact ih
    | .up, [] => rfl

lemma climb_up (stack : List String) : climb stack (stack.map fun _ => .up) = some [] := by
  induction stack with
  | nil => rfl
  | cons top stack ih => exact ih

lemma climb_names (stack names : List String) :
    climb stack (names.map .name) = some (names.reverse ++ stack) := by
  induction names generalizing stack with
  | nil => rfl
  | cons first rest ih => simpa [climb] using ih (first :: stack)

section

variable (names : List String) {other : List String} (hother : ∀ name ∈ other, ValidName name)

include hother

lemma plain_backAndOn :
    ∀ name ∈ names.map (fun _ => "..") ++ other, name ≠ "" ∧ '/' ∉ name.toList := by
  intro name hname
  rcases List.mem_append.mp hname with hup | hname
  · obtain ⟨-, -, rfl⟩ := List.mem_map.mp hup
    decide
  · exact ⟨(hother name hname).1, (hother name hname).2.2.2⟩

lemma isAbsolute_backAndOn :
    (Path.mk (ofNames (names.map (fun _ => "..") ++ other)).text).isAbsolute = false :=
  isAbsolute_ofNames_of_notMem fun name hname =>
    plain_backAndOn names hother name (List.mem_of_head? hname)

lemma components_detour (hp : p.text ≠ "") :
    (p.detour names other).components
      = p.components ++ (names.map fun _ => .up) ++ other.map .name := by
  have hmade : (names.map (fun _ => "..") ++ other).filterMap Component.ofSegment?
      = (names.map fun _ => Component.up) ++ other.map .name := by
    rw [List.filterMap_append, List.filterMap_map, ← List.filterMap_eq_map,
      ← List.filterMap_eq_map]
    exact congrArg₂ _ (List.filterMap_congr fun _ _ => rfl)
      (List.filterMap_congr fun name hname => (hother name hname).ofSegment?)
  have hbody : (Path.mk (ofNames (names.map (fun _ => "..") ++ other)).text).segments.filterMap
      Component.ofSegment? = (names.map fun _ => .up) ++ other.map .name := by
    rw [← hmade]
    have hplain := plain_backAndOn names hother
    cases hall : names.map (fun _ => "..") ++ other with
    | nil => rfl
    | cons first rest =>
      rw [hall] at hplain
      exact congrArg _ (segments_ofNames_of_notMem fun name hname => (hplain name hname).2)
  rw [detour, components_join hp (isAbsolute_backAndOn names hother), hbody, List.append_assoc]

end

lemma isAbsolute_detour (names : List String) {other : List String} (hp : p.text ≠ "")
    (hrelative : p.isAbsolute = false) (hother : ∀ name ∈ other, ValidName name) :
    (p.detour names other).isAbsolute = false := by
  rw [detour, isAbsolute_join hp (isAbsolute_backAndOn names hother), hrelative]

/-- A detour means where it leads in the end. -/
lemma meant_detour {names other : List String} (hp : p.text ≠ "")
    (hmeant : p.meant? = some names) (hother : ∀ name ∈ other, ValidName name) :
    (p.detour names other).meant? = some other := by
  obtain ⟨left, hleft, rfl⟩ := Option.map_eq_some_iff.mp hmeant
  have hback : climb left (left.reverse.map fun _ => .up) = some [] := by
    rw [List.map_reverse, List.map_const', List.reverse_replicate, ← List.map_const']
    exact climb_up left
  rw [meant?, components_detour _ hother hp, climb_append, climb_append, hleft, Option.bind_some,
    hback, Option.bind_some, climb_names]
  simp

lemma names_detour {names other : List String} (hp : p.text ≠ "")
    (hother : ∀ name ∈ other, ValidName name) : (p.detour names other).names = p.names ++ other := by
  rw [names_eq, components_detour _ hother hp, names_eq]
  simp [namesOf, List.filterMap_map]

end Path

namespace Layout

variable {p q : Path} {version : String}

/-- How many of the first names decide what a directory holds. -/
def decidingCount : List String → Nat
  | "base" :: _ => 2
  | "pg_tblspc" :: _ => 4
  | _ => 1

/-- Only the names that decide count. -/
lemma databaseAt?_eq_of_take
    (h : q.names.take (decidingCount p.names) = p.names.take (decidingCount p.names)) :
    databaseAt? p version = databaseAt? q version := by
  unfold databaseAt?
  generalize p.names = names at h ⊢
  generalize q.names = others at h ⊢
  unfold decidingCount at h
  split at h
  · next rest =>
    match rest, others with
    | [], [] | [], [_] | [], _ :: _ :: _ | _ :: _, [] | _ :: _, [_] | _ :: _, _ :: _ :: _ => simp_all
  · next rest =>
    rcases rest with _ | ⟨_, _ | ⟨_, _ | ⟨_, _⟩⟩⟩ <;>
      rcases others with _ | ⟨_, _ | ⟨_, _ | ⟨_, _ | ⟨_, _⟩⟩⟩⟩ <;> simp_all
  · next hbase hspace =>
    match names, others with
    | [], [] => rfl
    | [], _ :: _ | _ :: _, [] => simp at h
    | first :: rest, other :: others =>
      obtain rfl : other = first := by simpa using h
      by_cases hglobal : other = "global"
      · subst hglobal
        rfl
      · have hbase : other ≠ "base" := fun heq => hbase rest (by rw [heq])
        have hspace : other ≠ "pg_tblspc" := fun heq => hspace rest (by rw [heq])
        simp [hglobal, hbase, hspace]

/-- A path that is classified has all the names that decide. -/
lemma decidingCount_le {id : Oid × Oid} (h : databaseAt? p version = some id) :
    decidingCount p.names ≤ p.names.length := by
  unfold databaseAt? at h
  split at h
  · next rest heq => simp [heq, decidingCount]
  · next database rest heq => simp [heq, decidingCount]
  · next tablespace v database rest heq => simp [heq, decidingCount]
  · cases h

lemma databaseAt?_of_names_append {id : Oid × Oid} {more : List String}
    (h : databaseAt? p version = some id) (hq : q.names = p.names ++ more) :
    databaseAt? q version = some id := by
  rw [← h]
  apply (databaseAt?_eq_of_take _).symm
  rw [hq, List.take_append_of_le_length (decidingCount_le h)]

lemma text_ne_of_databaseAt? {id : Oid × Oid} (h : databaseAt? p version = some id) :
    p.text ≠ "" := by
  intro htext
  obtain rfl : p = ⟨""⟩ := congrArg Path.mk htext
  cases h

end Layout

namespace Tracking

variable {s : Tracking} {p : Path}

/-- What becomes of a copy to a path below the data directory. -/
lemma copied_of_relative (hp : p.isAbsolute = false) :
    s.copied p = (Layout.databaseAt? p s.tracker.config.versionDirectory).elim s fun id =>
      (s.markDirectory ⟨s.tracker.config.dataDirectory.join p.text, ⟨id.1, id.2⟩⟩ []).2 := by
  have hbelow : s.copiedPath? p = some p := by simp [copiedPath?, hp]
  simp only [copied, hbelow]
  cases Layout.databaseAt? p s.tracker.config.versionDirectory <;> rfl

end Tracking

namespace Layout

/-- **Copies are classified by the directory meant, if the names that decide are kept.**  Take a path
below the data directory that does not climb above it, and the names that lead to the directory it
means.  The path is classified by all names in it, also those that two dots take away.  If two dots
take away none of those that decide, it is classified as the directory meant, and a copy to it is
marked as that directory's.

If they may be taken away there is no such rule: whatever the path is classified as, every other
directory has a path as well that is classified like this one, and copies to that path are marked as
this one's. -/
theorem databaseAt?_meant {p : Path} {names : List String} (version : String)
    (hp : p.isAbsolute = false) (hmeant : p.meant? = some names) :
    databaseAt? p version = databaseAt? (.ofNames p.names) version ∧
    (Path.keepsFirst (decidingCount p.names) 0 p.components = true →
      databaseAt? p version = databaseAt? (.ofNames names) version ∧
      ∀ s : Tracking, s.tracker.config.versionDirectory = version →
        s.copied p = (databaseAt? (.ofNames names) version).elim s fun id =>
          (s.markDirectory ⟨s.tracker.config.dataDirectory.join p.text, ⟨id.1, id.2⟩⟩ []).2) ∧
    ∀ id other, databaseAt? p version = some id → (∀ name ∈ other, ValidName name) →
      (p.detour names other).isAbsolute = false ∧ (p.detour names other).meant? = some other ∧
      databaseAt? (p.detour names other) version = some id ∧
      ∀ s : Tracking, s.tracker.config.versionDirectory = version →
        s.copied (p.detour names other) = (s.markDirectory
          ⟨s.tracker.config.dataDirectory.join (p.detour names other).text, ⟨id.1, id.2⟩⟩ []).2 := by
  refine ⟨?_, ?_, ?_⟩
  · apply databaseAt?_eq_of_take
    have hvalid : ∀ name ∈ p.names, ValidName name :=
      fun name hname => Path.validName_of_mem_names hname
    rw [Path.names_ofNames_of_valid hvalid]
  · intro hkeeps
    have hsame : databaseAt? p version = databaseAt? (.ofNames names) version := by
      apply databaseAt?_eq_of_take
      rw [Path.names_ofNames_of_valid (Path.validName_of_meant hmeant)]
      exact Path.take_meant hmeant hkeeps
    refine ⟨hsame, fun s hs => ?_⟩
    rw [Tracking.copied_of_relative hp, hs, hsame]
  · intro id other hid hother
    have hne := text_ne_of_databaseAt? hid
    have hrelative := Path.isAbsolute_detour names hne hp hother
    have hsame : databaseAt? (p.detour names other) version = some id :=
      databaseAt?_of_names_append hid (Path.names_detour hne hother)
    refine ⟨hrelative, Path.meant_detour hne hmeant hother, hsame, fun s hs => ?_⟩
    rw [Tracking.copied_of_relative hrelative, hs, hsame, Option.elim_some]

/-- A path into the directory of the database of number 5, and one from there to that of number 6. -/
theorem databaseAt?_meant_inside :
    databaseAt? ⟨"base/5/x/../."⟩ "v1" = some (defaultTablespace, 5) ∧
    databaseAt? (.ofNames ["base", "5"]) "v1" = some (defaultTablespace, 5) ∧
    databaseAt? ⟨"base/5/x/../././../../base/6"⟩ "v1" = some (defaultTablespace, 5) ∧
    databaseAt? (.ofNames ["base", "6"]) "v1" = some (defaultTablespace, 6) := by
  have hmeant : (Path.mk "base/5/x/../.").meant? = some ["base", "5"] := rfl
  have hclass : databaseAt? ⟨"base/5/x/../."⟩ "v1" = some (defaultTablespace, 5) := rfl
  obtain ⟨-, hinside, hdetour⟩ := databaseAt?_meant "v1" rfl hmeant
  refine ⟨hclass, ?_, ?_, rfl⟩
  · rw [← (hinside rfl).1, hclass]
  · exact (hdetour _ ["base", "6"] hclass (by decide)).2.2.1

/-- Where two dots take away a name that decides, the directory meant is another one. -/
theorem databaseAt?_passes_over_up :
    (Path.mk "base/1/../2").isAbsolute = false ∧
    (Path.mk "base/1/../2").meant? = some ["base", "2"] ∧
    databaseAt? ⟨"base/1/../2"⟩ defaultVersionDirectory = some (defaultTablespace, 1) ∧
    databaseAt? (.ofNames ["base", "2"]) defaultVersionDirectory = some (defaultTablespace, 2) ∧
    ∃ s, Tracking.start ⟨⟨"data"⟩, 8, defaultVersionDirectory, none⟩ exemptNone
        ⟨.empty, ⟨100⟩, #[]⟩ = .ok s ∧
      s.copied ⟨"base/1/../2"⟩
        = (s.markDirectory ⟨⟨"data/base/1/../2"⟩, ⟨defaultTablespace, 1⟩⟩ []).2 ∧
      s.copied ⟨"base/2"⟩
        = (s.markDirectory ⟨⟨"data/base/2"⟩, ⟨defaultTablespace, 2⟩⟩ []).2 :=
  ⟨rfl, rfl, rfl, rfl, _, rfl, rfl, rfl⟩

end Layout

end ChangeTracking
