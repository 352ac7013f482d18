import ChangeTracking.Proofs.Paths

/-!
# Following paths

Steps can be gone in two parts (`walk_append`), so a path that leads on from another one comes to
what is in the directory that the other one leads to (`entryAt?_join`).  What can be looked up in a
directory that can be listed is in its listing (`mem_listDirectory`).
-/

namespace ChangeTracking

/-! ## Computations in a row -/

/-- The second of two computations in a row goes on with what the first one came to. -/
lemma bind_eq_ok {ε α β : Type} {x : Except ε α} {f : α → Except ε β} {b : β} :
    (x >>= f) = .ok b ↔ ∃ a, x = .ok a ∧ f a = .ok b := by
  cases x <;> simp [bind, Except.bind]

lemma pure_eq_ok {ε α : Type} {a b : α} : (pure a : Except ε α) = .ok b ↔ a = b := by
  simp [pure, Except.pure]

namespace Tree

variable {t : Tree}

/-! ## Steps -/

@[simp] lemma walk_nil (links : Nat) (here : Standpoint) :
    t.walk links here [] = .ok (links, here) := by
  cases links <;> rfl

lemma walkWith_append {links : Nat}
    {follow : Standpoint → List Step → Except FileError (Nat × Standpoint)} {second : List Step}
    {go : Nat × Standpoint → Except FileError (Nat × Standpoint)}
    (hfollow : ∀ here steps, follow here (steps ++ second) = (follow here steps).bind go)
    (hgo : ∀ here, t.walkWith links follow here second = go (links, here)) (here : Standpoint)
    (first : List Step) :
    t.walkWith links follow here (first ++ second)
      = (t.walkWith links follow here first).bind go := by
  induction first generalizing here with
  | nil => exact hgo here
  | cons step rest ih =>
    simp only [List.cons_append, walkWith]
    by_cases hdir : t.isDirectoryAt here = true
    · simp only [if_pos hdir]
      cases step with
      | stay => exact ih here
      | up => exact ih here.around
      | down name =>
        dsimp only
        cases placeOf here name with
        | error e => rfl
        | ok place =>
          dsimp only
          cases t.find? place with
          | none => rfl
          | some node =>
            cases node with
            | link target =>
              dsimp only
              rw [← List.append_assoc]
              exact hfollow _ _
            | file contents => exact ih _
            | directory readable => exact ih _
    · simp only [if_neg hdir]
      rfl

/-- Steps can be gone in two parts. -/
lemma walk_append (t : Tree) (links : Nat) (here : Standpoint) (first second : List Step) :
    t.walk links here (first ++ second)
      = (t.walk links here first).bind fun (left, there) => t.walk left there second := by
  induction links generalizing here first with
  | zero => exact walkWith_append (fun _ _ => rfl) (fun _ => rfl) here first
  | succ links ih =>
    exact walkWith_append (fun here steps => ih here steps) (fun _ => rfl) here first

lemma walk_append_eq_ok {links : Nat} {here : Standpoint} {first second : List Step}
    {found : Nat × Standpoint} :
    t.walk links here (first ++ second) = .ok found ↔
      ∃ left there, t.walk links here first = .ok (left, there) ∧
        t.walk left there second = .ok found := by
  rw [walk_append]
  cases t.walk links here first with
  | error e => simp [Except.bind]
  | ok halfway =>
    obtain ⟨left, there⟩ := halfway
    simp [Except.bind]

lemma walk_down {links : Nat} {here : Standpoint} {name : Name} {place : Place} {node : Node}
    (hdir : t.isDirectoryAt here = true) (hplace : placeOf here name = .ok place)
    (hnode : t.find? place = some node) (hlink : node.kind ≠ .link) :
    t.walk links here [.down name] = .ok (links, .inTree place) := by
  cases node with
  | link target => exact absurd rfl hlink
  | file contents => cases links <;> simp [walk, walkWith, hdir, hplace, hnode]
  | directory readable => cases links <;> simp [walk, walkWith, hdir, hplace, hnode]

lemma walk_stay {links : Nat} {here : Standpoint} (hdir : t.isDirectoryAt here = true) :
    t.walk links here [.stay] = .ok (links, here) := by
  cases links <;> simp [walk, walkWith, hdir]

lemma walk_stay_eq {links : Nat} {here : Standpoint} {found : Nat × Standpoint}
    (h : t.walk links here [.stay] = .ok found) : found = (links, here) := by
  by_cases hdir : t.isDirectoryAt here = true
  · rw [walk_stay hdir] at h
    exact (Except.ok.inj h).symm
  · cases links <;> simp [walk, walkWith, hdir] at h

lemma placeOf_of_walk_down {links : Nat} {here : Standpoint} {name : Name}
    {found : Nat × Standpoint} (h : t.walk links here [.down name] = .ok found) :
    t.isDirectoryAt here = true ∧ ∃ place, placeOf here name = .ok place := by
  by_cases hdir : t.isDirectoryAt here = true
  · cases hplace : placeOf here name with
    | error e => cases links <;> simp [walk, walkWith, hdir, hplace] at h
    | ok place => exact ⟨hdir, place, rfl⟩
  · cases links <;> simp [walk, walkWith, hdir] at h

lemma walkToDirectory_eq_ok {links left : Nat} {here there : Standpoint} {steps : List Step} :
    t.walkToDirectory links here steps = .ok (left, there) ↔
      t.walk links here steps = .ok (left, there) ∧ t.isDirectoryAt there = true := by
  unfold walkToDirectory
  cases hwalk : t.walk links here steps with
  | error e => simp
  | ok found =>
    obtain ⟨left', there'⟩ := found
    by_cases hdir : t.isDirectoryAt there' = true
    · simp only [hdir, if_true, Except.ok.injEq, Prod.mk.injEq]
      constructor
      · rintro ⟨rfl, rfl⟩
        exact ⟨⟨rfl, rfl⟩, hdir⟩
      · exact fun h => h.1
    · simp only [hdir]
      constructor
      · intro h
        simp at h
      · rintro ⟨h, hdir'⟩
        simp only [Except.ok.injEq, Prod.mk.injEq] at h
        exact absurd (h.2 ▸ hdir') hdir

lemma placeOf_eq_ok {here : Standpoint} {name : Name} {place : Place}
    (h : placeOf here name = .ok place) :
    ∃ dir, here = .inTree dir ∧ place = name :: dir ∧ name.val.utf8ByteSize ≤ nameLimit := by
  cases here with
  | removed around => simp [placeOf] at h
  | inTree dir =>
    simp only [placeOf] at h
    split at h
    · simp at h
    · next hsize =>
      exact ⟨dir, rfl, (Except.ok.inj h).symm, Nat.le_of_not_lt hsize⟩

/-! ## Paths -/

lemma checkPath_eq_ok {p : Path} :
    checkPath p = .ok () ↔
      '\x00' ∉ p.text.toList ∧ p.text ≠ "" ∧ p.text.utf8ByteSize < pathLimit := by
  unfold checkPath
  by_cases hnull : '\x00' ∈ p.text.toList
  · rw [if_pos hnull]
    exact ⟨fun h => by simp at h, fun h => absurd hnull h.1⟩
  by_cases hempty : p.text = ""
  · rw [if_neg hnull, if_pos hempty]
    exact ⟨fun h => by simp at h, fun h => absurd hempty h.2.1⟩
  by_cases hsize : pathLimit ≤ p.text.utf8ByteSize
  · rw [if_neg hnull, if_neg hempty, if_pos hsize]
    exact ⟨fun h => by simp at h, fun h => absurd hsize (Nat.not_le.mpr h.2.2)⟩
  · rw [if_neg hnull, if_neg hempty, if_neg hsize]
    exact ⟨fun _ => ⟨hnull, hempty, Nat.not_le.mp hsize⟩, fun _ => rfl⟩

lemma start_eq_ok {p : Path} {here : Standpoint} :
    t.start p = .ok here ↔
      checkPath p = .ok () ∧ here = if p.isAbsolute then .root else t.working := by
  rw [start, bind_eq_ok]
  constructor
  · rintro ⟨_, hcheck, hhere⟩
    exact ⟨hcheck, (pure_eq_ok.mp hhere).symm⟩
  · rintro ⟨hcheck, rfl⟩
    exact ⟨(), hcheck, rfl⟩

lemma resolve_eq_ok {p : Path} {there : Standpoint} :
    t.resolve p = .ok there ↔
      ∃ here left, t.start p = .ok here ∧ t.walk linkLimit here p.steps = .ok (left, there) := by
  rw [resolve, bind_eq_ok]
  constructor
  · rintro ⟨here, hstart, h⟩
    obtain ⟨⟨left, there'⟩, hwalk, hthere⟩ := bind_eq_ok.mp h
    obtain rfl := pure_eq_ok.mp hthere
    exact ⟨here, left, hstart, hwalk⟩
  · rintro ⟨here, left, hstart, hwalk⟩
    exact ⟨here, hstart, bind_eq_ok.mpr ⟨(left, there), hwalk, rfl⟩⟩

/-- What it takes for a path to come to an entry. -/
lemma spot_eq_entry {p : Path} {place : Place} {slash : Bool} :
    t.spot p = .ok (.entry place slash) ↔
      ∃ here left directory name, t.start p = .ok here ∧
        t.walk linkLimit here p.plainSteps.dropLast = .ok (left, directory) ∧
        t.isDirectoryAt directory = true ∧ p.plainSteps.getLast? = some (.down name) ∧
        placeOf directory name = .ok place ∧ slash = p.slashEnded := by
  constructor
  · intro h
    obtain ⟨here, hstart, h⟩ := bind_eq_ok.mp h
    obtain ⟨⟨left, directory⟩, hwalk, h⟩ := bind_eq_ok.mp h
    obtain ⟨hwalk, hdir⟩ := walkToDirectory_eq_ok.mp hwalk
    dsimp only at h
    split at h
    · next name hlast =>
      obtain ⟨place', hplace, hentry⟩ := bind_eq_ok.mp h
      obtain ⟨rfl, rfl⟩ := Spot.entry.inj (pure_eq_ok.mp hentry)
      exact ⟨here, left, directory, name, hstart, hwalk, hdir, hlast, hplace, rfl⟩
    all_goals cases pure_eq_ok.mp h
  · rintro ⟨here, left, directory, name, hstart, hwalk, hdir, hlast, hplace, rfl⟩
    have hwalk' := walkToDirectory_eq_ok.mpr ⟨hwalk, hdir⟩
    simp [spot, hstart, hwalk', hlast, hplace, bind, Except.bind, pure, Except.pure]

/-- A slash at the end of a path makes no difference where it leads to a directory. -/
lemma resolve_of_directory {p : Path} {here there : Standpoint} {left : Nat}
    (hstart : t.start p = .ok here)
    (hwalk : t.walk linkLimit here p.plainSteps = .ok (left, there))
    (hdir : t.isDirectoryAt there = true) : t.resolve p = .ok there := by
  have hsteps : t.walk linkLimit here p.steps = .ok (left, there) := by
    unfold Path.steps
    split
    · rw [walk_append, hwalk]
      exact walk_stay hdir
    · exact hwalk
  exact resolve_eq_ok.mpr ⟨here, left, hstart, hsteps⟩

/-- A path leads to the entry that it names, unless that is a link. -/
lemma resolve_of_spot {p : Path} {place : Place} {node : Node}
    (hspot : t.spot p = .ok (.entry place false)) (hnode : t.find? place = some node)
    (hlink : node.kind ≠ .link) : t.resolve p = .ok (.inTree place) := by
  obtain ⟨here, left, directory, name, hstart, hwalk, hdir, hlast, hplace, hslash⟩ :=
    spot_eq_entry.mp hspot
  have hsteps : p.steps = p.plainSteps.dropLast ++ [.down name] := by
    rw [Path.steps, ← hslash, if_neg (by decide), List.dropLast_append_getLast? _ hlast]
  have hall : t.walk linkLimit here p.steps = .ok (left, .inTree place) := by
    rw [hsteps, walk_append, hwalk]
    exact walk_down hdir hplace hnode hlink
  exact resolve_eq_ok.mpr ⟨here, left, hstart, hall⟩

/-- A path leads to one place. -/
lemma place_unique {p : Path} {place place' : Place} (h : t.resolve p = .ok (.inTree place))
    (h' : t.resolve p = .ok (.inTree place')) : place = place' :=
  Standpoint.inTree.inj (Except.ok.inj (h.symm.trans h'))

/-- A path under which something can be looked up is not too long. -/
lemma size_lt_of_entryAt? {p : Path} {node : Node} (h : t.entryAt? p = .ok node) :
    p.text.utf8ByteSize < pathLimit := by
  obtain ⟨spot, hspot, -⟩ := bind_eq_ok.mp h
  obtain ⟨here, hstart, -⟩ := bind_eq_ok.mp hspot
  exact (checkPath_eq_ok.mp (start_eq_ok.mp hstart).1).2.2

/-- What can be looked up by the path of an entry is that entry. -/
lemma find?_of_entryAt? {p : Path} {place : Place} {node : Node}
    (hspot : t.spot p = .ok (.entry place false)) (h : t.entryAt? p = .ok node) :
    t.find? place = some node := by
  obtain ⟨spot, hspot', h⟩ := bind_eq_ok.mp h
  obtain rfl := Except.ok.inj (hspot.symm.trans hspot')
  obtain ⟨found?, hfound, h⟩ := bind_eq_ok.mp h
  obtain rfl : t.find? place = found? := pure_eq_ok.mp hfound
  dsimp only at h
  split at h
  · next node' hnode => rw [hnode, pure_eq_ok.mp h]
  · cases h

/-- Whether a path leads to a directory that can be listed. -/
def isListable (t : Tree) (p : Path) : Bool := (t.listDirectory p).isOk

lemma listed_of_isListable {p : Path} (h : t.isListable p = true) :
    ∃ entries, t.listDirectory p = .ok entries := by
  unfold isListable at h
  cases hlist : t.listDirectory p with
  | error e => simp [hlist, Except.isOk, Except.toBool] at h
  | ok entries => exact ⟨entries, rfl⟩

lemma leadsSomewhere_of_isListable {p : Path} (h : t.isListable p = true) :
    t.leadsSomewhere p = true := by
  obtain ⟨entries, hlist⟩ := listed_of_isListable h
  obtain ⟨standpoint, hresolve, -⟩ := bind_eq_ok.mp hlist
  rw [leadsSomewhere, hresolve]
  rfl

section Join

variable {p : Path} {name : String}

lemma checkPath_of_join {further : String} (hp : p.text ≠ "")
    (hfurther : (Path.mk further).isAbsolute = false)
    (h : checkPath (p.join further) = .ok ()) : checkPath p = .ok () := by
  obtain ⟨hnull, -, hsize⟩ := checkPath_eq_ok.mp h
  refine checkPath_eq_ok.mpr ⟨?_, hp, ?_⟩
  · intro hmem
    apply hnull
    rw [Path.join_eq hp hfurther, String.toList_append, List.mem_append, Path.lead]
    left
    split
    · exact hmem
    · simp [hmem]
  · exact Nat.lt_of_le_of_lt (Nat.le_of_add_right_le (Path.size_join_le hp hfurther)) hsize

/-- What a path names that leads on by a name is in the directory that the path leads to. -/
lemma spot_join (hp : p.text ≠ "") (hname : ValidName name) {spot : Spot}
    (h : t.spot (p.join name) = .ok spot) :
    ∃ dir, t.resolve p = .ok (.inTree dir) ∧ spot = .entry (⟨name, hname⟩ :: dir) false := by
  have hsteps := hname.plainSteps_join hp
  unfold Tree.spot at h
  rw [hsteps, List.dropLast_concat, List.getLast?_concat, hname.slashEnded_join hp] at h
  obtain ⟨here, hstart, h⟩ := bind_eq_ok.mp h
  obtain ⟨⟨left, directory⟩, hwalk, h⟩ := bind_eq_ok.mp h
  obtain ⟨place, hplace, hentry⟩ := bind_eq_ok.mp h
  obtain ⟨hwalk, hdir⟩ := walkToDirectory_eq_ok.mp hwalk
  obtain ⟨dir, rfl, rfl, -⟩ := placeOf_eq_ok hplace
  obtain ⟨hcheck, hhere⟩ := start_eq_ok.mp hstart
  have hstart' : t.start p = .ok here := by
    refine start_eq_ok.mpr ⟨checkPath_of_join hp hname.isAbsolute hcheck, ?_⟩
    rw [hhere, Path.isAbsolute_join hp hname.isAbsolute]
  exact ⟨dir, resolve_of_directory hstart' hwalk hdir, (pure_eq_ok.mp hentry).symm⟩

/-- What is there under the name that a path ends with. -/
lemma entryAt?_join (hp : p.text ≠ "") (hname : ValidName name) {node : Node}
    (h : t.entryAt? (p.join name) = .ok node) :
    ∃ dir, t.resolve p = .ok (.inTree dir) ∧
      t.spot (p.join name) = .ok (.entry (⟨name, hname⟩ :: dir) false) ∧
      t.find? (⟨name, hname⟩ :: dir) = some node := by
  obtain ⟨spot, hspot, -⟩ := bind_eq_ok.mp h
  obtain ⟨dir, hresolve, rfl⟩ := spot_join hp hname hspot
  exact ⟨dir, hresolve, hspot, find?_of_entryAt? hspot h⟩

/-- A path that ends with the name of a file or a directory leads to it. -/
lemma resolve_join (hp : p.text ≠ "") (hname : ValidName name) {node : Node}
    (h : t.entryAt? (p.join name) = .ok node) (hlink : node.kind ≠ .link) {dir : Place}
    (hdir : t.resolve p = .ok (.inTree dir)) :
    t.resolve (p.join name) = .ok (.inTree (⟨name, hname⟩ :: dir)) := by
  obtain ⟨dir', hresolve, hspot, hfind⟩ := entryAt?_join hp hname h
  obtain rfl := place_unique hdir hresolve
  exact resolve_of_spot hspot hfind hlink

/-- What a path leads to, and what a slash at its end makes no difference to. -/
lemma exists_walk_of_resolve {there : Standpoint} (h : t.resolve p = .ok there) :
    ∃ here left, t.start p = .ok here ∧
      t.walk linkLimit here p.plainSteps = .ok (left, there) := by
  obtain ⟨here, left, hstart, hwalk⟩ := resolve_eq_ok.mp h
  refine ⟨here, left, hstart, ?_⟩
  unfold Path.steps at hwalk
  split at hwalk
  · obtain ⟨left', there', hplain, hstay⟩ := walk_append_eq_ok.mp hwalk
    rw [walk_stay_eq hstay]
    exact hplain
  · exact hwalk

/-- A path that leads on by a name to anything leads to an entry of a directory first. -/
lemma spot_of_resolve_join (hp : p.text ≠ "") (hname : ValidName name) {there : Standpoint}
    (h : t.resolve (p.join name) = .ok there) :
    ∃ dir, t.resolve p = .ok (.inTree dir) ∧
      t.spot (p.join name) = .ok (.entry (⟨name, hname⟩ :: dir) false) := by
  have hslash := hname.slashEnded_join hp
  have hplain := hname.plainSteps_join hp
  have hsteps : (p.join name).steps = p.plainSteps ++ [.down ⟨name, hname⟩] := by
    rw [Path.steps, hslash, if_neg Bool.false_ne_true, hplain]
  obtain ⟨here, left, hstart, hwalk⟩ := resolve_eq_ok.mp h
  rw [hsteps] at hwalk
  obtain ⟨halfway, directory, hfirst, hlast⟩ := walk_append_eq_ok.mp hwalk
  obtain ⟨hdir, place, hplace⟩ := placeOf_of_walk_down hlast
  have hspot : t.spot (p.join name) = .ok (.entry place false) := by
    refine spot_eq_entry.mpr ⟨here, halfway, directory, ⟨name, hname⟩, hstart, ?_, hdir, ?_, hplace,
      hslash.symm⟩
    · rw [hplain, List.dropLast_concat]
      exact hfirst
    · rw [hplain, List.getLast?_concat]
  obtain ⟨dir, hresolve, hentry⟩ := spot_join hp hname hspot
  exact ⟨dir, hresolve, hspot.trans (congrArg Except.ok hentry)⟩

/-- What it takes for something to be there under the name that a path ends with. -/
lemma entryAt?_join_iff (hp : p.text ≠ "") (hname : ValidName name) {dir : Place} {node : Node}
    (hresolve : t.resolve p = .ok (.inTree dir)) (hdir : t.isDirectory dir = true) :
    t.entryAt? (p.join name) = .ok node ↔
      checkPath (p.join name) = .ok () ∧ name.utf8ByteSize ≤ nameLimit ∧
        t.find? (⟨name, hname⟩ :: dir) = some node := by
  constructor
  · intro h
    obtain ⟨dir', hresolve', hspot, hfind⟩ := entryAt?_join hp hname h
    obtain rfl := place_unique hresolve hresolve'
    obtain ⟨here, -, directory, name', hstart, -, -, hlast, hplace, -⟩ := spot_eq_entry.mp hspot
    obtain ⟨dir', -, hentry, hsize⟩ := placeOf_eq_ok hplace
    obtain ⟨rfl, -⟩ := List.cons.inj hentry
    exact ⟨(start_eq_ok.mp hstart).1, hsize, hfind⟩
  · rintro ⟨hcheck, hsize, hfind⟩
    obtain ⟨here, left, hstart, hwalk⟩ := exists_walk_of_resolve hresolve
    have hslash := hname.slashEnded_join hp
    have hplain := hname.plainSteps_join hp
    have hplace : placeOf (.inTree dir) ⟨name, hname⟩ = .ok (⟨name, hname⟩ :: dir) := by
      rw [placeOf, if_neg (Nat.not_lt.mpr hsize)]
    have hspot : t.spot (p.join name) = .ok (.entry (⟨name, hname⟩ :: dir) false) := by
      refine spot_eq_entry.mpr ⟨here, left, .inTree dir, ⟨name, hname⟩, ?_, ?_, hdir, ?_, hplace,
        hslash.symm⟩
      · refine start_eq_ok.mpr ⟨hcheck, ?_⟩
        rw [Path.isAbsolute_join hp hname.isAbsolute]
        exact (start_eq_ok.mp hstart).2
      · rw [hplain, List.dropLast_concat]
        exact hwalk
      · rw [hplain, List.getLast?_concat]
    simp [entryAt?, hspot, hfind, bind, Except.bind, pure, Except.pure]

/-! ## Listings -/

lemma lookup_of_mem {α β : Type} [BEq α] [LawfulBEq α] {l : List (α × β)}
    (hnodup : (l.map Prod.fst).Nodup) {a : α} {b : β} (h : (a, b) ∈ l) : l.lookup a = some b := by
  obtain ⟨before, after, rfl⟩ := List.append_of_mem h
  refine List.lookup_eq_some_iff.mpr ⟨before, after, rfl, fun e he => ?_⟩
  rw [List.map_append, List.nodup_append] at hnodup
  rw [bne_iff_ne]
  exact (hnodup.2.2 e.1 (List.mem_map_of_mem he) a (by simp)).symm

lemma find?_of_mem_entries {place : Place} {node : Node} (hplace : place ≠ [])
    (h : (place, node) ∈ t.entries) : t.find? place = some node := by
  cases place with
  | nil => exact absurd rfl hplace
  | cons name dir => exact lookup_of_mem t.nodup h

lemma mem_children {dir : Place} {name : Name} {node : Node}
    (h : t.find? (name :: dir) = some node) : (name, node) ∈ t.children dir := by
  obtain ⟨before, after, hentries, -⟩ := List.lookup_eq_some_iff.mp h
  refine List.mem_filterMap.mpr ⟨(name :: dir, node), by simp [hentries], ?_⟩
  simp

lemma find?_of_mem_children {dir : Place} {name : Name} {node : Node}
    (h : (name, node) ∈ t.children dir) : t.find? (name :: dir) = some node := by
  obtain ⟨⟨place, node'⟩, hentry, hname⟩ := List.mem_filterMap.mp h
  cases place with
  | nil => simp at hname
  | cons first parent =>
    simp only [Option.ite_none_right_eq_some, Option.some.injEq, Prod.mk.injEq] at hname
    obtain ⟨rfl, rfl, rfl⟩ := hname
    exact find?_of_mem_entries (List.cons_ne_nil _ _) hentry

/-- A directory under the name that a path ends with can be listed if it does not refuse to. -/
lemma isListable_join (hp : p.text ≠ "") (hname : ValidName name)
    (h : t.entryAt? (p.join name) = .ok (.directory true)) : t.isListable (p.join name) = true := by
  obtain ⟨dir, -, hspot, hfind⟩ := entryAt?_join hp hname h
  have hresolve := resolve_of_spot hspot hfind (by simp [Node.kind])
  simp [isListable, listDirectory, hresolve, findAt?, hfind, bind, Except.bind, pure, Except.pure,
    Except.isOk, Except.toBool]

/-- What can be looked up in a directory is in its listing. -/
lemma mem_listDirectory (hp : p.text ≠ "") (hname : ValidName name) {node : Node}
    (h : t.entryAt? (p.join name) = .ok node) {entries : List Entry}
    (hlist : t.listDirectory p = .ok entries) : ⟨⟨name, hname⟩, node.kind⟩ ∈ entries := by
  obtain ⟨dir, hresolve, -, hfind⟩ := entryAt?_join hp hname h
  unfold listDirectory at hlist
  simp only [hresolve, bind, Except.bind, findAt?] at hlist
  split at hlist
  · simp only [pure, Except.pure, Except.ok.injEq] at hlist
    rw [← hlist, List.mem_mergeSort]
    exact List.mem_map_of_mem (mem_children hfind)
  · simp at hlist
  · simp at hlist

/-- The listing of a directory says of what kind its entries are. -/
lemma kind_of_mem_listDirectory (hp : p.text ≠ "") (hname : ValidName name) {node : Node}
    (h : t.entryAt? (p.join name) = .ok node) {entries : List Entry}
    (hlist : t.listDirectory p = .ok entries) {kind : Kind}
    (hentry : ⟨⟨name, hname⟩, kind⟩ ∈ entries) : kind = node.kind := by
  obtain ⟨dir, hresolve, -, hfind⟩ := entryAt?_join hp hname h
  unfold listDirectory at hlist
  simp only [hresolve, bind, Except.bind, findAt?] at hlist
  split at hlist
  · simp only [pure, Except.pure, Except.ok.injEq] at hlist
    rw [← hlist, List.mem_mergeSort] at hentry
    obtain ⟨⟨name', node'⟩, hchild, heq⟩ := List.mem_map.mp hentry
    simp only [Entry.mk.injEq] at heq
    obtain ⟨rfl, rfl⟩ := heq
    have hfind' := find?_of_mem_children hchild
    rw [hfind, Option.some.injEq] at hfind'
    rw [hfind']
  · simp at hlist
  · simp at hlist

lemma checkPath_of_isListable (h : t.isListable p = true) : checkPath p = .ok () := by
  obtain ⟨entries, hlist⟩ := listed_of_isListable h
  obtain ⟨standpoint, hresolve, -⟩ := bind_eq_ok.mp hlist
  obtain ⟨here, left, hstart, -⟩ := resolve_eq_ok.mp hresolve
  exact (start_eq_ok.mp hstart).1

lemma size_lt_of_isListable (h : t.isListable p = true) : p.text.utf8ByteSize < pathLimit :=
  (checkPath_eq_ok.mp (checkPath_of_isListable h)).2.2

end Join

end Tree

end ChangeTracking
