import ChangeTracking.Proofs.Listings
import ChangeTracking.Proofs.MapFiles
import ChangeTracking.Walk

/-!
# Walks while files grow

When files of a tree grow and nothing else changes in it (`Tree.GrowsTo`), paths lead where they led
before, and directories have the same listings.  So a walk that is stopped and goes on in the grown
tree comes to the same files in the same order, and is in the same place after each of them; only
the sizes that it reads may be larger (`Walker.next_growsTo`).  What a walk passes on its way, in
however many steps (`Walker.Passes`), it passes in the grown tree as well.
-/

namespace ChangeTracking

open Walk

/-- What may have become of an entry when files were written to. -/
inductive Node.GrowsTo : Node → Node → Prop
  | file {c c' : Contents} (hsize : c.size ≤ c'.size) : GrowsTo (.file c) (.file c')
  | same (node : Node) : GrowsTo node node

namespace Node.GrowsTo

variable {node node' : Node}

lemma trans {node'' : Node} (h : node.GrowsTo node') (h' : node'.GrowsTo node'') :
    node.GrowsTo node'' := by
  cases h with
  | same => exact h'
  | file hsize =>
    cases h' with
    | same => exact .file hsize
    | file hsize' => exact .file (hsize.trans hsize')

lemma kind_eq (h : node.GrowsTo node') : node'.kind = node.kind := by
  cases h <;> rfl

lemma size_le (h : node.GrowsTo node') : Tree.nodeSize node ≤ Tree.nodeSize node' := by
  cases h with
  | file hsize => exact hsize
  | same => exact le_rfl

end Node.GrowsTo

/-- `t'` has the same entries as `t`, and files in it may have grown. -/
structure Tree.GrowsTo (t t' : Tree) : Prop where
  working : t'.working = t.working
  find? : ∀ place, Option.Rel Node.GrowsTo (t.find? place) (t'.find? place)

namespace Tree

variable {t t' : Tree}

/-- Two lookups have failed in the same way, or have come to an entry and what became of it. -/
inductive Finds : Except FileError Node → Except FileError Node → Prop
  | error (e : FileError) : Finds (.error e) (.error e)
  | ok {node node' : Node} (hnode : node.GrowsTo node') : Finds (.ok node) (.ok node')

/-- The entry that a lookup has come to, if there is one. -/
def found : Option Node → Except FileError Node
  | some node => .ok node
  | none => .error .notFound

lemma Finds.of_rel {a b : Option Node} (h : Option.Rel Node.GrowsTo a b) :
    Finds (found a) (found b) := by
  cases h with
  | none => exact .error .notFound
  | some hnode => exact .ok hnode

lemma entryAt?_eq (t : Tree) (p : Path) :
    t.entryAt? p = t.spot p >>= fun
      | .entry place false => found (t.find? place)
      | _ => t.resolve p >>= fun there => found (t.findAt? there) := by
  have hfound : ∀ found? : Option Node, (match found? with
      | some node => Except.ok node
      | none => .error .notFound) = found found? := by
    intro found?
    cases found? <;> rfl
  unfold entryAt?
  cases t.spot p with
  | error e => rfl
  | ok spot =>
    cases spot with
    | entry place slash =>
      cases slash with
      | false => exact hfound (t.find? place)
      | true =>
        cases t.resolve p with
        | error e => rfl
        | ok there => exact hfound (t.findAt? there)
    | same | around | root =>
      cases t.resolve p with
      | error e => rfl
      | ok there => exact hfound (t.findAt? there)

namespace GrowsTo

@[refl] lemma refl (t : Tree) : t.GrowsTo t where
  working := rfl
  find? place := by
    cases t.find? place with
    | none => exact .none
    | some node => exact .some (.same node)

lemma trans {t'' : Tree} (h : t.GrowsTo t') (h' : t'.GrowsTo t'') : t.GrowsTo t'' where
  working := h'.working.trans h.working
  find? place := by
    have hfirst := h.find? place
    have hsecond := h'.find? place
    generalize t.find? place = a, t'.find? place = b, t''.find? place = c at hfirst hsecond ⊢
    cases hfirst with
    | none =>
      cases hsecond
      exact .none
    | some hnode =>
      cases hsecond with
      | some hnode' => exact .some (hnode.trans hnode')

variable (h : t.GrowsTo t')

include h

/-! ## Paths -/

lemma isDirectory_eq (place : Place) : t'.isDirectory place = t.isDirectory place := by
  have hfind := h.find? place
  unfold isDirectory
  generalize t.find? place = a, t'.find? place = b at hfind ⊢
  cases hfind with
  | none => rfl
  | some hnode => cases hnode <;> rfl

lemma isDirectoryAt_eq (standpoint : Standpoint) :
    t'.isDirectoryAt standpoint = t.isDirectoryAt standpoint := by
  cases standpoint with
  | inTree place => exact h.isDirectory_eq place
  | removed around => rfl

lemma findAt? (standpoint : Standpoint) :
    Option.Rel Node.GrowsTo (t.findAt? standpoint) (t'.findAt? standpoint) := by
  cases standpoint with
  | inTree place => exact h.find? place
  | removed around => exact .some (.same _)

lemma walkWith_eq (links : Nat)
    (follow : Standpoint → List Step → Except FileError (Nat × Standpoint)) (here : Standpoint)
    (steps : List Step) :
    t'.walkWith links follow here steps = t.walkWith links follow here steps := by
  induction steps generalizing here with
  | nil => rfl
  | cons step rest ih =>
    simp only [walkWith, h.isDirectoryAt_eq]
    split
    · cases step with
      | stay => exact ih here
      | up => exact ih here.around
      | down name =>
        dsimp only
        cases placeOf here name with
        | error e => rfl
        | ok place =>
          have hfind := h.find? place
          dsimp only
          generalize t.find? place = a, t'.find? place = b at hfind ⊢
          cases hfind with
          | none => rfl
          | @some node node' hnode =>
            cases hnode with
            | file hsize => exact ih (.inTree place)
            | same =>
              cases node with
              | link target => rfl
              | file | directory => exact ih (.inTree place)
    · rfl

lemma walk_eq (links : Nat) : t'.walk links = t.walk links := by
  induction links with
  | zero =>
    funext here steps
    exact h.walkWith_eq 0 _ here steps
  | succ links ih =>
    funext here steps
    rw [walk, walk, ih]
    exact h.walkWith_eq (links + 1) _ here steps

lemma start_eq (p : Path) : t'.start p = t.start p := by
  rw [start, start, h.working]

lemma resolve_eq (p : Path) : t'.resolve p = t.resolve p := by
  simp only [resolve, h.start_eq, h.walk_eq]

lemma leadsSomewhere_eq (p : Path) : t'.leadsSomewhere p = t.leadsSomewhere p := by
  rw [leadsSomewhere, leadsSomewhere, h.resolve_eq]

lemma spot_eq (p : Path) : t'.spot p = t.spot p := by
  simp only [spot, walkToDirectory, h.start_eq, h.walk_eq, h.isDirectoryAt_eq]

/-- What a path names is there in both trees or in neither. -/
lemma entryAt? (p : Path) : Finds (t.entryAt? p) (t'.entryAt? p) := by
  have hresolved : Finds (t.resolve p >>= fun there => found (t.findAt? there))
      (t'.resolve p >>= fun there => found (t'.findAt? there)) := by
    rw [h.resolve_eq]
    cases t.resolve p with
    | error e => exact .error e
    | ok there => exact .of_rel (h.findAt? there)
  rw [entryAt?_eq, entryAt?_eq, h.spot_eq]
  cases t.spot p with
  | error e => exact .error e
  | ok spot =>
    cases spot with
    | entry place slash =>
      cases slash with
      | false => exact .of_rel (h.find? place)
      | true => exact hresolved
    | same | around | root => exact hresolved

/-! ## Listings -/

/-- A directory has the same entries in both trees, of the same kinds. -/
lemma mem_entriesAt (dir : Place) (e : Entry) :
    e ∈ t'.entriesAt dir ↔ e ∈ t.entriesAt dir := by
  have hfind := h.find? (e.name :: dir)
  rw [mem_entriesAt_iff, mem_entriesAt_iff]
  generalize t.find? (e.name :: dir) = a, t'.find? (e.name :: dir) = b at hfind ⊢
  cases hfind with
  | none => simp
  | some hnode => simp [hnode.kind_eq]

lemma listDirectory_eq (p : Path) : t'.listDirectory p = t.listDirectory p := by
  unfold listDirectory
  rw [h.resolve_eq]
  cases t.resolve p with
  | error e => rfl
  | ok standpoint =>
    cases standpoint with
    | removed around => rfl
    | inTree dir =>
      have hfind := h.find? dir
      have hsorted := sorted_eq (h.mem_entriesAt dir)
      dsimp only [bind, Except.bind, Tree.findAt?, childrenAt]
      generalize t.find? dir = a, t'.find? dir = b at hfind ⊢
      cases hfind with
      | none => rfl
      | @some node node' hnode =>
        cases hnode with
        | file hsize => rfl
        | same =>
          cases node with
          | file | link => rfl
          | directory readable =>
            cases readable with
            | false => rfl
            | true => exact congrArg Except.ok hsorted

end GrowsTo

/-- Writing to a file makes it grow. -/
lemma growsTo_put {t : Tree} {place : Place} (hplace : place ≠ []) {node node' : Node}
    (hfind : t.find? place = some node) (hnode : node.GrowsTo node') :
    t.GrowsTo (t.put place node') where
  working := rfl
  find? other := by
    rw [find?_put hplace]
    split
    · next heq =>
      rw [heq, hfind]
      exact .some hnode
    · exact (GrowsTo.refl t).find? other

end Tree

/-! ## Steps of a walk -/

/-- What may have become of a segment file when files were written to: it may be larger. -/
structure Segment.GrowsTo (f f' : Segment) : Prop where
  same : f' = { f with size := f'.size }
  size : f.size ≤ f'.size

namespace Segment.GrowsTo

variable {f f' : Segment}

lemma trans {f'' : Segment} (h : f.GrowsTo f') (h' : f'.GrowsTo f'') : f.GrowsTo f'' where
  same := by rw [h'.same, h.same]
  size := h.size.trans h'.size

end Segment.GrowsTo

/-- What a walk does about an entry when files have grown. -/
inductive Walk.Finding.GrowsTo : Finding → Finding → Prop
  | skip : GrowsTo .skip .skip
  | file {f f' : Segment} (hf : f.GrowsTo f') : GrowsTo (.file f) (.file f')
  | enter (context : Context) : GrowsTo (.enter context) (.enter context)

/-- The same place of a walk with a file that may have grown. -/
def Walker.GrowsFirst {α : Type} (a b : Segment × α) : Prop := a.1.GrowsTo b.1 ∧ b.2 = a.2

lemma Walker.GrowsFirst.map {α β : Type} {a b : Segment × α} (h : GrowsFirst a b) (g : α → β) :
    GrowsFirst (a.1, g a.2) (b.1, g b.2) :=
  ⟨h.1, congrArg g h.2⟩

section Walks

variable {t t' : Tree} (h : t.GrowsTo t') (version : String)

include h

lemma listed_eq (dir : Path) : listed t' dir = listed t dir := by
  rw [listed, listed, h.listDirectory_eq]

lemma lookAt_growsTo (dir : Path) (context : Context) (e : Tree.Entry) :
    (lookAt t version dir context e).GrowsTo (lookAt t' version dir context e) := by
  unfold lookAt
  dsimp only
  split
  · exact .skip
  · split
    · split
      · have hentry := h.entryAt? (dir.join e.name.val)
        generalize t.entryAt? (dir.join e.name.val) = a, t'.entryAt? (dir.join e.name.val) = b
          at hentry ⊢
        cases hentry with
        | error => cases Layout.FileName.read? e.name.val <;> exact .skip
        | ok hnode =>
          cases Layout.FileName.read? e.name.val with
          | none => exact .skip
          | some n => exact .file ⟨rfl, hnode.size_le⟩
      · exact .skip
    · split
      · exact .enter _
      · exact .skip

namespace Walker

lemma search_growsTo {inside inside' : Path → Context → Found}
    (hinside : ∀ dir context, Option.Rel GrowsFirst (inside dir context) (inside' dir context))
    (room : Nat) (dir : Path) (context : Context) (entries : List Tree.Entry) :
    Option.Rel GrowsFirst (search t version inside room dir context entries)
      (search t' version inside' room dir context entries) := by
  induction entries with
  | nil => exact .none
  | cons e rest ih =>
    have hlook := lookAt_growsTo h version dir context e
    unfold search
    generalize lookAt t version dir context e = a, lookAt t' version dir context e = b at hlook ⊢
    cases hlook with
    | skip => exact ih
    | file hf => exact .some ⟨hf, rfl⟩
    | enter inner =>
      have hin := hinside (dir.join e.name.val) inner
      dsimp only
      generalize inside (dir.join e.name.val) inner = c, inside' (dir.join e.name.val) inner = d
        at hin ⊢
      cases hin with
      | none => exact ih
      | some hfound => exact .some (hfound.map (· ++ [⟨dir, context, rest, room⟩]))

lemma searchDirectory_growsTo (room : Nat) (dir : Path) (context : Context) :
    Option.Rel GrowsFirst (searchDirectory t version room dir context)
      (searchDirectory t' version room dir context) := by
  induction room generalizing dir context with
  | zero => exact .none
  | succ room ih =>
    rw [searchDirectory, searchDirectory, listed_eq h]
    exact search_growsTo h version ih room dir context (listed t dir)

lemma resume_growsTo (stack : List Level) :
    Option.Rel GrowsFirst (resume t version stack) (resume t' version stack) := by
  induction stack with
  | nil => exact .none
  | cons level outer ih =>
    have hlevel := search_growsTo h version (searchDirectory_growsTo h version level.room)
      level.room level.dir level.context level.entries
    unfold resume
    generalize search t version (searchDirectory t version level.room) level.room level.dir
        level.context level.entries = a, search t' version (searchDirectory t' version level.room)
        level.room level.dir level.context level.entries = b at hlevel ⊢
    cases hlevel with
    | none => exact ih
    | some hfound => exact .some (hfound.map (· ++ outer))

lemma searchRoots_growsTo (roots : List Root) :
    Option.Rel GrowsFirst (searchRoots t version roots) (searchRoots t' version roots) := by
  induction roots with
  | nil => exact .none
  | cons r rest ih =>
    have hroot := searchDirectory_growsTo h version (roomFor r.path) r.path r.context
    unfold searchRoots
    rw [h.leadsSomewhere_eq]
    split
    · generalize searchDirectory t version (roomFor r.path) r.path r.context = a,
        searchDirectory t' version (roomFor r.path) r.path r.context = b at hroot ⊢
      cases hroot with
      | none => exact ih
      | some hfound => exact .some (hfound.map (·, rest))
    · exact ih

/-- A walk that goes on after files have grown comes to the same file, and to the same place. -/
theorem next_growsTo (w : Walker) : Option.Rel GrowsFirst (w.next t) (w.next t') := by
  have hresume := resume_growsTo h w.version w.stack
  have hroots := searchRoots_growsTo h w.version w.roots
  unfold next
  generalize resume t w.version w.stack = a, resume t' w.version w.stack = b at hresume ⊢
  cases hresume with
  | some hfound => exact .some (hfound.map fun stack => { w with stack := stack })
  | none =>
    dsimp only
    generalize searchRoots t w.version w.roots = c, searchRoots t' w.version w.roots = d
      at hroots ⊢
    cases hroots with
    | none => exact .none
    | some hfound => exact .some (hfound.map fun found => Walker.mk w.version found.1 found.2)

end Walker

end Walks

namespace Walker

/-! ## Ways -/

/-- The walk comes from one place to another by the given files. -/
inductive Passes (t : Tree) : Walker → List Segment → Walker → Prop
  | refl (w : Walker) : Passes t w [] w
  | step {w w₁ w₂ : Walker} {f : Segment} {files : List Segment} (hnext : w.next t = some (f, w₁))
      (hrest : Passes t w₁ files w₂) : Passes t w (f :: files) w₂

variable {t t' : Tree} {w w' : Walker} {files : List Segment}

lemma Passes.segments_eq (h : Passes t w files w') :
    w.segments t = files ++ w'.segments t := by
  induction h with
  | refl w => rfl
  | step hnext _ ih => rw [next_eq_some hnext, ih, List.cons_append]

/-- There is a way through all that is left of a walk. -/
lemma exists_passes (t : Tree) (w : Walker) :
    ∃ w', Passes t w (w.segments t) w' ∧ w'.next t = none := by
  induction hfiles : w.segments t generalizing w with
  | nil => exact ⟨w, .refl w, next_eq_none_iff.mpr hfiles⟩
  | cons f files ih =>
    cases hnext : w.next t with
    | none =>
      rw [next_eq_none_iff.mp hnext] at hfiles
      cases hfiles
    | some found =>
      obtain ⟨f', w₁⟩ := found
      have hsegments := next_eq_some hnext
      rw [hfiles, List.cons.injEq] at hsegments
      obtain ⟨rfl, hrest⟩ := hsegments
      obtain ⟨w', hpasses, hend⟩ := ih w₁ hrest.symm
      exact ⟨w', .step hnext hpasses, hend⟩

/-- A way is the same after files have grown. -/
lemma Passes.growsTo (hpasses : Passes t w files w') (h : t.GrowsTo t') :
    ∃ files', List.Forall₂ Segment.GrowsTo files files' ∧ Passes t' w files' w' := by
  induction hpasses with
  | refl w => exact ⟨[], .nil, .refl w⟩
  | @step w w₁ w₂ f files hnext _ ih =>
    have hnext' := next_growsTo h w
    rw [hnext] at hnext'
    generalize hfound : w.next t' = found at hnext'
    cases hnext' with
    | @some _ found hfirst =>
      obtain ⟨f', w₁'⟩ := found
      obtain ⟨hf, rfl⟩ := hfirst
      obtain ⟨files', hfiles, hrest⟩ := ih
      exact ⟨f' :: files', .cons hf hfiles, .step hfound hrest⟩

/-- What is left of a walk is the same after files have grown. -/
lemma segments_growsTo (h : t.GrowsTo t') (w : Walker) :
    List.Forall₂ Segment.GrowsTo (w.segments t) (w.segments t') := by
  obtain ⟨w', hpasses, hend⟩ := exists_passes t w
  obtain ⟨files', hfiles, hpasses'⟩ := hpasses.growsTo h
  have hend' : w'.next t' = none := by
    have hnext := next_growsTo h w'
    rw [hend] at hnext
    generalize w'.next t' = found at hnext
    cases hnext
    rfl
  rwa [hpasses'.segments_eq, next_eq_none_iff.mp hend', List.append_nil]

end Walker

end ChangeTracking
