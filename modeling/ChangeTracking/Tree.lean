import ChangeTracking.Bytes.LittleEndian
import ChangeTracking.Error
import ChangeTracking.Path

/-!
# Directory trees

A tree of named files, directories and symbolic links, as a value.  It is kept flat: a finite map
from places to what is there, where a place is the list of names from the entry up to the root.  The
root is always a directory and is not listed.  An entry whose parent is not a directory cannot be
reached by any path, so nothing has to be said about parents.

Relative paths start at the current directory.  It may be removed from the tree; it is then a
directory still, but one without entries that takes none.  A `Standpoint` is either.

A file's contents are bytes followed by a hole, that is, by zero bytes of which only the number is
kept; files of many gigabytes take no room that way.

The system may refuse what the entries allow: a file or a directory may not be readable, and a
modification in a directory may be refused there (`Tree.refusal?`), for want of rights or of room, or
because the medium fails.
-/

namespace ChangeTracking

/-- What a directory may call an entry: a text other than the two names that have a meaning of their
own, and without slashes. -/
def ValidName (s : String) : Prop :=
  s ≠ "" ∧ s ≠ "." ∧ s ≠ ".." ∧ '/' ∉ s.toList

instance (s : String) : Decidable (ValidName s) :=
  inferInstanceAs (Decidable (_ ∧ _ ∧ _ ∧ _))

/-- The name of an entry in a directory. -/
abbrev Name := { s : String // ValidName s }

/-- The name of that text, where the check of the text computes. -/
abbrev Name.ofText (s : String) (h : decide (ValidName s) = true := by exact .refl true) : Name :=
  ⟨s, of_decide_eq_true h⟩

/-- Where an entry is: its own name first, and the names of the directories around it after that, up
to the root. -/
abbrev Place := List Name

/-- The contents of a file: bytes, and the number of zero bytes after them. -/
structure Contents where
  bytes : Bytes
  hole : Nat
  /-- Whether they can be read. -/
  readable : Bool := true
  deriving DecidableEq

namespace Contents

/-- Contents without a hole. -/
def ofBytes (bytes : Bytes) : Contents := { bytes := bytes, hole := 0 }

/-- Contents of zero bytes only. -/
def zeros (size : Nat) : Contents := { bytes := [], hole := size }

/-- The number of bytes, those of the hole included. -/
def size (c : Contents) : Nat := c.bytes.length + c.hole

/-- At most `limit` of the bytes from the start on. -/
def firstBytes (limit : Nat) (c : Contents) : Bytes :=
  c.bytes.take limit ++ List.replicate (min c.hole (limit - c.bytes.length)) 0

/-- All bytes, those of the hole included. -/
def toBytes (c : Contents) : Bytes := c.bytes ++ List.replicate c.hole 0

end Contents

/-- What is at a place. -/
inductive Node
  | file (contents : Contents)
  /-- A directory, which may refuse to be listed. -/
  | directory (readable : Bool)
  /-- A symbolic link, with the text of the path that it stands for. -/
  | link (target : String)
  deriving DecidableEq

/-- The kinds of entries of a directory. -/
inductive Kind
  | file
  | directory
  | link
  deriving DecidableEq

/-- The kind of an entry. -/
def Node.kind : Node → Kind
  | file _ => .file
  | directory _ => .directory
  | link _ => .link

/-- Where a path starts, and where it leads to. -/
inductive Standpoint
  | inTree (place : Place)
  /-- A directory that was removed; `around` is where the one around it is. -/
  | removed (around : Place)
  deriving DecidableEq

namespace Standpoint

/-- The root of the tree. -/
def root : Standpoint := inTree []

/-- The directory around this one; of the root, the root. -/
def around : Standpoint → Standpoint
  | inTree place => inTree place.tail
  | removed around => inTree around

/-- What becomes of a standpoint when the place `p` and all that is below it are removed. -/
def withoutPlace (p : Place) : Standpoint → Standpoint
  | inTree place => if p.isSuffixOf place then removed p.tail else inTree place
  | removed around => if p.isSuffixOf around then removed p.tail else removed around

end Standpoint

/-- What may be modified in a directory. -/
inductive Modification
  /-- A new file is made. -/
  | make
  /-- A new file is written. -/
  | write (contents : Contents)
  /-- A file is moved to a name, and takes the place of what had it. -/
  | replace
  /-- A file or link is removed, other than a new one by who has made it. -/
  | remove

/-- A directory tree, with a current directory from which relative paths start. -/
structure Tree where
  entries : List (Place × Node)
  /-- The current directory. -/
  working : Standpoint
  /-- Why the system refuses a modification in the directory at a place, if it does. -/
  refusal? : Modification → Place → Option FileError := fun _ _ => none
  /-- There is at most one entry at a place. -/
  nodup : (entries.map Prod.fst).Nodup

namespace Tree

/-- The tree without entries. -/
def empty : Tree where
  entries := []
  working := .root
  nodup := List.nodup_nil

instance : Inhabited Tree := ⟨empty⟩

/-- What is at a place. -/
def find? (t : Tree) : Place → Option Node
  | [] => some (.directory true)
  | p => t.entries.lookup p

/-- Whether there is a directory at a place. -/
def isDirectory (t : Tree) (p : Place) : Bool :=
  match t.find? p with
  | some (.directory _) => true
  | _ => false

/-- What is at a standpoint. -/
def findAt? (t : Tree) : Standpoint → Option Node
  | .inTree p => t.find? p
  | .removed _ => some (.directory true)

/-- Whether there is a directory at a standpoint. -/
def isDirectoryAt (t : Tree) : Standpoint → Bool
  | .inTree p => t.isDirectory p
  | .removed _ => true

/-- The entries of the directory at a place, in no particular order. -/
def children (t : Tree) (p : Place) : List (Name × Node) :=
  t.entries.filterMap fun
    | (name :: parent, node) => if parent = p then some (name, node) else none
    | ([], _) => none

/-- The entries of the directory at a standpoint. -/
def childrenAt (t : Tree) : Standpoint → List (Name × Node)
  | .inTree p => t.children p
  | .removed _ => []

/-- The path from the root to the current directory, as long as it is in the tree. -/
def workingPath? (t : Tree) : Option Path :=
  match t.working with
  | .inTree p => some (.ofComponents (.root :: p.reverse.map fun name => .name name.val))
  | .removed _ => none

/-- The entries with another one at place `p`. -/
def putEntry (p : Place) (node : Node) : List (Place × Node) → List (Place × Node)
  | [] => [(p, node)]
  | (q, other) :: rest => if q = p then (p, node) :: rest else (q, other) :: putEntry p node rest

theorem mem_keys_putEntry {p q : Place} {node : Node} {entries : List (Place × Node)} :
    q ∈ (putEntry p node entries).map Prod.fst ↔ q = p ∨ q ∈ entries.map Prod.fst := by
  induction entries with
  | nil => simp [putEntry]
  | cons e rest ih =>
    obtain ⟨r, other⟩ := e
    by_cases h : r = p
    · subst h; simp [putEntry]
    · simp only [putEntry, if_neg h, List.map_cons, List.mem_cons, ih]
      constructor
      · rintro (h | h | h) <;> simp [h]
      · rintro (h | h | h) <;> simp [h]

theorem nodup_putEntry {p : Place} {node : Node} {entries : List (Place × Node)}
    (h : (entries.map Prod.fst).Nodup) : ((putEntry p node entries).map Prod.fst).Nodup := by
  induction entries with
  | nil => simp [putEntry]
  | cons e rest ih =>
    obtain ⟨q, other⟩ := e
    simp only [List.map_cons, List.nodup_cons] at h
    by_cases hq : q = p
    · subst hq; simpa [putEntry] using h
    · simp only [putEntry, if_neg hq, List.map_cons, List.nodup_cons, mem_keys_putEntry, not_or]
      exact ⟨⟨hq, h.1⟩, ih h.2⟩

/-- The tree with `node` at place `p`, instead of what was there. -/
def put (t : Tree) (p : Place) (node : Node) : Tree :=
  { t with entries := putEntry p node t.entries, nodup := nodup_putEntry t.nodup }

/-- The tree without the entry at place `p` and without all that is below it. -/
def remove (t : Tree) (p : Place) : Tree :=
  { t with
    entries := t.entries.filter fun e => !p.isSuffixOf e.1
    working := t.working.withoutPlace p
    nodup := t.nodup.sublist (List.filter_sublist.map _) }

end Tree

end ChangeTracking
