import ChangeTracking.Block.Hash
import ChangeTracking.Error
import ChangeTracking.Lsn

/-!
# Change maps

A change map remembers for every block when it last changed, in a fixed number of slots.  A block's
slot follows from its hash, blocks that meet in a slot share it, and a slot holds the latest
position that any of them was marked at.  So the map may report a block that did not change and
never misses one that did.

The map also knows since when it has been watching (its *epoch*).  A map that was replaced by
another is no longer `valid`; whoever still holds it must not trust it.
-/

namespace ChangeTracking

/-- Bytes of memory for a slot. -/
def slotBytes : Nat := 8

/-- The largest map, in bytes. -/
def mapBytesLimit : Nat := 32 * 1024 * 1024 * 1024

/-- The largest map, in slots. -/
def slotLimit : Nat := mapBytesLimit / slotBytes

/-- A map of changes: a slot for each value that a block's hash can leave. -/
structure ChangeMap where
  /-- The latest change of the blocks of each slot, `Lsn.never` where none was marked. -/
  slots : Array Lsn
  /-- The position since which changes are recorded, `Lsn.never` until it is known. -/
  epoch : Lsn
  /-- Whether this is still the map that changes are recorded in. -/
  valid : Bool
  /-- Every block has a slot. -/
  slots_pos : 0 < slots.size
  /-- The number of slots fits what an image can declare. -/
  slots_le : slots.size ≤ slotLimit

/-- What sizes in bytes a map can have: room for a slot at least, and no more than the limit. -/
abbrev GoodMapSize (bytes : UInt64) : Prop :=
  slotBytes ≤ bytes.toNat ∧ bytes.toNat ≤ mapBytesLimit

/-- The number of slots for a map of the given size in bytes. -/
def slotsFor (bytes : UInt64) : Except Error Nat :=
  if GoodMapSize bytes then .ok (bytes.toNat / slotBytes) else .error (.invalidMapSize bytes)

namespace ChangeMap

/-- A valid map of empty slots. -/
def empty (count : Nat) (epoch : Lsn) (h : 0 < count ∧ count ≤ slotLimit) : ChangeMap where
  slots := Array.replicate count Lsn.never
  epoch := epoch
  valid := true
  slots_pos := by simpa using h.1
  slots_le := by simpa using h.2

instance : Inhabited ChangeMap := ⟨empty 1 Lsn.never (by decide)⟩

/-- A new map of the given size in bytes whose epoch starts at the given position. -/
def create (bytes : UInt64) (epoch : Lsn) : Except Error ChangeMap :=
  if h : GoodMapSize bytes then
    .ok (empty (bytes.toNat / slotBytes) epoch
      ⟨Nat.div_pos h.1 (by decide), Nat.div_le_div_right h.2⟩)
  else .error (.invalidMapSize bytes)

/-- The number of slots. -/
def slotCount (m : ChangeMap) : Nat := m.slots.size

/-- The size in bytes. -/
def capacity (m : ChangeMap) : Nat := m.slotCount * slotBytes

/-- The slot of a block. -/
def slotOf (m : ChangeMap) (b : Block) : Nat := b.slotIn m.slots.size

theorem slotOf_lt (m : ChangeMap) (b : Block) : m.slotOf b < m.slots.size :=
  Nat.mod_lt _ m.slots_pos

/-- The latest change recorded in the block's slot. -/
def read (m : ChangeMap) (b : Block) : Lsn :=
  m.slots[Fin.mk (m.slotOf b) (m.slotOf_lt b)]

/-- Raises the block's slot to a position, unless it is there already or beyond.  The first position
ever marked also starts the epoch of a map that does not know its own.  No position marks
nothing. -/
def mark (m : ChangeMap) (b : Block) (l : Lsn) : ChangeMap :=
  if l.known then
    { m with
      slots := m.slots.modify (m.slotOf b) (Lsn.latest · l)
      epoch := if m.epoch = Lsn.never then l else m.epoch
      slots_pos := by simpa using m.slots_pos
      slots_le := by simpa using m.slots_le }
  else m

/-- Marks a block and answers with what its slot holds after that. -/
def markAndRead (m : ChangeMap) (b : Block) (l : Lsn) : Lsn × ChangeMap :=
  (if l.known then (m.read b).latest l else m.read b, m.mark b l)

/-- The map, no longer to be trusted. -/
def retire (m : ChangeMap) : ChangeMap := { m with valid := false }

/-- The number of slots that were ever marked. -/
def markedCount (m : ChangeMap) : Nat := m.slots.countP (·.known)

/-- The slots that were ever marked, with their contents. -/
def markedSlots (m : ChangeMap) : List (Nat × Lsn) :=
  (m.slots.toList.zipIdx.filter (·.1.known)).map fun (l, i) => (i, l)

end ChangeMap

end ChangeTracking
