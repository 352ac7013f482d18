import ChangeTracking.Bytes.Crc32c
import ChangeTracking.ChangeMap

/-!
# Images of change maps

A map is kept on disk as an image: a header of 36 bytes and the slots, all words least significant
byte first.

| offset | bytes | content                                                        |
|--------|-------|----------------------------------------------------------------|
| 0      | 8     | the magic word                                                 |
| 8      | 4     | the version of the format                                      |
| 12     | 4     | reserved, zero                                                 |
| 16     | 8     | the number of slots                                            |
| 24     | 8     | the start of the epoch                                         |
| 32     | 4     | CRC-32C of the 32 bytes before and of all slots                |
| 36     | 8 · n | the slots                                                      |

`toImage` writes the image and `ofImage` reads it.  Both take the slots in portions and carry the
checksum on from one to the next.  Whether a map is valid is not part of the image: a map that was
read is valid.
-/

namespace ChangeTracking.ChangeMap

/-- The first eight bytes of every image: the letters `PBKTRMAP`. -/
def magic : Bytes := [0x50, 0x42, 0x4b, 0x54, 0x52, 0x4d, 0x41, 0x50]

/-- The version of the format. -/
def imageVersion : UInt32 := 1

/-- Bytes before the slots that the checksum covers. -/
def checkedBytes : Nat := 32

/-- Bytes before the slots. -/
def headerBytes : Nat := checkedBytes + 4

/-- The number of slots that are written or read at a time. -/
def portionSlots : Nat := 8192

/-! ## Writing -/

/-- The part of the header that the checksum covers. -/
def headerImage (m : ChangeMap) : Bytes :=
  magic ++ Bytes.ofWord32 imageVersion ++ Bytes.ofWord32 0
    ++ Bytes.ofWord64 (UInt64.ofNat m.slotCount) ++ Bytes.ofWord64 m.epoch.val

/-- The image of some slots. -/
def slotsImage (slots : List Lsn) : Bytes :=
  slots.flatMap fun l => Bytes.ofWord64 l.val

/-- Slots in the portions in which they are written.  Only the last may be smaller than the
others. -/
def portions (slots : List Lsn) : List (List Lsn) :=
  if slots.isEmpty then []
  else slots.take portionSlots :: portions (slots.drop portionSlots)
  termination_by slots.length
  decreasing_by
    rename_i h
    have := List.length_pos_iff.mpr (by simpa using h : slots ≠ [])
    simp [portionSlots]
    omega

/-- The image of a map.  The portions are gone through twice, first for the checksum, which stands
before them. -/
def toImage (m : ChangeMap) : Bytes :=
  let header := m.headerImage
  let body := (portions m.slots.toList).map slotsImage
  header ++ Bytes.ofWord32 (body.foldl Crc32c.append (Crc32c.checksum header)) ++ body.flatten

/-! ## Reading -/

/-- What the header of an image says. -/
structure Header where
  version : UInt32
  slotCount : UInt64
  epoch : Lsn
  checksum : UInt32

/-- The header of an image that is long enough to have one and starts with the magic word. -/
def readHeader (image : Bytes) : Except Corruption Header :=
  let header := image.take headerBytes
  if header.length < headerBytes then .error .shortHeader
  else if header.take 8 ≠ magic then .error .badMagic
  else .ok
    { version := Bytes.word32 (header.drop 8)
      slotCount := Bytes.word64 (header.drop 16)
      epoch := ⟨Bytes.word64 (header.drop 24)⟩
      checksum := Bytes.word32 (header.drop checkedBytes) }

/-- The slots in front of `bytes`, added to those already read, as many as there are whole ones. -/
def slotsFrom (read : Array Lsn) : Bytes → Array Lsn
  | a :: b :: c :: d :: e :: f :: g :: h :: rest =>
    slotsFrom (read.push ⟨Bytes.word64 [a, b, c, d, e, f, g, h]⟩) rest
  | _ => read

/-- A place in the reading of slots: what was read so far, with the checksum up to there, and the
bytes that are still to come. -/
structure Reading where
  slots : Array Lsn
  checksum : UInt32
  rest : Bytes

/-- Before the first slot of an image. -/
def Reading.begin (image : Bytes) : Reading :=
  ⟨#[], Crc32c.checksum (image.take checkedBytes), image.drop headerBytes⟩

/-- Reads `count` slots at once; `none` if the bytes end before. -/
def Reading.portion (r : Reading) (count : Nat) : Option Reading :=
  let bytes := r.rest.take (count * slotBytes)
  if bytes.length < count * slotBytes then none
  else some
    { slots := slotsFrom r.slots bytes
      checksum := Crc32c.append r.checksum bytes
      rest := r.rest.drop (count * slotBytes) }

/-- Reads the remaining slots in portions; `none` if the bytes end before. -/
def Reading.run (remaining : Nat) (r : Reading) : Option Reading :=
  if remaining = 0 then some r
  else
    match r.portion (min remaining portionSlots) with
    | none => none
    | some next => run (remaining - min remaining portionSlots) next
  termination_by remaining
  decreasing_by
    simp [portionSlots]
    omega

theorem size_slotsFrom (read : Array Lsn) (bytes : Bytes) :
    (slotsFrom read bytes).size = read.size + bytes.length / slotBytes := by
  fun_induction slotsFrom read bytes with
  | case1 read a b c d e f g h rest ih =>
    rw [ih, Array.size_push]
    simp only [List.length_cons, slotBytes]
    omega
  | case2 bytes read hshort =>
    have hlength : bytes.length < slotBytes := by
      match bytes with
      | [] | [_] | [_, _] | [_, _, _] | [_, _, _, _] | [_, _, _, _, _] | [_, _, _, _, _, _]
      | [_, _, _, _, _, _, _] => simp [slotBytes]
      | _ :: _ :: _ :: _ :: _ :: _ :: _ :: _ :: _ => exact (hshort _ _ _ _ _ _ _ _ _ rfl).elim
    rw [Nat.div_eq_of_lt hlength, Nat.add_zero]

theorem Reading.size_portion {r next : Reading} {count : Nat} (h : r.portion count = some next) :
    next.slots.size = r.slots.size + count := by
  unfold portion at h
  dsimp only at h
  split at h
  · cases h
  · next hlong =>
    cases h
    have hlength : (r.rest.take (count * slotBytes)).length = count * slotBytes :=
      Nat.le_antisymm (List.length_take_le ..) (Nat.le_of_not_lt hlong)
    rw [size_slotsFrom, hlength, Nat.mul_div_cancel count (by decide)]

theorem Reading.size_run {r last : Reading} {remaining : Nat} (h : r.run remaining = some last) :
    last.slots.size = r.slots.size + remaining := by
  fun_induction run remaining r with
  | case1 r => simp_all
  | case2 => cases h
  | case3 remaining r hremaining next hnext ih =>
    rw [ih h, size_portion hnext]
    omega

/-- The map whose image this is.  The faults are looked for in the order in which the parts of the
image come, and the checksum last. -/
def ofImage (image : Bytes) : Except Corruption ChangeMap :=
  match readHeader image with
  | .error fault => .error fault
  | .ok header =>
    let count := header.slotCount.toNat
    if header.version ≠ imageVersion then .error (.unsupportedVersion header.version)
    else if hcount : count = 0 ∨ slotLimit < count then
      .error (.slotCountOutOfRange header.slotCount)
    else
      match hread : (Reading.begin image).run count with
      | none => .error (.shortSlotArray header.slotCount)
      | some last =>
        if !last.rest.isEmpty then .error .trailingData
        else if last.checksum ≠ header.checksum then
          .error (.checksumMismatch header.checksum last.checksum)
        else
          have hsize : last.slots.size = count := by
            simpa [Reading.begin] using Reading.size_run hread
          .ok
            { slots := last.slots
              epoch := header.epoch
              valid := true
              slots_pos := by omega
              slots_le := by omega }

/-- The number of leading bytes that decide how `ofImage` answers: the header, the slots it declares
and one more byte, which must not be there. -/
def decisiveSize (image : Bytes) : Nat :=
  match readHeader image with
  | .ok header => headerBytes + min header.slotCount.toNat slotLimit * slotBytes + 1
  | .error _ => headerBytes

end ChangeTracking.ChangeMap
