import ChangeTracking.MapFile
import ChangeTracking.Proofs.Words

/-!
# Images can be read back

The image of a map holds its slots and its epoch.  Images are written and read in portions, which
comes to the same as doing it at once (`flatten_portions`, `Reading.run_eq_portion`).  `Decodes`
says what makes a string of bytes the image of a map (`ofImage_eq_ok_iff`).

What is read from the image of a map is the same map, and valid (`toImage_restores`).  The other way
round, what is read is the image of the map, but for one word in the header which is not looked at
(`ofImage_accepts`).  A file that has the image as its contents is read in full, since the header
says how long the image is (`MapFile.ofContents_toImage`).
-/

namespace ChangeTracking

namespace ChangeMap

open Bytes

/-! ## Slots -/

@[simp] lemma slotsImage_nil : slotsImage [] = [] := rfl

@[simp] lemma slotsImage_cons (l : Lsn) (rest : List Lsn) :
    slotsImage (l :: rest) = ofWord64 l.val ++ slotsImage rest := rfl

lemma length_slotsImage (slots : List Lsn) :
    (slotsImage slots).length = slots.length * slotBytes := by
  induction slots with
  | nil => rfl
  | cons l rest ih =>
    rw [slotsImage_cons, List.length_append, length_ofWord64, ih, List.length_cons, slotBytes]
    omega

lemma slotsFrom_ofWord64 (read : Array Lsn) (l : Lsn) (rest : Bytes) :
    slotsFrom read (ofWord64 l.val ++ rest) = slotsFrom (read.push l) rest := by
  have hword := word64_ofWord64 l.val []
  rw [List.append_nil] at hword
  have hcons : ∃ a b c d e f g h, ofWord64 l.val = [a, b, c, d, e, f, g, h] :=
    ⟨_, _, _, _, _, _, _, _, rfl⟩
  obtain ⟨a, b, c, d, e, f, g, h, hbytes⟩ := hcons
  rw [hbytes] at hword ⊢
  rw [List.cons_append, List.cons_append, List.cons_append, List.cons_append, List.cons_append,
    List.cons_append, List.cons_append, List.cons_append, List.nil_append, slotsFrom, hword]

lemma slotsFrom_slotsImage (read : Array Lsn) (slots : List Lsn) :
    slotsFrom read (slotsImage slots) = read ++ slots.toArray := by
  induction slots generalizing read with
  | nil => simp [slotsFrom]
  | cons l rest ih =>
    rw [slotsImage_cons, slotsFrom_ofWord64, ih]
    simp

/-- Bytes that are whole slots are the image of the slots that are read from them. -/
lemma exists_eq_slotsImage {count : Nat} {bytes : Bytes} (h : bytes.length = count * slotBytes) :
    ∃ slots : List Lsn, slots.length = count ∧ bytes = slotsImage slots := by
  induction count generalizing bytes with
  | zero => exact ⟨[], rfl, List.eq_nil_of_length_eq_zero (by rw [h, Nat.zero_mul])⟩
  | succ count ih =>
    rw [Nat.add_one_mul, slotBytes] at h
    obtain ⟨slots, hslots, hrest⟩ : ∃ slots : List Lsn, slots.length = count ∧
        bytes.drop 8 = slotsImage slots := ih (by rw [List.length_drop, h, slotBytes]; omega)
    refine ⟨⟨word64 bytes⟩ :: slots, by rw [List.length_cons, hslots], ?_⟩
    rw [slotsImage_cons, ofWord64_word64 (by omega), ← hrest, List.take_append_drop]

lemma slotsFrom_append (read : Array Lsn) {count : Nat} {first : Bytes}
    (h : first.length = count * slotBytes) (second : Bytes) :
    slotsFrom read (first ++ second) = slotsFrom (slotsFrom read first) second := by
  obtain ⟨slots, -, rfl⟩ := exists_eq_slotsImage h
  clear h
  induction slots generalizing read with
  | nil => simp [slotsFrom]
  | cons l rest ih =>
    rw [slotsImage_cons, List.append_assoc, slotsFrom_ofWord64, slotsFrom_ofWord64, ih]

/-! ## Portions

Writing in portions is writing at once, and so is reading. -/

lemma flatten_portions (slots : List Lsn) :
    ((portions slots).map slotsImage).flatten = slotsImage slots := by
  fun_induction portions slots with
  | case1 slots hempty =>
    rw [List.isEmpty_iff.mp hempty]
    rfl
  | case2 slots _ ih =>
    rw [List.map_cons, List.flatten_cons, ih, slotsImage, slotsImage, ← List.flatMap_append,
      List.take_append_drop, slotsImage]

lemma foldl_append (checksum : UInt32) (parts : List Bytes) :
    parts.foldl Crc32c.append checksum = Crc32c.append checksum parts.flatten := by
  induction parts generalizing checksum with
  | nil => simp [Crc32c.append, Crc32c.run]
  | cons part rest ih => rw [List.foldl_cons, ih, Crc32c.append_append, List.flatten_cons]

namespace Reading

lemma portion_zero (r : Reading) : r.portion 0 = some r := by
  simp [portion, slotsFrom, Crc32c.append, Crc32c.run]

lemma portion_of_le {r : Reading} {count : Nat} (h : count * slotBytes ≤ r.rest.length) :
    r.portion count = some
      { slots := slotsFrom r.slots (r.rest.take (count * slotBytes))
        checksum := Crc32c.append r.checksum (r.rest.take (count * slotBytes))
        rest := r.rest.drop (count * slotBytes) } := by
  simp [portion, Nat.min_eq_left h]

lemma portion_eq_none_iff {r : Reading} {count : Nat} :
    r.portion count = none ↔ r.rest.length < count * slotBytes := by
  by_cases h : count * slotBytes ≤ r.rest.length
  · simp [portion_of_le h, h]
  · have hshort : (r.rest.take (count * slotBytes)).length < count * slotBytes := by
      rw [List.length_take]
      omega
    rw [portion, if_pos hshort]
    exact iff_of_true rfl (Nat.not_le.mp h)

/-- Two portions in a row are one. -/
lemma portion_add (r : Reading) (first second : Nat) :
    r.portion (first + second) = (r.portion first).bind (·.portion second) := by
  by_cases hfirst : first * slotBytes ≤ r.rest.length
  · have htake : (r.rest.take (first * slotBytes)).length = first * slotBytes := by
      rw [List.length_take, Nat.min_eq_left hfirst]
    rw [portion_of_le hfirst, Option.bind_some]
    by_cases hsecond : (first + second) * slotBytes ≤ r.rest.length
    · rw [portion_of_le hsecond, portion_of_le]
      · rw [Nat.add_mul, List.take_add, slotsFrom_append _ htake, Crc32c.append_append,
          List.drop_drop]
      · rw [List.length_drop]
        rw [Nat.add_mul] at hsecond
        omega
    · rw [portion_eq_none_iff.mpr (Nat.not_le.mp hsecond), eq_comm, portion_eq_none_iff,
        List.length_drop]
      rw [Nat.add_mul] at hsecond
      omega
  · have hboth : r.rest.length < (first + second) * slotBytes := by
      rw [Nat.add_mul]
      omega
    rw [portion_eq_none_iff.mpr hboth, portion_eq_none_iff.mpr (Nat.not_le.mp hfirst),
      Option.bind_none]

lemma run_eq_portion (r : Reading) (remaining : Nat) : r.run remaining = r.portion remaining := by
  fun_induction run remaining r with
  | case1 r => rw [portion_zero]
  | case2 remaining r _ hnone =>
    have hsplit := Nat.add_sub_of_le (Nat.min_le_left remaining portionSlots)
    rw [← hsplit, portion_add, hnone, Option.bind_none]
  | case3 remaining r _ next hnext ih =>
    have hsplit := Nat.add_sub_of_le (Nat.min_le_left remaining portionSlots)
    conv_rhs => rw [← hsplit, portion_add, hnext]
    exact ih

/-- A reading comes to the end of an image if there are just as many slots as it asks for. -/
lemma run_begin_iff {image : Bytes} {count : Nat} {last : Reading} :
    (begin image).run count = some last ∧ last.rest = [] ↔
      (image.drop headerBytes).length = count * slotBytes ∧ last =
        { slots := slotsFrom #[] (image.drop headerBytes)
          checksum := Crc32c.checksum (image.take checkedBytes ++ image.drop headerBytes)
          rest := [] } := by
  have hbegin : (begin image).rest = image.drop headerBytes := rfl
  rw [run_eq_portion]
  constructor
  · rintro ⟨hrun, hrest⟩
    have henough : count * slotBytes ≤ (begin image).rest.length := by
      by_contra hshort
      rw [portion_eq_none_iff.mpr (Nat.not_le.mp hshort)] at hrun
      cases hrun
    rw [portion_of_le henough] at hrun
    obtain rfl := Option.some.inj hrun
    have hall := List.drop_eq_nil_iff.mp hrest
    have hnothing : (begin image).rest.drop (count * slotBytes) = [] := hrest
    refine ⟨Nat.le_antisymm hall henough, ?_⟩
    rw [List.take_of_length_le hall, hnothing, begin, Crc32c.append_checksum]
  · rintro ⟨hlength, rfl⟩
    rw [portion_of_le (Nat.le_of_eq hlength.symm), hbegin, ← hlength, List.take_length,
      List.drop_length, begin, Crc32c.append_checksum]
    exact ⟨rfl, rfl⟩

end Reading

/-! ## What is read -/

/-- The bytes are an image, and `m` is what is read from it. -/
structure Decodes (image : Bytes) (m : ChangeMap) : Prop where
  long : headerBytes ≤ image.length
  magic : image.take 8 = magic
  version : word32 (image.drop 8) = imageVersion
  count : (word64 (image.drop 16)).toNat = m.slotCount
  body : (image.drop headerBytes).length = m.slotCount * slotBytes
  checksum : word32 (image.drop checkedBytes)
    = Crc32c.checksum (image.take checkedBytes ++ image.drop headerBytes)
  slots : slotsFrom #[] (image.drop headerBytes) = m.slots
  epoch : word64 (image.drop 24) = m.epoch.val
  valid : m.valid = true

lemma Decodes.length_eq {image : Bytes} {m : ChangeMap} (h : Decodes image m) :
    image.length = headerBytes + m.slotCount * slotBytes := by
  have hbody := h.body
  have hlong := h.long
  rw [List.length_drop] at hbody
  omega

lemma readHeader_eq_ok_iff {image : Bytes} {header : Header} :
    readHeader image = .ok header ↔ headerBytes ≤ image.length ∧ image.take 8 = magic ∧
      header = ⟨word32 (image.drop 8), word64 (image.drop 16), ⟨word64 (image.drop 24)⟩,
        word32 (image.drop checkedBytes)⟩ := by
  have hmagic : (image.take headerBytes).take 8 = image.take 8 := by
    rw [List.take_take]
    rfl
  have hlength : (image.take headerBytes).length < headerBytes ↔ ¬ headerBytes ≤ image.length := by
    rw [List.length_take]
    omega
  unfold readHeader
  dsimp only
  rw [word32_drop_take (by decide), word64_drop_take (by decide), word64_drop_take (by decide),
    word32_drop_take (by decide), hmagic]
  simp only [hlength, ite_not]
  by_cases hlong : headerBytes ≤ image.length
  · by_cases hword : image.take 8 = magic
    · simp [hlong, hword, eq_comm]
    · simp [hlong, hword]
  · simp [hlong]

/-- What reading an image comes to. -/
theorem ofImage_eq_ok_iff {image : Bytes} {m : ChangeMap} :
    ofImage image = .ok m ↔ Decodes image m := by
  constructor
  · intro h
    unfold ofImage at h
    split at h
    · cases h
    next header hheader =>
    obtain ⟨hlong, hmagic, rfl⟩ := readHeader_eq_ok_iff.mp hheader
    dsimp only at h
    split at h
    · cases h
    next hversion =>
    split at h
    · cases h
    next hcount =>
    split at h
    · cases h
    next last hlast =>
    split at h
    · cases h
    next hrest =>
    split at h
    · cases h
    next hchecksum =>
    have hnothing : last.rest = [] := by simpa using hrest
    obtain ⟨hbody, hread⟩ := Reading.run_begin_iff.mp ⟨hlast, hnothing⟩
    have hslots := congrArg Reading.slots hread
    have hsum := congrArg Reading.checksum hread
    have hcount : (word64 (image.drop 16)).toNat = last.slots.size := by
      rw [Reading.size_run hlast]
      exact (Nat.zero_add _).symm
    cases h
    exact
      { long := hlong
        magic := hmagic
        version := not_not.mp hversion
        count := hcount
        body := hbody.trans (congrArg (· * slotBytes) hcount)
        checksum := (not_not.mp hchecksum).symm.trans hsum
        slots := hslots.symm
        epoch := rfl
        valid := rfl }
  · intro h
    have hheader := readHeader_eq_ok_iff.mpr ⟨h.long, h.magic, rfl⟩
    have hcount : ¬ ((word64 (image.drop 16)).toNat = 0 ∨
        slotLimit < (word64 (image.drop 16)).toNat) := by
      have hpos : 0 < m.slotCount := m.slots_pos
      have hle : m.slotCount ≤ slotLimit := m.slots_le
      rw [h.count]
      omega
    have hbody := h.body
    rw [← h.count] at hbody
    obtain ⟨hlast, -⟩ := Reading.run_begin_iff.mpr ⟨hbody, rfl⟩
    rw [ofImage, hheader]
    dsimp only
    rw [if_neg (not_not.mpr h.version), dif_neg hcount]
    split
    · next hnone => cases hlast.symm.trans hnone
    · next last hread =>
      obtain rfl := Option.some.inj (hlast.symm.trans hread)
      simp [h.slots, h.epoch, h.checksum, ← h.valid]

/-! ## What is written -/

/-- The part of a map's header that the checksum covers, with any word in the reserved place. -/
def headerWith (m : ChangeMap) (reserved : UInt32) : Bytes :=
  magic ++ (ofWord32 imageVersion ++ (ofWord32 reserved
    ++ (ofWord64 (UInt64.ofNat m.slotCount) ++ ofWord64 m.epoch.val)))

/-- The image of a map, with any word in the reserved place. -/
def imageWith (m : ChangeMap) (reserved : UInt32) : Bytes :=
  m.headerWith reserved
    ++ (ofWord32 (Crc32c.checksum (m.headerWith reserved ++ slotsImage m.slots.toList))
      ++ slotsImage m.slots.toList)

/-- A map is written with zero in the reserved place. -/
lemma toImage_eq (m : ChangeMap) : m.toImage = m.imageWith 0 := by
  have hheader : m.headerImage = m.headerWith 0 := by
    simp only [headerImage, headerWith, List.append_assoc]
  rw [toImage, imageWith, foldl_append, Crc32c.append_checksum, flatten_portions, hheader,
    List.append_assoc]

lemma length_headerWith (m : ChangeMap) (reserved : UInt32) :
    (m.headerWith reserved).length = checkedBytes := by
  simp [headerWith, magic, checkedBytes]

lemma length_imageWith (m : ChangeMap) (reserved : UInt32) :
    (m.imageWith reserved).length = headerBytes + m.slotCount * slotBytes := by
  rw [imageWith, List.length_append, List.length_append, length_headerWith, length_ofWord32,
    length_slotsImage, Array.length_toList, headerBytes, slotCount]
  omega

lemma toNat_slotCount (m : ChangeMap) : (UInt64.ofNat m.slotCount).toNat = m.slotCount := by
  rw [UInt64.toNat_ofNat']
  exact Nat.mod_eq_of_lt (Nat.lt_of_le_of_lt m.slots_le (by decide))

/-- What is read from the image of a map is the map, and valid, whatever is in the reserved
place. -/
lemma decodes_imageWith (m : ChangeMap) (reserved : UInt32) :
    Decodes (m.imageWith reserved) { m with valid := true } := by
  set checksum := Crc32c.checksum (m.headerWith reserved ++ slotsImage m.slots.toList) with hsum
  set body := slotsImage m.slots.toList with hslots
  have himage : m.imageWith reserved = m.headerWith reserved ++ (ofWord32 checksum ++ body) := rfl
  have hbody : (m.imageWith reserved).drop headerBytes = body := by
    rw [himage, ← List.append_assoc, List.drop_left']
    rw [List.length_append, length_headerWith, length_ofWord32, headerBytes]
  have hchecked : (m.imageWith reserved).take checkedBytes = m.headerWith reserved := by
    rw [himage, List.take_left' (length_headerWith m reserved)]
  -- the fields, each in front of what comes after it
  set count := ofWord64 (.ofNat m.slotCount) with hnumber
  set rest := ofWord64 m.epoch.val ++ (ofWord32 checksum ++ body)
  have hversion : m.imageWith reserved
      = magic ++ (ofWord32 imageVersion ++ (ofWord32 reserved ++ (count ++ rest))) := by
    simp only [himage, headerWith, List.append_assoc, hnumber, rest]
  have hcount : m.imageWith reserved
      = (magic ++ ofWord32 imageVersion ++ ofWord32 reserved) ++ (count ++ rest) := by
    simp only [hversion, List.append_assoc]
  have hepoch : m.imageWith reserved
      = (magic ++ ofWord32 imageVersion ++ ofWord32 reserved ++ count) ++ rest := by
    simp only [hversion, List.append_assoc]
  exact
    { long := by
        rw [length_imageWith]
        exact Nat.le_add_right _ _
      magic := by rw [hversion, List.take_left' (by rfl)]
      version := by rw [hversion, List.drop_left' (by rfl), word32_ofWord32]
      count := by
        rw [hcount, List.drop_left' (by rfl), word64_ofWord64, toNat_slotCount]
        rfl
      body := by
        rw [hbody, hslots, length_slotsImage, Array.length_toList]
        rfl
      checksum := by
        rw [hchecked, hbody, himage, List.drop_left' (length_headerWith m reserved),
          word32_ofWord32]
      slots := by
        rw [hbody, hslots, slotsFrom_slotsImage]
        simp
      epoch := by rw [hepoch, List.drop_left' (by rfl), word64_ofWord64]
      valid := rfl }

/-- What is read as a map is its image, but for the reserved place. -/
lemma Decodes.eq_imageWith {image : Bytes} {m : ChangeMap} (h : Decodes image m) :
    image = m.imageWith (word32 (image.drop 12)) := by
  have hlong : 36 ≤ image.length := h.long
  have hcount : word64 (image.drop 16) = .ofNat m.slotCount := by
    rw [← h.count, UInt64.ofNat_toNat]
  have hslots : image.drop headerBytes = slotsImage m.slots.toList := by
    obtain ⟨slots, -, hbody⟩ := exists_eq_slotsImage h.body
    have hread := h.slots
    rw [hbody, slotsFrom_slotsImage] at hread
    rw [hbody, ← hread]
    simp
  have hmagic := (List.take_append_drop 8 image).symm
  have hversion := drop_eq_word32 8 (Nat.le_trans (by decide) hlong)
  have hreserved := drop_eq_word32 12 (Nat.le_trans (by decide) hlong)
  have hnumber := drop_eq_word64 16 (Nat.le_trans (by decide) hlong)
  have hepoch := drop_eq_word64 24 (Nat.le_trans (by decide) hlong)
  have hsum := drop_eq_word32 checkedBytes h.long
  rw [h.version] at hversion
  rw [hcount] at hnumber
  rw [h.epoch] at hepoch
  generalize word32 (image.drop 12) = reserved at hreserved ⊢
  have hheader : image = m.headerWith reserved ++ image.drop checkedBytes := by
    rw [h.magic, hversion, hreserved, hnumber, hepoch] at hmagic
    simp only [headerWith, List.append_assoc]
    exact hmagic
  have hchecked : image.take checkedBytes = m.headerWith reserved := by
    rw [hheader, List.take_left' (length_headerWith m reserved)]
  have hbody : image.drop (checkedBytes + 4) = slotsImage m.slots.toList := hslots
  rw [hheader, hsum, h.checksum, hchecked, hslots, hbody, imageWith]

/-! ## Reading what was written -/

/-- What is read from the image of a map is the map, and valid. -/
theorem ofImage_toImage (m : ChangeMap) : ofImage m.toImage = .ok { m with valid := true } := by
  rw [toImage_eq]
  exact ofImage_eq_ok_iff.mpr (m.decodes_imageWith 0)

/-- What is read from an image is valid. -/
lemma valid_of_ofImage {image : Bytes} {m : ChangeMap} (h : ofImage image = .ok m) :
    m.valid = true := (ofImage_eq_ok_iff.mp h).valid

lemma length_toImage (m : ChangeMap) :
    m.toImage.length = headerBytes + m.slotCount * slotBytes := by
  rw [toImage_eq, length_imageWith]

/-- **Images can be read back.**  The image of a map has 36 bytes and eight for each slot, and what
is read from it is a valid map with the same slots and the same epoch. -/
theorem toImage_restores (m : ChangeMap) :
    m.toImage.length = 36 + 8 * m.slotCount ∧
      ∃ restored, ofImage m.toImage = .ok restored ∧ restored.valid = true ∧
        restored.slotCount = m.slotCount ∧ restored.slots = m.slots ∧ restored.epoch = m.epoch := by
  constructor
  · rw [length_toImage, Nat.mul_comm]
    rfl
  · exact ⟨_, m.ofImage_toImage, rfl, rfl, rfl, rfl⟩

/-! ## Which bytes are read

The reserved place is not looked at.  So a map has many images that are read, one for each word in
that place, and it is written as one of them. -/

/-- The bytes that are read as a map are its images, with any word in the reserved place. -/
lemma ofImage_eq_ok_iff_imageWith {image : Bytes} {m : ChangeMap} :
    ofImage image = .ok m ↔ m.valid = true ∧ ∃ reserved, image = m.imageWith reserved := by
  rw [ofImage_eq_ok_iff]
  constructor
  · intro h
    exact ⟨h.valid, _, h.eq_imageWith⟩
  · rintro ⟨hvalid, reserved, rfl⟩
    have h := m.decodes_imageWith reserved
    rwa [← hvalid] at h

lemma reserved_imageWith (m : ChangeMap) (reserved : UInt32) :
    word32 ((m.imageWith reserved).drop 12) = reserved := by
  have hcut : m.imageWith reserved = (magic ++ ofWord32 imageVersion) ++ (ofWord32 reserved
      ++ (ofWord64 (.ofNat m.slotCount) ++ (ofWord64 m.epoch.val
        ++ (ofWord32 (Crc32c.checksum (m.headerWith reserved ++ slotsImage m.slots.toList))
          ++ slotsImage m.slots.toList)))) := by
    simp only [imageWith, headerWith, List.append_assoc]
  rw [hcut, List.drop_left' (by rfl), word32_ofWord32]

lemma imageWith_inj {m : ChangeMap} {a b : UInt32} : m.imageWith a = m.imageWith b ↔ a = b := by
  constructor
  · intro h
    rw [← m.reserved_imageWith a, h, reserved_imageWith]
  · rintro rfl
    rfl

/-- **What is read is an image, but for the reserved place.**  A string of bytes is read as a map
exactly if it is an image of that valid map, with any word in the reserved place.  It is what the
map is written as exactly if that word is zero, and two that are read as the same map are the same
exactly if they have the same word there. -/
theorem ofImage_accepts (image : Bytes) (m : ChangeMap) :
    (ofImage image = .ok m ↔ m.valid = true ∧ ∃ reserved, image = m.imageWith reserved) ∧
      (ofImage image = .ok m → (m.toImage = image ↔ word32 (image.drop 12) = 0)) ∧
      (∀ image', ofImage image = .ok m → ofImage image' = .ok m →
        (image = image' ↔ word32 (image.drop 12) = word32 (image'.drop 12))) := by
  refine ⟨ofImage_eq_ok_iff_imageWith, ?_, ?_⟩
  · intro h
    obtain ⟨-, reserved, rfl⟩ := ofImage_eq_ok_iff_imageWith.mp h
    rw [toImage_eq, imageWith_inj, reserved_imageWith, eq_comm]
  · intro image' h h'
    obtain ⟨-, reserved, rfl⟩ := ofImage_eq_ok_iff_imageWith.mp h
    obtain ⟨-, reserved', rfl⟩ := ofImage_eq_ok_iff_imageWith.mp h'
    rw [imageWith_inj, reserved_imageWith, reserved_imageWith]

/-- An image with a one in the reserved place.  It is read as a map that is not written like
that. -/
theorem ofImage_ignores_reserved :
    let image : Bytes :=
      [0x50, 0x42, 0x4b, 0x54, 0x52, 0x4d, 0x41, 0x50, 0x01, 0x00, 0x00, 0x00,
        0x01, 0x00, 0x00, 0x00, 0x01, 0x00, 0x00, 0x00, 0x00, 0x00, 0x00, 0x00,
        0x64, 0x00, 0x00, 0x00, 0x00, 0x00, 0x00, 0x00, 0x75, 0xf2, 0xf5, 0x1d,
        0x96, 0x00, 0x00, 0x00, 0x00, 0x00, 0x00, 0x00]
    ∃ m, ofImage image = .ok m ∧ m.toImage ≠ image ∧ ofImage m.toImage = .ok m := by
  intro image
  let m : ChangeMap := ⟨#[⟨150⟩], ⟨100⟩, true, by decide, by decide⟩
  have himage : image = m.imageWith 1 := by decide +kernel
  have hother : m.imageWith 0 ≠ image := by decide +kernel
  exact ⟨m, ofImage_eq_ok_iff_imageWith.mpr ⟨rfl, 1, himage⟩, by rwa [toImage_eq],
    m.ofImage_toImage⟩

end ChangeMap

namespace MapFile

open ChangeMap

lemma decisiveSize_of_decodes {image : Bytes} {m : ChangeMap} (h : Decodes image m) :
    decisiveSize (image.take headerBytes) = image.length + 1 := by
  have hheader : readHeader (image.take headerBytes) = readHeader image := by
    rw [readHeader, readHeader, List.take_take, Nat.min_self]
  have hle : m.slotCount ≤ slotLimit := m.slots_le
  rw [decisiveSize, hheader, readHeader_eq_ok_iff.mpr ⟨h.long, h.magic, rfl⟩]
  dsimp only
  rw [h.count, Nat.min_eq_left hle, h.length_eq]

lemma firstBytes_eq_take (limit : Nat) (c : Contents) :
    c.firstBytes limit = c.toBytes.take limit := by
  rw [Contents.firstBytes, Contents.toBytes, List.take_append, List.take_replicate, Nat.min_comm]

lemma toBytes_ofBytes (bytes : Bytes) : (Contents.ofBytes bytes).toBytes = bytes := by
  simp [Contents.ofBytes, Contents.toBytes]

lemma headerBytes_le_decisiveSize (image : Bytes) : headerBytes ≤ decisiveSize image := by
  unfold decisiveSize
  split <;> omega

/-- The bytes that decide are enough to read the map in a file. -/
lemma ofContents_eq_ok_iff {c : Contents} {m : ChangeMap} :
    ofContents c = .ok m ↔ ofImage c.toBytes = .ok m := by
  rw [ofContents, firstBytes_eq_take, firstBytes_eq_take]
  generalize c.toBytes = image
  have hheader := headerBytes_le_decisiveSize (image.take headerBytes)
  constructor
  · intro h
    -- What was read is shorter than what would have been, so it was all there is.
    have hsize := decisiveSize_of_decodes (ofImage_eq_ok_iff.mp h)
    rw [List.take_take, Nat.min_eq_left hheader, List.length_take] at hsize
    have hall : (image.take (decisiveSize (image.take headerBytes))) = image :=
      List.take_of_length_le (by omega)
    rwa [hall] at h
  · intro h
    rw [decisiveSize_of_decodes (ofImage_eq_ok_iff.mp h), List.take_of_length_le (Nat.le_succ _)]
    exact h

/-- The map in a file is the one whose image was written there. -/
theorem ofContents_toImage (m : ChangeMap) :
    ofContents (.ofBytes m.toImage) = .ok { m with valid := true } := by
  rw [ofContents_eq_ok_iff, toBytes_ofBytes]
  exact ofImage_toImage m

end MapFile

end ChangeTracking
