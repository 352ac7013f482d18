import ChangeTracking.Proofs.Checksums
import ChangeTracking.Proofs.Images

/-!
# Damaged images are not read

An image that was changed in one byte anywhere, or in up to four bytes in a row among its slots, cut
short, or followed by more bytes is not read as any map (`ofImage_damaged`).

The argument does not look at what the damage did to the header.  Whatever is read as a map has the
checksum of all its other bytes and the length that its header says (`Decodes`).  Bytes changed on
one side of the checksum only, few enough and next to each other, cannot keep it (`eq_of_decodes`).
And of two strings of which one begins the other, only one can have the length that both of them say
(`eq_nil_of_decodes`).
-/

namespace ChangeTracking.ChangeMap

open Bytes

/-- `damaged` is what may become of an image by accident. -/
inductive Damaged (image : Bytes) : (damaged : Bytes) → Prop
  /-- One byte, anywhere, is another one. -/
  | byte {before after : Bytes} {old new : UInt8} (himage : image = before ++ [old] ++ after)
      (hne : new ≠ old) : Damaged image (before ++ [new] ++ after)
  /-- Up to four bytes in a row, among the slots, are replaced by as many. -/
  | slots {before after old new : Bytes} (himage : image = before ++ old ++ after)
      (hslots : headerBytes ≤ before.length) (hshort : old.length ≤ 4)
      (hlength : new.length = old.length) (hne : new ≠ old) :
      Damaged image (before ++ new ++ after)
  /-- Some bytes are missing at the end. -/
  | cut {front rest : Bytes} (himage : image = front ++ rest) (hne : rest ≠ []) :
      Damaged image front
  /-- There are more bytes after the end. -/
  | extended {more : Bytes} (hne : more ≠ []) : Damaged image (image ++ more)

variable {before after old new : Bytes} {m m' : ChangeMap}

/-- The word of the checksum, in front of the slots. -/
lemma Decodes.checksum_eq {image : Bytes} (h : Decodes image m) :
    (image.drop checkedBytes).take 4
      = ofWord32 (Crc32c.checksum (image.take checkedBytes ++ image.drop headerBytes)) := by
  have hlong := h.long
  rw [← h.checksum, ofWord32_word32]
  rw [List.length_drop]
  change checkedBytes + 4 ≤ image.length at hlong
  omega

/-! ## Bytes changed in place

Where the string is cut after the bytes that differ, or before them, the other part is the same. -/

lemma take_after {k n : Nat} {x : Bytes} (hx : (before ++ x).length = k) (h : k ≤ n) :
    (before ++ x ++ after).take n = before ++ x ++ after.take (n - k) := by
  rw [List.take_append, List.take_of_length_le (hx ▸ h), hx]

lemma drop_after {k n : Nat} {x : Bytes} (hx : (before ++ x).length = k) (h : k ≤ n) :
    (before ++ x ++ after).drop n = after.drop (n - k) := by
  rw [List.drop_append, List.drop_of_length_le (hx ▸ h), hx, List.nil_append]

lemma take_before {n : Nat} (h : n ≤ before.length) (x : Bytes) :
    (before ++ x ++ after).take n = before.take n := by
  rw [List.append_assoc, List.take_append_of_le_length h]

lemma drop_before {n : Nat} (h : n ≤ before.length) (x : Bytes) :
    (before ++ x ++ after).drop n = before.drop n ++ x ++ after := by
  rw [List.append_assoc, List.drop_append_of_le_length h, List.append_assoc]

/-- Up to four bytes in a row are the same in two strings that are read and that have all other
bytes in common, unless they lie across a border of the checksum. -/
lemma eq_of_decodes (hlength : old.length = new.length) (hshort : old.length ≤ 4)
    (hplace : before.length + old.length ≤ checkedBytes ∨
      (checkedBytes ≤ before.length ∧ before.length + old.length ≤ headerBytes) ∨
      headerBytes ≤ before.length)
    (h : Decodes (before ++ old ++ after) m) (h' : Decodes (before ++ new ++ after) m') :
    old = new := by
  have hold : (before ++ old).length = before.length + old.length := List.length_append
  have hnew : (before ++ new).length = before.length + old.length := by
    rw [List.length_append, hlength]
  have hmore : checkedBytes ≤ headerBytes := Nat.le_add_right _ _
  have hsum := h.checksum_eq
  have hsum' := h'.checksum_eq
  rcases hplace with hplace | ⟨hfront, hplace⟩ | hplace
  · -- before the checksum: its own word and the slots are the same
    have hheader := Nat.le_trans hplace hmore
    rw [take_after hold hplace, drop_after hold hplace, drop_after hold hheader,
      List.append_assoc (before ++ old)] at hsum
    rw [take_after hnew hplace, drop_after hnew hplace, drop_after hnew hheader,
      List.append_assoc (before ++ new)] at hsum'
    exact Crc32c.eq_of_checksum_eq hlength hshort (ofWord32_injective (hsum.symm.trans hsum'))
  · -- in the word of the checksum: all that it covers is the same
    rw [take_before hfront, drop_after hold hplace] at hsum
    rw [take_before hfront, drop_after hnew hplace] at hsum'
    have hrest : ((before ++ old ++ after).drop checkedBytes).drop 4
        = ((before ++ new ++ after).drop checkedBytes).drop 4 := by
      rw [List.drop_drop, List.drop_drop]
      exact (drop_after hold hplace).trans (drop_after hnew hplace).symm
    have hall : (before ++ old ++ after).drop checkedBytes
        = (before ++ new ++ after).drop checkedBytes := by
      rw [← List.take_append_drop 4 ((before ++ old ++ after).drop checkedBytes), hsum, hrest,
        ← hsum', List.take_append_drop]
    rw [drop_before hfront, drop_before hfront] at hall
    exact List.append_cancel_left (List.append_cancel_right hall)
  · -- among the slots: the header is the same
    have hfront := Nat.le_trans hmore hplace
    have hword : 4 ≤ (before.drop checkedBytes).length := by
      rw [List.length_drop]
      change checkedBytes + 4 ≤ before.length at hplace
      omega
    have hregroup : ∀ x : Bytes, before.take checkedBytes ++ (before.drop headerBytes ++ x ++ after)
        = (before.take checkedBytes ++ before.drop headerBytes) ++ x ++ after := by
      intro x
      simp only [List.append_assoc]
    rw [take_before hfront, drop_before hfront, drop_before hplace, List.append_assoc _ old,
      List.take_append_of_le_length hword, hregroup] at hsum
    rw [take_before hfront, drop_before hfront, drop_before hplace, List.append_assoc _ new,
      List.take_append_of_le_length hword, hregroup] at hsum'
    exact Crc32c.eq_of_checksum_eq hlength hshort (ofWord32_injective (hsum.symm.trans hsum'))

/-! ## Bytes missing or added -/

lemma eq_nil_of_decodes {front rest : Bytes} (h : Decodes front m)
    (h' : Decodes (front ++ rest) m') : rest = [] := by
  have hlong : 36 ≤ front.length := h.long
  have hword : word64 ((front ++ rest).drop 16) = word64 (front.drop 16) := by
    rw [← word64_drop_take (n := front.length) (by omega), List.take_left]
  have hcount : m'.slotCount = m.slotCount := by
    rw [← h'.count, ← h.count, hword]
  have hlength := h'.length_eq
  rw [List.length_append, h.length_eq, hcount] at hlength
  exact List.eq_nil_of_length_eq_zero (by omega)

/-- A damaged image differs from what can be read. -/
lemma not_decodes_of_damaged {image damaged : Bytes} (h : Damaged image damaged)
    (himage : Decodes image m) : ¬ Decodes damaged m' := by
  intro hdamaged
  cases h with
  | @byte before after old new hsame hne =>
    subst hsame
    have hlength : [old].length = [new].length := rfl
    -- a single byte is on one side of each border
    have hplace : before.length + [old].length ≤ checkedBytes ∨
        (checkedBytes ≤ before.length ∧ before.length + [old].length ≤ headerBytes) ∨
        headerBytes ≤ before.length := by
      rw [List.length_singleton, headerBytes]
      omega
    have hsingle := eq_of_decodes hlength (by simp) hplace himage hdamaged
    exact hne (List.head_eq_of_cons_eq hsingle).symm
  | @slots before after old new hsame hslots hshort hlength hne =>
    subst hsame
    exact hne (eq_of_decodes hlength.symm hshort (.inr (.inr hslots)) himage hdamaged).symm
  | cut hsame hne =>
    subst hsame
    exact hne (eq_nil_of_decodes hdamaged himage)
  | extended hne => exact hne (eq_nil_of_decodes himage hdamaged)

/-- **Damaged images are not read.**  The image of a map is read, and whatever accident befalls it,
reading it reports a fault. -/
theorem ofImage_damaged (m : ChangeMap) {damaged : Bytes} (h : Damaged m.toImage damaged) :
    ofImage m.toImage = .ok { m with valid := true } ∧
      ∃ fault, ofImage damaged = .error fault := by
  refine ⟨m.ofImage_toImage, ?_⟩
  have himage := ofImage_eq_ok_iff.mp m.ofImage_toImage
  cases hread : ofImage damaged with
  | error fault => exact ⟨fault, rfl⟩
  | ok m' => exact absurd (ofImage_eq_ok_iff.mp hread) (not_decodes_of_damaged h himage)

/-- An image whose only slot is overwritten in four bytes. -/
theorem ofImage_damaged_slot :
    let m : ChangeMap := ⟨#[⟨150⟩], ⟨100⟩, true, by decide, by decide⟩
    let before : Bytes :=
      [0x50, 0x42, 0x4b, 0x54, 0x52, 0x4d, 0x41, 0x50, 0x01, 0x00, 0x00, 0x00,
        0x00, 0x00, 0x00, 0x00, 0x01, 0x00, 0x00, 0x00, 0x00, 0x00, 0x00, 0x00,
        0x64, 0x00, 0x00, 0x00, 0x00, 0x00, 0x00, 0x00, 0x41, 0x79, 0xe0, 0xbf]
    m.toImage = before ++ [0x96, 0x00, 0x00, 0x00] ++ [0x00, 0x00, 0x00, 0x00] ∧
      ofImage m.toImage = .ok m ∧
      ∃ fault, ofImage (before ++ [0x97, 0x01, 0x02, 0x03] ++ [0x00, 0x00, 0x00, 0x00])
        = .error fault := by
  intro m before
  have himage : m.toImage
      = before ++ [0x96, 0x00, 0x00, 0x00] ++ [0x00, 0x00, 0x00, 0x00] := by
    rw [toImage_eq]
    decide +kernel
  exact ⟨himage,
    m.ofImage_damaged (.slots himage (by decide) (by decide) (by decide) (by decide))⟩

end ChangeTracking.ChangeMap
