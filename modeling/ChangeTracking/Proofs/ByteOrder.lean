import ChangeTracking.Proofs.Listings

/-!
# The order of a listing

Names are texts, and a directory is listed in the order of texts: character by character, by the
numbers of the characters.  A file system that knows only bytes can list it in the same order, since
UTF-8 keeps it (`Text.utf8_lt`).  A character with a greater number has an encoding that is greater
wherever it ends, so that what follows does not matter (`Text.encode_append_lt`).
-/

namespace ChangeTracking

namespace Text

/-- The bytes of a text. -/
def utf8 (s : String) : Bytes := s.toUTF8.data.toList

lemma utf8_eq (s : String) : utf8 s = s.toList.flatMap String.utf8EncodeChar := by
  rw [utf8, String.toUTF8, ← String.utf8Encode_toList, List.utf8Encode, List.data_toByteArray]

lemma toNat_lt (c : Char) : c.val.toNat < 1114112 := by
  rcases c.valid with h | ⟨-, h⟩
  · exact Nat.lt_trans h (by decide)
  · exact h

lemma ofNat_cons_lt {m n : Nat} (hm : m < 256) (hn : n < 256) {x y : Bytes} :
    UInt8.ofNat m :: x < UInt8.ofNat n :: y ↔ m < n ∨ m = n ∧ x < y := by
  simp only [List.cons_lt_cons_iff, UInt8.lt_iff_toNat_lt, ← UInt8.toNat_inj, UInt8.toNat_ofNat',
    Nat.mod_eq_of_lt hm, Nat.mod_eq_of_lt hn]

/-- The encodings of two characters differ in a byte that both have. -/
lemma encode_append_lt {c d : Char} (h : c < d) (x y : Bytes) :
    String.utf8EncodeChar c ++ x < String.utf8EncodeChar d ++ y := by
  have hless : c.val.toNat < d.val.toNat := h
  have hc := toNat_lt c
  have hd := toNat_lt d
  -- the upper digits as digits of the digits, so that each is bound to the one below it
  have hsecond : ∀ n, n / 4096 = n / 64 / 64 := fun n => by omega
  have hthird : ∀ n, n / 262144 = n / 64 / 64 / 64 := fun n => by omega
  unfold String.utf8EncodeChar
  dsimp only
  generalize c.val.toNat = m at hless hc ⊢
  generalize d.val.toNat = n at hless hd ⊢
  -- four lengths of each of the two
  split_ifs <;>
    simp (disch := omega) only [List.cons_append, List.nil_append, ofNat_cons_lt, hsecond,
      hthird] <;>
    omega

lemma flatMap_encode_lt {l l' : List Char} (h : l < l') :
    l.flatMap String.utf8EncodeChar < l'.flatMap String.utf8EncodeChar := by
  induction h with
  | @nil c rest =>
    have hne : (c :: rest).flatMap String.utf8EncodeChar ≠ [] := by
      simp [String.utf8EncodeChar_ne_nil]
    obtain ⟨b, bytes, hbytes⟩ := List.exists_cons_of_ne_nil hne
    rw [hbytes, List.flatMap_nil]
    exact .nil
  | rel hless =>
    rw [List.flatMap_cons, List.flatMap_cons]
    exact encode_append_lt hless _ _
  | cons _ ih =>
    rw [List.flatMap_cons, List.flatMap_cons]
    exact List.append_left_lt ih

/-- Texts are in the order of their bytes. -/
theorem utf8_lt {s s' : String} (h : s < s') : utf8 s < utf8 s' := by
  rw [utf8_eq, utf8_eq]
  exact flatMap_encode_lt (String.lt_iff.mp h)

end Text

namespace Walk

/-- A walk reads the entries of a directory in the order of the bytes of their names. -/
theorem pairwise_listed (t : Tree) (dir : Path) :
    (listed t dir).Pairwise fun a b => Text.utf8 a.name.val < Text.utf8 b.name.val := by
  cases hlisted : listed t dir with
  | nil => exact .nil
  | cons e rest =>
    have he : e ∈ listed t dir := by
      rw [hlisted]
      exact List.mem_cons_self
    obtain ⟨place, -, hresolve, hfind, -⟩ := mem_listed_iff.mp he
    have hnames := nodup_names_listed t dir
    rw [← hlisted]
    rw [listed_of_resolve hresolve hfind] at hnames ⊢
    refine (Tree.pairwise_sorted _).imp₂ (fun a b hle hne => ?_) (List.pairwise_map.mp hnames)
    refine Text.utf8_lt (lt_of_le_of_ne (of_decide_eq_true hle) fun heq => hne (Subtype.ext heq))

end Walk

end ChangeTracking
