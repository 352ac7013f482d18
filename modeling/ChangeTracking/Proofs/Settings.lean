import ChangeTracking.Proofs.ByteOrder
import ChangeTracking.Proofs.Documents
import ChangeTracking.Proofs.Startup
import Mathlib.Tactic.SplitIfs

/-!
# Settings are kept in documents

Settings that were written to a file are read back from it, or are refused for the first fault that
they have (`Config.load_of_writtenAs`), and nothing that is read ever has a fault
(`Config.check_of_load_eq_ok`).

There are three layers between settings and a file.  A text is read back from its bytes
(`Text.decodeUtf8_utf8`): the encoding of a character has one of four lengths, which its first byte
tells, and each of the bytes after it holds six bits.  A document is read back from a text if it is
`Plain`, which the document of any settings is (`Config.plain_toJson`).  And settings are read back
from their document (`Config.ofJson?_toJson`), whether or not they name a map file.  What is then
said about the settings is `Config.check` alone: it finds no fault in settings that are `Sound`, and
the one that comes first in all others (`Config.check_eq_error_iff`).
-/

namespace ChangeTracking

namespace Text

section Decoding

variable {c : Char} {a : UInt8} {n x y z : Nat} {rest : Bytes}

lemma charOfNat?_toNat (c : Char) : charOfNat? c.val.toNat = some c := by
  have hvalid : c.val.toNat.isValidChar := c.valid
  rw [charOfNat?, dif_pos hvalid]
  exact congrArg some (Char.ext (UInt32.toNat_inj.mp (UInt32.toNat_ofNatLT ..)))

lemma continuation?_ofNat (hx : x < 64) : continuation? (UInt8.ofNat (x + 128)) = some x := by
  have hbyte : (UInt8.ofNat (x + 128)).toNat = x + 128 := by
    rw [UInt8.toNat_ofNat']
    omega
  have hrange : 0x80 ≤ UInt8.ofNat (x + 128) ∧ UInt8.ofNat (x + 128) ≤ 0xbf := by
    rw [UInt8.le_iff_toNat_le, UInt8.le_iff_toNat_le, hbyte]
    exact ⟨Nat.le_add_left .., Nat.add_le_add_right (by omega) 128⟩
  rw [continuation?, if_pos hrange, hbyte]
  exact congrArg some (Nat.add_sub_cancel x 128)

lemma charAt?_one (hn : n < 128) : charAt? (UInt8.ofNat n) rest = (charOfNat? n).map (·, 0) := by
  have hbyte : (UInt8.ofNat n).toNat = n := by
    rw [UInt8.toNat_ofNat']
    omega
  have hfirst : UInt8.ofNat n < 0x80 := by
    rw [UInt8.lt_iff_toNat_lt, hbyte]
    exact hn
  unfold charAt?
  rw [if_pos hfirst, hbyte]

lemma charAt?_two (hn : 2 ≤ n ∧ n < 32) (hx : x < 64) :
    charAt? (UInt8.ofNat (n + 192)) (UInt8.ofNat (x + 128) :: rest)
      = (charOfNat? (n * 64 + x)).map (·, 1) := by
  have hbyte : (UInt8.ofNat (n + 192)).toNat = n + 192 := by
    rw [UInt8.toNat_ofNat']
    omega
  simp only [charAt?, UInt8.lt_iff_toNat_lt, UInt8.le_iff_toNat_le, hbyte, continuation?_ofNat hx,
    UInt8.reduceToNat, Nat.add_sub_cancel]
  rw [if_neg (by omega), if_pos (by omega)]
  simp only [Option.bind_eq_bind, Option.bind_some]
  cases charOfNat? (n * 64 + x) <;> rfl

lemma charAt?_three (hn : n < 16) (hx : x < 64) (hy : y < 64)
    (hlong : 0x800 ≤ n * 4096 + x * 64 + y) :
    charAt? (UInt8.ofNat (n + 224)) (UInt8.ofNat (x + 128) :: UInt8.ofNat (y + 128) :: rest)
      = (charOfNat? (n * 4096 + x * 64 + y)).map (·, 2) := by
  have hbyte : (UInt8.ofNat (n + 224)).toNat = n + 224 := by
    rw [UInt8.toNat_ofNat']
    omega
  simp only [charAt?, UInt8.lt_iff_toNat_lt, UInt8.le_iff_toNat_le, hbyte, continuation?_ofNat hx,
    continuation?_ofNat hy, UInt8.reduceToNat, Nat.add_sub_cancel]
  rw [if_neg (by omega), if_neg (by omega), if_pos (by omega)]
  simp only [Option.bind_eq_bind, Option.bind_some]
  rw [if_neg (by omega)]
  cases charOfNat? (n * 4096 + x * 64 + y) <;> rfl

lemma charAt?_four (hn : n < 5) (hx : x < 64) (hy : y < 64) (hz : z < 64)
    (hlong : 0x10000 ≤ n * 262144 + x * 4096 + y * 64 + z) :
    charAt? (UInt8.ofNat (n + 240))
        (UInt8.ofNat (x + 128) :: UInt8.ofNat (y + 128) :: UInt8.ofNat (z + 128) :: rest)
      = (charOfNat? (n * 262144 + x * 4096 + y * 64 + z)).map (·, 3) := by
  have hbyte : (UInt8.ofNat (n + 240)).toNat = n + 240 := by
    rw [UInt8.toNat_ofNat']
    omega
  simp only [charAt?, UInt8.lt_iff_toNat_lt, UInt8.le_iff_toNat_le, hbyte, continuation?_ofNat hx,
    continuation?_ofNat hy, continuation?_ofNat hz, UInt8.reduceToNat, Nat.add_sub_cancel]
  rw [if_neg (by omega), if_neg (by omega), if_neg (by omega), if_pos (by omega)]
  -- for `simp` these steps hold by definition, and checking that takes unary multiplication
  rw [Option.bind_eq_bind, Option.bind_some, Option.bind_eq_bind, Option.bind_some, Option.bind_some,
    if_neg (by omega)]
  cases charOfNat? (n * 262144 + x * 4096 + y * 64 + z) <;> rfl

/-- A character is found where its encoding starts, with all the bytes that belong to it. -/
lemma exists_charAt?_encode (c : Char) : ∃ a more, String.utf8EncodeChar c = a :: more ∧
    ∀ rest, charAt? a (more ++ rest) = some (c, more.length) := by
  have hchar := charOfNat?_toNat c
  have hless := toNat_lt c
  unfold String.utf8EncodeChar
  dsimp only
  generalize c.val.toNat = n at hchar hless ⊢
  split_ifs with hone htwo hthree
  · refine ⟨_, _, rfl, fun rest => ?_⟩
    rw [charAt?_one (by omega), hchar]
    rfl
  · have hvalue : n / 64 % 32 * 64 + n % 64 = n := by omega
    refine ⟨_, _, rfl, fun rest => ?_⟩
    rw [List.cons_append, charAt?_two (by omega) (by omega), hvalue, hchar]
    rfl
  · have hvalue : n / 4096 % 16 * 4096 + n / 64 % 64 * 64 + n % 64 = n := by omega
    refine ⟨_, _, rfl, fun rest => ?_⟩
    rw [List.cons_append, List.cons_append, charAt?_three (by omega) (by omega) (by omega)
      (by omega), hvalue, hchar]
    rfl
  · have hvalue : n / 262144 % 8 * 262144 + n / 4096 % 64 * 4096 + n / 64 % 64 * 64 + n % 64 = n := by
      omega
    refine ⟨_, _, rfl, fun rest => ?_⟩
    rw [List.cons_append, List.cons_append, List.cons_append,
      charAt?_four (by omega) (by omega) (by omega) (by omega) (by omega), hvalue, hchar]
    rfl

lemma decodeOnto_append (read : List (Option Char)) (more rest : Bytes) :
    decodeOnto read more.length (more ++ rest) = decodeOnto read 0 rest := by
  induction more with
  | nil => rfl
  | cons a more ih => exact ih

lemma decodeOnto_encode (read : List (Option Char)) (c : Char) (rest : Bytes) :
    decodeOnto read 0 (String.utf8EncodeChar c ++ rest) = decodeOnto (some c :: read) 0 rest := by
  obtain ⟨a, more, hbytes, hchar⟩ := exists_charAt?_encode c
  rw [hbytes, List.cons_append, decodeOnto, hchar rest]
  exact decodeOnto_append _ more rest

lemma decodeOnto_flatMap_encode (read : List (Option Char)) (text : List Char) :
    decodeOnto read 0 (text.flatMap String.utf8EncodeChar)
      = (text.map some).reverse ++ read := by
  induction text generalizing read with
  | nil => rfl
  | cons c text ih =>
    rw [List.flatMap_cons, decodeOnto_encode, ih, List.map_cons, List.reverse_cons,
      List.append_assoc, List.singleton_append]

/-- A text is read back from its bytes. -/
theorem decodeUtf8_utf8 (text : String) : decodeUtf8 (utf8 text) = symbols text := by
  rw [decodeUtf8, utf8_eq, decodeOnto_flatMap_encode, List.append_nil, List.reverse_reverse,
    symbols]

end Decoding

end Text

namespace Config

variable {c : Config} {t : Tree} {p : Path} {contents : Contents} {e : Error}

/-! ## The document of settings -/

lemma plain_toJson (c : Config) : c.toJson.Plain := by
  refine .object _ (fun member hmember => ?_) (fun member hmember => ?_)
  · obtain ⟨field, -, rfl⟩ := List.mem_map.mp hmember
    rfl
  · obtain ⟨⟨name, value⟩, hfield, rfl⟩ := List.mem_map.mp hmember
    simp only [List.cons_append, List.nil_append, List.mem_cons, Prod.mk.injEq, List.mem_map,
      Option.mem_toList] at hfield
    obtain ⟨-, rfl⟩ | ⟨-, rfl⟩ | ⟨-, rfl⟩ | ⟨file, -, -, rfl⟩ := hfield
    · exact .text _
    · exact .nat _
    · exact .text _
    · exact .text _

lemma word64?_nat_toNat (w : UInt64) : (Json.nat w.toNat).word64? = some w := by
  simp [Json.word64?, Json.below?, w.toNat_lt]

/-- The fields of the document of settings, as they are found again. -/
lemma fields?_toJson (c : Config) : c.toJson.fields? fieldNames
    = some [some (.text c.dataDirectory.text), some (.nat c.mapSize.toNat),
        some (.text c.versionDirectory), c.mapFile?.map fun file => .text file.text] := by
  obtain ⟨data, size, version, file?⟩ := c
  cases file? <;> rfl

lemma mapFileOf?_map (file? : Option Path) :
    mapFileOf? (file?.map fun file => .text file.text) = some file? := by
  cases file? <;> rfl

/-- Settings are read back from their document. -/
theorem ofJson?_toJson (c : Config) : ofJson? c.toJson = some c := by
  unfold ofJson?
  rw [fields?_toJson]
  simp only [Option.elim_some, word64?_nat_toNat, mapFileOf?_map]
  rfl

/-- Reading the bytes of a text that settings were written as comes down to checking them. -/
lemma read_of_parse? {text : String} (hparse : Json.parse? (Text.symbols text) = some c.toJson) :
    read (Text.utf8 text) = c.check.map fun _ => c := by
  unfold read
  rw [Text.decodeUtf8_utf8, hparse, Option.bind_some, ofJson?_toJson]
  cases hcheck : c.check <;> simp [hcheck, Except.map, bind, Except.bind, pure, Except.pure]

/-! ## What settings are accepted -/

/-- Settings without a fault. -/
structure Sound (c : Config) : Prop where
  dataDirectory : c.dataDirectory.text ≠ ""
  versionDirectory : c.versionDirectory ≠ "" ∧ '/' ∉ c.versionDirectory.toList
  mapSize : c.mapSize = 0 ∨ GoodMapSize c.mapSize

/-- The fault of settings that comes first, and the error that tells of it. -/
inductive FirstFault (c : Config) : Error → Prop
  | dataDirectory (hdata : c.dataDirectory.text = "") :
      FirstFault c (.invalidConfig .emptyDataDirectory)
  | versionDirectory (hdata : c.dataDirectory.text ≠ "")
      (hversion : c.versionDirectory = "" ∨ '/' ∈ c.versionDirectory.toList) :
      FirstFault c (.invalidConfig (.badVersionDirectory c.versionDirectory))
  | mapSize (hdata : c.dataDirectory.text ≠ "")
      (hversion : c.versionDirectory ≠ "" ∧ '/' ∉ c.versionDirectory.toList)
      (hsize : c.mapSize ≠ 0 ∧ ¬ GoodMapSize c.mapSize) :
      FirstFault c (.invalidMapSize c.mapSize)

lemma goodVersionDirectory_eq_true_iff {name : String} :
    goodVersionDirectory name = true ↔ name ≠ "" ∧ '/' ∉ name.toList := by
  simp [goodVersionDirectory]

theorem Sound.check_eq_ok (h : c.Sound) : c.check = .ok () := by
  unfold check
  rw [if_neg h.dataDirectory, goodVersionDirectory_eq_true_iff.mpr h.versionDirectory]
  simp only [Bool.not_true, Bool.false_eq_true, if_false]
  rcases h.mapSize with hzero | hgood
  · rw [Tracking.mapSize_eq_zero_iff.mpr hzero]
    rfl
  · rw [Tracking.slotsFor_eq_ok hgood]
    split <;> rfl

theorem FirstFault.check_eq_error (h : c.FirstFault e) : c.check = .error e := by
  unfold check
  cases h with
  | dataDirectory hdata => rw [if_pos hdata]
  | versionDirectory hdata hversion =>
    have hbad : goodVersionDirectory c.versionDirectory = false := by
      rw [Bool.eq_false_iff, ne_eq, goodVersionDirectory_eq_true_iff, not_and_or, not_not, not_not]
      exact hversion
    rw [if_neg hdata, hbad]
    rfl
  | mapSize hdata hversion hsize =>
    have htracks : c.tracks = true := by
      rw [← Bool.not_eq_false, Tracking.mapSize_eq_zero_iff]
      exact hsize.1
    rw [if_neg hdata, goodVersionDirectory_eq_true_iff.mpr hversion, htracks, slotsFor,
      if_neg hsize.2]
    rfl

theorem sound_or_exists_firstFault (c : Config) : c.Sound ∨ ∃ e, c.FirstFault e := by
  by_cases hdata : c.dataDirectory.text = ""
  · exact .inr ⟨_, .dataDirectory hdata⟩
  by_cases hversion : c.versionDirectory ≠ "" ∧ '/' ∉ c.versionDirectory.toList
  · by_cases hsize : c.mapSize = 0 ∨ GoodMapSize c.mapSize
    · exact .inl ⟨hdata, hversion, hsize⟩
    · exact .inr ⟨_, .mapSize hdata hversion (not_or.mp hsize)⟩
  · refine .inr ⟨_, .versionDirectory hdata ?_⟩
    rwa [not_and_or, not_not, not_not] at hversion

/-- The check passes settings without a fault, and only these. -/
theorem check_eq_ok_iff : c.check = .ok () ↔ c.Sound := by
  refine ⟨fun hcheck => ?_, Sound.check_eq_ok⟩
  refine (sound_or_exists_firstFault c).resolve_right ?_
  rintro ⟨e, hfault⟩
  rw [hfault.check_eq_error] at hcheck
  cases hcheck

/-- The check tells of the fault that comes first. -/
theorem check_eq_error_iff : c.check = .error e ↔ c.FirstFault e := by
  refine ⟨fun hcheck => ?_, FirstFault.check_eq_error⟩
  obtain hsound | ⟨e', hfault⟩ := sound_or_exists_firstFault c
  · rw [hsound.check_eq_ok] at hcheck
    cases hcheck
  · rw [hfault.check_eq_error] at hcheck
    cases hcheck
    exact hfault

/-! ## Settings in files -/

/-- The bytes are a document of the settings, in one of its two written forms. -/
def WrittenAs (c : Config) (bytes : Bytes) : Prop :=
  bytes = Text.utf8 c.toJson.compact ∨ bytes = Text.utf8 c.toJson.pretty

lemma load_of_writtenAs (hcontents : t.contentsAt p = .ok contents)
    (hwritten : c.WrittenAs contents.toBytes) : load t p = c.check.map fun _ => c := by
  rw [load, hcontents]
  change read contents.toBytes = _
  rcases hwritten with hcompact | hpretty
  · rw [hcompact]
    exact read_of_parse? (Json.parse?_compact c.plain_toJson)
  · rw [hpretty]
    exact read_of_parse? (Json.parse?_pretty c.plain_toJson)

/-- What is read has passed the check, whatever it was read from. -/
lemma check_of_read_eq_ok {bytes : Bytes} (h : read bytes = .ok c) : c.check = .ok () := by
  unfold read at h
  split at h
  · rename_i found _
    cases hcheck : found.check with
    | error e => simp [hcheck, bind, Except.bind] at h
    | ok _ =>
      simp only [hcheck, bind, Except.bind, pure, Except.pure, Except.ok.injEq] at h
      rw [← h, hcheck]
  · cases h

lemma check_of_load_eq_ok (h : load t p = .ok c) : c.check = .ok () := by
  unfold load at h
  cases hcontents : t.contentsAt p with
  | error e => simp [hcontents] at h
  | ok contents =>
    rw [hcontents] at h
    exact check_of_read_eq_ok h

/-- **Settings are read back, and never with a fault.**  A file that holds the document of any
settings, in either of its written forms, is read as these settings if they are sound, and refused
for the first of their faults otherwise.  And whatever a file holds, if settings are read from it,
then the check passes them, they are sound, and no tracker that is started with them on any host
fails to start. -/
theorem load_reads_back :
    (∀ (c : Config) (t : Tree) (p : Path) (contents : Contents), t.contentsAt p = .ok contents →
      c.WrittenAs contents.toBytes →
        (c.check = .ok () ∧ c.Sound ∧ load t p = .ok c) ∨
        ∃ e, c.check = .error e ∧ c.FirstFault e ∧ load t p = .error e) ∧
    ∀ (c : Config) (t : Tree) (p : Path), load t p = .ok c →
      c.check = .ok () ∧ c.Sound ∧
      ∀ isExempt host, ∃ s, Tracking.start c isExempt host = .ok s := by
  refine ⟨fun c t p contents hcontents hwritten => ?_, fun c t p hload => ?_⟩
  · have hload := load_of_writtenAs hcontents hwritten
    cases hcheck : c.check with
    | ok _ =>
      rw [hcheck] at hload
      exact .inl ⟨rfl, check_eq_ok_iff.mp hcheck, hload⟩
    | error e =>
      rw [hcheck] at hload
      exact .inr ⟨e, rfl, check_eq_error_iff.mp hcheck, hload⟩
  · have hcheck := check_of_load_eq_ok hload
    exact ⟨hcheck, check_eq_ok_iff.mp hcheck, Tracking.exists_start hcheck⟩

/-- Settings that name a map file are read back from a file with lines, and started with; of
settings with three faults the file is refused for the first. -/
theorem load_reads_back_from_root :
    load (Tree.empty.put [.ofText "s"] (.file (.ofBytes (Text.utf8
        (toJson ⟨⟨"data"⟩, 64, "16 \"x\"", some ⟨"/m"⟩⟩).pretty)))) ⟨"/s"⟩
      = .ok ⟨⟨"data"⟩, 64, "16 \"x\"", some ⟨"/m"⟩⟩ ∧
    (∃ s, Tracking.start ⟨⟨"data"⟩, 64, "16 \"x\"", some ⟨"/m"⟩⟩ exemptNone ⟨Tree.empty, ⟨50⟩, #[]⟩
      = .ok s) ∧
    load (Tree.empty.put [.ofText "s"] (.file (.ofBytes (Text.utf8
        (toJson ⟨⟨""⟩, 7, "a/b", none⟩).compact)))) ⟨"/s"⟩
      = .error (.invalidConfig .emptyDataDirectory) := by
  have hcontents : ∀ bytes, (Tree.empty.put [.ofText "s"] (.file (.ofBytes bytes))).contentsAt ⟨"/s"⟩
      = .ok (.ofBytes bytes) := fun bytes =>
    MapFile.contentsAt_of_spot rfl (Tree.find?_put (by simp) _ _) rfl
  obtain ⟨-, -, hload⟩ | ⟨e, hcheck, -⟩ := load_reads_back.1
    ⟨⟨"data"⟩, 64, "16 \"x\"", some ⟨"/m"⟩⟩ _ _ _ (hcontents _) (.inr (MapFile.toBytes_ofBytes _))
  · obtain ⟨hcheck, -⟩ | ⟨e, hcheck, -, hrefused⟩ := load_reads_back.1 ⟨⟨""⟩, 7, "a/b", none⟩ _ _ _
      (hcontents _) (.inl (MapFile.toBytes_ofBytes _))
    · cases hcheck
    · cases hcheck
      exact ⟨hload, (load_reads_back.2 _ _ _ hload).2.2 _ _, hrefused⟩
  · cases hcheck

end Config

end ChangeTracking
