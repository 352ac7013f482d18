import ChangeTracking.Proofs.CanonicalBitmaps
import ChangeTracking.Proofs.Documents
import ChangeTracking.Proofs.Numerals
import ChangeTracking.Proofs.Paths
import ChangeTracking.Report
import Mathlib.Data.List.Sort

/-!
# Rendered pagemaps are read back

A report is all that a reader of pagemaps gets to see, and it is read with no more than what its
format says: lines that are cut at the tab (`Pagemap.readLines?`), or a document with a record for
each pagemap (`Pagemap.readDocument?`).  Either gives the paths and the bytes that were written, in
their order (`Pagemap.rendered_read_back`).

For lines it takes paths that have neither a tab nor a line end in them, since nothing is escaped
there.  No line is empty, as each has its tab, and so the empty text is left for the empty list.  In
a document strings are escaped, and every path comes back.

What was read is enough to know the changed blocks: they are the bits that are set in the bytes
(`Bitmap.toList_eq_setBits`), and as many as the record says.
-/

namespace ChangeTracking

/-! ## Bytes in base sixteen -/

namespace Bytes

open Text

/-- Two digits for each byte, that of the upper half first. -/
def smallHex (bytes : Bytes) : List Char :=
  bytes.flatMap fun b => [smallDigits.getD (b.toNat / 16) '0', smallDigits.getD (b.toNat % 16) '0']

lemma halves_lt (b : UInt8) : b.toNat / 16 < 16 ∧ b.toNat % 16 < 16 :=
  ⟨Nat.div_lt_of_lt_mul b.toNat_lt, Nat.mod_lt _ (by omega)⟩

lemma toHex_eq_smallHex (bytes : Bytes) : toHex bytes = smallHex bytes := by
  have hall : ∀ n : Fin 16, hexDigit n.val = smallDigits.getD n.val '0' := by decide
  refine List.flatMap_congr fun b _ => ?_
  rw [hall ⟨_, (halves_lt b).1⟩, hall ⟨_, (halves_lt b).2⟩]

lemma digitValue?_hexDigit {n : Nat} (h : n < 16) : digitValue? (hexDigit n) = some n := by
  have hall : ∀ n : Fin 16, digitValue? (hexDigit n.val) = some n.val := by decide
  exact hall ⟨n, h⟩

theorem ofHex?_toHex (bytes : Bytes) : ofHex? (toHex bytes) = some bytes := by
  induction bytes with
  | nil => rfl
  | cons b rest ih =>
    obtain ⟨hhigh, hlow⟩ := halves_lt b
    have hbyte : UInt8.ofNat (16 * (b.toNat / 16) + b.toNat % 16) = b := by
      rw [Nat.div_add_mod, UInt8.ofNat_toNat]
    have hpair : toHex (b :: rest)
        = hexDigit (b.toNat / 16) :: hexDigit (b.toNat % 16) :: toHex rest := rfl
    rw [hpair, ofHex?, digitValue?_hexDigit hhigh, digitValue?_hexDigit hlow, ih]
    simp only [Option.bind_eq_bind, Option.bind_some, Option.pure_def, hbyte]

/-- There is no line end among the digits. -/
lemma newline_notMem_toHex (bytes : Bytes) : '\n' ∉ toHex bytes := by
  have hdigit : ∀ {n : Nat}, n < 16 → '\n' ≠ hexDigit n := by
    intro n hn heq
    have hvalue := digitValue?_hexDigit hn
    rw [← heq] at hvalue
    cases hvalue
  intro hmem
  obtain ⟨b, -, hpair⟩ := List.mem_flatMap.mp hmem
  simp only [List.mem_cons, List.not_mem_nil, or_false] at hpair
  rcases hpair with hhigh | hlow
  · exact hdigit (halves_lt b).1 hhigh
  · exact hdigit (halves_lt b).2 hlow

/-- The numbers of the bits that are set, in ascending order. -/
def setBits (bytes : Bytes) : List Nat :=
  (List.range (8 * bytes.length)).filter fun n => (bytes.getD (n / 8) 0).toNat.testBit (n % 8)

end Bytes

/-- The members are the bits that are set. -/
lemma Bitmap.toList_eq_setBits (s : Bitmap) : s.toList = Bytes.setBits s.toBytes := by
  have hordered : (Bytes.setBits s.toBytes).Pairwise (· < ·) := List.pairwise_lt_range.filter _
  have hmem : ∀ n, n ∈ s.toList ↔ n ∈ Bytes.setBits s.toBytes := by
    intro n
    rw [mem_toList, ← bitAt_eq_contains, Bytes.setBits, List.mem_filter, List.mem_range]
    refine ⟨fun hset => ⟨?_, hset⟩, fun h => h.2⟩
    -- behind the end there is no bit that is set
    by_contra hend
    have hnone : s.toBytes[n / 8]? = none := List.getElem?_eq_none (by omega)
    simp [bitAt, hnone] at hset
  exact s.pairwise_toList.eq_of_mem_iff hordered hmem

/-! ## Lines -/

namespace Text

/-- Pieces without the separator come back when they are put together with it and cut. -/
lemma pieces_intercalate {sep : Char} {texts : List (List Char)} (hne : texts ≠ [])
    (h : ∀ text ∈ texts, sep ∉ text) : pieces sep ([sep].intercalate texts) = texts := by
  induction texts with
  | nil => exact absurd rfl hne
  | cons text rest ih =>
    have htext := pieces_of_notMem (h text List.mem_cons_self)
    cases rest with
    | nil => rw [List.intercalate_singleton, htext]
    | cons next rest =>
      have hrest := ih (List.cons_ne_nil next rest) fun text htext =>
        h text (List.mem_cons_of_mem _ htext)
      rw [List.intercalate_cons_cons, List.append_assoc, List.singleton_append, pieces_append,
        htext, hrest, List.singleton_append]

end Text

/-- What is read back one by one is read back as a list. -/
lemma mapM_map_eq_some {α β γ : Type} {write : α → β} {read? : β → Option γ} {shown : α → γ}
    {items : List α} (h : ∀ item ∈ items, read? (write item) = some (shown item)) :
    (items.map write).mapM read? = some (items.map shown) := by
  induction items with
  | nil => rfl
  | cons item rest ih =>
    have hrest := ih fun item hitem => h item (List.mem_cons_of_mem _ hitem)
    rw [List.map_cons, List.mapM_cons, h item List.mem_cons_self, hrest]
    rfl

namespace Pagemap

/-- What a report shows of a pagemap: the path and the bytes. -/
def shown (p : Pagemap) : String × Bytes := (p.path, p.blocks.toBytes)

lemma shown_injective : Function.Injective shown := by
  rintro ⟨path, ⟨bits⟩⟩ ⟨path', ⟨bits'⟩⟩ h
  obtain ⟨hpath, hbytes⟩ := Prod.mk.inj h
  obtain rfl : path = path' := hpath
  obtain rfl : bits = bits' := Array.toList_inj.mp hbytes
  rfl

/-- The path and the bytes of a line, which the first tab separates. -/
def readLine? (line : List Char) : Option (String × Bytes) := do
  let (path, digits) ← Text.cut '\t' line
  return (String.ofList path, ← Bytes.ofHex? digits)

/-- The paths and the bytes of a report in lines.  The empty text has no line. -/
def readLines? (report : String) : Option (List (String × Bytes)) :=
  if report = "" then some [] else (Text.pieces '\n' report.toList).mapM readLine?

/-- The path and the bytes of a record. -/
def readRecord? (v : Json) : Option (String × Bytes) :=
  match v.fields? ["path", "pagemap", "blocks"] with
  | some [some path, some digits, some _] => do
    return (← path.text?, ← Bytes.ofHex? (← digits.text?).toList)
  | _ => none

/-- The paths and the bytes of a report that is a document. -/
def readDocument? (report : String) : Option (List (String × Bytes)) :=
  match Json.parse? (Text.symbols report) with
  | some (.array items) => items.mapM readRecord?
  | _ => none

variable {pagemaps : List Pagemap}

/-! ### A record for each pagemap -/

/-- The record for a pagemap, spelled out. -/
lemma record_eq (p : Pagemap) :
    p.record = .record [("path", .text p.path),
      ("pagemap", .text (String.ofList (Bytes.smallHex p.blocks.toBytes))),
      ("blocks", .nat (Bytes.setBits p.blocks.toBytes).length)] := by
  rw [record, hex, Bytes.toHex_eq_smallHex, Bitmap.size_eq_length_toList,
    Bitmap.toList_eq_setBits]

lemma plain_record (p : Pagemap) : Json.Plain p.record := by
  refine .object _ (fun member hmember => ?_) (fun member hmember => ?_) <;>
    obtain ⟨⟨name, value⟩, hfield, rfl⟩ := List.mem_map.mp hmember
  · rfl
  · simp only [List.mem_cons, Prod.mk.injEq, List.not_mem_nil, or_false] at hfield
    rcases hfield with ⟨-, rfl⟩ | ⟨-, rfl⟩ | ⟨-, rfl⟩
    · exact .text _
    · exact .text _
    · exact .nat _

/-- The document is an array with a record for each pagemap. -/
lemma parse?_render (pagemaps : List Pagemap) :
    Json.parse? (Text.symbols (render .json pagemaps)) = some (.array (pagemaps.map record)) := by
  refine Json.parse?_pretty (.array _ fun v hv => ?_)
  obtain ⟨p, -, rfl⟩ := List.mem_map.mp hv
  exact plain_record p

lemma readRecord?_record (p : Pagemap) : readRecord? p.record = some p.shown := by
  have hfields : p.record.fields? ["path", "pagemap", "blocks"]
      = some [some (.text p.path), some (.text (String.ofList p.hex)),
          some (.nat p.blocks.size)] := rfl
  rw [readRecord?, hfields]
  simp [Json.text?, hex, Bytes.ofHex?_toHex, shown]

lemma readDocument?_render (pagemaps : List Pagemap) :
    readDocument? (render .json pagemaps) = some (pagemaps.map shown) := by
  rw [readDocument?, parse?_render]
  exact mapM_map_eq_some fun p _ => readRecord?_record p

/-! ### A line for each pagemap -/

/-- The path has neither a tab nor a line end. -/
def OnOneLine (p : Pagemap) : Prop := '\t' ∉ p.path.toList ∧ '\n' ∉ p.path.toList

instance (p : Pagemap) : Decidable (OnOneLine p) := inferInstanceAs (Decidable (_ ∧ _))

lemma toList_line (p : Pagemap) : p.line.toList = p.path.toList ++ '\t' :: p.hex := by
  simp [line]

lemma readLine?_line {p : Pagemap} (h : OnOneLine p) : readLine? p.line.toList = some p.shown := by
  rw [readLine?, toList_line, Text.cut_append h.1]
  simp [hex, Bytes.ofHex?_toHex, shown]

/-- Lines are written next to each other, with the line ends only between them. -/
lemma readLines?_render (h : ∀ p ∈ pagemaps, OnOneLine p) :
    readLines? (render .text pagemaps) = some (pagemaps.map shown) := by
  cases pagemaps with
  | nil => rfl
  | cons first rest =>
    have htext : (render .text (first :: rest)).toList
        = ['\n'].intercalate ((first :: rest).map fun p => p.line.toList) := by
      rw [render, String.toList_intercalate, List.map_map]
      rfl
    have hpieces : Text.pieces '\n' (render .text (first :: rest)).toList
        = (first :: rest).map fun p => p.line.toList := by
      rw [htext]
      refine Text.pieces_intercalate (List.cons_ne_nil _ _) fun text hmem => ?_
      obtain ⟨p, hp, rfl⟩ := List.mem_map.mp hmem
      simp [toList_line, (h p hp).2, hex, Bytes.newline_notMem_toHex]
    -- each line has its tab, so there is no text without one
    have hfull : render .text (first :: rest) ≠ "" := by
      intro hempty
      rw [hempty] at hpieces
      have hline : [] = first.line.toList := (List.cons.inj hpieces).1
      simp [toList_line] at hline
    rw [readLines?, if_neg hfull, hpieces]
    exact mapM_map_eq_some fun p hp => readLine?_line (h p hp)

/-- **Rendered pagemaps are read back.**  The document is, for every list of pagemaps, an array with
a record for each: its path, its bytes in base sixteen with small letters, and how many bits are set
in them.  The lines show the same paths and bytes, as long as no path has a tab or a line end.  In
either form only the same lists look the same, and the blocks that changed are the bits that are
set. -/
theorem rendered_read_back (pagemaps : List Pagemap) :
    Json.parse? (Text.symbols (render .json pagemaps))
      = some (.array (pagemaps.map fun p => .record [("path", .text p.path),
          ("pagemap", .text (String.ofList (Bytes.smallHex p.blocks.toBytes))),
          ("blocks", .nat (Bytes.setBits p.blocks.toBytes).length)])) ∧
    readDocument? (render .json pagemaps) = some (pagemaps.map shown) ∧
    (∀ others, render .json pagemaps = render .json others → pagemaps = others) ∧
    ((∀ p ∈ pagemaps, OnOneLine p) →
      readLines? (render .text pagemaps) = some (pagemaps.map shown) ∧
      ∀ others, (∀ p ∈ others, OnOneLine p) →
        render .text pagemaps = render .text others → pagemaps = others) ∧
    ∀ p ∈ pagemaps, p.blocks.toList = Bytes.setBits p.blocks.toBytes := by
  have hinjective := shown_injective.list_map
  refine ⟨?_, readDocument?_render pagemaps, fun others hsame => ?_, fun hpaths => ⟨?_, ?_⟩,
    fun p _ => p.blocks.toList_eq_setBits⟩
  · rw [parse?_render, List.map_congr_left fun p _ => record_eq p]
  · have hread := readDocument?_render others
    rw [← hsame, readDocument?_render] at hread
    exact hinjective (Option.some.inj hread)
  · exact readLines?_render hpaths
  · intro others hothers hsame
    have hread := readLines?_render hothers
    rw [← hsame, readLines?_render hpaths] at hread
    exact hinjective (Option.some.inj hread)

/-- Two pagemaps, the first with two blocks and the second with none. -/
def twoPagemaps : List Pagemap :=
  [⟨"base/5/16384", .ofList [1, 10]⟩, ⟨"global/1262", .empty⟩]

theorem rendered_read_back_twoPagemaps :
    (∀ p ∈ twoPagemaps, OnOneLine p) ∧
    render .text twoPagemaps = "base/5/16384\t0204\nglobal/1262\t" ∧
    readLines? "base/5/16384\t0204\nglobal/1262\t"
      = some [("base/5/16384", [0x02, 0x04]), ("global/1262", [])] := by
  have hpaths : ∀ p ∈ twoPagemaps, OnOneLine p := by decide
  have hrender : render .text twoPagemaps = "base/5/16384\t0204\nglobal/1262\t" := by
    decide +kernel
  obtain ⟨-, -, -, hlines, -⟩ := rendered_read_back twoPagemaps
  obtain ⟨hread, -⟩ := hlines hpaths
  rw [hrender] at hread
  exact ⟨hpaths, hrender, hread⟩

end Pagemap

end ChangeTracking
