import ChangeTracking.Json.Printer
import ChangeTracking.Json.Reader
import ChangeTracking.Proofs.LsnText
import Mathlib.Data.List.Forall2
import Mathlib.Tactic.IntervalCases

/-!
# Documents are read back

A document is read back from both of its written forms (`Json.parse?_compact` and
`Json.parse?_pretty`), as long as it is `Plain`: what was not kept when it was read cannot be
written either.

Both forms are ways to spell one list of tokens, `tokensOf`.  That a text `Spells` certain tokens
says what the lexer does with it wherever a token may start.  Only a numeral does not show its own
end: the lexer still holds it when its last digit is read, and lets go of it at the next character,
for which all that can follow a value is fit (`lexes_of_endsNumeral`).  So texts that spell tokens
can be put together, and what remains is to go through the document as the printer does.  The
builder is then followed over `tokensOf` alone, whatever is open around the value.
-/

namespace ChangeTracking.Json

/-- A document of which nothing was lost: all strings are texts, and all numbers are known. -/
inductive Plain : Json → Prop
  | null : Plain null
  | bool (b : Bool) : Plain (bool b)
  | nat (n : Nat) : Plain (nat n)
  | text (s : String) : Plain (text s)
  | array (items : List Json) (hitems : ∀ item ∈ items, Plain item) : Plain (array items)
  | object (members : List (Option String × Json))
      (hnames : ∀ member ∈ members, member.1.isSome = true)
      (hvalues : ∀ member ∈ members, Plain member.2) : Plain (object members)

mutual

/-- The tokens of a document. -/
def tokensOf : Json → List Token
  | array items => .openArray :: itemTokens items ++ [.closeArray]
  | object members => .openObject :: memberTokens members ++ [.closeObject]
  | atom => [.atom atom]

/-- The tokens of the items of an array. -/
def itemTokens : List Json → List Token
  | [] => []
  | [item] => tokensOf item
  | item :: rest => tokensOf item ++ .comma :: itemTokens rest

/-- The tokens of the members of an object. -/
def memberTokens : List (Option String × Json) → List Token
  | [] => []
  | [(name, value)] => .atom (string name) :: .colon :: tokensOf value
  | (name, value) :: rest =>
    .atom (string name) :: .colon :: tokensOf value ++ .comma :: memberTokens rest

end

/-! ## Texts that spell tokens -/

/-- The lexer run over the characters of a text. -/
def lexes (state : Lexer × List Token) (text : List Char) : Option (Lexer × List Token) :=
  (text.map some).foldlM lexSymbol state

/-- The tokens read, in reverse, if the text ends here. -/
def finish? : Lexer × List Token → Option (List Token)
  | (.between, tokens) => some tokens
  | (.numeral number plain value, tokens) =>
    if number.complete then some (.atom (numeralValue plain value) :: tokens) else none
  | _ => none

/-- The text is read as the given tokens, and they end with it. -/
def Closes (text : List Char) (tokens : List Token) : Prop :=
  ∀ before, lexes (.between, before) text = some (.between, tokens.reverse ++ before)

/-- The text is read as the given tokens, of which the last may still be held. -/
def Spells (text : List Char) (tokens : List Token) : Prop :=
  ∀ before, ∃ state, lexes (.between, before) text = some state ∧
    finish? state = some (tokens.reverse ++ before)

section Lexing

variable {state : Lexer × List Token} {text more : List Char} {tokens others : List Token}
  {c : Char}

lemma lexes_cons (state : Lexer) (tokens : List Token) (c : Char) (text : List Char) :
    lexes (state, tokens) (c :: text)
      = (lexChar state tokens c).bind fun next => lexes next text := rfl

lemma lexes_singleton (state : Lexer) (tokens : List Token) (c : Char) :
    lexes (state, tokens) [c] = lexChar state tokens c := by
  rw [lexes_cons]
  exact Option.bind_fun_some _

lemma lexes_append :
    lexes state (text ++ more) = (lexes state text).bind fun next => lexes next more := by
  rw [lexes, List.map_append, List.foldlM_append]
  rfl

lemma tokens?_eq (text : List (Option Char)) :
    tokens? text = ((text.foldlM lexSymbol (.between, [])).bind finish?).map List.reverse := by
  unfold tokens?
  cases text.foldlM lexSymbol (.between, []) with
  | none => rfl
  | some state =>
    obtain ⟨lexer, tokens⟩ := state
    cases lexer with
    | numeral number plain value => cases h : number.complete <;> simp [finish?, h]
    | between | literal | string | escape | code => rfl

/-- The characters that may follow a value. -/
def endsNumeral (c : Char) : Prop := c ∈ [',', ']', '\x7d', '\n']

lemma continueNumeral?_of_endsNumeral (hc : endsNumeral c) (number : NumeralState) (plain : Bool)
    (value : Nat) : continueNumeral? number plain value c = none := by
  simp only [endsNumeral, List.mem_cons, List.not_mem_nil, or_false] at hc
  rcases hc with rfl | rfl | rfl | rfl <;> cases number <;> rfl

/-- What follows a value finds the lexer as if the value had ended before. -/
lemma lexes_of_endsNumeral (hc : endsNumeral c) (hfinish : finish? state = some tokens)
    (text : List Char) : lexes state (c :: text) = lexes (.between, tokens) (c :: text) := by
  obtain ⟨lexer, read⟩ := state
  cases lexer with
  | between =>
    cases hfinish
    rfl
  | numeral number plain value =>
    by_cases hcomplete : number.complete = true
    · simp only [finish?, hcomplete, if_true, Option.some.injEq] at hfinish
      subst hfinish
      simp only [lexes_cons, lexChar, continueNumeral?_of_endsNumeral hc, hcomplete, if_true]
    · simp [finish?, hcomplete] at hfinish
  | literal | string | escape | code => cases hfinish

lemma Closes.nil : Closes [] [] := fun _ => rfl

lemma Closes.append (h : Closes text tokens) (hmore : Closes more others) :
    Closes (text ++ more) (tokens ++ others) := by
  intro before
  rw [lexes_append, h before, Option.bind_some, hmore]
  simp

lemma Closes.spells (h : Closes text tokens) : Spells text tokens :=
  fun before => ⟨_, h before, rfl⟩

lemma Closes.append_spells (h : Closes text tokens) (hmore : Spells more others) :
    Spells (text ++ more) (tokens ++ others) := by
  intro before
  obtain ⟨state, hlexes, hfinish⟩ := hmore (tokens.reverse ++ before)
  refine ⟨state, ?_, by simpa using hfinish⟩
  rw [lexes_append, h before, Option.bind_some, hlexes]

lemma Spells.append (h : Spells text tokens) (hc : endsNumeral c)
    (hmore : Spells (c :: more) others) : Spells (text ++ c :: more) (tokens ++ others) := by
  intro before
  obtain ⟨held, hlexes, hheld⟩ := h before
  obtain ⟨state, hrest, hfinish⟩ := hmore (tokens.reverse ++ before)
  refine ⟨state, ?_, by simpa using hfinish⟩
  rw [lexes_append, hlexes, Option.bind_some, lexes_of_endsNumeral hc hheld, hrest]

lemma closes_newline (depth : Nat) : Closes (newline depth) [] := by
  have hblanks : ∀ width, Closes (List.replicate width ' ') [] := by
    intro width
    induction width with
    | zero => exact Closes.nil
    | succ width ih => exact (show Closes [' '] [] from fun _ => rfl).append ih
  exact (show Closes ['\n'] [] from fun _ => rfl).append (hblanks (2 * depth))

end Lexing

/-! ## Values that are no array and no object -/

section Atoms

variable {tokens : List Token} {pieces : List Piece}

lemma lexes_digit (value : Nat) {digit : Nat} (hdigit : digit < 10) (tokens : List Token) :
    lexes (.numeral .integer true value, tokens) [Nat.digitChar digit]
      = some (.numeral .integer true (value * 10 + digit), tokens) := by
  have hall : ∀ d : Fin 10, Text.digitIn? 10 (Nat.digitChar d.val) = some d.val := by decide
  simp [lexes_singleton, lexChar, continueNumeral?, hall ⟨digit, hdigit⟩]

lemma lexes_decimal {n : Nat} (hn : 0 < n) (tokens : List Token) :
    lexes (.between, tokens) (Text.decimal n) = some (.numeral .integer true n, tokens) := by
  -- the last digit is what is left over, and the digits before it are those of a smaller number
  induction n using Nat.strongRecOn with
  | _ n ih =>
    by_cases hsmall : n < 10
    · interval_cases n <;> rfl
    · have hlast : n % 10 < 10 := Nat.mod_lt n (by omega)
      have hrest := ih (n / 10) (by omega) (by omega)
      rw [Text.decimal] at hrest
      rw [Text.decimal, Nat.toDigits_of_base_le (by omega) (by omega), lexes_append, hrest,
        Option.bind_some, lexes_digit _ hlast, Nat.div_add_mod' n 10]

lemma spells_decimal (n : Nat) : Spells (Text.decimal n) [.atom (.nat n)] := by
  intro before
  by_cases hn : n = 0
  · subst hn
    exact ⟨(.numeral .zero true 0, before), rfl, rfl⟩
  · exact ⟨_, lexes_decimal (Nat.pos_of_ne_zero hn) before, rfl⟩

/-! ### Strings -/

/-- A piece of a string that stands for a character on its own: the character, or the number of one
that may not stand there. -/
inductive Stands : Piece → Char → Prop
  | char (c : Char) : Stands (.char c) c
  | unit (c : Char) (hcontrol : c.toNat < 0x20) : Stands (.unit c.toNat) c

/-- A number that belongs to no surrogate stands for itself, whatever follows. -/
lemma assemble_unit {code : Nat} (hcode : code < 0xd800) (pieces : List Piece) :
    assemble (.unit code :: pieces)
      = (Text.charOfNat? code).bind fun c => (assemble pieces).map (c :: ·) := by
  have hlow : ¬ (0xd800 ≤ code ∧ code ≤ 0xdbff) := by omega
  cases pieces with
  | nil => rfl
  | cons piece rest =>
    cases piece with
    | unit low => simp [assemble, hlow]
    | char | stray => rfl

lemma assemble_stands {text : List Char} (h : List.Forall₂ Stands pieces text) :
    assemble pieces = some text := by
  induction h with
  | nil => rfl
  | @cons _ c _ _ hpiece _ ih =>
    cases hpiece with
    | char => simp [assemble, ih]
    | unit _ hcontrol =>
      have hchar : Text.charOfNat? c.toNat = some c := by
        rw [Text.charOfNat?, dif_pos (show c.toNat.isValidChar from c.valid)]
        rfl
      simp [assemble_unit (by omega : c.toNat < 0xd800), hchar, ih]

/-- Within a code all digits are read, and they give its number. -/
lemma lexes_code {digits : List Char} {value n : Nat} (hdigits : digits ≠ [])
    (hread : Text.readFrom? 16 value digits = some n) (pieces : List Piece) (tokens : List Token) :
    lexes (.code pieces digits.length value, tokens) digits
      = some (.string (.unit n :: pieces), tokens) := by
  induction digits generalizing value with
  | nil => exact absurd rfl hdigits
  | cons c rest ih =>
    rw [Text.readFrom?] at hread
    cases hdigit : Text.digitIn? 16 c with
    | none => simp [hdigit] at hread
    | some digit =>
      simp only [hdigit] at hread
      have hvalue : Text.digitValue? c = some digit := (Option.filter_eq_some_iff.mp hdigit).1
      cases rest with
      | nil =>
        obtain rfl := Option.some.inj hread
        simp [lexes_singleton, lexChar, hvalue]
      | cons next rest =>
        have hrest := ih (by simp) hread
        simpa [lexes_cons, lexChar, hvalue] using hrest

lemma lexes_lowerHex {n : Nat} (hn : n < 0x20) (pieces : List Piece) (tokens : List Token) :
    lexes (.code pieces 4 0, tokens) (Text.lowerHex 4 n)
      = some (.string (.unit n :: pieces), tokens) := by
  have hall : ∀ n : Fin 0x20, (Text.lowerHex 4 n.val).length = 4 ∧
      Text.readFrom? 16 0 (Text.lowerHex 4 n.val) = some n.val := by decide
  obtain ⟨hlength, hread⟩ := hall ⟨n, hn⟩
  have hlexes := lexes_code (by simp [← List.length_pos_iff, hlength]) hread pieces tokens
  rwa [hlength] at hlexes

lemma lexes_escapeChar (c : Char) : ∃ piece, Stands piece c ∧ ∀ pieces tokens,
    lexes (.string pieces, tokens) (escapeChar c) = some (.string (piece :: pieces), tokens) := by
  by_cases hletter : c ∈ ['\x22', '\\', '\x08', '\x0c', '\n', '\r', '\t']
  · refine ⟨.char c, .char c, fun pieces tokens => ?_⟩
    simp only [List.mem_cons, List.not_mem_nil, or_false] at hletter
    rcases hletter with rfl | rfl | rfl | rfl | rfl | rfl | rfl <;> rfl
  · simp only [List.mem_cons, List.not_mem_nil, or_false, not_or] at hletter
    by_cases hcontrol : c.toNat < 0x20
    · have hescape : escapeChar c = '\\' :: 'u' :: Text.lowerHex 4 c.toNat := by
        simp [escapeChar, hletter, hcontrol]
      refine ⟨.unit c.toNat, .unit c hcontrol, fun pieces tokens => ?_⟩
      rw [hescape]
      exact lexes_lowerHex hcontrol pieces tokens
    · refine ⟨.char c, .char c, fun pieces tokens => ?_⟩
      simp [escapeChar, hletter, hcontrol, lexes_singleton, lexChar]

lemma lexes_escaped (text : List Char) (pieces : List Piece) (tokens : List Token) :
    ∃ read, List.Forall₂ Stands read text ∧
      lexes (.string pieces, tokens) (text.flatMap escapeChar)
        = some (.string (read.reverse ++ pieces), tokens) := by
  induction text generalizing pieces with
  | nil => exact ⟨[], .nil, rfl⟩
  | cons c rest ih =>
    obtain ⟨piece, hstands, hlexes⟩ := lexes_escapeChar c
    obtain ⟨read, hread, hrest⟩ := ih (piece :: pieces)
    refine ⟨piece :: read, .cons hstands hread, ?_⟩
    rw [List.flatMap_cons, lexes_append, hlexes, Option.bind_some, hrest]
    simp

lemma closes_printString (text : String) : Closes (printString text) [.atom (.text text)] := by
  intro before
  obtain ⟨read, hread, hlexes⟩ := lexes_escaped text.toList [] before
  have hopen : lexes (.between, before) ['\x22'] = some (.string [], before) := rfl
  have hquote : printString text = ['\x22'] ++ (text.toList.flatMap escapeChar ++ ['\x22']) := rfl
  rw [hquote, lexes_append, hopen, Option.bind_some, lexes_append, hlexes, Option.bind_some,
    lexes_singleton]
  simp [lexChar, assemble_stands hread]

/-- What is neither an array nor an object is written as one token. -/
lemma spells_atom {v : Json} (h : Plain v) (hatom : tokensOf v = [.atom v]) :
    Spells (printAtom v) (tokensOf v) := by
  rw [hatom]
  cases h with
  | null => exact Closes.spells fun _ => rfl
  | bool b => cases b <;> exact Closes.spells fun _ => rfl
  | nat n => exact spells_decimal n
  | text s => exact (closes_printString s).spells
  | array | object => cases hatom

end Atoms

/-! ## Whole documents -/

lemma spells_intercalate {α : Type} {write : α → List Char} {tokens : α → List Token}
    {items : List α} (h : ∀ item ∈ items, Spells (write item) (tokens item)) :
    Spells ([','].intercalate (items.map write)) ([.comma].intercalate (items.map tokens)) := by
  induction items with
  | nil => exact Closes.nil.spells
  | cons item rest ih =>
    cases rest with
    | nil => simpa using h item List.mem_cons_self
    | cons next rest =>
      have hrest := ih fun item hitem => h item (List.mem_cons_of_mem _ hitem)
      have hcomma : Closes [','] [.comma] := fun _ => rfl
      have hmore := (h item List.mem_cons_self).append (by simp [endsNumeral])
        (hcomma.append_spells hrest)
      simpa using hmore

/-- A list that is written one after another, with a separator before each but the first. -/
lemma eq_intercalate {α β : Type} {writeAll : List α → List β} {write : α → List β} {sep : β}
    (hnil : writeAll [] = []) (hone : ∀ item, writeAll [item] = write item)
    (hmore : ∀ item next rest,
      writeAll (item :: next :: rest) = write item ++ sep :: writeAll (next :: rest))
    (items : List α) : writeAll items = [sep].intercalate (items.map write) := by
  induction items with
  | nil => exact hnil
  | cons item rest ih =>
    cases rest with
    | nil => rw [hone, List.map_singleton, List.intercalate_singleton]
    | cons next rest =>
      rw [hmore, ih, List.map_cons, List.map_cons, List.map_cons, List.intercalate_cons_cons,
        List.append_assoc, List.singleton_append]

lemma itemTokens_eq (items : List Json) :
    itemTokens items = [.comma].intercalate (items.map tokensOf) :=
  eq_intercalate rfl (fun _ => rfl) (fun _ _ _ => rfl) items

/-- The tokens of a member of an object. -/
def memberToken (member : Option String × Json) : List Token :=
  .atom (string member.1) :: .colon :: tokensOf member.2

lemma memberTokens_eq (members : List (Option String × Json)) :
    memberTokens members = [.comma].intercalate (members.map memberToken) :=
  eq_intercalate rfl (fun _ => rfl) (fun _ _ _ => rfl) members

lemma compactItems_eq (items : List Json) :
    compactItems items = [','].intercalate (items.map compactChars) :=
  eq_intercalate rfl (fun _ => rfl) (fun _ _ _ => rfl) items

lemma compactMembers_eq (members : List (Option String × Json)) :
    compactMembers members = [','].intercalate
      (members.map fun member => printAtom (string member.1) ++ ':' :: compactChars member.2) :=
  eq_intercalate rfl (fun _ => rfl) (fun _ _ _ => rfl) members

lemma prettyItems_eq (depth : Nat) (items : List Json) :
    prettyItems depth items
      = [','].intercalate (items.map fun item => newline depth ++ prettyChars depth item) :=
  eq_intercalate rfl (fun _ => rfl) (fun _ _ _ => rfl) items

lemma prettyMembers_eq (depth : Nat) (members : List (Option String × Json)) :
    prettyMembers depth members
      = [','].intercalate (members.map fun member => newline depth
          ++ (printAtom (string member.1) ++ ':' :: ' ' :: prettyChars depth member.2)) :=
  eq_intercalate rfl (fun _ => by simp [prettyMembers]) (fun _ _ _ => by simp [prettyMembers])
    members

lemma spells_member {member : Option String × Json} {text : List Char}
    (hname : member.1.isSome = true) (hvalue : Spells text (tokensOf member.2)) :
    Spells (printAtom (string member.1) ++ ':' :: text) (memberToken member) := by
  obtain ⟨name, value⟩ := member
  obtain ⟨name, rfl⟩ := Option.isSome_iff_exists.mp hname
  have hcolon : Closes [':'] [.colon] := fun _ => rfl
  exact (closes_printString name).append_spells (hcolon.append_spells hvalue)

variable {v : Json}

theorem spells_compactChars (h : Plain v) : Spells (compactChars v) (tokensOf v) := by
  induction h with
  | null => exact spells_atom .null rfl
  | bool b => exact spells_atom (.bool b) rfl
  | nat n => exact spells_atom (.nat n) rfl
  | text s => exact spells_atom (.text s) rfl
  | array items _ ih =>
    have hopen : Closes ['['] [.openArray] := fun _ => rfl
    have hclose : Closes [']'] [.closeArray] := fun _ => rfl
    have hitems : Spells (compactItems items) (itemTokens items) := by
      rw [compactItems_eq, itemTokens_eq]
      exact spells_intercalate ih
    exact hopen.append_spells (hitems.append (by simp [endsNumeral]) hclose.spells)
  | object members hnames _ ih =>
    have hopen : Closes ['\x7b'] [.openObject] := fun _ => rfl
    have hclose : Closes ['\x7d'] [.closeObject] := fun _ => rfl
    have hmembers : Spells (compactMembers members) (memberTokens members) := by
      rw [compactMembers_eq, memberTokens_eq]
      exact spells_intercalate fun member hmember =>
        spells_member (hnames member hmember) (ih member hmember)
    exact hopen.append_spells (hmembers.append (by simp [endsNumeral]) hclose.spells)

theorem spells_prettyChars (h : Plain v) (depth : Nat) :
    Spells (prettyChars depth v) (tokensOf v) := by
  induction h generalizing depth with
  | null => exact spells_atom .null rfl
  | bool b => exact spells_atom (.bool b) rfl
  | nat n => exact spells_atom (.nat n) rfl
  | text s => exact spells_atom (.text s) rfl
  | array items _ ih =>
    have hopen : Closes ['['] [.openArray] := fun _ => rfl
    have hclose : Closes [']'] [.closeArray] := fun _ => rfl
    have hitems : Spells (prettyItems (depth + 1) items) (itemTokens items) := by
      rw [prettyItems_eq, itemTokens_eq]
      exact spells_intercalate fun item hitem =>
        (closes_newline (depth + 1)).append_spells (ih item hitem (depth + 1))
    cases items with
    | nil => exact (hopen.append hclose).spells
    | cons item rest =>
      have hend := (closes_newline depth).append hclose
      have htext := hopen.append_spells (hitems.append (by simp [endsNumeral]) hend.spells)
      simpa [prettyChars, tokensOf, newline] using htext
  | object members hnames _ ih =>
    have hopen : Closes ['\x7b'] [.openObject] := fun _ => rfl
    have hclose : Closes ['\x7d'] [.closeObject] := fun _ => rfl
    have hmembers : Spells (prettyMembers (depth + 1) members) (memberTokens members) := by
      rw [prettyMembers_eq, memberTokens_eq]
      refine spells_intercalate fun member hmember => ?_
      have hblank : Closes [' '] [] := fun _ => rfl
      have hvalue := hblank.append_spells (ih member hmember (depth + 1))
      exact (closes_newline (depth + 1)).append_spells
        (spells_member (hnames member hmember) hvalue)
    cases members with
    | nil => exact (hopen.append hclose).spells
    | cons member rest =>
      have hend := (closes_newline depth).append hclose
      have htext := hopen.append_spells (hmembers.append (by simp [endsNumeral]) hend.spells)
      simpa [prettyChars, tokensOf, newline] using htext

/-! ## From tokens to values -/

/-- The builder run over tokens. -/
def builds (state : Builder) (tokens : List Token) : Option Builder :=
  tokens.foldlM Builder.step state

/-- Wherever a value may come, the tokens are put together to the given one. -/
def Builds (tokens : List Token) (v : Json) : Prop :=
  ∀ stack rest, builds (.value stack) (tokens ++ rest) = builds (.add v stack) rest

lemma builds_cons (state : Builder) (token : Token) (tokens : List Token) :
    builds state (token :: tokens) = (state.step token).bind fun next => builds next tokens := rfl

/-- Where an item may come first an array may also end, but no value starts with that. -/
lemma builds_firstItem (v : Json) (stack : List Frame) (rest : List Token) :
    builds (.firstItem stack) (tokensOf v ++ rest)
      = builds (.value (.array [] :: stack)) (tokensOf v ++ rest) := by
  cases v <;> rfl

lemma builds_openArray (item : Json) (more : List Json) (stack : List Frame) (rest : List Token) :
    builds (.value stack) (tokensOf (array (item :: more)) ++ rest)
      = builds (.value (.array [] :: stack))
          (itemTokens (item :: more) ++ .closeArray :: rest) := by
  obtain ⟨tail, htail⟩ : ∃ tail, itemTokens (item :: more) = tokensOf item ++ tail := by
    cases more with
    | nil => exact ⟨[], (List.append_nil _).symm⟩
    | cons next more => exact ⟨_, rfl⟩
  simp only [tokensOf, htail, List.cons_append, List.append_assoc, List.nil_append]
  exact builds_firstItem item stack _

lemma builds_openObject (member : Option String × Json) (more : List (Option String × Json))
    (stack : List Frame) (rest : List Token) :
    builds (.value stack) (tokensOf (object (member :: more)) ++ rest)
      = builds (.name [] stack) (memberTokens (member :: more) ++ .closeObject :: rest) := by
  obtain ⟨tail, htail⟩ : ∃ tail, memberTokens (member :: more) = memberToken member ++ tail := by
    cases more with
    | nil => exact ⟨[], (List.append_nil _).symm⟩
    | cons next more => exact ⟨_, rfl⟩
  simp only [tokensOf, htail, List.cons_append, List.append_assoc, List.nil_append]
  rfl

lemma builds_items {items : List Json} (h : ∀ item ∈ items, Builds (tokensOf item) item)
    (hne : items ≠ []) (done : List Json) (stack : List Frame) (rest : List Token) :
    builds (.value (.array done :: stack)) (itemTokens items ++ .closeArray :: rest)
      = builds (.add (.array (done.reverse ++ items)) stack) rest := by
  induction items generalizing done with
  | nil => exact absurd rfl hne
  | cons item more ih =>
    have hitem := h item List.mem_cons_self
    cases more with
    | nil =>
      rw [itemTokens, hitem]
      simp [Builder.add, builds_cons, Builder.step]
    | cons next more =>
      have htokens : itemTokens (item :: next :: more)
          = tokensOf item ++ .comma :: itemTokens (next :: more) := rfl
      have hmore := ih (fun item hitem => h item (List.mem_cons_of_mem _ hitem)) (by simp)
        (item :: done)
      rw [htokens, List.append_assoc, hitem, List.cons_append, builds_cons]
      simpa [Builder.add, Builder.step] using hmore

lemma builds_member {member : Option String × Json} (h : Builds (tokensOf member.2) member.2)
    (done : List (Option String × Json)) (stack : List Frame) (rest : List Token) :
    builds (.name done stack) (memberToken member ++ rest)
      = builds (.afterMember (member :: done) stack) rest :=
  h (.object done member.1 :: stack) rest

lemma builds_members {members : List (Option String × Json)}
    (h : ∀ member ∈ members, Builds (tokensOf member.2) member.2) (hne : members ≠ [])
    (done : List (Option String × Json)) (stack : List Frame) (rest : List Token) :
    builds (.name done stack) (memberTokens members ++ .closeObject :: rest)
      = builds (.add (.object (done.reverse ++ members)) stack) rest := by
  induction members generalizing done with
  | nil => exact absurd rfl hne
  | cons member more ih =>
    have hmember := builds_member (h member List.mem_cons_self) done stack
    cases more with
    | nil =>
      have htokens : memberTokens [member] = memberToken member := rfl
      rw [htokens, hmember]
      simp [builds_cons, Builder.step]
    | cons next more =>
      have htokens : memberTokens (member :: next :: more)
          = memberToken member ++ .comma :: memberTokens (next :: more) := rfl
      have hmore := ih (fun member hmember => h member (List.mem_cons_of_mem _ hmember)) (by simp)
        (member :: done)
      rw [htokens, List.append_assoc, hmember, List.cons_append, builds_cons]
      simpa [Builder.step] using hmore

theorem builds_tokensOf (h : Plain v) : Builds (tokensOf v) v := by
  -- the hypothesis for the parts speaks of all stacks: a part is read on top of what it stands in
  induction h with
  | null | bool | nat | text => exact fun _ _ => rfl
  | array items _ ih =>
    intro stack rest
    cases items with
    | nil => rfl
    | cons item more =>
      rw [builds_openArray, builds_items ih (List.cons_ne_nil item more)]
      rfl
  | object members _ _ ih =>
    intro stack rest
    cases members with
    | nil => rfl
    | cons member more =>
      rw [builds_openObject, builds_members ih (List.cons_ne_nil member more)]
      rfl

/-- A text that spells the tokens of a document is read as the document. -/
lemma parse?_of_spells {text : String} (h : Plain v) (hspells : Spells text.toList (tokensOf v)) :
    parse? (Text.symbols text) = some v := by
  obtain ⟨state, hlexes, hfinish⟩ := hspells []
  have htokens : tokens? (Text.symbols text) = some (tokensOf v) := by
    rw [lexes] at hlexes
    simp [tokens?_eq, Text.symbols, hlexes, hfinish]
  have hvalue : (tokensOf v).foldlM Builder.step (.value []) = some (.done v) := by
    simpa [builds, Builder.add] using builds_tokensOf h [] []
  simp [parse?, htokens, ofTokens?, hvalue]

/-- The form without blanks is read back. -/
theorem parse?_compact (h : Plain v) : parse? (Text.symbols v.compact) = some v := by
  refine parse?_of_spells h ?_
  rw [compact, String.toList_ofList]
  exact spells_compactChars h

/-- The form with lines is read back. -/
theorem parse?_pretty (h : Plain v) : parse? (Text.symbols v.pretty) = some v := by
  refine parse?_of_spells h ?_
  rw [pretty, String.toList_ofList]
  exact spells_prettyChars h 0

end ChangeTracking.Json
