import ChangeTracking.ChangeMap
import ChangeTracking.Proofs.LsnOrder
import Mathlib.Data.List.Perm.Basic
import Mathlib.Order.Bounds.Basic
import Mathlib.Order.MinMax

/-!
# What a change map holds after marking

A mark raises one slot to the maximum of what it held and the marked position, and leaves all other
slots alone.  So after any marks a slot holds the maximum of its first value and of all positions at
which a block of the slot was marked, in whatever order that happened.  The start of the epoch is
different: a map that does not know it takes the first position that it is marked at, so there the
order counts.

`markAll` runs a list of marks, and `markAnswers` lists what each of them answers.  The main result
is `markAll_spec`.
-/

namespace ChangeTracking

namespace ChangeMap

/-- What a slot holds; nothing is held outside the map. -/
def slot (m : ChangeMap) (j : Nat) : Lsn := m.slots.getD j Lsn.never

/-- The map after the given marks, in their order. -/
def markAll (m : ChangeMap) (marks : List (Block × Lsn)) : ChangeMap :=
  marks.foldl (fun m mark => m.mark mark.1 mark.2) m

/-- The answers to the given marks, in their order. -/
def markAnswers (m : ChangeMap) : List (Block × Lsn) → List Lsn
  | [] => []
  | (b, l) :: rest => (m.markAndRead b l).1 :: (m.markAndRead b l).2.markAnswers rest

/-! ## One mark -/

lemma slot_eq_getElem {m : ChangeMap} {j : Nat} (h : j < m.slots.size) : m.slot j = m.slots[j] := by
  simp [slot, h]

lemma read_eq_slot (m : ChangeMap) (b : Block) : m.read b = m.slot (m.slotOf b) :=
  (slot_eq_getElem (m.slotOf_lt b)).symm

/-- Maps of the same size with the same slots are the same up to epoch and validity. -/
lemma slots_ext {m m' : ChangeMap} (hsize : m'.slots.size = m.slots.size)
    (hslot : ∀ j, m'.slot j = m.slot j) : m'.slots = m.slots := by
  apply Array.ext hsize
  intro j hj hj'
  rw [← slot_eq_getElem hj, ← slot_eq_getElem hj', hslot]

@[simp] lemma size_mark (m : ChangeMap) (b : Block) (l : Lsn) :
    (m.mark b l).slots.size = m.slots.size := by
  unfold mark
  split
  · simp
  · rfl

@[simp] lemma valid_mark (m : ChangeMap) (b : Block) (l : Lsn) : (m.mark b l).valid = m.valid := by
  unfold mark
  split <;> rfl

lemma slotOf_eq_of_size {m m' : ChangeMap} (h : m'.slots.size = m.slots.size) (b : Block) :
    m'.slotOf b = m.slotOf b := by
  simp only [slotOf, h]

@[simp] lemma slotOf_mark (m : ChangeMap) (b c : Block) (l : Lsn) :
    (m.mark b l).slotOf c = m.slotOf c :=
  slotOf_eq_of_size (m.size_mark b l) c

lemma epoch_mark (m : ChangeMap) (b : Block) (l : Lsn) :
    (m.mark b l).epoch = if m.epoch = Lsn.never then l else m.epoch := by
  by_cases hl : l.known
  · simp [mark, hl]
  · obtain rfl := Lsn.eq_never_of_not_known hl
    by_cases he : m.epoch = Lsn.never <;> simp [mark, he]

/-- A mark raises the block's slot and no other. -/
lemma slot_mark (m : ChangeMap) (b : Block) (l : Lsn) (j : Nat) :
    (m.mark b l).slot j = if j = m.slotOf b then max (m.slot j) l else m.slot j := by
  by_cases hl : l.known
  · have hb := m.slotOf_lt b
    simp only [mark, hl, if_true, slot, Array.getD_eq_getD_getElem?, Array.getElem?_modify]
    by_cases hj : j = m.slotOf b
    · subst hj
      simp [hb, Lsn.latest_eq_max]
    · simp [hj, Ne.symm hj]
  · obtain rfl := Lsn.eq_never_of_not_known hl
    simp [mark]

/-- What a mark answers is what the block's slot holds after it. -/
lemma markAndRead_fst (m : ChangeMap) (b : Block) (l : Lsn) :
    (m.markAndRead b l).1 = (m.mark b l).read b := by
  rw [read_eq_slot, slotOf_mark, slot_mark, if_pos rfl, markAndRead, read_eq_slot]
  split
  · next hl => exact Lsn.latest_eq_max _ _
  · next hl => rw [Lsn.eq_never_of_not_known hl, Lsn.max_never]

/-! ## Many marks -/

@[simp] lemma markAll_nil (m : ChangeMap) : m.markAll [] = m := rfl

@[simp] lemma markAll_cons (m : ChangeMap) (mark : Block × Lsn) (marks : List (Block × Lsn)) :
    m.markAll (mark :: marks) = (m.mark mark.1 mark.2).markAll marks := rfl

lemma markAll_append (m : ChangeMap) (first second : List (Block × Lsn)) :
    m.markAll (first ++ second) = (m.markAll first).markAll second := by
  simp [markAll, List.foldl_append]

@[simp] lemma size_markAll (m : ChangeMap) (marks : List (Block × Lsn)) :
    (m.markAll marks).slots.size = m.slots.size := by
  induction marks generalizing m with
  | nil => rfl
  | cons mark rest ih => rw [markAll_cons, ih, size_mark]

@[simp] lemma valid_markAll (m : ChangeMap) (marks : List (Block × Lsn)) :
    (m.markAll marks).valid = m.valid := by
  induction marks generalizing m with
  | nil => rfl
  | cons mark rest ih => rw [markAll_cons, ih, valid_mark]

lemma slotOf_markAll (m : ChangeMap) (marks : List (Block × Lsn)) (b : Block) :
    (m.markAll marks).slotOf b = m.slotOf b :=
  slotOf_eq_of_size (m.size_markAll marks) b

/-- A slot holds the greatest of its first value and of the positions at which its blocks were
marked. -/
lemma slot_markAll (m : ChangeMap) (marks : List (Block × Lsn)) (j : Nat) :
    IsGreatest (insert (m.slot j) {l | ∃ b, (b, l) ∈ marks ∧ m.slotOf b = j})
      ((m.markAll marks).slot j) := by
  induction marks generalizing m with
  | nil => simp
  | cons mark rest ih =>
    obtain ⟨b, l⟩ := mark
    obtain ⟨hmem, hupper⟩ := ih (m.mark b l)
    rw [markAll_cons]
    have hfirst : m.slot j ≤ (m.mark b l).slot j ∧ (m.slotOf b = j → l ≤ (m.mark b l).slot j) := by
      rw [slot_mark]
      split
      · next hj => exact ⟨le_max_left _ _, fun _ => le_max_right _ _⟩
      · next hj => exact ⟨le_rfl, fun h => absurd h.symm hj⟩
    have hle := hupper (Set.mem_insert _ _)
    constructor
    · rcases hmem with heq | ⟨c, hc, hcj⟩
      · rw [heq, slot_mark]
        split
        · next hj =>
          rcases max_choice (m.slot j) l with hmax | hmax
          · exact .inl hmax
          · exact .inr ⟨b, by simp [hmax], hj.symm⟩
        · exact .inl rfl
      · exact .inr ⟨c, List.mem_cons_of_mem _ hc, by rwa [slotOf_mark] at hcj⟩
    · rintro x (rfl | ⟨c, hc, hcj⟩)
      · exact hfirst.1.trans hle
      · rcases List.mem_cons.mp hc with heq | hrest
        · obtain ⟨rfl, rfl⟩ := Prod.mk.inj heq
          exact (hfirst.2 hcj).trans hle
        · exact hupper (.inr ⟨c, hrest, by rwa [slotOf_mark]⟩)

lemma slot_le_markAll (m : ChangeMap) (marks : List (Block × Lsn)) (j : Nat) :
    m.slot j ≤ (m.markAll marks).slot j :=
  (m.slot_markAll marks j).2 (Set.mem_insert _ _)

lemma le_read_markAll {m : ChangeMap} {marks : List (Block × Lsn)} {b : Block} {l : Lsn}
    (h : (b, l) ∈ marks) : l ≤ (m.markAll marks).read b := by
  rw [read_eq_slot, slotOf_markAll]
  exact (m.slot_markAll marks _).2 (.inr ⟨b, h, rfl⟩)

/-- What a block reads beyond its first value was marked on a block of the same slot. -/
lemma mem_marks_of_read_lt {m : ChangeMap} {marks : List (Block × Lsn)} {b : Block}
    (h : m.read b < (m.markAll marks).read b) :
    ∃ c, m.slotOf c = m.slotOf b ∧ (c, (m.markAll marks).read b) ∈ marks := by
  rw [read_eq_slot, read_eq_slot, slotOf_markAll] at *
  rcases (m.slot_markAll marks (m.slotOf b)).1 with heq | ⟨c, hc, hslot⟩
  · exact absurd heq h.ne'
  · exact ⟨c, hslot, hc⟩

/-- The order of marks does not count for the slots. -/
lemma slots_markAll_perm (m : ChangeMap) {marks marks' : List (Block × Lsn)}
    (h : marks'.Perm marks) : (m.markAll marks').slots = (m.markAll marks).slots := by
  apply slots_ext
  · simp
  · intro j
    refine (m.slot_markAll marks' j).unique ?_
    simpa only [h.mem_iff] using m.slot_markAll marks j

/-- The epoch of a map that does not know it starts with the first known position. -/
lemma epoch_markAll (m : ChangeMap) (marks : List (Block × Lsn)) :
    (m.markAll marks).epoch =
      if m.epoch.known then m.epoch
      else ((marks.map Prod.snd).find? Lsn.known).getD Lsn.never := by
  induction marks generalizing m with
  | nil =>
    split
    · rfl
    · next h => simp [Lsn.eq_never_of_not_known h]
  | cons mark rest ih =>
    obtain ⟨b, l⟩ := mark
    rw [markAll_cons, ih, epoch_mark]
    by_cases he : m.epoch = Lsn.never
    · by_cases hl : l.known
      · simp [he, hl]
      · simp [he, hl]
    · simp [he, Lsn.known_iff.mpr he]

lemma epoch_markAll_of_known {m : ChangeMap} (h : m.epoch.known = true)
    (marks : List (Block × Lsn)) : (m.markAll marks).epoch = m.epoch := by
  rw [epoch_markAll, if_pos h]

/-- Marks start an epoch at the latest of their positions at most. -/
lemma epoch_markAll_le {m : ChangeMap} {marks : List (Block × Lsn)} {l : Lsn} (hm : m.epoch ≤ l)
    (hmarks : ∀ mark ∈ marks, mark.2 ≤ l) : (m.markAll marks).epoch ≤ l := by
  rw [epoch_markAll]
  split
  · exact hm
  · cases hfind : (marks.map Prod.snd).find? Lsn.known with
    | none => exact Lsn.never_le l
    | some first =>
      obtain ⟨mark, hmark, rfl⟩ := List.mem_map.mp (List.mem_of_find?_eq_some hfind)
      exact hmarks mark hmark

/-- Marks at no position leave a map as it is. -/
lemma markAll_of_unknown {m : ChangeMap} {marks : List (Block × Lsn)}
    (h : ∀ mark ∈ marks, mark.2 = Lsn.never) : m.markAll marks = m := by
  induction marks with
  | nil => rfl
  | cons mark rest ih =>
    have hmark : m.mark mark.1 mark.2 = m := by
      rw [h mark List.mem_cons_self]
      rfl
    rw [markAll_cons, hmark]
    exact ih fun other hother => h other (List.mem_cons_of_mem mark hother)

lemma markAnswers_getElem? (m : ChangeMap) (marks : List (Block × Lsn)) {i : Nat} {b : Block}
    {l : Lsn} (h : marks[i]? = some (b, l)) :
    (m.markAnswers marks)[i]? = some ((m.markAll (marks.take (i + 1))).read b) := by
  induction marks generalizing m i with
  | nil => simp at h
  | cons mark rest ih =>
    cases i with
    | zero =>
      simp only [List.getElem?_cons_zero, Option.some.injEq] at h
      subst h
      simp [markAnswers, markAndRead_fst]
    | succ i =>
      rw [List.getElem?_cons_succ] at h
      simpa [markAnswers, markAndRead] using ih _ h

/-- A map made empty that does not know its epoch has not been marked. -/
lemma slot_markAll_of_epoch {m : ChangeMap} (hempty : ∀ j, m.slot j = Lsn.never)
    {marks : List (Block × Lsn)} (h : (m.markAll marks).epoch = Lsn.never) (j : Nat) :
    (m.markAll marks).slot j = Lsn.never := by
  have hunknown : ∀ b l, (b, l) ∈ marks → l = Lsn.never := by
    intro b l hmark
    by_contra hne
    rw [epoch_markAll] at h
    split at h
    · next hknown => exact Lsn.known_iff.mp hknown h
    · have hsome : ((marks.map Prod.snd).find? Lsn.known).isSome := by
        rw [List.find?_isSome]
        exact ⟨l, List.mem_map_of_mem hmark, Lsn.known_iff.mpr hne⟩
      obtain ⟨x, hx⟩ := Option.isSome_iff_exists.mp hsome
      rw [hx, Option.getD_some] at h
      exact Lsn.known_iff.mp (List.find?_some hx) h
  rcases (m.slot_markAll marks j).1 with heq | ⟨b, hb, -⟩
  · rw [heq, hempty]
  · exact hunknown b _ hb

lemma slot_empty {count : Nat} {epoch : Lsn} (h : 0 < count ∧ count ≤ slotLimit) (j : Nat) :
    (empty count epoch h).slot j = Lsn.never := by
  simp only [slot, empty, Array.getD_eq_getD_getElem?, Array.getElem?_replicate]
  split <;> rfl

lemma exists_create {bytes : UInt64} (h : GoodMapSize bytes) (epoch : Lsn) :
    ∃ m, create bytes epoch = .ok m :=
  ⟨_, by rw [create, dif_pos h]⟩

lemma create_error {bytes : UInt64} (h : ¬ GoodMapSize bytes) (epoch : Lsn) :
    create bytes epoch = .error (.invalidMapSize bytes) := by
  rw [create, dif_neg h]

section Create

variable {bytes : UInt64} {epoch : Lsn} {m : ChangeMap} (h : create bytes epoch = .ok m)

include h

lemma slot_create (j : Nat) : m.slot j = Lsn.never := by
  unfold create at h
  split at h
  · cases h
    exact slot_empty _ j
  · cases h

lemma epoch_create : m.epoch = epoch := by
  unfold create at h
  split at h
  · cases h
    rfl
  · cases h

lemma valid_create : m.valid = true := by
  unfold create at h
  split at h
  · cases h
    rfl
  · cases h

lemma slotCount_create : m.slotCount = bytes.toNat / slotBytes := by
  unfold create at h
  split at h
  · cases h
    exact Array.size_replicate
  · cases h

end Create

/-! ## The meaning of a map -/

/-- **Marks mean what they should.**  After any marks a slot holds the greatest of its first value
and of the positions of its blocks, each answer is what the block's slot held right after the mark,
and the epoch is the first known of the map's own and the marked positions.  So slots never move
back, the order of marks does not count for them, no block reads less than it was marked at, and
what it reads beyond comes from another block of its slot. -/
theorem markAll_spec (m : ChangeMap) (marks : List (Block × Lsn)) :
    (∀ j, IsGreatest (insert (m.slot j) {l | ∃ b, (b, l) ∈ marks ∧ m.slotOf b = j})
      ((m.markAll marks).slot j)) ∧
    -- the answers
    (∀ i b l, marks[i]? = some (b, l) →
      (m.markAnswers marks)[i]? = some ((m.markAll (marks.take (i + 1))).read b) ∧
        l ≤ (m.markAll (marks.take (i + 1))).read b) ∧
    -- what else there is in a map
    ((m.markAll marks).epoch =
        if m.epoch.known then m.epoch
        else ((marks.map Prod.snd).find? Lsn.known).getD Lsn.never) ∧
    (m.markAll marks).valid = m.valid ∧
    (m.markAll marks).slotCount = m.slotCount ∧
    -- slots in the course of time, and under another order of marks
    (∀ i k j, i ≤ k → (m.markAll (marks.take i)).slot j ≤ (m.markAll (marks.take k)).slot j) ∧
    (∀ marks' : List (Block × Lsn), marks'.Perm marks →
      (m.markAll marks').slots = (m.markAll marks).slots) ∧
    -- what blocks read
    (∀ b l, (b, l) ∈ marks → l ≤ (m.markAll marks).read b) ∧
    (∀ b, m.read b < (m.markAll marks).read b →
      (∀ l, (b, l) ∈ marks → l < (m.markAll marks).read b) →
      ∃ c, c ≠ b ∧ m.slotOf c = m.slotOf b ∧ (c, (m.markAll marks).read b) ∈ marks) ∧
    -- a map that was made empty
    (∀ bytes epoch, create bytes epoch = .ok m → (m.markAll marks).epoch = Lsn.never →
      ∀ j, (m.markAll marks).slot j = Lsn.never) := by
  refine ⟨m.slot_markAll marks, ?_, m.epoch_markAll marks, m.valid_markAll marks,
    m.size_markAll marks, ?_, fun _ => m.slots_markAll_perm, fun _ _ => le_read_markAll, ?_, ?_⟩
  · intro i b l hmark
    refine ⟨m.markAnswers_getElem? marks hmark, le_read_markAll ?_⟩
    apply List.mem_of_getElem? (i := i)
    rw [List.getElem?_take_of_lt (Nat.lt_succ_self i), hmark]
  · intro i k j hik
    obtain ⟨later, hlater⟩ := List.take_prefix_take_left (l := marks) hik
    rw [← hlater, markAll_append]
    exact slot_le_markAll _ later j
  · intro b hread hbelow
    obtain ⟨c, hslot, hmark⟩ := mem_marks_of_read_lt hread
    refine ⟨c, ?_, hslot, hmark⟩
    rintro rfl
    exact (hbelow _ hmark).false
  · intro bytes epoch hcreate hepoch
    exact slot_markAll_of_epoch (slot_create hcreate) hepoch

end ChangeMap

end ChangeTracking
