import ChangeTracking.BulkMark
import ChangeTracking.Host
import ChangeTracking.Proofs.Marking

/-!
# How maps change in the course of time

Whatever happens to a map that a host keeps, it is marked or retired.  So its slots only rise, and
its epoch stays from the moment on that it is known: `m.GrowsTo m'`.  A host takes in maps and lets
none go: `h.GrowsTo h'` says so of all maps at once.  All that trackers do is of that kind, so what
was marked once can be read for as long as anybody holds the map.
-/

namespace ChangeTracking

namespace ChangeMap

/-- `m'` is what may have become of `m`. -/
structure GrowsTo (m m' : ChangeMap) : Prop where
  size : m'.slots.size = m.slots.size
  slot : ∀ j, m.slot j ≤ m'.slot j
  epoch : m.epoch ≠ Lsn.never → m'.epoch = m.epoch

namespace GrowsTo

@[refl] lemma refl (m : ChangeMap) : m.GrowsTo m := ⟨rfl, fun _ => le_rfl, fun _ => rfl⟩

lemma trans {m₁ m₂ m₃ : ChangeMap} (h : m₁.GrowsTo m₂) (h' : m₂.GrowsTo m₃) : m₁.GrowsTo m₃ where
  size := h'.size.trans h.size
  slot j := (h.slot j).trans (h'.slot j)
  epoch he := by
    have hm := h.epoch he
    rw [h'.epoch (hm ▸ he), hm]

lemma read_le {m m' : ChangeMap} (h : m.GrowsTo m') (b : Block) : m.read b ≤ m'.read b := by
  rw [read_eq_slot, read_eq_slot, slotOf_eq_of_size h.size]
  exact h.slot _

lemma epoch_le {m m' : ChangeMap} (h : m.GrowsTo m') : m.epoch ≤ m'.epoch := by
  by_cases hm : m.epoch = Lsn.never
  · rw [hm]
    exact Lsn.never_le _
  · rw [h.epoch hm]

end GrowsTo

lemma growsTo_markAll (m : ChangeMap) (marks : List (Block × Lsn)) :
    m.GrowsTo (m.markAll marks) where
  size := m.size_markAll marks
  slot := m.slot_le_markAll marks
  epoch he := epoch_markAll_of_known (Lsn.known_iff.mpr he) marks

lemma mark_eq_markAll (m : ChangeMap) (b : Block) (l : Lsn) : m.mark b l = m.markAll [(b, l)] := rfl

lemma growsTo_retire (m : ChangeMap) : m.GrowsTo m.retire := ⟨rfl, fun _ => le_rfl, fun _ => rfl⟩

/-- The marks of whole segment files. -/
def segmentMarks (l : Lsn) (segments : List Segment) : List (Block × Lsn) :=
  segments.flatMap fun s => (List.range s.blockCount).map fun offset => (s.block offset, l)

lemma markSegments_eq_markAll (m : ChangeMap) (l : Lsn) (segments : List Segment) :
    m.markSegments l segments = m.markAll (segmentMarks l segments) := by
  induction segments generalizing m with
  | nil => rfl
  | cons s rest ih =>
    have hsegment : m.markSegment l s
        = m.markAll ((List.range s.blockCount).map fun offset => (s.block offset, l)) := by
      rw [markSegment, markAll, List.foldl_map]
    rw [segmentMarks, List.flatMap_cons, markAll_append, ← hsegment]
    exact ih _

lemma mem_segmentMarks {l l' : Lsn} {segments : List Segment} {b : Block} :
    (b, l') ∈ segmentMarks l segments ↔
      l' = l ∧ ∃ s ∈ segments, ∃ offset < s.blockCount, b = s.block offset := by
  simp only [segmentMarks, List.mem_flatMap, List.mem_map, List.mem_range, Prod.mk.injEq]
  constructor
  · rintro ⟨s, hs, offset, hoffset, rfl, rfl⟩
    exact ⟨rfl, s, hs, offset, hoffset, rfl⟩
  · rintro ⟨rfl, s, hs, offset, hoffset, rfl⟩
    exact ⟨s, hs, offset, hoffset, rfl, rfl⟩

end ChangeMap

namespace Host

/-! ## The maps of a host -/

lemma map_updateMap (h : Host) (id : MapId) (f : ChangeMap → ChangeMap) (k : MapId) :
    (h.updateMap id f).map k = if k = id ∧ id < h.maps.size then f (h.map k) else h.map k := by
  simp only [map, updateMap, Array.getD_eq_getD_getElem?, Array.getElem?_modify]
  by_cases hk : k = id
  · subst hk
    by_cases hlt : k < h.maps.size
    · simp [hlt]
    · simp [hlt]
  · simp [hk, Ne.symm hk]

lemma map_updateMap_self {h : Host} {id : MapId} (hid : id < h.maps.size)
    (f : ChangeMap → ChangeMap) : (h.updateMap id f).map id = f (h.map id) := by
  rw [map_updateMap, if_pos ⟨rfl, hid⟩]

lemma updateMap_of_map_eq {h : Host} {id : MapId} (hid : id < h.maps.size)
    {f : ChangeMap → ChangeMap} (hf : f (h.map id) = h.map id) : h.updateMap id f = h := by
  have hmaps : h.maps.modify id f = h.maps := by
    apply Array.ext
    · simp
    · intro k hk hk'
      rw [Array.getElem_modify]
      split
      · next heq =>
        subst heq
        simpa [map, hid] using hf
      · rfl
  rw [updateMap, hmaps]

@[simp] lemma size_updateMap (h : Host) (id : MapId) (f : ChangeMap → ChangeMap) :
    (h.updateMap id f).maps.size = h.maps.size := by
  simp [updateMap]

@[simp] lemma tree_updateMap (h : Host) (id : MapId) (f : ChangeMap → ChangeMap) :
    (h.updateMap id f).tree = h.tree := rfl

@[simp] lemma position_updateMap (h : Host) (id : MapId) (f : ChangeMap → ChangeMap) :
    (h.updateMap id f).position = h.position := rfl

@[simp] lemma maps_trySave (h : Host) (p : Path) (m : ChangeMap) :
    (h.trySave p m).maps = h.maps := by
  unfold trySave
  split <;> rfl

@[simp] lemma maps_tryDelete (h : Host) (p : Path) : (h.tryDelete p).maps = h.maps := by
  unfold tryDelete
  split <;> rfl

@[simp] lemma position_trySave (h : Host) (p : Path) (m : ChangeMap) :
    (h.trySave p m).position = h.position := by
  unfold trySave
  split <;> rfl

lemma trySave_of_save {h : Host} {p : Path} {m : ChangeMap} {t : Tree}
    (hsave : MapFile.save h.tree p m = .ok t) : h.trySave p m = { h with tree := t } := by
  unfold trySave
  split
  · next t' hok => rw [Except.ok.inj (hsave.symm.trans hok)]
  · next e herror =>
    rw [hsave] at herror
    cases herror

lemma trySave_of_error {h : Host} {p : Path} {m : ChangeMap} {e : FileError}
    (hsave : MapFile.save h.tree p m = .error e) : h.trySave p m = h := by
  unfold trySave
  split
  · next t hok =>
    rw [hsave] at hok
    cases hok
  · rfl

/-! ## Hosts in the course of time -/

/-- `h'` is what may have become of `h`, as far as maps go. -/
structure GrowsTo (h h' : Host) : Prop where
  size : h.maps.size ≤ h'.maps.size
  map : ∀ id < h.maps.size, (h.map id).GrowsTo (h'.map id)

namespace GrowsTo

lemma of_maps_eq {h h' : Host} (heq : h'.maps = h.maps) : h.GrowsTo h' where
  size := by rw [heq]
  map id _ := by
    unfold Host.map
    rw [heq]

@[refl] lemma refl (h : Host) : h.GrowsTo h := of_maps_eq rfl

lemma trans {h₁ h₂ h₃ : Host} (h : h₁.GrowsTo h₂) (h' : h₂.GrowsTo h₃) : h₁.GrowsTo h₃ where
  size := h.size.trans h'.size
  map id hid := (h.map id hid).trans (h'.map id (hid.trans_le h.size))

end GrowsTo

lemma growsTo_updateMap (h : Host) (id : MapId) {f : ChangeMap → ChangeMap}
    (hf : ∀ m : ChangeMap, m.GrowsTo (f m)) : h.GrowsTo (h.updateMap id f) where
  size := (h.size_updateMap id f).ge
  map k _ := by
    rw [map_updateMap]
    split
    · exact hf _
    · exact .refl _

lemma map_of_lt_of_maps_eq_push {h h' : Host} {m : ChangeMap} (heq : h'.maps = h.maps.push m)
    {id : MapId} (hid : id < h.maps.size) : h'.map id = h.map id := by
  simp only [Host.map, heq, Array.getD_eq_getD_getElem?, Array.getElem?_push, hid.ne, if_false]

lemma growsTo_push {h h' : Host} {m : ChangeMap} (heq : h'.maps = h.maps.push m) :
    h.GrowsTo h' where
  size := by simp [heq]
  map id hid := by rw [map_of_lt_of_maps_eq_push heq hid]

lemma map_of_maps_eq_push {h h' : Host} {m : ChangeMap} (heq : h'.maps = h.maps.push m) :
    h'.map h.maps.size = m := by
  simp [Host.map, heq]

end Host

end ChangeTracking
