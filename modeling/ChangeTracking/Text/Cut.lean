/-!
# Cutting text at a separator

Texts are taken apart at single characters: a log position at its slash, a file name at its dot and
its underscore, a path at its slashes.  `cut` stops at the first separator and `pieces` uses them
all.  Both work on lists of characters, so that what they return is spelled out by `takeWhile`-like
recursion on the data.
-/

namespace ChangeTracking.Text

/-- The text before the first `sep` and the text after it; `none` where there is no `sep`. -/
def cut (sep : Char) : List Char → Option (List Char × List Char)
  | [] => none
  | c :: rest =>
    if c = sep then some ([], rest)
    else (cut sep rest).map fun (before, after) => (c :: before, after)

/-- All pieces between the separators, empty ones included; there is always at least one. -/
def pieces (sep : Char) : List Char → List (List Char)
  | [] => [[]]
  | c :: rest =>
    if c = sep then [] :: pieces sep rest
    else
      match pieces sep rest with
      | [] => [[c]]
      | piece :: others => (c :: piece) :: others

/-- What `cut` returns can be put together again. -/
theorem cut_eq_some {sep : Char} {text before after : List Char}
    (h : cut sep text = some (before, after)) : text = before ++ sep :: after ∧ sep ∉ before := by
  induction text generalizing before with
  | nil => simp [cut] at h
  | cons c rest ih =>
    by_cases hc : c = sep
    · simp [cut, hc] at h
      obtain ⟨rfl, rfl⟩ := h
      simp [hc]
    · simp only [cut, hc, if_false, Option.map_eq_some_iff, Prod.exists, Prod.mk.injEq] at h
      obtain ⟨b, a, hcut, rfl, rfl⟩ := h
      obtain ⟨rfl, hnot⟩ := ih hcut
      exact ⟨rfl, by simp [Ne.symm hc, hnot]⟩

/-- A text has no cut exactly when the separator does not occur in it. -/
theorem cut_eq_none_iff {sep : Char} {text : List Char} : cut sep text = none ↔ sep ∉ text := by
  induction text with
  | nil => simp [cut]
  | cons c rest ih =>
    by_cases hc : c = sep
    · simp [cut, hc]
    · simp [cut, hc, ih, Ne.symm hc]

end ChangeTracking.Text
