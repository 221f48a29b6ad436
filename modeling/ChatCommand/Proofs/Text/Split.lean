import ChatCommand.Proofs.Text.Pieces
import ChatCommand.Text.Split

namespace ChatCommand.Text

variable {sep s a b : Text}

theorem splitOnce_of_dropPrefix? {rest : Text} (hsep : sep ≠ [])
    (h : dropPrefix? sep s = some rest) :
    splitOnce sep s = some ([], rest) := by
  obtain ⟨c, sep, rfl⟩ := List.exists_cons_of_ne_nil hsep
  rw [dropPrefix?_eq_some_iff] at h
  rw [h, List.cons_append, splitOnce, dropPrefix?_eq_some_iff.2 (List.cons_append ..).symm]

theorem splitOnce_cons_of_not_isPrefix {c : Char} (h : ¬ sep <+: c :: s) :
    splitOnce sep (c :: s) = (splitOnce sep s).map fun p ↦ (c :: p.1, p.2) := by
  rcases hdrop : dropPrefix? sep (c :: s) with _ | rest
  · rw [splitOnce, hdrop]
  · exact absurd ⟨rest, (dropPrefix?_eq_some_iff.1 hdrop).symm⟩ h

theorem splitOnce_of_not_isInfix (h : ¬ sep <:+: s) : splitOnce sep s = none := by
  induction s with
  | nil =>
    have hsep : sep ≠ [] := by
      rintro rfl
      exact h List.nil_infix
    simp [splitOnce, hsep]
  | cons c s ih =>
    rw [List.infix_cons_iff, not_or] at h
    rw [splitOnce_cons_of_not_isPrefix h.1, ih h.2]
    rfl

/-- The separator stands first behind `a` when it ends nowhere before its own last character. -/
theorem splitOnce_append (hsep : sep ≠ []) (h : ¬ sep <:+: a ++ sep.dropLast) :
    splitOnce sep (a ++ (sep ++ b)) = some (a, b) := by
  induction a with
  | nil => exact splitOnce_of_dropPrefix? hsep (dropPrefix?_eq_some_iff.2 rfl)
  | cons c a ih =>
    rw [List.cons_append, List.infix_cons_iff, not_or] at h
    have hshort : c :: (a ++ sep.dropLast) <+: c :: (a ++ (sep ++ b)) := by
      rw [List.cons_prefix_cons, List.prefix_append_right_inj]
      exact ⟨rfl, (List.dropLast_prefix sep).trans (List.prefix_append sep b)⟩
    have hlength : sep.length ≤ (c :: (a ++ sep.dropLast)).length := by
      simp only [List.length_cons, List.length_append, List.length_dropLast]
      omega
    have hfirst : ¬ sep <+: c :: (a ++ (sep ++ b)) := fun hlead ↦
      h.1 (List.prefix_of_prefix_length_le hlead hshort hlength)
    rw [List.cons_append, splitOnce_cons_of_not_isPrefix hfirst, ih h.2]
    rfl

theorem splitOn_of_not_isInfix {nonempty : 0 < sep.length} (h : ¬ sep <:+: s) :
    splitOn sep nonempty s = [s] := by
  rw [splitOn]
  split
  · rfl
  · rename_i hsplit
    rw [splitOnce_of_not_isInfix h] at hsplit
    cases hsplit

theorem splitOn_append {nonempty : 0 < sep.length} (h : ¬ sep <:+: a ++ sep.dropLast) :
    splitOn sep nonempty (a ++ (sep ++ b)) = a :: splitOn sep nonempty b := by
  rw [splitOn]
  split
  · rename_i hsplit
    rw [splitOnce_append (List.length_pos_iff.1 nonempty) h] at hsplit
    cases hsplit
  · rename_i hsplit
    rw [splitOnce_append (List.length_pos_iff.1 nonempty) h] at hsplit
    cases hsplit
    rfl

theorem replace_of_not_isInfix {old new : Text} {nonempty : 0 < old.length} (h : ¬ old <:+: s) :
    replace old nonempty new s = s := by
  rw [replace, splitOn_of_not_isInfix h, join]

end ChatCommand.Text
