import ChatCommand.Text.Lines

namespace ChatCommand.Text

def dropPrefix? : (lead s : Text) → Option Text
  | [], s => some s
  | _ :: _, [] => none
  | c :: lead, d :: s => if c = d then dropPrefix? lead s else none

theorem dropPrefix?_eq_some_iff {lead s rest : Text} :
    dropPrefix? lead s = some rest ↔ s = lead ++ rest := by
  fun_induction dropPrefix? lead s <;> simp_all [eq_comm]

theorem length_dropPrefix?_le {lead s rest : Text} (h : dropPrefix? lead s = some rest) :
    rest.length ≤ s.length := by
  simp [dropPrefix?_eq_some_iff.1 h]

def splitOnce (sep : Text) : Text → Option (Text × Text)
  | [] => if sep.isEmpty then some ([], []) else none
  | c :: s =>
    match dropPrefix? sep (c :: s) with
    | some rest => some ([], rest)
    | none => (splitOnce sep s).map fun p ↦ (c :: p.1, p.2)

theorem splitOnce_length {sep s a b : Text} (h : splitOnce sep s = some (a, b)) :
    a.length + sep.length + b.length = s.length := by
  induction s generalizing a b with
  | nil =>
    simp only [splitOnce] at h
    split at h
    · cases h
      simp_all
    · cases h
  | cons c s ih =>
    rw [splitOnce] at h
    split at h
    · rename_i hp
      cases h
      simp [dropPrefix?_eq_some_iff.1 hp]
    · obtain ⟨p, hp, h⟩ := Option.map_eq_some_iff.1 h
      cases h
      have := ih hp
      simp only [List.length_cons]
      omega

def splitOn (sep : Text) (nonempty : 0 < sep.length) (s : Text) : List Text :=
  match _h : splitOnce sep s with
  | none => [s]
  | some (a, b) => a :: splitOn sep nonempty b
termination_by s.length
decreasing_by
  have := splitOnce_length _h
  omega

def replace (old : Text) (nonempty : 0 < old.length) (new s : Text) : Text :=
  join new (splitOn old nonempty s)

end ChatCommand.Text
