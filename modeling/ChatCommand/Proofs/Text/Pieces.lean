import ChatCommand.Text.Lines
import Mathlib.Data.List.Basic

namespace ChatCommand.Text

variable {sep : Char} {s t : Text} {ps : List Text}

theorem pieces_cons_of_ne {c : Char} (h : c ≠ sep) :
    pieces sep (c :: s) = (pieces sep s).modifyHead (c :: ·) := by
  rcases hpieces : pieces sep s with _ | ⟨p, ps⟩
  · exact absurd hpieces (pieces_ne_nil sep s)
  · rw [pieces, if_neg h, hpieces, List.modifyHead_cons]

theorem pieces_eq_splitOn (sep : Char) (s : Text) : pieces sep s = s.splitOn sep := by
  rw [List.splitOn_eq_splitOnP]
  induction s with
  | nil => rfl
  | cons c s ih =>
    rw [List.splitOnP_cons_eq_if_modifyHead, ← ih]
    by_cases hc : c = sep
    · simp [pieces, hc]
    · rw [pieces_cons_of_ne hc, if_neg (by simpa using hc)]

theorem join_eq_intercalate (sep : Text) (ps : List Text) : join sep ps = sep.intercalate ps := by
  induction ps with
  | nil => rfl
  | cons p ps ih =>
    cases ps with
    | nil => simp [join, List.intercalate]
    | cons q ps =>
      rw [join, ih]
      simp [List.intercalate]

theorem join_cons_of_ne_nil (sep s : Text) (h : ps ≠ []) :
    join sep (s :: ps) = s ++ (sep ++ join sep ps) := by
  obtain ⟨p, ps, rfl⟩ := List.exists_cons_of_ne_nil h
  rw [join, List.append_assoc]

theorem join_cons (sep s : Text) (parts : List Text) :
    join sep (s :: parts) = s ++ parts.flatMap (sep ++ ·) := by
  induction parts generalizing s with
  | nil => simp [join]
  | cons t parts ih => rw [join, ih, List.flatMap_cons, List.append_assoc, List.append_assoc]

theorem join_pieces (sep : Char) (s : Text) : join [sep] (pieces sep s) = s := by
  rw [join_eq_intercalate, pieces_eq_splitOn, List.intercalate_splitOn]

theorem pieces_join (h : ∀ p ∈ ps, sep ∉ p) (hne : ps ≠ []) : pieces sep (join [sep] ps) = ps := by
  rw [join_eq_intercalate, pieces_eq_splitOn, List.splitOn_intercalate sep h hne]

theorem notMem_of_mem_pieces {p : Text} (h : p ∈ pieces sep s) : sep ∉ p := by
  induction s generalizing p with
  | nil => simp_all [pieces]
  | cons c s ih =>
    by_cases hc : c = sep
    · rw [pieces, if_pos hc] at h
      rcases List.mem_cons.1 h with rfl | h
      · exact List.not_mem_nil
      · exact ih h
    · rw [pieces_cons_of_ne hc] at h
      rcases hpieces : pieces sep s with _ | ⟨q, qs⟩
      · exact absurd hpieces (pieces_ne_nil sep s)
      · rw [hpieces] at h ih
        rcases List.mem_cons.1 h with rfl | h
        · rw [List.mem_cons, not_or]
          exact ⟨Ne.symm hc, ih (List.mem_cons_self ..)⟩
        · exact ih (List.mem_cons_of_mem _ h)

theorem pieces_of_notMem (h : sep ∉ s) : pieces sep s = [s] := by
  have hpart : ∀ p ∈ [s], sep ∉ p := List.forall_mem_singleton.2 h
  exact pieces_join hpart (List.cons_ne_nil _ _)

theorem pieces_injective (h : pieces sep s = pieces sep t) : s = t := by
  rw [← join_pieces sep s, h, join_pieces]

theorem pieces_append_sep (sep : Char) (s t : Text) :
    pieces sep (s ++ sep :: t) = pieces sep s ++ pieces sep t := by
  simp only [pieces_eq_splitOn, List.splitOn_eq_splitOnP]
  exact List.splitOnP_append_cons s t (beq_self_eq_true sep)

def unlines (ls : List Text) : Text :=
  ls.flatMap (· ++ ['\n'])

@[simp]
theorem unlines_nil : unlines [] = [] := rfl

theorem unlines_cons (l : Text) (ls : List Text) : unlines (l :: ls) = l ++ '\n' :: unlines ls := by
  rw [unlines, List.flatMap_cons, List.append_assoc, List.singleton_append]
  rfl

theorem unlines_append (ks ls : List Text) : unlines (ks ++ ls) = unlines ks ++ unlines ls :=
  List.flatMap_append

theorem join_concat (ls : List Text) (last : Text) :
    join ['\n'] (ls ++ [last]) = unlines ls ++ last := by
  induction ls with
  | nil => rfl
  | cons l ls ih =>
    have hne : ls ++ [last] ≠ [] := by simp
    rw [List.cons_append, join_cons_of_ne_nil _ _ hne, ih, unlines_cons]
    simp only [List.append_assoc, List.cons_append, List.nil_append]

theorem pieces_unlines_append {ls : List Text} (h : ∀ l ∈ ls, '\n' ∉ l) (s : Text) :
    pieces '\n' (unlines ls ++ s) = ls ++ pieces '\n' s := by
  induction ls with
  | nil => rfl
  | cons l ls ih =>
    obtain ⟨hl, hls⟩ := List.forall_mem_cons.1 h
    rw [unlines_cons, List.append_assoc, List.cons_append, pieces_append_sep, pieces_of_notMem hl,
      ih hls]
    rfl

theorem pieces_append_of_notMem (h : sep ∉ s) :
    pieces sep (s ++ t) = (pieces sep t).modifyHead (s ++ ·) := by
  induction s with
  | nil => exact (congrFun List.modifyHead_id (pieces sep t)).symm
  | cons c s ih =>
    rw [List.mem_cons, not_or] at h
    rw [List.cons_append, pieces_cons_of_ne (Ne.symm h.1), ih h.2, List.modifyHead_modifyHead]
    rfl

theorem exists_pieces_append (s : Text) (h : sep ∉ t) :
    ∃ ps p, pieces sep s = ps ++ [p] ∧ pieces sep (s ++ t) = ps ++ [p ++ t] := by
  induction s with
  | nil => exact ⟨[], [], rfl, pieces_of_notMem h⟩
  | cons c s ih =>
    obtain ⟨ps, p, hs, ht⟩ := ih
    by_cases hc : c = sep
    · subst hc
      refine ⟨[] :: ps, p, ?_, ?_⟩
      · rw [pieces, if_pos rfl, hs, List.cons_append]
      · rw [List.cons_append, pieces, if_pos rfl, ht, List.cons_append]
    · rw [List.cons_append, pieces_cons_of_ne hc, pieces_cons_of_ne hc, hs, ht]
      cases ps with
      | nil => exact ⟨[], c :: p, rfl, rfl⟩
      | cons q ps => exact ⟨(c :: q) :: ps, p, rfl, rfl⟩

section Word

variable {word : Text}

theorem notMem_pieces_append (h : word ∉ pieces sep s) (ht : sep ∉ t) (hword : ¬ t <:+ word) :
    word ∉ pieces sep (s ++ t) := by
  obtain ⟨ps, p, hs, hst⟩ := exists_pieces_append s ht
  rw [hs, List.mem_append, not_or] at h
  rw [hst, List.mem_append, not_or, List.mem_singleton]
  refine ⟨h.1, ?_⟩
  rintro rfl
  exact hword (List.suffix_append p t)

theorem mem_pieces_of_isInfix (hword : sep ∉ word) (h : sep :: (word ++ [sep]) <:+: s) :
    word ∈ pieces sep s := by
  obtain ⟨u, v, rfl⟩ := h
  have hlayout : u ++ sep :: (word ++ [sep]) ++ v = u ++ sep :: (word ++ sep :: v) := by simp
  rw [hlayout, pieces_append_sep, pieces_append_sep, pieces_of_notMem hword]
  simp

/-- If a word stands between separators in a text that ends in the word, it stands there twice. -/
theorem mem_pieces_of_isInfix_append (hword : sep ∉ word)
    (h : sep :: (word ++ [sep]) <:+: s ++ sep :: word) : word ∈ pieces sep s := by
  obtain ⟨u, v, h⟩ := h
  have hlayout : u ++ sep :: (word ++ [sep]) ++ v = u ++ sep :: (word ++ sep :: v) := by simp
  have hpieces := congrArg (pieces sep) h
  rw [hlayout, pieces_append_sep, pieces_append_sep, pieces_append_sep,
    pieces_of_notMem hword] at hpieces
  obtain ⟨ps, p, hv⟩ := List.eq_nil_or_concat' (pieces sep v) |>.resolve_left (pieces_ne_nil sep v)
  rw [hv, ← List.append_assoc, ← List.append_assoc] at hpieces
  rw [← (List.append_inj' hpieces rfl).1]
  simp

theorem exists_mem_tail_pieces (word : Text) (hword : sep ∉ word) (h : sep :: word <:+: s) :
    ∃ p ∈ (pieces sep s).tail, word <+: p := by
  obtain ⟨u, v, rfl⟩ := h
  rcases hu : pieces sep u with _ | ⟨p, ps⟩
  · exact absurd hu (pieces_ne_nil sep u)
  rcases hv : pieces sep v with _ | ⟨q, qs⟩
  · exact absurd hv (pieces_ne_nil sep v)
  refine ⟨word ++ q, ?_, List.prefix_append word q⟩
  rw [List.append_assoc, List.cons_append, pieces_append_sep, pieces_append_of_notMem hword, hu, hv]
  simp

end Word

theorem head?_eq_sep_iff :
    s.head? = some sep ↔ (pieces sep s).head? = some [] ∧ 1 < (pieces sep s).length := by
  cases s with
  | nil => simp [pieces]
  | cons c s =>
    by_cases hc : c = sep
    · simp [pieces, hc, List.length_pos_iff, pieces_ne_nil]
    · rcases hpieces : pieces sep s with _ | ⟨p, ps⟩
      · exact absurd hpieces (pieces_ne_nil sep s)
      · simp [pieces, hc, hpieces]

end ChatCommand.Text
