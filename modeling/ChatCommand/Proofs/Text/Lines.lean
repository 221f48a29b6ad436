import ChatCommand.Proofs.Text.Trim
import ChatCommand.Text.Lines

namespace ChatCommand.Text

variable {s t line : Text}

theorem spaces_append (m n : Nat) : spaces m ++ spaces n = spaces (m + n) :=
  List.replicate_append_replicate

theorem lines_cons_of_ne {c : Char} (hfeed : c ≠ '\n') (hreturn : c = '\r' → s.head? ≠ some '\n') :
    lines (c :: s) =
      match lines s with
      | [] => [[c]]
      | line :: more => (c :: line) :: more := by
  have hpair : ∀ t, c = '\r' → s = '\n' :: t → False := by
    rintro t hc rfl
    exact hreturn hc rfl
  rcases hs : lines s with _ | ⟨line, more⟩
  · rw [lines.eq_4 c s hfeed hpair, hs]
  · rw [lines.eq_4 c s hfeed hpair, hs]

theorem lines_ne_nil (h : s ≠ []) : lines s ≠ [] := by
  fun_cases lines s <;> simp_all

theorem lines_append_feed (s t : Text) :
    lines (s ++ '\n' :: t) = lines (s ++ ['\n']) ++ lines t := by
  induction s using lines.induct with
  | case1 => rfl
  | case2 s ih | case3 s ih => simp only [List.cons_append, lines, ih]
  | case4 c s hfeed hreturn hnone =>
    have hs : s = [] := by
      by_contra h
      exact lines_ne_nil h hnone
    subst hs
    by_cases hc : c = '\r'
    · subst hc
      rfl
    · have hcut (u : Text) := lines_cons_of_ne (s := '\n' :: u) hfeed fun h ↦ absurd h hc
      simp only [List.cons_append, List.nil_append, hcut, lines]
  | case5 c s hfeed hreturn first more hlines ih =>
    obtain ⟨d, s, rfl⟩ : ∃ d s', s = d :: s' := by
      refine List.exists_cons_of_ne_nil ?_
      rintro rfl
      cases hlines
    have hcut (u : Text) := lines_cons_of_ne (s := d :: s ++ '\n' :: u) hfeed fun h ↦ by
      simpa using hreturn s h
    change lines (c :: (d :: s ++ '\n' :: t)) = lines (c :: (d :: s ++ ['\n'])) ++ lines t
    rw [hcut t, hcut [], ih]
    rcases hhead : lines (d :: s ++ ['\n']) with _ | ⟨head, tail⟩
    · exact absurd hhead (lines_ne_nil (List.cons_ne_nil _ _))
    · rfl

theorem lines_append_of_notMem (h : '\n' ∉ line) (ht : lines t = [[]])
    (hreturn : line.getLast? = some '\r' → t.head? ≠ some '\n') : lines (line ++ t) = [line] := by
  induction line with
  | nil => exact ht
  | cons c s ih =>
    rw [List.mem_cons, not_or] at h
    have hpair : c = '\r' → (s ++ t).head? ≠ some '\n' := by
      cases s with
      | nil => exact fun hc ↦ hreturn (congrArg some hc)
      | cons d s => exact fun _ hd ↦ h.2 (Option.some.inj hd ▸ List.mem_cons_self ..)
    have hrest : lines (s ++ t) = [s] := by
      refine ih h.2 fun hs ↦ hreturn ?_
      rw [List.getLast?_cons, hs]
      rfl
    rw [List.cons_append, lines_cons_of_ne (Ne.symm h.1) hpair, hrest]

theorem lines_feed (h : '\n' ∉ line) (hreturn : line.getLast? ≠ some '\r') :
    lines (line ++ ['\n']) = [line] :=
  lines_append_of_notMem h rfl fun hs ↦ absurd hs hreturn

theorem lines_return_feed (h : '\n' ∉ line) : lines (line ++ ['\r', '\n']) = [line] :=
  lines_append_of_notMem h rfl fun _ ↦ by decide

theorem exists_lines_feed (h : '\n' ∉ line) :
    ∃ body, lines (line ++ ['\n']) = [body] ∧ (body = line ∨ line = body ++ ['\r']) := by
  by_cases hreturn : line.getLast? = some '\r'
  · obtain ⟨body, rfl⟩ := List.getLast?_eq_some_iff.1 hreturn
    refine ⟨body, ?_, .inr rfl⟩
    rw [List.append_assoc]
    exact lines_return_feed fun hfeed ↦ h (List.mem_append_left _ hfeed)
  · exact ⟨line, lines_feed h hreturn, .inl rfl⟩

theorem lines_of_notMem (h : '\n' ∉ line) (hne : line ≠ []) : lines line = [line] := by
  induction line with
  | nil => exact absurd rfl hne
  | cons c s ih =>
    rw [List.mem_cons, not_or] at h
    have hhead : s.head? ≠ some '\n' := fun hs ↦ h.2 (List.mem_of_mem_head? hs)
    rw [lines_cons_of_ne (Ne.symm h.1) fun _ ↦ hhead]
    by_cases hs : s = []
    · subst hs
      rfl
    · rw [ih h.2 hs]

theorem filter_flatten_lines (s : Text) :
    (lines s).flatten.filter (!isBlank ·) = s.filter (!isBlank ·) := by
  have hfeed : isBlank '\n' := rfl
  have hreturn : isBlank '\r' := rfl
  fun_induction lines s with
  | case1 => rfl
  | case2 s ih => simp [hfeed, ih]
  | case3 s ih => simp [hfeed, hreturn, ih]
  | case4 c s _ _ hnone ih =>
    rw [hnone] at ih
    simp [List.filter_cons, ← ih]
  | case5 c s _ _ first more hlines ih =>
    rw [hlines] at ih
    simp [List.filter_cons, ← ih]

theorem trim_eq_nil_iff_lines : trim s = [] ↔ ∀ line ∈ lines s, trim line = [] := by
  have hfilter (t : Text) : trim t = [] ↔ t.filter (!isBlank ·) = [] := by
    simp [trim_eq_nil_iff, List.filter_eq_nil_iff]
  rw [hfilter, ← filter_flatten_lines, ← hfilter, trim_eq_nil_iff]
  simp only [trim_eq_nil_iff, List.mem_flatten]
  exact ⟨fun h line hline c hc ↦ h c ⟨line, hline, hc⟩,
    fun h c ⟨line, hline, hc⟩ ↦ h line hline c hc⟩

theorem trim_of_lines_feed {body : Text} (h : lines (line ++ ['\n']) = [body]) :
    trim line = [] ↔ trim body = [] := by
  rw [← trim_append_right (List.forall_mem_singleton.2 (rfl : isBlank '\n')),
    trim_eq_nil_iff_lines, h, List.forall_mem_singleton]

theorem feed_notMem_lines (h : line ∈ lines s) : '\n' ∉ line := by
  fun_induction lines s generalizing line with
  | case1 => cases h
  | case2 s ih | case3 s ih =>
    rcases List.mem_cons.1 h with rfl | h
    · exact List.not_mem_nil
    · exact ih h
  | case4 c s hfeed _ _ _ =>
    rw [List.mem_singleton.1 h, List.mem_singleton]
    exact Ne.symm hfeed
  | case5 c s hfeed _ first more hlines ih =>
    rw [hlines] at ih
    rcases List.mem_cons.1 h with rfl | h
    · rw [List.mem_cons, not_or]
      exact ⟨Ne.symm hfeed, ih (List.mem_cons_self ..)⟩
    · exact ih (List.mem_cons_of_mem _ h)

/-- Nothing, or a text whose last line is complete. -/
inductive Ended : Text → Prop
  | nil : Ended []
  | feed (s : Text) : Ended (s ++ ['\n'])

theorem Ended.lines_append (h : Ended s) (t : Text) : lines (s ++ t) = lines s ++ lines t := by
  cases h with
  | nil => rfl
  | feed s =>
    rw [List.append_assoc]
    exact lines_append_feed s t

/-- Whether there is a last character that trimming leaves. -/
def isFirm (s : Text) : Bool :=
  s.getLast?.any (!isBlank ·)

theorem isFirm_iff : isFirm s ↔ ∃ t c, s = t ++ [c] ∧ isBlank c = false := by
  rw [isFirm, Option.any_eq_true]
  constructor
  · rintro ⟨c, hc, hblank⟩
    obtain ⟨t, rfl⟩ := List.getLast?_eq_some_iff.1 hc
    exact ⟨t, c, rfl, by simpa using hblank⟩
  · rintro ⟨t, c, rfl, hblank⟩
    exact ⟨c, List.getLast?_concat, by simpa using hblank⟩

theorem isFirm_append (s : Text) (h : isFirm t) : isFirm (s ++ t) := by
  obtain ⟨u, c, rfl, hc⟩ := isFirm_iff.1 h
  exact isFirm_iff.2 ⟨s ++ u, c, (List.append_assoc ..).symm, hc⟩

theorem trimEnd_of_isFirm (h : isFirm s) : trimEnd s = s := by
  obtain ⟨t, c, rfl, hc⟩ := isFirm_iff.1 h
  have hlast : trimEndBy isBlank [c] = [c] := trimEndBy_cons_of_neg hc
  rw [trimEnd, trimEndBy_append (by simp [hlast]), hlast]

theorem isFirm_trimEndBy (h : trimEndBy isBlank s ≠ []) : isFirm (trimEndBy isBlank s) := by
  induction s with
  | nil => exact absurd rfl h
  | cons c s ih =>
    rw [trimEndBy] at h ⊢
    rcases hs : trimEndBy isBlank s with _ | ⟨d, t⟩
    · rw [hs] at h
      by_cases hc : isBlank c
      · simp [hc] at h
      · simp [hc, isFirm]
    · rw [hs] at ih
      exact isFirm_append [c] (ih (List.cons_ne_nil _ _))

theorem isFirm_trim (h : trim s ≠ []) : isFirm (trim s) :=
  isFirm_trimEndBy h

theorem solid_trim (h : trim s ≠ []) : Solid (trim s) := by
  refine ⟨?_, isFirm_iff.1 (isFirm_trim h)⟩
  have hfirst := List.head?_dropWhile_not isBlank s
  rcases hs : s.dropWhile isBlank with _ | ⟨c, t⟩
  · rw [trim, trimBy, hs] at h
    exact absurd rfl h
  · have hc : isBlank c = false := by simpa [hs] using hfirst
    exact ⟨c, trimEnd t, (congrArg trimEnd hs).trans (trimEndBy_cons_of_neg hc), hc⟩

theorem trimEnd_of_suffix (h : s <:+ trim t) : trimEnd s = s := by
  by_cases hs : s = []
  · rw [hs]
    rfl
  · obtain ⟨u, hu⟩ := h
    have hfirm : isFirm (trim t) := isFirm_trim (by simp [← hu, hs])
    have hlast : (u ++ s).getLast? = s.getLast? := by
      rw [List.getLast?_append, List.getLast?_eq_some_getLast hs, Option.some_or]
    rw [← hu, isFirm, hlast, ← isFirm] at hfirm
    exact trimEnd_of_isFirm hfirm

theorem trim_of_suffix (h : s <:+ trim t) : trim s = trimStart s :=
  trimEnd_of_suffix ((List.dropWhile_suffix isBlank).trans h)

theorem isFirm_join (sep : Text) {parts : List Text} (hne : parts ≠ [])
    (h : ∀ part ∈ parts, isFirm part) : isFirm (join sep parts) := by
  induction parts with
  | nil => exact absurd rfl hne
  | cons part parts ih =>
    obtain ⟨hpart, hparts⟩ := List.forall_mem_cons.1 h
    cases parts with
    | nil => exact hpart
    | cons next parts => exact isFirm_append _ (ih (List.cons_ne_nil _ _) hparts)

theorem Solid.isFirm (h : Solid s) : isFirm s :=
  isFirm_iff.2 h.last

theorem Solid.join (sep : Text) {parts : List Text} (hne : parts ≠ [])
    (h : ∀ part ∈ parts, Solid part) : Solid (join sep parts) := by
  induction parts with
  | nil => exact absurd rfl hne
  | cons part parts ih =>
    obtain ⟨hpart, hparts⟩ := List.forall_mem_cons.1 h
    cases parts with
    | nil => exact hpart
    | cons next parts => exact hpart.append (ih (List.cons_ne_nil _ _) hparts) sep

/-- What a text has before its first line feed, and before the carriage return that belongs to it.
-/
inductive HasFirstLine : Text → Text → Prop
  | whole {line : Text} : '\n' ∉ line → HasFirstLine line line
  | feed {line : Text} (rest : Text) :
      '\n' ∉ line → line.getLast? ≠ some '\r' → HasFirstLine (line ++ '\n' :: rest) line
  | returned {line : Text} (rest : Text) :
      '\n' ∉ line → HasFirstLine (line ++ '\r' :: '\n' :: rest) line

theorem exists_hasFirstLine (s : Text) : ∃ line, HasFirstLine s line := by
  by_cases hs : '\n' ∈ s
  · obtain ⟨line, rest, rfl, hline⟩ := List.eq_append_cons_of_mem hs
    by_cases hreturn : line.getLast? = some '\r'
    · obtain ⟨body, rfl⟩ := List.getLast?_eq_some_iff.1 hreturn
      rw [List.append_assoc]
      exact ⟨body, .returned rest fun h ↦ hline (List.mem_append_left _ h)⟩
    · exact ⟨line, .feed rest hline hreturn⟩
  · exact ⟨s, .whole hs⟩

theorem HasFirstLine.firstLine_eq (h : HasFirstLine s line) : firstLine s = line := by
  cases h with
  | whole hline =>
    by_cases hne : s = []
    · rw [hne]
      rfl
    · rw [firstLine, lines_of_notMem hline hne]
      rfl
  | feed rest hline hreturn =>
    rw [firstLine, lines_append_feed, lines_feed hline hreturn]
    rfl
  | returned rest hline =>
    have hsplit : line ++ '\r' :: '\n' :: rest = line ++ ['\r'] ++ '\n' :: rest := by simp
    rw [firstLine, hsplit, lines_append_feed, List.append_assoc]
    exact congrArg (fun ls ↦ (ls ++ lines rest).headD []) (lines_return_feed hline)

theorem hasFirstLine_firstLine (s : Text) : HasFirstLine s (firstLine s) := by
  obtain ⟨line, h⟩ := exists_hasFirstLine s
  rwa [h.firstLine_eq]

/-- Lines that are told apart when they are joined: none has a line feed or ends in a carriage
return, and the last one is not empty. -/
structure Rejoins (parts : List Text) : Prop where
  single : ∀ part ∈ parts, '\n' ∉ part
  bare : ∀ part ∈ parts, part.getLast? ≠ some '\r'
  last : ∀ part ∈ parts.getLast?, part ≠ []

theorem Rejoins.lines_join {parts : List Text} (h : Rejoins parts) :
    lines (join ['\n'] parts) = parts := by
  induction parts with
  | nil => rfl
  | cons part parts ih =>
    obtain ⟨hfeed, hfeeds⟩ := List.forall_mem_cons.1 h.single
    obtain ⟨hreturn, hreturns⟩ := List.forall_mem_cons.1 h.bare
    cases parts with
    | nil => exact lines_of_notMem hfeed (h.last part rfl)
    | cons next parts =>
      have hlast : ∀ part ∈ (next :: parts).getLast?, part ≠ [] := by
        simpa only [List.getLast?_cons_cons] using h.last
      rw [join, List.append_assoc, List.singleton_append, lines_append_feed,
        lines_feed hfeed hreturn, ih ⟨hfeeds, hreturns, hlast⟩]
      rfl

theorem lines_join {parts : List Text} (h : ∀ part ∈ parts, '\n' ∉ part ∧ isFirm part) :
    lines (join ['\n'] parts) = parts := by
  refine Rejoins.lines_join ⟨fun part hpart ↦ (h part hpart).1, fun part hpart hlast ↦ ?_,
    fun part hpart hnil ↦ ?_⟩
  · have hfirm := (h part hpart).2
    rw [isFirm, hlast] at hfirm
    cases hfirm
  · have hfirm := (h part (List.mem_of_getLast? hpart)).2
    rw [hnil] at hfirm
    cases hfirm

end ChatCommand.Text
