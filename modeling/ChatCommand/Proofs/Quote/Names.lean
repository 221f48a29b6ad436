import ChatCommand.Proofs.Text.Lines
import ChatCommand.Proofs.Text.Split
import ChatCommand.Quote

namespace ChatCommand

open Text

/-- A line that is not empty and has no blanks at its ends. -/
structure Text.Tidy (s : Text) : Prop where
  ne_nil : s ≠ []
  trim_eq : trim s = s
  feed : '\n' ∉ s

instance : DecidablePred Text.Tidy := fun s ↦
  decidable_of_iff (s ≠ [] ∧ trim s = s ∧ '\n' ∉ s)
    ⟨fun ⟨hne, htrim, hfeed⟩ ↦ ⟨hne, htrim, hfeed⟩, fun h ↦ ⟨h.ne_nil, h.trim_eq, h.feed⟩⟩

theorem Text.Tidy.solid {s : Text} (h : s.Tidy) : Solid s := by
  have hsolid := solid_trim (s := s)
  rw [h.trim_eq] at hsolid
  exact hsolid h.ne_nil

namespace Quote

/-- A name that can be told from its neighbours in `A, B og C`. -/
structure Listener (name : Text) : Prop extends Tidy name where
  comma : ',' ∉ name
  word : "og".toList ∉ pieces ' ' name

variable {last : Text} {names : List Text}

theorem isFirm_namesText {names : List Text} (hne : names ≠ []) (h : ∀ name ∈ names, isFirm name) :
    isFirm (namesText names) := by
  fun_induction namesText names with
  | case1 => exact absurd rfl hne
  | case2 name => exact h name (List.mem_singleton_self name)
  | case3 a b => exact isFirm_append _ (h b (by simp))
  | case4 a b names _ ih =>
    exact isFirm_append _ (ih (List.cons_ne_nil _ _) (List.forall_mem_cons.1 h).2)

theorem solid_namesText (hne : names ≠ []) (h : ∀ name ∈ names, Listener name) :
    Solid (namesText names) := by
  fun_induction namesText names with
  | case1 => exact absurd rfl hne
  | case2 name => exact (h name (List.mem_singleton_self name)).solid
  | case3 a b => exact (h a (by simp)).solid.append (h b (by simp)).solid _
  | case4 a b names _ ih =>
    exact (h a (by simp)).solid.append (ih (List.cons_ne_nil _ _) (List.forall_mem_cons.1 h).2) _

theorem feed_notMem_namesText (h : ∀ name ∈ names, Listener name) : '\n' ∉ namesText names := by
  fun_induction namesText names with
  | case1 => exact List.not_mem_nil
  | case2 name => exact (h name (List.mem_singleton_self name)).feed
  | case3 a b =>
    have ha := (h a (by simp)).feed
    have hb := (h b (by simp)).feed
    simp [ha, hb]
  | case4 a b names _ ih =>
    have ha := (h a (by simp)).feed
    have hnames := ih (List.forall_mem_cons.1 h).2
    simp [ha, hnames]

theorem namesText_append_singleton (hne : names ≠ []) (last : Text) :
    namesText (names ++ [last]) = join ", ".toList names ++ (" og ".toList ++ last) := by
  induction names with
  | nil => exact absurd rfl hne
  | cons a names ih =>
    cases names with
    | nil => exact List.append_assoc ..
    | cons b names =>
      have hlong : namesText (a :: b :: (names ++ [last])) =
          a ++ ", ".toList ++ namesText (b :: (names ++ [last])) :=
        namesText.eq_4 a b _ (by simp)
      have hrest := ih (List.cons_ne_nil _ _)
      rw [List.cons_append] at hrest
      rw [List.cons_append, List.cons_append, hlong, hrest, join]
      simp only [List.append_assoc]

theorem pieces_join_comma {first : Text} (hfirst : Listener first)
    (h : ∀ name ∈ names, Listener name) :
    pieces ',' (join ", ".toList (first :: names)) = first :: names.map (' ' :: ·) := by
  induction names generalizing first with
  | nil => exact pieces_of_notMem hfirst.comma
  | cons name names ih =>
    obtain ⟨hname, hnames⟩ := List.forall_mem_cons.1 h
    have hlayout : join ", ".toList (first :: name :: names) =
        first ++ ',' :: ([' '] ++ join ", ".toList (name :: names)) := by
      simp [join]
    rw [hlayout, pieces_append_sep, pieces_of_notMem hfirst.comma,
      pieces_append_of_notMem (by simp), ih hname hnames]
    rfl

theorem og_notMem_pieces_join (h : ∀ name ∈ names, Listener name) :
    "og".toList ∉ pieces ' ' (join ", ".toList names) := by
  fun_induction join ", ".toList names with
  | case1 => simp [pieces]
  | case2 name => exact (h name (List.mem_singleton_self name)).word
  | case3 a b names ih =>
    have hlayout : a ++ ", ".toList ++ join ", ".toList (b :: names) =
        (a ++ [',']) ++ ' ' :: join ", ".toList (b :: names) := by
      simp
    obtain ⟨ha, hnames⟩ := List.forall_mem_cons.1 h
    rw [hlayout, pieces_append_sep, List.mem_append, not_or]
    exact ⟨notMem_pieces_append ha.word (by simp) (by decide), ih hnames⟩

theorem head?_of_mem_tail_pieces {p : Text} (h : ∀ name ∈ names, Listener name)
    (hp : p ∈ (pieces ',' (namesText names)).tail) : p.head? = some ' ' := by
  fun_induction namesText names with
  | case1 => simp [pieces] at hp
  | case2 name =>
    rw [pieces_of_notMem (h name (by simp)).comma] at hp
    cases hp
  | case3 a b =>
    have ha := (h a (by simp)).comma
    have hb := (h b (by simp)).comma
    rw [pieces_of_notMem (by simp [ha, hb])] at hp
    cases hp
  | case4 a b names _ ih =>
    have hlayout : a ++ ", ".toList ++ namesText (b :: names) =
        a ++ ',' :: ([' '] ++ namesText (b :: names)) := by
      simp
    obtain ⟨ha, hnames⟩ := List.forall_mem_cons.1 h
    rw [hlayout, pieces_append_sep, pieces_of_notMem ha.comma,
      pieces_append_of_notMem (by simp)] at hp
    -- The first comma is the one behind the first name, and the others are those of the rest.
    rcases hpieces : pieces ',' (namesText (b :: names)) with _ | ⟨q, qs⟩
    · exact absurd hpieces (pieces_ne_nil _ _)
    · rw [hpieces] at ih hp
      rcases List.mem_cons.1 hp with rfl | hp
      · rfl
      · exact ih hnames hp

theorem not_comma_og_isInfix (h : ∀ name ∈ names, Listener name) :
    ¬ ",og ".toList <:+: namesText names := by
  intro hin
  obtain ⟨p, hp, hlead⟩ := exists_mem_tail_pieces "og ".toList (by decide) hin
  have hhead := head?_of_mem_tail_pieces h hp
  obtain ⟨t, rfl⟩ := hlead
  cases hhead

theorem not_comma_space_og_isInfix (hne : names ≠ []) (h : ∀ name ∈ names, Listener name)
    (hlast : Listener last) :
    ¬ ", og ".toList <:+: join ", ".toList names ++ (" og ".toList ++ last) := by
  rintro ⟨u, v, hlayout⟩
  -- Both sides are cut at `og`: then a comma would stand at the end of the last name in front of
  -- it.
  have hwords := congrArg (pieces ' ') hlayout.symm
  have hleft : join ", ".toList names ++ (" og ".toList ++ last) =
      join ", ".toList names ++ ' ' :: ("og".toList ++ ' ' :: last) := by
    simp
  have hright : u ++ ", og ".toList ++ v = (u ++ [',']) ++ ' ' :: ("og".toList ++ ' ' :: v) := by
    simp
  rw [hleft, hright, pieces_append_sep, pieces_append_sep, pieces_append_sep, pieces_append_sep,
    pieces_of_notMem (by decide : ' ' ∉ "og".toList), List.singleton_append, List.singleton_append,
    List.append_cons_inj_of_notMem (og_notMem_pieces_join h) hlast.word] at hwords
  obtain ⟨name, names, rfl⟩ := List.exists_cons_of_ne_nil hne
  obtain ⟨hname, hnames⟩ := List.forall_mem_cons.1 h
  have hcommas := pieces_join_comma hname hnames
  rw [pieces_injective hwords.1, pieces_append_sep] at hcommas
  have hempty : [] ∈ name :: names.map (' ' :: ·) := by
    rw [← hcommas]
    simp [pieces]
  simp [hname.ne_nil.symm] at hempty

theorem map_trim_pieces_join (hne : names ≠ []) (h : ∀ name ∈ names, Listener name) :
    (pieces ',' (join ", ".toList names)).map trim = names := by
  obtain ⟨name, names, rfl⟩ := List.exists_cons_of_ne_nil hne
  obtain ⟨hname, hnames⟩ := List.forall_mem_cons.1 h
  have hrest : names.map (trim ∘ (' ' :: ·)) = names.map id := List.map_congr_left fun name hmem ↦
    (trim_append_left (List.forall_mem_singleton.2 rfl)).trans (hnames name hmem).trim_eq
  rw [pieces_join_comma hname hnames, List.map_cons, hname.trim_eq, List.map_map, hrest,
    List.map_id]

/-- A list of names is read back as it is written. -/
theorem splitNames_namesText (hne : names ≠ []) (h : ∀ name ∈ names, Listener name) :
    splitNames (namesText names) = names := by
  have hsecond := not_comma_og_isInfix h
  rcases List.eq_nil_or_concat' names with rfl | ⟨init, last, rfl⟩
  · exact absurd rfl hne
  have hlast : Listener last := h last (by simp)
  have hinit : ∀ name ∈ init, Listener name := fun name hname ↦ h name (by simp [hname])
  have hsingle : splitOn " og ".toList (by decide) last = [last] :=
    splitOn_of_not_isInfix fun hin ↦ hlast.word (mem_pieces_of_isInfix (by decide) hin)
  have htrim : (pieces ',' last).map trim = [last] := by
    rw [pieces_of_notMem hlast.comma, List.map_singleton, hlast.trim_eq]
  -- A single listener has no `og` in front, and of several only the last one has.
  by_cases hone : init = []
  · subst hone
    have hfirst : ¬ ", og ".toList <:+: last := fun hin ↦ hlast.comma (hin.subset (by simp))
    change ¬ ",og ".toList <:+: last at hsecond
    change splitNames last = [last]
    rw [splitNames, replace_of_not_isInfix hfirst, replace_of_not_isInfix hsecond, hsingle,
      List.flatMap_singleton, htrim]
  · have hbody : ¬ " og ".toList <:+: join ", ".toList init ++ " og".toList := fun hin ↦
      og_notMem_pieces_join hinit (mem_pieces_of_isInfix_append (by decide) hin)
    rw [namesText_append_singleton hone] at hsecond ⊢
    rw [splitNames, replace_of_not_isInfix (not_comma_space_og_isInfix hone hinit hlast),
      replace_of_not_isInfix hsecond, splitOn_append hbody, hsingle, List.flatMap_cons,
      List.flatMap_singleton, List.map_append, map_trim_pieces_join hone hinit, htrim]

end Quote

end ChatCommand
