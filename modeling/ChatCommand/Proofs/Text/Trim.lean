import ChatCommand.Token
import Mathlib.Data.List.TakeWhile

namespace ChatCommand.Text

variable {p : Char → Bool} {s t : Text}

theorem trimEndBy_append_of_all (h : ∀ c ∈ t, p c) : trimEndBy p (s ++ t) = trimEndBy p s := by
  induction s with
  | nil => exact trimEndBy_eq_nil_iff.2 h
  | cons c s ih => rw [List.cons_append, trimEndBy, ih, trimEndBy]

theorem trimEndBy_append (h : trimEndBy p t ≠ []) : trimEndBy p (s ++ t) = s ++ trimEndBy p t := by
  induction s with
  | nil => rfl
  | cons c s ih => simp [trimEndBy, ih, h]

theorem trimEndBy_cons_of_neg {c : Char} (h : p c = false) :
    trimEndBy p (c :: s) = c :: trimEndBy p s := by
  simp [trimEndBy, h]

theorem exists_trimEndBy_append (p : Char → Bool) (s : Text) :
    ∃ t, s = trimEndBy p s ++ t ∧ ∀ c ∈ t, p c := by
  induction s with
  | nil => exact ⟨[], by simp [trimEndBy]⟩
  | cons c s ih =>
    obtain ⟨t, hs, ht⟩ := ih
    simp only [trimEndBy]
    split
    · rename_i h
      simp only [Bool.and_eq_true, List.isEmpty_iff] at h
      refine ⟨c :: s, rfl, ?_⟩
      rw [h.1] at hs
      simp only [List.mem_cons]
      rintro d (rfl | hd)
      · exact h.2
      · exact ht d (by simpa [hs] using hd)
    · exact ⟨t, by rw [List.cons_append, ← hs], ht⟩

theorem trimBy_of_ends (hfirst : ∀ c ∈ s.head?, p c = false)
    (hlast : ∀ c ∈ s.getLast?, p c = false) : trimBy p s = s := by
  have hstart : s.dropWhile p = s := by
    cases s with
    | nil => rfl
    | cons c s => exact List.dropWhile_cons_of_neg (by simp [hfirst c rfl])
  rw [trimBy, hstart]
  rcases hs : s.getLast? with _ | c
  · rw [List.getLast?_eq_none_iff.1 hs]
    rfl
  · have hcut : trimEndBy p [c] = [c] := trimEndBy_cons_of_neg (hlast c hs)
    obtain ⟨t, rfl⟩ := List.getLast?_eq_some_iff.1 hs
    rw [trimEndBy_append (by simp [hcut]), hcut]

theorem trimStart_append (h : ∀ c ∈ t, isBlank c) : trimStart (t ++ s) = trimStart s :=
  List.dropWhile_append_of_pos h

theorem trimStart_eq_nil_iff : trimStart s = [] ↔ ∀ c ∈ s, isBlank c :=
  List.dropWhile_eq_nil_iff

theorem trim_append_left (h : ∀ c ∈ t, isBlank c) : trim (t ++ s) = trim s :=
  congrArg trimEnd (trimStart_append h)

theorem trim_append_right (h : ∀ c ∈ t, isBlank c) : trim (s ++ t) = trim s := by
  rcases hs : trimStart s with _ | ⟨c, u⟩
  · have hblank := trimStart_eq_nil_iff.1 hs
    have hall : ∀ c ∈ s ++ t, isBlank c := by
      intro c hc
      rcases List.mem_append.1 hc with hc | hc
      · exact hblank c hc
      · exact h c hc
    simp only [trim, trimBy]
    rw [show (s ++ t).dropWhile isBlank = [] from trimStart_eq_nil_iff.2 hall,
      show s.dropWhile isBlank = [] from hs]
  · have hcut : trimStart (s ++ t) = trimStart s ++ t := by
      simp only [trimStart] at hs ⊢
      rw [List.dropWhile_append, hs]
      rfl
    exact (congrArg trimEnd hcut).trans (trimEndBy_append_of_all h)

theorem exists_trim (s : Text) :
    ∃ a b, s = a ++ (trim s ++ b) ∧ (∀ c ∈ a, isBlank c) ∧ ∀ c ∈ b, isBlank c := by
  obtain ⟨b, hb, hblank⟩ := exists_trimEndBy_append isBlank (trimStart s)
  refine ⟨s.takeWhile isBlank, b, ?_, fun c hc ↦ ?_, hblank⟩
  · exact (List.takeWhile_append_dropWhile (p := isBlank)).symm.trans (congrArg (_ ++ ·) hb)
  · exact List.all_eq_true.1 (List.all_takeWhile (p := isBlank) (l := s)) c hc

theorem trim_subset (s : Text) : trim s ⊆ s := by
  obtain ⟨a, b, hs, -, -⟩ := exists_trim s
  intro c hc
  rw [hs]
  exact List.mem_append_right a (List.mem_append_left b hc)

@[simp]
theorem trim_trim (s : Text) : trim (trim s) = trim s := by
  obtain ⟨a, b, hs, ha, hb⟩ := exists_trim s
  calc
    trim (trim s) = trim (a ++ (trim s ++ b)) := by rw [trim_append_left ha, trim_append_right hb]
    _ = trim s := by rw [← hs]

@[simp]
theorem trim_trimStart (s : Text) : trim (trimStart s) = trim s := by
  have hblank : ∀ c ∈ s.takeWhile isBlank, isBlank c :=
    List.all_eq_true.1 (List.all_takeWhile (p := isBlank) (l := s))
  calc
    trim (trimStart s) = trim (s.takeWhile isBlank ++ trimStart s) := (trim_append_left hblank).symm
    _ = trim s := congrArg trim List.takeWhile_append_dropWhile

@[simp]
theorem trim_trimEnd (s : Text) : trim (trimEnd s) = trim s := by
  obtain ⟨t, hs, ht⟩ := exists_trimEndBy_append isBlank s
  calc
    trim (trimEnd s) = trim (trimEnd s ++ t) := (trim_append_right ht).symm
    _ = trim s := congrArg trim hs.symm

theorem trim_eq_nil_iff : trim s = [] ↔ ∀ c ∈ s, isBlank c := by
  refine ⟨fun h c hc ↦ ?_, fun h ↦ ?_⟩
  · obtain ⟨a, b, hs, ha, hb⟩ := exists_trim s
    rw [hs, h, List.nil_append] at hc
    rcases List.mem_append.1 hc with hc | hc
    · exact ha c hc
    · exact hb c hc
  · simpa [trim, trimBy, trimEndBy] using trim_append_left (s := []) h

/-- A text that trimming leaves as it is. -/
structure Solid (s : Text) : Prop where
  first : ∃ c t, s = c :: t ∧ isBlank c = false
  last : ∃ t c, s = t ++ [c] ∧ isBlank c = false

theorem Solid.ne_nil (h : Solid s) : s ≠ [] := by
  obtain ⟨c, t, rfl, _⟩ := h.first
  simp

theorem Solid.of_forall (hne : s ≠ []) (h : ∀ c ∈ s, isBlank c = false) : Solid s := by
  constructor
  · obtain ⟨c, t, rfl⟩ := List.exists_cons_of_ne_nil hne
    exact ⟨c, t, rfl, h c (by simp)⟩
  · obtain ⟨t, c, rfl⟩ : ∃ t c, s = t ++ [c] :=
      ⟨s.dropLast, s.getLast hne, (List.dropLast_concat_getLast hne).symm⟩
    exact ⟨t, c, rfl, h c (by simp)⟩

theorem solid_dash : Solid ['-'] :=
  .of_forall (by simp) (List.forall_mem_singleton.2 rfl)

theorem Solid.trim_eq (h : Solid s) : trim s = s := by
  obtain ⟨c, t, hfirst, hc⟩ := h.first
  obtain ⟨u, d, hlast, hd⟩ := h.last
  refine trimBy_of_ends ?_ ?_
  · simpa [hfirst] using hc
  · simpa [hlast] using hd

theorem Solid.append (hs : Solid s) (ht : Solid t) (u : Text) : Solid (s ++ u ++ t) := by
  obtain ⟨c, s, rfl, hc⟩ := hs.first
  obtain ⟨t, d, rfl, hd⟩ := ht.last
  exact ⟨⟨c, s ++ u ++ (t ++ [d]), by simp, hc⟩, ⟨c :: s ++ u ++ t, d, by simp, hd⟩⟩

theorem Solid.trim_append (hs : Solid s) {lead : Text} (hlead : ∀ c ∈ lead, isBlank c) :
    trim (lead ++ (s ++ t)) = s ++ trimEnd t := by
  rw [trim_append_left hlead]
  obtain ⟨c, u, rfl, hc⟩ := hs.first
  obtain ⟨v, d, hv, hd⟩ := hs.last
  have hstart : trimStart (c :: u ++ t) = c :: u ++ t := by simp [trimStart, hc]
  have hend : trimEnd (c :: u ++ t) = c :: u ++ trimEnd t := by
    have hcut : trimEnd (d :: t) = d :: trimEnd t := trimEndBy_cons_of_neg hd
    rw [hv, List.append_assoc, List.append_assoc]
    have hne : trimEndBy isBlank (d :: t) ≠ [] := by
      intro h
      exact List.cons_ne_nil d (trimEnd t) (hcut.symm.trans h)
    exact (trimEndBy_append hne).trans (congrArg (v ++ ·) hcut)
  exact (congrArg trimEnd hstart).trans hend

def Parted (s : Text) : Prop :=
  ∀ c ∈ s.head?, isBlank c

theorem Parted.append (h : Parted s) (ht : s = [] → Parted t) : Parted (s ++ t) := by
  cases s with
  | nil => exact ht rfl
  | cons c s => exact h

theorem Parted.of_blank (h : ∀ c ∈ s, isBlank c) : Parted s :=
  fun c hc ↦ h c (List.mem_of_mem_head? hc)

theorem Parted.trimEnd (h : Parted s) : Parted (trimEnd s) := by
  obtain ⟨t, hs, -⟩ := exists_trimEndBy_append isBlank s
  intro c hc
  refine h c ?_
  rw [hs]
  cases hcut : trimEndBy isBlank s with
  | nil => simp [Text.trimEnd, hcut] at hc
  | cons d u => simpa [Text.trimEnd, hcut] using hc

theorem Parted.trim_tail (h : Parted s) : trim s.tail = trim s := by
  cases s with
  | nil => rfl
  | cons c s => exact (trim_append_left (t := [c]) (by simpa [Parted] using h)).symm

theorem Parted.word_append (ht : Parted t) (hs : ∀ c ∈ s, isBlank c = false) :
    Token.word (s ++ t) = (s, t.tail) := by
  have inside : ∀ c ∈ s, (!isBlank c) = true := by simpa using hs
  rw [Token.word, List.takeWhile_append_of_pos inside, List.dropWhile_append_of_pos inside]
  cases t with
  | nil => simp
  | cons c t =>
    have : isBlank c := ht c rfl
    simp [this]

end ChatCommand.Text
