import Mathlib.Tactic.TypeStar

namespace ChatCommand

variable {α ε : Type} {F : List α → α → ε → Prop} {before l : List α} {x : α} {e : ε}

def Faultless (F : List α → α → ε → Prop) (l : List α) : Prop :=
  ∀ before x after, l = before ++ x :: after → ∀ e, ¬F before x e

/-- What is wrong with the first element that is at fault, in view of those before it. -/
def FirstFault (F : List α → α → ε → Prop) (l : List α) (e : ε) : Prop :=
  ∃ before x after, l = before ++ x :: after ∧ Faultless F before ∧ F before x e

theorem faultless_nil : Faultless F [] := by
  intro before x after h
  simp at h

theorem Faultless.of_append {after : List α} (h : Faultless F (l ++ after)) : Faultless F l := by
  rintro before x rest rfl
  exact h before x (rest ++ after) (by simp)

theorem faultless_concat_iff :
    Faultless F (l ++ [x]) ↔ Faultless F l ∧ ∀ e, ¬F l x e := by
  refine ⟨fun h ↦ ⟨h.of_append, h l x [] rfl⟩, ?_⟩
  rintro ⟨hl, hx⟩ before y after h
  rcases List.eq_nil_or_concat after with rfl | ⟨after, z, rfl⟩
  · obtain ⟨rfl, ⟨⟩⟩ := List.append_inj' h rfl
    exact hx
  · have h : l ++ [x] = (before ++ y :: after) ++ [z] := by simpa using h
    obtain ⟨rfl, -⟩ := List.append_inj' h rfl
    exact hl before y after rfl

/-- A check goes through the elements in their order, given those that are done with, and stops at
the first one that is at fault. -/
structure Scans (F : List α → α → ε → Prop) (check : List α → List α → Except ε Unit) : Prop where
  nil : ∀ before, check before [] = .ok ()
  fault : ∀ {before x e} l, F before x e → check before (x :: l) = .error e
  next : ∀ {before x} l, (∀ e, ¬F before x e) → check before (x :: l) = check (before ++ [x]) l

namespace Scans

variable {check : List α → List α → Except ε Unit}

theorem eq_ok_iff_of (h : Scans F check) (hbefore : Faultless F before) :
    check before l = .ok () ↔ Faultless F (before ++ l) := by
  induction l generalizing before with
  | nil => simp only [h.nil, List.append_nil, hbefore]
  | cons x l ih =>
    by_cases hx : ∃ e, F before x e
    · obtain ⟨e, he⟩ := hx
      rw [h.fault l he]
      simp only [reduceCtorEq, false_iff]
      exact fun hall ↦ hall before x l rfl e he
    · have hx := not_exists.1 hx
      have hnext := ih (faultless_concat_iff.2 ⟨hbefore, hx⟩)
      rw [List.append_assoc] at hnext
      rw [h.next l hx]
      exact hnext

theorem eq_error_iff_of (h : Scans F check) (hbefore : Faultless F before) :
    check before l = .error e ↔
      ∃ mid x after,
        l = mid ++ x :: after ∧ Faultless F (before ++ mid) ∧ F (before ++ mid) x e := by
  -- An element that is not at fault goes over to those before.
  induction l generalizing before with
  | nil => simp [h.nil]
  | cons x l ih =>
    by_cases hx : ∃ e, F before x e
    · obtain ⟨e', he'⟩ := hx
      have hcheck := h.fault l he'
      constructor
      · intro herror
        cases hcheck.symm.trans herror
        exact ⟨[], x, l, rfl, by simpa using hbefore, by simpa using he'⟩
      · intro hfirst
        obtain ⟨mid, y, after, hl, hmid, hy⟩ := hfirst
        cases mid with
        | nil =>
          cases hl
          rw [List.append_nil] at hy
          exact h.fault _ hy
        | cons z mid =>
          cases hl
          exact absurd he' (hmid before x mid rfl e')
    · have hx := not_exists.1 hx
      rw [h.next l hx, ih (faultless_concat_iff.2 ⟨hbefore, hx⟩)]
      simp only [List.append_assoc, List.singleton_append]
      constructor
      · intro hfirst
        obtain ⟨mid, y, after, rfl, hmid, hy⟩ := hfirst
        exact ⟨x :: mid, y, after, rfl, hmid, hy⟩
      · intro hfirst
        obtain ⟨mid, y, after, hl, hmid, hy⟩ := hfirst
        cases mid with
        | nil =>
          cases hl
          rw [List.append_nil] at hy
          exact absurd hy (hx e)
        | cons z mid =>
          cases hl
          exact ⟨mid, y, after, rfl, hmid, hy⟩

theorem eq_ok_iff (h : Scans F check) : check [] l = .ok () ↔ Faultless F l :=
  h.eq_ok_iff_of faultless_nil

theorem eq_error_iff (h : Scans F check) : check [] l = .error e ↔ FirstFault F l e :=
  h.eq_error_iff_of faultless_nil

end Scans

end ChatCommand
