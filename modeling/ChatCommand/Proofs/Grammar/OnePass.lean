import ChatCommand.Grammar
import ChatCommand.Proofs.Text.Trim

namespace ChatCommand.Grammar

open Text

variable {α : Type} {rule : Text → Step α} {shortens : Shortens rule}

theorem trimmed_congr {s t : Text} (h : trim s = trim t) : trimmed rule s = trimmed rule t := by
  simp only [trimmed, h]

theorem trimmed_of_trim_ne_nil {s : Text} (h : trim s ≠ []) : trimmed rule s = rule (trim s) := by
  rw [trimmed]
  split
  · rename_i hs
    exact absurd hs h
  · rename_i hs
    rw [hs]

theorem trimmed_of_trim_eq_nil {s : Text} (h : trim s = []) :
    trimmed rule s = .ok (none, []) := by
  simp only [trimmed, h]

theorem trimmed_eq_some {s rest : Text} {a : α} (h : trimmed rule s = .ok (some a, rest)) :
    rule (trim s) = .ok (some a, rest) := by
  by_cases hs : trim s = []
  · rw [trimmed_of_trim_eq_nil hs] at h
    cases h
  · rwa [trimmed_of_trim_ne_nil hs] at h

theorem trimmed_eq_error {s : Text} {e : LineError} (h : trimmed rule s = .error e) :
    rule (trim s) = .error e := by
  by_cases hs : trim s = []
  · cases (trimmed_of_trim_eq_nil hs).symm.trans h
  · rwa [trimmed_of_trim_ne_nil hs] at h

theorem exhaust_of_error {s : Text} {e : LineError} (h : trimmed rule s = .error e) :
    exhaust rule shortens s = .error e := by
  rw [exhaust]
  split <;> simp_all

theorem exhaust_of_none {s t : Text} (h : trimmed rule s = .ok (none, t)) :
    exhaust rule shortens s = .ok ([], s) := by
  rw [exhaust]
  split <;> simp_all

theorem exhaust_of_some {s rest : Text} {a : α} (h : trimmed rule s = .ok (some a, rest)) :
    exhaust rule shortens s =
      (exhaust rule shortens rest).map fun p ↦ (a :: p.1, p.2) := by
  rw [exhaust]
  split
  · simp_all
  · simp_all
  · rename_i hs
    rw [h] at hs
    cases hs
    rcases exhaust rule shortens rest with e | ⟨found, left⟩ <;> rfl

theorem exhaust_cases (shortens : Shortens rule) (s : Text) :
    (∃ e, trimmed rule s = .error e ∧ exhaust rule shortens s = .error e) ∨
      (∃ t, trimmed rule s = .ok (none, t) ∧ exhaust rule shortens s = .ok ([], s)) ∨
      ∃ a rest, trimmed rule s = .ok (some a, rest) ∧ rest.length < s.length ∧
        exhaust rule shortens s = (exhaust rule shortens rest).map fun p ↦ (a :: p.1, p.2) := by
  rcases h : trimmed rule s with e | ⟨_ | a, rest⟩
  · exact .inl ⟨e, rfl, exhaust_of_error h⟩
  · exact .inr (.inl ⟨rest, rfl, exhaust_of_none h⟩)
  · exact .inr (.inr ⟨a, rest, rfl, trimmed_shortens shortens h, exhaust_of_some h⟩)

theorem exhaust_eq_nil {s t : Text} (h : exhaust rule shortens s = .ok ([], t)) :
    t = s ∧ ∃ u, trimmed rule s = .ok (none, u) := by
  rcases exhaust_cases shortens s with
    ⟨e, _, he⟩ | ⟨u, hu, hs⟩ | ⟨a, rest, _, _, hs⟩
  · rw [he] at h
    cases h
  · rw [hs] at h
    cases h
    exact ⟨rfl, u, hu⟩
  · rw [hs] at h
    rcases hr : exhaust rule shortens rest with e | ⟨found, left⟩ <;> rw [hr] at h <;> cases h

/-- What passes from the text that a match leaves to the text in which it is found holds of every
text, if it holds where the rule fails or finds nothing. -/
theorem exhaust_induction {P : Text → Except LineError (List α × Text) → Prop}
    (fault : ∀ ⦃s e⦄, trimmed rule s = .error e → P s (.error e))
    (done : ∀ ⦃s t⦄, trimmed rule s = .ok (none, t) → P s (.ok ([], s)))
    (more : ∀ ⦃s a rest r⦄, trimmed rule s = .ok (some a, rest) → P rest r →
      P s (r.map fun p ↦ (a :: p.1, p.2)))
    (s : Text) : P s (exhaust rule shortens s) := by
  induction hn : s.length using Nat.strongRecOn generalizing s with
  | ind n ih =>
    subst hn
    rcases exhaust_cases shortens s with
      ⟨e, he, hs⟩ | ⟨t, ht, hs⟩ | ⟨a, rest, ha, hlt, hs⟩
    · rw [hs]
      exact fault he
    · rw [hs]
      exact done ht
    · rw [hs]
      exact more ha (ih _ hlt rest rfl)

theorem exhaust_ok_induction {P : Text → List α → Text → Prop}
    (done : ∀ ⦃s t⦄, trimmed rule s = .ok (none, t) → P s [] s)
    (more : ∀ ⦃s a mid found rest⦄, trimmed rule s = .ok (some a, mid) → P mid found rest →
      P s (a :: found) rest)
    {s rest : Text} {found : List α} (h : exhaust rule shortens s = .ok (found, rest)) :
    P s found rest := by
  refine exhaust_induction (P := fun s r ↦ ∀ found rest, r = .ok (found, rest) → P s found rest)
    (fun s e _ found rest h ↦ ?_) (fun s t ht found rest h ↦ ?_)
    (fun s a mid r ha ih found rest h ↦ ?_) s found rest h
  · cases h
  · cases h
    exact done ht
  · rcases r with e | ⟨tail, left⟩
    · cases h
    · cases h
      exact more ha (ih tail left rfl)

theorem exhaust_invariant {I : Text → Prop} {P : α → Prop}
    (step : ∀ ⦃s a rest⦄, I s → trimmed rule s = .ok (some a, rest) → P a ∧ I rest)
    {s rest : Text} {found : List α} (hi : I s)
    (hs : exhaust rule shortens s = .ok (found, rest)) : (∀ a ∈ found, P a) ∧ I rest := by
  refine exhaust_ok_induction (P := fun s found rest ↦ I s → (∀ a ∈ found, P a) ∧ I rest)
    (fun s t _ hi ↦ ⟨by simp, hi⟩) (fun s a mid found rest ha ih hi ↦ ?_) hs hi
  obtain ⟨hfirst, hmid⟩ := step hi ha
  obtain ⟨hmore, hrest⟩ := ih hmid
  exact ⟨List.forall_mem_cons.2 ⟨hfirst, hmore⟩, hrest⟩

theorem exhaust_error {I : Text → Prop}
    (step : ∀ ⦃s a rest⦄, I s → trimmed rule s = .ok (some a, rest) → I rest) {s : Text}
    {e : LineError} (hi : I s) (h : exhaust rule shortens s = .error e) :
    ∃ t, I t ∧ trimmed rule t = .error e := by
  refine exhaust_induction
    (P := fun s r ↦ I s → r = .error e → ∃ t, I t ∧ trimmed rule t = .error e)
    (fun s e' he hi h ↦ ?_) (fun s t _ _ h ↦ ?_) (fun s a rest r ha ih hi h ↦ ?_) s hi h
  · cases h
    exact ⟨s, hi, he⟩
  · cases h
  · rcases r with e' | p
    · exact ih (step hi ha) h
    · cases h

theorem exhaust_left {s rest : Text} {found : List α}
    (h : exhaust rule shortens s = .ok (found, rest)) : ∃ t, trimmed rule rest = .ok (none, t) :=
  exhaust_ok_induction (P := fun _ _ rest ↦ ∃ t, trimmed rule rest = .ok (none, t))
    (fun _ t ht ↦ ⟨t, ht⟩) (fun _ _ _ _ _ _ ih ↦ ih) h

theorem exhaust_forall {P : α → Prop} (h : ∀ ⦃s a rest⦄, rule s = .ok (some a, rest) → P a)
    {s rest : Text} {found : List α} (hs : exhaust rule shortens s = .ok (found, rest)) :
    ∀ a ∈ found, P a :=
  (exhaust_invariant (I := fun _ ↦ True) (fun _ _ _ _ ha ↦ ⟨h (trimmed_eq_some ha), trivial⟩)
    trivial hs).1

def piece (s : Text) : Step Node :=
  match flag s with
  | .ok (none, _) =>
    match value s with
    | .ok (none, _) => kwarg s
    | found => found
  | found => found

theorem piece_shortens : Shortens piece := by
  intro s n rest h
  simp only [piece] at h
  split at h
  · split at h
    · exact kwarg_shortens h
    · exact value_shortens h
  · exact flag_shortens h

/-- The flags, values and kwargs at the front of a text, in the order of the text. -/
def onePass (s : Text) : Except LineError (List Node × Text) :=
  exhaust piece piece_shortens s

theorem literal_dash (s : Text) : literal ('-' :: s) = .ok (none, '-' :: s) := by
  simp [literal, Token.startsWithQuote, Token.isQuote, Token.bare, Token.startsWithFlag]

theorem value_dash (s : Text) : value ('-' :: s) = .ok (none, '-' :: s) := by
  rw [value, literal_dash]
  rfl

theorem flag_dash_dash (s : Text) : flag ('-' :: '-' :: s) = .ok (none, '-' :: '-' :: s) := by
  have : isAlphanumeric '-' = false := by decide +kernel
  simp [flag, Token.letter, this]

theorem kwarg_cases (s : Text) : kwarg s = .ok (none, s) ∨ ∃ t, s = '-' :: '-' :: t := by
  by_cases h : ∃ t, s = '-' :: '-' :: t
  · exact .inr h
  · have : Token.key s = none := by
      unfold Token.key
      split
      · rename_i t
        exact absurd ⟨t, rfl⟩ h
      · rfl
    exact .inl (by simp [kwarg, this])

theorem flag_cases (s : Text) :
    flag s = .ok (none, s) ∨ ∃ c rest, flag s = .ok (some (.flag c), rest) := by
  rcases h : Token.letter s with _ | ⟨c, rest⟩
  · exact .inl (by simp [flag, h])
  · exact .inr ⟨c, rest, by simp [flag, h]⟩

theorem trimmed_piece (s : Text) :
    trimmed piece s =
      match trimmed arg s with
      | .ok (none, _) => trimmed kwarg s
      | found => found := by
  by_cases h : trim s = []
  · simp [trimmed_of_trim_eq_nil h]
  have front (rule : Text → Step Node) : trimmed rule (trim s) = rule (trim s) := by
    rw [trimmed_of_trim_ne_nil (by simpa using h), trim_trim]
  rw [trimmed_of_trim_ne_nil h, trimmed_of_trim_ne_nil h, trimmed_of_trim_ne_nil h, arg, front,
    front, piece]
  rcases flag_cases (trim s) with hf | ⟨c, rest, hf⟩
  · simp only [hf]
  · simp only [hf]

def Leads (rule : Text → Step Node) : Prop :=
  ∀ s, (∃ t, trimmed rule s = .ok (none, t)) ∨ trimmed piece s = trimmed rule s

theorem arg_leads : Leads arg := by
  intro s
  rw [trimmed_piece]
  rcases h : trimmed arg s with e | ⟨_ | n, rest⟩
  · exact .inr rfl
  · exact .inl ⟨rest, rfl⟩
  · exact .inr rfl

theorem kwarg_leads : Leads kwarg := by
  intro s
  by_cases h : trim s = []
  · exact .inl ⟨[], trimmed_of_trim_eq_nil h⟩
  rw [trimmed_of_trim_ne_nil h, trimmed_of_trim_ne_nil h]
  rcases kwarg_cases (trim s) with hk | ⟨t, ht⟩
  · exact .inl ⟨_, hk⟩
  · right
    simp only [ht, piece, flag_dash_dash, value_dash]

theorem onePass_exhaust {rule : Text → Step Node} (h : Leads rule) (shortens : Shortens rule)
    (s : Text) :
    onePass s = (exhaust rule shortens s).bind fun p ↦
      (onePass p.2).map fun q ↦ (p.1 ++ q.1, q.2) := by
  -- As long as the rule finds something, it finds what the pass would find.
  have same {s : Text} {r : Step Node} (hr : trimmed rule s = r) (hne : ∀ t, r ≠ .ok (none, t)) :
      trimmed piece s = r := by
    rcases h s with ⟨t, ht⟩ | hp
    · exact absurd (hr.symm.trans ht) (hne t)
    · exact hp.trans hr
  refine exhaust_induction (P := fun s r ↦ onePass s =
    r.bind fun p ↦ (onePass p.2).map fun q ↦ (p.1 ++ q.1, q.2)) ?fault ?done ?more s
  case fault =>
    intro s e he
    rw [onePass, exhaust_of_error (same he (by simp))]
    rfl
  case done =>
    intro s t ht
    rcases ho : onePass s with e | ⟨found, left⟩ <;> simp [Except.bind, Except.map, ho]
  case more =>
    intro s a rest r ha ih
    rw [onePass, exhaust_of_some (same ha (by simp)), ← onePass, ih]
    rcases r with e | ⟨found, left⟩
    · rfl
    · rcases ho : onePass left with e | ⟨more, final⟩ <;> simp [Except.bind, Except.map, ho]

def isKwarg : Node → Bool
  | .kwarg _ _ => true
  | _ => false

theorem isKwarg_of_arg {s rest : Text} {n : Node} (h : arg s = .ok (some n, rest)) :
    isKwarg n = false := by
  simp only [arg] at h
  split at h
  · cases h
  · rename_i hf
    cases h
    rcases flag_cases (trim s) with hn | ⟨c, left, hc⟩
    · cases hn.symm.trans (trimmed_eq_some hf)
    · cases hc.symm.trans (trimmed_eq_some hf)
      rfl
  · obtain ⟨a, -, rfl⟩ := Step.map_eq_some (trimmed_eq_some h)
    rfl

theorem isKwarg_of_kwarg {s rest : Text} {n : Node} (h : kwarg s = .ok (some n, rest)) :
    isKwarg n := by
  simp only [kwarg] at h
  split at h
  · cases h
  split at h <;> cases h <;> rfl

/-- The two phases find what one pass finds, the kwargs apart. -/
theorem gather_eq_onePass (s : Text) :
    gather s = (onePass s).map fun p ↦ (p.1.filter (!isKwarg ·), p.1.filter isKwarg, p.2) := by
  induction hn : s.length using Nat.strongRecOn generalizing s with
  | ind n ih =>
    subst hn
    -- Each look at the front of the text is a stretch of the one pass, and the rest is shorter.
    have first := onePass_exhaust arg_leads arg_shortens s
    rw [gather]
    split
    · rename_i e ha
      rw [first, ha]
      rfl
    rename_i args afterArgs ha
    have second := onePass_exhaust kwarg_leads kwarg_shortens afterArgs
    rw [ha] at first
    split
    · rename_i e hk
      rw [hk] at second
      rw [first]
      simp [second, Except.bind, Except.map]
    rename_i kwargs rest hk
    rw [hk] at second
    split
    · rename_i hnone
      obtain ⟨rfl, rfl⟩ := hnone
      obtain ⟨rfl, t, ht⟩ := exhaust_eq_nil ha
      obtain ⟨rfl, u, hu⟩ := exhaust_eq_nil hk
      have hp : trimmed piece rest = .ok (none, u) := by rw [trimmed_piece, ht, hu]
      rw [onePass, exhaust_of_none hp]
      rfl
    rename_i progress
    have hlt := length_lt_of_found ha hk progress
    have hargs : ∀ n ∈ args, isKwarg n = false :=
      exhaust_forall (P := (isKwarg · = false)) (fun _ _ _ ↦ isKwarg_of_arg) ha
    have hkwargs : ∀ n ∈ kwargs, isKwarg n :=
      exhaust_forall (P := (isKwarg ·)) (fun _ _ _ ↦ isKwarg_of_kwarg) hk
    rw [ih _ hlt rest rfl, first]
    rcases ho : onePass rest with e | ⟨more, left⟩
    · simp [second, ho, Except.bind, Except.map]
    -- The values and flags of both looks come together, and so do the kwargs.
    · have hpos : (args ++ (kwargs ++ more)).filter (!isKwarg ·) =
          args ++ more.filter (!isKwarg ·) := by
        rw [List.filter_append, List.filter_append, List.filter_eq_self.2 (by simpa using hargs),
          List.filter_eq_nil_iff.2 (by simpa using hkwargs), List.nil_append]
      have hkey : (args ++ (kwargs ++ more)).filter isKwarg = kwargs ++ more.filter isKwarg := by
        rw [List.filter_append, List.filter_append, List.filter_eq_self.2 hkwargs,
          List.filter_eq_nil_iff.2 (by simpa using hargs), List.nil_append]
      simp only [second, ho, Except.bind, Except.map, hpos, hkey]

end ChatCommand.Grammar
