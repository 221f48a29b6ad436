import ChatCommand.Proofs.Bind.Resolve

namespace ChatCommand

theorem filter_eq_singleton_of_nodup {α β : Type} [DecidableEq β] {f : α → β} {l : List α}
    (hl : (l.map f).Nodup) {a : α} (ha : a ∈ l) : l.filter (f · = f a) = [a] := by
  induction l with
  | nil => cases ha
  | cons b l ih =>
    rw [List.map_cons, List.nodup_cons] at hl
    rcases List.mem_cons.1 ha with rfl | ha
    · have hnone : l.filter (f · = f a) = [] := by
        rw [List.filter_eq_nil_iff]
        intro c hc hname
        exact hl.1 (of_decide_eq_true hname ▸ List.mem_map_of_mem hc)
      rw [List.filter_cons, if_pos (decide_eq_true rfl), hnone]
    · have hne : f b ≠ f a := fun h ↦ hl.1 (h ▸ List.mem_map_of_mem ha)
      rw [List.filter_cons_of_neg (by simpa using hne)]
      exact ih hl.2 ha

namespace Command

variable {C : Type} {cmd target : Command C} {command : Text} {e : DeclarationError}

inductive ArgFault (command : Text) (before : List ArgSpec) : ArgSpec → DeclarationError → Prop
  | fallback {arg : ArgSpec} {v : Value} : arg.fallback = some v → v.ty ≠ arg.ty →
      ArgFault command before arg (.fallbackMismatch command arg.name arg.ty v)
  | required {arg : ArgSpec} : arg.fallback = none → (∃ other ∈ before, other.fallback.isSome) →
      ArgFault command before arg (.requiredAfterOptional command arg.name)

inductive FlagFault (command : Text) (before : List FlagSpec) : FlagSpec → DeclarationError → Prop
  | letter {flag : FlagSpec} : ¬isAlphanumeric flag.name →
      FlagFault command before flag (.invalidFlag command flag.name)
  | repeated {flag : FlagSpec} : isAlphanumeric flag.name → flag.name ∈ before.map (·.name) →
      FlagFault command before flag (.duplicateFlag command flag.name)

inductive KwargFault (command : Text) (before : List KwargSpec) :
    KwargSpec → DeclarationError → Prop
  | reserved {kwarg : KwargSpec} : kwarg.key = helpWord →
      KwargFault command before kwarg (.reservedKwarg command)
  | key {kwarg : KwargSpec} : kwarg.key ≠ helpWord → ¬Token.isSymbol kwarg.key →
      KwargFault command before kwarg (.invalidKey command kwarg.key)
  | repeated {kwarg : KwargSpec} : kwarg.key ≠ helpWord → Token.isSymbol kwarg.key →
      kwarg.key ∈ before.map (·.key) →
      KwargFault command before kwarg (.duplicateKwarg command kwarg.key)
  | fallback {kwarg : KwargSpec} {v : Value} : kwarg.key ≠ helpWord → Token.isSymbol kwarg.key →
      kwarg.key ∉ before.map (·.key) → kwarg.arity = .fallback v → v.ty ≠ kwarg.ty →
      KwargFault command before kwarg (.fallbackMismatch command kwarg.key kwarg.ty v)

inductive SubcommandFault (before : List (Command C)) : Command C → DeclarationError → Prop
  | repeated {sub : Command C} : sub.name ∈ before.map (·.name) →
      SubcommandFault before sub (.duplicateCommand sub.name)

/-- What is wrong with a declaration in the first place: its name, then its positionals, flags,
kwargs and subcommands, of each kind the first one that is at fault. -/
inductive Breach (cmd : Command C) : DeclarationError → Prop
  | name : ¬Token.isName cmd.name → Breach cmd (.invalidName cmd.name)
  | arg {e : DeclarationError} : Token.isName cmd.name →
      FirstFault (ArgFault cmd.name) cmd.args e → Breach cmd e
  | flag {e : DeclarationError} : Token.isName cmd.name →
      Faultless (ArgFault cmd.name) cmd.args → FirstFault (FlagFault cmd.name) cmd.flags e →
      Breach cmd e
  | kwarg {e : DeclarationError} : Token.isName cmd.name →
      Faultless (ArgFault cmd.name) cmd.args → Faultless (FlagFault cmd.name) cmd.flags →
      FirstFault (KwargFault cmd.name) cmd.kwargs e → Breach cmd e
  | subcommand {e : DeclarationError} : Token.isName cmd.name →
      Faultless (ArgFault cmd.name) cmd.args → Faultless (FlagFault cmd.name) cmd.flags →
      Faultless (KwargFault cmd.name) cmd.kwargs →
      FirstFault SubcommandFault cmd.subcommands e → Breach cmd e

section Scan

theorem checkFallback_of_ne {name : Text} {ty : Ty} {v : Value} (h : v.ty ≠ ty) :
    checkFallback command name ty v = .error (.fallbackMismatch command name ty v) :=
  if_neg h

theorem checkFallback_of_eq {name : Text} {ty : Ty} {v : Value} (h : v.ty = ty) :
    checkFallback command name ty v = .ok () :=
  if_pos h

theorem scans_args : Scans (ArgFault command) fun before args ↦
    checkArgs command (before.any (·.fallback.isSome)) args where
  nil _ := rfl
  fault args h := by
    cases h with
    | fallback hv hty =>
      simp only [checkArgs, hv, checkFallback_of_ne hty]
      rfl
    | required hnone hsome => simp only [checkArgs, hnone, List.any_eq_true.2 hsome, if_pos]
  next {before arg} args h := by
    rcases hfallback : arg.fallback with _ | v
    · have hfirst : before.any (·.fallback.isSome) = false := by
        rw [Bool.eq_false_iff]
        exact fun hsome ↦ h _ (.required hfallback (List.any_eq_true.1 hsome))
      simp [checkArgs, hfallback, hfirst]
    · have hty : v.ty = arg.ty := by
        by_contra hne
        exact h _ (.fallback hfallback hne)
      simp only [checkArgs, hfallback, checkFallback_of_eq hty, List.any_append, List.any_cons,
        Option.isSome_some, Bool.true_or, Bool.or_true]
      rfl

theorem scans_flags : Scans (FlagFault command) fun before flags ↦
    checkFlags command (before.map (·.name)).reverse flags where
  nil _ := rfl
  fault flags h := by
    cases h with
    | letter hletter => simp [checkFlags, hletter]
    | repeated hletter hmem => simp [checkFlags, hletter, hmem]
  next {before flag} flags h := by
    have hletter : isAlphanumeric flag.name := by
      by_contra hnot
      exact h _ (.letter hnot)
    have hnew : flag.name ∉ before.map (·.name) := fun hmem ↦ h _ (.repeated hletter hmem)
    rw [checkFlags, if_neg (by simp [hletter]), if_neg (by simpa using hnew)]
    simp

theorem checkKwargs_cons (seen : List Text) (kwarg : KwargSpec) (kwargs : List KwargSpec) :
    checkKwargs command seen (kwarg :: kwargs) =
      if kwarg.key = helpWord then .error (.reservedKwarg command)
      else if !Token.isSymbol kwarg.key then .error (.invalidKey command kwarg.key)
      else if kwarg.key ∈ seen then .error (.duplicateKwarg command kwarg.key)
      else kwarg.arity.fallback?.elim (.ok ()) (checkFallback command kwarg.key kwarg.ty) >>=
        fun _ ↦ checkKwargs command (kwarg.key :: seen) kwargs := by
  obtain ⟨key, ty, doc, arity, bare⟩ := kwarg
  cases arity <;> rfl

theorem scans_kwargs : Scans (KwargFault command) fun before kwargs ↦
    checkKwargs command (before.map (·.key)).reverse kwargs where
  nil _ := rfl
  fault {before kwarg e} kwargs h := by
    rw [checkKwargs_cons]
    cases h with
    | reserved hkey => rw [if_pos hkey]
    | key hkey hsymbol => rw [if_neg hkey, if_pos (by simpa using hsymbol)]
    | repeated hkey hsymbol hmem =>
      rw [if_neg hkey, if_neg (by simpa using hsymbol), if_pos (List.mem_reverse.2 hmem)]
    | fallback hkey hsymbol hnew harity hty =>
      rw [if_neg hkey, if_neg (by simpa using hsymbol), if_neg (mt List.mem_reverse.1 hnew),
        Arity.fallback?_eq_some_iff.2 harity, Option.elim_some, checkFallback_of_ne hty]
      rfl
  next {before kwarg} kwargs h := by
    have hkey : kwarg.key ≠ helpWord := fun hkey ↦ h _ (.reserved hkey)
    have hsymbol : Token.isSymbol kwarg.key := by
      by_contra hnot
      exact h _ (.key hkey hnot)
    have hnew : kwarg.key ∉ before.map (·.key) := fun hmem ↦ h _ (.repeated hkey hsymbol hmem)
    have hfallback : kwarg.arity.fallback?.elim (.ok ())
        (checkFallback command kwarg.key kwarg.ty) = .ok () := by
      rcases hv : kwarg.arity.fallback? with _ | v
      · rfl
      · refine checkFallback_of_eq ?_
        by_contra hne
        exact h _ (.fallback hkey hsymbol hnew (Arity.fallback?_eq_some_iff.1 hv) hne)
    rw [checkKwargs_cons, if_neg hkey, if_neg (by simpa using hsymbol),
      if_neg (mt List.mem_reverse.1 hnew), hfallback, List.map_append, List.reverse_append]
    rfl

theorem scans_subcommands : Scans (SubcommandFault (C := C)) fun before subs ↦
    checkSubcommands (before.map (·.name)).reverse subs where
  nil _ := rfl
  fault {before sub e} subs h := by
    cases h with
    | repeated hmem => exact if_pos (List.mem_reverse.2 hmem)
  next {before sub} subs h := by
    have hnew : sub.name ∉ (before.map (·.name)).reverse :=
      fun hmem ↦ h _ (.repeated (List.mem_reverse.1 hmem))
    refine (if_neg hnew).trans ?_
    rw [List.map_append, List.reverse_append]
    rfl

end Scan

theorem check_eq_error_iff : cmd.check = .error e ↔ cmd.Breach e := by
  have hargs : checkArgs cmd.name false cmd.args = .ok () ↔ _ := scans_args.eq_ok_iff
  have hargs' : checkArgs cmd.name false cmd.args = .error e ↔ _ := scans_args.eq_error_iff
  have hflags : checkFlags cmd.name [] cmd.flags = .ok () ↔ _ := scans_flags.eq_ok_iff
  have hflags' : checkFlags cmd.name [] cmd.flags = .error e ↔ _ := scans_flags.eq_error_iff
  have hkwargs : checkKwargs cmd.name [] cmd.kwargs = .ok () ↔ _ := scans_kwargs.eq_ok_iff
  have hkwargs' : checkKwargs cmd.name [] cmd.kwargs = .error e ↔ _ := scans_kwargs.eq_error_iff
  have hsubs' : checkSubcommands [] cmd.subcommands = .error e ↔ _ :=
    scans_subcommands.eq_error_iff
  simp only [check, guard_eq_error, check_bind_eq_error, hargs, hargs', hflags, hflags', hkwargs,
    hkwargs', hsubs', Bool.not_eq_true', Bool.not_eq_false]
  constructor
  · intro h
    rcases h with ⟨hname, rfl⟩ | ⟨hname, hfirst | ⟨ha, hfirst | ⟨hf, hfirst | ⟨hk, hfirst⟩⟩⟩⟩
    · exact .name (by simp [hname])
    · exact .arg hname hfirst
    · exact .flag hname ha hfirst
    · exact .kwarg hname ha hf hfirst
    · exact .subcommand hname ha hf hk hfirst
  · intro h
    cases h with
    | name hname => exact .inl ⟨by simpa using hname, rfl⟩
    | arg hname hfirst => exact .inr ⟨hname, .inl hfirst⟩
    | flag hname ha hfirst => exact .inr ⟨hname, .inr ⟨ha, .inl hfirst⟩⟩
    | kwarg hname ha hf hfirst => exact .inr ⟨hname, .inr ⟨ha, .inr ⟨hf, .inl hfirst⟩⟩⟩
    | subcommand hname ha hf hk hfirst =>
      exact .inr ⟨hname, .inr ⟨ha, .inr ⟨hf, .inr ⟨hk, hfirst⟩⟩⟩⟩

/-- For each entry of the list its name leads to it, and there is no other entry of that name. -/
def Finds {α β : Type} [DecidableEq β] (l : List α) (name : α → β) (find : β → Option α) : Prop :=
  ∀ a ∈ l, find (name a) = some a ∧ l.filter (name · = name a) = [a]

theorem finds_of_nodup {α β : Type} [DecidableEq β] {l : List α} {name : α → β}
    (h : (l.map name).Nodup) : Finds l name fun b ↦ l.find? (name · = b) :=
  fun _ ha ↦ ⟨(find?_eq_some_of_nodup h).2 ⟨ha, rfl⟩, filter_eq_singleton_of_nodup h ha⟩

/-- What binding asks a declaration for is answered as the lists of the declaration say. -/
structure Indexed (cmd : Command C) : Prop where
  requiredArgs : cmd.requiredArgs = cmd.args.countP (·.fallback.isNone)
  flags : Finds cmd.flags (·.name) cmd.flag?
  kwargs : Finds cmd.kwargs (·.key) cmd.kwarg?
  subcommands : Finds cmd.subcommands (·.name) cmd.subcommand?

theorem WellFormed.indexed (h : cmd.WellFormed) : cmd.Indexed where
  requiredArgs := h.requiredArgs_eq
  flags := finds_of_nodup h.flagsDistinct
  kwargs := finds_of_nodup h.kwargsDistinct
  subcommands := finds_of_nodup h.subcommandsDistinct

theorem checkDeep_eq_check (h : ∀ sub ∈ cmd.subcommands, sub.Checked) :
    cmd.checkDeep = cmd.check := by
  obtain ⟨name, doc, args, flags, kwargs, subcommands, handler⟩ := cmd
  rw [checkDeep, checkAll_eq_ok fun sub hsub ↦ checkDeep_eq_ok_iff.2 (h sub hsub)]
  rfl

/-- A declaration over subcommands that are accepted is accepted just when it is well-formed, and
otherwise refused for the first thing that is wrong with it. In one that is accepted, and in all
commands below it, each declared name leads to its only entry. -/
theorem checkDeep_exact (h : ∀ sub ∈ cmd.subcommands, sub.Checked) :
    (cmd.checkDeep = .ok () ↔ cmd.WellFormed) ∧
      (∀ e, cmd.checkDeep = .error e ↔ cmd.Breach e) ∧
      (cmd.checkDeep = .ok () → ∀ nodes names target rest,
        Descent cmd nodes names target rest → target.Indexed) := by
  have hcheck := checkDeep_eq_check h
  refine ⟨?_, fun e ↦ ?_, fun hok nodes names target rest hd ↦ ?_⟩
  · rw [hcheck, check_eq_ok_iff]
  · rw [hcheck, check_eq_error_iff]
  · exact (hd.checked (checkDeep_eq_ok_iff.1 hok)).wellFormed.indexed

/-- A declaration with a second flag `q`, and with a reserved key and a repeated subcommand, which
come too late to be refused for. -/
def twisted : Command Unit where
  name := ['t']
  doc := []
  args := [⟨['n'], .integer, [], none⟩, ⟨['u'], .string, [], some (.str ['k', 'r'])⟩]
  flags := [⟨'q', []⟩, ⟨'r', []⟩, ⟨'q', ['a']⟩, ⟨'-', []⟩]
  kwargs := [⟨helpWord, .integer, [], .fallback (.str []), false⟩]
  subcommands := [send, send]
  handler := none

theorem checkDeep_exact_bank :
    (∀ sub ∈ bank.subcommands, sub.Checked) ∧ (∀ sub ∈ twisted.subcommands, sub.Checked) ∧
      bank.WellFormed ∧ bank.Indexed ∧ send.Indexed ∧
      twisted.checkDeep = .error (.duplicateFlag twisted.name 'q') ∧
      twisted.Breach (.duplicateFlag twisted.name 'q') := by
  have hsend : send.Checked := bank_checked.of_mem (List.mem_singleton.2 rfl)
  have hbank : ∀ sub ∈ bank.subcommands, sub.Checked := List.forall_mem_singleton.2 hsend
  have htwice : ∀ sub ∈ twisted.subcommands, sub.Checked :=
    List.forall_mem_cons.2 ⟨hsend, List.forall_mem_singleton.2 hsend⟩
  obtain ⟨haccepted, -, hindexed⟩ := checkDeep_exact hbank
  have hok : bank.checkDeep = .ok () := checkDeep_eq_ok_iff.2 bank_checked
  have hrefused : twisted.checkDeep = .error (.duplicateFlag twisted.name 'q') := by
    decide +kernel
  refine ⟨hbank, htwice, haccepted.1 hok, hindexed hok _ _ _ _ (.here bank []), ?_, hrefused,
    ((checkDeep_exact htwice).2.1 _).1 hrefused⟩
  exact hindexed hok _ _ _ _ (.down (List.mem_singleton.2 rfl) (.here send []))

end Command

end ChatCommand
