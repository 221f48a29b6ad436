import ChatCommand.Command.Check
import ChatCommand.Proofs.Except
import Mathlib.Data.List.Nodup

namespace ChatCommand

theorem find?_eq_some_of_nodup {α β : Type} [DecidableEq β] {f : α → β} {l : List α}
    (hl : (l.map f).Nodup) {k : β} {a : α} : l.find? (f · = k) = some a ↔ a ∈ l ∧ f a = k := by
  refine ⟨fun h ↦ ⟨List.mem_of_find?_eq_some h, by simpa using List.find?_some h⟩, ?_⟩
  intro h
  obtain ⟨ha, rfl⟩ := h
  induction l with
  | nil => cases ha
  | cons b l ih =>
    rw [List.map_cons, List.nodup_cons] at hl
    rcases List.mem_cons.1 ha with rfl | ha
    · simp
    · have hne : f b ≠ f a := fun h ↦ hl.1 (h ▸ List.mem_map_of_mem ha)
      rw [List.find?_cons_of_neg (by simpa using hne)]
      exact ih hl.2 ha

namespace Command

variable {C : Type} {cmd : Command C} {command : Text}

/-- What a declaration promises, its subcommands taken as they are. -/
structure WellFormed (cmd : Command C) : Prop where
  name : Token.isName cmd.name
  fallbacksLast : cmd.args.Pairwise fun a b ↦ a.fallback.isSome → b.fallback.isSome
  argFallback : ∀ arg ∈ cmd.args, ∀ v, arg.fallback = some v → v.ty = arg.ty
  flagName : ∀ flag ∈ cmd.flags, isAlphanumeric flag.name
  flagsDistinct : (cmd.flags.map (·.name)).Nodup
  kwargKey : ∀ kwarg ∈ cmd.kwargs, kwarg.key ≠ helpWord ∧ Token.isSymbol kwarg.key
  kwargsDistinct : (cmd.kwargs.map (·.key)).Nodup
  kwargFallback : ∀ kwarg ∈ cmd.kwargs, ∀ v, kwarg.arity = .fallback v → v.ty = kwarg.ty
  subcommandsDistinct : (cmd.subcommands.map (·.name)).Nodup

theorem checkFallback_eq_ok_iff {name : Text} {ty : Ty} {v : Value} :
    checkFallback command name ty v = .ok () ↔ v.ty = ty := by
  simp [checkFallback]

theorem checkArgs_eq_ok_iff {seenOptional : Bool} {args : List ArgSpec} :
    checkArgs command seenOptional args = .ok () ↔
      (seenOptional → ∀ arg ∈ args, arg.fallback.isSome) ∧
        (args.Pairwise fun a b ↦ a.fallback.isSome → b.fallback.isSome) ∧
        ∀ arg ∈ args, ∀ v, arg.fallback = some v → v.ty = arg.ty := by
  induction args generalizing seenOptional with
  | nil => simp [checkArgs]
  | cons arg args ih =>
    rcases hf : arg.fallback with _ | v
    · cases seenOptional <;> simp [checkArgs, hf, ih]
    · simp only [checkArgs, hf, check_bind_eq_ok, checkFallback_eq_ok_iff, ih, List.pairwise_cons,
        List.mem_cons, forall_eq_or_imp]
      grind

theorem checkFlags_eq_ok_iff {seen : List Char} {flags : List FlagSpec} :
    checkFlags command seen flags = .ok () ↔
      (∀ flag ∈ flags, isAlphanumeric flag.name) ∧ (∀ flag ∈ flags, flag.name ∉ seen) ∧
        (flags.map (·.name)).Nodup := by
  induction flags generalizing seen with
  | nil => simp [checkFlags]
  | cons flag flags ih =>
    simp only [checkFlags, guard_eq_ok, ih, List.map_cons, List.nodup_cons, List.mem_cons,
      forall_eq_or_imp]
    grind

theorem checkKwargs_eq_ok_iff {seen : List Text} {kwargs : List KwargSpec} :
    checkKwargs command seen kwargs = .ok () ↔
      (∀ kwarg ∈ kwargs, kwarg.key ≠ helpWord ∧ Token.isSymbol kwarg.key) ∧
        (∀ kwarg ∈ kwargs, kwarg.key ∉ seen) ∧ (kwargs.map (·.key)).Nodup ∧
        ∀ kwarg ∈ kwargs, ∀ v, kwarg.arity = .fallback v → v.ty = kwarg.ty := by
  induction kwargs generalizing seen with
  | nil => exact ⟨fun _ ↦ by simp, fun _ ↦ rfl⟩
  | cons kwarg kwargs ih =>
    obtain ⟨key, ty, doc, arity, bare⟩ := kwarg
    cases arity with
    | fallback v =>
      change (if key = helpWord then _ else if !Token.isSymbol key then _ else if key ∈ seen then _
        else checkFallback command key ty v >>= fun _ ↦ checkKwargs command (key :: seen) kwargs) =
          _ ↔ _
      simp only [guard_eq_ok, check_bind_eq_ok, checkFallback_eq_ok_iff, ih, List.map_cons,
        List.nodup_cons, List.mem_cons, forall_eq_or_imp]
      grind
    | optional | required =>
      change (if key = helpWord then _ else if !Token.isSymbol key then _ else if key ∈ seen then _
        else checkKwargs command (key :: seen) kwargs) = _ ↔ _
      simp only [guard_eq_ok, ih, List.map_cons, List.nodup_cons, List.mem_cons, forall_eq_or_imp]
      grind

theorem checkSubcommands_eq_ok_iff {seen : List Text} {subs : List (Command C)} :
    checkSubcommands seen subs = .ok () ↔
      (∀ sub ∈ subs, sub.name ∉ seen) ∧ (subs.map (·.name)).Nodup := by
  induction subs generalizing seen with
  | nil => exact ⟨fun _ ↦ by simp, fun _ ↦ rfl⟩
  | cons sub subs ih =>
    change (if sub.name ∈ seen then _ else checkSubcommands (sub.name :: seen) subs) = _ ↔ _
    simp only [guard_eq_ok, ih, List.map_cons, List.nodup_cons, List.mem_cons, forall_eq_or_imp]
    grind

theorem check_eq_ok_iff : cmd.check = .ok () ↔ cmd.WellFormed := by
  simp only [check, guard_eq_ok, check_bind_eq_ok, checkArgs_eq_ok_iff, checkFlags_eq_ok_iff,
    checkKwargs_eq_ok_iff, checkSubcommands_eq_ok_iff]
  constructor
  · intro h
    obtain ⟨hname, ⟨-, hlast, harg⟩, ⟨hflag, -, hflags⟩, ⟨hkwarg, -, hkwargs, hfall⟩, -, hsubs⟩ := h
    exact ⟨by simpa using hname, hlast, harg, hflag, hflags, hkwarg, hkwargs, hfall, hsubs⟩
  · intro hw
    exact ⟨by simp [hw.name], ⟨by simp, hw.fallbacksLast, hw.argFallback⟩,
      ⟨hw.flagName, by simp, hw.flagsDistinct⟩,
      ⟨hw.kwargKey, by simp, hw.kwargsDistinct, hw.kwargFallback⟩, by simp,
      hw.subcommandsDistinct⟩

theorem Checked.wellFormed (h : cmd.Checked) : cmd.WellFormed := by
  obtain ⟨check, -⟩ := h
  exact check_eq_ok_iff.1 check

theorem Checked.of_mem (h : cmd.Checked) {sub : Command C} (hs : sub ∈ cmd.subcommands) :
    sub.Checked := by
  obtain ⟨-, below⟩ := h
  exact below sub hs

namespace WellFormed

variable {C : Type} {cmd : Command C}

theorem kwarg?_eq_some_iff (h : cmd.WellFormed) {key : Text} {spec : KwargSpec} :
    cmd.kwarg? key = some spec ↔ spec ∈ cmd.kwargs ∧ spec.key = key :=
  find?_eq_some_of_nodup h.kwargsDistinct

theorem kwarg_unique (h : cmd.WellFormed) {spec other : KwargSpec} (hs : spec ∈ cmd.kwargs)
    (ho : other ∈ cmd.kwargs) (hkey : spec.key = other.key) : spec = other :=
  List.inj_on_of_nodup_map h.kwargsDistinct hs ho hkey

theorem subcommand?_eq_some_iff (h : cmd.WellFormed) {name : Text} {sub : Command C} :
    cmd.subcommand? name = some sub ↔ sub ∈ cmd.subcommands ∧ sub.name = name :=
  find?_eq_some_of_nodup h.subcommandsDistinct

end WellFormed

theorem takeWhile_isNone_length {args : List ArgSpec}
    (h : args.Pairwise fun a b ↦ a.fallback.isSome → b.fallback.isSome) :
    (args.takeWhile (·.fallback.isNone)).length = args.countP (·.fallback.isNone) := by
  induction args with
  | nil => simp
  | cons arg args ih =>
    rw [List.pairwise_cons] at h
    rcases hf : arg.fallback with _ | v
    · simpa [hf] using ih h.2
    · have hnone : args.countP (·.fallback.isNone) = 0 :=
        List.countP_eq_zero.2 fun b hb ↦ by
          simpa [Option.isSome_iff_ne_none] using h.1 b hb (by simp [hf])
      simp [hf, hnone]

theorem isSome_of_mem_drop {args : List ArgSpec}
    (h : args.Pairwise fun a b ↦ a.fallback.isSome → b.fallback.isSome) {n : Nat}
    (hn : (args.takeWhile (·.fallback.isNone)).length ≤ n) :
    ∀ arg ∈ args.drop n, arg.fallback.isSome := by
  induction args generalizing n with
  | nil => simp
  | cons arg args ih =>
    rw [List.pairwise_cons] at h
    intro b hb
    rcases hf : arg.fallback with _ | v
    · rcases n with _ | n
      · simp [hf] at hn
      · exact ih h.2 (by simpa [hf] using hn) b hb
    · rcases List.mem_cons.1 (List.mem_of_mem_drop hb) with rfl | hb
      · simp [hf]
      · exact h.1 b hb (by simp [hf])

theorem WellFormed.requiredArgs_eq (h : cmd.WellFormed) :
    cmd.requiredArgs = cmd.args.countP (·.fallback.isNone) :=
  takeWhile_isNone_length h.fallbacksLast

end Command

end ChatCommand
