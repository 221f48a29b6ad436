import ChatCommand.Command

namespace ChatCommand

inductive DeclarationError where
  | invalidName (name : Text)
  | requiredAfterOptional (command arg : Text)
  | fallbackMismatch (command name : Text) (ty : Ty) (value : Value)
  | invalidFlag (command : Text) (flag : Char)
  | duplicateFlag (command : Text) (flag : Char)
  | invalidKey (command key : Text)
  | duplicateKwarg (command key : Text)
  | reservedKwarg (command : Text)
  | duplicateCommand (name : Text)
  deriving DecidableEq

def DeclarationError.message : DeclarationError → Text
  | .invalidName name => "invalid command name: `".toList ++ name ++ ['`']
  | .requiredAfterOptional command arg =>
    "required argument `".toList ++ arg ++ "` of `".toList ++ command ++
      "` follows an optional one".toList
  | .fallbackMismatch command name ty value =>
    "default of `".toList ++ name ++ "` in `".toList ++ command ++ "` must be of type ".toList ++
      ty.text ++ ", got `".toList ++ value.text ++ ['`']
  | .invalidFlag command flag =>
    "flag name must be one alphanumeric character, got `".toList ++ flag :: "` in `".toList ++
      command ++ ['`']
  | .duplicateFlag command flag =>
    "flag `-".toList ++ flag :: "` of `".toList ++ command ++ "` declared more than once".toList
  | .invalidKey command key =>
    "invalid kwarg key `".toList ++ key ++ "` in `".toList ++ command ++ ['`']
  | .duplicateKwarg command key =>
    "kwarg `--".toList ++ key ++ "` of `".toList ++ command ++ "` declared more than once".toList
  | .reservedKwarg _ => "`--help` kwarg is generated automatically".toList
  | .duplicateCommand name => "command `".toList ++ name ++ "` declared more than once".toList

def helpWord : Text :=
  ['h', 'e', 'l', 'p']

namespace Command

variable {C : Type}

def checkFallback (command name : Text) (ty : Ty) (value : Value) :
    Except DeclarationError Unit :=
  if value.ty = ty then .ok () else .error (.fallbackMismatch command name ty value)

def checkArgs (command : Text) : (seenOptional : Bool) → List ArgSpec →
    Except DeclarationError Unit
  | _, [] => .ok ()
  | seenOptional, arg :: args =>
    match arg.fallback with
    | some value => do
      checkFallback command arg.name arg.ty value
      checkArgs command true args
    | none =>
      if seenOptional then .error (.requiredAfterOptional command arg.name)
      else checkArgs command seenOptional args

def checkFlags (command : Text) : (seen : List Char) → List FlagSpec →
    Except DeclarationError Unit
  | _, [] => .ok ()
  | seen, flag :: flags =>
    if !isAlphanumeric flag.name then .error (.invalidFlag command flag.name)
    else if flag.name ∈ seen then .error (.duplicateFlag command flag.name)
    else checkFlags command (flag.name :: seen) flags

def checkKwargs (command : Text) : (seen : List Text) → List KwargSpec →
    Except DeclarationError Unit
  | _, [] => .ok ()
  | seen, kwarg :: kwargs =>
    if kwarg.key = helpWord then .error (.reservedKwarg command)
    else if !Token.isSymbol kwarg.key then .error (.invalidKey command kwarg.key)
    else if kwarg.key ∈ seen then .error (.duplicateKwarg command kwarg.key)
    else
      match kwarg.arity with
      | .fallback value => do
        checkFallback command kwarg.key kwarg.ty value
        checkKwargs command (kwarg.key :: seen) kwargs
      | _ => checkKwargs command (kwarg.key :: seen) kwargs

def checkSubcommands : (seen : List Text) → List (Command C) → Except DeclarationError Unit
  | _, [] => .ok ()
  | seen, sub :: subs =>
    if sub.name ∈ seen then .error (.duplicateCommand sub.name)
    else checkSubcommands (sub.name :: seen) subs

/-- The rules of a declaration, its subcommands taken as they are. -/
def check (cmd : Command C) : Except DeclarationError Unit :=
  if !Token.isName cmd.name then .error (.invalidName cmd.name)
  else do
    checkArgs cmd.name false cmd.args
    checkFlags cmd.name [] cmd.flags
    checkKwargs cmd.name [] cmd.kwargs
    checkSubcommands [] cmd.subcommands

mutual

/-- The rules of a declaration and of all below it. Subcommands come before what holds them. -/
def checkDeep : Command C → Except DeclarationError Unit
  | ⟨name, doc, args, flags, kwargs, subcommands, handler⟩ => do
    checkAll subcommands
    check ⟨name, doc, args, flags, kwargs, subcommands, handler⟩

def checkAll : List (Command C) → Except DeclarationError Unit
  | [] => .ok ()
  | cmd :: cmds => do
    checkDeep cmd
    checkAll cmds

end

/-- A declaration that keeps the rules, as do all below it. -/
inductive Checked : Command C → Prop
  | intro {cmd : Command C} (check : cmd.check = .ok ())
    (below : ∀ sub ∈ cmd.subcommands, Checked sub) : Checked cmd

mutual

theorem checked_of_checkDeep : (cmd : Command C) → cmd.checkDeep = .ok () → cmd.Checked
  | ⟨name, doc, args, flags, kwargs, subcommands, handler⟩, h => by
    rw [checkDeep] at h
    rcases hs : checkAll subcommands with e | u
    · rw [hs] at h
      cases h
    · rw [hs] at h
      exact .intro h (checked_of_checkAll subcommands hs)

theorem checked_of_checkAll : (cmds : List (Command C)) → checkAll cmds = .ok () →
    ∀ cmd ∈ cmds, cmd.Checked
  | [], _ => by simp
  | cmd :: cmds, h => by
    rw [checkAll] at h
    rcases hc : checkDeep cmd with e | u
    · rw [hc] at h
      cases h
    · rw [hc] at h
      have first := checked_of_checkDeep cmd hc
      have others := checked_of_checkAll cmds h
      simp only [List.mem_cons]
      rintro x (rfl | hx)
      · exact first
      · exact others x hx

end

theorem checkAll_eq_ok {cmds : List (Command C)} (h : ∀ cmd ∈ cmds, cmd.checkDeep = .ok ()) :
    checkAll cmds = .ok () := by
  induction cmds with
  | nil => rfl
  | cons cmd cmds ih =>
    rw [checkAll, h cmd (by simp)]
    exact ih fun c hc ↦ h c (by simp [hc])

theorem checkDeep_eq_ok_iff {cmd : Command C} : cmd.checkDeep = .ok () ↔ cmd.Checked := by
  refine ⟨checked_of_checkDeep cmd, fun h ↦ ?_⟩
  induction h with
  | @intro cmd check _ ih =>
    obtain ⟨name, doc, args, flags, kwargs, subcommands, handler⟩ := cmd
    rw [checkDeep, checkAll_eq_ok ih]
    exact check

end Command

end ChatCommand
