import ChatCommand.Proofs.Bind.Resolve
import ChatCommand.Proofs.Registry.Dispatch

namespace ChatCommand

variable {C : Type}

namespace Command

variable {cmd target : Command C} {tree : Tree} {names : List Text} {rest : List Node}

theorem asksHelp_iff : target.asksHelp rest ↔
    (∃ literal, .kwarg helpWord literal ∈ rest) ∨
      rest.head? = some (.value helpWord) ∧ target.args = [] := by
  have hany : rest.any isHelpKwarg ↔ ∃ literal, .kwarg helpWord literal ∈ rest := by
    rw [List.any_eq_true]
    constructor
    · rintro ⟨n, hn, hkey⟩
      cases n with
      | kwarg key literal =>
        obtain rfl : key = helpWord := of_decide_eq_true hkey
        exact ⟨literal, hn⟩
      | value | flag | tree => cases hkey
    · rintro ⟨literal, hn⟩
      exact ⟨_, hn, by simp [isHelpKwarg]⟩
  rw [asksHelp, Bool.or_eq_true, hany, Bool.and_eq_true, decide_eq_true_eq, List.isEmpty_iff]
  exact or_comm

theorem resolve_cases (hc : cmd.Checked) (hd : Descent cmd tree.children names target rest)
    (hs : target.Stops rest) :
    target.asksHelp rest ∧ cmd.resolve tree = .error (.help target.help) ∨
      target.asksHelp rest = false ∧
        ((∃ a, target.bind rest = .ok a ∧ cmd.resolve tree = .ok ⟨target, a⟩) ∨
          ∃ m, target.bind rest = .error m ∧ cmd.resolve tree = .error (.bind ⟨names, m⟩)) := by
  simp only [resolve, route_of_descent hc hd hs]
  cases hhelp : target.asksHelp rest with
  | true => exact .inl ⟨rfl, rfl⟩
  | false =>
    refine .inr ⟨rfl, ?_⟩
    cases hbind : target.bind rest with
    | ok a => exact .inl ⟨a, rfl, rfl⟩
    | error m => exact .inr ⟨m, rfl, rfl⟩

theorem resolve_eq_help_iff (hc : cmd.Checked) (hd : Descent cmd tree.children names target rest)
    (hs : target.Stops rest) {text : Text} :
    cmd.resolve tree = .error (.help text) ↔ target.asksHelp rest ∧ text = target.help := by
  rcases resolve_cases hc hd hs with ⟨hhelp, h⟩ | ⟨hhelp, ⟨a, -, h⟩ | ⟨m, -, h⟩⟩
  · simp [h, hhelp, eq_comm]
  · simp [h, hhelp]
  · simp [h, hhelp]

theorem frames_of_resolve (hc : cmd.Checked) (hd : Descent cmd tree.children names target rest)
    (hs : target.Stops rest) {e : BindError} (h : cmd.resolve tree = .error (.bind e)) :
    e.frames = names := by
  rcases resolve_cases hc hd hs with ⟨-, h'⟩ | ⟨-, ⟨a, -, h'⟩ | ⟨m, -, h'⟩⟩ <;>
    cases h'.symm.trans h
  rfl

theorem command_of_resolve (hc : cmd.Checked) (hd : Descent cmd tree.children names target rest)
    (hs : target.Stops rest) {b : Bound C} (h : cmd.resolve tree = .ok b) : b.command = target := by
  rcases resolve_cases hc hd hs with ⟨-, h'⟩ | ⟨-, ⟨a, -, h'⟩ | ⟨m, -, h'⟩⟩ <;>
    cases h'.symm.trans h
  rfl

end Command

theorem Interruption.nest_eq_help_iff {e : Interruption} {command text : Text} :
    e.nest command = .help text ↔ e = .help text := by
  cases e <;> simp [nest]

theorem Interruption.nest_eq_bind_iff {e : Interruption} {command : Text} {b : BindError} :
    e.nest command = .bind b ↔ ∃ inner, e = .bind inner ∧ b = inner.nest command := by
  cases e <;> simp [nest, eq_comm]

namespace Registry

variable {r : Registry C} {line : Text} {root target : Command C} {names : List Text}
  {rest : List Node}

/-- The line names a root command, from which its leading values lead down to the target. -/
inductive Leads (r : Registry C) (line : Text) :
    Command C → List Text → Command C → List Node → Prop
  | intro {tree : Tree} {root target : Command C} {names : List Text} {rest : List Node} :
      Grammar.parseLine line = .ok tree → r.get? tree.name = some root →
      Command.Descent root tree.children names target rest → target.Stops rest →
      Leads r line root names target rest

theorem lookup_of_get? {tree : Tree} (hparse : Grammar.parseLine line = .ok tree)
    (hroot : r.get? tree.name = some root) : r.lookup line = .ok (root, tree) := by
  simp only [lookup, hparse, hroot]

theorem resolve_of_get? {tree : Tree} (hparse : Grammar.parseLine line = .ok tree)
    (hroot : r.get? tree.name = some root) :
    r.resolve line = (root.resolve tree).mapError (·.nest root.name) := by
  simp only [resolve, lookup_of_get? hparse hroot]

theorem resolve_eq_help_of_get? {tree : Tree} (hparse : Grammar.parseLine line = .ok tree)
    (hroot : r.get? tree.name = some root) {text : Text} :
    r.resolve line = .error (.help text) ↔ root.resolve tree = .error (.help text) := by
  rw [resolve_of_get? hparse hroot, mapError_eq_error_iff]
  simp only [Interruption.nest_eq_help_iff, exists_eq_right]

theorem Leads.frames (h : r.Leads line root names target rest) (hc : root.Checked) {e : BindError}
    (he : r.resolve line = .error (.bind e)) : e.frames = root.name :: names := by
  obtain ⟨hparse, hroot, hd, hs⟩ := h
  rw [resolve_of_get? hparse hroot, mapError_eq_error_iff] at he
  obtain ⟨inner, hinner, hnest⟩ := he
  obtain ⟨e, rfl, rfl⟩ := Interruption.nest_eq_bind_iff.1 hnest
  exact congrArg (root.name :: ·) (Command.frames_of_resolve hc hd hs hinner)

theorem Leads.command (h : r.Leads line root names target rest) (hc : root.Checked) {b : Bound C}
    (hb : r.resolve line = .ok b) : b.command = target := by
  obtain ⟨hparse, hroot, hd, hs⟩ := h
  rw [resolve_of_get? hparse hroot, mapError_eq_ok_iff] at hb
  exact Command.command_of_resolve hc hd hs hb

/-- Help is the answer just when what is left for the deepest command asks for it, with the kwarg
`help` anywhere or with the word in front of a command without positionals. The text is the one of
that command, in no frame, and a registry gives the same text and leaves the context alone. -/
theorem help_wins {cmd : Command C} {tree : Tree} (hc : cmd.Checked)
    (hd : Command.Descent cmd tree.children names target rest) (hs : target.Stops rest) :
    (∀ text, cmd.resolve tree = .error (.help text) ↔
      ((∃ literal, .kwarg helpWord literal ∈ rest) ∨
        rest.head? = some (.value helpWord) ∧ target.args = []) ∧ text = target.help) ∧
    ∀ (r : Registry C) (line : Text), Grammar.parseLine line = .ok tree →
      r.get? tree.name = some cmd → ∀ text,
        (r.resolve line = .error (.help text) ↔ cmd.resolve tree = .error (.help text)) ∧
          (cmd.resolve tree = .error (.help text) →
            ∀ ctx, r.dispatch line ctx = (.error (.help text), ctx)) := by
  refine ⟨fun text ↦ ?_, fun r line hparse hroot text ↦ ?_⟩
  · rw [← Command.asksHelp_iff]
    exact Command.resolve_eq_help_iff hc hd hs
  · have hsame : r.resolve line = .error (.help text) ↔ cmd.resolve tree = .error (.help text) :=
      resolve_eq_help_of_get? hparse hroot
    exact ⟨hsame, fun htext ctx ↦ dispatch_of_error (hsame.2 htext) ctx⟩

theorem Leads.dispatch (h : r.Leads line root names target rest) {b : Bound C}
    (hb : r.resolve line = .ok b) (ctx : C) :
    r.dispatch line ctx = ((b.run ctx).1.mapError (·.nest root.name), (b.run ctx).2) := by
  obtain ⟨hparse, hroot, -, -⟩ := h
  obtain ⟨cmd, tree, hlookup, -, hdispatch⟩ := dispatch_of_ok hb ctx
  cases hlookup.symm.trans (lookup_of_get? hparse hroot)
  exact hdispatch

def drawer : Command Unit where
  name := "drawer".toList
  doc := []
  args := []
  flags := [⟨'l', []⟩]
  kwargs := []
  subcommands := []
  handler := none

def cabinet : Command Unit where
  name := "cabinet".toList
  doc := []
  args := []
  flags := []
  kwargs := []
  subcommands := [drawer]
  handler := none

def furniture : Registry Unit where
  commands := .ofList [(cabinet.name, cabinet)]
  named := (List.forall_mem_singleton (a := (cabinet.name, cabinet))).2 rfl

theorem get?_cabinet : furniture.get? cabinet.name = some cabinet := rfl

theorem cabinet_checked : cabinet.Checked :=
  Command.checkDeep_eq_ok_iff.1 (by decide +kernel)

theorem leads_drawer {line : Text} {rest : List Node}
    (hparse : Grammar.parseLine line = .ok ⟨some cabinet.name, .value drawer.name :: rest⟩) :
    furniture.Leads line cabinet [drawer.name] drawer rest :=
  .intro hparse get?_cabinet (.down (List.mem_singleton.2 rfl) (.here _ _)) fun _ h ↦ nomatch h

def asking : Text :=
  "cabinet drawer -z 'x' --help 'y' --w --w".toList

def asked : List Node :=
  [.flag 'z', .value ['x'], .kwarg helpWord (some ['y']), .kwarg ['w'] none, .kwarg ['w'] none]

theorem help_wins_drawer :
    Grammar.parseLine asking = .ok ⟨some cabinet.name, .value drawer.name :: asked⟩ ∧
      cabinet.Checked ∧
      Command.Descent cabinet (.value drawer.name :: asked) [drawer.name] drawer asked ∧
      drawer.Stops asked ∧
      cabinet.resolve ⟨some cabinet.name, .value drawer.name :: asked⟩ =
        .error (.help drawer.help) ∧
      furniture.resolve asking = .error (.help drawer.help) ∧
      furniture.dispatch asking () = (.error (.help drawer.help), ()) := by
  let tree : Tree := ⟨some cabinet.name, .value drawer.name :: asked⟩
  have hparse : Grammar.parseLine asking = .ok tree := by decide +kernel
  have hd : Command.Descent cabinet tree.children [drawer.name] drawer asked :=
    .down (List.mem_singleton.2 rfl) (.here _ _)
  have hs : drawer.Stops asked := fun _ h ↦ nomatch h
  obtain ⟨hcommand, hregistry⟩ := help_wins cabinet_checked hd hs
  have hkey : .kwarg helpWord (some ['y']) ∈ asked := by decide
  have hhelp := (hcommand drawer.help).2 ⟨.inl ⟨_, hkey⟩, rfl⟩
  obtain ⟨hresolve, hdispatch⟩ := hregistry furniture asking hparse get?_cabinet drawer.help
  exact ⟨hparse, cabinet_checked, hd, hs, hhelp, hresolve.2 hhelp, hdispatch hhelp ()⟩

/-- What goes wrong in binding is framed by the root and all the names down from it. A command that
has nothing to run is framed by the root alone, however deep it stands. -/
theorem run_failure_frames (h : r.Leads line root names target rest) (hc : root.Checked) :
    (∀ e, r.resolve line = .error (.bind e) → e.frames = root.name :: names) ∧
      ∀ b, r.resolve line = .ok b → b.command = target ∧
        (target.handler = none → ∀ ctx, ∃ e : BindError,
          r.dispatch line ctx = (.error (.bind e), ctx) ∧ e.frames = [root.name] ∧
            (target.subcommands ≠ [] → e.innermost = .subcommandRequired target.name) ∧
            (target.subcommands = [] → e.innermost = .noHandler target.name)) := by
  refine ⟨fun e ↦ h.frames hc, fun b hb ↦ ?_⟩
  obtain rfl := h.command hc hb
  refine ⟨rfl, fun hnone ctx ↦ ?_⟩
  obtain ⟨m, hrun, hsubs, hempty⟩ := Bound.run_of_none hnone ctx
  rw [h.dispatch hb ctx, hrun]
  exact ⟨⟨[root.name], m⟩, rfl, rfl, hsubs, hempty⟩

theorem run_failure_frames_drawer :
    furniture.Leads "cabinet drawer -l".toList cabinet [drawer.name] drawer [.flag 'l'] ∧
      cabinet.Checked ∧ drawer.handler = none ∧ ∃ e : BindError,
        furniture.dispatch "cabinet drawer -l".toList () = (.error (.bind e), ()) ∧
          e.frames = [cabinet.name] ∧ e.innermost = .noHandler drawer.name := by
  have hparse : Grammar.parseLine "cabinet drawer -l".toList =
      .ok ⟨some cabinet.name, [.value drawer.name, .flag 'l']⟩ := by decide +kernel
  have hleads := leads_drawer hparse
  have hbound : furniture.resolve "cabinet drawer -l".toList =
      .ok ⟨drawer, { Arguments.empty with flags := .ofList [('l', ())] }⟩ := by
    rw [resolve_of_get? hparse get?_cabinet]
    rfl
  obtain ⟨-, hrun⟩ := (run_failure_frames hleads cabinet_checked).2 _ hbound
  obtain ⟨e, hdispatch, hframes, -, hempty⟩ := hrun rfl ()
  exact ⟨hleads, cabinet_checked, rfl, e, hdispatch, hframes, hempty rfl⟩

/-- The frame of the drawer, which a misfit of its arguments has, is missing. -/
theorem run_failure_without_path :
    cabinet.Checked ∧
      furniture.Leads "cabinet drawer".toList cabinet [drawer.name] drawer [] ∧
      furniture.resolve "cabinet drawer".toList = .ok ⟨drawer, .empty⟩ ∧ drawer.handler = none ∧
      ∃ e : BindError, furniture.dispatch "cabinet drawer".toList () = (.error (.bind e), ()) ∧
        e.frames ≠ [cabinet.name, drawer.name] := by
  have hparse : Grammar.parseLine "cabinet drawer".toList =
      .ok ⟨some cabinet.name, [.value drawer.name]⟩ := by decide +kernel
  have hbound : furniture.resolve "cabinet drawer".toList = .ok ⟨drawer, .empty⟩ := by
    rw [resolve_of_get? hparse get?_cabinet]
    rfl
  have hleads := leads_drawer hparse
  have hdispatch : furniture.dispatch "cabinet drawer".toList () =
      (.error (.bind ⟨[cabinet.name], .noHandler drawer.name⟩), ()) := by
    rw [hleads.dispatch hbound]
    rfl
  exact ⟨cabinet_checked, hleads, hbound, rfl, _, hdispatch, by decide⟩

end Registry

end ChatCommand
