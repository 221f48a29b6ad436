import ChatCommand.Proofs.Registry.Leads

namespace ChatCommand

variable {C : Type}

/-- The command that a misfit names as the one that it is a misfit for. -/
def Misfit.command? : Misfit → Option Text
  | .invalidFlag _ command | .invalidKwarg _ command | .unexpectedNode _ command
  | .subcommandRequired command | .noHandler command => some command
  | _ => none

namespace Command

variable {cmd target : Command C} {before nodes rest : List Node} {n : Node} {names : List Text}
  {m : Misfit} {command : Text}

theorem NodeFault.command_eq (h : cmd.NodeFault before n m) (hm : m.command? = some command) :
    command = cmd.name := by
  cases h with
  | flag | undeclared | tree =>
    cases hm
    rfl
  | value | repeated | literal | valueless => cases hm

theorem Fault.command_eq (h : cmd.Fault nodes m) (hm : m.command? = some command) :
    command = cmd.name := by
  cases h with
  | node _ _ hn => exact hn.command_eq hm
  | whole _ hmismatch => cases hmismatch <;> cases hm

theorem Descent.getLast? (h : Descent cmd nodes names target rest) :
    (cmd.name :: names).getLast? = some target.name := by
  induction h with
  | here => rfl
  | down _ _ ih => rw [List.getLast?_cons_cons, ih]

end Command

namespace Registry

variable {r : Registry C} {line : Text} {root target : Command C} {names : List Text}
  {rest : List Node}

/-- All commands of the registry keep the rules of declarations. -/
def Checked (r : Registry C) : Prop :=
  ∀ name cmd, r.get? name = some cmd → cmd.Checked

theorem name_of_get? {name : Text} {cmd : Command C} (h : r.get? name = some cmd) :
    cmd.name = name :=
  r.named _ (SortedMap.get?_eq_some_iff.1 h)

theorem frames_of_lookup {e : BindError} (h : r.lookup line = .error (.bind e)) :
    e.frames = [] := by
  simp only [lookup] at h
  split at h
  · cases h
  split at h
  · cases h
  split at h
  · split at h <;> cases h
    rfl
  · cases h
    rfl

theorem get?_of_lookup {tree : Tree} (hparse : Grammar.parseLine line = .ok tree)
    {found : Command C × Tree} (h : r.lookup line = .ok found) :
    r.get? tree.name = some found.1 := by
  simp only [lookup, hparse] at h
  split at h
  · rename_i hroot
    cases h
    exact hroot
  split at h
  · split at h <;> cases h
  · cases h

theorem exists_parseLine {e : BindError} (h : r.resolve line = .error (.bind e)) :
    ∃ tree, Grammar.parseLine line = .ok tree := by
  rcases hparse : Grammar.parseLine line with e' | tree
  · simp [resolve, lookup, hparse] at h
  · exact ⟨tree, rfl⟩

theorem frames_of_get?_eq_none {tree : Tree} (hparse : Grammar.parseLine line = .ok tree)
    (hroot : r.get? tree.name = none) {e : BindError} (h : r.resolve line = .error (.bind e)) :
    e.frames = [] := by
  rcases hlookup : r.lookup line with e' | found
  · simp only [resolve, hlookup] at h
    cases h
    exact frames_of_lookup hlookup
  · cases hroot.symm.trans (get?_of_lookup hparse hlookup)

theorem Leads.innermost (h : r.Leads line root names target rest) (hc : root.Checked)
    {e : BindError} (he : r.resolve line = .error (.bind e)) : target.Fault rest e.innermost := by
  obtain ⟨hparse, hroot, hd, hs⟩ := h
  rw [resolve_of_get? hparse hroot, mapError_eq_error_iff] at he
  obtain ⟨inner, hinner, hnest⟩ := he
  obtain ⟨e, rfl, rfl⟩ := Interruption.nest_eq_bind_iff.1 hnest
  rcases Command.resolve_cases hc hd hs with ⟨-, h⟩ | ⟨-, ⟨a, -, h⟩ | ⟨m, hm, h⟩⟩
  · cases h.symm.trans hinner
  · cases h.symm.trans hinner
  · cases h.symm.trans hinner
    exact (Command.bind_eq_error_iff (hd.checked hc).wellFormed).1 hm

/-- A misfit is framed by the root command and by each subcommand that the leading values of the
line go on to name, and by nothing if there is no such root. A command that the misfit itself names
is the one of the last frame. -/
theorem bind_error_chain (hr : r.Checked) {e : BindError}
    (h : r.resolve line = .error (.bind e)) :
    ∃ tree, Grammar.parseLine line = .ok tree ∧
      (r.get? tree.name = none → e.frames = []) ∧
      ∀ root, r.get? tree.name = some root →
        ∃ names target rest, Command.Descent root tree.children names target rest ∧
          target.Stops rest ∧ e.frames = tree.name :: names ∧
          e.frames.getLast? = some target.name ∧
          ∀ command, e.innermost.command? = some command → command = target.name := by
  obtain ⟨tree, hparse⟩ := exists_parseLine h
  refine ⟨tree, hparse, fun hroot ↦ frames_of_get?_eq_none hparse hroot h, fun root hroot ↦ ?_⟩
  have hc := hr _ root hroot
  obtain ⟨hd, hs⟩ := Command.descent_route root tree.children
  have hleads : r.Leads line root _ _ _ := .intro hparse hroot hd hs
  have hframes := hleads.frames hc h
  refine ⟨_, _, _, hd, hs, ?_, ?_, fun command hcommand ↦ ?_⟩
  · rw [hframes, name_of_get? hroot]
  · rw [hframes, hd.getLast?]
  · exact (hleads.innermost hc h).command_eq hcommand

theorem furniture_checked : furniture.Checked := by
  intro name cmd h
  have hentry := SortedMap.get?_eq_some_iff.1 h
  obtain ⟨-, rfl⟩ := Prod.mk.inj (List.mem_singleton.1 hentry)
  exact cabinet_checked

theorem bind_error_chain_drawer :
    furniture.Checked ∧ furniture.resolve "cabinet drawer -z".toList =
        .error (.bind ⟨[cabinet.name, drawer.name], .invalidFlag 'z' drawer.name⟩) ∧
      ∃ names target rest,
        Command.Descent cabinet [.value drawer.name, .flag 'z'] names target rest ∧
          [cabinet.name, drawer.name] = cabinet.name :: names ∧ drawer.name = target.name := by
  have hparse : Grammar.parseLine "cabinet drawer -z".toList =
      .ok ⟨some cabinet.name, [.value drawer.name, .flag 'z']⟩ := by decide +kernel
  have hres : furniture.resolve "cabinet drawer -z".toList =
      .error (.bind ⟨[cabinet.name, drawer.name], .invalidFlag 'z' drawer.name⟩) := by
    rw [resolve_of_get? hparse get?_cabinet]
    rfl
  obtain ⟨tree, htree, -, hchain⟩ := bind_error_chain furniture_checked hres
  cases hparse.symm.trans htree
  obtain ⟨names, target, rest, hd, -, hframes, -, hcommand⟩ := hchain cabinet get?_cabinet
  exact ⟨furniture_checked, hres, names, target, rest, hd, hframes, hcommand _ rfl⟩

end Registry

end ChatCommand
