import ChatCommand.Proofs.Bind.Outcome

namespace ChatCommand.Command

variable {C : Type} {cmd target : Command C} {tree : Tree} {names : List Text} {rest : List Node}

/-- What is resolved is the command that the leading names lead to, with arguments that say what
the other nodes say. -/
theorem resolve_sound {b : Bound C} (hc : cmd.Checked) (h : cmd.resolve tree = .ok b) :
    ∃ names rest, Descent cmd tree.children names b.command rest ∧ b.command.Stops rest ∧
      b.command.Binds rest b.arguments := by
  obtain ⟨hdescent, hstops⟩ := descent_route cmd tree.children
  have hw := (hdescent.checked hc).wellFormed
  simp only [resolve, guard_eq_ok] at h
  obtain ⟨-, h⟩ := h
  rcases hbind : (cmd.route tree.children).command.bind (cmd.route tree.children).nodes with m | a
  · simp [hbind] at h
  · rw [hbind] at h
    cases h
    exact ⟨_, _, hdescent, hstops, bind_binds hw hbind⟩

def send : Command Unit where
  name := ['s', 'e', 'n', 'd']
  doc := []
  args := [⟨['n'], .integer, [], none⟩, ⟨['u'], .string, [], some (.str ['k', 'r'])⟩]
  flags := [⟨'q', []⟩]
  kwargs := [⟨['t', 'o'], .string, [], .required, false⟩,
    ⟨['f', 'e', 'e'], .integer, [], .fallback (.int 2), false⟩,
    ⟨['l', 'o', 'g'], .string, [], .optional, true⟩]
  subcommands := []
  handler := none

def bank : Command Unit where
  name := ['b', 'a', 'n', 'k']
  doc := []
  args := []
  flags := []
  kwargs := []
  subcommands := [send]
  handler := none

def transfer : List Node :=
  [.value ['s', 'e', 'n', 'd'], .flag 'q', .value ['7'], .kwarg ['l', 'o', 'g'] none, .flag 'q',
    .kwarg ['t', 'o'] (some ['å'])]

def transferred : Arguments where
  values := [.int 7, .str ['k', 'r']]
  flags := .ofList [('q', ())]
  kwargs := .ofList [(['t', 'o'], some (.str ['å'])), (['l', 'o', 'g'], none),
    (['f', 'e', 'e'], some (.int 2))]

theorem bank_checked : bank.Checked :=
  checkDeep_eq_ok_iff.1 (by decide +kernel)

theorem resolve_sound_send :
    bank.Checked ∧ bank.resolve ⟨none, transfer⟩ = .ok ⟨send, transferred⟩ ∧
      ∃ names rest, Descent bank transfer names send rest ∧ send.Stops rest ∧
        send.Binds rest transferred := by
  have h : bank.resolve ⟨none, transfer⟩ = .ok ⟨send, transferred⟩ := rfl
  exact ⟨bank_checked, h, resolve_sound bank_checked h⟩

/-- Nodes that ask for no help are refused for their first fault and for nothing else. -/
theorem resolve_first_fault (hc : cmd.Checked) (hd : Descent cmd tree.children names target rest)
    (hs : target.Stops rest) (hhelp : target.asksHelp rest = false) :
    (∀ e, cmd.resolve tree = .error (.bind e) ↔
        e.frames = names ∧ target.Fault rest e.innermost) ∧
      ((∀ m, ¬target.Fault rest m) → ∃ a, cmd.resolve tree = .ok ⟨target, a⟩) := by
  have hw := (hd.checked hc).wellFormed
  simp only [resolve, route_of_descent hc hd hs, hhelp, Bool.false_eq_true, if_false]
  rcases hbind : target.bind rest with m | a
  · have hfault := (bind_eq_error_iff hw).1 hbind
    refine ⟨fun ⟨frames, innermost⟩ ↦ ?_, fun hno ↦ absurd hfault (hno m)⟩
    simp only [Except.error.injEq, Interruption.bind.injEq, BindError.mk.injEq]
    refine ⟨?_, ?_⟩
    · intro h
      obtain ⟨rfl, rfl⟩ := h
      exact ⟨rfl, hfault⟩
    · intro h
      obtain ⟨rfl, h⟩ := h
      cases hbind.symm.trans ((bind_eq_error_iff hw).2 h)
      exact ⟨rfl, rfl⟩
  · refine ⟨fun e ↦ ?_, fun _ ↦ ⟨a, rfl⟩⟩
    simp only [reduceCtorEq, false_iff]
    intro h
    obtain ⟨-, h⟩ := h
    cases hbind.symm.trans ((bind_eq_error_iff hw).2 h)

def mistaken : List Node :=
  [.flag 'q', .flag 'z', .value ['x']]

theorem resolve_first_fault_send :
    bank.Checked ∧ Descent bank (.value send.name :: mistaken) [send.name] send mistaken ∧
      send.Stops mistaken ∧ send.asksHelp mistaken = false ∧
      bank.resolve ⟨none, .value send.name :: mistaken⟩ =
        .error (.bind ⟨[send.name], .invalidFlag 'z' send.name⟩) := by
  let tree : Tree := ⟨none, .value send.name :: mistaken⟩
  have hd : Descent bank tree.children [send.name] send mistaken :=
    .down (by simp [bank]) (.here _ _)
  have hs : send.Stops mistaken := fun sub _ ↦ by simp [mistaken]
  have hclean : send.Clean [.flag 'q'] :=
    (exists_bindNodes_iff (hd.checked bank_checked).wellFormed).1 ⟨_, rfl⟩
  have hz : send.NodeFault [.flag 'q'] (.flag 'z') (.invalidFlag 'z' send.name) :=
    .flag (by simp [send])
  have hfault : send.Fault mistaken (.invalidFlag 'z' send.name) := .node rfl hclean hz
  exact ⟨bank_checked, hd, hs, rfl,
    ((resolve_first_fault bank_checked hd hs rfl).1 _).2 ⟨rfl, hfault⟩⟩

end ChatCommand.Command
