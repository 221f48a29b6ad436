import ChatCommand.Bind
import ChatCommand.Proofs.Command.WellFormed

namespace ChatCommand.Command

variable {C : Type} {cmd target sub : Command C} {nodes rest : List Node} {names : List Text}

/-- Values at the front that name a subcommand, then one of that subcommand, and so on. -/
inductive Descent : Command C → List Node → List Text → Command C → List Node → Prop
  | here (cmd : Command C) (nodes : List Node) : Descent cmd nodes [] cmd nodes
  | down {cmd sub target : Command C} {nodes rest : List Node} {names : List Text} :
      sub ∈ cmd.subcommands → Descent sub nodes names target rest →
        Descent cmd (.value sub.name :: nodes) (sub.name :: names) target rest

def Stops (cmd : Command C) (nodes : List Node) : Prop :=
  ∀ sub ∈ cmd.subcommands, nodes.head? ≠ some (.value sub.name)

theorem Descent.checked (h : Descent cmd nodes names target rest) (hc : cmd.Checked) :
    target.Checked := by
  induction h with
  | here => exact hc
  | down hs _ ih => exact ih (hc.of_mem hs)

theorem Descent.append (h : Descent cmd nodes names target rest) (more : List Node) :
    Descent cmd (nodes ++ more) names target (rest ++ more) := by
  induction h with
  | here => exact .here _ _
  | down hsub _ ih => exact .down hsub ih

theorem Descent.isName (h : Descent cmd nodes names target rest) (hc : cmd.Checked) :
    ∀ name ∈ names, Token.isName name := by
  induction h with
  | here => exact List.forall_mem_nil _
  | @down cmd sub target nodes rest names hsub _ ih =>
    have hs := hc.of_mem hsub
    exact List.forall_mem_cons.2 ⟨hs.wellFormed.name, ih hs⟩

theorem subcommand?_eq_none_of_stops {head : Text} (h : cmd.Stops (.value head :: nodes)) :
    cmd.subcommand? head = none := by
  rw [subcommand?, List.find?_eq_none]
  intro sub hs hname
  exact h sub hs (by simpa using (of_decide_eq_true hname).symm)

theorem route_of_stops (h : cmd.Stops nodes) : cmd.route nodes = ⟨[], cmd, nodes⟩ := by
  rcases nodes with _ | ⟨_ | _ | _ | _, nodes⟩
  case cons.value head =>
    rw [route, subcommand?_eq_none_of_stops h]
  all_goals rfl

theorem route_of_descent (hc : cmd.Checked) (hd : Descent cmd nodes names target rest)
    (hs : target.Stops rest) : cmd.route nodes = ⟨names, target, rest⟩ := by
  induction hd with
  | here => exact route_of_stops hs
  | @down cmd sub target nodes rest names hsub _ ih =>
    have hfind : cmd.subcommand? sub.name = some sub :=
      hc.wellFormed.subcommand?_eq_some_iff.2 ⟨hsub, rfl⟩
    simp only [route, hfind, ih (hc.of_mem hsub) hs]

theorem descent_route (cmd : Command C) (nodes : List Node) :
    Descent cmd nodes (cmd.route nodes).names (cmd.route nodes).command (cmd.route nodes).nodes ∧
      (cmd.route nodes).command.Stops (cmd.route nodes).nodes := by
  induction nodes generalizing cmd with
  | nil => exact ⟨.here cmd [], fun sub _ ↦ by simp [route]⟩
  | cons n nodes ih =>
    cases n with
    | value head =>
      rcases hfind : cmd.subcommand? head with _ | sub
      · simp only [route, hfind]
        refine ⟨.here cmd _, fun sub hs hhead ↦ ?_⟩
        simp only [subcommand?, List.find?_eq_none] at hfind
        exact hfind sub hs (by simpa [eq_comm] using hhead)
      · obtain ⟨hd, hs⟩ := ih sub
        have hmem : sub ∈ cmd.subcommands := List.mem_of_find?_eq_some hfind
        have hname : sub.name = head := by simpa using List.find?_some hfind
        simp only [route, hfind]
        exact ⟨hname ▸ .down hmem hd, hs⟩
    | flag | kwarg | tree => exact ⟨.here cmd _, fun sub _ ↦ by simp [route]⟩

/-- Every line of nodes leads down to one command, by one way, and leaves the same nodes for it. -/
theorem route_eq_iff (hc : cmd.Checked) :
    cmd.route nodes = ⟨names, target, rest⟩ ↔
      Descent cmd nodes names target rest ∧ target.Stops rest := by
  refine ⟨fun h ↦ ?_, fun h ↦ route_of_descent hc h.1 h.2⟩
  have := descent_route cmd nodes
  rwa [h] at this

end ChatCommand.Command
