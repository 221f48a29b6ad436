import ChatCommand.Registry
import Mathlib.Data.List.Basic

namespace ChatCommand

variable {C : Type}

namespace Bound

variable {b : Bound C}

theorem run_of_handler {handler : Handler C} (h : b.command.handler = some handler) (ctx : C) :
    b.run ctx =
      ((handler b.arguments ctx).1.mapError .run, (handler b.arguments ctx).2) := by
  rw [run, h]

theorem run_of_none (h : b.command.handler = none) (ctx : C) :
    ∃ m : Misfit, b.run ctx = (.error (.bind m), ctx) ∧
      (b.command.subcommands ≠ [] → m = .subcommandRequired b.command.name) ∧
      (b.command.subcommands = [] → m = .noHandler b.command.name) := by
  rw [run, h]
  rcases hsubs : b.command.subcommands with _ | ⟨sub, subs⟩
  · exact ⟨.noHandler b.command.name, rfl, by simp, by simp⟩
  · exact ⟨.subcommandRequired b.command.name, rfl, by simp, by simp⟩

end Bound

theorem Interruption.mapError_nest_run (command : Text) (reply : Except Text Text) :
    (reply.mapError .run).mapError (nest command) = reply.mapError .run := by
  cases reply <;> rfl

namespace Registry

variable {r : Registry C} {line : Text}

theorem dispatch_of_error {e : Interruption} (h : r.resolve line = .error e) (ctx : C) :
    r.dispatch line ctx = (.error e, ctx) := by
  rcases hlookup : r.lookup line with e' | ⟨cmd, tree⟩
  · simp only [resolve, dispatch, hlookup] at h ⊢
    cases h
    rfl
  · rcases hbound : cmd.resolve tree with e' | b
    · simp only [resolve, dispatch, Command.invoke, hlookup, hbound, Except.mapError] at h ⊢
      cases h
      rfl
    · simp [resolve, hlookup, hbound, Except.mapError] at h

theorem dispatch_of_ok {b : Bound C} (h : r.resolve line = .ok b) (ctx : C) :
    ∃ cmd tree, r.lookup line = .ok (cmd, tree) ∧ cmd.resolve tree = .ok b ∧
      r.dispatch line ctx = ((b.run ctx).1.mapError (·.nest cmd.name), (b.run ctx).2) := by
  rcases hlookup : r.lookup line with e | ⟨cmd, tree⟩
  · simp [resolve, hlookup] at h
  · rcases hbound : cmd.resolve tree with e | b'
    · simp [resolve, hlookup, hbound, Except.mapError] at h
    · simp only [resolve, hlookup, hbound, Except.mapError, Except.ok.injEq] at h
      subst h
      exact ⟨cmd, tree, rfl, hbound, by simp only [dispatch, Command.invoke, hlookup, hbound]⟩

/-- A line that is not resolved is answered with the reason, and nothing is run. A line that is
resolved is answered by one run of the handler. Without a handler the context stays as it is. -/
theorem dispatch_resolved (r : Registry C) (line : Text) (ctx : C) :
    (∀ e, r.resolve line = .error e → r.dispatch line ctx = (.error e, ctx)) ∧
      ∀ b, r.resolve line = .ok b →
        (∀ handler, b.command.handler = some handler →
          r.dispatch line ctx =
            ((handler b.arguments ctx).1.mapError .run, (handler b.arguments ctx).2)) ∧
        (b.command.handler = none →
          ∃ e : BindError, r.dispatch line ctx = (.error (.bind e), ctx) ∧
            (b.command.subcommands ≠ [] → e.innermost = .subcommandRequired b.command.name) ∧
            (b.command.subcommands = [] → e.innermost = .noHandler b.command.name)) := by
  refine ⟨fun e he ↦ dispatch_of_error he ctx, fun b hb ↦ ?_⟩
  obtain ⟨cmd, tree, -, -, hdispatch⟩ := dispatch_of_ok hb ctx
  rw [hdispatch]
  refine ⟨fun handler hhandler ↦ ?_, fun hnone ↦ ?_⟩
  · rw [Bound.run_of_handler hhandler, Interruption.mapError_nest_run]
  · obtain ⟨m, hrun, hsome, hempty⟩ := Bound.run_of_none hnone ctx
    rw [hrun]
    exact ⟨⟨[cmd.name], m⟩, rfl, hsome, hempty⟩

def note : Command (List Text) where
  name := "note".toList
  doc := []
  args := [⟨['t'], .string, [], none⟩]
  flags := []
  kwargs := []
  subcommands := []
  handler := some fun a log ↦ (.error "full".toList, log ++ (a.str? 0).toList)

def desk : Command (List Text) where
  name := "desk".toList
  doc := []
  args := []
  flags := []
  kwargs := []
  subcommands := [note]
  handler := none

def office : Registry (List Text) where
  commands := .ofList [(desk.name, desk)]
  named := (List.forall_mem_singleton (a := (desk.name, desk))).2 rfl

theorem resolve_office {line : Text} {children : List Node}
    (h : Grammar.parseLine line = .ok ⟨some desk.name, children⟩) :
    office.resolve line =
      (desk.resolve ⟨some desk.name, children⟩).mapError (·.nest desk.name) := by
  simp only [resolve, lookup, h]
  rfl

theorem dispatch_resolved_office :
    office.dispatch "desk note".toList [['a']] =
        (.error (.bind ⟨[desk.name, note.name], .tooFewArguments 1 0⟩), [['a']]) ∧
      office.dispatch "desk note b".toList [['a']] =
        (.error (.run "full".toList), [['a'], ['b']]) ∧
      ∃ e : BindError, office.dispatch "desk".toList [['a']] = (.error (.bind e), [['a']]) ∧
        e.innermost = .subcommandRequired desk.name := by
  have hdesk : Grammar.parseLine "desk".toList = .ok ⟨some desk.name, []⟩ := by decide +kernel
  have hnote : Grammar.parseLine "desk note".toList = .ok ⟨some desk.name, [.value note.name]⟩ := by
    decide +kernel
  have hb : Grammar.parseLine "desk note b".toList =
      .ok ⟨some desk.name, [.value note.name, .value ['b']]⟩ := by decide +kernel
  have hfew := (dispatch_resolved office "desk note".toList [['a']]).1 _ (resolve_office hnote)
  have hbound : office.resolve "desk note b".toList = .ok ⟨note, [.str ['b']], .empty, .empty⟩ :=
    resolve_office hb
  have hrun := ((dispatch_resolved office _ [['a']]).2 _ hbound).1 _ rfl
  have hidle : office.resolve "desk".toList = .ok ⟨desk, .empty⟩ := resolve_office hdesk
  obtain ⟨e, hnone, hsubs, -⟩ := ((dispatch_resolved office _ [['a']]).2 _ hidle).2 rfl
  exact ⟨hfew, hrun, e, hnone, hsubs (List.cons_ne_nil _ _)⟩

end Registry

end ChatCommand
