import ChatCommand.Bot.Channel
import ChatCommand.Proofs.Registry.Leads

namespace ChatCommand

open Text

namespace Command

variable {C : Type} {cmd : Command C}

theorem stops_of_childless (h : cmd.subcommands = []) (nodes : List Node) : cmd.Stops nodes := by
  simp [Stops, h]

theorem route_command_mem (h : ∀ sub ∈ cmd.subcommands, sub.subcommands = [])
    (nodes : List Node) : (cmd.route nodes).command ∈ cmd :: cmd.subcommands := by
  unfold route
  split
  · rename_i head nodes
    rcases hsub : cmd.subcommand? head with _ | sub
    · exact List.mem_cons_self ..
    · have hmem : sub ∈ cmd.subcommands := List.mem_of_find?_eq_some hsub
      simp only [route_of_stops (stops_of_childless (h sub hmem) nodes)]
      exact List.mem_cons_of_mem _ hmem
  · exact List.mem_cons_self ..

theorem command_eq_route {tree : Tree} {b : Bound C} (h : cmd.resolve tree = .ok b) :
    b.command = (cmd.route tree.children).command := by
  simp only [resolve] at h
  split at h
  · cases h
  · split at h
    · cases h
      rfl
    · cases h

end Command

namespace Bot

/-- What a line can tell the bot to do. -/
inductive Order where
  | add (speaker text : Text) (audience : Option Text)
  | remove (id : Int64)
  | list (showIds : Bool)
  | random
  deriving DecidableEq

namespace Order

def ofBound (b : Bound Bot) : Option Order :=
  if b.command.name = addCommand.name then
    some (.add ((b.arguments.str? 0).getD []) ((b.arguments.str? 1).getD [])
      ((b.arguments.kwarg? "audience".toList).bind Value.str?))
  else if b.command.name = removeCommand.name then
    some (.remove ((b.arguments.int? 0).getD 0))
  else if b.command.name = listCommand.name then some (.list (b.arguments.hasFlag 'v'))
  else if b.command.name = randomCommand.name then some .random
  else none

def ofLine (line : Text) : Option Order :=
  (registry.resolve line).toOption.bind ofBound

end Order

def obey (bot : Bot) : Order → Except BotError Text × Bot
  | .add speaker text audience => bot.add speaker text audience
  | .remove id => bot.remove id
  | .list showIds => (.ok (bot.list showIds), bot)
  | .random => (.ok bot.random.1, bot.random.2)

variable {line : Text} {order : Order}

theorem get?_registry {name : Text} {cmd : Command Bot} (h : registry.get? name = some cmd) :
    cmd = quoteCommand := by
  obtain he := SortedMap.get?_eq_some_iff.1 h
  exact (Prod.mk.inj (List.mem_singleton.1 he)).2

theorem subcommands_quoteCommand : ∀ sub ∈ quoteCommand.subcommands, sub.subcommands = [] := by
  intro sub hsub
  simp only [quoteCommand, List.mem_cons, List.not_mem_nil, or_false] at hsub
  rcases hsub with rfl | rfl | rfl | rfl
  all_goals rfl

theorem command_of_lookup {cmd : Command Bot} {tree : Tree}
    (h : registry.lookup line = .ok (cmd, tree)) : cmd = quoteCommand := by
  simp only [Registry.lookup] at h
  split at h
  · cases h
  · split at h
    · rename_i hget
      cases h
      exact get?_registry hget
    · split at h
      · split at h <;> cases h
      · cases h

theorem run_cases {b : Bound Bot} (h : b.command ∈ quoteCommand :: quoteCommand.subcommands) :
    Order.ofBound b = none ∧ b.command = quoteCommand ∨
      ∃ order, Order.ofBound b = some order ∧ ∀ bot : Bot,
        b.run bot = ((bot.obey order).1.mapError fun e ↦ .run e.message, (bot.obey order).2) := by
  obtain ⟨command, arguments⟩ := b
  have handled {handler : Handler Bot} {order : Order} (hh : command.handler = some handler)
      (ho : ∀ bot, handler arguments bot = answered (bot.obey order)) (bot : Bot) :
      (⟨command, arguments⟩ : Bound Bot).run bot =
        ((bot.obey order).1.mapError fun e ↦ .run e.message, (bot.obey order).2) := by
    rw [Bound.run_of_handler hh, ho, answered]
    rcases (bot.obey order).1 with e | reply <;> rfl
  simp only [List.mem_cons, quoteCommand, List.not_mem_nil, or_false] at h
  rcases h with rfl | rfl | rfl | rfl | rfl
  · exact .inl ⟨rfl, rfl⟩
  · exact .inr ⟨_, rfl, handled rfl fun _ ↦ rfl⟩
  · exact .inr ⟨_, rfl, handled rfl fun _ ↦ rfl⟩
  · exact .inr ⟨_, rfl, handled rfl fun _ ↦ rfl⟩
  · exact .inr ⟨_, rfl, handled rfl fun _ ↦ rfl⟩

theorem resolve_cases {b : Bound Bot} (h : registry.resolve line = .ok b) :
    b.command ∈ quoteCommand :: quoteCommand.subcommands ∧ ∀ bot : Bot,
      registry.dispatch line bot =
        ((b.run bot).1.mapError (·.nest quoteCommand.name), (b.run bot).2) := by
  have found (bot : Bot) : b.command ∈ quoteCommand :: quoteCommand.subcommands ∧
      registry.dispatch line bot =
        ((b.run bot).1.mapError (·.nest quoteCommand.name), (b.run bot).2) := by
    obtain ⟨cmd, tree, hlookup, hresolve, hdispatch⟩ := Registry.dispatch_of_ok h bot
    obtain rfl := command_of_lookup hlookup
    rw [Command.command_eq_route hresolve]
    exact ⟨Command.route_command_mem subcommands_quoteCommand tree.children, hdispatch⟩
  exact ⟨(found ⟨.memory .empty, .empty, id⟩).1, fun bot ↦ (found bot).2⟩

theorem dispatch_of_order (h : Order.ofLine line = some order) (bot : Bot) :
    registry.dispatch line bot =
      ((bot.obey order).1.mapError fun e ↦ .run e.message, (bot.obey order).2) := by
  obtain ⟨b, hb, horder⟩ := Option.bind_eq_some_iff.1 h
  rcases hresolve : registry.resolve line with e | b'
  · rw [hresolve] at hb
    cases hb
  · rw [hresolve] at hb
    cases hb
    obtain ⟨hmem, hdispatch⟩ := resolve_cases hresolve
    rcases run_cases hmem with ⟨hnone, -⟩ | ⟨order', horder', hrun⟩
    · cases hnone.symm.trans horder
    · cases horder'.symm.trans horder
      rw [hdispatch, hrun]
      rcases (bot.obey order).1 with e | reply <;> rfl

theorem dispatch_of_no_order (h : Order.ofLine line = none) :
    ∃ e : Interruption, ∀ bot : Bot, registry.dispatch line bot = (.error e, bot) := by
  rcases hresolve : registry.resolve line with e | b
  · exact ⟨e, fun bot ↦ Registry.dispatch_of_error hresolve bot⟩
  · obtain ⟨hmem, hdispatch⟩ := resolve_cases hresolve
    rcases run_cases hmem with ⟨-, hquote⟩ | ⟨order, horder, -⟩
    · refine ⟨.bind ⟨[quoteCommand.name], .subcommandRequired quoteCommand.name⟩, fun bot ↦ ?_⟩
      rw [hdispatch, Bound.run, hquote]
      rfl
    · rw [Order.ofLine, hresolve] at h
      cases horder.symm.trans h

theorem respond_of_order (h : Order.ofLine line = some order) (bot : Bot) :
    bot.respond (.command line) = (proseReply (bot.obey order).1, (bot.obey order).2) := by
  rw [respond, dispatch_of_order h]
  rcases (bot.obey order).1 with e | reply <;> rfl

theorem respond_of_no_order (h : Order.ofLine line = none) :
    ∃ reply, ∀ bot : Bot, bot.respond (.command line) = (reply, bot) := by
  obtain ⟨e, he⟩ := dispatch_of_no_order h
  refine ⟨commandReply (.error e), fun bot ↦ ?_⟩
  rw [respond, he]

end Bot

end ChatCommand
