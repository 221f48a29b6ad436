import ChatCommand.Proofs.Bind.Suits
import ChatCommand.Proofs.Grammar.Image
import ChatCommand.Proofs.Registry.Leads

namespace ChatCommand

open Text

variable {C : Type}

structure Call where
  literals : List Text
  flags : List Char
  kwargs : List (Text × Option Text)

namespace Call

def positionals (call : Call) : List Node :=
  call.literals.map .value ++ call.flags.map .flag

def options (call : Call) : List Node :=
  call.kwargs.map fun kwarg ↦ .kwarg kwarg.1 kwarg.2

def nodes (call : Call) : List Node :=
  call.positionals ++ call.options

def keys (call : Call) : List Text :=
  call.kwargs.map (·.1)

/-- The call is one that the command declares, and each text in it can stand between marks. -/
structure Fits (call : Call) (cmd : Command C) : Prop where
  enough : cmd.requiredArgs ≤ call.literals.length
  fits : call.literals.length ≤ cmd.args.length
  literals : ∀ (i : Nat) (spec : ArgSpec) (s : Text), cmd.args[i]? = some spec →
    call.literals[i]? = some s → ∃ v, spec.ty.coerce s = .ok v
  flags : ∀ c ∈ call.flags, ∃ spec ∈ cmd.flags, spec.name = c
  keysDistinct : call.keys.Nodup
  kwargs : ∀ key literal, (key, literal) ∈ call.kwargs → ∃ spec ∈ cmd.kwargs, spec.key = key ∧
    ∃ v, spec.Takes literal v
  required : ∀ spec ∈ cmd.kwargs, spec.arity = .required → spec.key ∈ call.keys
  quotable : ∀ s ∈ call.literals, Quotable s
  kwargsQuotable : ∀ key s, (key, some s) ∈ call.kwargs → Quotable s
  noSubcommand : ∀ sub ∈ cmd.subcommands, call.literals.head? ≠ some sub.name

/-- The arguments are those of the call, and beside them the fallbacks of the command. -/
structure Yields (call : Call) (cmd : Command C) (a : Arguments) : Prop where
  values : a.values.map some =
    List.zipWith (fun spec s ↦ spec.ty.read? s) cmd.args call.literals ++
      (cmd.args.drop call.literals.length).map (·.fallback)
  flags : ∀ c, a.hasFlag c ↔ c ∈ call.flags
  given : ∀ key literal, (key, literal) ∈ call.kwargs → ∃ spec ∈ cmd.kwargs, spec.key = key ∧
    ∃ v, spec.Takes literal v ∧ a.kwargs.get? key = some v
  filled : ∀ spec ∈ cmd.kwargs, spec.key ∉ call.keys →
    a.kwargs.get? spec.key = spec.arity.fallback?.map some
  declared : ∀ key, a.hasKwarg key → ∃ spec ∈ cmd.kwargs, spec.key = key

/-- A line for the call, behind the names that lead to the command, with one space between any two
parts and the texts of the call between marks. -/
def SaidBy (call : Call) (root : Text) (names : List Text) (line : Text) : Prop :=
  ∃ texts, List.Forall₂ Node.Written call.nodes texts ∧
    line = root ++ (names.flatMap (' ' :: ·) ++ texts.flatMap (' ' :: ·))

variable {call : Call} {cmd target root : Command C} {names : List Text}

section Nodes

theorem mem_nodes {n : Node} : n ∈ call.nodes ↔
    (∃ s ∈ call.literals, n = .value s) ∨ (∃ c ∈ call.flags, n = .flag c) ∨
      ∃ key literal, (key, literal) ∈ call.kwargs ∧ n = .kwarg key literal := by
  simp only [nodes, positionals, options, List.mem_append, List.mem_map, Prod.exists, or_assoc,
    eq_comm (b := n)]

theorem flag_mem_nodes {c : Char} : .flag c ∈ call.nodes ↔ c ∈ call.flags := by
  simp [mem_nodes]

theorem kwarg_mem_nodes {key : Text} {literal : Option Text} :
    .kwarg key literal ∈ call.nodes ↔ (key, literal) ∈ call.kwargs := by
  simp [mem_nodes]

theorem literals_nodes (call : Call) : ChatCommand.literals call.nodes = call.literals := by
  simp [ChatCommand.literals, nodes, positionals, options, List.filterMap_map,
    Function.comp_def, Node.literal?]

theorem keys_nodes (call : Call) : ChatCommand.keys call.nodes = call.keys := by
  simp [ChatCommand.keys, nodes, positionals, options, keys, List.filterMap_map,
    Function.comp_def, Node.key?]

theorem isKwarg_positionals : ∀ n ∈ call.positionals, Grammar.isKwarg n = false := by
  intro n hn
  rcases List.mem_append.1 hn with hn | hn
  all_goals
    obtain ⟨_, -, rfl⟩ := List.mem_map.1 hn
    rfl

theorem isKwarg_options : ∀ n ∈ call.options, Grammar.isKwarg n := by
  intro n hn
  obtain ⟨_, -, rfl⟩ := List.mem_map.1 hn
  rfl

theorem head?_nodes {s : Text} (h : call.nodes.head? = some (.value s)) :
    call.literals.head? = some s := by
  obtain ⟨literals, flags, kwargs⟩ := call
  rcases literals with _ | ⟨t, literals⟩
  · rcases flags with _ | ⟨c, flags⟩
    · rcases kwargs with _ | ⟨k, kwargs⟩ <;> cases h
    · cases h
  · cases h
    rfl

end Nodes

namespace Fits

theorem stops (h : call.Fits target) : target.Stops call.nodes :=
  fun sub hs hhead ↦ h.noSubcommand sub hs (head?_nodes hhead)

theorem asksHelp_eq (h : call.Fits target) (hw : target.WellFormed) :
    target.asksHelp call.nodes = false := by
  rw [Bool.eq_false_iff, ne_eq, Command.asksHelp_iff]
  rintro (⟨literal, hn⟩ | ⟨hhead, hargs⟩)
  · obtain ⟨spec, hs, hkey, -⟩ := h.kwargs _ _ (kwarg_mem_nodes.1 hn)
    exact (hw.kwargKey spec hs).1 hkey
  · have hfirst := head?_nodes hhead
    have hnone := h.fits
    rw [hargs, List.length_nil, Nat.le_zero, List.length_eq_zero_iff] at hnone
    rw [hnone] at hfirst
    cases hfirst

theorem legible (h : call.Fits target) (hw : target.WellFormed) :
    ∀ n ∈ call.nodes, n.Legible := by
  intro n hn
  rcases mem_nodes.1 hn with ⟨s, hs, rfl⟩ | ⟨c, hc, rfl⟩ | ⟨key, literal, hkwarg, rfl⟩
  · exact h.quotable s hs
  · obtain ⟨spec, hs, rfl⟩ := h.flags c hc
    exact hw.flagName spec hs
  · obtain ⟨spec, hs, rfl, -⟩ := h.kwargs key literal hkwarg
    refine ⟨(hw.kwargKey spec hs).2, fun s hs ↦ ?_⟩
    cases hs
    exact h.kwargsQuotable _ s hkwarg

theorem suits (h : call.Fits target) (hw : target.WellFormed) : target.Suits call.nodes where
  fits := by simpa only [literals_nodes] using h.fits
  enough := by simpa only [literals_nodes, hw.requiredArgs_eq] using h.enough
  values := by simpa only [literals_nodes] using h.literals
  flags c hc := h.flags c (flag_mem_nodes.1 hc)
  keysDistinct := by simpa only [keys_nodes] using h.keysDistinct
  kwargs key literal hn := h.kwargs key literal (kwarg_mem_nodes.1 hn)
  required := by simpa only [keys_nodes] using h.required
  noTree root children hn := by
    rcases mem_nodes.1 hn with ⟨s, _, ⟨⟩⟩ | ⟨c, _, ⟨⟩⟩ | ⟨key, literal, _, ⟨⟩⟩

theorem exists_bind (h : call.Fits target) (hw : target.WellFormed) :
    ∃ a, target.bind call.nodes = .ok a ∧ target.Binds call.nodes a :=
  (h.suits hw).exists_bind hw

end Fits

theorem yields_of_binds (hw : target.WellFormed) {a : Arguments}
    (h : target.Binds call.nodes a) : call.Yields target a where
  values := by simpa only [literals_nodes] using h.values
  flags c := (h.flags c).trans flag_mem_nodes
  given key literal hkwarg := h.given key literal (kwarg_mem_nodes.2 hkwarg)
  filled spec hs hkey := h.get?_of_not_given hw hs (by rwa [keys_nodes])
  declared _ hkey := h.declared hkey

section Line

open Grammar in
theorem readsAs_names {rest : Text} {ns : List Node} (hnames : ∀ name ∈ names, Token.isName name)
    (hrest : Parted rest) (h : ReadsAs rest ns) :
    ReadsAs (names.flatMap (' ' :: ·) ++ rest) (names.map .value ++ ns) := by
  induction names with
  | nil => exact h
  | cons name names ih =>
    obtain ⟨hname, hnames⟩ := List.forall_mem_cons.1 hnames
    have hparted : Parted (names.flatMap (' ' :: ·) ++ rest) :=
      parted_written.append fun _ ↦ hrest
    have hsymbol : Token.isSymbol name := (Bool.and_eq_true_iff.1 hname).1
    have hread := ReadsAs.literal (.bare name hsymbol) isBlank_space hparted (ih hnames)
    simpa [Literal.text, Literal.content] using hread

theorem parseLine_of_saidBy {root line : Text} (hroot : Token.isName root)
    (hnames : ∀ name ∈ names, Token.isName name) (hlegible : ∀ n ∈ call.nodes, n.Legible)
    (h : call.SaidBy root names line) :
    Grammar.parseLine line = .ok ⟨some root, names.map .value ++ call.nodes⟩ := by
  obtain ⟨texts, htexts, rfl⟩ := h
  have hspelled : Grammar.ReadsAs (texts.flatMap (' ' :: ·)) call.nodes :=
    Grammar.readsAs_written htexts hlegible
      (Grammar.pairwise_isKwarg isKwarg_positionals isKwarg_options)
  have hread := readsAs_names hnames Grammar.parted_written hspelled
  have hparted : Parted (names.flatMap (' ' :: ·) ++ texts.flatMap (' ' :: ·)) :=
    Grammar.parted_written.append fun _ ↦ Grammar.parted_written
  have hvalues : ∀ n ∈ names.map .value ++ call.positionals, Grammar.isKwarg n = false := by
    refine List.forall_mem_append.2 ⟨?_, isKwarg_positionals⟩
    exact List.forall_mem_map.2 fun _ _ ↦ rfl
  have hparse := Grammar.parseLine_of_readsAs hroot (List.forall_mem_nil _) hparted hread
  have hparts : names.map .value ++ call.nodes =
      (names.map .value ++ call.positionals) ++ call.options := (List.append_assoc ..).symm
  rwa [hparts, Grammar.filter_isKwarg_append hvalues isKwarg_options, ← hparts] at hparse

end Line

/-- Whatever a command declares can be said to it: a call that fits has a line, and each line for
it is resolved to the command at the end of the names, with the arguments of the call. -/
theorem resolve_saidBy {r : Registry C} (hroot : r.get? root.name = some root) (hc : root.Checked)
    (hpath : Command.Descent root (names.map .value) names target []) (hfits : call.Fits target) :
    (∃ line, call.SaidBy root.name names line) ∧
      ∀ line, call.SaidBy root.name names line →
        ∃ a, r.resolve line = .ok ⟨target, a⟩ ∧ call.Yields target a := by
  have hw := (hpath.checked hc).wellFormed
  have hlegible := hfits.legible hw
  constructor
  · obtain ⟨texts, htexts⟩ := Node.exists_forall₂_written hlegible
    exact ⟨_, texts, htexts, rfl⟩
  · intro line hline
    have hparse := parseLine_of_saidBy hc.wellFormed.name (hpath.isName hc) hlegible hline
    let tree : Tree := ⟨some root.name, names.map .value ++ call.nodes⟩
    have hd : Command.Descent root tree.children names target call.nodes := by
      simpa using hpath.append call.nodes
    obtain ⟨a, hbind, hbinds⟩ := hfits.exists_bind hw
    refine ⟨a, ?_, yields_of_binds hw hbinds⟩
    rw [Registry.resolve_of_get? hparse hroot, mapError_eq_ok_iff]
    rcases Command.resolve_cases hc hd hfits.stops with ⟨hhelp, -⟩ | ⟨-, ⟨a', ha', h⟩ | ⟨m, hm, -⟩⟩
    · cases (hfits.asksHelp_eq hw).symm.trans hhelp
    · cases hbind.symm.trans ha'
      exact h
    · cases hbind.symm.trans hm

def till : Registry Unit where
  commands := .ofList [(Command.bank.name, Command.bank)]
  named := (List.forall_mem_singleton (a := (Command.bank.name, Command.bank))).2 rfl

def payment : Call where
  literals := [['7']]
  flags := ['q']
  kwargs := [(['l', 'o', 'g'], none), (['t', 'o'], some ['o', '\'', 'k'])]

theorem payment_fits : payment.Fits Command.send where
  enough := by decide
  fits := by decide
  literals i spec s hspec hs := by
    rcases i with _ | i
    · cases hspec
      cases hs
      exact ⟨.int 7, rfl⟩
    · cases hs
  flags c hc := by
    obtain rfl := List.mem_singleton.1 hc
    exact ⟨_, List.mem_singleton.2 rfl, rfl⟩
  keysDistinct := by decide
  kwargs key literal h := by
    rcases List.mem_cons.1 h with h | h
    · cases h
      exact ⟨⟨['l', 'o', 'g'], .string, [], .optional, true⟩, by decide, rfl, none, .bare rfl⟩
    · cases List.mem_singleton.1 h
      exact ⟨⟨['t', 'o'], .string, [], .required, false⟩, by decide, rfl, _, .value rfl⟩
  required := by decide
  quotable := List.forall_mem_singleton.2 (by simp [Quotable])
  kwargsQuotable key s h := by
    rcases List.mem_cons.1 h with h | h
    · cases h
    · cases List.mem_singleton.1 h
      simp [Quotable]
  noSubcommand := List.forall_mem_nil _

theorem resolve_saidBy_payment :
    till.get? Command.bank.name = some Command.bank ∧ Command.bank.Checked ∧
      Command.Descent Command.bank ([Command.send.name].map .value) [Command.send.name]
        Command.send [] ∧
      payment.Fits Command.send ∧
      ∃ a, till.resolve "bank send '7' -q --log --to \"o'k\"".toList = .ok ⟨Command.send, a⟩ ∧
        payment.Yields Command.send a := by
  have hroot : till.get? Command.bank.name = some Command.bank := rfl
  have hpath : Command.Descent Command.bank ([Command.send.name].map .value)
      [Command.send.name] Command.send [] := .down (List.mem_singleton.2 rfl) (.here _ _)
  have hseven : Node.Written (.value ['7']) "'7'".toList := .value rfl (by decide)
  have hto : Node.Written (.kwarg ['t', 'o'] (some ['o', '\'', 'k'])) "--to \"o'k\"".toList :=
    .keyed _ rfl (by decide)
  have hline : payment.SaidBy Command.bank.name [Command.send.name]
      "bank send '7' -q --log --to \"o'k\"".toList :=
    ⟨_, .cons hseven (.cons (.flag _) (.cons (.key _) (.cons hto .nil))), rfl⟩
  have hspelled := resolve_saidBy hroot Command.bank_checked hpath payment_fits
  exact ⟨hroot, Command.bank_checked, hpath, payment_fits, hspelled.2 _ hline⟩

end Call

end ChatCommand
