import ChatCommand.Proofs.Command.HelpLines
import ChatCommand.Registry

namespace ChatCommand

open Text

variable {C : Type}

namespace Registry

variable {r r' : Registry C} {cmd : Command C} {cmds : List (Command C)} {name : Text}

theorem register_cases (r : Registry C) (cmd : Command C) :
    (r.get? cmd.name = none ∧ ∃ r', r.register cmd = .ok r' ∧
        ∀ name, r'.get? name = if cmd.name = name then some cmd else r.get? name) ∨
      ((r.get? cmd.name).isSome ∧ r.register cmd = .error (.duplicateCommand cmd.name)) := by
  rw [register]
  by_cases hfound : r.commands.contains cmd.name
  · rw [if_pos hfound]
    exact .inr ⟨hfound, rfl⟩
  · rw [if_neg hfound]
    refine .inl ⟨Option.not_isSome_iff_eq_none.1 hfound, _, rfl, fun name ↦ ?_⟩
    exact SortedMap.get?_insert r.commands cmd.name name cmd

/-- The registry after a call. A call that is refused leaves it as it is. -/
def afterCall (r : Registry C) (cmd : Command C) : Registry C :=
  match r.register cmd with
  | .ok r' => r'
  | .error _ => r

def ofCalls (cmds : List (Command C)) : Registry C :=
  cmds.foldl afterCall empty

/-- One of the calls was made for the command, and it was not refused. -/
def Admitted (cmds : List (Command C)) (cmd : Command C) : Prop :=
  ∃ before after r, cmds = before ++ cmd :: after ∧ (ofCalls before).register cmd = .ok r

theorem ofCalls_append (cmds : List (Command C)) (cmd : Command C) :
    ofCalls (cmds ++ [cmd]) = (ofCalls cmds).afterCall cmd := by
  rw [ofCalls, List.foldl_append]
  rfl

theorem exists_register_eq_ok_iff :
    (∃ r', r.register cmd = .ok r') ↔ r.get? cmd.name = none := by
  rcases register_cases r cmd with ⟨hnone, r', hr', -⟩ | ⟨hsome, herror⟩
  · exact iff_of_true ⟨r', hr'⟩ hnone
  · refine iff_of_false ?_ (Option.isSome_iff_ne_none.1 hsome)
    rintro ⟨r', hr'⟩
    cases herror.symm.trans hr'

theorem get?_afterCall (r : Registry C) (cmd : Command C) (name : Text) :
    (r.afterCall cmd).get? name =
      (r.get? name).or (if cmd.name = name then some cmd else none) := by
  rcases register_cases r cmd with ⟨hnone, r', hr', hget⟩ | ⟨hsome, herror⟩
  · simp only [afterCall, hr', hget]
    split
    · rename_i hname
      rw [← hname, hnone, Option.none_or]
    · rw [Option.or_none]
  · simp only [afterCall, herror]
    split
    · rename_i hname
      obtain ⟨found, hfound⟩ := Option.isSome_iff_exists.1 hsome
      rw [← hname, hfound, Option.some_or]
    · rw [Option.or_none]

theorem get?_foldl_afterCall (r : Registry C) (cmds : List (Command C)) (name : Text) :
    (cmds.foldl afterCall r).get? name = (r.get? name).or (cmds.find? (·.name = name)) := by
  induction cmds generalizing r with
  | nil => simp
  | cons cmd cmds ih =>
    rw [List.foldl_cons, ih, get?_afterCall, Option.or_assoc, List.find?_cons]
    by_cases hname : cmd.name = name
    · simp [hname]
    · simp [hname]

theorem get?_ofCalls (cmds : List (Command C)) (name : Text) :
    (ofCalls cmds).get? name = cmds.find? (·.name = name) :=
  get?_foldl_afterCall empty cmds name

theorem admitted_iff : Admitted cmds cmd ↔ cmds.find? (·.name = cmd.name) = some cmd := by
  rw [List.find?_eq_some_iff_append]
  constructor
  · rintro ⟨before, after, r, hcmds, hr⟩
    have hnone := exists_register_eq_ok_iff.1 ⟨r, hr⟩
    rw [get?_ofCalls, List.find?_eq_none] at hnone
    exact ⟨decide_eq_true rfl, before, after, hcmds, by simpa using hnone⟩
  · rintro ⟨-, before, after, hcmds, hbefore⟩
    have hnone : (ofCalls before).get? cmd.name = none := by
      rw [get?_ofCalls, List.find?_eq_none]
      simpa using hbefore
    obtain ⟨r, hr⟩ := exists_register_eq_ok_iff.2 hnone
    exact ⟨before, after, r, hcmds, hr⟩

theorem exists_admitted_iff :
    (∃ first, Admitted cmds first ∧ first.name = name) ↔ ((ofCalls cmds).get? name).isSome := by
  rw [Option.isSome_iff_exists, get?_ofCalls]
  refine exists_congr fun first ↦ ?_
  rw [admitted_iff]
  constructor
  · rintro ⟨hfirst, rfl⟩
    exact hfirst
  · intro hfirst
    have hname : first.name = name := by simpa using List.find?_some hfirst
    exact ⟨hname ▸ hfirst, hname⟩

theorem register_ofCalls (before : List (Command C)) (cmd : Command C) (e : DeclarationError) :
    (ofCalls before).register cmd = .error e ↔
      e = .duplicateCommand cmd.name ∧ ∃ first, Admitted before first ∧ first.name = cmd.name := by
  rw [exists_admitted_iff]
  rcases register_cases (ofCalls before) cmd with ⟨hnone, r', hr', -⟩ | ⟨hsome, herror⟩
  · simp [hr', hnone]
  · simp [herror, hsome, eq_comm]

theorem mem_values_iff : cmd ∈ r.commands.values ↔ r.get? cmd.name = some cmd := by
  rw [get?, SortedMap.get?_eq_some_iff, SortedMap.values, List.mem_map]
  constructor
  · rintro ⟨entry, hentry, rfl⟩
    rw [r.named entry hentry]
    exact hentry
  · exact fun h ↦ ⟨_, h, rfl⟩

theorem map_name_values (r : Registry C) : r.commands.values.map (·.name) = r.commands.keys := by
  rw [SortedMap.values, SortedMap.keys, List.map_map]
  exact List.map_congr_left r.named

theorem pairwise_before_values (r : Registry C) :
    (r.commands.values.map (·.name)).Pairwise fun a b ↦ Key.before a b := by
  rw [map_name_values, SortedMap.keys, List.pairwise_map]
  exact r.commands.sorted

def epilogue : List Text :=
  [[], "Use `help <command>` for more information.".toList]

theorem help_eq_unlines (r : Registry C) :
    r.help =
      unlines ("COMMANDS:".toList :: Command.listing r.commands.values ++ epilogue) := by
  rw [unlines_append, unlines_cons, Command.unlines_listing, map_name_values]
  rfl

theorem pieces_help (h : ∀ cmd ∈ r.commands.values, Token.isName cmd.name) :
    pieces '\n' r.help =
      "COMMANDS:".toList :: Command.listing r.commands.values ++ epilogue ++ [[]] := by
  have hall : ∀ line ∈ "COMMANDS:".toList :: Command.listing r.commands.values ++ epilogue,
      '\n' ∉ line := by
    rw [List.forall_mem_append, List.forall_mem_cons]
    exact ⟨⟨by decide, Command.feed_notMem_listing h⟩, by decide⟩
  have hpieces := pieces_unlines_append hall []
  rwa [← help_eq_unlines, List.append_nil] at hpieces

/-- After any calls the registry has the command of the first call for each name, and refuses just
the later ones. It is listed by name, and the documentation of all commands starts in one column.
-/
theorem ofCalls_listing (hc : ∀ cmd ∈ cmds, cmd.Checked) :
    (∀ (before : List (Command C)) cmd e, ((ofCalls before).register cmd = .error e ↔
        e = .duplicateCommand cmd.name ∧ ∃ first, Admitted before first ∧ first.name = cmd.name) ∧
      ((ofCalls before).register cmd = .error e → ofCalls (before ++ [cmd]) = ofCalls before)) ∧
    (∀ name, (ofCalls cmds).get? name = cmds.find? (·.name = name)) ∧
    (∀ cmd, cmd ∈ (ofCalls cmds).commands.values ↔ Admitted cmds cmd) ∧
    ((ofCalls cmds).commands.values.map (·.name)).Pairwise (fun a b ↦ Key.before a b) ∧
    ∃ column rows, List.Forall₂ (Command.Row column) (ofCalls cmds).commands.values rows ∧
      pieces '\n' (ofCalls cmds).help = "COMMANDS:".toList :: rows ++ epilogue ++ [[]] := by
  have hvalues (cmd : Command C) :
      cmd ∈ (ofCalls cmds).commands.values ↔ Admitted cmds cmd := by
    rw [mem_values_iff, get?_ofCalls, admitted_iff]
  have hnames : ∀ cmd ∈ (ofCalls cmds).commands.values, Token.isName cmd.name := by
    intro cmd hcmd
    have hfound := admitted_iff.1 ((hvalues cmd).1 hcmd)
    exact (hc cmd (List.mem_of_find?_eq_some hfound)).wellFormed.name
  have hrows := Command.forall₂_row_listing (ofCalls cmds).commands.values
  refine ⟨fun before cmd e ↦ ⟨register_ofCalls before cmd e, fun he ↦ ?_⟩, get?_ofCalls cmds,
    hvalues, pairwise_before_values _, _, _, hrows, pieces_help hnames⟩
  simp only [ofCalls_append, afterCall, he]

def animal (name doc : String) : Command Unit where
  name := name.toList
  doc := doc.toList
  args := []
  flags := []
  kwargs := []
  subcommands := []
  handler := none

/-- Names of letters that take one byte, two and three, one of them called for twice. -/
def menagerie : List (Command Unit) :=
  [animal "zebra" "Striped.", animal "ñandú" "Runs.\n    zebra  Not a row.",
    animal "zebra" "Spotted.", animal "犬" ""]

/-- The width of the names is the seven bytes of the second one, and every documentation starts
behind thirteen characters. -/
def menagerieRows : List Text :=
  ["    zebra    Striped.", "    ñandú    Runs.", "    犬        "].map String.toList

theorem ofCalls_listing_menagerie :
    (∀ cmd ∈ menagerie, cmd.Checked) ∧
      (ofCalls (menagerie.take 2)).register (animal "zebra" "Spotted.") =
        .error (.duplicateCommand "zebra".toList) ∧
      ofCalls (menagerie.take 3) = ofCalls (menagerie.take 2) ∧
      (ofCalls menagerie).get? "zebra".toList = some (animal "zebra" "Striped.") ∧
      animal "zebra" "Spotted." ∉ (ofCalls menagerie).commands.values ∧
      List.Forall₂ (Command.Row 13) (ofCalls menagerie).commands.values menagerieRows ∧
      pieces '\n' (ofCalls menagerie).help =
        "COMMANDS:".toList :: menagerieRows ++ epilogue ++ [[]] := by
  have hc : ∀ cmd ∈ menagerie, cmd.Checked := by
    simp only [menagerie, List.forall_mem_cons, List.not_mem_nil, false_imp_iff, implies_true,
      and_true]
    refine ⟨?_, ?_, ?_, ?_⟩ <;> exact Command.checkDeep_eq_ok_iff.1 (by decide +kernel)
  obtain ⟨hcalls, hget, hvalues, -, column, rows, hrows, hhelp⟩ := ofCalls_listing hc
  have hfirst : Admitted (menagerie.take 2) (animal "zebra" "Striped.") := admitted_iff.2 rfl
  have hdup := hcalls (menagerie.take 2) (animal "zebra" "Spotted.")
    (.duplicateCommand "zebra".toList)
  have herror := hdup.1.2 ⟨rfl, _, hfirst, rfl⟩
  have hpieces : pieces '\n' (ofCalls menagerie).help =
      "COMMANDS:".toList :: menagerieRows ++ epilogue ++ [[]] := by
    decide +kernel
  obtain rfl : rows = menagerieRows := by simpa using hhelp.symm.trans hpieces
  obtain rfl : column = 13 := by
    obtain ⟨hzebra, -⟩ := List.forall₂_cons.1 hrows
    obtain ⟨gap, line, -, hcolumn, hline, hrow⟩ := hzebra
    obtain rfl : "Striped.".toList = line := hline.firstLine_eq
    have hlength := congrArg List.length hrow
    simp only [List.length_append, spaces, List.length_replicate] at hlength
    change 21 = 4 + 5 + gap + 8 at hlength
    change 4 + 5 + gap = column at hcolumn
    omega
  refine ⟨hc, herror, hdup.2 herror, hget _, fun hmem ↦ ?_, hrows, hpieces⟩
  have hfound := congrArg (Option.map Command.doc) (admitted_iff.1 ((hvalues _).1 hmem))
  exact absurd hfound (by decide)

end Registry

end ChatCommand
