import ChatCommand.BindError
import ChatCommand.Proofs.Grammar.Lexeme
import ChatCommand.Proofs.Number.Integer
import ChatCommand.Proofs.Text.Lines
import ChatCommand.Proofs.Text.Pieces

namespace ChatCommand

open Text

variable {m : Misfit} {command : Text} {names parts : List Text} {line : Text} {n : Nat}

namespace Text

def setIn (n : Nat) (line : Text) : Text :=
  if line.isEmpty then [] else spaces n ++ line

theorem setIn_of_ne_nil (h : line ≠ []) (n : Nat) : setIn n line = spaces n ++ line := by
  rw [setIn, if_neg (by simpa using h)]

theorem trimStart_spaces_append (n : Nat) (s : Text) : trimStart (spaces n ++ s) = trimStart s := by
  refine trimStart_append fun c hc ↦ ?_
  rw [List.eq_of_mem_replicate hc]
  rfl

theorem setIn_setIn (m n : Nat) (line : Text) : setIn m (setIn n line) = setIn (m + n) line := by
  by_cases h : line = []
  · simp [setIn, h]
  · have hne : spaces n ++ line ≠ [] := by simp [h]
    rw [setIn_of_ne_nil h, setIn_of_ne_nil hne, setIn_of_ne_nil h, ← List.append_assoc,
      spaces_append]

theorem setIn_zero (line : Text) : setIn 0 line = line := by
  by_cases h : line = []
  · simp [setIn, h]
  · rw [setIn_of_ne_nil h]
    rfl

theorem drop_setIn (n : Nat) (line : Text) : (setIn n line).drop n = line := by
  by_cases h : line = []
  · simp [setIn, h]
  · have hlength : (spaces n).length = n := List.length_replicate
    rw [setIn_of_ne_nil h, List.drop_append_of_le_length (by omega), List.drop_of_length_le
      (by omega), List.nil_append]

theorem feed_notMem_setIn (h : '\n' ∉ line) : '\n' ∉ setIn n line := by
  rw [setIn]
  split
  · exact List.not_mem_nil
  · simp [spaces, h]

theorem getLast?_setIn : (setIn n line).getLast? = line.getLast? := by
  by_cases h : line = []
  · simp [setIn, h]
  · rw [setIn_of_ne_nil h, List.getLast?_append_of_ne_nil _ h]

theorem rejoins_pieces {s : Text} (hfirm : isFirm s)
    (h : ∀ line ∈ pieces '\n' s, line.getLast? ≠ some '\r') : Rejoins (pieces '\n' s) := by
  refine ⟨fun line hline ↦ notMem_of_mem_pieces hline, h, fun line hline ↦ ?_⟩
  obtain ⟨t, c, rfl, hc⟩ := isFirm_iff.1 hfirm
  have hfeed : '\n' ∉ [c] := by
    rw [List.mem_singleton]
    rintro rfl
    cases hc
  obtain ⟨ps, p, -, hpieces⟩ := exists_pieces_append t hfeed
  rw [hpieces, List.getLast?_concat] at hline
  cases hline
  simp

end Text

namespace BindError

def opening (depth : Nat) (command : Text) : Text :=
  spaces (4 * depth) ++ "Command: ".toList ++ command ++ " \x7b".toList

def closing (depth : Nat) : Text :=
  spaces (4 * depth) ++ ['\x7d']

/-- The lines of a message in a frame for each name, the first name for the outermost one. -/
def framedLines (names parts : List Text) : List Text :=
  names.mapIdx opening ++ parts.map (setIn (4 * names.length)) ++
    (List.range names.length).reverse.map closing

theorem setIn_opening (depth : Nat) (command : Text) :
    setIn 4 (opening depth command) = opening (depth + 1) command := by
  have hne : opening depth command ≠ [] := by simp [opening]
  rw [setIn_of_ne_nil hne, opening, opening, Nat.mul_succ, Nat.add_comm _ 4, ← spaces_append]
  simp only [List.append_assoc]

theorem setIn_closing (depth : Nat) : setIn 4 (closing depth) = closing (depth + 1) := by
  have hne : closing depth ≠ [] := by simp [closing]
  rw [setIn_of_ne_nil hne, closing, closing, Nat.mul_succ, Nat.add_comm _ 4, ← spaces_append]
  simp only [List.append_assoc]

theorem framedLines_nil (parts : List Text) : framedLines [] parts = parts := by
  have hid : parts.map (setIn 0) = parts.map id := List.map_congr_left fun line _ ↦ setIn_zero line
  simpa [framedLines] using hid

theorem framedLines_cons (name : Text) (names parts : List Text) :
    framedLines (name :: names) parts =
      opening 0 name :: (framedLines names parts).map (setIn 4) ++ [closing 0] := by
  have hopen : (names.mapIdx opening).map (setIn 4) = names.mapIdx fun i ↦ opening (i + 1) := by
    refine List.ext_getElem? fun i ↦ ?_
    rw [List.getElem?_map, List.getElem?_mapIdx, List.getElem?_mapIdx, Option.map_map]
    exact congrArg (Option.map · names[i]?) (funext fun command ↦ setIn_opening i command)
  have hinner : (parts.map (setIn (4 * names.length))).map (setIn 4) =
      parts.map (setIn (4 * (names.length + 1))) := by
    rw [List.map_map]
    refine List.map_congr_left fun line _ ↦ ?_
    rw [Function.comp_apply, setIn_setIn, Nat.mul_succ, Nat.add_comm]
  have hclose : ((List.range names.length).reverse.map closing).map (setIn 4) =
      ((List.range names.length).map Nat.succ).reverse.map closing := by
    rw [List.map_map, ← List.map_reverse, List.map_map]
    exact List.map_congr_left fun i _ ↦ setIn_closing i
  simp only [framedLines, List.length_cons, List.mapIdx_cons, List.map_append, hopen, hinner,
    hclose, List.range_succ_eq_map, List.reverse_cons, List.map_cons, List.map_nil,
    List.cons_append, List.append_assoc]

theorem frame_join (h : Rejoins parts) (command : Text) :
    frame command (join ['\n'] parts) =
      join ['\n'] (opening 0 command :: parts.map (setIn 4) ++ [closing 0]) := by
  have hindented : parts.flatMap indented = unlines (parts.map (setIn 4)) := by
    rw [unlines, List.flatMap_map]
    rfl
  have hfeed : " \x7b\n".toList = " \x7b".toList ++ ['\n'] := rfl
  unfold frame
  rw [h.lines_join, join_concat, hindented, hfeed, unlines_cons]
  unfold opening closing
  simp only [spaces, Nat.mul_zero, List.replicate_zero, List.nil_append, List.append_assoc,
    List.singleton_append]

theorem forall_mem_framed {P : Text → Prop} :
    (∀ part ∈ opening 0 command :: parts.map (setIn 4) ++ [closing 0], P part) ↔
      P (opening 0 command) ∧ (∀ line ∈ parts, P (setIn 4 line)) ∧ P (closing 0) := by
  rw [List.forall_mem_append, List.forall_mem_cons, List.forall_mem_map,
    List.forall_mem_singleton, and_assoc]

theorem rejoins_framed (h : Rejoins parts) (hcommand : '\n' ∉ command) :
    Rejoins (opening 0 command :: parts.map (setIn 4) ++ [closing 0]) := by
  have hopening : '\n' ∉ opening 0 command := by
    simpa [opening, spaces] using hcommand
  have hbrace : opening 0 command = "Command: ".toList ++ command ++ [' '] ++ ['\x7b'] := by
    simp [opening, spaces]
  constructor
  · rw [forall_mem_framed]
    refine ⟨hopening, fun line hline ↦ ?_, by decide⟩
    exact feed_notMem_setIn (h.single line hline)
  · rw [forall_mem_framed, hbrace, List.getLast?_concat]
    refine ⟨by decide, fun line hline ↦ ?_, by decide⟩
    rw [getLast?_setIn]
    exact h.bare line hline
  · intro part hpart
    rw [List.getLast?_concat] at hpart
    cases hpart
    simp [closing]

/-- The message in all its frames, line by line. -/
theorem message_framed (h : Rejoins parts) (hnames : ∀ name ∈ names, '\n' ∉ name) :
    names.foldr frame (join ['\n'] parts) = join ['\n'] (framedLines names parts) ∧
      Rejoins (framedLines names parts) := by
  induction names with
  | nil => exact ⟨by rw [framedLines_nil, List.foldr_nil], by rwa [framedLines_nil]⟩
  | cons name names ih =>
    obtain ⟨hname, hnames⟩ := List.forall_mem_cons.1 hnames
    obtain ⟨hmessage, hrejoins⟩ := ih hnames
    rw [List.foldr_cons, hmessage, frame_join hrejoins, framedLines_cons]
    exact ⟨rfl, rejoins_framed hrejoins hname⟩

end BindError

namespace Misfit

theorem exists_message (m : Misfit) :
    ∃ c s, m.message = c :: s ∧ isBlank c = false ∧ c ≠ 'C' := by
  cases m
  all_goals exact ⟨_, _, rfl, by decide +kernel, by decide⟩

theorem isFirm_message (m : Misfit) : isFirm m.message := by
  have hty (ty : Ty) : isFirm ty.text := by cases ty <;> decide +kernel
  have hnumber (n : Nat) : isFirm (Number.naturalText n) :=
    (Token.solid_of_isSymbol (Number.isSymbol_naturalText n)).isFirm
  cases m with
  | missingKwargValue key ty => exact isFirm_append _ (hty ty)
  | coercion literal ty => exact isFirm_append _ (hty ty)
  | tooManyArguments expected got => exact isFirm_append _ (hnumber got)
  | tooFewArguments expected got => exact isFirm_append _ (hnumber got)
  | unknownCommand | invalidFlag | invalidKwarg | duplicateKwarg | missingKwarg
  | unexpectedNode | subcommandRequired | noHandler =>
    exact isFirm_append _ (by decide +kernel)

end Misfit

namespace BindError

def opens (line : Text) : Bool :=
  "Command: ".toList.isPrefixOf (trimStart line)

/-- The message inside all frames: what stands between the lines that open and close them, moved
back to the margin. -/
def unframed (message : Text) : Text :=
  let all := pieces '\n' message
  let depth := (all.takeWhile opens).length
  join ['\n'] (((all.drop depth).take (all.length - 2 * depth)).map (List.drop (4 * depth)))

theorem opens_opening (depth : Nat) (command : Text) : opens (opening depth command) := by
  have hlabel (s : Text) : trimStart ("Command: ".toList ++ s) = "Command: ".toList ++ s := by
    rfl
  rw [opens, opening, List.append_assoc, List.append_assoc, trimStart_spaces_append, hlabel]
  exact List.isPrefixOf_iff_prefix.2 (List.prefix_append _ _)

theorem opens_setIn (n : Nat) (line : Text) : opens (setIn n line) = opens line := by
  rw [opens, opens, setIn]
  split
  · rename_i h
    rw [List.isEmpty_iff.1 h]
  · rw [trimStart_spaces_append]

theorem unframed_framed (hnames : ∀ name ∈ names, '\n' ∉ name) (h : Rejoins parts)
    (hne : parts ≠ []) (hfirst : ∀ line ∈ parts.head?, opens line = false) :
    unframed (join ['\n'] (framedLines names parts)) = join ['\n'] parts := by
  obtain ⟨first, more, rfl⟩ := List.exists_cons_of_ne_nil hne
  have hfirst := hfirst first rfl
  have hlines : framedLines names (first :: more) ≠ [] := by
    simp [framedLines]
  have hopening : ∀ line ∈ names.mapIdx opening, opens line := by
    intro line hline
    obtain ⟨i, hi, rfl⟩ := List.mem_mapIdx.1 hline
    exact opens_opening i _
  -- The opening lines are in front, and the message itself starts with another line.
  have hdepth : ((framedLines names (first :: more)).takeWhile opens).length = names.length := by
    rw [framedLines, List.append_assoc, List.takeWhile_append_of_pos hopening, List.map_cons,
      List.cons_append, List.takeWhile_cons_of_neg (by simp [opens_setIn, hfirst]),
      List.append_nil, List.length_mapIdx]
  have hlength : (framedLines names (first :: more)).length - 2 * names.length =
      ((first :: more).map (setIn (4 * names.length))).length := by
    simp only [framedLines, List.length_append, List.length_mapIdx, List.length_map,
      List.length_reverse, List.length_range]
    omega
  have hdrop : (framedLines names (first :: more)).drop names.length =
      (first :: more).map (setIn (4 * names.length)) ++
        (List.range names.length).reverse.map closing := by
    have hmapIdx : (names.mapIdx opening).length = names.length := List.length_mapIdx
    rw [framedLines, List.append_assoc, List.drop_left' hmapIdx]
  have hback : (List.drop (4 * names.length)) ∘ setIn (4 * names.length) = id :=
    funext fun line ↦ drop_setIn _ line
  simp only [unframed, pieces_join (message_framed h hnames).2.single hlines, hdepth, hlength,
    hdrop, List.take_left, List.map_map, hback, List.map_id]

theorem foldr_nest (names : List Text) (e : BindError) :
    names.foldr nest e = ⟨names ++ e.frames, e.innermost⟩ := by
  induction names with
  | nil => rfl
  | cons name names ih => rw [List.foldr_cons, ih, nest, List.cons_append]

end BindError

theorem Misfit.not_opens (m : Misfit) :
    ∀ line ∈ (pieces '\n' m.message).head?, BindError.opens line = false := by
  obtain ⟨c, s, hmessage, hblank, hc⟩ := m.exists_message
  have hfeed : c ≠ '\n' := by
    rintro rfl
    cases hblank
  intro line hline
  rw [hmessage, pieces_cons_of_ne hfeed, List.head?_modifyHead] at hline
  obtain ⟨rest, -, rfl⟩ := Option.map_eq_some_iff.1 hline
  have htrim : trimStart (c :: rest) = c :: rest :=
    List.dropWhile_cons_of_neg (by simp [hblank])
  have hlabel : "Command: ".toList = 'C' :: "ommand: ".toList := rfl
  have hhead : ('C' == c) = false := by simpa using hc.symm
  rw [BindError.opens, htrim, hlabel, List.isPrefixOf_cons_cons, hhead, Bool.false_and]

namespace BindError

/-- The lines of a message in nested frames are the opening lines of all the frames, those of the
message itself and the closing lines, each set in by its depth, and the message can be read off. -/
theorem message_nested (hnames : ∀ name ∈ names, Token.isName name)
    (h : ∀ line ∈ pieces '\n' m.message, line.getLast? ≠ some '\r') :
    let e := names.foldr nest (m : BindError)
    e.message = join ['\n'] (framedLines names (pieces '\n' m.message)) ∧ e.innermost = m ∧
      unframed e.message = m.message := by
  have hsingle : ∀ name ∈ names, '\n' ∉ name := fun name hname ↦
    Token.feed_notMem_of_isName (hnames name hname)
  have hrejoins := rejoins_pieces m.isFirm_message h
  have hmessage : (names.foldr nest (m : BindError)).message =
      join ['\n'] (framedLines names (pieces '\n' m.message)) := by
    rw [foldr_nest, message, List.append_nil]
    nth_rewrite 1 [← join_pieces '\n' m.message]
    exact (message_framed hrejoins hsingle).1
  refine ⟨hmessage, by rw [foldr_nest], ?_⟩
  rw [hmessage, unframed_framed hsingle hrejoins (pieces_ne_nil _ _) m.not_opens, join_pieces]

/-- A misfit whose literal goes over several lines, of which one is empty and one looks like a
frame. -/
def sprawling : Misfit :=
  .coercion "1\n\n  Command: x \x7b\n\x7d".toList .integer

theorem message_nested_sprawling :
    (∀ name ∈ ["quote".toList, "add".toList], Token.isName name) ∧
      (∀ line ∈ pieces '\n' sprawling.message, line.getLast? ≠ some '\r') ∧
      (["quote".toList, "add".toList].foldr nest (sprawling : BindError)).message =
        join ['\n'] ["Command: quote \x7b".toList, "    Command: add \x7b".toList,
          "        \x601".toList, [], "          Command: x \x7b".toList,
          "        \x7d\x60 can not be converted to type integer".toList,
          "    \x7d".toList, "\x7d".toList] ∧
      unframed (["quote".toList, "add".toList].foldr nest (sprawling : BindError)).message =
        sprawling.message := by
  have hnames : ∀ name ∈ ["quote".toList, "add".toList], Token.isName name := by
    simp only [List.forall_mem_cons, List.not_mem_nil, false_imp_iff, implies_true, and_true]
    decide +kernel
  have hreturn : ∀ line ∈ pieces '\n' sprawling.message, line.getLast? ≠ some '\r' := by
    decide +kernel
  obtain ⟨hmessage, -, hback⟩ := message_nested hnames hreturn
  refine ⟨hnames, hreturn, hmessage.trans ?_, hback⟩
  decide +kernel

end BindError

end ChatCommand
