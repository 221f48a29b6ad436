import ChatCommand.Proofs.Bot.Heard

namespace ChatCommand

open Text

namespace Quote

variable {run acc rest : List Text} {blank : Text}

theorem gatherBlocks_append_of_forall (h : ∀ line ∈ run, trim line ≠ []) :
    gatherBlocks acc (run ++ rest) = gatherBlocks (acc ++ run) rest := by
  induction run generalizing acc with
  | nil => simp
  | cons line run ih =>
    obtain ⟨hline, hrun⟩ := List.forall_mem_cons.1 h
    have hstep : gatherBlocks acc (line :: (run ++ rest)) =
        gatherBlocks (acc ++ [line]) (run ++ rest) := by
      cases acc <;> rw [gatherBlocks, if_neg hline]
    rw [List.cons_append, hstep, ih hrun, List.append_assoc]
    rfl

theorem gatherBlocks_of_ne_nil (h : acc ≠ []) : gatherBlocks acc [] = [join ['\n'] acc] := by
  obtain ⟨line, acc, rfl⟩ := List.exists_cons_of_ne_nil h
  rfl

theorem gatherBlocks_blank (h : acc ≠ []) (hblank : trim blank = []) :
    gatherBlocks acc (blank :: rest) = join ['\n'] acc :: gatherBlocks [] rest := by
  obtain ⟨line, acc, rfl⟩ := List.exists_cons_of_ne_nil h
  rw [gatherBlocks, if_pos hblank]

end Quote

namespace Utterance

/-- What the open prose is made of: blank lines, and behind them the lines of one block. -/
structure Gathers (prose : Text) (blanks run : List Text) : Prop where
  ended : Ended prose
  lines_eq : lines prose = blanks ++ run
  blank : ∀ line ∈ blanks, trim line = []
  firm : ∀ line ∈ run, trim line ≠ []

namespace Gathers

variable {prose line rest : Text} {blanks run : List Text}

theorem start : Gathers [] [] [] :=
  ⟨.nil, rfl, List.forall_mem_nil _, List.forall_mem_nil _⟩

theorem trim_eq_nil_iff (h : Gathers prose blanks run) : trim prose = [] ↔ run = [] := by
  rw [trim_eq_nil_iff_lines, h.lines_eq]
  constructor
  · intro hall
    refine List.eq_nil_iff_forall_not_mem.2 fun line hline ↦ h.firm line hline ?_
    exact hall line (List.mem_append_right _ hline)
  · rintro rfl
    rw [List.append_nil]
    exact h.blank

theorem blocks_append (h : Gathers prose blanks run) (t : Text) :
    Quote.blocks (prose ++ t) = Quote.gatherBlocks run (lines t) := by
  rw [Quote.blocks, h.ended.lines_append, h.lines_eq, List.append_assoc,
    Quote.gatherBlocks_append_blank h.blank, Quote.gatherBlocks_append_of_forall h.firm,
    List.nil_append]

theorem blocks (h : Gathers prose blanks run) :
    Quote.blocks prose = if run = [] then [] else [join ['\n'] run] := by
  have hall := h.blocks_append []
  rw [List.append_nil] at hall
  rw [hall]
  split
  · rename_i hrun
    subst hrun
    rfl
  · rename_i hrun
    exact Quote.gatherBlocks_of_ne_nil hrun

theorem single (h : Gathers prose blanks run) (hrun : run ≠ []) :
    Quote.blocks prose = [join ['\n'] run] := by
  rw [h.blocks, if_neg hrun]

theorem blocks_cut (h : Gathers prose blanks run) (hrun : run ≠ []) (hline : '\n' ∉ line)
    (hblank : trim line = []) :
    Quote.blocks (prose ++ (line ++ '\n' :: rest)) = Quote.blocks prose ++ Quote.blocks rest := by
  obtain ⟨body, hbody, -⟩ := exists_lines_feed hline
  have hempty : trim body = [] := (trim_of_lines_feed hbody).1 hblank
  rw [h.blocks_append, lines_append_feed, hbody, List.singleton_append,
    Quote.gatherBlocks_blank hrun hempty, h.blocks, if_neg hrun]
  rfl

theorem next (h : Gathers prose blanks run) (hline : '\n' ∉ line)
    (hopen : trim line ≠ [] ∨ trim prose = []) :
    ∃ blanks run, Gathers (prose ++ line ++ ['\n']) blanks run := by
  obtain ⟨body, hbody, -⟩ := exists_lines_feed hline
  have hlines : lines (prose ++ line ++ ['\n']) = blanks ++ run ++ [body] := by
    rw [List.append_assoc, h.ended.lines_append, h.lines_eq, hbody]
  by_cases hblank : trim line = []
  · obtain rfl := h.trim_eq_nil_iff.1 (hopen.resolve_left (not_not_intro hblank))
    refine ⟨blanks ++ [body], [], .feed _, ?_, ?_, List.forall_mem_nil _⟩
    · rw [hlines, List.append_nil, List.append_nil]
    · rw [List.forall_mem_append]
      exact ⟨h.blank, List.forall_mem_singleton.2 ((trim_of_lines_feed hbody).1 hblank)⟩
  · refine ⟨blanks, run ++ [body], .feed _, ?_, h.blank, ?_⟩
    · rw [hlines, List.append_assoc]
    · rw [List.forall_mem_append]
      exact ⟨h.firm, List.forall_mem_singleton.2 (mt (trim_of_lines_feed hbody).2 hblank)⟩

end Gathers

/-- The text of the lines that are no commands. -/
def proseText (marker : Text) (lines : List Text) : Text :=
  (lines.filter fun line ↦ (dropPrefix? marker (trim line)).isNone).flatMap (· ++ ['\n'])

def blocks : Utterance → List Text
  | .command _ => []
  | .prose text => Quote.blocks text

section Heard

variable {marker prose line : Text} {lines blanks run : List Text}

theorem proseText_cons_of_command {text : Text} (h : dropPrefix? marker (trim line) = some text) :
    proseText marker (line :: lines) = proseText marker lines := by
  rw [proseText, List.filter_cons_of_neg (by simp [h]), ← proseText]

theorem proseText_cons_of_prose (h : dropPrefix? marker (trim line) = none) :
    proseText marker (line :: lines) = line ++ '\n' :: proseText marker lines := by
  rw [proseText, List.filter_cons_of_pos (by simp [h]), List.flatMap_cons, ← proseText,
    List.append_assoc]
  rfl

theorem ofLine_cases (marker : Text) (h : Gathers prose blanks run) (hline : '\n' ∉ line) :
    (∃ text, dropPrefix? marker (trim line) = some text ∧
      ofLine marker prose line = (some (.command text), prose)) ∨
    dropPrefix? marker (trim line) = none ∧
      (trim line = [] ∧ run ≠ [] ∧ ofLine marker prose line = (some (.prose prose), []) ∨
        ofLine marker prose line = (none, prose ++ line ++ ['\n']) ∧
          ∃ blanks run, Gathers (prose ++ line ++ ['\n']) blanks run) := by
  rw [ofLine]
  rcases hcommand : dropPrefix? marker (trim line) with _ | text
  · refine .inr ⟨rfl, ?_⟩
    by_cases hcut : trim line = [] ∧ trim prose ≠ []
    · exact .inl ⟨hcut.1, mt h.trim_eq_nil_iff.2 hcut.2, if_pos hcut⟩
    · refine .inr ⟨if_neg hcut, h.next hline ?_⟩
      by_contra hnot
      rw [not_or] at hnot
      exact hcut ⟨not_not.1 hnot.1, hnot.2⟩
  · exact .inl ⟨text, rfl, rfl⟩

theorem heard_of_gathers (marker : Text) (h : Gathers prose blanks run)
    (hlines : ∀ line ∈ lines, '\n' ∉ line) :
    (∀ text, .prose text ∈ heard marker prose lines → ∃ block, Quote.blocks text = [block]) ∧
      (heard marker prose lines).flatMap blocks =
        Quote.blocks (prose ++ proseText marker lines) := by
  induction lines generalizing prose blanks run with
  | nil =>
    rw [heard_nil, ofEnd, proseText, List.filter_nil, List.flatMap_nil, List.append_nil]
    by_cases hrun : run = []
    · rw [if_pos (h.trim_eq_nil_iff.2 hrun), h.blocks, if_pos hrun]
      exact ⟨by simp, rfl⟩
    · rw [if_neg (mt h.trim_eq_nil_iff.1 hrun)]
      refine ⟨fun text htext ↦ ?_, List.append_nil _⟩
      cases List.mem_singleton.1 htext
      exact ⟨_, h.single hrun⟩
  | cons line lines ih =>
    obtain ⟨hline, hlines⟩ := List.forall_mem_cons.1 hlines
    rw [heard_cons]
    -- The open prose goes through commands, ends with its block, or takes the line in.
    rcases ofLine_cases marker h hline with
      ⟨text, hcommand, hstep⟩ | ⟨hprose, ⟨hblank, hrun, hstep⟩ | ⟨hstep, _, _, hnext⟩⟩
    · obtain ⟨hsingle, hall⟩ := ih h hlines
      rw [hstep, proseText_cons_of_command hcommand]
      refine ⟨fun text htext ↦ ?_, hall⟩
      exact hsingle text (by simpa using htext)
    · obtain ⟨hsingle, hall⟩ := ih .start hlines
      rw [hstep, proseText_cons_of_prose hprose, h.blocks_cut hrun hline hblank]
      refine ⟨fun text htext ↦ ?_, congrArg (Quote.blocks prose ++ ·) hall⟩
      rcases List.mem_cons.1 htext with heq | htext
      · cases heq
        exact ⟨_, h.single hrun⟩
      · exact hsingle text htext
    · obtain ⟨hsingle, hall⟩ := ih hnext hlines
      rw [hstep, proseText_cons_of_prose hprose]
      refine ⟨hsingle, hall.trans ?_⟩
      rw [List.append_assoc, List.append_assoc]
      rfl

end Heard

end Utterance

namespace Bot

open Utterance

/-- A bot that is told one thing after the other: each command is dispatched, each prose is kept,
and what comes of it is printed before the bot goes on. -/
inductive Hears : Bot → List Utterance → Text → Bot → Prop
  | nil (bot : Bot) : Hears bot [] [] bot
  | command {bot next last : Bot} {text output : Text} {us : List Utterance}
      {reply : Except Interruption Text} :
      registry.dispatch text bot = (reply, next) → Hears next us output last →
      Hears bot (.command text :: us) (printed (commandReply reply) ++ output) last
  | prose {bot next last : Bot} {text output : Text} {us : List Utterance}
      {reply : Except BotError Text} :
      bot.keepProse text = (reply, next) → Hears next us output last →
      Hears bot (.prose text :: us) (printed (proseReply reply) ++ output) last

theorem hears_respondAll (bot : Bot) (us : List Utterance) :
    Hears bot us (bot.respondAll us).1 (bot.respondAll us).2 := by
  induction us generalizing bot with
  | nil => exact .nil bot
  | cons u us ih =>
    rw [respondAll_cons]
    cases u with
    | command text => exact .command rfl (ih (registry.dispatch text bot).2)
    | prose text => exact .prose rfl (ih (bot.keepProse text).2)

/-- Whatever commands come between, each prose that the bot keeps while it hears the lines and
their end is one block, and together these are the blocks of all that is no command. -/
theorem hear_prose (bot : Bot) (marker : Text) {lines : List Text}
    (hlines : ∀ line ∈ lines, '\n' ∉ line) :
    bot.hear marker lines = bot.respondAll (heard marker [] lines) ∧
      Hears bot (heard marker [] lines) (bot.hear marker lines).1 (bot.hear marker lines).2 ∧
      (∀ text, .prose text ∈ heard marker [] lines → ∃ block, Quote.blocks text = [block]) ∧
      (heard marker [] lines).flatMap blocks = Quote.blocks (proseText marker lines) := by
  obtain ⟨hsingle, hall⟩ := heard_of_gathers marker .start hlines
  have hhear := hear_eq_respondAll bot marker lines
  refine ⟨hhear, ?_, hsingle, hall⟩
  rw [hhear]
  exact hears_respondAll bot _

def ignorant : Bot where
  quotes := .memory .empty
  disk := .empty
  draws := id

def mixed : Text :=
  "\n  \nOla til Per\r\n!quote list\n  hei\n\t\n\n !quote random\nPer\nja".toList

/-- What is told when the lines are heard. The first prose is complete behind a line with a tab,
the other one at the end. -/
def mixedTold : List Utterance :=
  [.command "quote list".toList, .prose "\n  \nOla til Per\n  hei\n".toList,
    .command "quote random".toList, .prose "\nPer\nja\n".toList]

def mixedPrinted : Text :=
  join ['\n'] (["no quotes yet", "added #1: \"hei\" - Ola til Per", "\"hei\" - Ola til Per",
    "added #2: \"ja\" - Per", ""].map String.toList)

theorem hear_prose_mixed :
    (∀ line ∈ mixed.lines, '\n' ∉ line) ∧
      ignorant.hear ['!'] mixed.lines = ignorant.respondAll mixedTold ∧
      Hears ignorant mixedTold mixedPrinted (ignorant.hear ['!'] mixed.lines).2 ∧
      (ignorant.hear ['!'] mixed.lines).1 = mixedPrinted ∧
      (ignorant.hear ['!'] mixed.lines).2.stored =
        [⟨"Ola".toList, ["Per".toList], "hei".toList⟩, ⟨"Per".toList, [], "ja".toList⟩] ∧
      (∃ block, Quote.blocks "\nPer\nja\n".toList = [block]) ∧
      mixedTold.flatMap blocks = Quote.blocks (proseText ['!'] mixed.lines) := by
  have hlines : ∀ line ∈ mixed.lines, '\n' ∉ line := fun _ ↦ feed_notMem_lines
  have htold : heard ['!'] [] mixed.lines = mixedTold := by decide +kernel
  obtain ⟨hhear, hhears, hsingle, hall⟩ := hear_prose ignorant ['!'] hlines
  rw [htold] at hhear hhears hsingle hall
  have houtput : (ignorant.hear ['!'] mixed.lines).1 = mixedPrinted := by decide +kernel
  rw [houtput] at hhears
  refine ⟨hlines, hhear, hhears, houtput, by decide +kernel, hsingle _ ?_, hall⟩
  simp [mixedTold]

end Bot

end ChatCommand
