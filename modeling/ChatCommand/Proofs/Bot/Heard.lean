import ChatCommand.Proofs.Bot.Prose

namespace ChatCommand

open Text

namespace Utterance

/-- What the bot makes of what it is told: the text of a command, or the blocks of prose. -/
def content : Utterance → Text ⊕ List Text
  | .command text => .inl text
  | .prose text => .inr (Quote.blocks text)

theorem content_eq_cases {u v : Utterance} (h : u.content = v.content) :
    u = v ∨ ∃ prose prose', u = .prose prose ∧ v = .prose prose' ∧
      Quote.blocks prose = Quote.blocks prose' := by
  cases u with
  | command text =>
    cases v with
    | command text' => exact .inl (congrArg Utterance.command (Sum.inl.inj h))
    | prose prose => cases h
  | prose prose =>
    cases v with
    | command text => cases h
    | prose prose' => exact .inr ⟨prose, prose', rfl, rfl, Sum.inr.inj h⟩

/-- What is told behind open prose, up to the end of the channel. -/
def heard (marker prose : Text) (lines : List Text) : List Utterance :=
  (ofLines marker prose lines).1 ++ (ofEnd (ofLines marker prose lines).2).toList

variable {marker prose blank : Text} {lines more : List Text}

theorem heard_nil (marker prose : Text) : heard marker prose [] = (ofEnd prose).toList :=
  rfl

theorem heard_cons (marker prose line : Text) (lines : List Text) :
    heard marker prose (line :: lines) =
      (ofLine marker prose line).1.toList ++ heard marker (ofLine marker prose line).2 lines :=
  List.append_assoc ..

theorem heard_append (marker prose : Text) (lines more : List Text) :
    heard marker prose (lines ++ more) =
      (ofLines marker prose lines).1 ++ heard marker (ofLines marker prose lines).2 more := by
  induction lines generalizing prose with
  | nil => rfl
  | cons line lines ih => rw [List.cons_append, heard_cons, ih, ofLines, List.append_assoc]

theorem trim_blank_append (hblank : trim blank = []) (prose : Text) :
    trim (blank ++ '\n' :: prose) = trim prose := by
  have hfeed : ∀ c ∈ ['\n'], isBlank c := List.forall_mem_singleton.2 rfl
  rw [trim_append_left (trim_eq_nil_iff.1 hblank)]
  exact trim_append_left hfeed

theorem content_prose_blank (hblank : trim blank = []) (prose : Text) :
    content (.prose (blank ++ '\n' :: prose)) = content (.prose prose) :=
  congrArg Sum.inr (Quote.blocks_append_blank hblank)

theorem ofEnd_blank (hblank : trim blank = []) (prose : Text) :
    (ofEnd (blank ++ '\n' :: prose)).map content = (ofEnd prose).map content := by
  rw [ofEnd, ofEnd, trim_blank_append hblank]
  split
  · rfl
  · exact congrArg some (content_prose_blank hblank prose)

theorem ofLine_blank (hblank : trim blank = []) (marker prose line : Text) :
    (ofLine marker (blank ++ '\n' :: prose) line).1.map content =
        (ofLine marker prose line).1.map content ∧
      ((ofLine marker (blank ++ '\n' :: prose) line).2 = (ofLine marker prose line).2 ∨
        (ofLine marker (blank ++ '\n' :: prose) line).2 =
          blank ++ '\n' :: (ofLine marker prose line).2) := by
  simp only [ofLine, trim_blank_append hblank]
  split
  · exact ⟨rfl, .inr rfl⟩
  · split
    · exact ⟨congrArg some (content_prose_blank hblank prose), .inl rfl⟩
    · refine ⟨rfl, .inr ?_⟩
      simp only [List.append_assoc, List.cons_append]

theorem content_heard_blank (hblank : trim blank = []) (prose : Text) (lines : List Text) :
    (heard marker (blank ++ '\n' :: prose) lines).map content =
      (heard marker prose lines).map content := by
  -- The blank lines go along with the open prose until an empty line takes both away.
  induction lines generalizing prose with
  | nil => rw [heard_nil, heard_nil, ← Option.toList_map, ← Option.toList_map, ofEnd_blank hblank]
  | cons line lines ih =>
    obtain ⟨hsame, hopen⟩ := ofLine_blank hblank marker prose line
    rw [heard_cons, heard_cons, List.map_append, List.map_append, ← Option.toList_map,
      ← Option.toList_map, hsame]
    rcases hopen with hopen | hopen
    · rw [hopen]
    · rw [hopen, ih]

theorem ofLine_empty (hmarker : marker ≠ []) (prose : Text) :
    ofLine marker prose [] =
      (ofEnd prose, if trim prose = [] then prose ++ ['\n'] else []) := by
  obtain ⟨c, rest, rfl⟩ := List.exists_cons_of_ne_nil hmarker
  have hblank : trim ([] : Text) = [] := rfl
  rw [ofLine, hblank, dropPrefix?, ofEnd]
  by_cases hprose : trim prose = []
  · simp [hprose]
  · simp [hprose]

theorem content_heard_cut (hmarker : marker ≠ []) (lines more : List Text) :
    (heard marker [] (lines ++ [] :: more)).map content =
      (heard marker [] lines ++ heard marker [] more).map content := by
  have hrest (prose : Text) :
      (heard marker (if trim prose = [] then prose ++ ['\n'] else []) more).map content =
        (heard marker [] more).map content := by
    split
    · rename_i hblank
      exact content_heard_blank hblank [] more
    · rfl
  have hlines : heard marker [] lines =
      (ofLines marker [] lines).1 ++ (ofEnd (ofLines marker [] lines).2).toList :=
    rfl
  rw [heard_append, heard_cons, ofLine_empty hmarker, hlines, List.append_assoc]
  simp only [List.map_append, hrest]

end Utterance

namespace Bot

theorem respond_congr {u v : Utterance} (h : u.content = v.content) (bot : Bot) :
    bot.respond u = bot.respond v := by
  rcases Utterance.content_eq_cases h with rfl | ⟨prose, prose', rfl, rfl, hblocks⟩
  · rfl
  · rw [respond, respond, keepProse, keepProse, hblocks]

theorem respondAll_cons (bot : Bot) (u : Utterance) (us : List Utterance) :
    bot.respondAll (u :: us) =
      (printed (bot.respond u).1 ++ ((bot.respond u).2.respondAll us).1,
        ((bot.respond u).2.respondAll us).2) :=
  rfl

theorem respondAll_congr {us vs : List Utterance}
    (h : us.map Utterance.content = vs.map Utterance.content) (bot : Bot) :
    bot.respondAll us = bot.respondAll vs := by
  induction us generalizing bot vs with
  | nil => rw [List.map_eq_nil_iff.1 h.symm]
  | cons u us ih =>
    cases vs with
    | nil => cases h
    | cons v vs =>
      obtain ⟨hfirst, hrest⟩ := List.cons.inj h
      rw [respondAll_cons, respondAll_cons, respond_congr hfirst, ih hrest]

theorem respondAll_append (bot : Bot) (us vs : List Utterance) :
    bot.respondAll (us ++ vs) =
      ((bot.respondAll us).1 ++ ((bot.respondAll us).2.respondAll vs).1,
        ((bot.respondAll us).2.respondAll vs).2) := by
  induction us generalizing bot with
  | nil => rfl
  | cons u us ih => rw [List.cons_append, respondAll_cons, respondAll_cons, ih, List.append_assoc]

/-- At the end of the channel nothing is cut off a reply, for it never ends in blanks. -/
theorem respondLast_eq_respondAll (bot : Bot) (prose : Text) :
    bot.respondLast (Utterance.ofEnd prose) = bot.respondAll (Utterance.ofEnd prose).toList := by
  rw [Utterance.ofEnd]
  split
  · rfl
  · rename_i hprose
    simp only [respondLast, Option.toList_some, respondAll, printed,
      trimEnd_of_isFirm (isFirm_respond_prose hprose), List.append_nil]

theorem hear_eq_respondAll (bot : Bot) (marker : Text) (lines : List Text) :
    bot.hear marker lines = bot.respondAll (Utterance.heard marker [] lines) := by
  rw [Utterance.heard, respondAll_append, ← respondLast_eq_respondAll]
  rfl

/-- An empty line between two lists of lines divides what is said on the channel. -/
theorem hear_cut {marker : Text} (hmarker : marker ≠ []) (bot : Bot) (lines more : List Text) :
    bot.hear marker (lines ++ [] :: more) =
      ((bot.hear marker lines).1 ++ ((bot.hear marker lines).2.hear marker more).1,
        ((bot.hear marker lines).2.hear marker more).2) := by
  simp only [hear_eq_respondAll]
  rw [respondAll_congr (Utterance.content_heard_cut hmarker lines more), respondAll_append]

end Bot

end ChatCommand
