import ChatCommand.Proofs.Bot.Invariant

namespace ChatCommand.Bot

open Text

variable {bot : Bot} {quote : Quote}

/-- All stored quotes are valid, and no two of them are equal. -/
structure Sound (bot : Bot) : Prop where
  valid : ∀ q ∈ bot.stored, q.Valid
  distinct : bot.stored.Nodup

theorem Sound.of_sublist {after : Bot} (h : bot.Sound) (hs : after.stored.Sublist bot.stored) :
    after.Sound :=
  ⟨fun q hq ↦ h.valid q (hs.subset hq), hs.nodup h.distinct⟩

theorem Sound.keep (h : bot.Sound) (hq : quote.Valid) : (bot.keep quote).2.Sound := by
  rcases stored_keep bot quote with hsame | ⟨hnew, hmore⟩
  · exact h.of_sublist (hsame ▸ List.Sublist.refl _)
  · constructor
    · rw [hmore, List.forall_mem_append]
      exact ⟨h.valid, List.forall_mem_singleton.2 hq⟩
    · rw [hmore, List.nodup_append']
      exact ⟨h.distinct, List.nodup_singleton _, List.disjoint_singleton.2 hnew⟩

theorem invariant_sound : Invariant Sound where
  keep := Sound.keep
  remove id h := h.of_sublist (stored_remove _ id)
  draws _ h := h.of_sublist (List.Sublist.refl _)

/-- Whatever is said on the channel, and whether or not it can be saved, all quotes stay valid and
different, after every line and at the end. -/
theorem sound_of_lines (h : bot.Sound) (marker prose : Text) (lines : List Text) :
    (bot.respondAll (Utterance.ofLines marker prose lines).1).2.Sound ∧
      (bot.hear marker lines).2.Sound :=
  ⟨invariant_sound.respondAll _ h, invariant_sound.hear marker lines h⟩

def cramped : Bot where
  quotes := .archive ⟨"q.json".toList, .ofList [(7, ⟨"Ola".toList, [], "hei".toList⟩)]⟩
  disk := ⟨.empty, [some ⟨.noSpace, none⟩]⟩
  draws _ := 0

def chatter : List Text :=
  ["!quote add Kari 'det går bra' --audience 'Ola og Per'", "!quote add Kari ''", "Ola", "  hei",
    "", "Kari til Ola, og Per", "det går bra", " ", "Per til", "!quote remove 7", "ja"].map
      String.toList

theorem sound_of_lines_cramped :
    cramped.Sound ∧ (cramped.hear ['!'] chatter).2.stored =
      [⟨"Kari".toList, ["Ola".toList, "Per".toList], "det går bra".toList⟩,
        ⟨"Per til".toList, [], "ja".toList⟩] ∧
      (cramped.hear ['!'] chatter).2.Sound := by
  have hsound : cramped.Sound :=
    ⟨List.forall_mem_singleton.2 ⟨by decide, by decide, by decide⟩, List.nodup_singleton _⟩
  exact ⟨hsound, by decide +kernel, (sound_of_lines hsound ['!'] [] chatter).2⟩

end ChatCommand.Bot
