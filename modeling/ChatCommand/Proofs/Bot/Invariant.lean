import ChatCommand.Proofs.Bot.Keep
import ChatCommand.Proofs.Bot.Order

namespace ChatCommand

open Text

theorem Quote.valid_of_ofBlock {block : Text} {q : Quote} (h : ofBlock block = .ok q) :
    q.Valid := by
  simp only [ofBlock] at h
  split at h
  · rename_i hcheck
    cases h
    exact check_eq_ok_iff.1 hcheck
  · cases h

namespace Bot

theorem map_ofBlock {blocks : List Text} {quotes : List Quote}
    (h : ofBlocks blocks = .ok quotes) : blocks.map Quote.ofBlock = quotes.map .ok := by
  induction blocks generalizing quotes with
  | nil =>
    cases h
    rfl
  | cons block blocks ih =>
    rw [ofBlocks] at h
    split at h
    · cases h
    · rename_i q hq
      rcases hrest : ofBlocks blocks with e | more
      · rw [hrest] at h
        cases h
      · rw [hrest] at h
        cases h
        rw [List.map_cons, List.map_cons, hq, ih hrest]

theorem exists_block_of_mem {blocks : List Text} {quotes : List Quote} {q : Quote}
    (h : ofBlocks blocks = .ok quotes) (hq : q ∈ quotes) :
    ∃ block, Quote.ofBlock block = .ok q := by
  have hmem : Except.ok q ∈ blocks.map Quote.ofBlock := map_ofBlock h ▸ List.mem_map_of_mem hq
  obtain ⟨block, -, hblock⟩ := List.mem_map.1 hmem
  exact ⟨block, hblock⟩

/-- A property that the bot keeps whatever becomes of a request, and whatever is drawn. All that is
said on the channel comes down to these. -/
structure Invariant (P : Bot → Prop) : Prop where
  keep : ∀ {bot : Bot} {quote : Quote}, P bot → quote.Valid → P (bot.keep quote).2
  remove : ∀ {bot : Bot} (id : Int64), P bot → P (bot.remove id).2
  draws : ∀ {bot : Bot} (draws : Nat → Nat), P bot → P { bot with draws }

namespace Invariant

variable {P : Bot → Prop} {bot : Bot}

theorem keepAll (hP : Invariant P) {quotes : List Quote} (hq : ∀ q ∈ quotes, q.Valid)
    (h : P bot) : P (bot.keepAll quotes).2 := by
  induction quotes generalizing bot with
  | nil => exact h
  | cons quote quotes ih =>
    obtain ⟨hfirst, hrest⟩ := List.forall_mem_cons.1 hq
    rw [keepAll_cons]
    exact ih hrest (hP.keep h hfirst)

theorem obey (hP : Invariant P) (order : Order) (h : P bot) : P (bot.obey order).2 := by
  cases order with
  | add speaker text audience =>
    rw [Bot.obey, add]
    split
    · exact h
    · rename_i hcheck
      exact hP.keep h (Quote.check_eq_ok_iff.1 hcheck)
  | remove id => exact hP.remove id h
  | list showIds => exact h
  | random =>
    obtain ⟨draws, hdraws⟩ := exists_draws_random bot
    rw [Bot.obey, hdraws]
    exact hP.draws draws h

theorem respond (hP : Invariant P) (u : Utterance) (h : P bot) : P (bot.respond u).2 := by
  cases u with
  | command line =>
    rcases horder : Order.ofLine line with _ | order
    · obtain ⟨reply, hreply⟩ := respond_of_no_order horder
      rw [hreply]
      exact h
    · rw [respond_of_order horder]
      exact hP.obey order h
  | prose text =>
    rw [Bot.respond, keepProse]
    rcases hblocks : ofBlocks (Quote.blocks text) with e | quotes
    · exact h
    · refine hP.keepAll (fun q hq ↦ ?_) h
      obtain ⟨block, hblock⟩ := exists_block_of_mem hblocks hq
      exact Quote.valid_of_ofBlock hblock

theorem respondAll (hP : Invariant P) (us : List Utterance) (h : P bot) :
    P (bot.respondAll us).2 := by
  induction us generalizing bot with
  | nil => exact h
  | cons u us ih => exact ih (hP.respond u h)

theorem respondLast (hP : Invariant P) (u : Option Utterance) (h : P bot) :
    P (bot.respondLast u).2 := by
  cases u with
  | none => exact h
  | some u => exact hP.respond u h

theorem hear (hP : Invariant P) (marker : Text) (lines : List Text) (h : P bot) :
    P (bot.hear marker lines).2 :=
  hP.respondLast _ (hP.respondAll _ h)

end Invariant

end Bot

end ChatCommand
