import ChatCommand.Proofs.Bot.Invariant
import ChatCommand.Proofs.Store.Freshness

namespace ChatCommand

open Text

namespace Store

variable {V : Type} [Json.Format V] {s : Store V} {d : Disk} {key : UInt64} {v : V}

/-- Whatever is put on the shelf can be saved. -/
def CanSave (s : Store V) (d : Disk) : Prop :=
  ∀ a, s = .archive a → ∀ shelf : Shelf V, (Archive.save { a with shelf } d).1 = .ok ()

theorem commit_of_save {α : Type} {a : Archive V} (h : (a.save d).1 = .ok ()) (x : α) :
    (a.commit d x).1 = .ok x := by
  rcases commit_cases a d x with ⟨d', -, hcommit⟩ | ⟨fault, d', hsave, -⟩
  · rw [hcommit]
  · rw [hsave] at h
    cases h

theorem CanSave.add (h : s.CanSave d) (v : V) :
    (s.add d v).1 = s.shelf.nextKey.mapError .keysExhausted := by
  rcases hnext : s.shelf.nextKey with last | key
  · rw [add_of_error hnext]
    rfl
  · cases s with
    | memory shelf =>
      have hadd : shelf.add v = .ok (key, shelf.insert key v) := by
        rw [Shelf.add, show shelf.nextKey = _ from hnext]
        rfl
      simp only [Store.add, hadd]
      rfl
    | archive a =>
      have hadd : a.shelf.add v = .ok (key, a.shelf.insert key v) := by
        rw [Shelf.add, show a.shelf.nextKey = _ from hnext]
        rfl
      simp only [Store.add, Archive.add, hadd]
      exact commit_of_save (h a rfl _) key

theorem CanSave.delete (h : s.CanSave d) (key : UInt64) :
    (s.delete d key).1 = .ok (s.shelf.get? key) := by
  cases s with
  | memory shelf => rfl
  | archive a =>
    rcases hget : a.shelf.get? key with _ | old
    · simp only [Store.delete, Archive.delete, Shelf.delete, hget, shelf]
    · simp only [Store.delete, Archive.delete, Shelf.delete, hget, shelf]
      exact commit_of_save (h a rfl _) (some old)

theorem delete_of_absent (h : s.shelf.get? key = none) (d : Disk) :
    s.delete d key = (.ok none, s, d) := by
  cases s with
  | memory shelf =>
    have hget : shelf.get? key = none := h
    simp only [delete, Shelf.delete, hget, SortedMap.erase_of_get?_eq_none hget]
  | archive a =>
    have hget : a.shelf.get? key = none := h
    simp only [delete, Archive.delete, Shelf.delete, hget]

end Store

namespace Bot

variable {bot : Bot} {quote : Quote} {line : Text} {e : BotError} {id : Int64}

theorem keep_of_error (hsave : bot.quotes.CanSave bot.disk) (h : (bot.keep quote).1 = .error e) :
    (bot.keep quote).2 = bot := by
  by_cases hmem : quote ∈ bot.stored
  · rw [keep_of_mem hmem]
  · rw [keep_of_notMem hmem] at h ⊢
    rcases hnext : bot.quotes.shelf.nextKey with last | key
    · rw [Store.add_of_error hnext]
      rfl
    · rw [hsave.add, hnext] at h
      cases h

theorem remove_of_error (hsave : bot.quotes.CanSave bot.disk) (h : (bot.remove id).1 = .error e) :
    (bot.remove id).2 = bot := by
  by_cases hneg : id.toInt < 0
  · rw [remove_of_neg hneg]
  · rw [remove_of_nonneg (by omega)] at h ⊢
    rcases hget : bot.quotes.shelf.get? id.toUInt64 with _ | old
    · rw [Store.delete_of_absent hget]
      rfl
    · rw [hsave.delete, hget] at h
      cases h

theorem obey_of_error {order : Order} (hsave : bot.quotes.CanSave bot.disk)
    (h : (bot.obey order).1 = .error e) : (bot.obey order).2 = bot := by
  cases order with
  | add speaker text audience =>
    rw [obey, add] at h ⊢
    split at h
    · rfl
    · exact keep_of_error hsave h
  | remove id => exact remove_of_error hsave h
  | list showIds => cases h
  | random => cases h

theorem dispatch_of_interruption {e : Interruption} (hsave : bot.quotes.CanSave bot.disk)
    (h : (registry.dispatch line bot).1 = .error e) : (registry.dispatch line bot).2 = bot := by
  rcases horder : Order.ofLine line with _ | order
  · obtain ⟨e, he⟩ := dispatch_of_no_order horder
    rw [he]
  · rw [dispatch_of_order horder] at h ⊢
    obtain ⟨e, he, -⟩ := mapError_eq_error_iff.1 h
    exact obey_of_error hsave he

theorem dispatch_of_other
    (h : ∀ b, registry.resolve line = .ok b → b.command ≠ addCommand ∧ b.command ≠ removeCommand)
    (bot : Bot) : ∃ draws, (registry.dispatch line bot).2 = { bot with draws } := by
  rcases horder : Order.ofLine line with _ | order
  · obtain ⟨e, he⟩ := dispatch_of_no_order horder
    exact ⟨bot.draws, by rw [he]⟩
  · obtain ⟨b, hb, hbound⟩ := Option.bind_eq_some_iff.1 horder
    rcases hresolve : registry.resolve line with e | b'
    · rw [hresolve] at hb
      cases hb
    · rw [hresolve] at hb
      cases hb
      obtain ⟨hadd, hremove⟩ := h b hresolve
      obtain ⟨hmem, -⟩ := resolve_cases hresolve
      obtain ⟨command, arguments⟩ := b
      rw [dispatch_of_order horder]
      simp only [List.mem_cons, quoteCommand, List.not_mem_nil, or_false] at hmem
      rcases hmem with rfl | rfl | rfl | rfl | rfl
      · cases hbound
      · exact absurd rfl hadd
      · exact absurd rfl hremove
      · cases hbound
        exact ⟨bot.draws, rfl⟩
      · cases hbound
        exact exists_draws_random bot

/-- As long as nothing fails to be saved, an error leaves the bot as it is, be it the answer to a
line or to prose or what is said of one block. What is more than a draw is done by `quote add` and
`quote remove` alone, and only where they do what they are asked. -/
theorem error_untouched (hsave : bot.quotes.CanSave bot.disk) (line prose : Text) :
    (∀ e after, registry.dispatch line bot = (.error e, after) → after = bot) ∧
    (∀ e after, bot.keepProse prose = (.error e, after) → after = bot) ∧
    (∀ quote e after, bot.keep quote = (.error e, after) → after = bot) ∧
    ∀ reply after, registry.dispatch line bot = (reply, after) →
      (∃ draws, after = { bot with draws }) ∨
        (∃ text, reply = .ok text) ∧ ∃ b, registry.resolve line = .ok b ∧
          (b.command = addCommand ∨ b.command = removeCommand) := by
  refine ⟨fun e after h ↦ ?_, fun e after h ↦ ?_, fun quote e after h ↦ ?_, fun reply after h ↦ ?_⟩
  · have hsame := dispatch_of_interruption (e := e) hsave (congrArg Prod.fst h)
    rwa [h] at hsame
  · rw [keepProse] at h
    split at h
    · exact (congrArg Prod.snd h).symm
    · cases h
  · have hsame := keep_of_error (e := e) hsave (congrArg Prod.fst h)
    rwa [h] at hsame
  · by_cases hchanges : ∃ b, registry.resolve line = .ok b ∧
        (b.command = addCommand ∨ b.command = removeCommand)
    · rcases reply with e | text
      · have hsame := dispatch_of_interruption (e := e) hsave (congrArg Prod.fst h)
        rw [h] at hsame
        exact .inl ⟨bot.draws, hsame⟩
      · exact .inr ⟨⟨text, rfl⟩, hchanges⟩
    · have hother (b : Bound Bot) (hb : registry.resolve line = .ok b) :
          b.command ≠ addCommand ∧ b.command ≠ removeCommand :=
        not_or.1 fun hcommand ↦ hchanges ⟨b, hb, hcommand⟩
      obtain ⟨draws, hdraws⟩ := dispatch_of_other hother bot
      rw [h] at hdraws
      exact .inl ⟨draws, hdraws⟩

def brimming : Bot where
  quotes := .archive ⟨"q.json".toList,
    .ofList [(Shelf.greatestKey, ⟨"Ola".toList, [], "hei".toList⟩)]⟩
  disk := .empty
  draws _ := 0

theorem canSave_brimming : brimming.quotes.CanSave brimming.disk := by
  intro a ha shelf
  cases ha
  have hdraft : Archive.draftPath "q.json".toList = "q.json.tmp".toList := by decide +kernel
  have hparent : Path.parent "q.json.tmp".toList = [] := by decide +kernel
  simp only [Archive.save, hdraft, hparent]
  rfl

theorem error_untouched_brimming :
    brimming.quotes.CanSave brimming.disk ∧
      registry.dispatch "quote add Per ja".toList brimming =
        (.error (.run "no free key left after `18446744073709551615`".toList), brimming) ∧
      brimming.keepProse "Per\nja\n\nKari".toList =
        (.error (.invalidBlock "Kari".toList .noText), brimming) ∧
      ∃ draws, (registry.dispatch "quote list -v".toList brimming).2 = { brimming with draws } := by
  obtain ⟨hline, hprose, -, -⟩ :=
    error_untouched canSave_brimming "quote add Per ja".toList "Per\nja\n\nKari".toList
  obtain ⟨-, -, -, hlist⟩ := error_untouched canSave_brimming "quote list -v".toList []
  have hfull : (registry.dispatch "quote add Per ja".toList brimming).1 =
      .error (.run "no free key left after `18446744073709551615`".toList) := by
    decide +kernel
  have hunread : (brimming.keepProse "Per\nja\n\nKari".toList).1 =
      .error (.invalidBlock "Kari".toList .noText) := by
    decide +kernel
  refine ⟨canSave_brimming, Prod.ext hfull (hline _ _ (Prod.ext hfull rfl)),
    Prod.ext hunread (hprose _ _ (Prod.ext hunread rfl)), ?_⟩
  rcases hlist _ _ rfl with hsame | ⟨-, b, hb, hcommand⟩
  · exact hsame
  · have hname : (registry.resolve "quote list -v".toList).toOption.map (·.command.name) =
        some listCommand.name := by
      decide +kernel
    rw [hb] at hname
    have hlisted : b.command.name = listCommand.name := Option.some.inj hname
    rcases hcommand with hadd | hremove
    · rw [hadd] at hlisted
      exact absurd hlisted (by decide +kernel)
    · rw [hremove] at hlisted
      exact absurd hlisted (by decide +kernel)

end Bot

end ChatCommand
