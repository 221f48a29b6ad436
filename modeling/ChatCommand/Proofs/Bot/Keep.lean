import ChatCommand.Bot
import ChatCommand.Proofs.Except
import ChatCommand.Proofs.Store.Shelf

namespace ChatCommand

open Text

/-- Somebody has said something, and whoever it was said to has a name. -/
structure Quote.Valid (q : Quote) : Prop where
  speaker : q.speaker ≠ []
  text : q.text ≠ []
  audience : [] ∉ q.audience

theorem Quote.check_eq_ok_iff {q : Quote} : q.check = .ok () ↔ q.Valid := by
  simp only [check, guard_eq_ok, and_true]
  exact ⟨fun ⟨hs, ht, ha⟩ ↦ ⟨hs, ht, ha⟩, fun ⟨hs, ht, ha⟩ ↦ ⟨hs, ht, ha⟩⟩

namespace Bot

variable {bot : Bot} {quote : Quote} {id : Int64}

def after {α : Type} (bot : Bot) (r : α × Store Quote × Disk) : Bot :=
  { bot with quotes := r.2.1, disk := r.2.2 }

def addedText (quote : Quote) (id : UInt64) : Text :=
  "added #".toList ++ Number.uint64Text id ++ ": ".toList ++ quote.display

def deletedText (id : Int64) (quote : Quote) : Text :=
  "deleted #".toList ++ Number.int64Text id ++ ": ".toList ++ quote.display

def deletion (id : Int64) : Except StoreError (Option Quote) → Except BotError Text
  | .error e => .error (.store e)
  | .ok none => .error (.unknownId id)
  | .ok (some quote) => .ok (deletedText id quote)

def receipt : Except BotError Text → Text
  | .ok text => text
  | .error e => "skipped: ".toList ++ e.message

theorem receipt_ok (text : Text) : receipt (.ok text) = text :=
  rfl

theorem receipt_error (e : BotError) : receipt (.error e) = "skipped: ".toList ++ e.message :=
  rfl

theorem keep_of_mem (h : quote ∈ bot.stored) :
    bot.keep quote = (.error (.alreadyStored quote), bot) :=
  if_pos h

theorem keep_of_notMem (h : quote ∉ bot.stored) :
    bot.keep quote =
      (((bot.quotes.add bot.disk quote).1.mapError .store).map (addedText quote),
        bot.after (bot.quotes.add bot.disk quote)) := by
  rw [keep, if_neg h, after]
  rcases bot.quotes.add bot.disk quote with ⟨e | id, quotes, disk⟩ <;> rfl

theorem keepAll_cons (bot : Bot) (quote : Quote) (quotes : List Quote) :
    bot.keepAll (quote :: quotes) =
      (receipt (bot.keep quote).1 :: ((bot.keep quote).2.keepAll quotes).1,
        ((bot.keep quote).2.keepAll quotes).2) := by
  rw [keepAll]
  rcases bot.keep quote with ⟨e | text, next⟩ <;> rfl

theorem remove_of_neg (h : id.toInt < 0) : bot.remove id = (.error (.unknownId id), bot) :=
  if_pos h

theorem remove_of_nonneg (h : 0 ≤ id.toInt) :
    bot.remove id =
      (deletion id (bot.quotes.delete bot.disk id.toUInt64).1,
        bot.after (bot.quotes.delete bot.disk id.toUInt64)) := by
  rw [remove, if_neg (by omega), after]
  rcases bot.quotes.delete bot.disk id.toUInt64 with ⟨e | _ | old, quotes, disk⟩ <;> rfl

theorem entries_keep (bot : Bot) (quote : Quote) :
    (bot.keep quote).2.quotes.shelf = bot.quotes.shelf ∨
      quote ∉ bot.stored ∧ ∃ key, (bot.keep quote).2.quotes.shelf.entries =
        bot.quotes.shelf.entries ++ [(key, quote)] := by
  by_cases hnew : quote ∈ bot.stored
  · exact .inl (by rw [keep_of_mem hnew])
  · have hshelf : (bot.quotes.add bot.disk quote).2.1.shelf =
        Request.change (.add quote) bot.quotes.shelf :=
      Store.answer_shelf bot.quotes bot.disk (.add quote)
    rw [keep_of_notMem hnew, after, hshelf, Request.change]
    rcases hadd : bot.quotes.shelf.add quote with last | ⟨key, shelf⟩
    · exact .inl rfl
    · exact .inr ⟨hnew, key, Shelf.entries_add hadd⟩

theorem shelf_delete (bot : Bot) (key : UInt64) :
    (bot.after (bot.quotes.delete bot.disk key)).quotes.shelf = bot.quotes.shelf.erase key :=
  Store.answer_shelf bot.quotes bot.disk (.delete key)

theorem shelf_remove (bot : Bot) (id : Int64) :
    (bot.remove id).2.quotes.shelf = bot.quotes.shelf ∨
      0 ≤ id.toInt ∧ (bot.remove id).2.quotes.shelf = bot.quotes.shelf.erase id.toUInt64 := by
  by_cases hneg : id.toInt < 0
  · exact .inl (by rw [remove_of_neg hneg])
  · have hnonneg : 0 ≤ id.toInt := by omega
    rw [remove_of_nonneg hnonneg]
    exact .inr ⟨hnonneg, shelf_delete bot id.toUInt64⟩

theorem stored_keep (bot : Bot) (quote : Quote) :
    (bot.keep quote).2.stored = bot.stored ∨
      quote ∉ bot.stored ∧ (bot.keep quote).2.stored = bot.stored ++ [quote] := by
  rcases entries_keep bot quote with hsame | ⟨hnew, key, hmore⟩
  · exact .inl (congrArg SortedMap.values hsame)
  · refine .inr ⟨hnew, ?_⟩
    rw [stored, SortedMap.values, hmore, List.map_append]
    rfl

theorem stored_remove (bot : Bot) (id : Int64) :
    (bot.remove id).2.stored.Sublist bot.stored := by
  rcases shelf_remove bot id with hsame | ⟨-, herased⟩
  · rw [stored, hsame, stored]
  · rw [stored, herased]
    exact SortedMap.values_erase_sublist _ _

theorem exists_draws_random (bot : Bot) : ∃ draws, bot.random.2 = { bot with draws } :=
  ⟨_, rfl⟩

/-- Any quote that is stored can be the one drawn, whatever is drawn after it. -/
theorem exists_random_eq (h : quote ∈ bot.stored) (rest : Nat → Nat) :
    ∃ draws, { bot with draws }.random = (quote.display, { bot with draws := rest }) := by
  obtain ⟨i, hi, rfl⟩ := List.mem_iff_getElem.1 h
  have hdrawn : bot.stored[i % bot.stored.length]? = some bot.stored[i] := by
    rw [Nat.mod_eq_of_lt hi, List.getElem?_eq_getElem hi]
  refine ⟨fun | 0 => i | n + 1 => rest n, Prod.ext ?_ rfl⟩
  exact congrArg (Option.elim · nothing Quote.display) hdrawn

end Bot

end ChatCommand
