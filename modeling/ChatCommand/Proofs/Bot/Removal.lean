import ChatCommand.Proofs.Bot.Invariant
import ChatCommand.Proofs.Grammar.Piece
import ChatCommand.Proofs.Number.Integer

namespace ChatCommand

open Text

namespace Bot

def removeLine (id : UInt64) : Text :=
  quoteCommand.name ++ ' ' :: (removeCommand.name ++ ' ' :: Number.uint64Text id)

def listLine : Text :=
  "quote list -v".toList

section Line

variable {id : UInt64}

theorem ofLine_listLine : Order.ofLine listLine = some (.list true) := by
  decide +kernel

theorem asksHelp_removeCommand (literal : Text) :
    removeCommand.asksHelp [.value literal] = false := by
  simp [Command.asksHelp, removeCommand, Command.isHelpKwarg]

theorem bind_removeCommand (literal : Text) :
    removeCommand.bind [.value literal] =
      (Ty.integer.coerce literal).map fun v ↦ ⟨[v], .empty, .empty⟩ := by
  have hbind : removeCommand.bind [.value literal] =
      (removeCommand.bindValue ⟨.empty, 0⟩ literal >>= removeCommand.complete) := by
    simp only [Command.bind, Command.bindNodes, Command.bindNode]
    rcases removeCommand.bindValue ⟨.empty, 0⟩ literal with m | b <;> rfl
  rw [hbind, Command.bindValue]
  rcases hv : Ty.integer.coerce literal with m | v
  · simp [removeCommand, hv]
    rfl
  · simp [removeCommand, hv]
    rfl

theorem resolve_removeCommand (literal : Text) :
    quoteCommand.resolve ⟨some quoteCommand.name, [.value removeCommand.name, .value literal]⟩ =
      match Ty.integer.coerce literal with
      | .ok v => .ok ⟨removeCommand, ⟨[v], .empty, .empty⟩⟩
      | .error m => .error (.bind ⟨[removeCommand.name], m⟩) := by
  have hroute : quoteCommand.route [.value removeCommand.name, .value literal] =
      ⟨[removeCommand.name], removeCommand, [.value literal]⟩ := by
    have hsub : quoteCommand.subcommand? removeCommand.name = some removeCommand := rfl
    simp only [Command.route, hsub]
    rfl
  rw [Command.resolve]
  simp only [hroute, asksHelp_removeCommand, bind_removeCommand]
  rcases Ty.integer.coerce literal with m | v <;> rfl

theorem resolve_removeLine (id : UInt64) :
    registry.resolve (removeLine id) =
      match Ty.integer.coerce (Number.uint64Text id) with
      | .ok v => .ok ⟨removeCommand, ⟨[v], .empty, .empty⟩⟩
      | .error m => .error (.bind ⟨[quoteCommand.name, removeCommand.name], m⟩) := by
  have hquote : Token.isName quoteCommand.name := by decide +kernel
  have hremove : Token.isSymbol removeCommand.name := by decide +kernel
  have hparse : Grammar.parseLine (removeLine id) = .ok ⟨some quoteCommand.name,
      [.value removeCommand.name, .value (Number.uint64Text id)]⟩ :=
    Grammar.parseLine_of_symbols hquote hremove (Number.isSymbol_naturalText id.toNat)
  have hroot : registry.get? quoteCommand.name = some quoteCommand := rfl
  rw [Registry.resolve_of_get? hparse hroot, resolve_removeCommand]
  rcases Ty.integer.coerce (Number.uint64Text id) with m | v <;> rfl

theorem ofLine_removeLine (h : id.toNat < UInt64.size / 2) :
    Order.ofLine (removeLine id) = some (.remove (.ofNat id.toNat)) := by
  have hcoerce : Ty.integer.coerce (Number.uint64Text id) = .ok (.int (.ofNat id.toNat)) := by
    rw [Ty.coerce, Ty.read?, Number.uint64Text, Number.int64?_naturalText_of_lt h]
    rfl
  rw [Order.ofLine, resolve_removeLine, hcoerce]
  rfl

theorem dispatch_removeLine_of_ge (h : UInt64.size / 2 ≤ id.toNat) (bot : Bot) :
    registry.dispatch (removeLine id) bot =
      (.error (.bind ⟨[quoteCommand.name, removeCommand.name],
        .coercion (Number.uint64Text id) .integer⟩), bot) := by
  have hcoerce : Ty.integer.coerce (Number.uint64Text id) =
      .error (.coercion (Number.uint64Text id) .integer) := by
    rw [Ty.coerce, Ty.read?, Number.uint64Text, Number.int64?_naturalText_of_ge h]
    rfl
  refine Registry.dispatch_of_error ?_ bot
  rw [resolve_removeLine, hcoerce]

end Line

section Removed

variable {bot : Bot} {id : UInt64} {quote : Quote}

/-- What is left without the quote can be saved, if it is saved at all. -/
def CanRemove (bot : Bot) (id : UInt64) : Prop :=
  ∀ a, bot.quotes = .archive a →
    (Archive.save { a with shelf := a.shelf.erase id } bot.disk).1 = .ok ()

/-- The quote is gone, all others are left as they were, and the file has been brought up to
date. -/
structure Removed (bot : Bot) (id : UInt64) (after : Bot) : Prop where
  get? : ∀ k, after.quotes.shelf.get? k = if k = id then none else bot.quotes.shelf.get? k
  load : ∀ a, bot.quotes = .archive a →
    ∃ b, after.quotes = .archive b ∧ ∀ explain, Archive.load explain after.disk a.path = .ok b

theorem delete_archive {a : Archive Quote} {d : Disk} (h : a.shelf.get? id = some quote)
    (hsave : (Archive.save { a with shelf := a.shelf.erase id } d).1 = .ok ()) :
    ∃ d', a.delete d id = (.ok (some quote), { a with shelf := a.shelf.erase id }, d') ∧
      ∀ explain, Archive.load explain d' a.path = .ok { a with shelf := a.shelf.erase id } := by
  have hdelete : a.delete d id =
      Archive.commit { a with shelf := a.shelf.erase id } d (some quote) := by
    simp only [Archive.delete, Shelf.delete, h]
  rw [hdelete]
  rcases Store.commit_cases { a with shelf := a.shelf.erase id } d (some quote) with
    ⟨d', hsaved, hcommit⟩ | ⟨fault, d', hfailed, -⟩
  · exact ⟨d', hcommit, fun _ ↦ Archive.load_of_save hsaved⟩
  · rw [hfailed] at hsave
    cases hsave

theorem removed_delete (h : bot.quotes.shelf.get? id = some quote) (hsave : bot.CanRemove id) :
    (bot.quotes.delete bot.disk id).1 = .ok (some quote) ∧
      bot.Removed id (bot.after (bot.quotes.delete bot.disk id)) := by
  have hget (k : UInt64) : (bot.after (bot.quotes.delete bot.disk id)).quotes.shelf.get? k =
      if k = id then none else bot.quotes.shelf.get? k := by
    rw [shelf_delete, SortedMap.get?_erase]
    simp only [eq_comm]
  obtain ⟨quotes, disk, draws⟩ := bot
  -- Only an archive has a file to be brought up to date.
  cases quotes with
  | memory shelf => exact ⟨congrArg Except.ok h, hget, fun a ha ↦ by cases ha⟩
  | archive a =>
    obtain ⟨d', hdelete, hload⟩ := delete_archive h (hsave a rfl)
    have hstore : (Store.archive a).delete disk id =
        (.ok (some quote), .archive { a with shelf := a.shelf.erase id }, d') := by
      rw [Store.delete, hdelete]
    rw [hstore] at hget ⊢
    refine ⟨rfl, hget, fun a' ha' ↦ ?_⟩
    cases ha'
    exact ⟨_, rfl, hload⟩

theorem deletedText_ofNat (hid : id.toNat < UInt64.size / 2) (quote : Quote) :
    deletedText (.ofNat id.toNat) quote =
      "deleted #".toList ++ Number.uint64Text id ++ ": ".toList ++ quote.display := by
  have hsame : Number.int64Text (.ofNat id.toNat) = Number.uint64Text id :=
    Number.int64Text_ofNat hid
  unfold deletedText
  simp only [hsame]

theorem remove_stored (h : bot.quotes.shelf.get? id = some quote) (hid : id.toNat < UInt64.size / 2)
    (hsave : bot.CanRemove id) :
    ∃ after, bot.remove (.ofNat id.toNat) = (.ok (deletedText (.ofNat id.toNat) quote), after) ∧
      bot.Removed id after := by
  have hnonneg : 0 ≤ (Int64.ofNat id.toNat).toInt := by
    rw [Int64.toInt_ofNat_of_lt hid]
    omega
  have hback : (Int64.ofNat id.toNat).toUInt64 = id := by
    rw [Int64.toUInt64_ofNat', UInt64.ofNat_toNat]
  obtain ⟨hgiven, hremoved⟩ := removed_delete h hsave
  refine ⟨_, ?_, hremoved⟩
  rw [remove_of_nonneg hnonneg, hback, hgiven, deletion]

end Removed

section Held

variable {bot : Bot} {id : UInt64} {quote : Quote}

theorem get?_keep (h : bot.quotes.shelf.get? id = some quote) (q : Quote) :
    (bot.keep q).2.quotes.shelf.get? id = some quote := by
  rcases entries_keep bot q with hsame | ⟨-, key, hmore⟩
  · rw [hsame]
    exact h
  · rw [SortedMap.get?_eq_some_iff] at h ⊢
    rw [hmore]
    exact List.mem_append_left _ h

theorem get?_remove (h : bot.quotes.shelf.get? id = some quote) (hid : UInt64.size / 2 ≤ id.toNat)
    (asked : Int64) : (bot.remove asked).2.quotes.shelf.get? id = some quote := by
  rcases shelf_remove bot asked with hsame | ⟨hnonneg, herased⟩
  · rw [hsame]
    exact h
  · have hother : asked.toUInt64 ≠ id := by
      rintro rfl
      have hlow : asked.toUInt64.toNat = asked.toInt.toNat :=
        Int64.toNat_toUInt64_of_le (Int64.le_iff_toInt_le.2 hnonneg)
      have hbound := asked.toInt_lt
      rw [Number.half_size] at hid
      omega
    rw [herased, SortedMap.get?_erase, if_neg hother]
    exact h

theorem invariant_get? (hid : UInt64.size / 2 ≤ id.toNat) (quote : Quote) :
    Invariant fun bot ↦ bot.quotes.shelf.get? id = some quote where
  keep h _ := get?_keep h _
  remove asked h := get?_remove h hid asked
  draws _ h := h

end Held

variable {bot : Bot} {id : UInt64} {quote : Quote}

/-- A quote that is listed can be removed by the id that is shown if the id lies in the lower half.
An id of the upper half is not taken for an integer, and the quote stays whatever is said on the
channel. -/
theorem remove_listed (h : (id, quote) ∈ bot.quotes.shelf.entries) (hsave : bot.CanRemove id) :
    registry.dispatch listLine bot =
        (.ok (join ['\n'] (bot.quotes.shelf.entries.map fun e ↦ numbered e.1 e.2)), bot) ∧
      (id.toNat < UInt64.size / 2 → ∃ after,
        registry.dispatch (removeLine id) bot =
          (.ok ("deleted #".toList ++ Number.uint64Text id ++ ": ".toList ++ quote.display),
            after) ∧
        bot.Removed id after) ∧
      (UInt64.size / 2 ≤ id.toNat →
        registry.dispatch (removeLine id) bot =
          (.error (.bind ⟨[quoteCommand.name, removeCommand.name],
            .coercion (Number.uint64Text id) .integer⟩), bot) ∧
        ∀ marker lines, (bot.hear marker lines).2.quotes.shelf.get? id = some quote) := by
  have hget : bot.quotes.shelf.get? id = some quote := SortedMap.get?_eq_some_iff.2 h
  refine ⟨?_, fun hid ↦ ?_, fun hid ↦ ?_⟩
  · have hsome : bot.quotes.shelf.isEmpty = false := by
      rw [SortedMap.isEmpty, List.isEmpty_eq_false_iff]
      exact List.ne_nil_of_mem h
    rw [dispatch_of_order ofLine_listLine, obey, list, hsome]
    rfl
  · obtain ⟨after, hafter, hremoved⟩ := remove_stored hget hid hsave
    refine ⟨after, ?_, hremoved⟩
    rw [dispatch_of_order (ofLine_removeLine hid), obey, hafter, deletedText_ofNat hid]
    rfl
  · have hheld := invariant_get? hid quote
    exact ⟨dispatch_removeLine_of_ge hid bot, fun marker lines ↦ hheld.hear marker lines hget⟩

def halved : Bot where
  quotes := .archive ⟨"q.json".toList, .ofList [(7, ⟨"Ola".toList, [], "hei".toList⟩),
    (9223372036854775808, ⟨"Kari".toList, [], "ja".toList⟩)]⟩
  disk := .empty
  draws _ := 0

theorem canRemove_halved : halved.CanRemove 7 ∧ halved.CanRemove 9223372036854775808 := by
  refine ⟨fun a ha ↦ ?_, fun a ha ↦ ?_⟩
  all_goals
    cases ha
    decide +kernel

theorem remove_listed_halved :
    (∃ after, registry.dispatch "quote remove 7".toList halved =
        (.ok "deleted #7: \"hei\" - Ola".toList, after) ∧ halved.Removed 7 after) ∧
      ∀ marker lines, (halved.hear marker lines).2.quotes.shelf.get? 9223372036854775808 =
        some ⟨"Kari".toList, [], "ja".toList⟩ := by
  have hlow := @remove_listed halved 7 ⟨"Ola".toList, [], "hei".toList⟩
    (List.mem_cons_self ..) canRemove_halved.1
  have hhigh := @remove_listed halved 9223372036854775808 ⟨"Kari".toList, [], "ja".toList⟩
    (List.mem_cons_of_mem _ (List.mem_cons_self ..)) canRemove_halved.2
  exact ⟨hlow.2.1 (by decide), (hhigh.2.2 (by decide)).2⟩

/-- What is listed under an id of the upper half cannot be removed by it. -/
theorem listed_not_removed :
    halved.CanRemove 9223372036854775808 ∧
      (registry.dispatch "quote list -v".toList halved).1 =
        .ok "#7 \"hei\" - Ola\n#9223372036854775808 \"ja\" - Kari".toList ∧
      (registry.dispatch "quote remove 9223372036854775808".toList halved).1 =
        .error (.bind ⟨["quote".toList, "remove".toList],
          .coercion "9223372036854775808".toList .integer⟩) ∧
      (registry.dispatch "quote remove 9223372036854775808".toList halved).2.stored =
        halved.stored :=
  ⟨canRemove_halved.2, by decide +kernel, by decide +kernel, by decide +kernel⟩

end Bot

end ChatCommand
