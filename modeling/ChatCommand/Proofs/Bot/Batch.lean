import ChatCommand.Proofs.Bot.Invariant
import ChatCommand.Proofs.Scan
import ChatCommand.Proofs.Store.Freshness

namespace ChatCommand

open Text

namespace Shelf

variable {V : Type} {s after : Shelf V} {key : UInt64} {v : V}

def firstFree (s : Shelf V) : Nat :=
  s.lastKey?.elim 1 (·.toNat + 1)

def numberedFrom (first : Nat) (values : List V) : List (UInt64 × V) :=
  (values.zipIdx first).map fun e ↦ (.ofNat e.2, e.1)

theorem numberedFrom_cons (first : Nat) (v : V) (values : List V) :
    numberedFrom first (v :: values) = (.ofNat first, v) :: numberedFrom (first + 1) values := by
  rw [numberedFrom, List.zipIdx_cons, List.map_cons]
  rfl

theorem firstFree_of_nextKey (h : s.nextKey = .ok key) : s.firstFree = key.toNat := by
  rcases hlast : s.lastKey? with _ | last
  · simp only [nextKey, hlast] at h
    cases h
    rw [firstFree, hlast]
    rfl
  · rw [firstFree, hlast, toNat_nextKey hlast h]
    rfl

theorem firstFree_le (s : Shelf V) : s.firstFree ≤ UInt64.size := by
  rcases hlast : s.lastKey? with _ | last
  · rw [firstFree, hlast]
    decide
  · rw [firstFree, hlast]
    exact last.toNat_lt_size

theorem firstFree_of_entries (h : after.entries = s.entries ++ [(key, v)]) :
    after.firstFree = key.toNat + 1 := by
  have hlast : after.lastKey? = some key := by
    rw [SortedMap.lastKey?, h, List.getLast?_concat]
    rfl
  rw [firstFree, hlast]
  rfl

end Shelf

namespace Bot

variable {bot : Bot} {quote : Quote} {quotes : List Quote} {blocks : List Text} {e : BotError}

def isStored : Except BotError Text → Bool
  | .error (.store _) => false
  | _ => true

/-- Whether the store takes all quotes that are put into it. -/
def storesAll (bot : Bot) : List Quote → Bool
  | [] => true
  | quote :: quotes => isStored (bot.keep quote).1 && (bot.keep quote).2.storesAll quotes

/-- The quotes that are not stored yet, each of them once, where it first comes. -/
def fresh (bot : Bot) (quotes : List Quote) : List Quote :=
  (quotes.filter (· ∉ bot.stored)).eraseDups

/-- What is said of a quote: that it was known before, or the key under which it stands now. -/
inductive Reported (after : Shelf Quote) (known : List Quote) (quote : Quote) : Text → Prop
  | known : quote ∈ known →
      Reported after known quote ("skipped: ".toList ++ (BotError.alreadyStored quote).message)
  | added {id : UInt64} : quote ∉ known → after.get? id = some quote →
      Reported after known quote (addedText quote id)

section Blocks

/-- Why a block cannot be read, whatever comes before it. -/
def BlockFault (_ : List Text) (block : Text) (e : BotError) : Prop :=
  ∃ raw fault, Quote.ofBlock block = .error (raw, fault) ∧ e = .invalidBlock raw fault

theorem scans_blocks : Scans BlockFault fun _ blocks ↦ (ofBlocks blocks).map fun _ ↦ () where
  nil _ := rfl
  fault blocks h := by
    obtain ⟨raw, fault, hblock, rfl⟩ := h
    rw [ofBlocks, hblock]
    rfl
  next {before block} blocks h := by
    rcases hblock : Quote.ofBlock block with ⟨raw, fault⟩ | quote
    · exact absurd ⟨raw, fault, hblock, rfl⟩ (h _)
    · rw [ofBlocks, hblock]
      rcases ofBlocks blocks with e | quotes <;> rfl

theorem ofBlocks_eq_error_iff : ofBlocks blocks = .error e ↔ FirstFault BlockFault blocks e := by
  rw [← scans_blocks.eq_error_iff]
  exact map_eq_error_iff.symm

end Blocks

theorem keep_of_isStored (hnew : quote ∉ bot.stored) (h : isStored (bot.keep quote).1) :
    ∃ key, bot.quotes.shelf.nextKey = .ok key ∧
      (bot.keep quote).1 = .ok (addedText quote key) ∧
      (bot.keep quote).2.quotes.shelf.entries = bot.quotes.shelf.entries ++ [(key, quote)] := by
  rw [keep_of_notMem hnew] at h ⊢
  rcases hnext : bot.quotes.shelf.nextKey with last | key
  · rw [Store.add_of_error hnext] at h
    cases h
  · obtain ⟨s', d', hshelf, hadd | ⟨path, fault, hadd⟩⟩ := Store.add_of_ok hnext bot.disk quote
    · rw [hadd]
      refine ⟨key, rfl, rfl, ?_⟩
      rw [after, hshelf]
      exact SortedMap.insertEntry_of_before (Shelf.before_nextKey hnext)
    · rw [hadd] at h
      cases h

theorem fresh_cons_of_mem (h : quote ∈ bot.stored) :
    bot.fresh (quote :: quotes) = bot.fresh quotes := by
  rw [fresh, List.filter_cons_of_neg (by simpa using h), ← fresh]

theorem fresh_cons_of_notMem {next : Bot} (h : quote ∉ bot.stored)
    (hnext : next.stored = bot.stored ++ [quote]) :
    bot.fresh (quote :: quotes) = quote :: next.fresh quotes := by
  rw [fresh, List.filter_cons_of_pos (by simpa using h), List.eraseDups_cons, List.filter_filter,
    fresh, hnext]
  refine congrArg (quote :: ·.eraseDups) (List.filter_congr fun q _ ↦ ?_)
  by_cases hq : q = quote <;> simp [hq]

theorem stored_of_entries {next : Bot} {key : UInt64}
    (h : next.quotes.shelf.entries = bot.quotes.shelf.entries ++ [(key, quote)]) :
    next.stored = bot.stored ++ [quote] := by
  rw [stored, SortedMap.values, h, List.map_append]
  rfl

theorem entries_keepAll (h : bot.storesAll quotes) :
    (bot.keepAll quotes).2.quotes.shelf.entries = bot.quotes.shelf.entries ++
        Shelf.numberedFrom bot.quotes.shelf.firstFree (bot.fresh quotes) ∧
      bot.quotes.shelf.firstFree + (bot.fresh quotes).length ≤ UInt64.size := by
  induction quotes generalizing bot with
  | nil => exact ⟨(List.append_nil _).symm, bot.quotes.shelf.firstFree_le⟩
  | cons quote quotes ih =>
    obtain ⟨hfirst, hrest⟩ := Bool.and_eq_true_iff.1 h
    obtain ⟨hentries, hroom⟩ := ih hrest
    rw [keepAll_cons]
    by_cases hmem : quote ∈ bot.stored
    · rw [keep_of_mem hmem] at hentries hroom ⊢
      rw [fresh_cons_of_mem hmem]
      exact ⟨hentries, hroom⟩
    -- The new quote takes the first free number and moves it on by one.
    · obtain ⟨key, hnext, -, hkept⟩ := keep_of_isStored hmem hfirst
      rw [Shelf.firstFree_of_entries hkept] at hentries hroom
      rw [fresh_cons_of_notMem hmem (stored_of_entries hkept), Shelf.firstFree_of_nextKey hnext,
        Shelf.numberedFrom_cons, UInt64.ofNat_toNat]
      refine ⟨?_, ?_⟩
      · rw [hentries, hkept, List.append_assoc]
        rfl
      · rw [List.length_cons]
        omega

theorem length_keepAll (bot : Bot) (quotes : List Quote) :
    (bot.keepAll quotes).1.length = quotes.length := by
  induction quotes generalizing bot with
  | nil => rfl
  | cons quote quotes ih => rw [keepAll_cons, List.length_cons, List.length_cons, ih]

theorem Reported.congr {after : Shelf Quote} {known known' : List Quote} {text : Text}
    (h : Reported after known quote text) (hsame : quote ∈ known ↔ quote ∈ known') :
    Reported after known' quote text := by
  cases h with
  | known hmem => exact .known (hsame.1 hmem)
  | added hnew hget => exact .added (mt hsame.2 hnew) hget

theorem reported_keep (h : bot.storesAll (quote :: quotes)) :
    Reported (bot.keepAll (quote :: quotes)).2.quotes.shelf bot.stored quote
      (receipt (bot.keep quote).1) := by
  obtain ⟨hfirst, hrest⟩ := Bool.and_eq_true_iff.1 h
  by_cases hmem : quote ∈ bot.stored
  · have htext : (bot.keep quote).1 = .error (.alreadyStored quote) :=
      congrArg Prod.fst (keep_of_mem hmem)
    rw [htext, receipt_error]
    exact .known hmem
  · obtain ⟨key, -, htext, hkept⟩ := keep_of_isStored hmem hfirst
    rw [htext, receipt_ok]
    refine .added hmem (SortedMap.get?_eq_some_iff.2 ?_)
    rw [keepAll_cons, (entries_keepAll hrest).1, hkept]
    simp

theorem reported_keepAll (h : bot.storesAll quotes) {i : Nat} (hi : quotes[i]? = some quote) :
    ∃ text, (bot.keepAll quotes).1[i]? = some text ∧
      Reported (bot.keepAll quotes).2.quotes.shelf (bot.stored ++ quotes.take i) quote text := by
  induction quotes generalizing bot i with
  | nil => cases hi
  | cons first quotes ih =>
    cases i with
    | zero =>
      cases hi
      refine ⟨receipt (bot.keep quote).1, by rw [keepAll_cons]; rfl, ?_⟩
      rw [List.take_zero, List.append_nil]
      exact reported_keep h
    | succ i =>
      obtain ⟨hfirst, hrest⟩ := Bool.and_eq_true_iff.1 h
      obtain ⟨text, htext, hreported⟩ := ih hrest hi
      rw [keepAll_cons]
      refine ⟨text, htext, hreported.congr ?_⟩
      -- The first quote is known from now on, whether it was stored before or is now.
      by_cases hmem : first ∈ bot.stored
      · rw [keep_of_mem hmem]
        simp only [List.take_succ_cons, List.mem_append, List.mem_cons]
        grind
      · obtain ⟨key, -, -, hkept⟩ := keep_of_isStored hmem hfirst
        rw [stored_of_entries hkept]
        simp

/-- If a block cannot be read, the first such block is the answer, and the bot stays as it is.
Otherwise every block is reported on in its turn, and when the store takes them all, the quotes
that are new are put behind the others under consecutive keys, each of them once. -/
theorem keepProse_once (bot : Bot) (prose : Text) :
    ((∃ block ∈ Quote.blocks prose, ∃ fault, Quote.ofBlock block = .error fault) →
      ∃ e, FirstFault BlockFault (Quote.blocks prose) e ∧ bot.keepProse prose = (.error e, bot)) ∧
    ((∀ block ∈ Quote.blocks prose, ∃ quote, Quote.ofBlock block = .ok quote) →
      ∃ quotes, (Quote.blocks prose).map Quote.ofBlock = quotes.map .ok ∧
        (bot.storesAll quotes → ∃ receipts after,
          bot.keepProse prose = (.ok (join ['\n'] receipts), after) ∧
            receipts.length = (Quote.blocks prose).length ∧
            (∀ i quote, quotes[i]? = some quote → ∃ text, receipts[i]? = some text ∧
              Reported after.quotes.shelf (bot.stored ++ quotes.take i) quote text) ∧
            after.quotes.shelf.entries = bot.quotes.shelf.entries ++
              Shelf.numberedFrom bot.quotes.shelf.firstFree (bot.fresh quotes) ∧
            bot.quotes.shelf.firstFree + (bot.fresh quotes).length ≤ UInt64.size)) := by
  rcases hblocks : ofBlocks (Quote.blocks prose) with e | quotes
  · have hfault := ofBlocks_eq_error_iff.1 hblocks
    refine ⟨fun _ ↦ ⟨e, hfault, by rw [keepProse, hblocks]⟩, fun hall ↦ ?_⟩
    obtain ⟨before, block, after, hparts, -, raw, fault, hblock, -⟩ := hfault
    obtain ⟨quote, hquote⟩ := hall block (by simp [hparts])
    cases hblock.symm.trans hquote
  · have hmap := map_ofBlock hblocks
    refine ⟨fun hrefused ↦ ?_, fun _ ↦ ⟨quotes, hmap, fun hstores ↦ ?_⟩⟩
    -- All blocks were read, so none of them can be at fault.
    · obtain ⟨block, hmem, fault, hblock⟩ := hrefused
      have hread := List.mem_map_of_mem (f := Quote.ofBlock) hmem
      rw [hmap, hblock] at hread
      obtain ⟨quote, -, hquote⟩ := List.mem_map.1 hread
      cases hquote
    · obtain ⟨hentries, hroom⟩ := entries_keepAll hstores
      refine ⟨(bot.keepAll quotes).1, (bot.keepAll quotes).2, by rw [keepProse, hblocks], ?_,
        fun i quote hi ↦ reported_keepAll hstores hi, hentries, hroom⟩
      have hlength := congrArg List.length hmap
      rw [List.length_map, List.length_map] at hlength
      rw [length_keepAll, hlength]

def acquainted : Bot where
  quotes := .archive ⟨"q.json".toList, .ofList [(7, ⟨"Ola".toList, [], "hei".toList⟩)]⟩
  disk := .empty
  draws _ := 0

/-- Four quotes, of which the first is known and the last is the second once more. -/
def repeated : Text :=
  "Ola\nhei\n\nPer\nja\n \nPer til Ola\nja\n\nPer\n  ja\n".toList

def repeatedQuotes : List Quote :=
  [⟨"Ola".toList, [], "hei".toList⟩, ⟨"Per".toList, [], "ja".toList⟩,
    ⟨"Per".toList, ["Ola".toList], "ja".toList⟩, ⟨"Per".toList, [], "ja".toList⟩]

def unfinished : Text :=
  "Per\nja\n\nOla\n".toList

theorem keepProse_once_repeated :
    (acquainted.keepProse unfinished).1 = .error (.invalidBlock "Ola".toList .noText) ∧
      (acquainted.keepProse unfinished).2 = acquainted ∧
      (acquainted.keepProse repeated).1 = .ok (join ['\n']
        (["skipped: \"hei\" - Ola is already stored", "added #8: \"ja\" - Per",
          "added #9: \"ja\" - Per til Ola", "skipped: \"ja\" - Per is already stored"].map
            String.toList)) ∧
      acquainted.storesAll repeatedQuotes = true ∧
      acquainted.fresh repeatedQuotes = (repeatedQuotes.drop 1).take 2 ∧
      (acquainted.keepProse repeated).2.quotes.shelf.entries =
        acquainted.quotes.shelf.entries ++
          Shelf.numberedFrom 8 ((repeatedQuotes.drop 1).take 2) := by
  have hrefused : ∃ block ∈ Quote.blocks unfinished, ∃ fault, Quote.ofBlock block = .error fault :=
    ⟨"Ola".toList, by decide +kernel, ("Ola".toList, .noText), by decide +kernel⟩
  obtain ⟨e, -, hfails⟩ := (keepProse_once acquainted unfinished).1 hrefused
  have hread : (Quote.blocks repeated).map Quote.ofBlock = repeatedQuotes.map .ok := by
    decide +kernel
  have hall : ∀ block ∈ Quote.blocks repeated, ∃ quote, Quote.ofBlock block = .ok quote := by
    intro block hblock
    have hmem := List.mem_map_of_mem (f := Quote.ofBlock) hblock
    rw [hread] at hmem
    obtain ⟨quote, -, hquote⟩ := List.mem_map.1 hmem
    exact ⟨quote, hquote.symm⟩
  obtain ⟨quotes, hquotes, hkeeps⟩ := (keepProse_once acquainted repeated).2 hall
  obtain rfl : quotes = repeatedQuotes :=
    (List.map_inj_right fun _ _ ↦ Except.ok.inj).1 (hquotes.symm.trans hread)
  have hstores : acquainted.storesAll repeatedQuotes = true := by decide +kernel
  obtain ⟨receipts, after, hkept, -, -, hentries, -⟩ := hkeeps hstores
  have hfree : acquainted.quotes.shelf.firstFree = 8 := by decide +kernel
  have hfresh : acquainted.fresh repeatedQuotes = (repeatedQuotes.drop 1).take 2 := by
    decide +kernel
  refine ⟨by decide +kernel, congrArg Prod.snd hfails, by decide +kernel, hstores, hfresh, ?_⟩
  rw [hkept, hentries, hfree, hfresh]

end Bot

end ChatCommand
