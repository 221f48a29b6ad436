import ChatCommand.Proofs.Bot.Invariant
import ChatCommand.Proofs.Quote.Names
import ChatCommand.Proofs.Store.Freshness

namespace ChatCommand

open Text

namespace Quote

variable {s t : Text} {run rest : List Text}

theorem gatherBlocks_append_blank (h : ∀ line ∈ run, trim line = []) :
    gatherBlocks [] (run ++ rest) = gatherBlocks [] rest := by
  induction run with
  | nil => rfl
  | cons line run ih =>
    obtain ⟨hline, hrun⟩ := List.forall_mem_cons.1 h
    rw [List.cons_append, gatherBlocks, if_pos hline]
    exact ih hrun

theorem blocks_append_blank (h : trim s = []) : blocks (s ++ '\n' :: t) = blocks t := by
  have hblank : trim (s ++ ['\n']) = [] := by
    rw [trim_append_right (List.forall_mem_singleton.2 rfl), h]
  rw [blocks, lines_append_feed, gatherBlocks_append_blank (trim_eq_nil_iff_lines.1 hblank), blocks]

theorem gatherBlocks_ne_nil (h : run ≠ [] ∨ ∃ line ∈ rest, trim line ≠ []) :
    gatherBlocks run rest ≠ [] := by
  fun_induction gatherBlocks run rest with
  | case1 => simp at h
  | case2 => exact List.cons_ne_nil _ _
  | case3 line lines hline ih => exact ih (by simpa [hline] using h)
  | case4 => exact List.cons_ne_nil _ _
  | case5 run line lines _ ih => exact ih (.inl (by simp))

theorem blocks_ne_nil (h : trim s ≠ []) : blocks s ≠ [] := by
  refine gatherBlocks_ne_nil (.inr ?_)
  rw [ne_eq, trim_eq_nil_iff_lines] at h
  simpa using h

structure Firm (q : Quote) : Prop where
  speaker : isFirm q.speaker
  audience : ∀ name ∈ q.audience, isFirm name

theorem Firm.display {q : Quote} (h : q.Firm) : isFirm q.display := by
  rw [Quote.display]
  by_cases haudience : q.audience = []
  · rw [if_pos haudience, List.append_nil]
    exact isFirm_append _ h.speaker
  · rw [if_neg haudience]
    exact isFirm_append _ (isFirm_append _ (isFirm_namesText haudience h.audience))

theorem exists_trim_of_mem_splitNames {names name : Text} (h : name ∈ splitNames names) :
    ∃ raw, name = trim raw := by
  obtain ⟨raw, -, rfl⟩ := List.mem_map.1 h
  exact ⟨raw, rfl⟩

theorem firm_of_ofBlock {block : Text} {q : Quote} (h : ofBlock block = .ok q) : q.Firm := by
  have hvalid := valid_of_ofBlock h
  have htrimmed : (∃ raw, q.speaker = trim raw) ∧ ∀ name ∈ q.audience, ∃ raw, name = trim raw := by
    simp only [ofBlock] at h
    split at h
    · cases h
      refine ⟨⟨_, rfl⟩, ?_⟩
      split
      · exact fun name ↦ exists_trim_of_mem_splitNames
      · exact List.forall_mem_nil _
    · cases h
  obtain ⟨⟨raw, hraw⟩, haudience⟩ := htrimmed
  constructor
  · have hne := hvalid.speaker
    rw [hraw] at hne ⊢
    exact isFirm_trim hne
  · intro name hname
    obtain ⟨raw, rfl⟩ := haudience name hname
    refine isFirm_trim fun hnil ↦ hvalid.audience ?_
    rwa [hnil] at hname

end Quote

/-- What is not added is refused for want of a key or by the disk, never over a file that cannot be
read. -/
theorem Store.isFirm_message_add {s : Store Quote} {d : Disk} {quote : Quote} {e : StoreError}
    (h : (s.add d quote).1 = .error e) : isFirm e.message := by
  rcases hnext : s.shelf.nextKey with last | key
  · rw [add_of_error hnext] at h
    cases h
    exact isFirm_append _ rfl
  · obtain ⟨s', d', -, hadd | ⟨path, fault, hadd⟩⟩ := add_of_ok hnext d quote
    · rw [hadd] at h
      cases h
    · rw [hadd] at h
      cases h
      refine isFirm_append _ ?_
      cases fault <;> decide +kernel

namespace Bot

variable {bot : Bot} {quote : Quote} {quotes : List Quote} {prose : Text}

theorem isFirm_receipt_keep (h : quote.Firm) : isFirm (receipt (bot.keep quote).1) := by
  by_cases hmem : quote ∈ bot.stored
  · rw [keep_of_mem hmem]
    exact isFirm_append _ (isFirm_append _ (by decide +kernel))
  · rw [keep_of_notMem hmem]
    rcases hadd : (bot.quotes.add bot.disk quote).1 with e | id
    · exact isFirm_append _ (Store.isFirm_message_add hadd)
    · exact isFirm_append _ h.display

theorem isFirm_keepAll (h : ∀ q ∈ quotes, q.Firm) :
    ∀ text ∈ (bot.keepAll quotes).1, isFirm text := by
  induction quotes generalizing bot with
  | nil => exact List.forall_mem_nil _
  | cons quote quotes ih =>
    obtain ⟨hquote, hquotes⟩ := List.forall_mem_cons.1 h
    rw [keepAll_cons]
    exact List.forall_mem_cons.2 ⟨isFirm_receipt_keep hquote, ih hquotes⟩

theorem keepAll_ne_nil (h : quotes ≠ []) : (bot.keepAll quotes).1 ≠ [] := by
  obtain ⟨quote, more, rfl⟩ := List.exists_cons_of_ne_nil h
  rw [keepAll_cons]
  exact List.cons_ne_nil _ _

theorem isFirm_of_ofBlocks_error {blocks : List Text} {e : BotError}
    (h : ofBlocks blocks = .error e) : isFirm e.message := by
  induction blocks with
  | nil => cases h
  | cons block blocks ih =>
    rw [ofBlocks] at h
    split at h
    · rename_i raw fault _
      cases h
      refine isFirm_append _ ?_
      cases fault <;> decide +kernel
    · rcases hrest : ofBlocks blocks with e' | more
      · rw [hrest] at h
        cases h
        exact ih hrest
      · rw [hrest] at h
        cases h

theorem isFirm_respond_prose (h : trim prose ≠ []) : isFirm (bot.respond (.prose prose)).1 := by
  rw [respond, keepProse]
  rcases hblocks : ofBlocks (Quote.blocks prose) with e | quotes
  · exact isFirm_append _ (isFirm_of_ofBlocks_error hblocks)
  · have hne : quotes ≠ [] := by
      rintro rfl
      have hnone := map_ofBlock hblocks
      exact Quote.blocks_ne_nil h (List.map_eq_nil_iff.1 hnone)
    refine isFirm_join _ (keepAll_ne_nil hne) (isFirm_keepAll fun q hq ↦ ?_)
    obtain ⟨block, hblock⟩ := exists_block_of_mem hblocks hq
    exact Quote.firm_of_ofBlock hblock

end Bot

end ChatCommand
