import ChatCommand.Proofs.Quote.Names
import ChatCommand.Quote.Block

namespace ChatCommand.Quote

open Text

/-- The speaker and the listeners, as they stand at the end of a quote on one line. -/
def header (q : Quote) : Text :=
  q.speaker ++ (if q.audience = [] then [] else " til ".toList ++ namesText q.audience)

theorem header_suffix_display (q : Quote) : q.header <:+ q.display :=
  ⟨_, (List.append_assoc ..).symm⟩

/-- A quote whose parts can be told from the words and marks around them in a block. -/
structure Legible (q : Quote) : Prop where
  speaker : Tidy q.speaker
  word : "til".toList ∉ pieces ' ' q.speaker
  audience : ∀ name ∈ q.audience, Listener name
  text : ∀ line ∈ pieces '\n' q.text, Tidy line
  first : ∀ c ∈ q.header.head?, c ∉ quotationMarks
  last : ∀ c ∈ q.header.getLast?, c ∉ quotationMarks

namespace Legible

variable {q : Quote}

theorem header_solid (h : q.Legible) : Solid q.header := by
  have hspeaker := h.speaker.solid
  rw [header]
  split
  · rw [List.append_nil]
    exact hspeaker
  · rename_i haudience
    rw [← List.append_assoc]
    exact hspeaker.append (solid_namesText haudience h.audience) _

theorem feed_notMem_header (h : q.Legible) : '\n' ∉ q.header := by
  have hspeaker := h.speaker.feed
  have hnames := feed_notMem_namesText h.audience
  rw [header]
  split
  · simp [hspeaker]
  · simp [hspeaker, hnames]

theorem trimBy_header (h : q.Legible) : trimBy (· ∈ quotationMarks) q.header = q.header :=
  trimBy_of_ends (fun c hc ↦ decide_eq_false (h.first c hc)) fun c hc ↦
    decide_eq_false (h.last c hc)

theorem splitOnce_header (h : q.Legible) :
    splitOnce " til ".toList q.header =
      if q.audience = [] then none else some (q.speaker, namesText q.audience) := by
  have hword : "til".toList ∉ pieces ' ' q.speaker := h.word
  rw [header]
  split
  · rw [List.append_nil]
    exact splitOnce_of_not_isInfix fun hin ↦ hword (mem_pieces_of_isInfix (by decide) hin)
  · exact splitOnce_append (by decide) fun hin ↦
      hword (mem_pieces_of_isInfix_append (by decide) hin)

theorem text_solid (h : q.Legible) : Solid q.text := by
  rw [← join_pieces '\n' q.text]
  exact .join _ (pieces_ne_nil _ _) fun line hline ↦ (h.text line hline).solid

theorem trim_block (h : q.Legible) :
    trim (q.header ++ '\n' :: q.text) = q.header ++ '\n' :: q.text := by
  have hsolid := h.header_solid.append h.text_solid ['\n']
  rw [List.append_assoc, List.singleton_append] at hsolid
  exact hsolid.trim_eq

theorem lines_block (h : q.Legible) :
    lines (q.header ++ '\n' :: q.text) = q.header :: pieces '\n' q.text := by
  have hjoin : join ['\n'] (q.header :: pieces '\n' q.text) = q.header ++ '\n' :: q.text := by
    rw [join_cons_of_ne_nil _ _ (pieces_ne_nil _ _), join_pieces, List.singleton_append]
  rw [← hjoin]
  refine lines_join (List.forall_mem_cons.2 ⟨?_, fun line hline ↦ ?_⟩)
  · exact ⟨h.feed_notMem_header, h.header_solid.isFirm⟩
  · exact ⟨(h.text line hline).feed, (h.text line hline).solid.isFirm⟩

theorem check_eq_ok (h : q.Legible) : q.check = .ok () := by
  have haudience : [] ∉ q.audience := fun hmem ↦ (h.audience [] hmem).ne_nil rfl
  rw [check, if_neg h.speaker.ne_nil, if_neg h.text_solid.ne_nil, if_neg haudience]

theorem ofBlock_eq (h : q.Legible) : ofBlock (q.header ++ '\n' :: q.text) = .ok q := by
  have hlines : (pieces '\n' q.text).map trim = (pieces '\n' q.text).map id :=
    List.map_congr_left fun line hline ↦ (h.text line hline).trim_eq
  rw [ofBlock, h.trim_block, h.lines_block]
  simp only [List.headD_cons, List.tail_cons, h.trimBy_header, h.header_solid.trim_eq,
    h.splitOnce_header, hlines, List.map_id, join_pieces]
  by_cases haudience : q.audience = []
  · have hheader : q.header = q.speaker := by rw [header, if_pos haudience, List.append_nil]
    simp only [if_pos haudience, hheader, h.speaker.trim_eq]
    rw [← haudience, h.check_eq_ok]
  · simp only [if_neg haudience, splitNames_namesText haudience h.audience, h.speaker.trim_eq]
    rw [h.check_eq_ok]

end Legible

/-- Names are read back as they are written, however many there are, and a block is read back as
the quote whose parts it was written from. -/
theorem ofBlock_header :
    (∀ names : List Text, names ≠ [] → (∀ name ∈ names, Listener name) →
        splitNames (namesText names) = names) ∧
      ∀ q : Quote, q.Legible →
        q.header <:+ q.display ∧ ofBlock (q.header ++ '\n' :: q.text) = .ok q :=
  ⟨fun _ hne hnames ↦ splitNames_namesText hne hnames,
    fun q h ↦ ⟨q.header_suffix_display, h.ofBlock_eq⟩⟩

def hidden : Quote :=
  ⟨"Atil til-Ola".toList, ["Hogne".toList, "til Mo".toList, "Og Per".toList, "«B» og-C".toList],
    "«Ja, og\nnei» til Per".toList⟩

theorem legible_hidden : hidden.Legible where
  speaker := by decide +kernel
  word := by decide +kernel
  audience := by
    have hparts : ∀ name ∈ hidden.audience,
        Tidy name ∧ ',' ∉ name ∧ "og".toList ∉ pieces ' ' name := by
      decide +kernel
    intro name hname
    obtain ⟨htidy, hcomma, hword⟩ := hparts name hname
    exact ⟨htidy, hcomma, hword⟩
  text := by decide +kernel
  first c hc := by
    obtain rfl : 'A' = c := Option.some.inj hc
    decide
  last c hc := by
    obtain rfl : 'C' = c := Option.some.inj hc
    decide

theorem ofBlock_header_hidden :
    hidden.audience ≠ [] ∧ (∀ name ∈ hidden.audience, Listener name) ∧
      splitNames "Hogne, til Mo, Og Per og «B» og-C".toList = hidden.audience ∧ hidden.Legible ∧
      hidden.display =
        "\"«Ja, og / nei» til Per\" - Atil til-Ola til Hogne, til Mo, Og Per og «B» og-C".toList ∧
      hidden.header <:+ hidden.display ∧
      ofBlock "Atil til-Ola til Hogne, til Mo, Og Per og «B» og-C\n«Ja, og\nnei» til Per".toList =
        .ok hidden := by
  have haudience := legible_hidden.audience
  have hnames : namesText hidden.audience = "Hogne, til Mo, Og Per og «B» og-C".toList := by
    decide +kernel
  have hblock : hidden.header ++ '\n' :: hidden.text =
      "Atil til-Ola til Hogne, til Mo, Og Per og «B» og-C\n«Ja, og\nnei» til Per".toList := by
    decide +kernel
  have hsplit := ofBlock_header.1 hidden.audience (by decide) haudience
  obtain ⟨hsuffix, hread⟩ := ofBlock_header.2 hidden legible_hidden
  rw [hnames] at hsplit
  rw [hblock] at hread
  exact ⟨by decide, haudience, hsplit, legible_hidden, by decide +kernel, hsuffix, hread⟩

end ChatCommand.Quote
