import ChatCommand.Proofs.Bind.Suits
import ChatCommand.Proofs.Registry.Leads
import Mathlib.Data.List.TakeWhile

namespace ChatCommand

def Node.isValue : Node → Bool
  | .value _ => true
  | _ => false

/-- The nodes start with the same values, up to the first node that is none. The nodes from there
on are the same ones, in another order in which the values among them follow each other as
before. -/
structure Rearranged (ms ns : List Node) : Prop where
  lead : ms.takeWhile Node.isValue = ns.takeWhile Node.isValue
  perm : (ms.dropWhile Node.isValue).Perm (ns.dropWhile Node.isValue)
  order : literals (ms.dropWhile Node.isValue) = literals (ns.dropWhile Node.isValue)

namespace Rearranged

variable {ms ns : List Node} {s : Text} {n : Node}

theorem symm (h : Rearranged ms ns) : Rearranged ns ms :=
  ⟨h.lead.symm, h.perm.symm, h.order.symm⟩

theorem perm_all (h : Rearranged ms ns) : ms.Perm ns := by
  rw [← List.takeWhile_append_dropWhile (p := Node.isValue) (l := ms), h.lead]
  nth_rewrite 2 [← List.takeWhile_append_dropWhile (p := Node.isValue) (l := ns)]
  exact h.perm.append_left _

theorem literals_eq (h : Rearranged ms ns) : literals ms = literals ns := by
  rw [← List.takeWhile_append_dropWhile (p := Node.isValue) (l := ms), literals_append, h.lead,
    h.order, ← literals_append, List.takeWhile_append_dropWhile]

theorem exists_tail (h : Rearranged (.value s :: ms) ns) :
    ∃ ns', ns = .value s :: ns' ∧ Rearranged ms ns' := by
  obtain ⟨lead, perm, order⟩ := h
  cases ns with
  | nil => cases lead
  | cons n ns =>
    cases n with
    | value t =>
      obtain ⟨hs, hlead⟩ := List.cons.inj lead
      cases hs
      exact ⟨ns, rfl, hlead, perm, order⟩
    | flag | kwarg | tree => cases lead

theorem head?_eq_value (h : Rearranged ms ns) (hs : ms.head? = some (.value s)) :
    ns.head? = some (.value s) := by
  obtain ⟨ms, rfl⟩ := List.head?_eq_some_iff.1 hs
  obtain ⟨ns, rfl, -⟩ := h.exists_tail
  rfl

end Rearranged

namespace Command

variable {C : Type} {cmd target : Command C} {ms ns rest : List Node} {names : List Text}
  {a : Arguments}

theorem Descent.rearranged (hd : Descent cmd ms names target rest) (h : Rearranged ms ns) :
    ∃ rest', Descent cmd ns names target rest' ∧ Rearranged rest rest' := by
  induction hd generalizing ns with
  | here cmd ms => exact ⟨ns, .here cmd ns, h⟩
  | down hsub _ ih =>
    obtain ⟨ns, rfl, htail⟩ := h.exists_tail
    obtain ⟨rest', hd', hrest⟩ := ih htail
    exact ⟨rest', .down hsub hd', hrest⟩

theorem Stops.rearranged (hs : cmd.Stops ms) (h : Rearranged ms ns) : cmd.Stops ns :=
  fun sub hsub hhead ↦ hs sub hsub (h.symm.head?_eq_value hhead)

theorem asksHelp_rearranged (h : Rearranged ms ns) (hm : cmd.asksHelp ms) : cmd.asksHelp ns := by
  rw [asksHelp_iff] at hm ⊢
  rcases hm with ⟨literal, hn⟩ | ⟨hhead, hargs⟩
  · exact .inl ⟨literal, h.perm_all.mem_iff.1 hn⟩
  · exact .inr ⟨h.head?_eq_value hhead, hargs⟩

theorem Binds.perm (h : cmd.Binds ms a) (hp : ms.Perm ns) (hl : literals ms = literals ns) :
    cmd.Binds ns a := by
  have hkeys : (keys ms).Perm (keys ns) := hp.filterMap Node.key?
  exact
    { fits := hl ▸ h.fits
      values := hl ▸ h.values
      valueTypes := h.valueTypes
      flags := fun c ↦ (h.flags c).trans hp.mem_iff
      flagsDeclared := fun c hc ↦ h.flagsDeclared c (hp.mem_iff.2 hc)
      keysDistinct := hkeys.nodup_iff.1 h.keysDistinct
      kwargs := fun key ↦ (h.kwargs key).trans (or_congr_left hkeys.mem_iff)
      given := fun key literal hn ↦ h.given key literal (hp.mem_iff.2 hn)
      filled := fun spec hs hkey ↦ h.filled spec hs fun hk ↦ hkey (hkeys.mem_iff.1 hk)
      kwargTypes := h.kwargTypes
      required := fun spec hs hreq ↦ hkeys.mem_iff.1 (h.required spec hs hreq)
      noTree := fun root children hn ↦ h.noTree root children (hp.mem_iff.2 hn)
      noHelp := fun hhelp ↦ h.noHelp (hkeys.mem_iff.2 hhelp) }

theorem bind_rearranged (hw : cmd.WellFormed) (h : Rearranged ms ns) (ha : cmd.bind ms = .ok a) :
    cmd.bind ns = .ok a :=
  (bind_eq_ok_iff hw).2 (((bind_eq_ok_iff hw).1 ha).perm h.perm_all h.literals_eq)

/-- Nodes may be moved about behind the values at the front, as long as the values keep their
order: the same command is bound to the same arguments, or the same help is given, or both are
refused in the same frames. -/
theorem resolve_rearranged (hc : cmd.Checked) {s t : Tree} (h : Rearranged s.children t.children) :
    (∃ b, cmd.resolve s = .ok b ∧ cmd.resolve t = .ok b) ∨
      (∃ text, cmd.resolve s = .error (.help text) ∧ cmd.resolve t = .error (.help text)) ∨
      ∃ e e' : BindError, cmd.resolve s = .error (.bind e) ∧ cmd.resolve t = .error (.bind e') ∧
        e.frames = e'.frames := by
  obtain ⟨hd, hs⟩ := descent_route cmd s.children
  have hw := (hd.checked hc).wellFormed
  obtain ⟨rest, hd', hrest⟩ := hd.rearranged h
  rcases resolve_cases hc hd hs with ⟨hhelp, hres⟩ | ⟨hhelp, ⟨a, ha, hres⟩ | ⟨m, hm, hres⟩⟩
  · rcases resolve_cases hc hd' (hs.rearranged hrest) with ⟨-, hres'⟩ | ⟨hno, -⟩
    · exact .inr (.inl ⟨_, hres, hres'⟩)
    · cases hno.symm.trans (asksHelp_rearranged hrest hhelp)
  · rcases resolve_cases hc hd' (hs.rearranged hrest) with
      ⟨hask, -⟩ | ⟨-, ⟨b, hb, hres'⟩ | ⟨m, hm, -⟩⟩
    · cases hhelp.symm.trans (asksHelp_rearranged hrest.symm hask)
    · cases hb.symm.trans (bind_rearranged hw hrest ha)
      exact .inl ⟨_, hres, hres'⟩
    · cases hm.symm.trans (bind_rearranged hw hrest ha)
  · rcases resolve_cases hc hd' (hs.rearranged hrest) with
      ⟨hask, -⟩ | ⟨-, ⟨b, hb, -⟩ | ⟨m', -, hres'⟩⟩
    · cases hhelp.symm.trans (asksHelp_rearranged hrest.symm hask)
    · cases hm.symm.trans (bind_rearranged hw hrest.symm hb)
    · exact .inr (.inr ⟨_, _, hres, hres', rfl⟩)

def shuffled : List Node :=
  [.value ['s', 'e', 'n', 'd'], .kwarg ['t', 'o'] (some ['å']), .flag 'q', .flag 'q', .value ['7'],
    .kwarg ['l', 'o', 'g'] none]

theorem resolve_rearranged_transfer :
    bank.Checked ∧ Rearranged transfer shuffled ∧
      bank.resolve ⟨none, transfer⟩ = .ok ⟨send, transferred⟩ ∧
      bank.resolve ⟨none, shuffled⟩ = .ok ⟨send, transferred⟩ := by
  have h : Rearranged transfer shuffled := ⟨rfl, by decide, rfl⟩
  have hres : bank.resolve ⟨none, transfer⟩ = .ok ⟨send, transferred⟩ := rfl
  rcases resolve_rearranged bank_checked (s := ⟨none, transfer⟩) (t := ⟨none, shuffled⟩) h with
    ⟨b, hb, hb'⟩ | ⟨text, htext, -⟩ | ⟨e, -, he, -⟩
  · cases hres.symm.trans hb
    exact ⟨bank_checked, h, hres, hb'⟩
  · cases hres.symm.trans htext
  · cases hres.symm.trans he

end Command

end ChatCommand
