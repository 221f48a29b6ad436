import ChatCommand.Proofs.Bind.Outcome

namespace ChatCommand

variable {before after nodes : List Node} {s key : Text} {literal : Option Text}

theorem getElem?_literals (h : nodes = before ++ .value s :: after) :
    (literals nodes)[(literals before).length]? = some s := by
  have hall : literals nodes = literals before ++ s :: literals after := by
    rw [h]
    exact literals_append
  rw [hall, List.getElem?_append_right (Nat.le_refl _), Nat.sub_self]
  rfl

theorem key_notMem_keys (hdistinct : (keys nodes).Nodup)
    (h : nodes = before ++ .kwarg key literal :: after) : key ∉ keys before := by
  have hall : keys nodes = keys before ++ key :: keys after := by
    rw [h]
    exact keys_append
  rw [hall, List.nodup_append'] at hdistinct
  exact fun hbefore ↦ hdistinct.2.2 hbefore (List.mem_cons_self ..)

theorem KwargSpec.Takes.unique {spec : KwargSpec} {v w : Option Value}
    (hv : spec.Takes literal v) (hw : spec.Takes literal w) : v = w := by
  cases hv with
  | value hv =>
    cases hw with
    | value hw =>
      cases hv.symm.trans hw
      rfl
  | bare =>
    cases hw
    rfl

namespace Command

variable {C : Type} {cmd : Command C} {a b : Arguments}

/-- What nodes have to be like as arguments of the command, whatever their order is. -/
structure Suits (cmd : Command C) (nodes : List Node) : Prop where
  fits : (literals nodes).length ≤ cmd.args.length
  enough : cmd.args.countP (·.fallback.isNone) ≤ (literals nodes).length
  values : ∀ (i : Nat) (spec : ArgSpec) (s : Text), cmd.args[i]? = some spec →
    (literals nodes)[i]? = some s → ∃ v, spec.ty.coerce s = .ok v
  flags : ∀ c, .flag c ∈ nodes → ∃ spec ∈ cmd.flags, spec.name = c
  keysDistinct : (keys nodes).Nodup
  kwargs : ∀ key literal, .kwarg key literal ∈ nodes → ∃ spec ∈ cmd.kwargs, spec.key = key ∧
    ∃ v, spec.Takes literal v
  required : ∀ spec ∈ cmd.kwargs, spec.arity = .required → spec.key ∈ keys nodes
  noTree : ∀ root children, .tree root children ∉ nodes

namespace Suits

theorem clean (h : cmd.Suits nodes) (hw : cmd.WellFormed) : cmd.Clean nodes := by
  intro before n after hsplit m hfault
  have hn : n ∈ nodes := hsplit ▸ List.mem_append_right before (List.mem_cons_self ..)
  cases hfault with
  | @value spec s hslot hs =>
    obtain ⟨v, hv⟩ := h.values _ spec s hslot (getElem?_literals hsplit)
    cases hs.symm.trans (Ty.coerce_eq_ok_iff.1 hv)
  | flag hno =>
    obtain ⟨spec, hs, hname⟩ := h.flags _ hn
    exact hno spec hs hname
  | undeclared hno =>
    obtain ⟨spec, hs, hkey, -⟩ := h.kwargs _ _ hn
    exact hno spec hs hkey
  | repeated _ hbefore => exact key_notMem_keys h.keysDistinct hsplit hbefore
  | @literal spec s hspec _ hs =>
    obtain ⟨other, ho, hkey, v, htakes⟩ := h.kwargs _ _ hn
    cases hw.kwarg_unique ho hspec hkey
    cases htakes with
    | value hv => cases hs.symm.trans (Ty.coerce_eq_ok_iff.1 hv)
  | @valueless spec hspec _ hbare =>
    obtain ⟨other, ho, hkey, v, htakes⟩ := h.kwargs _ _ hn
    cases hw.kwarg_unique ho hspec hkey
    cases htakes with
    | bare hb => cases hbare.symm.trans hb
  | tree => exact h.noTree _ _ hn

theorem not_fault (h : cmd.Suits nodes) (hw : cmd.WellFormed) (m : Misfit) :
    ¬cmd.Fault nodes m := by
  intro hfault
  cases hfault with
  | node hsplit _ hn => exact h.clean hw _ _ _ hsplit _ hn
  | whole _ hm =>
    have hfits := h.fits
    have henough := h.enough
    cases hm with
    | tooMany hlt => omega
    | tooFew hlt => omega
    | @missing spec _ _ hfind =>
      have hspec : spec.arity = .required ∧ spec.key ∉ keys nodes := by
        simpa using List.find?_some hfind
      exact hspec.2 (h.required spec (List.mem_of_find?_eq_some hfind) hspec.1)

theorem exists_bind (h : cmd.Suits nodes) (hw : cmd.WellFormed) :
    ∃ a, cmd.bind nodes = .ok a ∧ cmd.Binds nodes a := by
  rcases hbind : cmd.bind nodes with m | a
  · exact absurd ((bind_eq_error_iff hw).1 hbind) (h.not_fault hw m)
  · exact ⟨a, rfl, bind_binds hw hbind⟩

end Suits

namespace Binds

theorem suits (h : cmd.Binds nodes a) : cmd.Suits nodes where
  fits := h.fits
  enough := by
    -- The slots without a literal are filled from their fallbacks, so each of them has one.
    have hnone : (cmd.args.drop (literals nodes).length).countP (·.fallback.isNone) = 0 := by
      rw [List.countP_eq_zero]
      intro spec hspec hfallback
      have hmem : none ∈ a.values.map some := by
        rw [h.values]
        exact List.mem_append_right _
          (List.mem_map.2 ⟨spec, hspec, Option.isNone_iff_eq_none.1 hfallback⟩)
      simp at hmem
    rw [← List.take_append_drop (literals nodes).length cmd.args, List.countP_append, hnone]
    exact List.countP_le_length.trans (List.length_take_le ..)
  values i spec s hspec hs := by
    have hread : (a.values.map some)[i]? = some (spec.ty.read? s) := by
      rw [h.values, List.getElem?_append_left, List.getElem?_zipWith, hspec, hs]
      obtain ⟨hi, -⟩ := List.getElem?_eq_some_iff.1 hspec
      obtain ⟨hj, -⟩ := List.getElem?_eq_some_iff.1 hs
      rw [List.length_zipWith]
      omega
    rw [List.getElem?_map, Option.map_eq_some_iff] at hread
    obtain ⟨v, -, hv⟩ := hread
    exact ⟨v, Ty.coerce_eq_ok_iff.2 hv.symm⟩
  flags := h.flagsDeclared
  keysDistinct := h.keysDistinct
  kwargs key literal hn := by
    obtain ⟨spec, hs, hkey, v, htakes, -⟩ := h.given key literal hn
    exact ⟨spec, hs, hkey, v, htakes⟩
  required := h.required
  noTree := h.noTree

theorem get?_of_not_given (h : cmd.Binds nodes a) (hw : cmd.WellFormed) {spec : KwargSpec}
    (hs : spec ∈ cmd.kwargs) (hkey : spec.key ∉ keys nodes) :
    a.kwargs.get? spec.key = spec.arity.fallback?.map some := by
  cases hf : spec.arity.fallback? with
  | some v => exact h.filled spec hs hkey v (Arity.fallback?_eq_some_iff.1 hf)
  | none =>
    have habsent : ¬a.hasKwarg spec.key := by
      intro hhas
      rcases (h.kwargs spec.key).1 hhas with hgiven | ⟨other, ho, hsame, v, hv⟩
      · exact hkey hgiven
      · cases hw.kwarg_unique ho hs hsame
        cases hf.symm.trans (Arity.fallback?_eq_some_iff.2 hv)
    simpa [Arguments.hasKwarg, SortedMap.contains] using habsent

theorem declared (h : cmd.Binds nodes a) (hkey : a.hasKwarg key) :
    ∃ spec ∈ cmd.kwargs, spec.key = key := by
  rcases (h.kwargs key).1 hkey with hgiven | ⟨spec, hs, hk, -⟩
  · obtain ⟨literal, hn⟩ := mem_keys.1 hgiven
    obtain ⟨spec, hs, hk, -⟩ := h.given key literal hn
    exact ⟨spec, hs, hk⟩
  · exact ⟨spec, hs, hk⟩

theorem get?_eq (ha : cmd.Binds nodes a) (hb : cmd.Binds nodes b) (hw : cmd.WellFormed)
    (key : Text) : a.kwargs.get? key = b.kwargs.get? key := by
  by_cases hspec : ∃ spec ∈ cmd.kwargs, spec.key = key
  · obtain ⟨spec, hs, rfl⟩ := hspec
    by_cases hkey : spec.key ∈ keys nodes
    · obtain ⟨literal, hn⟩ := mem_keys.1 hkey
      obtain ⟨first, hfirst, hsame, v, hv, hget⟩ := ha.given _ literal hn
      obtain ⟨other, hother, hsame', w, hw', hget'⟩ := hb.given _ literal hn
      cases hw.kwarg_unique hfirst hs hsame
      cases hw.kwarg_unique hother hs hsame'
      rw [hget, hget', hv.unique hw']
    · rw [ha.get?_of_not_given hw hs hkey, hb.get?_of_not_given hw hs hkey]
  · have absent {a : Arguments} (h : cmd.Binds nodes a) : a.kwargs.get? key = none := by
      have hno : ¬a.hasKwarg key := fun hhas ↦ hspec (h.declared hhas)
      simpa [Arguments.hasKwarg, SortedMap.contains] using hno
    rw [absent ha, absent hb]

theorem unique (ha : cmd.Binds nodes a) (hb : cmd.Binds nodes b) (hw : cmd.WellFormed) :
    a = b := by
  have hvalues : a.values = b.values :=
    List.map_injective_iff.2 (fun _ _ ↦ Option.some.inj) (ha.values.trans hb.values.symm)
  have hflags : a.flags = b.flags :=
    SortedMap.ext_contains fun c ↦ (ha.flags c).trans (hb.flags c).symm
  have hkwargs : a.kwargs = b.kwargs := SortedMap.ext_get? (ha.get?_eq hb hw)
  cases a
  cases b
  simp_all

end Binds

theorem bind_eq_ok_iff (hw : cmd.WellFormed) : cmd.bind nodes = .ok a ↔ cmd.Binds nodes a := by
  refine ⟨bind_binds hw, fun h ↦ ?_⟩
  obtain ⟨b, hbind, hb⟩ := h.suits.exists_bind hw
  rw [hbind, hb.unique h hw]

end Command

end ChatCommand
