import ChatCommand.Proofs.Bind.Reading
import Mathlib.Data.List.Find

namespace ChatCommand

def Arity.fallback? : Arity → Option Value
  | fallback v => some v
  | _ => none

theorem Arity.fallback?_eq_some_iff {arity : Arity} {v : Value} :
    arity.fallback? = some v ↔ arity = .fallback v := by
  cases arity <;> simp [fallback?]

namespace Command

variable {C : Type} {cmd : Command C} {nodes : List Node} {m : Misfit} {a : Arguments} {b : Binding}

section Fill

variable {specs : List KwargSpec} {given filled : SortedMap Text (Option Value)}

def isMissing (given : SortedMap Text (Option Value)) (spec : KwargSpec) : Bool :=
  spec.arity = .required && !given.contains spec.key

theorem isMissing_insert {spec other : KwargSpec} {v : Option Value} (h : other.key ≠ spec.key) :
    isMissing (given.insert spec.key v) other = isMissing given other := by
  rw [isMissing, isMissing, SortedMap.contains, SortedMap.get?_insert, if_neg h.symm,
    SortedMap.contains]

theorem fillKwargs_eq_error_iff (hs : (specs.map (·.key)).Nodup) :
    fillKwargs specs given = .error m ↔
      ∃ spec, specs.find? (isMissing given) = some spec ∧ m = .missingKwarg spec.key := by
  induction specs generalizing given with
  | nil => simp [fillKwargs]
  | cons spec specs ih =>
    rw [List.map_cons, List.nodup_cons] at hs
    by_cases hgiven : given.contains spec.key
    · rw [fillKwargs, if_pos hgiven, ih hs.2, List.find?_cons_of_neg (by simp [isMissing, hgiven])]
    rw [fillKwargs, if_neg hgiven]
    rcases harity : spec.arity with _ | _ | v
    · simp only
      rw [ih hs.2, List.find?_cons_of_neg (by simp [isMissing, harity])]
    · rw [List.find?_cons_of_pos (by simp [isMissing, harity, hgiven])]
      simp [eq_comm]
    · have hsame : specs.find? (isMissing (given.insert spec.key (some v))) =
          specs.find? (isMissing given) :=
        List.find?_congr fun other ho ↦
          isMissing_insert fun h ↦ hs.1 (h ▸ List.mem_map_of_mem ho)
      simp only
      rw [ih hs.2, hsame, List.find?_cons_of_neg (by simp [isMissing, harity])]

theorem fillKwargs_get? (hs : (specs.map (·.key)).Nodup) (h : fillKwargs specs given = .ok filled)
    (key : Text) :
    filled.get? key = (given.get? key).or
      (((specs.find? (·.key = key)).bind (·.arity.fallback?)).map some) := by
  -- The kwargs filled in so far count as given, and no key is declared again.
  induction specs generalizing given with
  | nil =>
    cases h
    simp
  | cons spec specs ih =>
    rw [List.map_cons, List.nodup_cons] at hs
    have hother (hkey : spec.key = key) : specs.find? (·.key = key) = none := by
      rw [List.find?_eq_none]
      intro other ho hk
      exact hs.1 (List.mem_map.2 ⟨other, ho, (of_decide_eq_true hk).trans hkey.symm⟩)
    by_cases hgiven : given.contains spec.key
    · rw [fillKwargs, if_pos hgiven] at h
      rw [ih hs.2 h]
      by_cases hkey : spec.key = key
      · obtain ⟨v, hv⟩ := Option.isSome_iff_exists.1 hgiven
        rw [← hkey, hv, Option.some_or, Option.some_or]
      · rw [List.find?_cons_of_neg (by simpa using hkey)]
    rw [fillKwargs, if_neg hgiven] at h
    rcases harity : spec.arity with _ | _ | v
    · simp only [harity] at h
      rw [ih hs.2 h]
      by_cases hkey : spec.key = key
      · rw [hother hkey, List.find?_cons_of_pos (by simpa using hkey)]
        simp [harity, Arity.fallback?]
      · rw [List.find?_cons_of_neg (by simpa using hkey)]
    · simp [harity] at h
    · simp only [harity] at h
      rw [ih hs.2 h, SortedMap.get?_insert]
      by_cases hkey : spec.key = key
      · have hnone : given.get? key = none := by
          simpa [SortedMap.contains, hkey] using hgiven
        rw [if_pos hkey, hnone, List.find?_cons_of_pos (by simpa using hkey)]
        simp [harity, Arity.fallback?]
      · rw [if_neg hkey, List.find?_cons_of_neg (by simpa using hkey)]

theorem fillKwargs_required (hs : (specs.map (·.key)).Nodup)
    (h : fillKwargs specs given = .ok filled) {spec : KwargSpec} (hspec : spec ∈ specs)
    (hreq : spec.arity = .required) : given.contains spec.key := by
  by_contra hnot
  have hsome : (specs.find? (isMissing given)).isSome :=
    List.find?_isSome.2 ⟨spec, hspec, by simp [isMissing, hreq, hnot]⟩
  obtain ⟨first, hfirst⟩ := Option.isSome_iff_exists.1 hsome
  cases h.symm.trans ((fillKwargs_eq_error_iff hs).2 ⟨first, hfirst, rfl⟩)

end Fill

section Clean

theorem Clean.not_nodeFault (h : cmd.Clean nodes) {n : Node} (hn : n ∈ nodes) :
    ∃ before, ∀ m, ¬cmd.NodeFault before n m := by
  obtain ⟨before, after, rfl⟩ := List.append_of_mem hn
  exact ⟨before, h before n after rfl⟩

theorem Clean.declared_flag (h : cmd.Clean nodes) {c : Char} (hc : .flag c ∈ nodes) :
    ∃ spec ∈ cmd.flags, spec.name = c := by
  obtain ⟨before, hno⟩ := h.not_nodeFault hc
  by_contra hnone
  exact hno _ (.flag fun spec hs hname ↦ hnone ⟨spec, hs, hname⟩)

theorem Clean.declared_key (h : cmd.Clean nodes) {key : Text} (hk : key ∈ keys nodes) :
    ∃ spec ∈ cmd.kwargs, spec.key = key := by
  obtain ⟨literal, hn⟩ := mem_keys.1 hk
  obtain ⟨before, hno⟩ := h.not_nodeFault hn
  by_contra hnone
  exact hno _ (.undeclared fun spec hs hkey ↦ hnone ⟨spec, hs, hkey⟩)

theorem Clean.tree_notMem (h : cmd.Clean nodes) (root : Option Text) (children : List Node) :
    .tree root children ∉ nodes := by
  intro hn
  obtain ⟨before, hno⟩ := h.not_nodeFault hn
  exact hno _ .tree

theorem Clean.keys_nodup (h : cmd.Clean nodes) : (keys nodes).Nodup := by
  induction nodes using List.reverseRecOn with
  | nil => exact List.nodup_nil
  | append_singleton nodes n ih =>
    obtain ⟨hnodes, hn⟩ := clean_concat_iff.1 h
    rcases n with s | c | ⟨key, literal⟩ | ⟨root, children⟩
    · simpa using ih hnodes
    · simpa using ih hnodes
    · have hkey : key ∈ keys (nodes ++ [.kwarg key literal]) := by simp
      obtain ⟨spec, hs, rfl⟩ := h.declared_key hkey
      have hnew : spec.key ∉ keys nodes := fun hk ↦ hn _ (.repeated hs hk)
      simpa [List.nodup_append, ih hnodes] using fun a ha (hkey : a = spec.key) ↦ hnew (hkey ▸ ha)
    · exact absurd .tree (hn _)

end Clean

section Complete

/-- What is wrong with nodes that fit one by one: their number, or else what is not there. -/
inductive Mismatch (cmd : Command C) (nodes : List Node) : Misfit → Prop
  | tooMany : cmd.args.length < (literals nodes).length →
      Mismatch cmd nodes (.tooManyArguments cmd.args.length (literals nodes).length)
  | tooFew : (literals nodes).length < cmd.args.countP (·.fallback.isNone) →
      Mismatch cmd nodes
        (.tooFewArguments (cmd.args.countP (·.fallback.isNone)) (literals nodes).length)
  | missing {spec : KwargSpec} : (literals nodes).length ≤ cmd.args.length →
      cmd.args.countP (·.fallback.isNone) ≤ (literals nodes).length →
      cmd.kwargs.find? (fun spec ↦ spec.arity = .required ∧ spec.key ∉ keys nodes) = some spec →
      Mismatch cmd nodes (.missingKwarg spec.key)

/-- What is wrong with the nodes as arguments of the command: the first one that does not fit, or
if there is none, what is wrong with all of them. -/
inductive Fault (cmd : Command C) (nodes : List Node) : Misfit → Prop
  | node {before after : List Node} {n : Node} {m : Misfit} : nodes = before ++ n :: after →
      cmd.Clean before → cmd.NodeFault before n m → Fault cmd nodes m
  | whole {m : Misfit} : cmd.Clean nodes → cmd.Mismatch nodes m → Fault cmd nodes m

theorem Reads.isMissing_eq (hr : cmd.Reads nodes b) (spec : KwargSpec) :
    isMissing b.arguments.kwargs spec =
      decide (spec.arity = .required ∧ spec.key ∉ keys nodes) := by
  simp only [← hr.present, isMissing, Arguments.hasKwarg]
  simp

theorem complete_eq_error_iff (hw : cmd.WellFormed) (hr : cmd.Reads nodes b) :
    cmd.complete b = .error m ↔ cmd.Mismatch nodes m := by
  have hle : cmd.args.countP (·.fallback.isNone) ≤ cmd.args.length := List.countP_le_length
  rw [complete, hw.requiredArgs_eq, hr.got]
  by_cases hmany : cmd.args.length < (literals nodes).length
  · rw [if_pos hmany]
    constructor
    · intro h
      cases h
      exact .tooMany hmany
    · intro h
      rcases h with _ | h | ⟨h, -⟩
      · rfl
      all_goals omega
  rw [if_neg hmany]
  by_cases hfew : (literals nodes).length < cmd.args.countP (·.fallback.isNone)
  · rw [if_pos hfew]
    constructor
    · intro h
      cases h
      exact .tooFew hfew
    · intro h
      rcases h with h | _ | ⟨-, h, -⟩
      · omega
      · rfl
      · omega
  rw [if_neg hfew]
  simp only [bind_eq_error, reduceCtorEq, and_false, exists_false, or_false,
    fillKwargs_eq_error_iff hw.kwargsDistinct, funext hr.isMissing_eq]
  constructor
  · intro h
    obtain ⟨spec, hspec, rfl⟩ := h
    exact .missing (by omega) (by omega) hspec
  · intro h
    cases h with
    | tooMany h => omega
    | tooFew h => omega
    | @missing spec _ _ hspec => exact ⟨spec, hspec, rfl⟩

theorem bind_eq_error_iff (hw : cmd.WellFormed) :
    cmd.bind nodes = .error m ↔ cmd.Fault nodes m := by
  rw [bind, ChatCommand.bind_eq_error]
  constructor
  · intro h
    rcases h with h | ⟨b, hb, h⟩
    · obtain ⟨before, n, after, rfl, hclean, hn⟩ := (bindNodes_eq_error_iff hw).1 h
      exact .node rfl hclean hn
    · have hr := bindNodes_reads reads_nil hb
      exact .whole ((exists_bindNodes_iff hw).1 ⟨b, hb⟩) ((complete_eq_error_iff hw hr).1 h)
  · intro h
    cases h with
    | node hnodes hclean hn =>
      exact .inl ((bindNodes_eq_error_iff hw).2 ⟨_, _, _, hnodes, hclean, hn⟩)
    | whole hclean h =>
      obtain ⟨b, hb⟩ := (exists_bindNodes_iff hw).2 hclean
      have hr := bindNodes_reads reads_nil hb
      exact .inr ⟨b, hb, (complete_eq_error_iff hw hr).2 h⟩

end Complete

section Binds

/-- The arguments say what the nodes say, and what the declaration adds. -/
structure Binds (cmd : Command C) (nodes : List Node) (a : Arguments) : Prop where
  fits : (literals nodes).length ≤ cmd.args.length
  values : a.values.map some =
    List.zipWith (fun spec s ↦ spec.ty.read? s) cmd.args (literals nodes) ++
      (cmd.args.drop (literals nodes).length).map (·.fallback)
  valueTypes : a.values.map Value.ty = cmd.args.map (·.ty)
  flags : ∀ c, a.hasFlag c ↔ .flag c ∈ nodes
  flagsDeclared : ∀ c, .flag c ∈ nodes → ∃ spec ∈ cmd.flags, spec.name = c
  keysDistinct : (keys nodes).Nodup
  kwargs : ∀ key, a.hasKwarg key ↔
    key ∈ keys nodes ∨ ∃ spec ∈ cmd.kwargs, spec.key = key ∧ ∃ v, spec.arity = .fallback v
  given : ∀ key literal, .kwarg key literal ∈ nodes → ∃ spec ∈ cmd.kwargs, spec.key = key ∧
    ∃ v, spec.Takes literal v ∧ a.kwargs.get? key = some v
  filled : ∀ spec ∈ cmd.kwargs, spec.key ∉ keys nodes → ∀ v, spec.arity = .fallback v →
    a.kwargs.get? spec.key = some (some v)
  kwargTypes : ∀ spec ∈ cmd.kwargs, ∀ v, a.kwargs.get? spec.key = some (some v) → v.ty = spec.ty
  required : ∀ spec ∈ cmd.kwargs, spec.arity = .required → spec.key ∈ keys nodes
  noTree : ∀ root children, .tree root children ∉ nodes
  noHelp : helpWord ∉ keys nodes

theorem map_some_filterMap {α β : Type} {f : α → Option β} {l : List α}
    (h : ∀ x ∈ l, (f x).isSome) : (l.filterMap f).map some = l.map f := by
  induction l with
  | nil => rfl
  | cons x l ih =>
    obtain ⟨y, hy⟩ := Option.isSome_iff_exists.1 (h x (by simp))
    simp [hy, ih fun z hz ↦ h z (by simp [hz])]

theorem map_ty_of_values {args : List ArgSpec} {literals : List Text} {values : List Value}
    (hf : ∀ arg ∈ args, ∀ v, arg.fallback = some v → v.ty = arg.ty)
    (h : values.map some = List.zipWith (fun spec s ↦ spec.ty.read? s) args literals ++
      (args.drop literals.length).map (·.fallback)) :
    values.map Value.ty = args.map (·.ty) := by
  -- Slot by slot: a literal is read in the type of its slot, and behind the literals stand
  -- fallbacks.
  induction args generalizing literals values with
  | nil => simpa using h
  | cons arg args ih =>
    have hrest : ∀ arg ∈ args, ∀ v, arg.fallback = some v → v.ty = arg.ty :=
      fun arg ha ↦ hf arg (by simp [ha])
    rcases literals with _ | ⟨s, literals⟩
    · rcases values with _ | ⟨v, values⟩
      · simp at h
      · simp only [List.map_cons, List.zipWith_nil_right, List.length_nil, List.drop_zero,
          List.nil_append, List.cons.injEq] at h
        have hv := hf arg (by simp) v h.1.symm
        have hvs : values.map some =
            List.zipWith (fun spec s ↦ spec.ty.read? s) args [] ++
              (args.drop ([] : List Text).length).map (·.fallback) := by
          simpa using h.2
        rw [List.map_cons, List.map_cons, hv, ih hrest hvs]
    · rcases values with _ | ⟨v, values⟩
      · simp at h
      · simp only [List.map_cons, List.zipWith_cons_cons, List.length_cons, List.drop_succ_cons,
          List.cons_append, List.cons.injEq] at h
        have hv := Ty.ty_of_read? h.1.symm
        rw [List.map_cons, List.map_cons, hv, ih hrest h.2]

section Filled

variable {filled : SortedMap Text (Option Value)} {key : Text}

theorem Reads.get?_eq_none (hr : cmd.Reads nodes b) (hkey : key ∉ keys nodes) :
    b.arguments.kwargs.get? key = none := by
  rw [← hr.present] at hkey
  simpa [Arguments.hasKwarg, SortedMap.contains] using hkey

theorem get?_of_given (hw : cmd.WellFormed) (hr : cmd.Reads nodes b)
    (hfill : fillKwargs cmd.kwargs b.arguments.kwargs = .ok filled) {literal : Option Text}
    (hn : .kwarg key literal ∈ nodes) : ∃ spec ∈ cmd.kwargs, spec.key = key ∧
      ∃ v, spec.Takes literal v ∧ filled.get? key = some v := by
  obtain ⟨spec, hs, hkey, v, hv, hb⟩ := hr.given key literal hn
  exact ⟨spec, hs, hkey, v, hv,
    by rw [fillKwargs_get? hw.kwargsDistinct hfill, hb, Option.some_or]⟩

theorem get?_of_not_given (hw : cmd.WellFormed) (hr : cmd.Reads nodes b)
    (hfill : fillKwargs cmd.kwargs b.arguments.kwargs = .ok filled) {spec : KwargSpec}
    (hs : spec ∈ cmd.kwargs) (hkey : spec.key ∉ keys nodes) :
    filled.get? spec.key = spec.arity.fallback?.map some := by
  have hfind : cmd.kwargs.find? (·.key = spec.key) = some spec :=
    hw.kwarg?_eq_some_iff.2 ⟨hs, rfl⟩
  rw [fillKwargs_get? hw.kwargsDistinct hfill, hr.get?_eq_none hkey, hfind]
  rfl

theorem contains_filled_iff (hw : cmd.WellFormed) (hr : cmd.Reads nodes b)
    (hfill : fillKwargs cmd.kwargs b.arguments.kwargs = .ok filled) :
    filled.contains key ↔
      key ∈ keys nodes ∨ ∃ spec ∈ cmd.kwargs, spec.key = key ∧ ∃ v, spec.arity = .fallback v := by
  by_cases hkey : key ∈ keys nodes
  · obtain ⟨literal, hn⟩ := mem_keys.1 hkey
    obtain ⟨-, -, -, v, -, hv⟩ := get?_of_given hw hr hfill hn
    simp [SortedMap.contains, hv, hkey]
  · rw [SortedMap.contains, fillKwargs_get? hw.kwargsDistinct hfill, hr.get?_eq_none hkey,
      Option.none_or, Option.isSome_map, Option.isSome_iff_exists, ← kwarg?]
    simp only [Option.bind_eq_some_iff, hw.kwarg?_eq_some_iff, Arity.fallback?_eq_some_iff, hkey,
      false_or]
    constructor
    · intro h
      obtain ⟨v, spec, ⟨hs, hk⟩, hv⟩ := h
      exact ⟨spec, hs, hk, v, hv⟩
    · intro h
      obtain ⟨spec, hs, hk, v, hv⟩ := h
      exact ⟨v, spec, ⟨hs, hk⟩, hv⟩

theorem ty_of_filled (hw : cmd.WellFormed) (hr : cmd.Reads nodes b)
    (hfill : fillKwargs cmd.kwargs b.arguments.kwargs = .ok filled) {spec : KwargSpec}
    (hs : spec ∈ cmd.kwargs) {v : Value} (hv : filled.get? spec.key = some (some v)) :
    v.ty = spec.ty := by
  by_cases hkey : spec.key ∈ keys nodes
  · obtain ⟨literal, hn⟩ := mem_keys.1 hkey
    obtain ⟨other, ho, hk, w, htakes, hother⟩ := get?_of_given hw hr hfill hn
    obtain rfl := hw.kwarg_unique ho hs hk
    obtain rfl : w = some v := Option.some.inj (hother.symm.trans hv)
    exact htakes.ty_eq
  · rw [get?_of_not_given hw hr hfill hs hkey] at hv
    have hfall : spec.arity.fallback? = some v := by simpa using hv
    exact hw.kwargFallback spec hs v (Arity.fallback?_eq_some_iff.1 hfall)

end Filled

theorem complete_binds (hw : cmd.WellFormed) (hclean : cmd.Clean nodes) (hr : cmd.Reads nodes b)
    (h : cmd.complete b = .ok a) : cmd.Binds nodes a := by
  simp only [complete, guard_eq_ok, bind_eq_ok, Except.ok.injEq] at h
  obtain ⟨hmany, hfew, filled, hfill, rfl⟩ := h
  have hvalues : (b.arguments.values ++ (cmd.args.drop b.got).filterMap (·.fallback)).map some =
      List.zipWith (fun spec s ↦ spec.ty.read? s) cmd.args (literals nodes) ++
        (cmd.args.drop (literals nodes).length).map (·.fallback) := by
    rw [List.map_append, hr.values, ← hr.got,
      map_some_filterMap (isSome_of_mem_drop hw.fallbacksLast (Nat.le_of_not_lt hfew))]
  refine
    { fits := by rw [← hr.got]; omega
      values := hvalues
      valueTypes := map_ty_of_values hw.argFallback hvalues
      flags := hr.flags
      flagsDeclared := fun c hc ↦ hclean.declared_flag hc
      keysDistinct := hclean.keys_nodup
      kwargs := fun key ↦ contains_filled_iff hw hr hfill
      given := fun key literal hn ↦ get?_of_given hw hr hfill hn
      filled := fun spec hs hkey v hv ↦ ?_
      kwargTypes := fun spec hs v hv ↦ ty_of_filled hw hr hfill hs hv
      required := fun spec hs hreq ↦
        (hr.present _).1 (fillKwargs_required hw.kwargsDistinct hfill hs hreq)
      noTree := hclean.tree_notMem
      noHelp := fun hhelp ↦ ?_ }
  · have hget := get?_of_not_given hw hr hfill hs hkey
    rwa [hv] at hget
  · obtain ⟨spec, hs, hkey⟩ := hclean.declared_key hhelp
    exact (hw.kwargKey spec hs).1 hkey

theorem bind_binds (hw : cmd.WellFormed) (h : cmd.bind nodes = .ok a) : cmd.Binds nodes a := by
  obtain ⟨b, hb, h⟩ := bind_eq_ok.1 h
  have hr : cmd.Reads nodes b := bindNodes_reads reads_nil hb
  exact complete_binds hw ((exists_bindNodes_iff hw).1 ⟨b, hb⟩) hr h

end Binds

end Command

end ChatCommand
