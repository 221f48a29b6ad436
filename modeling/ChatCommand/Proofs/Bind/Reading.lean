import ChatCommand.Proofs.Bind.Descent
import ChatCommand.Proofs.Scan
import ChatCommand.Proofs.SortedMap
import Mathlib.Data.List.Induction

namespace ChatCommand

namespace Node

def literal? : Node → Option Text
  | value s => some s
  | _ => none

def key? : Node → Option Text
  | kwarg key _ => some key
  | _ => none

end Node

def literals (nodes : List Node) : List Text :=
  nodes.filterMap Node.literal?

def keys (nodes : List Node) : List Text :=
  nodes.filterMap Node.key?

section Append

variable {before nodes : List Node} {s : Text} {c : Char} {key : Text} {literal : Option Text}

@[simp]
theorem literals_append : literals (before ++ nodes) = literals before ++ literals nodes :=
  List.filterMap_append

@[simp]
theorem literals_value : literals [.value s] = [s] := rfl

@[simp]
theorem literals_flag : literals [.flag c] = [] := rfl

@[simp]
theorem literals_kwarg : literals [.kwarg key literal] = [] := rfl

@[simp]
theorem keys_append : keys (before ++ nodes) = keys before ++ keys nodes :=
  List.filterMap_append

@[simp]
theorem keys_value : keys [.value s] = [] := rfl

@[simp]
theorem keys_flag : keys [.flag c] = [] := rfl

@[simp]
theorem keys_kwarg : keys [.kwarg key literal] = [key] := rfl

end Append

theorem mem_keys {nodes : List Node} {key : Text} :
    key ∈ keys nodes ↔ ∃ literal, .kwarg key literal ∈ nodes := by
  simp only [keys, List.mem_filterMap]
  constructor
  · intro h
    obtain ⟨n, hn, hkey⟩ := h
    cases n <;> cases hkey
    exact ⟨_, hn⟩
  · intro h
    obtain ⟨literal, h⟩ := h
    exact ⟨_, h, rfl⟩

theorem Ty.coerce_eq_ok_iff {ty : Ty} {s : Text} {v : Value} :
    ty.coerce s = .ok v ↔ ty.read? s = some v := by
  rcases h : ty.read? s with _ | w <;> simp [coerce, h]

theorem Ty.coerce_eq_error_iff {ty : Ty} {s : Text} {m : Misfit} :
    ty.coerce s = .error m ↔ ty.read? s = none ∧ m = .coercion s ty := by
  rcases h : ty.read? s with _ | w <;> simp [coerce, h, eq_comm]

/-- What a kwarg makes of the literal behind its key, if there is one. -/
inductive KwargSpec.Takes (spec : KwargSpec) : Option Text → Option Value → Prop
  | value {s : Text} {v : Value} : spec.ty.coerce s = .ok v → Takes spec (some s) (some v)
  | bare : spec.bare → Takes spec none none

theorem KwargSpec.Takes.ty_eq {spec : KwargSpec} {literal : Option Text} {v : Value}
    (h : spec.Takes literal (some v)) : v.ty = spec.ty := by
  cases h with
  | value h => exact Ty.ty_of_read? (Ty.coerce_eq_ok_iff.1 h)

namespace Command

variable {C : Type} {cmd : Command C} {before nodes : List Node} {n : Node} {b b' : Binding}
  {m : Misfit}

theorem kwargValue_eq_ok_iff {spec : KwargSpec} {literal : Option Text} {v : Option Value} :
    kwargValue spec literal = .ok v ↔ spec.Takes literal v := by
  constructor
  · intro h
    rcases literal with _ | s
    · simp only [kwargValue] at h
      split at h
      · rename_i hb
        cases h
        exact .bare hb
      · cases h
    · rcases hs : spec.ty.coerce s with e | x
      · simp [kwargValue, hs, Except.map] at h
      · simp only [kwargValue, hs, Except.map, Except.ok.injEq] at h
        exact h ▸ .value hs
  · intro h
    rcases h with h | h
    · simp [kwargValue, h, Except.map]
    · simp [kwargValue, h]

/-- Why a node does not fit the command, in view of the nodes before it. -/
inductive NodeFault (cmd : Command C) (before : List Node) : Node → Misfit → Prop
  | value {spec : ArgSpec} {s : Text} : cmd.args[(literals before).length]? = some spec →
      spec.ty.read? s = none → NodeFault cmd before (.value s) (.coercion s spec.ty)
  | flag {c : Char} : (∀ spec ∈ cmd.flags, spec.name ≠ c) →
      NodeFault cmd before (.flag c) (.invalidFlag c cmd.name)
  | undeclared {key : Text} {literal : Option Text} : (∀ spec ∈ cmd.kwargs, spec.key ≠ key) →
      NodeFault cmd before (.kwarg key literal) (.invalidKwarg key cmd.name)
  | repeated {spec : KwargSpec} {literal : Option Text} : spec ∈ cmd.kwargs →
      spec.key ∈ keys before →
      NodeFault cmd before (.kwarg spec.key literal) (.duplicateKwarg spec.key)
  | literal {spec : KwargSpec} {s : Text} : spec ∈ cmd.kwargs → spec.key ∉ keys before →
      spec.ty.read? s = none →
      NodeFault cmd before (.kwarg spec.key (some s)) (.coercion s spec.ty)
  | valueless {spec : KwargSpec} : spec ∈ cmd.kwargs → spec.key ∉ keys before →
      spec.bare = false →
      NodeFault cmd before (.kwarg spec.key none) (.missingKwargValue spec.key spec.ty)
  | tree {root : Option Text} {children : List Node} :
      NodeFault cmd before (.tree root children) (.unexpectedNode (root.getD []) cmd.name)

def Clean (cmd : Command C) (nodes : List Node) : Prop :=
  ∀ before n after, nodes = before ++ n :: after → ∀ m, ¬cmd.NodeFault before n m

/-- The binding is what the nodes amount to. -/
structure Reads (cmd : Command C) (nodes : List Node) (b : Binding) : Prop where
  got : b.got = (literals nodes).length
  values : List.zipWith (fun spec s ↦ spec.ty.read? s) cmd.args (literals nodes) =
    b.arguments.values.map some
  flags : ∀ c, b.arguments.hasFlag c ↔ .flag c ∈ nodes
  present : ∀ key, b.arguments.hasKwarg key ↔ key ∈ keys nodes
  given : ∀ key literal, .kwarg key literal ∈ nodes → ∃ spec ∈ cmd.kwargs, spec.key = key ∧
    ∃ v, spec.Takes literal v ∧ b.arguments.kwargs.get? key = some v

theorem reads_nil : cmd.Reads [] ⟨.empty, 0⟩ where
  got := rfl
  values := by simp [literals, Arguments.empty]
  flags := by simp [Arguments.hasFlag, Arguments.empty]
  present := by simp [Arguments.hasKwarg, Arguments.empty, keys]
  given := by simp

theorem flag?_eq_none_iff {c : Char} :
    cmd.flag? c = none ↔ ∀ spec ∈ cmd.flags, spec.name ≠ c := by
  simp [flag?, List.find?_eq_none]

theorem kwarg?_eq_none_iff {key : Text} :
    cmd.kwarg? key = none ↔ ∀ spec ∈ cmd.kwargs, spec.key ≠ key := by
  simp [kwarg?, List.find?_eq_none]

theorem bindValue_eq_error_iff {s : Text} (hr : cmd.Reads before b) :
    cmd.bindValue b s = .error m ↔ cmd.NodeFault before (.value s) m := by
  rw [bindValue, hr.got]
  rcases hslot : cmd.args[(literals before).length]? with _ | spec
  · simp only [reduceCtorEq, false_iff]
    intro h
    obtain ⟨hs, -⟩ := h
    cases hslot.symm.trans hs
  · simp only [bind_eq_error, reduceCtorEq, and_false, exists_false, or_false,
      Ty.coerce_eq_error_iff]
    constructor
    · intro h
      obtain ⟨h, rfl⟩ := h
      exact .value hslot h
    · intro h
      cases h with
      | value hs h =>
        cases hslot.symm.trans hs
        exact ⟨h, rfl⟩

theorem bindFlag_eq_error_iff {c : Char} :
    cmd.bindFlag b c = .error m ↔ cmd.NodeFault before (.flag c) m := by
  rw [bindFlag]
  rcases hfind : cmd.flag? c with _ | spec
  · simp only [Except.error.injEq]
    constructor
    · intro hm
      subst hm
      exact .flag (flag?_eq_none_iff.1 hfind)
    · intro h
      cases h
      rfl
  · simp only [reduceCtorEq, false_iff]
    intro h
    cases h with
    | flag h => cases hfind.symm.trans (flag?_eq_none_iff.2 h)

theorem kwargValue_eq_error_iff {spec : KwargSpec} {literal : Option Text} :
    kwargValue spec literal = .error m ↔
      (∃ s, literal = some s ∧ spec.ty.read? s = none ∧ m = .coercion s spec.ty) ∨
        literal = none ∧ spec.bare = false ∧ m = .missingKwargValue spec.key spec.ty := by
  rcases literal with _ | s
  · rcases hb : spec.bare <;> simp [kwargValue, hb, eq_comm]
  · rcases h : spec.ty.coerce s with e | v
    · obtain ⟨hs, rfl⟩ := Ty.coerce_eq_error_iff.1 h
      simp only [kwargValue, h, Except.map, Except.error.injEq]
      constructor
      · intro hm
        subst hm
        exact .inl ⟨s, rfl, hs, rfl⟩
      · intro h
        rcases h with ⟨_, ⟨⟩, -, rfl⟩ | ⟨⟨⟩, -⟩
        rfl
    · simp [kwargValue, h, Ty.coerce_eq_ok_iff.1 h, Except.map]

theorem bindKwarg_eq_error_iff {key : Text} {literal : Option Text} (hw : cmd.WellFormed)
    (hr : cmd.Reads before b) :
    cmd.bindKwarg b key literal = .error m ↔ cmd.NodeFault before (.kwarg key literal) m := by
  rw [bindKwarg]
  rcases hfind : cmd.kwarg? key with _ | spec
  · have hnone := kwarg?_eq_none_iff.1 hfind
    simp only [Except.error.injEq]
    constructor
    · intro hm
      subst hm
      exact .undeclared hnone
    · intro h
      cases h with
      | undeclared => rfl
      | repeated hs | literal hs | valueless hs => exact absurd rfl (hnone _ hs)
  obtain ⟨hmem, hkey⟩ := hw.kwarg?_eq_some_iff.1 hfind
  by_cases hseen : b.arguments.kwargs.contains key
  · have hbefore : key ∈ keys before := (hr.present key).1 hseen
    simp only [hseen, if_true, Except.error.injEq]
    constructor
    · intro hm
      subst hm
      exact hkey ▸ .repeated hmem (hkey ▸ hbefore)
    · intro h
      cases h with
      | undeclared h => exact absurd hkey (h spec hmem)
      | repeated => rfl
      | literal _ h | valueless _ h => exact absurd hbefore h
  · have hbefore : key ∉ keys before := fun h ↦ hseen ((hr.present key).2 h)
    simp only [if_neg hseen, bind_eq_error, reduceCtorEq, and_false, exists_false, or_false,
      kwargValue_eq_error_iff]
    constructor
    · intro h
      rcases h with ⟨s, rfl, hs, rfl⟩ | ⟨rfl, hb, rfl⟩
      · exact hkey ▸ .literal hmem (hkey ▸ hbefore) hs
      · exact hkey ▸ .valueless hmem (hkey ▸ hbefore) hb
    · intro h
      cases h with
      | undeclared h => exact absurd hkey (h spec hmem)
      | repeated _ h => exact absurd h hbefore
      | literal hs _ h =>
        cases hw.kwarg_unique hs hmem hkey.symm
        exact .inl ⟨_, rfl, h, rfl⟩
      | valueless hs _ h =>
        cases hw.kwarg_unique hs hmem hkey.symm
        exact .inr ⟨rfl, h, rfl⟩

theorem bindNode_eq_error_iff (hw : cmd.WellFormed) (hr : cmd.Reads before b) :
    cmd.bindNode b n = .error m ↔ cmd.NodeFault before n m := by
  cases n with
  | value s => exact bindValue_eq_error_iff hr
  | flag c => exact bindFlag_eq_error_iff
  | kwarg key literal => exact bindKwarg_eq_error_iff hw hr
  | tree root children =>
    simp only [bindNode, Except.error.injEq, Node.spelling]
    constructor
    · intro hm
      subst hm
      exact .tree
    · intro h
      cases h
      rfl

section Step

theorem zipWith_concat {α β γ : Type} (f : α → β → γ) (as : List α) (bs : List β) (y : β) :
    List.zipWith f as (bs ++ [y]) =
      List.zipWith f as bs ++ (as[bs.length]?.map (f · y)).toList := by
  induction bs generalizing as with
  | nil => cases as <;> simp
  | cons x bs ih => cases as <;> simp [ih]

theorem bindValue_reads {s : Text} (hr : cmd.Reads before b) (h : cmd.bindValue b s = .ok b') :
    cmd.Reads (before ++ [.value s]) b' := by
  have hlen : b.got + 1 = (literals (before ++ [.value s])).length := by simp [hr.got]
  have hvalues := zipWith_concat (fun spec s ↦ Ty.read? spec.ty s) cmd.args (literals before) s
  rw [hr.values, ← hr.got] at hvalues
  rw [bindValue] at h
  rcases hslot : cmd.args[b.got]? with _ | spec
  · rw [hslot] at h hvalues
    cases h
    exact ⟨hlen, by simpa using hvalues, by simpa using hr.flags, by simpa using hr.present,
      by simpa using hr.given⟩
  · simp only [hslot, bind_eq_ok, Except.ok.injEq, Ty.coerce_eq_ok_iff] at h
    obtain ⟨v, hv, rfl⟩ := h
    rw [hslot] at hvalues
    exact ⟨hlen, by simpa [hv] using hvalues, by simpa [Arguments.hasFlag] using hr.flags,
      by simpa [Arguments.hasKwarg] using hr.present, by simpa using hr.given⟩

theorem bindFlag_reads {c : Char} (hr : cmd.Reads before b) (h : cmd.bindFlag b c = .ok b') :
    cmd.Reads (before ++ [.flag c]) b' := by
  rw [bindFlag] at h
  rcases hfind : cmd.flag? c with _ | spec
  · rw [hfind] at h
    cases h
  · rw [hfind] at h
    cases h
    refine ⟨by simpa using hr.got, by simpa using hr.values, fun d ↦ ?_,
      by simpa [Arguments.hasKwarg] using hr.present, by simpa using hr.given⟩
    rw [Arguments.hasFlag, SortedMap.contains_insert, ← Arguments.hasFlag, hr.flags]
    simp [or_comm, eq_comm]

theorem bindKwarg_reads {key : Text} {literal : Option Text} (hr : cmd.Reads before b)
    (h : cmd.bindKwarg b key literal = .ok b') :
    cmd.Reads (before ++ [.kwarg key literal]) b' := by
  rw [bindKwarg] at h
  rcases hfind : cmd.kwarg? key with _ | spec
  · rw [hfind] at h
    cases h
  simp only [hfind, guard_eq_ok, bind_eq_ok, Except.ok.injEq, kwargValue_eq_ok_iff] at h
  obtain ⟨hnew, v, hv, rfl⟩ := h
  have hmem : spec ∈ cmd.kwargs := List.mem_of_find?_eq_some hfind
  have hkey : spec.key = key := by simpa using List.find?_some hfind
  refine ⟨by simpa using hr.got, by simpa using hr.values,
    by simpa [Arguments.hasFlag] using hr.flags, fun k ↦ ?_, fun k l hkl ↦ ?_⟩
  · rw [Arguments.hasKwarg, SortedMap.contains_insert, ← Arguments.hasKwarg, hr.present]
    simp [or_comm, eq_comm]
  · rcases List.mem_append.1 hkl with hbefore | hlast
    · obtain ⟨other, ho, hk, w, hw, hget⟩ := hr.given k l hbefore
      -- The key was there before, so it is another one than the key that is put in now.
      have hne : key ≠ k := fun h ↦ hnew ((hr.present key).2 (mem_keys.2 ⟨l, h ▸ hbefore⟩))
      exact ⟨other, ho, hk, w, hw, by rw [SortedMap.get?_insert, if_neg hne, hget]⟩
    · obtain ⟨rfl, rfl⟩ : k = key ∧ l = literal := by simpa using hlast
      exact ⟨spec, hmem, hkey, v, hv, by rw [SortedMap.get?_insert, if_pos rfl]⟩

theorem bindNode_reads (hr : cmd.Reads before b) (h : cmd.bindNode b n = .ok b') :
    cmd.Reads (before ++ [n]) b' := by
  cases n with
  | value s => exact bindValue_reads hr h
  | flag c => exact bindFlag_reads hr h
  | kwarg key literal => exact bindKwarg_reads hr h
  | tree root children => cases h

end Step

section Run

variable {after : List Node}

theorem bindNodes_append :
    cmd.bindNodes b (nodes ++ after) = cmd.bindNodes b nodes >>= (cmd.bindNodes · after) := by
  induction nodes generalizing b with
  | nil => rfl
  | cons n nodes ih =>
    simp only [List.cons_append, bindNodes, ih]
    cases cmd.bindNode b n <;> rfl

theorem bindNodes_reads (hr : cmd.Reads before b) (h : cmd.bindNodes b nodes = .ok b') :
    cmd.Reads (before ++ nodes) b' := by
  induction nodes generalizing before b with
  | nil =>
    cases h
    simpa using hr
  | cons n nodes ih =>
    obtain ⟨x, hx, h⟩ := bind_eq_ok.1 h
    simpa using ih (bindNode_reads hr hx) h

theorem clean_concat_iff : cmd.Clean (nodes ++ [n]) ↔
    cmd.Clean nodes ∧ ∀ m, ¬cmd.NodeFault nodes n m :=
  faultless_concat_iff

theorem exists_bindNodes_iff (hw : cmd.WellFormed) :
    (∃ b, cmd.bindNodes ⟨.empty, 0⟩ nodes = .ok b) ↔ cmd.Clean nodes := by
  induction nodes using List.reverseRecOn with
  | nil => exact ⟨fun _ _ _ _ h ↦ by simp at h, fun _ ↦ ⟨_, rfl⟩⟩
  | append_singleton nodes n ih =>
    rw [clean_concat_iff, ← ih]
    simp only [bindNodes_append, bind_eq_ok]
    constructor
    · intro h
      obtain ⟨b, x, hx, hb⟩ := h
      refine ⟨⟨x, hx⟩, fun m hm ↦ ?_⟩
      have hr := bindNodes_reads reads_nil hx
      obtain ⟨y, hy, -⟩ := bind_eq_ok.1 hb
      cases hy.symm.trans ((bindNode_eq_error_iff hw hr).2 hm)
    · intro h
      obtain ⟨⟨x, hx⟩, hn⟩ := h
      have hr := bindNodes_reads reads_nil hx
      rcases hstep : cmd.bindNode x n with m | b
      · exact absurd ((bindNode_eq_error_iff hw hr).1 hstep) (hn m)
      · exact ⟨b, x, hx, bind_eq_ok.2 ⟨b, hstep, rfl⟩⟩

theorem bindNodes_eq_error_iff (hw : cmd.WellFormed) :
    cmd.bindNodes ⟨.empty, 0⟩ nodes = .error m ↔
      ∃ before n after, nodes = before ++ n :: after ∧ cmd.Clean before ∧
        cmd.NodeFault before n m := by
  constructor
  · induction nodes using List.reverseRecOn with
    | nil => exact fun h ↦ by cases h
    | append_singleton nodes n ih =>
      rw [bindNodes_append, bind_eq_error]
      intro h
      rcases h with h | ⟨x, hx, h⟩
      · obtain ⟨before, k, after, rfl, hclean, hk⟩ := ih h
        exact ⟨before, k, after ++ [n], by simp, hclean, hk⟩
      · have hr := bindNodes_reads reads_nil hx
        rcases bind_eq_error.1 h with h | ⟨_, _, ⟨⟩⟩
        exact ⟨nodes, n, [], rfl, (exists_bindNodes_iff hw).1 ⟨x, hx⟩,
          (bindNode_eq_error_iff hw hr).1 h⟩
  · intro h
    obtain ⟨before, n, after, rfl, hclean, hn⟩ := h
    obtain ⟨x, hx⟩ := (exists_bindNodes_iff hw).2 hclean
    have hr := bindNodes_reads reads_nil hx
    rw [bindNodes_append, hx]
    change cmd.bindNodes x (n :: after) = _
    exact bind_eq_error.2 (.inl ((bindNode_eq_error_iff hw hr).2 hn))

end Run

end Command

end ChatCommand
