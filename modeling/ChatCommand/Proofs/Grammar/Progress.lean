import ChatCommand.Proofs.Grammar.OnePass

namespace ChatCommand

open Text

inductive Turn (σ ρ : Type) where
  | again (state : σ)
  | stop (result : ρ)

namespace Turn

variable {σ ρ : Type} {turn : σ → Turn σ ρ}

/-- The loop that starts in a state stops with a result, and in this many turns. -/
inductive EndsIn (turn : σ → Turn σ ρ) : Nat → σ → ρ → Prop
  | stop {a : σ} {r : ρ} : turn a = .stop r → EndsIn turn 1 a r
  | again {n : Nat} {a b : σ} {r : ρ} : turn a = .again b → EndsIn turn n b r →
      EndsIn turn (n + 1) a r

/-- A loop stops when each turn leaves less to do. What no turn changes is then the result. -/
theorem exists_endsIn (size : σ → Nat) {outcome : σ → ρ}
    (step : ∀ a, turn a = .stop (outcome a) ∨
      ∃ b, turn a = .again b ∧ size b < size a ∧ outcome b = outcome a) (a : σ) :
    ∃ n ≤ size a + 1, EndsIn turn n a (outcome a) := by
  induction hn : size a using Nat.strongRecOn generalizing a with
  | ind m ih =>
    subst hn
    rcases step a with hstop | ⟨b, hagain, hlt, houtcome⟩
    · exact ⟨1, Nat.le_add_left 1 _, .stop hstop⟩
    · obtain ⟨n, hle, hends⟩ := ih _ hlt b rfl
      rw [← houtcome]
      exact ⟨n + 1, by omega, .again hagain hends⟩

end Turn

namespace Node

mutual

def size : Node → Nat
  | .tree _ children => sizes children + 1
  | .value _ | .flag _ | .kwarg _ _ => 1

def sizes : List Node → Nat
  | [] => 0
  | n :: nodes => size n + sizes nodes

end

theorem size_pos (n : Node) : 0 < n.size := by
  cases n <;> simp [size]

theorem length_le_sizes (nodes : List Node) : nodes.length ≤ sizes nodes := by
  induction nodes with
  | nil => exact Nat.le_refl 0
  | cons n nodes ih =>
    have := n.size_pos
    rw [List.length_cons, sizes]
    omega

theorem sizes_perm {ms ns : List Node} (h : ms.Perm ns) : sizes ms = sizes ns := by
  induction h with
  | nil => rfl
  | cons n _ ih => rw [sizes, sizes, ih]
  | swap m n nodes =>
    simp only [sizes]
    omega
  | trans _ _ first second => exact first.trans second

end Node

theorem Shortens.map {α β : Type} {rule : Text → Step α} (h : Shortens rule) (f : α → β) :
    Shortens fun s ↦ (rule s).map f := by
  intro s b rest hs
  obtain ⟨a, ha, -⟩ := Step.map_eq_some hs
  exact h ha

namespace Grammar

variable {α : Type} {rule : Text → Step α} {s rest : Text}

/-- A turn of the loop that applies a rule again and again, with what is found so far and the text
that is left. -/
def exhaustTurn (rule : Text → Step α) :
    List α × Text → Turn (List α × Text) (Except LineError (List α × Text))
  | (found, s) =>
    match trimmed rule s with
    | .error e => .stop (.error e)
    | .ok (none, _) => .stop (.ok (found, s))
    | .ok (some a, rest) => .again (found ++ [a], rest)

def exhaustFrom (shortens : Shortens rule) (p : List α × Text) :
    Except LineError (List α × Text) :=
  (exhaust rule shortens p.2).map fun q ↦ (p.1 ++ q.1, q.2)

theorem exhaustTurn_cases (shortens : Shortens rule) (p : List α × Text) :
    exhaustTurn rule p = .stop (exhaustFrom shortens p) ∨
      ∃ q, exhaustTurn rule p = .again q ∧ q.2.length < p.2.length ∧
        exhaustFrom shortens q = exhaustFrom shortens p := by
  obtain ⟨found, s⟩ := p
  rcases exhaust_cases shortens s with ⟨e, he, hs⟩ | ⟨t, ht, hs⟩ | ⟨a, rest, ha, hlt, hs⟩
  · exact .inl (by simp [exhaustTurn, exhaustFrom, he, hs, Except.map])
  · exact .inl (by simp [exhaustTurn, exhaustFrom, ht, hs, Except.map])
  · refine .inr ⟨(found ++ [a], rest), by simp [exhaustTurn, ha], hlt, ?_⟩
    rw [exhaustFrom, exhaustFrom, hs]
    rcases exhaust rule shortens rest with e | q <;> simp [Except.map]

theorem exhaust_ends (shortens : Shortens rule) (s : Text) :
    ∃ n ≤ s.length + 1, Turn.EndsIn (exhaustTurn rule) n ([], s) (exhaust rule shortens s) := by
  have hstart : exhaustFrom shortens ([], s) = exhaust rule shortens s := by
    rw [exhaustFrom]
    rcases exhaust rule shortens s with e | q <;> simp [Except.map]
  rw [← hstart]
  exact Turn.exists_endsIn (fun p ↦ p.2.length) (exhaustTurn_cases shortens) ([], s)

/-- A turn of the loop that looks for values and flags and then for kwargs, with those found so far
and the text that is left. -/
def argsTurn : List Node × List Node × Text →
    Turn (List Node × List Node × Text) (Except LineError (List Node × Text))
  | (positionals, kwargs, s) =>
    match exhaust arg arg_shortens s with
    | .error e => .stop (.error e)
    | .ok (moreArgs, afterArgs) =>
      match exhaust kwarg kwarg_shortens afterArgs with
      | .error e => .stop (.error e)
      | .ok (moreKwargs, rest) =>
        if moreArgs = [] ∧ moreKwargs = [] then .stop (.ok (positionals ++ kwargs, rest))
        else .again (positionals ++ moreArgs, kwargs ++ moreKwargs, rest)

def argsFrom : List Node × List Node × Text → Except LineError (List Node × Text)
  | (positionals, kwargs, s) =>
    (gather s).map fun g ↦ ((positionals ++ g.1) ++ (kwargs ++ g.2.1), g.2.2)

theorem argsTurn_cases (p : List Node × List Node × Text) :
    argsTurn p = .stop (argsFrom p) ∨
      ∃ q, argsTurn p = .again q ∧ q.2.2.length < p.2.2.length ∧ argsFrom q = argsFrom p := by
  obtain ⟨positionals, kwargs, s⟩ := p
  rw [argsFrom, gather]
  split
  · rename_i e ha
    exact .inl (by simp [argsTurn, ha, Except.map])
  rename_i args afterArgs ha
  split
  · rename_i e hk
    exact .inl (by simp [argsTurn, ha, hk, Except.map])
  rename_i keys rest hk
  split
  · rename_i hnone
    exact .inl (by simp [argsTurn, ha, hk, hnone, Except.map])
  rename_i hprogress
  refine .inr ⟨(positionals ++ args, kwargs ++ keys, rest), ?_, ?_, ?_⟩
  · simp only [argsTurn, ha, hk, if_neg hprogress]
  · exact length_lt_of_found ha hk hprogress
  · rw [argsFrom]
    rcases gather rest with e | ⟨moreArgs, moreKwargs, left⟩ <;> simp [Except.map]

theorem args_ends (s : Text) :
    ∃ n ≤ s.length + 1, Turn.EndsIn argsTurn n ([], [], s) (args s) := by
  have hstart : argsFrom ([], [], s) = args s := by
    rw [argsFrom, args]
    rcases gather s with e | ⟨found, kwargs, rest⟩ <;> simp [Except.map]
  rw [← hstart]
  exact Turn.exists_endsIn (fun p ↦ p.2.2.length) argsTurn_cases ([], [], s)

/-- A rule that takes as many characters off the text as there are nodes in what it finds. -/
def Spends (rule : Text → Step Node) : Prop :=
  ∀ ⦃s n rest⦄, rule s = .ok (some n, rest) → n.size + rest.length ≤ s.length

namespace Spends

variable {rule : Text → Step Node}

theorem of_size (hrule : Shortens rule)
    (h : ∀ ⦃s n rest⦄, rule s = .ok (some n, rest) → n.size = 1) : Spends rule := by
  intro s n rest hs
  rw [h hs, Nat.add_comm]
  exact hrule hs

theorem trimmed (h : Spends rule) : Spends (trimmed rule) := by
  intro s n rest hs
  exact (h (trimmed_eq_some hs)).trans (length_trim_le s)

theorem exhaust (h : Spends rule) {hrule : Shortens rule} {found : List Node}
    (hs : exhaust rule hrule s = .ok (found, rest)) :
    Node.sizes found + rest.length ≤ s.length := by
  refine exhaust_ok_induction
    (P := fun s found rest ↦ Node.sizes found + rest.length ≤ s.length)
    (fun s t _ ↦ ?_) (fun s n mid found rest hn ih ↦ ?_) hs
  · rw [Node.sizes, Nat.zero_add]
  · have hfirst := h.trimmed hn
    rw [Node.sizes]
    omega

end Spends

theorem size_of_value {n : Node} (h : value s = .ok (some n, rest)) : n.size = 1 := by
  obtain ⟨a, -, rfl⟩ := Step.map_eq_some h
  rfl

theorem size_of_flag {n : Node} (h : flag s = .ok (some n, rest)) : n.size = 1 := by
  rcases flag_cases s with hs | ⟨c, left, hs⟩ <;> cases hs.symm.trans h
  rfl

theorem size_of_kwarg {n : Node} (h : kwarg s = .ok (some n, rest)) : n.size = 1 := by
  simp only [kwarg] at h
  split at h
  · cases h
  split at h <;> cases h <;> rfl

theorem size_of_arg {n : Node} (h : arg s = .ok (some n, rest)) : n.size = 1 := by
  simp only [arg] at h
  split at h
  · cases h
  · rename_i hflag
    cases h
    exact size_of_flag (trimmed_eq_some hflag)
  · exact size_of_value (trimmed_eq_some h)

theorem size_of_piece {n : Node} (h : piece s = .ok (some n, rest)) : n.size = 1 := by
  simp only [piece] at h
  split at h
  · split at h
    · exact size_of_kwarg h
    · exact size_of_value h
  · exact size_of_flag h

theorem sizes_args {found : List Node} (h : args s = .ok (found, rest)) :
    Node.sizes found + rest.length ≤ s.length := by
  rw [args, gather_eq_onePass] at h
  rcases hpass : onePass s with e | ⟨ns, left⟩ <;> rw [hpass] at h <;> cases h
  have horder : (ns.filter (!isKwarg ·) ++ ns.filter isKwarg).Perm ns :=
    List.perm_append_comm.trans (List.filter_append_perm isKwarg ns)
  rw [Node.sizes_perm horder]
  exact (Spends.of_size piece_shortens fun _ _ _ ↦ size_of_piece).exhaust hpass

theorem command_spends : Spends fun s ↦ (command s).map Tree.toNode := by
  intro s n rest h
  obtain ⟨tree, h, hn⟩ := Step.map_eq_some h
  simp only [command] at h
  split at h
  · cases h
  · cases h
  rename_i root left hname
  have hroot := trimmed_shortens name_shortens hname
  split at h
  · cases h
  -- The name pays for the tree itself, what stands behind it for the children.
  · rename_i children final hargs
    cases h
    have hchildren := sizes_args hargs
    subst hn
    change Node.sizes children + 1 + rest.length ≤ s.length
    omega

inductive Rule where
  | value
  | flag
  | kwarg
  | name
  | arg
  | command

namespace Rule

/-- What the rule finds, as a node. A name is one without children. -/
def step : Rule → Text → Step Node
  | value => Grammar.value
  | flag => Grammar.flag
  | kwarg => Grammar.kwarg
  | name => fun s ↦ (Grammar.name s).map fun root ↦ .tree (some root) []
  | arg => Grammar.arg
  | command => fun s ↦ (Grammar.command s).map Tree.toNode

theorem spends (r : Rule) : Spends r.step := by
  cases r with
  | value => exact .of_size value_shortens fun _ _ _ ↦ size_of_value
  | flag => exact .of_size flag_shortens fun _ _ _ ↦ size_of_flag
  | kwarg => exact .of_size kwarg_shortens fun _ _ _ ↦ size_of_kwarg
  | arg => exact .of_size arg_shortens fun _ _ _ ↦ size_of_arg
  | command => exact command_spends
  | name =>
    intro s n rest h
    obtain ⟨root, hname, rfl⟩ := Step.map_eq_some h
    have hroot := name_shortens hname
    rw [Node.size, Node.sizes]
    omega

theorem shortens (r : Rule) : Shortens r.step := by
  cases r with
  | value => exact value_shortens
  | flag => exact flag_shortens
  | kwarg => exact kwarg_shortens
  | name => exact name_shortens.map _
  | arg => exact arg_shortens
  | command => exact command_shortens.map _

end Rule

/-- A match of a rule takes something off the text, so that no loop over the rules goes on for more
turns or finds more nodes than there are characters, and blanks are never matched. -/
theorem rules_progress (r : Rule) (s : Text) :
    (∀ n rest, r.step s = .ok (some n, rest) → rest.length < s.length) ∧
    (∃ turns ≤ s.length + 1,
      Turn.EndsIn (exhaustTurn r.step) turns ([], s) (exhaust r.step r.shortens s)) ∧
    (∃ turns ≤ s.length + 1, Turn.EndsIn argsTurn turns ([], [], s) (args s)) ∧
    (∀ found rest,
      exhaust r.step r.shortens s = .ok (found, rest) ∨ args s = .ok (found, rest) →
        found.length ≤ Node.sizes found ∧ Node.sizes found + rest.length ≤ s.length) ∧
    ((∀ c ∈ s, isBlank c) → trimmed r.step s = .ok (none, [])) := by
  refine ⟨fun n rest h ↦ r.shortens h, exhaust_ends r.shortens s, args_ends s, ?_, fun h ↦ ?_⟩
  · intro found rest h
    refine ⟨Node.length_le_sizes found, ?_⟩
    rcases h with h | h
    · exact r.spends.exhaust h
    · exact sizes_args h
  · exact trimmed_of_trim_eq_nil (trim_eq_nil_iff.2 h)

def crowded : Text :=
  " q -ab 'x' --k y -! r".toList

def crowd : Node :=
  .tree (some ['q']) [.flag 'a', .flag 'b', .value ['x'], .kwarg ['k'] (some ['y'])]

theorem rules_progress_crowded :
    Rule.command.step crowded = .ok (some crowd, "-! r".toList) ∧
      "-! r".toList.length < crowded.length ∧
      exhaust Rule.command.step Rule.command.shortens crowded = .ok ([crowd], "-! r".toList) ∧
      Node.sizes [crowd] = 5 ∧ Node.sizes [crowd] + "-! r".toList.length ≤ crowded.length ∧
      (∀ c ∈ "\t \u2003".toList, isBlank c) ∧
      trimmed Rule.command.step "\t \u2003".toList = .ok (none, []) := by
  have hmatch : Rule.command.step crowded = .ok (some crowd, "-! r".toList) := by decide +kernel
  have hall : exhaust Rule.command.step Rule.command.shortens crowded =
      .ok ([crowd], "-! r".toList) := by
    decide +kernel
  have hblank : ∀ c ∈ "\t \u2003".toList, isBlank c := List.all_eq_true.1 rfl
  obtain ⟨hshorter, -, -, hnodes, -⟩ := rules_progress .command crowded
  obtain ⟨-, -, -, -, hnone⟩ := rules_progress .command "\t \u2003".toList
  exact ⟨hmatch, hshorter _ _ hmatch, hall, rfl, (hnodes _ _ (.inl hall)).2, hblank, hnone hblank⟩

end Grammar

end ChatCommand
