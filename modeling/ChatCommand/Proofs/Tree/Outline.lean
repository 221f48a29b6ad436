import ChatCommand.Proofs.Grammar.Failure
import ChatCommand.Proofs.Grammar.Image
import ChatCommand.Tree.Outline

namespace ChatCommand

open Text

theorem Text.append_cons_inj {p : Char → Bool} {s t u v : Text} {c d : Char}
    (hs : ∀ a ∈ s, p a) (ht : ∀ a ∈ t, p a) (hc : p c = false) (hd : p d = false)
    (h : s ++ c :: u = t ++ d :: v) : s = t ∧ c = d ∧ u = v := by
  have hcut {r w : Text} {e : Char} (hr : ∀ a ∈ r, p a) (he : p e = false) :
      (r ++ e :: w).takeWhile p = r := by
    rw [List.takeWhile_append_of_pos hr, List.takeWhile_cons_of_neg (by simp [he]),
      List.append_nil]
  have hst : s = t := by
    rw [← hcut hs hc, h, hcut ht hd]
  subst hst
  exact ⟨rfl, List.cons.inj (List.append_cancel_left h)⟩

namespace Node

variable {m n : Node} {ms ns : List Node} {a b s t : Text} {k : Nat}

/-- A node whose parts its outline keeps apart: every tree in it has a symbol for its root, keys
are symbols, flags letters or digits, and no text goes over a line. -/
inductive Plain : Node → Prop
  | value {s : Text} : '\n' ∉ s → Plain (.value s)
  | flag {c : Char} : isAlphanumeric c → Plain (.flag c)
  | kwarg {key : Text} {v : Option Text} : Token.isSymbol key → (∀ s ∈ v, '\n' ∉ s) →
      Plain (.kwarg key v)
  | tree {root : Text} {children : List Node} : Token.isSymbol root →
      (∀ n ∈ children, Plain n) → Plain (.tree (some root) children)

def initial : Node → Char
  | .value _ => 'V'
  | .flag _ => 'F'
  | .kwarg _ _ => 'K'
  | .tree _ _ => 'T'

theorem exists_outlineAt (k : Nat) (n : Node) :
    ∃ u, outlineAt k n = spaces k ++ n.initial :: u := by
  rcases n with s | c | ⟨key, _ | s⟩ | ⟨root, children⟩
  all_goals
    simp only [outlineAt, List.append_assoc]
    exact ⟨_, rfl⟩

theorem outlineAt_kwarg (k : Nat) (key : Text) (v : Option Text) :
    outlineAt k (.kwarg key v) =
      spaces k ++ "Kwarg: ".toList ++ key ++
        braced k (outlinesAt (k + 4) (v.toList.map .value)) := by
  cases v with
  | none => rfl
  | some s => simp only [outlineAt, Option.toList_some, List.map_cons, List.map_nil, outlinesAt,
      List.append_nil]

theorem outlinesAt_eq_nil_iff : outlinesAt k ns = [] ↔ ns = [] := by
  cases ns with
  | nil => simp [outlinesAt]
  | cons n ns =>
    obtain ⟨u, hu⟩ := exists_outlineAt k n
    simp [outlinesAt, hu]

theorem initial_eq (h : outlineAt k m ++ s = outlineAt k n ++ t) : m.initial = n.initial := by
  obtain ⟨u, hu⟩ := exists_outlineAt k m
  obtain ⟨v, hv⟩ := exists_outlineAt k n
  rw [hu, hv, List.append_assoc, List.append_assoc] at h
  exact (List.cons.inj (List.append_cancel_left h)).1

/-- From the front of a text on the outline of `m` can be read in one way only, whatever follows.
-/
def Determined (k : Nat) (m : Node) : Prop :=
  ∀ ⦃n s t⦄, Plain n → outlineAt k m ++ s = outlineAt k n ++ t → m = n ∧ s = t

theorem determined_value (h : '\n' ∉ a) (k : Nat) : Determined k (.value a) := by
  intro n s t hn heq
  have hinitial := initial_eq heq
  cases hn with
  | @value b hb =>
    simp only [outlineAt, List.append_assoc, List.append_cancel_left_eq] at heq
    have hline {r : Text} (hr : '\n' ∉ r) : ∀ c ∈ r, (c != '\n') = true := by
      intro c hc
      rw [bne_iff_ne]
      rintro rfl
      exact hr hc
    obtain ⟨rfl, -, rfl⟩ := append_cons_inj (hline h) (hline hb) rfl rfl heq
    exact ⟨rfl, rfl⟩
  | flag | kwarg | tree => simp [initial] at hinitial

theorem determined_flag (c : Char) (k : Nat) : Determined k (.flag c) := by
  intro n s t hn heq
  have hinitial := initial_eq heq
  cases hn with
  | flag =>
    simp only [outlineAt, List.append_assoc, List.append_cancel_left_eq, List.cons_append,
      List.nil_append, List.cons.injEq, true_and] at heq
    obtain ⟨rfl, rfl⟩ := heq
    exact ⟨rfl, rfl⟩
  | value | kwarg | tree => simp [initial] at hinitial

section Children

variable (hms : ∀ m ∈ ms, Determined (k + 4) m) (hns : ∀ n ∈ ns, n.Plain)
include hms hns

theorem outlinesAt_append_inj
    (h : outlinesAt (k + 4) ms ++ (spaces k ++ '\x7d' :: s) =
      outlinesAt (k + 4) ns ++ (spaces k ++ '\x7d' :: t)) : ms = ns ∧ s = t := by
  -- The brace that ends the children stands four spaces to the left of any child.
  have hclosed (n : Node) (u v : Text) :
      spaces k ++ '\x7d' :: u ≠ outlineAt (k + 4) n ++ v := by
    intro heq
    obtain ⟨w, hw⟩ := exists_outlineAt (k + 4) n
    have hindent : spaces (k + 4) = spaces k ++ spaces 4 := List.replicate_add k 4 ' '
    rw [hw, hindent, List.append_assoc, List.append_assoc] at heq
    exact absurd (List.cons.inj (List.append_cancel_left heq)).1 (by decide)
  induction ms generalizing ns with
  | nil =>
    cases ns with
    | nil => exact ⟨rfl, (List.cons.inj (List.append_cancel_left h)).2⟩
    | cons n ns =>
      rw [outlinesAt, outlinesAt, List.nil_append, List.append_assoc] at h
      exact absurd h (hclosed _ _ _)
  | cons m ms ih =>
    obtain ⟨hm, hrest⟩ := List.forall_mem_cons.1 hms
    cases ns with
    | nil =>
      rw [outlinesAt, outlinesAt, List.nil_append, List.append_assoc] at h
      exact absurd h.symm (hclosed _ _ _)
    | cons n ns =>
      obtain ⟨hn, hmore⟩ := List.forall_mem_cons.1 hns
      rw [outlinesAt, outlinesAt, List.append_assoc, List.append_assoc] at h
      obtain ⟨hfirst, hothers⟩ := hm hn h
      obtain ⟨hlist, hst⟩ := ih hrest hmore hothers
      exact ⟨by rw [hfirst, hlist], hst⟩

/-- The name in the first line ends at the first character that no symbol has, and that character
says whether there are children. -/
theorem braced_append_inj (ha : Token.isSymbol a) (hb : Token.isSymbol b)
    (h : a ++ (braced k (outlinesAt (k + 4) ms) ++ s) =
      b ++ (braced k (outlinesAt (k + 4) ns) ++ t)) : a = b ∧ ms = ns ∧ s = t := by
  have hfeed : Token.isSymbolChar '\n' = false := by decide +kernel
  have hspace : Token.isSymbolChar ' ' = false := by decide +kernel
  have ha := (Token.forall_of_isSymbol ha).2
  have hb := (Token.forall_of_isSymbol hb).2
  have hopen : " \x7b\n".toList = [' ', '\x7b', '\n'] := rfl
  have hclose : "\x7d\n".toList = ['\x7d', '\n'] := rfl
  simp only [braced, List.isEmpty_iff, outlinesAt_eq_nil_iff, hopen, hclose] at h
  by_cases hm : ms = [] <;> by_cases hn : ns = []
  · rw [if_pos hm, if_pos hn] at h
    obtain ⟨rfl, -, rfl⟩ := append_cons_inj ha hb hfeed hfeed h
    exact ⟨rfl, hm.trans hn.symm, rfl⟩
  · rw [if_pos hm, if_neg hn] at h
    obtain ⟨-, hne, -⟩ := append_cons_inj ha hb hfeed hspace h
    exact absurd hne (by decide)
  · rw [if_neg hm, if_pos hn] at h
    obtain ⟨-, hne, -⟩ := append_cons_inj ha hb hspace hfeed h
    exact absurd hne (by decide)
  · rw [if_neg hm, if_neg hn] at h
    simp only [List.cons_append, List.nil_append, List.append_assoc] at h
    obtain ⟨hname, -, hbody⟩ := append_cons_inj ha hb hspace hspace h
    simp only [List.cons.injEq, true_and] at hbody
    obtain ⟨hlist, hrest⟩ := outlinesAt_append_inj hms hns hbody
    exact ⟨hname, hlist, (List.cons.inj hrest).2⟩

end Children

theorem determined_kwarg {key : Text} {v : Option Text} (hkey : Token.isSymbol key)
    (hv : ∀ s ∈ v, '\n' ∉ s) (k : Nat) : Determined k (.kwarg key v) := by
  intro n s t hn heq
  have hinitial := initial_eq heq
  cases hn with
  | @kwarg other w hother hw =>
    rw [outlineAt_kwarg, outlineAt_kwarg] at heq
    simp only [List.append_assoc, List.append_cancel_left_eq] at heq
    have hleft : ∀ m ∈ v.toList.map Node.value, Determined (k + 4) m := by
      intro m hm
      obtain ⟨a, ha, rfl⟩ := List.mem_map.1 hm
      exact determined_value (hv a (Option.mem_toList.1 ha)) _
    have hright : ∀ m ∈ w.toList.map Node.value, m.Plain := by
      intro m hm
      obtain ⟨a, ha, rfl⟩ := List.mem_map.1 hm
      exact .value (hw a (Option.mem_toList.1 ha))
    obtain ⟨rfl, hvw, rfl⟩ := braced_append_inj hleft hright hkey hother heq
    cases v <;> cases w <;> cases hvw
    · exact ⟨rfl, rfl⟩
    · exact ⟨rfl, rfl⟩
  | value | flag | tree => simp [initial] at hinitial

theorem Plain.determined (h : m.Plain) (k : Nat) : Determined k m := by
  induction h generalizing k with
  | value hs => exact determined_value hs k
  | flag => exact determined_flag _ k
  | kwarg hkey hv => exact determined_kwarg hkey hv k
  | tree hroot _ ih =>
    intro n s t hn heq
    have hinitial := initial_eq heq
    cases hn with
    | tree hother hchildren =>
      simp only [outlineAt, Option.getD_some, List.append_assoc,
        List.append_cancel_left_eq] at heq
      obtain ⟨rfl, rfl, rfl⟩ :=
        braced_append_inj (fun m hm ↦ ih m hm (k + 4)) hchildren hroot hother heq
      exact ⟨rfl, rfl⟩
    | value | flag | kwarg => simp [initial] at hinitial

end Node

namespace Tree

variable {s t : Tree}

def Plain (t : Tree) : Prop :=
  t.toNode.Plain

theorem Plain.outline_append_feed (h : t.Plain) :
    t.outline ++ ['\n'] = Node.outlineAt 0 t.toNode := by
  obtain ⟨_ | root, children⟩ := t
  · cases h
  · cases h with
    | tree hroot =>
      obtain ⟨body, hbody, hfirm⟩ :
          ∃ body, Node.outlineAt 0 (.tree (some root) children) = body ++ ['\n'] ∧
            isFirm body := by
        cases children with
        | nil => exact ⟨_, rfl, isFirm_append _ (Token.solid_of_isSymbol hroot).isFirm⟩
        | cons n ns =>
          have hne : Node.outlinesAt 4 (n :: ns) ≠ [] := by
            simp [Node.outlinesAt_eq_nil_iff]
          refine ⟨"Tree: ".toList ++ root ++ (" \x7b\n".toList ++ Node.outlinesAt 4 (n :: ns) ++
            ['\x7d']), ?_, ?_⟩
          · simp [Node.outlineAt, Node.braced, hne, spaces]
          · exact isFirm_append _ (isFirm_append _ rfl)
      have hfeed : ∀ c ∈ ['\n'], isBlank c := List.forall_mem_singleton.2 rfl
      have htrim : outline ⟨some root, children⟩ = body := by
        rw [outline, Node.outline, toNode, hbody, trimEnd, trimEndBy_append_of_all hfeed]
        exact trimEnd_of_isFirm hfirm
      rw [htrim, toNode, hbody]

theorem Plain.eq_of_outline_eq (hs : s.Plain) (ht : t.Plain) (h : s.outline = t.outline) :
    s = t := by
  have hnodes : Node.outlineAt 0 s.toNode ++ [] = Node.outlineAt 0 t.toNode ++ [] := by
    rw [← hs.outline_append_feed, ← ht.outline_append_feed, h]
  obtain ⟨hnode, -⟩ := Node.Plain.determined hs 0 ht hnodes
  obtain ⟨root, children⟩ := s
  obtain ⟨other, more⟩ := t
  cases hnode
  rfl

end Tree

namespace Grammar

variable {line s a rest : Text} {n : Node} {tree : Tree}

theorem plain_of_piece (h : Piece s n rest) (hs : '\n' ∉ s) : n.Plain := by
  cases h with
  | value ha => exact .value fun hc ↦ hs (subset_of_literal ha hc)
  | flag t hc => exact .flag hc
  | key hk => exact .kwarg hk (by simp)
  | @keyed k t a rest hk ht ha =>
    have hvalue : '\n' ∉ a := fun hc ↦ by
      have htail := trim_subset _ (subset_of_literal (trimmed_eq_some ha) hc)
      exact hs (List.mem_append_right _ (List.mem_of_mem_tail htail))
    exact .kwarg hk (by simpa using hvalue)

theorem Remains.feed_notMem (h : Remains line s) (hline : '\n' ∉ line) : '\n' ∉ s := by
  have hsuffix {t : Text} (ht : t <:+ Text.trim line) : '\n' ∉ t := fun hc ↦
    hline (trim_subset line (ht.subset hc))
  cases h with
  | ending ht => exact hsuffix ht
  | cluster ht => simpa using hsuffix ht

theorem plain_of_parseLine (hline : '\n' ∉ line) (h : parseLine line = .ok tree) :
    tree.Plain := by
  obtain ⟨root, rest, ns, hroot, hrest, htrim, ⟨left, hread, -⟩, rfl⟩ := parseLine_eq_ok_iff.1 h
  have hremains : Remains line rest := .ending (htrim ▸ List.suffix_append root rest)
  have hnodes := (exhaust_invariant (I := Remains line) (P := Node.Plain)
    (fun s n rest hi hs ↦ ⟨plain_of_piece (piece_eq_some_iff.1 (trimmed_eq_some hs))
      (hi.trim.feed_notMem hline), hi.found hs⟩) hremains hread).1
  refine .tree (Bool.and_eq_true_iff.1 hroot).1 fun n hn ↦ hnodes n (mem_kwargs_last.1 hn)

end Grammar

namespace Tree

/-- No two trees whose parts an outline keeps apart have the same outline, and the trees of single
lines are of that kind. -/
theorem outline_faithful :
    (∀ s t : Tree, s.Plain → t.Plain → s.outline = t.outline → s = t) ∧
      ∀ line tree, '\n' ∉ line → Grammar.parseLine line = .ok tree → tree.Plain :=
  ⟨fun _ _ hs ht h ↦ hs.eq_of_outline_eq ht h, fun _ _ ↦ Grammar.plain_of_parseLine⟩

def below (t : Tree) : Tree :=
  ⟨some ['q'], [.value "\x7d".toList, t.toNode, .tree (some ['e']) []]⟩

theorem plain_below (h : t.Plain) : (below t).Plain := by
  have hvalue : (Node.value "\x7d".toList).Plain := .value (by decide +kernel)
  have hleaf : (Node.tree (some ['e']) []).Plain :=
    .tree (by decide +kernel) (List.forall_mem_nil _)
  refine .tree (by decide +kernel) ?_
  exact List.forall_mem_cons.2 ⟨hvalue, List.forall_mem_cons.2 ⟨h,
    List.forall_mem_singleton.2 hleaf⟩⟩

def mimicry : Text :=
  "q -v 'Kwarg: k \x7b' --k '\x7d Value: '".toList

def reordered : Text :=
  "q --k \"\x7d Value: \" -v  \"Kwarg: k \x7b\"".toList

def mimic : Tree :=
  ⟨some ['q'], [.flag 'v', .value "Kwarg: k \x7b".toList,
    .kwarg ['k'] (some "\x7d Value: ".toList)]⟩

theorem outline_faithful_mimic :
    ('\n' ∉ mimicry ∧ '\n' ∉ reordered) ∧
      ∃ s t, Grammar.parseLine mimicry = .ok s ∧ Grammar.parseLine reordered = .ok t ∧
        ((below s).Plain ∧ (below t).Plain) ∧ (below s).outline = (below t).outline ∧
        below s = below t := by
  have hline : '\n' ∉ mimicry ∧ '\n' ∉ reordered := by decide +kernel
  have hfirst : Grammar.parseLine mimicry = .ok mimic := by decide +kernel
  have hsecond : Grammar.parseLine reordered = .ok mimic := by decide +kernel
  have hs := plain_below (outline_faithful.2 _ _ hline.1 hfirst)
  have ht := plain_below (outline_faithful.2 _ _ hline.2 hsecond)
  have houtline : (below mimic).outline = (below mimic).outline := by rfl
  exact ⟨hline, mimic, mimic, hfirst, hsecond, ⟨hs, ht⟩, houtline,
    outline_faithful.1 _ _ hs ht houtline⟩

end Tree

end ChatCommand
