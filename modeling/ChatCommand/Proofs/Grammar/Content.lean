import ChatCommand.Proofs.Grammar.Piece

namespace ChatCommand

open Text

namespace Node

mutual

/-- The texts and letters that the node is made of, one behind the other. -/
def content : Node → Text
  | .value s => s
  | .flag c => [c]
  | .kwarg key literal => key ++ literal.getD []
  | .tree root children => root.getD [] ++ contents children

def contents : List Node → Text
  | [] => []
  | n :: nodes => content n ++ contents nodes

end

theorem contents_eq_flatMap (nodes : List Node) : contents nodes = nodes.flatMap content := by
  induction nodes with
  | nil => rfl
  | cons n nodes ih => rw [contents, ih, List.flatMap_cons]

end Node

def Tree.content (t : Tree) : Text :=
  t.toNode.content

/-- Whether the character is more than layout, which no recognizer drops or puts in. -/
def isInk (c : Char) : Bool :=
  !isBlank c && c != '-' && !Token.isQuote c

def Text.ink (s : Text) : Text :=
  s.filter isInk

namespace Text

variable {s t : Text} {c : Char}

@[simp]
theorem ink_append : ink (s ++ t) = ink s ++ ink t :=
  List.filter_append ..

theorem ink_cons_of_neg (h : isInk c = false) : ink (c :: s) = ink s :=
  List.filter_cons_of_neg (by simp [h])

@[simp]
theorem ink_dash : ink ('-' :: s) = ink s :=
  ink_cons_of_neg (by simp [isInk])

theorem ink_quote (h : Token.isQuote c) : ink (c :: s) = ink s :=
  ink_cons_of_neg (by simp [isInk, h])

theorem ink_of_blank (h : ∀ c ∈ s, isBlank c) : ink s = [] :=
  List.filter_eq_nil_iff.2 fun c hc ↦ by simp [isInk, h c hc]

@[simp]
theorem ink_trim (s : Text) : ink (trim s) = ink s := by
  obtain ⟨a, b, hs, ha, hb⟩ := exists_trim s
  calc
    ink (trim s) = ink (a ++ (trim s ++ b)) := by simp [ink_of_blank ha, ink_of_blank hb]
    _ = ink s := by rw [← hs]

theorem Parted.ink_tail (h : Parted s) : ink s.tail = ink s := by
  rw [← ink_trim, h.trim_tail, ink_trim]

theorem count_ink (h : isInk c) (s : Text) : (ink s).count c = s.count c :=
  List.count_filter h

end Text

namespace Grammar

variable {s a rest line : Text} {n : Node} {ns : List Node} {tree : Tree}

theorem ink_clusterRest (s : Text) : ink (Token.clusterRest s) = ink s := by
  cases s with
  | nil => rfl
  | cons c s =>
    rw [Token.clusterRest]
    split
    · rw [← ink_trim, trim_trimStart, ink_trim]
    · exact ink_dash

theorem ink_literal (h : literal s = .ok (some a, rest)) : ink s = ink a ++ ink rest := by
  rcases literal_eq_some_iff.1 h with ⟨-, t, ht, rfl, rfl⟩ | ⟨mark, hmark, -, rfl⟩
  · rw [ink_append, ht.ink_tail]
  · rw [List.cons_append, ink_quote hmark, ink_append, ink_quote hmark]

theorem Piece.ink_eq (h : Piece s n rest) : ink s = ink n.content ++ ink rest := by
  cases h with
  | value ha => exact ink_literal ha
  | @flag c t hc =>
    rw [ink_dash, ink_clusterRest]
    exact ink_append (s := [c])
  | @key k t u hk ht hnone =>
    have hcontent : Node.content (.kwarg k none) = k := List.append_nil k
    rw [hcontent, List.cons_append, ink_dash, List.cons_append, ink_dash, ink_append, ht.ink_tail]
  | @keyed k t a rest hk ht ha =>
    have hvalue := ink_literal (trimmed_eq_some ha)
    rw [ink_trim, ht.ink_tail] at hvalue
    rw [List.cons_append, ink_dash, List.cons_append, ink_dash, ink_append, hvalue,
      ← List.append_assoc, ← ink_append]
    rfl

theorem ReadsAs.ink_eq (h : ReadsAs s ns) : ink s = ink (ns.flatMap Node.content) := by
  obtain ⟨left, hread, hleft⟩ := h
  have hall : ink s = ink (ns.flatMap Node.content) ++ ink left := by
    refine exhaust_ok_induction (P := fun s found rest ↦
      ink s = ink (found.flatMap Node.content) ++ ink rest) (fun s t _ ↦ rfl)
      (fun s n mid found rest hn ih ↦ ?_) hread
    have hfirst := (piece_eq_some_iff.1 (trimmed_eq_some hn)).ink_eq
    rw [ink_trim] at hfirst
    rw [hfirst, ih, List.flatMap_cons, ink_append, List.append_assoc]
  rw [hall, ink_of_blank (trim_eq_nil_iff.1 hleft), List.append_nil]

/-- Every character of a command but for its layout is somewhere in the tree, as often as it is in
the line. -/
theorem count_content (h : parseLine line = .ok tree) {c : Char} (hblank : isBlank c = false)
    (hdash : c ≠ '-') (hquote : Token.isQuote c = false) :
    tree.content.count c = line.count c := by
  obtain ⟨root, rest, ns, -, -, hline, hread, rfl⟩ := parseLine_eq_ok_iff.1 h
  have hink : isInk c := by simp [isInk, hblank, hdash, hquote]
  have horder : (ns.filter (!isKwarg ·) ++ ns.filter isKwarg).Perm ns :=
    List.perm_append_comm.trans (List.filter_append_perm isKwarg ns)
  have hnodes := (horder.flatMap_right Node.content).count_eq c
  calc
    _ = root.count c + (ns.flatMap Node.content).count c := by
      rw [← hnodes, ← Node.contents_eq_flatMap, ← List.count_append]
      rfl
    _ = root.count c + rest.count c := by
      rw [← count_ink hink (ns.flatMap Node.content), ← hread.ink_eq, count_ink hink]
    _ = (trim line).count c := by rw [hline, List.count_append]
    _ = line.count c := by rw [← count_ink hink, ink_trim, count_ink hink]

def scattered : Text :=
  "ab  -ba --b 'a-b'\"b'b\"".toList

def collected : Tree :=
  ⟨some ['a', 'b'], [.flag 'b', .flag 'a', .value ['b', '\'', 'b'],
    .kwarg ['b'] (some ['a', '-', 'b'])]⟩

theorem count_content_scattered :
    parseLine scattered = .ok collected ∧ scattered.count 'b' = 6 ∧
      collected.content.count 'b' = scattered.count 'b' := by
  have h : parseLine scattered = .ok collected := by decide +kernel
  exact ⟨h, rfl, count_content h rfl (by decide) rfl⟩

end Grammar

end ChatCommand
