import ChatCommand.Text.Trim

namespace ChatCommand

/-- A strict order in which any two keys can be compared. -/
class Key (K : Type) where
  before : K → K → Bool
  before_irrefl (a : K) : before a a = false
  before_trans {a b c : K} : before a b → before b c → before a c
  before_total {a b : K} : before a b = false → before b a = false → a = b

namespace Key

instance : Key Char where
  before a b := a.toNat < b.toNat
  before_irrefl a := by simp
  before_trans := by simp only [decide_eq_true_eq]; omega
  before_total h h' := Char.toNat_inj.1 (by simp only [decide_eq_false_iff_not] at h h'; omega)

instance : Key UInt64 where
  before a b := a.toNat < b.toNat
  before_irrefl a := by simp
  before_trans := by simp only [decide_eq_true_eq]; omega
  before_total h h' := UInt64.toNat_inj.1 (by simp only [decide_eq_false_iff_not] at h h'; omega)

section List

variable {A : Type} [Key A] [DecidableEq A]

def listBefore : List A → List A → Bool
  | _, [] => false
  | [], _ :: _ => true
  | a :: s, b :: t => before a b || (a = b && listBefore s t)

instance : Key (List A) where
  before := listBefore
  before_irrefl s := by
    induction s with
    | nil => rfl
    | cons a s ih => simp [listBefore, ih, before_irrefl]
  before_trans := by
    intro r s t
    induction r generalizing s t with
    | nil => cases s <;> cases t <;> simp [listBefore]
    | cons a r ih =>
      rcases s with _ | ⟨b, s⟩
      · simp [listBefore]
      rcases t with _ | ⟨c, t⟩
      · simp [listBefore]
      simp only [listBefore, Bool.or_eq_true, Bool.and_eq_true, decide_eq_true_eq]
      rintro (h | ⟨rfl, h⟩) (h' | ⟨rfl, h'⟩)
      · exact .inl (before_trans h h')
      · exact .inl h
      · exact .inl h'
      · exact .inr ⟨rfl, ih h h'⟩
  before_total := by
    intro s t
    induction s generalizing t with
    | nil => cases t <;> simp [listBefore]
    | cons a s ih =>
      cases t with
      | nil => simp [listBefore]
      | cons b t =>
        simp only [listBefore, Bool.or_eq_false_iff, Bool.and_eq_false_iff, decide_eq_false_iff_not]
        rintro ⟨h, hst⟩ ⟨h', hts⟩
        obtain rfl := before_total h h'
        rw [ih (hst.resolve_left (fun h ↦ h rfl)) (hts.resolve_left (fun h ↦ h rfl))]

end List

variable {K : Type} [Key K] {a b : K}

theorem ne_of_before (h : before a b) : a ≠ b := by
  rintro rfl
  simp [before_irrefl] at h

theorem not_before_of_before (h : before a b) : before b a = false := by
  cases h' : before b a
  · rfl
  · exact absurd (before_trans h h') (by simp [before_irrefl])

end Key

open Key

/-- A finite map: its entries in strictly rising order of their keys. -/
structure SortedMap (K V : Type) [Key K] where
  entries : List (K × V)
  sorted : entries.Pairwise fun a b ↦ before a.1 b.1

namespace SortedMap

variable {K V : Type} [Key K]

@[ext]
theorem ext_entries {m n : SortedMap K V} (h : m.entries = n.entries) : m = n := by
  cases m
  cases n
  cases h
  rfl

instance [DecidableEq K] [DecidableEq V] : DecidableEq (SortedMap K V) := fun m n ↦
  decidable_of_iff (m.entries = n.entries) ⟨ext_entries, fun h ↦ h ▸ rfl⟩

def empty : SortedMap K V :=
  ⟨[], .nil⟩

def keys (m : SortedMap K V) : List K :=
  m.entries.map (·.1)

def values (m : SortedMap K V) : List V :=
  m.entries.map (·.2)

def size (m : SortedMap K V) : Nat :=
  m.entries.length

def isEmpty (m : SortedMap K V) : Bool :=
  m.entries.isEmpty

def lastKey? (m : SortedMap K V) : Option K :=
  m.entries.getLast?.map (·.1)

def insertEntry (k : K) (v : V) : List (K × V) → List (K × V)
  | [] => [(k, v)]
  | e :: es =>
    if before k e.1 then (k, v) :: e :: es
    else if before e.1 k then e :: insertEntry k v es
    else (k, v) :: es

theorem mem_insertEntry {k : K} {v : V} {es : List (K × V)} {e : K × V}
    (h : e ∈ insertEntry k v es) : e = (k, v) ∨ e ∈ es := by
  induction es with
  | nil => simpa [insertEntry] using h
  | cons d es ih => grind [insertEntry]

theorem sorted_insertEntry {k : K} {v : V} {es : List (K × V)}
    (h : es.Pairwise fun a b ↦ before a.1 b.1) :
    (insertEntry k v es).Pairwise fun a b ↦ before a.1 b.1 := by
  induction es with
  | nil => simp [insertEntry]
  | cons e es ih =>
    rw [List.pairwise_cons] at h
    rw [insertEntry]
    split
    · rename_i hk
      refine List.pairwise_cons.2 ⟨?_, List.pairwise_cons.2 h⟩
      rintro d (_ | ⟨_, hd⟩)
      · exact hk
      · exact before_trans hk (h.1 d hd)
    split
    · rename_i hk
      refine List.pairwise_cons.2 ⟨fun d hd ↦ ?_, ih h.2⟩
      rcases mem_insertEntry hd with rfl | hd
      · exact hk
      · exact h.1 d hd
    · rename_i hk hk'
      obtain rfl : k = e.1 := before_total (by simpa using hk) (by simpa using hk')
      exact List.pairwise_cons.2 h

def insert (m : SortedMap K V) (k : K) (v : V) : SortedMap K V :=
  ⟨insertEntry k v m.entries, sorted_insertEntry m.sorted⟩

def ofList (es : List (K × V)) : SortedMap K V :=
  es.foldl (fun m e ↦ m.insert e.1 e.2) empty

theorem insertEntry_of_before {k : K} {v : V} {es : List (K × V)} (h : ∀ e ∈ es, before e.1 k) :
    insertEntry k v es = es ++ [(k, v)] := by
  induction es with
  | nil => rfl
  | cons e es ih =>
    have he := h e (by simp)
    rw [insertEntry, if_neg (by simp [not_before_of_before he]), if_pos he,
      ih fun d hd ↦ h d (by simp [hd])]
    rfl

theorem foldl_insert (es : List (K × V)) (m : SortedMap K V)
    (h : (m.entries ++ es).Pairwise fun a b ↦ before a.1 b.1) :
    (es.foldl (fun m e ↦ m.insert e.1 e.2) m).entries = m.entries ++ es := by
  induction es generalizing m with
  | nil => simp
  | cons e es ih =>
    have he : ∀ d ∈ m.entries, before d.1 e.1 :=
      fun d hd ↦ (List.pairwise_append.1 h).2.2 d hd e (by simp)
    have hi : (m.insert e.1 e.2).entries = m.entries ++ [e] := insertEntry_of_before he
    rw [List.foldl_cons, ih _ (by simpa [hi] using h), hi]
    simp

theorem ofList_entries (m : SortedMap K V) : ofList m.entries = m := by
  apply ext_entries
  simpa [ofList, empty] using foldl_insert m.entries empty (by simpa [empty] using m.sorted)

variable [DecidableEq K]

def find (k : K) : List (K × V) → Option V
  | [] => none
  | e :: es => if e.1 = k then some e.2 else find k es

def get? (m : SortedMap K V) (k : K) : Option V :=
  find k m.entries

def contains (m : SortedMap K V) (k : K) : Bool :=
  (m.get? k).isSome

def erase (m : SortedMap K V) (k : K) : SortedMap K V :=
  ⟨m.entries.filter (·.1 ≠ k), m.sorted.filter _⟩

theorem find_eq_none_of_before {k : K} {es : List (K × V)} (h : ∀ e ∈ es, before k e.1) :
    find k es = none := by
  induction es with
  | nil => rfl
  | cons e es ih =>
    have := ne_of_before (h e (by simp))
    simp [find, this.symm, ih fun e he ↦ h e (by simp [he])]

theorem find_insertEntry {k j : K} {v : V} {es : List (K × V)}
    (h : es.Pairwise fun a b ↦ before a.1 b.1) :
    find j (insertEntry k v es) = if k = j then some v else find j es := by
  induction es with
  | nil => simp [insertEntry, find]
  | cons e es ih =>
    rw [List.pairwise_cons] at h
    rw [insertEntry]
    split
    · simp [find]
    split
    · rename_i hk
      have := ne_of_before hk
      rw [find, find, ih h.2]
      by_cases he : e.1 = j <;> by_cases hj : k = j <;> simp_all
    · rename_i hk hk'
      obtain rfl : k = e.1 := before_total (by simpa using hk) (by simpa using hk')
      by_cases he : e.1 = j <;> simp [find, he]

@[simp]
theorem get?_empty (k : K) : (empty : SortedMap K V).get? k = none := rfl

theorem get?_insert (m : SortedMap K V) (k j : K) (v : V) :
    (m.insert k v).get? j = if k = j then some v else m.get? j :=
  find_insertEntry m.sorted

theorem get?_erase (m : SortedMap K V) (k j : K) :
    (m.erase k).get? j = if k = j then none else m.get? j := by
  simp only [get?, erase]
  induction m.entries with
  | nil => simp [find]
  | cons e es ih => grind [find]

theorem get?_eq_some_iff {m : SortedMap K V} {k : K} {v : V} :
    m.get? k = some v ↔ (k, v) ∈ m.entries := by
  obtain ⟨es, hs⟩ := m
  simp only [get?]
  induction es with
  | nil => simp [find]
  | cons e es ih =>
    rw [List.pairwise_cons] at hs
    rw [find]
    split
    · rename_i he
      subst he
      refine ⟨fun h ↦ by cases h; simp, fun h ↦ ?_⟩
      rcases List.mem_cons.1 h with h | h
      · rw [← h]
      · have := hs.1 _ h
        simp [before_irrefl] at this
    · rename_i he
      rw [ih hs.2, List.mem_cons]
      refine ⟨.inr, fun h ↦ h.resolve_left ?_⟩
      rintro rfl
      exact he rfl

theorem ext_get? {m n : SortedMap K V} (h : ∀ k, m.get? k = n.get? k) : m = n := by
  obtain ⟨es, hs⟩ := m
  obtain ⟨ds, ht⟩ := n
  apply ext_entries
  simp only [get?] at h
  induction es generalizing ds with
  | nil =>
    cases ds with
    | nil => rfl
    | cons d ds => simpa [find] using h d.1
  | cons e es ih =>
    cases ds with
    | nil => simpa [find] using h e.1
    | cons d ds =>
      rw [List.pairwise_cons] at hs ht
      -- The first key of either map is the least one, so it would be missing from the other.
      have hkey : e.1 = d.1 := by
        apply before_total
        · cases hb : before e.1 d.1
          · rfl
          · have := h e.1
            rw [find, if_pos rfl, find, if_neg (ne_of_before hb).symm,
              find_eq_none_of_before fun x hx ↦ before_trans hb (ht.1 x hx)] at this
            cases this
        · cases hb : before d.1 e.1
          · rfl
          · have := h d.1
            rw [find, if_neg (ne_of_before hb).symm, find, if_pos rfl,
              find_eq_none_of_before fun x hx ↦ before_trans hb (hs.1 x hx)] at this
            cases this
      have hval : e.2 = d.2 := by simpa [find, hkey] using h e.1
      have hrest : es = ds := by
        refine ih hs.2 ds ht.2 fun k ↦ ?_
        have := h k
        rw [find, find, hkey] at this
        by_cases hk : d.1 = k
        · subst hk
          rw [find_eq_none_of_before ht.1, find_eq_none_of_before (hkey ▸ hs.1)]
        · simpa [hk] using this
      exact List.cons_eq_cons.2 ⟨Prod.ext hkey hval, hrest⟩

end SortedMap

end ChatCommand
