import ChatCommand.Proofs.Store.Shelf
import Mathlib.Order.Bounds.Defs

namespace ChatCommand

variable {V : Type}

namespace SortedMap

variable {K : Type} [Key K] {m : SortedMap K V} {k : K}

theorem lastKey?_mem {last : K} (h : m.lastKey? = some last) : last ∈ m.keys := by
  obtain ⟨entry, hlast, rfl⟩ := Option.map_eq_some_iff.1 h
  exact List.mem_map_of_mem (List.mem_of_getLast? hlast)

theorem keys_eq_nil_of_lastKey? (h : m.lastKey? = none) : m.keys = [] := by
  rw [keys, lastKey?_eq_none_iff.1 h, List.map_nil]

variable [DecidableEq K]

theorem mem_keys_iff : k ∈ m.keys ↔ ∃ v, m.get? k = some v := by
  rw [keys, List.mem_map]
  simp only [get?_eq_some_iff]
  constructor
  · intro h
    obtain ⟨⟨k, v⟩, hentry, rfl⟩ := h
    exact ⟨v, hentry⟩
  · intro h
    obtain ⟨v, hentry⟩ := h
    exact ⟨(k, v), hentry, rfl⟩

theorem keys_subset_insert (m : SortedMap K V) (k : K) (v : V) : m.keys ⊆ (m.insert k v).keys := by
  intro j hj
  obtain ⟨w, hw⟩ := mem_keys_iff.1 hj
  refine mem_keys_iff.2 ?_
  rw [get?_insert]
  split
  · exact ⟨v, rfl⟩
  · exact ⟨w, hw⟩

end SortedMap

namespace Shelf

variable {s : Shelf V} {key last : UInt64} {v : V}

def greatestKey : UInt64 :=
  .ofNat (UInt64.size - 1)

theorem toNat_greatestKey : greatestKey.toNat + 1 = UInt64.size := by
  decide

theorem nextKey_eq_error_iff :
    s.nextKey = .error last ↔ last = greatestKey ∧ greatestKey ∈ s.keys := by
  have hsize := toNat_greatestKey
  rcases hlast : s.lastKey? with _ | found
  · have hnone := SortedMap.keys_eq_nil_of_lastKey? hlast
    simp [nextKey, hlast, hnone]
  · have hmem := SortedMap.lastKey?_mem hlast
    have hbound := found.toNat_lt_size
    by_cases hroom : found.toNat + 1 < UInt64.size
    · have hfree : greatestKey ∉ s.keys := fun h ↦ by
        obtain ⟨v, hv⟩ := SortedMap.mem_keys_iff.1 h
        have hle : greatestKey.toNat ≤ found.toNat :=
          le_lastKey hlast _ (SortedMap.get?_eq_some_iff.1 hv)
        omega
      simp [nextKey, hlast, hroom, hfree]
    · have hfound : found = greatestKey := UInt64.toNat_inj.1 (by omega)
      simp only [nextKey, hlast, if_neg hroom, Except.error.injEq]
      rw [← hfound]
      exact ⟨fun h ↦ ⟨h.symm, hmem⟩, fun h ↦ h.1.symm⟩

theorem lt_nextKey (h : s.nextKey = .ok key) : ∀ j ∈ s.keys, j < key := by
  intro j hj
  obtain ⟨v, hv⟩ := SortedMap.mem_keys_iff.1 hj
  have hbefore := before_nextKey h _ (SortedMap.get?_eq_some_iff.1 hv)
  exact UInt64.lt_iff_toNat_lt.2 (of_decide_eq_true hbefore)

theorem isLeast_nextKey (h : s.nextKey = .ok key) :
    IsLeast {k | 1 ≤ k ∧ ∀ j ∈ s.keys, j < k} key := by
  rcases hlast : s.lastKey? with _ | last
  · have hnone := SortedMap.keys_eq_nil_of_lastKey? hlast
    simp only [nextKey, hlast] at h
    cases h
    refine ⟨⟨UInt64.le_refl 1, ?_⟩, fun k hk ↦ hk.1⟩
    rw [hnone]
    exact List.forall_mem_nil _
  · have hkey := toNat_nextKey hlast h
    refine ⟨⟨?_, lt_nextKey h⟩, fun k hk ↦ ?_⟩
    · rw [UInt64.le_iff_toNat_le, hkey]
      exact Nat.le_add_left 1 last.toNat
    · have habove := UInt64.lt_iff_toNat_lt.1 (hk.2 last (SortedMap.lastKey?_mem hlast))
      rw [UInt64.le_iff_toNat_le]
      omega

end Shelf

def Answer.newKey? : Answer V → Option UInt64
  | .key (.ok k) => some k
  | _ => none

def Request.isDelete : Request V → Bool
  | .delete _ => true
  | _ => false

namespace Store

variable [Json.Format V] {s : Store V} {d : Disk} {r : Request V} {key last : UInt64} {v : V}

def answerAll (s : Store V) (d : Disk) : List (Request V) → List (Answer V) × Store V × Disk
  | [] => ([], s, d)
  | r :: rs =>
    let (given, s, d) := s.answer d r
    let (more, s, d) := s.answerAll d rs
    (given :: more, s, d)

theorem add_of_error (h : s.shelf.nextKey = .error last) (d : Disk) (v : V) :
    s.add d v = (.error (.keysExhausted last), s, d) := by
  cases s with
  | memory shelf =>
    have hadd : shelf.add v = .error last := by rw [Shelf.add, show shelf.nextKey = _ from h]
    simp only [add, hadd]
  | archive a =>
    have hadd : a.shelf.add v = .error last := by rw [Shelf.add, show a.shelf.nextKey = _ from h]
    simp only [add, Archive.add, hadd]

theorem add_of_ok (h : s.shelf.nextKey = .ok key) (d : Disk) (v : V) :
    ∃ s' d', s'.shelf = s.shelf.insert key v ∧
      (s.add d v = (.ok key, s', d') ∨
        ∃ path fault, s.add d v = (.error (.access path fault), s', d')) := by
  cases s with
  | memory shelf =>
    have hadd : shelf.add v = .ok (key, shelf.insert key v) := by
      rw [Shelf.add, show shelf.nextKey = _ from h]
      rfl
    refine ⟨.memory (shelf.insert key v), d, rfl, .inl ?_⟩
    simp only [add, hadd]
  | archive a =>
    have hadd : a.shelf.add v = .ok (key, a.shelf.insert key v) := by
      rw [Shelf.add, show a.shelf.nextKey = _ from h]
      rfl
    let after : Archive V := { a with shelf := a.shelf.insert key v }
    rcases commit_cases after d key with ⟨d', -, hc⟩ | ⟨fault, d', -, hc⟩
    · refine ⟨.archive after, d', rfl, .inl ?_⟩
      simp only [add, Archive.add, hadd, after, hc]
    · refine ⟨.archive after, d', rfl, .inr ⟨a.path, fault, ?_⟩⟩
      simp only [add, Archive.add, hadd, after, hc]

theorem add_of_full (h : Shelf.greatestKey ∈ s.shelf.keys) (d : Disk) (v : V) :
    s.add d v = (.error (.keysExhausted Shelf.greatestKey), s, d) :=
  add_of_error (Shelf.nextKey_eq_error_iff.2 ⟨rfl, h⟩) d v

theorem add_of_room (h : Shelf.greatestKey ∉ s.shelf.keys)
    (hsaved : (s.answer d (.add v)).1.isUnsaved = false) :
    ∃ key s' d', s.shelf.nextKey = .ok key ∧ s'.shelf = s.shelf.insert key v ∧
      s.add d v = (.ok key, s', d') := by
  rcases hnext : s.shelf.nextKey with last | key
  · exact absurd (Shelf.nextKey_eq_error_iff.1 hnext).2 h
  · obtain ⟨s', d', hshelf, hadd | ⟨path, fault, hadd⟩⟩ := add_of_ok hnext d v
    · exact ⟨key, s', d', rfl, hshelf, hadd⟩
    · have hunsaved : (Answer.key (V := V) (s.add d v).1).isUnsaved = false := hsaved
      rw [hadd] at hunsaved
      cases hunsaved

theorem keys_subset_answer (h : r.isDelete = false) :
    s.shelf.keys ⊆ (s.answer d r).2.1.shelf.keys := by
  rw [answer_shelf]
  cases r with
  | get | list | count => exact List.Subset.refl _
  | set key value => exact s.shelf.keys_subset_insert key value
  | delete key => cases h
  | add value =>
    rw [Request.change]
    rcases hadd : s.shelf.add value with last | ⟨key, after⟩
    · exact List.Subset.refl _
    · rw [SortedMap.keys, SortedMap.keys, Shelf.entries_add hadd, List.map_append]
      exact List.subset_append_left _ _

theorem nextKey_of_newKey? (h : (s.answer d r).1.newKey? = some key) :
    s.shelf.nextKey = .ok key ∧ key ∈ (s.answer d r).2.1.shelf.keys := by
  cases r with
  | get | set | delete | list | count => cases h
  | add value =>
    have hgiven : (Answer.key (V := V) (s.add d value).1).newKey? = some key := h
    rw [answer_shelf, Request.change, Shelf.add]
    rcases hnext : s.shelf.nextKey with last | next
    · rw [add_of_error hnext] at hgiven
      cases hgiven
    · have hmem : next ∈ (s.shelf.insert next value).keys := by
        refine SortedMap.mem_keys_iff.2 ⟨value, ?_⟩
        exact (SortedMap.get?_insert s.shelf next next value).trans (if_pos rfl)
      obtain ⟨s', d', -, hadd | ⟨path, fault, hadd⟩⟩ := add_of_ok hnext d value
      · rw [hadd] at hgiven
        cases hgiven
        exact ⟨rfl, hmem⟩
      · rw [hadd] at hgiven
        cases hgiven

theorem newKeys_answerAll {rs : List (Request V)} (h : ∀ r ∈ rs, r.isDelete = false) (s : Store V)
    (d : Disk) :
    (∀ k ∈ (s.answerAll d rs).1.filterMap Answer.newKey?, ∀ j ∈ s.shelf.keys, j < k) ∧
      ((s.answerAll d rs).1.filterMap Answer.newKey?).Pairwise (· < ·) := by
  induction rs generalizing s d with
  | nil => exact ⟨List.forall_mem_nil _, .nil⟩
  | cons r rs ih =>
    obtain ⟨hr, hrs⟩ := List.forall_mem_cons.1 h
    obtain ⟨habove, hrise⟩ := ih hrs (s.answer d r).2.1 (s.answer d r).2.2
    have hgrows : s.shelf.keys ⊆ (s.answer d r).2.1.shelf.keys := keys_subset_answer hr
    have hrest : ∀ k ∈ ((s.answer d r).2.1.answerAll (s.answer d r).2.2 rs).1.filterMap
        Answer.newKey?, ∀ j ∈ s.shelf.keys, j < k := fun k hk j hj ↦ habove k hk j (hgrows hj)
    simp only [answerAll, List.filterMap_cons]
    rcases hnew : (s.answer d r).1.newKey? with _ | key
    · exact ⟨hrest, hrise⟩
    · obtain ⟨hnext, hmem⟩ := nextKey_of_newKey? hnew
      refine ⟨List.forall_mem_cons.2 ⟨Shelf.lt_nextKey hnext, hrest⟩, ?_⟩
      exact List.pairwise_cons.2 ⟨fun k hk ↦ habove k hk key hmem, hrise⟩

/-- Nothing can be added to a store only when the greatest key is in use, and then everything stays
as it is. Otherwise a value that can be saved is put under the least key from one on above all keys
in use, beside what is there. As long as nothing is deleted the new keys rise. -/
theorem add_fresh (s : Store V) (d : Disk) (v : V) :
    ((∃ last, (s.add d v).1 = .error (.keysExhausted last)) ↔ Shelf.greatestKey ∈ s.shelf.keys) ∧
      (Shelf.greatestKey ∈ s.shelf.keys →
        s.add d v = (.error (.keysExhausted Shelf.greatestKey), s, d)) ∧
      (Shelf.greatestKey ∉ s.shelf.keys → (s.answer d (.add v)).1.isUnsaved = false →
        ∃ key s' d', s.add d v = (.ok key, s', d') ∧
          IsLeast {k | 1 ≤ k ∧ ∀ j ∈ s.shelf.keys, j < k} key ∧
          (∀ k, s'.shelf.get? k = if k = key then some v else s.shelf.get? k) ∧
          s'.shelf.entries = s.shelf.entries ++ [(key, v)]) ∧
      ∀ rs, (∀ r ∈ rs, r.isDelete = false) →
        ((s.answerAll d rs).1.filterMap Answer.newKey?).Pairwise (· < ·) := by
  refine ⟨⟨fun hfails ↦ ?_, fun hfull ↦ ?_⟩, fun hfull ↦ ?_, fun hroom hsaved ↦ ?_,
    fun rs hrs ↦ (newKeys_answerAll hrs s d).2⟩
  · obtain ⟨last, hlast⟩ := hfails
    rcases hnext : s.shelf.nextKey with found | key
    · exact (Shelf.nextKey_eq_error_iff.1 hnext).2
    · obtain ⟨s', d', -, hadd | ⟨path, fault, hadd⟩⟩ := add_of_ok hnext d v
      · cases hlast.symm.trans (congrArg Prod.fst hadd)
      · cases hlast.symm.trans (congrArg Prod.fst hadd)
  · exact ⟨_, congrArg Prod.fst (add_of_full hfull d v)⟩
  · exact add_of_full hfull d v
  · obtain ⟨key, s', d', hnext, hshelf, hadd⟩ := add_of_room hroom hsaved
    refine ⟨key, s', d', hadd, Shelf.isLeast_nextKey hnext, fun k ↦ ?_, ?_⟩
    · rw [hshelf, SortedMap.get?_insert]
      simp only [eq_comm]
    · rw [hshelf]
      exact SortedMap.insertEntry_of_before (Shelf.before_nextKey hnext)

def gapped : Store Text :=
  .archive ⟨"q.json".toList, .ofList [(0, ['z']), (7, ['a'])]⟩

def exhausted : Store Text :=
  .memory (.ofList [(Shelf.greatestKey, ['o'])])

def entering : List (Request Text) :=
  [.add ['b'], .set 3 ['c'], .set 40 ['d'], .add ['e'], .list]

theorem add_fresh_gapped :
    Shelf.greatestKey ∉ gapped.shelf.keys ∧
      (gapped.answer .empty (.add ['b'])).1.isUnsaved = false ∧
      (gapped.add .empty ['b']).1 = .ok 8 ∧
      IsLeast {k | 1 ≤ k ∧ ∀ j ∈ gapped.shelf.keys, j < k} 8 ∧
      (∀ r ∈ entering, r.isDelete = false) ∧
      (gapped.answerAll .empty entering).1.filterMap Answer.newKey? = [8, 41] ∧
      [(8 : UInt64), 41].Pairwise (· < ·) ∧
      Shelf.greatestKey ∈ exhausted.shelf.keys ∧
      exhausted.add .empty ['b'] =
        (.error (.keysExhausted Shelf.greatestKey), exhausted, .empty) := by
  have hroom : Shelf.greatestKey ∉ gapped.shelf.keys := by decide +kernel
  have hsaved : (gapped.answer .empty (.add ['b'])).1.isUnsaved = false := by decide +kernel
  have hfull : Shelf.greatestKey ∈ exhausted.shelf.keys := by decide +kernel
  have hkept : ∀ r ∈ entering, r.isDelete = false := by decide +kernel
  obtain ⟨-, -, hadd, hrise⟩ := add_fresh gapped .empty ['b']
  obtain ⟨key, s', d', hkey, hleast, -, -⟩ := hadd hroom hsaved
  have hgiven : (gapped.add .empty ['b']).1 = .ok 8 := rfl
  rw [hkey] at hgiven
  cases hgiven
  have hkeys : (gapped.answerAll .empty entering).1.filterMap Answer.newKey? = [8, 41] := by
    decide +kernel
  have hpairs := hrise entering hkept
  rw [hkeys] at hpairs
  exact ⟨hroom, hsaved, congrArg Prod.fst hkey, hleast, hkept, hkeys, hpairs, hfull,
    (add_fresh exhausted .empty ['b']).2.1 hfull⟩

end Store

end ChatCommand
