import ChatCommand.Proofs.Store.Durability

namespace ChatCommand

variable {V : Type}

namespace SortedMap

variable {K : Type} [Key K] {m : SortedMap K V}

theorem entry_le_lastKey {last : K} (h : m.lastKey? = some last) :
    ∀ e ∈ m.entries, e.1 = last ∨ Key.before e.1 last := by
  obtain ⟨entry, hlast, rfl⟩ := Option.map_eq_some_iff.1 h
  obtain ⟨front, hfront⟩ := List.getLast?_eq_some_iff.1 hlast
  have hsorted := m.sorted
  rw [hfront, List.pairwise_append] at hsorted
  rw [hfront]
  intro e he
  rcases List.mem_append.1 he with he | he
  · exact .inr (hsorted.2.2 e he entry (List.mem_singleton.2 rfl))
  · exact .inl (congrArg Prod.fst (List.mem_singleton.1 he))

theorem lastKey?_eq_none_iff : m.lastKey? = none ↔ m.entries = [] := by
  rw [lastKey?, Option.map_eq_none_iff, List.getLast?_eq_none_iff]

variable [DecidableEq K]

theorem values_erase_sublist (m : SortedMap K V) (k : K) : (m.erase k).values.Sublist m.values :=
  List.filter_sublist.map _

end SortedMap

namespace Shelf

variable {s after : Shelf V} {key last : UInt64} {v : V}

theorem le_lastKey (h : s.lastKey? = some last) : ∀ e ∈ s.entries, e.1.toNat ≤ last.toNat := by
  intro e he
  rcases SortedMap.entry_le_lastKey h e he with heq | hlt
  · exact Nat.le_of_eq (congrArg UInt64.toNat heq)
  · exact Nat.le_of_lt (of_decide_eq_true hlt)

theorem toNat_nextKey (hlast : s.lastKey? = some last) (h : s.nextKey = .ok key) :
    key.toNat = last.toNat + 1 := by
  simp only [nextKey, hlast] at h
  split at h
  · rename_i hroom
    cases h
    rw [UInt64.toNat_add]
    exact Nat.mod_eq_of_lt hroom
  · cases h

theorem before_nextKey (h : s.nextKey = .ok key) : ∀ e ∈ s.entries, Key.before e.1 key := by
  rcases hlast : s.lastKey? with _ | last
  · rw [SortedMap.lastKey?_eq_none_iff.1 hlast]
    exact List.forall_mem_nil _
  · intro e he
    have hle := le_lastKey hlast e he
    have hkey := toNat_nextKey hlast h
    refine decide_eq_true ?_
    omega

theorem entries_add (h : s.add v = .ok (key, after)) :
    after.entries = s.entries ++ [(key, v)] := by
  rw [add] at h
  split at h
  · cases h
  · rename_i next hnext
    cases h
    exact SortedMap.insertEntry_of_before (before_nextKey hnext)

end Shelf

namespace Store

variable [Json.Format V]

theorem answer_shelf (s : Store V) (d : Disk) (r : Request V) :
    (s.answer d r).2.1.shelf = r.change s.shelf := by
  cases s with
  | memory shelf =>
    cases r with
    | get | set | delete | list | count => rfl
    | add value =>
      simp only [answer, add, Request.change, Store.shelf]
      rcases shelf.add value with last | ⟨key, after⟩ <;> rfl
  | archive a =>
    obtain ⟨a', ha'⟩ : ∃ a', ((archive a).answer d r).2.1 = .archive a' := by
      cases r <;> exact ⟨_, rfl⟩
    have hanswer : (archive a).answer d r =
        (((archive a).answer d r).1, .archive a', ((archive a).answer d r).2.2) :=
      Prod.ext rfl (Prod.ext ha' rfl)
    rw [ha', (Archive.answer_ends hanswer).1]
    rfl

end Store

end ChatCommand
