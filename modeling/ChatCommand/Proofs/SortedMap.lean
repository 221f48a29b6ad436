import ChatCommand.SortedMap

namespace ChatCommand.SortedMap

variable {K V : Type} [Key K] [DecidableEq K] {m : SortedMap K V} {k j : K} {v : V}

@[simp]
theorem contains_empty : (empty : SortedMap K V).contains k = false := rfl

theorem contains_insert : (m.insert k v).contains j ↔ k = j ∨ m.contains j := by
  rw [contains, get?_insert]
  split <;> simp_all [contains]

theorem ext_contains {m n : SortedMap K Unit} (h : ∀ k, m.contains k ↔ n.contains k) : m = n := by
  refine ext_get? fun k ↦ ?_
  have hk := h k
  rw [contains, contains] at hk
  rcases hm : m.get? k with _ | u <;> rcases hn : n.get? k with _ | v
  · rfl
  · simp [hm, hn] at hk
  · simp [hm, hn] at hk
  · rfl

theorem erase_of_get?_eq_none (h : m.get? k = none) : m.erase k = m := by
  refine ext_get? fun j ↦ ?_
  rw [get?_erase]
  split
  · rename_i hj
    rw [← hj, h]
  · rfl

end ChatCommand.SortedMap
