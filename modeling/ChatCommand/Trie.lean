namespace ChatCommand

/-- A finite map from lists. Lists that start alike share the way down to where they part. -/
inductive Trie (K V : Type) where
  | node (value : Option V) (branches : List (K × Trie K V))

namespace Trie

variable {K V : Type} [DecidableEq K]

def empty : Trie K V :=
  .node none []

def value : Trie K V → Option V
  | .node v _ => v

def branches : Trie K V → List (K × Trie K V)
  | .node _ ts => ts

def child (t : Trie K V) (k : K) : Trie K V :=
  (t.branches.find? (·.1 = k)).elim empty (·.2)

def get? (t : Trie K V) : List K → Option V
  | [] => t.value
  | k :: ks => (t.child k).get? ks

def set (t : Trie K V) (v : Option V) : List K → Trie K V
  | [] => .node v t.branches
  | k :: ks => .node t.value ((k, (t.child k).set v ks) :: t.branches.filter (·.1 ≠ k))

def insert (t : Trie K V) (ks : List K) (v : V) : Trie K V :=
  t.set (some v) ks

def erase (t : Trie K V) (ks : List K) : Trie K V :=
  t.set none ks

@[simp]
theorem child_empty (k : K) : (empty : Trie K V).child k = empty := rfl

@[simp]
theorem get?_empty (ks : List K) : (empty : Trie K V).get? ks = none := by
  induction ks with
  | nil => rfl
  | cons k ks ih => simpa [get?] using ih

theorem find?_filter_ne {es : List (K × Trie K V)} {k j : K} (h : k ≠ j) :
    (es.filter (·.1 ≠ k)).find? (·.1 = j) = es.find? (·.1 = j) := by
  induction es with
  | nil => rfl
  | cons e es ih => by_cases hk : e.1 = k <;> by_cases hj : e.1 = j <;> grind

theorem child_set_cons (t : Trie K V) (v : Option V) (k j : K) (ks : List K) :
    (t.set v (k :: ks)).child j = if k = j then (t.child k).set v ks else t.child j := by
  rw [set, child, branches]
  split
  · rename_i h
    simp [h]
  · rename_i h
    rw [List.find?_cons_of_neg (by simpa using h), find?_filter_ne h]
    rfl

theorem get?_set (t : Trie K V) (v : Option V) (ks js : List K) :
    (t.set v ks).get? js = if ks = js then v else t.get? js := by
  induction ks generalizing t js with
  | nil => cases js <;> simp [set, get?, value, child, branches]
  | cons k ks ih =>
    cases js with
    | nil => simp [set, get?, value]
    | cons j js =>
      rw [get?, child_set_cons]
      by_cases h : k = j
      · subst h
        simp [ih, get?]
      · simp [h, get?]

theorem get?_insert (t : Trie K V) (ks js : List K) (v : V) :
    (t.insert ks v).get? js = if ks = js then some v else t.get? js :=
  get?_set t (some v) ks js

theorem get?_erase (t : Trie K V) (ks js : List K) :
    (t.erase ks).get? js = if ks = js then none else t.get? js :=
  get?_set t none ks js

end Trie

end ChatCommand
