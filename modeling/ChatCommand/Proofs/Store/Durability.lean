import ChatCommand.Proofs.Store.Session

namespace ChatCommand

variable {V : Type}

/-- Whether the file lacks a change once a request is answered, if it was late or not before. It is
late after a save that fails, and up to date after one that does not. -/
def Answer.late (late : Bool) : Request V → Answer V → Bool
  | _, .value (.error _) | _, .key (.error (.access _ _)) => true
  | .set _ _, .value (.ok _) | .delete _, .value (.ok (some _)) | .add _, .key (.ok _) => false
  | _, _ => late

theorem Answer.late_of_isUnsaved {given : Answer V} (h : given.isUnsaved = true) (late : Bool)
    (r : Request V) : given.late late r = true := by
  rcases given with (e | old) | (e | key) | _ | _ | _ <;> try contradiction
  · cases r <;> rfl
  · cases e with
    | access path fault => cases r <;> rfl
    | keysExhausted last => contradiction
    | decode path source => contradiction

def Request.change : Request V → Shelf V → Shelf V
  | .set key value, s => (s.set key value).2
  | .delete key, s => (s.delete key).2
  | .add value, s =>
    match s.add value with
    | .ok (_, s) => s
    | .error _ => s
  | .get _, s | .list, s | .count, s => s

namespace Archive

variable [Json.Format V]

/-- The archive and the disk at some time after it was opened. Others change the disk as they like,
but for what the file at the path reads as. -/
inductive Lives (explain : Text → Text) (path : Text) : Bool → Archive V → Disk → Prop
  | opened {a : Archive V} {d : Disk} :
      load explain d path = .ok a → Lives explain path false a d
  | answered {late : Bool} {a a' : Archive V} {d d' : Disk} {r : Request V} {given : Answer V} :
      Lives explain path late a d → (Store.archive a).answer d r = (given, .archive a', d') →
      Lives explain path (given.late late r) a' d'
  | elsewhere {late : Bool} {a : Archive V} {d d' : Disk} :
      Lives explain path late a d → d'.read path = d.read path → Lives explain path late a d'

variable {explain : Text → Text} {a a' : Archive V} {d d' : Disk} {path : Text} {late : Bool}
  {r : Request V} {given : Answer V}

theorem path_of_load (h : load explain d path = .ok a) : a.path = path := by
  rw [load] at h
  split at h
  · cases h
    rfl
  · cases h
  · cases h
    rfl
  · split at h
    · cases h
    · cases h
      rfl

theorem set_eq (a : Archive V) (d : Disk) (key : UInt64) (value : V) :
    a.set d key value =
      commit { a with shelf := a.shelf.insert key value } d (a.shelf.get? key) :=
  rfl

theorem delete_cases (a : Archive V) (d : Disk) (key : UInt64) :
    a.delete d key = (.ok none, a, d) ∨
      ∃ old, a.delete d key = commit { a with shelf := a.shelf.erase key } d (some old) := by
  rcases hget : a.shelf.get? key with _ | old
  · exact .inl (by simp only [Archive.delete, Shelf.delete, hget])
  · exact .inr ⟨old, by simp only [Archive.delete, Shelf.delete, hget]⟩

theorem add_cases (a : Archive V) (d : Disk) (value : V) :
    (∃ last, a.add d value = (.error (.keysExhausted last), a, d)) ∨
      ∃ key shelf, a.add d value = commit { a with shelf } d key := by
  rcases hadd : a.shelf.add value with last | ⟨key, shelf⟩
  · exact .inl ⟨last, by simp only [Archive.add, hadd]⟩
  · exact .inr ⟨key, shelf, by simp only [Archive.add, hadd]⟩

/-- What a request can come to: there is nothing to save, or the changed shelf is saved, or it is
not. -/
inductive Ends (a a' : Archive V) (d d' : Disk) (r : Request V) (given : Answer V) : Prop
  | untouched : a' = a → d' = d → (∀ late, given.late late r = late) → Ends a a' d d' r given
  | saved : a'.save d = (.ok (), d') → (∀ late, given.late late r = false) → Ends a a' d d' r given
  | failed {e : StoreError} :
      a'.save d = (.error e, d') → given.isUnsaved = true → Ends a a' d d' r given

theorem commit_ends {α : Type} {x : α} {after : Archive V} (answer : Except StoreError α → Answer V)
    (hok : ∀ late, (answer (.ok x)).late late r = false)
    (herror : ∀ fault, (answer (.error (.access after.path fault))).isUnsaved = true)
    (h : (answer (after.commit d x).1, Store.archive (after.commit d x).2.1,
      (after.commit d x).2.2) = (given, .archive a', d')) :
    a' = after ∧ Ends a a' d d' r given := by
  rcases Store.commit_cases after d x with ⟨d₁, hsave, hc⟩ | ⟨fault, d₁, hsave, hc⟩
  · rw [hc] at h
    cases h
    exact ⟨rfl, .saved hsave hok⟩
  · rw [hc] at h
    cases h
    exact ⟨rfl, .failed hsave (herror fault)⟩

theorem answer_ends (h : (Store.archive a).answer d r = (given, .archive a', d')) :
    a' = { a with shelf := r.change a.shelf } ∧ Ends a a' d d' r given := by
  cases r with
  | get | list | count =>
    cases h
    exact ⟨rfl, .untouched rfl rfl fun _ ↦ rfl⟩
  | set key value =>
    exact commit_ends .value (fun _ ↦ rfl) (fun _ ↦ rfl) h
  | delete key =>
    rcases hget : a.shelf.get? key with _ | old
    · simp only [Store.answer, Store.delete, Archive.delete, Shelf.delete, hget] at h
      cases h
      refine ⟨?_, .untouched rfl rfl fun _ ↦ rfl⟩
      simp only [Request.change, Shelf.delete, SortedMap.erase_of_get?_eq_none hget]
    · simp only [Store.answer, Store.delete, Archive.delete, Shelf.delete, hget] at h
      exact commit_ends .value (fun _ ↦ rfl) (fun _ ↦ rfl) h
  | add value =>
    rcases hadd : a.shelf.add value with last | ⟨key, shelf⟩
    · simp only [Store.answer, Store.add, Archive.add, hadd] at h
      cases h
      refine ⟨?_, .untouched rfl rfl fun _ ↦ rfl⟩
      simp only [Request.change, hadd]
    · simp only [Store.answer, Store.add, Archive.add, hadd] at h
      obtain ⟨rfl, hends⟩ := commit_ends (r := .add value) .key (fun _ ↦ rfl) (fun _ ↦ rfl) h
      refine ⟨?_, hends⟩
      simp only [Request.change, hadd]

variable [Json.LawfulFormat V]

theorem commit_eq_ok {α : Type} {x y : α} (h : a.commit d x = (.ok y, a', d')) :
    y = x ∧ ∀ explain, load explain d' a.path = .ok a' := by
  rcases Store.commit_cases a d x with ⟨d₁, hsave, hc⟩ | ⟨fault, d₁, -, hc⟩
  · cases hc.symm.trans h
    exact ⟨rfl, fun _ ↦ load_of_save hsave⟩
  · cases hc.symm.trans h

theorem Lives.invariant (h : Lives explain path late a d) :
    a.path = path ∧ (late = false → load explain d path = .ok a) := by
  induction h with
  | opened hload => exact ⟨path_of_load hload, fun _ ↦ hload⟩
  | @answered late a a' d d' r given _ hanswer ih =>
    obtain ⟨hpath, hload⟩ := ih
    obtain ⟨hafter, hends⟩ := answer_ends hanswer
    have hsame : a'.path = path := by rw [hafter, hpath]
    refine ⟨hsame, fun hlate ↦ ?_⟩
    cases hends with
    | untouched ha hd hidle =>
      rw [ha, hd]
      exact hload ((hidle late).symm.trans hlate)
    | saved hsave _ =>
      rw [← hsame]
      exact load_of_save hsave
    | failed _ hunsaved => cases (Answer.late_of_isUnsaved hunsaved late r).symm.trans hlate
  | elsewhere _ hread ih => exact ⟨ih.1, fun hlate ↦ (Store.load_congr hread).trans (ih.2 hlate)⟩

/-- Whenever a change is acknowledged, what is opened at that moment is what is in memory. A key
that is not there is deleted without a trace, so that the file may still lack an older change. -/
theorem acknowledged_durable (h : Lives explain path late a d) (key : UInt64) (value : V) :
    (∀ old a' d', a.set d key value = (.ok old, a', d') → load explain d' path = .ok a') ∧
      (∀ new a' d', a.add d value = (.ok new, a', d') → load explain d' path = .ok a') ∧
      (∀ old a' d', a.delete d key = (.ok (some old), a', d') → load explain d' path = .ok a') ∧
      ∀ a' d', a.delete d key = (.ok none, a', d') →
        a' = a ∧ d' = d ∧ (late = false → load explain d' path = .ok a') := by
  obtain ⟨rfl, hload⟩ := h.invariant
  refine ⟨fun old a' d' hset ↦ ?_, fun new a' d' hadd ↦ ?_, fun old a' d' hdelete ↦ ?_,
    fun a' d' hdelete ↦ ?_⟩
  · rw [set_eq] at hset
    exact (commit_eq_ok hset).2 explain
  · rcases add_cases a d value with ⟨last, hfull⟩ | ⟨k, shelf, hcommit⟩
    · cases hfull.symm.trans hadd
    · exact (commit_eq_ok (hcommit.symm.trans hadd)).2 explain
  · rcases delete_cases a d key with hnone | ⟨v, hcommit⟩
    · cases hnone.symm.trans hdelete
    · exact (commit_eq_ok (hcommit.symm.trans hdelete)).2 explain
  · rcases delete_cases a d key with hnone | ⟨v, hcommit⟩
    · cases hnone.symm.trans hdelete
      exact ⟨rfl, rfl, hload⟩
    · cases (commit_eq_ok (hcommit.symm.trans hdelete)).1

def blocked : Disk :=
  Disk.empty.put ["q.json.tmp".toList] .directory

def unsaved : Archive Text :=
  ⟨"q.json".toList, .ofList [(1, ['a'])]⟩

theorem lives_unsaved : Lives explain "q.json".toList true unsaved blocked := by
  have hopened : Lives explain "q.json".toList false
      (⟨"q.json".toList, .empty⟩ : Archive Text) blocked := .opened rfl
  have hanswer : (Store.archive ⟨"q.json".toList, .empty⟩).answer blocked (.set 1 ['a']) =
      (.value (.error (.access "q.json".toList .isDirectory)), .archive unsaved, blocked) := rfl
  exact hopened.answered hanswer

theorem acknowledged_durable_unsaved :
    Lives id "q.json".toList true unsaved .empty ∧ ∃ a' d',
      unsaved.set .empty 2 ['b'] = (.ok none, a', d') ∧ load id d' "q.json".toList = .ok a' := by
  have hread : Disk.empty.read "q.json".toList = blocked.read "q.json".toList := by decide +kernel
  have hlives : Lives id "q.json".toList true unsaved .empty := lives_unsaved.elsewhere hread
  have hset : unsaved.set .empty 2 ['b'] = (.ok none, _, _) := rfl
  exact ⟨hlives, _, _, hset, (acknowledged_durable hlives 2 ['b']).1 _ _ _ hset⟩

/-- A key that is not there is deleted, and what was not saved before is not in the file then. -/
theorem delete_none_not_durable :
    ∃ (a a' : Archive Text) (d d' : Disk) (late : Bool), Lives id "q.json".toList late a d ∧
      a.delete d 2 = (.ok none, a', d') ∧ load id d' "q.json".toList ≠ .ok a' := by
  refine ⟨unsaved, unsaved, blocked, blocked, true, lives_unsaved, rfl, fun hload ↦ ?_⟩
  have hopened : load id blocked "q.json".toList = .ok (⟨_, .empty⟩ : Archive Text) := rfl
  have hentries := congrArg (·.shelf.entries) (Except.ok.inj (hopened.symm.trans hload))
  cases hentries

end Archive

end ChatCommand
