import ChatCommand.Archive

namespace ChatCommand

namespace Disk

variable {d d' : Disk} {place : Place} {entry : Entry} {steps : List Text} {step : Text}
  {path source target data : Text}

def Keeps (d d' : Disk) : Prop :=
  ∀ place, d.entry? place = some .directory → d'.entry? place = some .directory

theorem Keeps.follow (h : d.Keeps d') {q : Place} (hf : d.follow place step = .ok q) :
    d'.follow place step = .ok q := by
  rw [Disk.follow] at hf ⊢
  split at hf
  · rename_i hroot
    rw [if_pos hroot]
    exact hf
  · rename_i hroot
    rw [if_neg hroot]
    rcases hentry : d.entry? place with _ | _ | data
    · simp [hentry] at hf
    · rw [h place hentry]
      rw [hentry] at hf
      exact hf
    · simp [hentry] at hf

theorem Keeps.locate (h : d.Keeps d') (hl : d.locate steps = .ok place) :
    d'.locate steps = .ok place := by
  unfold Disk.locate at hl ⊢
  generalize ([] : Place) = start at hl ⊢
  induction steps generalizing start with
  | nil => exact hl
  | cons step steps ih =>
    rw [List.foldlM_cons] at hl ⊢
    rcases hf : d.follow start step with fault | q
    · rw [hf] at hl
      cases hl
    · rw [hf] at hl
      rw [h.follow hf]
      exact ih q hl

theorem Keeps.locatePath (h : d.Keeps d') (hl : d.locatePath path = .ok place) :
    d'.locatePath path = .ok place := by
  unfold Disk.locatePath at hl ⊢
  split at hl
  · cases hl
  split at hl
  · cases hl
  split at hl
  · cases hl
  rename_i hempty hnul hlong
  rw [if_neg hempty, if_neg hnul, if_neg hlong]
  exact h.locate hl

theorem isGround_eq_false (h : d.entry? place ≠ some .directory) : isGround place = false := by
  unfold entry? at h
  split at h
  · exact absurd rfl h
  · exact eq_false_of_ne_true ‹_›

theorem entry_put (h : d.entry? place ≠ some .directory) (p : Place) :
    Disk.entry? (d.put place entry) p = if place = p then some entry else d.entry? p := by
  have hground := isGround_eq_false h
  unfold entry? put
  rw [Trie.get?_insert]
  by_cases hp : place = p
  · subst hp
    simp [hground]
  · simp only [hp, if_false]

theorem keeps_put (h : d.entry? place ≠ some .directory) : d.Keeps (d.put place entry) := by
  intro p hp
  have hne : place ≠ p := by
    intro heq
    subst heq
    exact h hp
  rw [entry_put h, if_neg hne, hp]

theorem read_eq_ok_iff : d.read path = .ok data ↔
    ∃ place, d.locatePath path = .ok place ∧ d.entry? place = some (.file data) := by
  rw [read]
  rcases d.locatePath path with fault | place
  · simp
  · rcases hentry : d.entry? place with _ | _ | data' <;> simp [hentry]

theorem store_read (h : d.store path data = .ok d') : d'.read path = .ok data := by
  rw [store] at h
  rcases hl : d.locatePath path with fault | place
  · simp [hl] at h
  · simp only [hl] at h
    split at h
    · cases h
    · rename_i hfile
      cases h
      rw [read_eq_ok_iff]
      exact ⟨place, (keeps_put hfile).locatePath hl, by rw [entry_put hfile, if_pos rfl]⟩

theorem entry_trouble (place : Place) : Disk.entry? d.trouble.2 place = d.entry? place := by
  rw [trouble]
  split <;> rfl

theorem trouble_read (h : d.read path = .ok data) : d.trouble.2.read path = .ok data := by
  obtain ⟨place, hl, hentry⟩ := read_eq_ok_iff.1 h
  have hkeeps : d.Keeps d.trouble.2 := fun p hp ↦ by rw [entry_trouble, hp]
  exact read_eq_ok_iff.2 ⟨place, hkeeps.locatePath hl, by rw [entry_trouble, hentry]⟩

theorem write_read (h : d.write path data = (.ok (), d')) : d'.read path = .ok data := by
  rw [write] at h
  split at h
  · split at h <;> cases h
  · split at h
    · rename_i hs
      cases h
      exact store_read hs
    · cases h

theorem entry_moved {a b : Place} (ha : d.entry? a = some (.file data))
    (hb : d.entry? b ≠ some .directory) (p : Place) :
    Disk.entry? { d with entries := (d.entries.erase a).insert b (.file data) } p =
      if b = p then some (.file data) else if a = p then none else d.entry? p := by
  have hfile : isGround a = false := isGround_eq_false (d := d) (by simp [ha])
  have hground := isGround_eq_false hb
  unfold entry?
  rw [Trie.get?_insert, Trie.get?_erase]
  by_cases hbp : b = p
  · subst hbp
    simp [hground]
  by_cases hap : a = p
  · subst hap
    simp [hfile, hbp]
  · simp only [if_neg hbp, if_neg hap]

theorem moveFile_read (hsource : d.read source = .ok data)
    (h : d.moveFile source target = .ok d') : d'.read target = .ok data := by
  obtain ⟨a, hla, ha⟩ := read_eq_ok_iff.1 hsource
  simp only [moveFile, hla, ha] at h
  split at h
  · cases h
  rcases hlb : d.locatePath target with fault | b
  · simp [hlb] at h
  simp only [hlb] at h
  split at h
  · cases h
  rename_i hb
  cases h
  have hmoved := entry_moved ha hb
  have hkeeps : d.Keeps { d with entries := (d.entries.erase a).insert b (.file data) } := by
    intro p hp
    have hbp : b ≠ p := by
      intro heq
      subst heq
      exact hb hp
    have hap : a ≠ p := by
      intro heq
      subst heq
      simp [ha] at hp
    rw [hmoved, if_neg hbp, if_neg hap, hp]
  exact read_eq_ok_iff.2 ⟨b, hkeeps.locatePath hlb, by rw [hmoved, if_pos rfl]⟩

theorem rename_read (hsource : d.read source = .ok data)
    (h : d.rename source target = (.ok (), d')) : d'.read target = .ok data := by
  have hread := trouble_read hsource
  rw [rename] at h
  split at h
  · cases h
  · rename_i d₀ htrouble
    rw [htrouble] at hread
    split at h
    · rename_i hm
      cases h
      rw [move] at hm
      split at hm
      · split at hm <;> cases hm
      · exact moveFile_read hread hm
    · cases h

end Disk

namespace Archive

variable {V : Type} [Json.Format V] {a : Archive V} {d d' : Disk} {path : Text} {shelf : Shelf V}
  {explain : Text → Text}

theorem save_read (h : a.save d = (.ok (), d')) :
    d'.read a.path = .ok (Json.writeMap a.shelf) := by
  simp only [save] at h
  split at h
  · cases h
  rename_i d₁ _
  rcases hw : d₁.write (draftPath a.path) (Json.writeMap a.shelf) with ⟨fault | _, d₂⟩
  · simp [hw] at h
  rw [hw] at h
  simp only at h
  rcases hr : d₂.rename (draftPath a.path) a.path with ⟨fault | _, d₃⟩
  · simp [hr] at h
  rw [hr] at h
  cases h
  exact Disk.rename_read (Disk.write_read hw) hr

theorem save_error {e : StoreError} (h : (a.save d).1 = .error e) :
    ∃ fault, e = .access a.path fault := by
  simp only [save] at h
  split at h
  · exact ⟨_, (Except.error.inj h).symm⟩
  split at h
  · exact ⟨_, (Except.error.inj h).symm⟩
  split at h
  · exact ⟨_, (Except.error.inj h).symm⟩
  · cases h

variable [Json.LawfulFormat V]

theorem load_of_read (h : d.read path = .ok (Json.writeMap shelf)) :
    load explain d path = .ok ⟨path, shelf⟩ := by
  have hread := Json.readMap_writeMap shelf
  rw [load, h]
  rcases hdata : Json.writeMap shelf with _ | ⟨c, data⟩
  · rw [Json.writeMap, Json.writeItems] at hdata
    split at hdata <;> cases hdata
  · rw [hdata] at hread
    simp only [hread]

theorem load_of_save (h : a.save d = (.ok (), d')) : load explain d' a.path = .ok a :=
  load_of_read (save_read h)

end Archive

end ChatCommand
