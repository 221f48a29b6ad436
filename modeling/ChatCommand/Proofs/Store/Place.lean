import ChatCommand.Proofs.Except
import ChatCommand.Proofs.Store.Draft
import ChatCommand.Proofs.Store.Saving

namespace ChatCommand

namespace Disk

open ChatCommand.Path Text

variable {d d' : Disk} {place q : Place} {entry : Entry} {steps steps' trail front : List Text}
  {step name path data : Text}

def walk (d : Disk) (place : Place) (steps : List Text) : Except DiskFault Place :=
  steps.foldlM d.follow place

theorem walk_cons (d : Disk) (place : Place) (step : Text) (steps : List Text) :
    d.walk place (step :: steps) = d.follow place step >>= fun q ↦ d.walk q steps :=
  List.foldlM_cons

theorem walk_append (d : Disk) (place : Place) (steps steps' : List Text) :
    d.walk place (steps ++ steps') = d.walk place steps >>= fun q ↦ d.walk q steps' :=
  List.foldlM_append

theorem walk_cons_eq_ok_iff : d.walk place (step :: steps) = .ok q ↔
    ∃ m, d.follow place step = .ok m ∧ d.walk m steps = .ok q := by
  rw [walk_cons]
  exact bind_eq_ok

theorem follow_root (d : Disk) (place : Place) : d.follow place root = .ok [root] :=
  if_pos rfl

theorem walk_lead (d : Disk) (path : Text) (steps : List Text) :
    d.walk [] (lead path ++ steps) = d.walk (lead path) steps := by
  rw [lead]
  split
  · rw [List.cons_append, walk_cons, follow_root]
    rfl
  · rfl

theorem locate_eq_walk (d : Disk) (path : Text) :
    d.locate (Path.steps path) = d.walk (lead path) (pieces '/' path) := by
  rw [steps_eq, ← walk_lead]
  rfl

theorem follow_cases (h : d.follow place step = .ok q) : step = root ∧ q = [root] ∨
    d.entry? place = some .directory ∧ (isIdle step ∧ q = place ∨ step = up ∧ q = above place ∨
      isName step ∧ byteLength step ≤ 255 ∧ q = place ++ [step]) := by
  rw [follow] at h
  split at h
  · rename_i hroot
    cases h
    exact .inl ⟨hroot, rfl⟩
  rename_i hroot
  split at h
  · cases h
  · cases h
  rename_i hentry
  refine .inr ⟨hentry, ?_⟩
  split at h
  · rename_i hidle
    cases h
    exact .inl ⟨isIdle_iff.2 hidle, rfl⟩
  rename_i hidle
  split at h
  · rename_i hup
    cases h
    exact .inr (.inl ⟨hup, rfl⟩)
  rename_i hup
  split at h
  · cases h
  rename_i hlong
  cases h
  refine .inr (.inr ⟨isName_iff.2 ⟨?_, hup, hroot⟩, by omega, rfl⟩)
  exact eq_false_of_ne_true fun h ↦ hidle (isIdle_iff.1 h)

theorem follow_congr (h : d'.entry? place = d.entry? place) (step : Text) :
    d'.follow place step = d.follow place step := by
  rw [follow, follow, h]

theorem directory_of_follow (hroot : step ≠ root) (h : d.follow place step = .ok q) :
    d.entry? place = some .directory := by
  rcases follow_cases h with ⟨hstep, -⟩ | ⟨hentry, -⟩
  · exact absurd hstep hroot
  · exact hentry

theorem follow_idle (hstep : isIdle step) (h : d.entry? place = some .directory) :
    d.follow place step = .ok place := by
  have hroot : step ≠ root := by
    rintro rfl
    contradiction
  rw [follow, if_neg hroot, h]
  exact if_pos (isIdle_iff.1 hstep)

theorem eq_of_follow_idle (hstep : isIdle step) (h : d.follow place step = .ok q) : q = place := by
  rcases follow_cases h with ⟨rfl, -⟩ | ⟨-, ⟨-, hq⟩ | ⟨rfl, -⟩ | ⟨hname, -⟩⟩
  · contradiction
  · exact hq
  · contradiction
  · rw [isIdle_of_isName hname] at hstep
    contradiction

theorem eq_of_follow_name (hstep : isName step) (h : d.follow place step = .ok q) :
    q = place ++ [step] := by
  rcases follow_cases h with ⟨rfl, -⟩ | ⟨-, ⟨hidle, -⟩ | ⟨rfl, -⟩ | ⟨-, -, hq⟩⟩
  · contradiction
  · rw [isIdle_of_isName hstep] at hidle
    contradiction
  · contradiction
  · exact hq

theorem eq_of_walk_idle (htrail : ∀ t ∈ trail, isIdle t) (h : d.walk place trail = .ok q) :
    q = place := by
  induction trail with
  | nil =>
    cases h
    rfl
  | cons t trail ih =>
    obtain ⟨m, hm, hwalk⟩ := walk_cons_eq_ok_iff.1 h
    rw [eq_of_follow_idle (htrail t (List.mem_cons_self ..)) hm] at hwalk
    exact ih (fun t ht ↦ htrail t (List.mem_cons_of_mem _ ht)) hwalk

theorem walk_idle_congr (htrail : ∀ t ∈ trail, isIdle t) (h : d'.entry? place = d.entry? place) :
    d'.walk place trail = d.walk place trail := by
  induction trail with
  | nil => rfl
  | cons t trail ih =>
    rw [walk_cons, walk_cons, follow_congr h]
    rcases hf : d.follow place t with fault | m
    · rfl
    · rw [eq_of_follow_idle (htrail t (List.mem_cons_self ..)) hf]
      exact ih fun t ht ↦ htrail t (List.mem_cons_of_mem _ ht)

theorem walk_filter (h : d.walk place steps = .ok q) :
    d.walk place (steps.filter (!isIdle ·)) = .ok q := by
  induction steps generalizing place with
  | nil => exact h
  | cons step steps ih =>
    obtain ⟨m, hm, hwalk⟩ := walk_cons_eq_ok_iff.1 h
    rcases hidle : isIdle step
    · rw [List.filter_cons_of_pos (by simp [hidle]), walk_cons, hm]
      exact ih hwalk
    · rw [List.filter_cons_of_neg (by simp [hidle])]
      rw [eq_of_follow_idle hidle hm] at hwalk
      exact ih hwalk

theorem directory_of_walk (hroot : root ∉ steps) (h : d.walk place steps = .ok q)
    (hq : d.entry? q = some .directory) : d.entry? place = some .directory := by
  cases steps with
  | nil =>
    cases h
    exact hq
  | cons step steps =>
    obtain ⟨m, hm, -⟩ := walk_cons_eq_ok_iff.1 h
    exact directory_of_follow (fun heq ↦ hroot (heq ▸ List.mem_cons_self ..)) hm

theorem walk_of_filter (hroot : root ∉ steps)
    (h : d.walk place (steps.filter (!isIdle ·)) = .ok q)
    (hq : d.entry? q = some .directory) : d.walk place steps = .ok q := by
  induction steps generalizing place with
  | nil => exact h
  | cons step steps ih =>
    have hroot' : root ∉ steps := fun hmem ↦ hroot (List.mem_cons_of_mem _ hmem)
    rcases hidle : isIdle step
    · rw [List.filter_cons_of_pos (by simp [hidle])] at h
      obtain ⟨m, hm, hwalk⟩ := walk_cons_eq_ok_iff.1 h
      rw [walk_cons, hm]
      exact ih hroot' hwalk
    · rw [List.filter_cons_of_neg (by simp [hidle])] at h
      -- The way goes on to a directory, so that there is one here for the piece to stay in.
      have hplace : d.entry? place = some .directory :=
        directory_of_walk (fun hmem ↦ hroot' (List.mem_of_mem_filter hmem)) h hq
      rw [walk_cons, follow_idle hidle hplace]
      exact ih hroot' h

/-! ### The tree of directories -/

/-- Whatever there is stands in a directory. -/
def Rooted (d : Disk) : Prop :=
  ∀ place, d.entry? place ≠ none → d.entry? (above place) = some .directory

theorem entry_of_isGround (h : isGround place) : d.entry? place = some .directory :=
  if_pos h

theorem isGround_above (h : isGround place) : isGround (above place) := by
  by_cases hroot : place = [root]
  · rw [above, if_pos hroot]
    exact h
  · rw [above, if_neg hroot, if_pos h]
    simpa [isGround] using h

theorem isGround_concat (h : isName name) (place : Place) : isGround (place ++ [name]) = false := by
  obtain ⟨-, hup, hroot⟩ := isName_iff.1 h
  simp [isGround, hup, hroot]

theorem above_concat (h : isName name) (place : Place) : above (place ++ [name]) = place := by
  have hground := isGround_concat h place
  have hroot : place ++ [name] ≠ [root] := by
    intro heq
    rw [heq] at hground
    contradiction
  rw [above, if_neg hroot, if_neg (by simp [hground]), List.dropLast_concat]

theorem rooted_empty : empty.Rooted := by
  intro place hplace
  refine entry_of_isGround (isGround_above ?_)
  by_contra hground
  refine hplace ?_
  unfold entry? empty
  rw [if_neg hground, Trie.get?_empty]

theorem Rooted.above_of_follow (h : d.Rooted) (hf : d.follow place step = .ok q) :
    d.entry? (above q) = some .directory := by
  rcases follow_cases hf with ⟨-, rfl⟩ | ⟨hentry, ⟨-, rfl⟩ | ⟨-, rfl⟩ | ⟨hname, -, rfl⟩⟩
  · rfl
  · exact h _ (by simp [hentry])
  · exact h _ (by simp [h _ (show d.entry? place ≠ none by simp [hentry])])
  · rw [above_concat hname, hentry]

theorem Rooted.above_of_walk (h : d.Rooted) (hplace : d.entry? (above place) = some .directory)
    (hw : d.walk place steps = .ok q) : d.entry? (above q) = some .directory := by
  induction steps generalizing place with
  | nil =>
    cases hw
    exact hplace
  | cons step steps ih =>
    obtain ⟨m, hm, hwalk⟩ := walk_cons_eq_ok_iff.1 hw
    exact ih (h.above_of_follow hm) hwalk

theorem Rooted.above_of_locate (h : d.Rooted) (hl : d.locate steps = .ok q) :
    d.entry? (above q) = some .directory :=
  h.above_of_walk rfl hl

theorem Rooted.put (h : d.Rooted) (hplace : d.entry? place ≠ some .directory)
    (habove : d.entry? (above place) = some .directory) : (d.put place entry).Rooted := by
  intro p hp
  rw [entry_put hplace] at hp ⊢
  have hkept : d.entry? (above p) = some .directory := by
    split at hp
    · rename_i heq
      exact heq ▸ habove
    · exact h p hp
  have hne : place ≠ above p := by
    rintro heq
    exact hplace (heq ▸ hkept)
  rw [if_neg hne, hkept]

theorem Rooted.moved {a b : Place} (h : d.Rooted) (ha : d.entry? a = some (.file data))
    (hb : d.entry? b ≠ some .directory) (habove : d.entry? (above b) = some .directory) :
    Rooted { d with entries := (d.entries.erase a).insert b (.file data) } := by
  intro p hp
  rw [entry_moved ha hb] at hp ⊢
  have hkept : d.entry? (above p) = some .directory := by
    split at hp
    · rename_i heq
      exact heq ▸ habove
    · split at hp
      · exact absurd rfl hp
      · exact h p hp
  have hbp : b ≠ above p := by
    rintro heq
    exact hb (heq ▸ hkept)
  have hap : a ≠ above p := by
    rintro heq
    rw [heq, hkept] at ha
    cases ha
  rw [if_neg hbp, if_neg hap, hkept]

/-- The same entries, whatever troubles are ahead. -/
def Alike (d d' : Disk) : Prop :=
  ∀ place, d'.entry? place = d.entry? place

theorem alike_trouble (d : Disk) : d.Alike d.trouble.2 :=
  entry_trouble

theorem Alike.keeps (h : d.Alike d') : d.Keeps d' :=
  fun place hplace ↦ (h place).trans hplace

theorem Alike.rooted (h : d.Alike d') (hd : d.Rooted) : d'.Rooted := by
  intro place hplace
  rw [h] at hplace ⊢
  exact hd place hplace

theorem locate_of_locatePath (h : d.locatePath path = .ok place) :
    d.locate (Path.steps path) = .ok place := by
  rw [locatePath] at h
  exact (guard_eq_ok.1 (guard_eq_ok.1 (guard_eq_ok.1 h).2).2).2

theorem read_congr (hlocate : d'.locate (Path.steps path) = d.locate (Path.steps path))
    (hentry : ∀ place, d.locate (Path.steps path) = .ok place →
      d'.entry? place = d.entry? place) : d'.read path = d.read path := by
  have hpath : d'.locatePath path = d.locatePath path := by
    rw [locatePath, locatePath, hlocate]
  rw [read, read, hpath]
  rcases hl : d.locatePath path with fault | place
  · rfl
  · simp only [hentry place (locate_of_locatePath hl)]

theorem Alike.read (h : d.Alike d') (path : Text) : d'.read path = d.read path := by
  have hfollow : d'.follow = d.follow := by
    funext place step
    exact follow_congr (h place) step
  exact read_congr (by rw [locate, locate, hfollow]) fun place _ ↦ h place

/-! ### The directory that a path leads through last -/

def HasParent (d : Disk) (path : Text) : Prop :=
  ∃ q, d.locate (parent path) = .ok q ∧ d.entry? q = some .directory

theorem HasParent.mono (h : d.HasParent path) (hkeeps : d.Keeps d') : d'.HasParent path := by
  obtain ⟨q, hq, hdir⟩ := h
  exact ⟨q, hkeeps.locate hq, hkeeps q hdir⟩

theorem locate_of_parent (hps : pieces '/' path = front ++ name :: trail)
    (hparent : parent path = lead path ++ front.filter (!isIdle ·))
    (hq : d.locate (parent path) = .ok q) (hdir : d.entry? q = some .directory) :
    d.locate (Path.steps path) = d.walk q (name :: trail) := by
  have hroot : root ∉ front := fun hmem ↦
    root_notMem_pieces path (hps ▸ List.mem_append_left _ hmem)
  have hfront : d.walk (lead path) front = .ok q := by
    refine walk_of_filter hroot ?_ hdir
    rw [← walk_lead, ← hparent]
    exact hq
  rw [locate_eq_walk, hps, walk_append, hfront]
  rfl

theorem place_of_parent (hname : fileName? path = some name)
    (hq : d.locate (parent path) = .ok q) (hdir : d.entry? q = some .directory)
    (hl : d.locate (Path.steps path) = .ok place) : place = q ++ [name] := by
  obtain ⟨front, trail, hps, hn, htrail, hparent⟩ := exists_name hname
  rw [locate_of_parent hps hparent hq hdir] at hl
  obtain ⟨m, hm, hwalk⟩ := walk_cons_eq_ok_iff.1 hl
  rw [eq_of_walk_idle htrail hwalk, eq_of_follow_name hn hm]

/-- What a path reads as depends on its place alone once its directory is there. -/
theorem read_congr_of_parent (hname : fileName? path = some name)
    (hq : d.locate (parent path) = .ok q) (hdir : d.entry? q = some .directory)
    (hkeeps : d.Keeps d') (hsame : d'.entry? (q ++ [name]) = d.entry? (q ++ [name])) :
    d'.read path = d.read path := by
  obtain ⟨front, trail, hps, hn, htrail, hparent⟩ := exists_name hname
  refine read_congr ?_ fun place hl ↦ ?_
  · rw [locate_of_parent hps hparent hq hdir,
      locate_of_parent hps hparent (hkeeps.locate hq) (hkeeps q hdir), walk_cons, walk_cons,
      follow_congr ((hkeeps q hdir).trans hdir.symm)]
    rcases hm : d.follow q name with fault | m
    · rfl
    · rw [eq_of_follow_name hn hm]
      exact walk_idle_congr htrail hsame
  · rw [place_of_parent hname hq hdir hl]
    exact hsame

theorem Rooted.entry_of_no_name (h : d.Rooted) (hname : fileName? path = none)
    (hl : d.locate (Path.steps path) = .ok place) : d.entry? place = some .directory := by
  rw [locate_eq_walk] at hl
  rcases exists_up hname with hall | ⟨front, trail, hps, htrail⟩
  · rw [eq_of_walk_idle hall hl]
    refine entry_of_isGround ?_
    rw [lead]
    split <;> rfl
  · rw [hps, walk_append] at hl
    obtain ⟨m, -, hwalk⟩ := bind_eq_ok.1 hl
    obtain ⟨n, hn, hwalk⟩ := walk_cons_eq_ok_iff.1 hwalk
    rw [eq_of_walk_idle htrail hwalk]
    rcases follow_cases hn with ⟨hup, -⟩ | ⟨hentry, ⟨hidle, -⟩ | ⟨-, rfl⟩ | ⟨hup, -⟩⟩
    · cases hup
    · cases hidle
    · exact h m (by simp [hentry])
    · cases hup

theorem Rooted.hasParent_of_read (h : d.Rooted) (hread : d.read path = .ok data) :
    d.HasParent path := by
  obtain ⟨place, hl, hentry⟩ := read_eq_ok_iff.1 hread
  have hlocate := locate_of_locatePath hl
  rcases hname : fileName? path with _ | name
  · rw [h.entry_of_no_name hname hlocate] at hentry
    cases hentry
  · obtain ⟨front, trail, hps, hn, htrail, hparent⟩ := exists_name hname
    rw [locate_eq_walk, hps, walk_append] at hlocate
    obtain ⟨q, hq, hwalk⟩ := bind_eq_ok.1 hlocate
    obtain ⟨m, hm, -⟩ := walk_cons_eq_ok_iff.1 hwalk
    have hroot : name ≠ root := by
      rintro rfl
      contradiction
    refine ⟨q, ?_, directory_of_follow hroot hm⟩
    change d.walk [] (parent path) = _
    rw [hparent, walk_lead]
    exact walk_filter hq

end Disk

end ChatCommand
