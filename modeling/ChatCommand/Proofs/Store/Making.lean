import ChatCommand.Proofs.Store.Place

namespace ChatCommand

namespace Disk

open ChatCommand.Path Text

variable {d d' e : Disk} {n m : Nat} {place q : Place} {steps back rest : List Text}
  {step path : Text} {made : Except DiskFault Place}

/-- From the first disk to the second only directories come to be, with at most so many steps to
each. -/
def Grows (n : Nat) (d d' : Disk) : Prop :=
  ∀ place, d'.entry? place = d.entry? place ∨
    d.entry? place = none ∧ place.length ≤ n ∧ d'.entry? place = some .directory

theorem Grows.refl (n : Nat) (d : Disk) : Grows n d d :=
  fun _ ↦ .inl rfl

theorem Alike.grows (h : d.Alike d') : Grows n d d' :=
  fun place ↦ .inl (h place)

theorem Grows.keeps (h : Grows n d d') : d.Keeps d' := by
  intro place hplace
  rcases h place with hsame | ⟨hnone, -⟩
  · exact hsame.trans hplace
  · rw [hplace] at hnone
    cases hnone

theorem Grows.mono (h : Grows n d d') (hn : n ≤ m) : Grows m d d' := by
  intro place
  refine (h place).imp_right fun hnew ↦ ?_
  exact ⟨hnew.1, Nat.le_trans hnew.2.1 hn, hnew.2.2⟩

theorem Grows.trans (h : Grows n d d') (h' : Grows n d' e) : Grows n d e := by
  intro place
  rcases h place with hsame | ⟨hnone, hlength, hnew⟩
  · rw [← hsame]
    exact h' place
  · exact .inr ⟨hnone, hlength, h'.keeps place hnew⟩

theorem length_follow (h : d.follow place step = .ok q) : q.length ≤ place.length + 1 := by
  rcases follow_cases h with ⟨-, rfl⟩ | ⟨-, ⟨-, rfl⟩ | ⟨-, rfl⟩ | ⟨-, -, rfl⟩⟩
  · simp
  · omega
  · rw [above]
    split
    · omega
    · split
      · simp
      · rw [List.length_dropLast]
        omega
  · simp

theorem length_walk (h : d.walk place steps = .ok q) :
    q.length ≤ place.length + steps.length := by
  induction steps generalizing place with
  | nil =>
    cases h
    exact Nat.le_refl _
  | cons step steps ih =>
    obtain ⟨m, hm, hwalk⟩ := walk_cons_eq_ok_iff.1 h
    have hstep := length_follow hm
    have hrest := ih hwalk
    rw [List.length_cons]
    omega

theorem length_locate (h : d.locate steps = .ok q) : q.length ≤ steps.length := by
  have hlength := length_walk h
  rwa [List.length_nil, Nat.zero_add] at hlength

/-- What making directories along a path comes to: they are all the disk gains, and where it
succeeds the path leads to the last of them. -/
structure Made (d d' : Disk) (steps : List Text) (made : Except DiskFault Place) : Prop where
  grows : Grows steps.length d d'
  rooted : d'.Rooted
  there : ∀ q, made = .ok q → d'.locate steps = .ok q ∧ d'.entry? q = some .directory

theorem Made.of_error {fault : DiskFault} (hgrows : Grows steps.length d d')
    (hrooted : d'.Rooted) : Made d d' steps (.error fault) where
  grows := hgrows
  rooted := hrooted
  there := by
    intro q hq
    cases hq

theorem Made.of_there (h : d.Rooted) (hl : d.locate steps = .ok place)
    (hdir : d.entry? place = some .directory) : Made d d steps (.ok place) where
  grows := .refl _ d
  rooted := h
  there := by
    intro q hq
    cases hq
    exact ⟨hl, hdir⟩

theorem Made.after (h : Grows steps.length d e) (hm : Made e d' steps made) :
    Made d d' steps made where
  grows := h.trans hm.grows
  rooted := hm.rooted
  there := hm.there

theorem grows_put (hnone : d.entry? place = none) (hlength : place.length ≤ n) :
    Grows n d (d.put place .directory) := by
  have hplace : d.entry? place ≠ some .directory := by simp [hnone]
  intro p
  rw [entry_put hplace]
  by_cases hp : place = p
  · subst hp
    exact .inr ⟨hnone, hlength, if_pos rfl⟩
  · exact .inl (if_neg hp)

theorem Rooted.made_enter (h : d.Rooted) (hl : d.locate steps = .ok place)
    (he : d.enter place = (made, d')) : Made d d' steps made := by
  rw [enter] at he
  split at he
  · rename_i hnone
    cases he
    have hplace : d.entry? place ≠ some .directory := by simp [hnone]
    have hgrows := grows_put hnone (length_locate hl)
    refine .after hgrows (.of_there (h.put hplace (h.above_of_locate hl)) ?_ ?_)
    · exact hgrows.keeps.locate hl
    · rw [entry_put hplace, if_pos rfl]
  · rename_i hdir
    cases he
    exact .of_there h hl hdir
  · cases he
    exact .of_error (.refl _ d) h

theorem Rooted.made_below (h : d.Rooted) (hm : d.makeBelow back = (made, d')) :
    Made d d' back.reverse made := by
  -- The path is taken from its end, so what is left of it is the way to the directory above.
  induction back generalizing made d' with
  | nil =>
    cases hm
    exact .of_there h rfl rfl
  | cons step back ih =>
    have hlength : back.reverse.length ≤ (step :: back).reverse.length := by simp
    rw [makeBelow] at hm
    split at hm
    · rename_i place hplace
      exact h.made_enter hplace hm
    · split at hm
      · rename_i fault d₁ hback
        cases hm
        have hmade := ih hback
        exact .of_error (hmade.grows.mono hlength) hmade.rooted
      · rename_i a d₁ hback
        have hmade := ih hback
        split at hm
        · cases hm
          exact .of_error (hmade.grows.mono hlength) hmade.rooted
        · rename_i place hfollow
          have hplace : d₁.locate (step :: back).reverse = .ok place := by
            rw [List.reverse_cons]
            refine (walk_append d₁ [] back.reverse [step]).trans ?_
            exact bind_eq_ok.2 ⟨a, (hmade.there a rfl).1, bind_eq_ok.2 ⟨place, hfollow, rfl⟩⟩
          exact .after (hmade.grows.mono hlength) (hmade.rooted.made_enter hplace hm)
    · cases hm
      exact .of_error (.refl _ d) h

theorem makeDirectories_spec {made : Except DiskFault Unit} (h : d.Rooted)
    (hm : d.makeDirectories steps = (made, d')) : Grows steps.length d d' ∧ d'.Rooted ∧
      (made = .ok () → ∃ q, d'.locate steps = .ok q ∧ d'.entry? q = some .directory) := by
  have halike := alike_trouble d
  rw [makeDirectories] at hm
  split at hm
  · rename_i t d₀ htrouble
    rw [htrouble] at halike
    cases hm
    exact ⟨halike.grows, halike.rooted h, by simp⟩
  · rename_i d₀ htrouble
    rw [htrouble] at halike
    rcases hback : d₀.makeBelow steps.reverse with ⟨result, d₁⟩
    rw [hback] at hm
    cases hm
    have hmade := (halike.rooted h).made_below hback
    rw [List.reverse_reverse] at hmade
    refine ⟨halike.grows.trans hmade.grows, hmade.rooted, fun hok ↦ ?_⟩
    rcases result with fault | q
    · cases hok
    · exact ⟨q, hmade.there q rfl⟩

theorem makeDirectories_there (hq : d.locate steps = .ok q) (hdir : d.entry? q = some .directory) :
    d.Alike (d.makeDirectories steps).2 := by
  have halike := alike_trouble d
  rw [makeDirectories]
  split
  · rename_i t d₀ htrouble
    rw [htrouble] at halike
    exact halike
  · rename_i d₀ htrouble
    rw [htrouble] at halike
    have hq₀ : d₀.locate steps.reverse.reverse = .ok q := by
      rw [List.reverse_reverse]
      exact halike.keeps.locate hq
    have hback : (d₀.makeBelow steps.reverse).2 = d₀ := by
      rcases hsteps : steps.reverse with _ | ⟨step, back⟩
      · rfl
      · rw [hsteps] at hq₀
        simp only [makeBelow, hq₀, enter, (halike q).trans hdir]
    simp only [hback]
    exact halike

/-! ### Where nothing is found -/

/-- A walk ends because something is missing on the way or at its end. -/
def Missing (d : Disk) (place : Place) (steps : List Text) : Prop :=
  d.walk place steps = .error .notFound ∨
    ∃ q, d.walk place steps = .ok q ∧ d.entry? q = none

/-- Nothing is at a place further down, and no file in the way to it. -/
def Vacant (d : Disk) (place : Place) (names : List Text) : Prop :=
  d.entry? (place ++ names) = none ∧
    ∀ front, front <+: names → ∀ data, d.entry? (place ++ front) ≠ some (.file data)

theorem Rooted.entry_append (h : d.Rooted) (hplace : d.entry? place = none)
    (hrest : ∀ s ∈ rest, isName s) : d.entry? (place ++ rest) = none := by
  induction rest generalizing place with
  | nil => rwa [List.append_nil]
  | cons s rest ih =>
    rw [List.append_cons]
    refine ih ?_ fun t ht ↦ hrest t (List.mem_cons_of_mem _ ht)
    by_contra hne
    have habove := h _ hne
    rw [above_concat (hrest s (List.mem_cons_self ..)), hplace] at habove
    cases habove

theorem follow_name (hstep : isName step) (hlength : byteLength step ≤ 255)
    (h : d.entry? place = some .directory) : d.follow place step = .ok (place ++ [step]) := by
  obtain ⟨-, hup, hroot⟩ := isName_iff.1 hstep
  rw [follow, if_neg hroot, h]
  simp only [if_neg (leads_of_isName hstep), if_neg hup, if_neg (Nat.not_lt.2 hlength)]

theorem missing_cons_iff (h : d.follow place step = .ok q) :
    d.Missing place (step :: steps) ↔ d.Missing q steps := by
  rw [Missing, walk_cons, h]
  rfl

theorem vacant_cons_iff (h : d.entry? place = some .directory) :
    d.Vacant place (step :: rest) ↔ d.Vacant (place ++ [step]) rest := by
  rw [Vacant, Vacant, List.append_cons]
  refine and_congr_right fun _ ↦ ?_
  constructor <;> intro hfile front hfront data
  · rw [← List.append_cons]
    exact hfile _ ((List.prefix_cons_inj step).2 hfront) data
  · rcases List.prefix_cons_iff.1 hfront with rfl | ⟨front, rfl, hrest⟩
    · simp [h]
    · rw [List.append_cons]
      exact hfile front hrest data

theorem vacant_of_none (hd : d.Rooted) (hplace : d.entry? place = none)
    (hrest : ∀ s ∈ rest, isName s) : d.Vacant place rest := by
  refine ⟨hd.entry_append hplace hrest, fun front hfront data ↦ ?_⟩
  rw [hd.entry_append hplace fun s hs ↦ hrest s (hfront.subset hs)]
  simp

theorem missing_nil_iff : d.Missing place [] ↔ d.entry? place = none := by
  have hwalk : d.walk place [] = .ok place := rfl
  simp [Missing, hwalk]

theorem missing_of_none (hstep : step ≠ root) (h : d.entry? place = none) :
    d.Missing place (step :: steps) := by
  rw [Missing, walk_cons, follow, if_neg hstep, h]
  exact .inl rfl

theorem not_missing_of_file {data : Text} (hstep : step ≠ root)
    (h : d.entry? place = some (.file data)) : ¬d.Missing place (step :: steps) := by
  rw [Missing, walk_cons, follow, if_neg hstep, h]
  rintro (hwalk | ⟨q, hwalk, -⟩) <;> cases hwalk

theorem missing_iff_vacant (hd : d.Rooted)
    (hsteps : ∀ s ∈ steps, isIdle s ∨ isName s ∧ byteLength s ≤ 255) :
    d.Missing place steps ↔ d.Vacant place (steps.filter (!isIdle ·)) := by
  have hnames : ∀ s ∈ steps.filter (!isIdle ·), isName s := by
    intro s hs
    rw [List.mem_filter, Bool.not_eq_true'] at hs
    rcases hsteps s hs.1 with hidle | ⟨hname, -⟩
    · rw [hs.2] at hidle
      contradiction
    · exact hname
  induction steps generalizing place with
  | nil =>
    rw [missing_nil_iff]
    refine ⟨fun h ↦ vacant_of_none hd h (by simp), fun h ↦ ?_⟩
    rw [← List.append_nil place]
    exact h.1
  | cons step steps ih =>
    have hstep := hsteps step (List.mem_cons_self ..)
    have hroot : step ≠ root := by
      rintro rfl
      rcases hstep with hidle | ⟨hname, -⟩ <;> contradiction
    have hrest : ∀ place, d.Missing place steps ↔ d.Vacant place (steps.filter (!isIdle ·)) :=
      fun place ↦ ih (fun s hs ↦ hsteps s (List.mem_cons_of_mem _ hs)) fun s hs ↦
        hnames s (((List.sublist_cons_self step steps).filter _).subset hs)
    -- Where nothing is, nothing is below; a file ends the walk in another way.
    rcases hentry : d.entry? place with _ | _ | data
    · exact iff_of_true (missing_of_none hroot hentry) (vacant_of_none hd hentry hnames)
    · rcases hstep with hidle | ⟨hname, hlength⟩
      · rw [missing_cons_iff (follow_idle hidle hentry),
          List.filter_cons_of_neg (by simp [hidle])]
        exact hrest place
      · rw [missing_cons_iff (follow_name hname hlength hentry),
          List.filter_cons_of_pos (by simp [isIdle_of_isName hname]), vacant_cons_iff hentry]
        exact hrest _
    · refine iff_of_false (not_missing_of_file hroot hentry) fun hvacant ↦ ?_
      have hplace := hvacant.2 [] List.nil_prefix data
      rw [List.append_nil] at hplace
      exact hplace hentry

theorem read_eq_notFound_iff : d.read path = .error .notFound ↔ path = [] ∨
    path ≠ [] ∧ '\x00' ∉ path ∧ byteLength path ≤ 4095 ∧
      d.Missing (lead path) (pieces '/' path) := by
  rw [read, locatePath, locate_eq_walk, Missing]
  by_cases hempty : path = []
  · simp [hempty]
  by_cases hnul : '\x00' ∈ path
  · simp [hempty, hnul]
  by_cases hlong : 4095 < byteLength path
  · simp [hempty, hnul, hlong, Nat.not_le.2 hlong]
  simp only [hempty, hnul, hlong, Nat.not_lt.1 hlong, if_false, ne_eq, not_false_eq_true, true_and,
    false_or]
  rcases d.walk (lead path) (pieces '/' path) with fault | place
  · simp
  · rcases hentry : d.entry? place with _ | _ | data <;> simp [hentry]

theorem read_notFound_congr
    (h : d.Missing (lead path) (pieces '/' path) → d'.Missing (lead path) (pieces '/' path))
    (hread : d.read path = .error .notFound) : d'.read path = .error .notFound := by
  rw [read_eq_notFound_iff] at hread ⊢
  refine hread.imp_right fun ⟨hempty, hnul, hlong, hmissing⟩ ↦ ⟨hempty, hnul, hlong, h hmissing⟩

theorem Grows.read_notFound (hd : d.Rooted) (hd' : d'.Rooted) (hplain : isPlain path)
    (hgrows : Grows (parent path).length d d') (hread : d.read path = .error .notFound) :
    d'.read path = .error .notFound := by
  have hsteps := names_of_isPlain hplain
  refine read_notFound_congr ?_ hread
  rw [missing_iff_vacant hd hsteps, missing_iff_vacant hd' hsteps]
  rintro ⟨hnone, hfile⟩
  rw [← components_eq] at hnone
  -- Directories come to be above the file at most, and it takes one step more to get there.
  have hlength : (parent path).length < (components path).length := by
    rw [parent, List.length_dropLast]
    have hne : components path ≠ [] := by
      intro heq
      rw [heq] at hnone
      cases hnone
    have hpos := List.length_pos_of_ne_nil hne
    omega
  refine ⟨?_, fun front hfront data ↦ ?_⟩
  · rw [← components_eq]
    rcases hgrows (components path) with hsame | ⟨-, hle, -⟩
    · exact hsame.trans hnone
    · omega
  · rcases hgrows (lead path ++ front) with hsame | ⟨-, -, hnew⟩
    · rw [hsame]
      exact hfile front hfront data
    · rw [hnew]
      simp

end Disk

end ChatCommand
