import ChatCommand.Archive
import ChatCommand.Proofs.Text.Pieces

namespace ChatCommand

open Text

namespace Path

def isIdle (p : Text) : Bool :=
  p = [] || p = ['.']

def isName (p : Text) : Bool :=
  !isIdle p && p ≠ up && p ≠ root

/-- The end of a path, when it is the name of something. -/
def fileName? (path : Text) : Option Text :=
  (components path).getLast?.filter isName

/-- Whether a path leads downwards only, by names that a directory can hold. -/
def isPlain (path : Text) : Bool :=
  (components path).all fun p ↦ p ≠ up && byteLength p ≤ 255

def lead (path : Text) : List Text :=
  if path.head? = some '/' then [root] else []

variable {path path' p p' name : Text} {front trail trail' : List Text}

theorem isIdle_iff : isIdle p ↔ p = [] ∨ p = ['.'] := by
  simp [isIdle]

theorem isName_iff : isName p ↔ isIdle p = false ∧ p ≠ up ∧ p ≠ root := by
  simp [isName, and_assoc]

theorem steps_eq (path : Text) : steps path = lead path ++ pieces '/' path := by
  rw [steps, lead]
  split <;> rfl

theorem components_eq (path : Text) :
    components path = lead path ++ (pieces '/' path).filter (!isIdle ·) := by
  have hidle : (fun p ↦ decide (p ≠ [] ∧ p ≠ ['.'])) = fun p ↦ !isIdle p := by
    funext p
    simp [isIdle]
  have hlead : (lead path).filter (!isIdle ·) = lead path := by
    rw [lead]
    split <;> rfl
  rw [components, hidle, steps_eq, List.filter_append, hlead]

theorem root_notMem_pieces (path : Text) : root ∉ pieces '/' path := by
  intro h
  exact notMem_of_mem_pieces h (List.mem_cons_self ..)

theorem idle_or_last (ps : List Text) : (∀ p ∈ ps, isIdle p) ∨
    ∃ front p trail, ps = front ++ p :: trail ∧ isIdle p = false ∧ ∀ t ∈ trail, isIdle t := by
  induction ps with
  | nil => exact .inl (by simp)
  | cons p ps ih =>
    rcases ih with hall | ⟨front, q, trail, rfl, hq, htrail⟩
    · rcases hp : isIdle p
      · exact .inr ⟨[], p, ps, rfl, hp, hall⟩
      · refine .inl fun t ht ↦ ?_
        rcases List.mem_cons.1 ht with rfl | ht
        · exact hp
        · exact hall t ht
    · exact .inr ⟨p :: front, q, trail, rfl, hq, htrail⟩

theorem filter_idle (h : ∀ t ∈ trail, isIdle t) : trail.filter (!isIdle ·) = [] := by
  rw [List.filter_eq_nil_iff]
  intro t ht
  simp [h t ht]

theorem components_of_last (hps : pieces '/' path = front ++ p :: trail) (hp : isIdle p = false)
    (htrail : ∀ t ∈ trail, isIdle t) :
    components path = lead path ++ front.filter (!isIdle ·) ++ [p] := by
  rw [components_eq, hps, List.filter_append, List.filter_cons_of_pos (by simp [hp]),
    filter_idle htrail, List.append_assoc]

theorem parent_of_last (hps : pieces '/' path = front ++ p :: trail) (hp : isIdle p = false)
    (htrail : ∀ t ∈ trail, isIdle t) : parent path = lead path ++ front.filter (!isIdle ·) := by
  rw [parent, components_of_last hps hp htrail, List.dropLast_concat]

theorem fileName?_of_last (hps : pieces '/' path = front ++ p :: trail) (hp : isIdle p = false)
    (htrail : ∀ t ∈ trail, isIdle t) : fileName? path = if isName p then some p else none := by
  rw [fileName?, components_of_last hps hp htrail, List.getLast?_concat]
  rfl

theorem fileName?_of_idle (h : ∀ p ∈ pieces '/' path, isIdle p) : fileName? path = none := by
  rw [fileName?, components_eq, filter_idle h, List.append_nil, lead]
  split <;> rfl

theorem isIdle_of_isName (h : isName p) : isIdle p = false :=
  (isName_iff.1 h).1

theorem leads_of_isName (h : isName p) : ¬(p = [] ∨ p = ['.']) := by
  rw [← isIdle_iff, isIdle_of_isName h]
  simp

theorem isName_of_length (h : 2 < p.length) : isName p := by
  have hne : ∀ q : Text, q.length ≤ 2 → p ≠ q := by
    rintro q hq rfl
    omega
  refine isName_iff.2 ⟨?_, hne up (by decide), hne root (by decide)⟩
  simp [isIdle, hne [] (by decide), hne ['.'] (by decide)]

theorem exists_name (h : fileName? path = some name) : ∃ front trail,
    pieces '/' path = front ++ name :: trail ∧ isName name ∧ (∀ t ∈ trail, isIdle t) ∧
      parent path = lead path ++ front.filter (!isIdle ·) := by
  rcases idle_or_last (pieces '/' path) with hall | ⟨front, p, trail, hps, hp, htrail⟩
  · rw [fileName?_of_idle hall] at h
    cases h
  · rw [fileName?_of_last hps hp htrail] at h
    split at h
    · rename_i hname
      cases h
      exact ⟨front, trail, hps, hname, htrail, parent_of_last hps hp htrail⟩
    · cases h

theorem exists_up (h : fileName? path = none) : (∀ p ∈ pieces '/' path, isIdle p) ∨
    ∃ front trail, pieces '/' path = front ++ up :: trail ∧ ∀ t ∈ trail, isIdle t := by
  rcases idle_or_last (pieces '/' path) with hall | ⟨front, p, trail, hps, hp, htrail⟩
  · exact .inl hall
  · rw [fileName?_of_last hps hp htrail] at h
    have hroot : p ≠ root := by
      rintro rfl
      exact root_notMem_pieces path (by simp [hps])
    have hup : p = up := by
      by_contra hup
      rw [if_pos (isName_iff.2 ⟨hp, hup, hroot⟩)] at h
      cases h
    exact .inr ⟨front, trail, hup ▸ hps, htrail⟩

theorem names_of_isPlain (h : isPlain path) :
    ∀ p ∈ pieces '/' path, isIdle p ∨ isName p ∧ byteLength p ≤ 255 := by
  intro p hp
  rcases hidle : isIdle p
  · have hmem : p ∈ components path := by
      rw [components_eq]
      exact List.mem_append_right _ (List.mem_filter.2 ⟨hp, by simp [hidle]⟩)
    have hplain : p ≠ up ∧ byteLength p ≤ 255 := by
      simpa using List.all_eq_true.1 h p hmem
    have hroot : p ≠ root := by
      rintro rfl
      exact root_notMem_pieces path hp
    exact .inr ⟨isName_iff.2 ⟨hidle, hplain.1, hroot⟩, hplain.2⟩
  · exact .inl rfl

theorem lead_congr (hps : pieces '/' path = front ++ p :: trail)
    (hps' : pieces '/' path' = front ++ p' :: trail') (hp : p ≠ []) (hp' : p' ≠ []) :
    lead path' = lead path := by
  have hhead : path'.head? = some '/' ↔ path.head? = some '/' := by
    rw [head?_eq_sep_iff, head?_eq_sep_iff, hps, hps']
    cases front with
    | nil => simp [hp, hp']
    | cons q front =>
      have hlength : ∀ last (rest : List Text), 1 < (q :: front ++ last :: rest).length := by
        intro last rest
        simp only [List.length_append, List.length_cons]
        omega
      exact and_congr Iff.rfl (iff_of_true (hlength p' trail') (hlength p trail))
  rw [lead, lead]
  simp only [hhead]

theorem parent_congr (hps : pieces '/' path = front ++ p :: trail)
    (hps' : pieces '/' path' = front ++ p' :: trail') (hp : isIdle p = false)
    (hp' : isIdle p' = false) (htrail : ∀ t ∈ trail, isIdle t)
    (htrail' : ∀ t ∈ trail', isIdle t) : parent path' = parent path := by
  have hne : p ≠ [] ∧ p' ≠ [] := by
    constructor <;> rintro rfl <;> contradiction
  rw [parent_of_last hps hp htrail, parent_of_last hps' hp' htrail',
    lead_congr hps hps' hne.1 hne.2]

/-! ### Another extension -/

theorem stem_append {s extension : Text} (hs : s ≠ []) (hext : '.' ∉ extension) :
    stem (s ++ '.' :: extension) = s := by
  have hdrop : (s ++ '.' :: extension).reverse.dropWhile (· ≠ '.') = '.' :: s.reverse := by
    rw [List.reverse_append, List.reverse_cons, List.append_assoc,
      List.dropWhile_append_of_pos]
    · simp
    · intro c hc
      rw [decide_eq_true_eq]
      rintro rfl
      exact hext (List.mem_reverse.1 hc)
  have hlength : 0 < s.length := List.length_pos_of_ne_nil hs
  rw [stem]
  simp only [hdrop, List.length_cons, List.length_reverse]
  rw [if_neg (by omega), List.tail_cons, List.reverse_reverse]

theorem mem_of_mem_stem {c : Char} (h : c ∈ stem name) : c ∈ name := by
  simp only [stem] at h
  split at h
  · exact h
  · exact List.mem_reverse.1
      ((List.dropWhile_sublist _).subset (List.mem_of_mem_tail (List.mem_reverse.1 h)))

theorem stem_append_ne {s extension : Text} (hs : s ≠ []) (hext : '.' ∉ extension) :
    stem name ++ s ++ '.' :: extension ≠ name := by
  intro heq
  have hstem : stem (stem name ++ s ++ '.' :: extension) = stem name ++ s :=
    stem_append (by simp [hs]) hext
  rw [heq] at hstem
  exact hs (List.self_eq_append_right.1 hstem)

theorem extend_append {extension : Text} (htrail : ∀ t ∈ trail, isIdle t) (back : List Text) :
    extend extension (trail ++ back) = extend extension back := by
  induction trail with
  | nil => rfl
  | cons t trail ih =>
    have ht : t = [] ∨ t = ['.'] := isIdle_iff.1 (htrail t (List.mem_cons_self ..))
    rw [List.cons_append, extend, if_pos ht]
    exact ih fun t ht ↦ htrail t (List.mem_cons_of_mem _ ht)

/-- Whether the end of a path loses its extension before it is read as a name, as `..b` does. -/
def isCut (p : Text) : Prop :=
  p ≠ ['.'] ∧ stem p = ['.']

theorem not_isCut_of_isIdle (h : isIdle p) : ¬isCut p := by
  rcases isIdle_iff.1 h with rfl | rfl <;> simp [isCut, stem]

theorem withExtension_of_cut {extension : Text} (hps : pieces '/' path = front ++ [p])
    (hcut : isCut p) : withExtension path extension = join ['/'] (front ++ [up]) := by
  rw [withExtension, hps, List.reverse_concat]
  refine (if_pos hcut).trans ?_
  rw [List.reverse_cons, List.reverse_reverse]

theorem withExtension_of_trail {extension : Text} (hps : pieces '/' path = front ++ p :: trail)
    (htrail : ∀ t ∈ trail, isIdle t) (hcut : trail = [] → ¬isCut p) :
    withExtension path extension = ((extend extension (p :: front.reverse)).map
      fun back ↦ join ['/'] back.reverse).getD path := by
  have hback : (pieces '/' path).reverse = trail.reverse ++ p :: front.reverse := by
    simp [hps]
  have hextend : extend extension (trail.reverse ++ p :: front.reverse) =
      extend extension (p :: front.reverse) :=
    extend_append (fun t ht ↦ htrail t (List.mem_reverse.1 ht)) _
  rw [withExtension, hback, ← hextend]
  rcases hrest : trail.reverse with _ | ⟨t, rest⟩
  · exact if_neg (hcut (List.reverse_eq_nil_iff.1 hrest))
  · have ht : t ∈ trail := List.mem_reverse.1 (by simp [hrest])
    exact if_neg (not_isCut_of_isIdle (htrail t ht))

theorem withExtension_of_fileName?_eq_none {extension : Text} (h : fileName? path = none) :
    withExtension path extension = path := by
  rcases exists_up h with hall | ⟨front, trail, hps, htrail⟩
  · rcases hps : pieces '/' path with _ | ⟨p, trail⟩
    · exact absurd hps (pieces_ne_nil '/' path)
    · rw [hps] at hall
      have hp : isIdle p := hall p (List.mem_cons_self ..)
      have htrail : ∀ t ∈ trail, isIdle t := fun t ht ↦ hall t (List.mem_cons_of_mem _ ht)
      rw [withExtension_of_trail (show _ = [] ++ p :: trail from hps) htrail
        fun _ ↦ not_isCut_of_isIdle hp, List.reverse_nil, extend, if_pos (isIdle_iff.1 hp)]
      rfl
  · by_cases hnil : trail = []
    · subst hnil
      rw [withExtension_of_cut hps ⟨by decide, by decide⟩, ← hps, join_pieces]
    · rw [withExtension_of_trail hps htrail fun h ↦ absurd h hnil]
      rfl

theorem pieces_withExtension (extension : Text)
    (hps : pieces '/' path = front ++ name :: trail) (hname : isName name)
    (htrail : ∀ t ∈ trail, isIdle t) (hext : '/' ∉ extension) :
    pieces '/' (withExtension path extension) = front ++ [up] ∨
      pieces '/' (withExtension path extension) =
        front ++ [stem name ++ '.' :: extension] := by
  have hsep : ∀ p ∈ front ++ name :: trail, '/' ∉ p := fun p hp ↦
    notMem_of_mem_pieces (hps ▸ hp)
  have hfront : ∀ last : Text, '/' ∉ last → pieces '/' (join ['/'] (front ++ [last])) =
      front ++ [last] := by
    intro last hlast
    refine pieces_join (fun p hp ↦ ?_) (by simp)
    rcases List.mem_append.1 hp with hp | hp
    · exact hsep p (List.mem_append_left _ hp)
    · rw [List.mem_singleton.1 hp]
      exact hlast
  -- A name like `..b` at the very end loses its extension first and is a step upwards then.
  by_cases hcut : trail = [] ∧ isCut name
  · obtain ⟨rfl, hcut⟩ := hcut
    rw [withExtension_of_cut hps hcut]
    exact .inl (hfront up (by decide))
  · have hnew : extend extension (name :: front.reverse) =
        some ((stem name ++ '.' :: extension) :: front.reverse) := by
      obtain ⟨-, hup, -⟩ := isName_iff.1 hname
      rw [extend, if_neg (leads_of_isName hname), if_neg hup]
    have hlast : '/' ∉ stem name ++ '.' :: extension := by
      have hstem : '/' ∉ stem name := fun h ↦
        hsep name (List.mem_append_right _ (List.mem_cons_self ..)) (mem_of_mem_stem h)
      simp [hstem, hext]
    rw [withExtension_of_trail hps htrail fun hnil h ↦ hcut ⟨hnil, h⟩, hnew]
    right
    simpa using hfront _ hlast

end Path

namespace Archive

open ChatCommand.Path

variable {path name : Text}

theorem draftPath_of_fileName?_eq_none (h : fileName? path = none) : draftPath path = path :=
  withExtension_of_fileName?_eq_none h

/-- The draft lies in the directory of the file. It has another name, or none at all. -/
theorem draftPath_cases (h : fileName? path = some name) :
    parent (draftPath path) = parent path ∧ (fileName? (draftPath path) = none ∨
      ∃ new, fileName? (draftPath path) = some new ∧ new ≠ name) := by
  obtain ⟨front, trail, hps, hname, htrail, -⟩ := exists_name h
  rcases pieces_withExtension "json.tmp".toList hps hname htrail (by decide)
    with hdraft | hdraft
  · exact ⟨parent_congr hps hdraft (isIdle_of_isName hname) (by decide) htrail (by simp),
      .inl (fileName?_of_last hdraft (by decide) (by simp))⟩
  · have hnew : isName (stem name ++ '.' :: "json.tmp".toList) := by
      have hlength : ('.' :: "json.tmp".toList).length = 9 := rfl
      refine isName_of_length ?_
      rw [List.length_append]
      omega
    refine ⟨parent_congr hps hdraft (isIdle_of_isName hname) (isIdle_of_isName hnew) htrail
      (by simp), .inr ⟨stem name ++ '.' :: "json.tmp".toList, ?_, ?_⟩⟩
    · rw [draftPath, fileName?_of_last hdraft (isIdle_of_isName hnew) (by simp), if_pos hnew]
    · -- The new name ends in an extension behind another one, the old one lost its last.
      have hsplit : '.' :: "json.tmp".toList = ".json".toList ++ '.' :: "tmp".toList := rfl
      rw [hsplit, ← List.append_assoc]
      exact stem_append_ne (by decide) (by decide)

theorem draftPath_ne (h : fileName? path ≠ none) : draftPath path ≠ path := by
  obtain ⟨name, hname⟩ := Option.ne_none_iff_exists'.1 h
  intro heq
  rcases (draftPath_cases hname).2 with hnone | ⟨new, hnew, hne⟩
  · exact h (heq ▸ hnone)
  · rw [heq, hname] at hnew
    exact hne (Option.some.inj hnew).symm

theorem parent_draftPath (path : Text) : parent (draftPath path) = parent path := by
  rcases h : fileName? path with _ | name
  · rw [draftPath_of_fileName?_eq_none h]
  · exact (draftPath_cases h).1

end Archive

end ChatCommand
