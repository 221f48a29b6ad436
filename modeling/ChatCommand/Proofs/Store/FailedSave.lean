import ChatCommand.Proofs.Store.Durability
import ChatCommand.Proofs.Store.Making

namespace ChatCommand

open ChatCommand.Path

namespace Disk

variable {d d' : Disk} {path source target data name : Text}

/-- Whether making the directories for a file cannot lead its path elsewhere: they are there
already, or the path goes down by names alone. -/
def Steady (d : Disk) (path : Text) : Prop :=
  d.HasParent path ∨ isPlain path

def Opens (d : Disk) (path : Text) : Prop :=
  d.read path = .error .notFound ∨ ∃ data, d.read path = .ok data

theorem store_eq_ok_iff : d.store path data = .ok d' ↔ ∃ place, d.locatePath path = .ok place ∧
    d.entry? place ≠ some .directory ∧ d.put place (.file data) = d' := by
  rw [store]
  rcases d.locatePath path with fault | place
  · simp
  · simp only [guard_eq_ok]
    simp

theorem Rooted.store (h : d.Rooted) (hs : d.store path data = .ok d') : d'.Rooted := by
  obtain ⟨place, hl, hplace, rfl⟩ := store_eq_ok_iff.1 hs
  exact h.put hplace (h.above_of_locate (locate_of_locatePath hl))

theorem Rooted.moveFile (h : d.Rooted) (hm : d.moveFile source target = .ok d') : d'.Rooted := by
  rw [Disk.moveFile] at hm
  split at hm
  · cases hm
  split at hm
  · cases hm
  · cases hm
  rename_i a _ content ha
  split at hm
  · cases hm
  split at hm
  · cases hm
  rename_i b hb
  obtain ⟨hfile, hd'⟩ := guard_eq_ok.1 hm
  cases hd'
  exact h.moved ha hfile (h.above_of_locate (locate_of_locatePath hb))

theorem write_cases {written : Except DiskFault Unit}
    (h : d.write path data = (written, d')) :
    d.Alike d' ∨ ∃ d₀ part, d.Alike d₀ ∧ d₀.store path part = .ok d' := by
  have halike := alike_trouble d
  rw [write] at h
  split at h
  · rename_i t d₀ htrouble
    rw [htrouble] at halike
    split at h
    · rename_i d₁ hstore
      cases h
      obtain ⟨n, -, hpart⟩ := Option.map_eq_some_iff.1 hstore
      exact .inr ⟨d₀, data.take n, halike, hpart⟩
    · cases h
      exact .inl halike
  · rename_i d₀ htrouble
    rw [htrouble] at halike
    split at h
    · rename_i d₁ hstore
      cases h
      exact .inr ⟨d₀, data, halike, hstore⟩
    · cases h
      exact .inl halike

theorem rename_cases {moved : Except DiskFault Unit}
    (h : d.rename source target = (moved, d')) :
    d.Alike d' ∨ moved = .ok () ∧ ∃ d₀, d.Alike d₀ ∧ d₀.moveFile source target = .ok d' := by
  have halike := alike_trouble d
  rw [rename] at h
  split at h
  · rename_i t d₀ htrouble
    rw [htrouble] at halike
    cases h
    exact .inl halike
  · rename_i d₀ htrouble
    rw [htrouble] at halike
    split at h
    · rename_i d₁ hmove
      cases h
      rw [move] at hmove
      split at hmove
      · split at hmove <;> cases hmove
      · exact .inr ⟨rfl, d₀, halike, hmove⟩
    · cases h
      exact .inl halike

theorem rename_spec {moved : Except DiskFault Unit} (hd : d.Rooted)
    (h : d.rename source target = (moved, d')) :
    d'.Rooted ∧ (moved ≠ .ok () → d.Alike d') := by
  rcases rename_cases h with halike | ⟨hmoved, d₀, halike, hmove⟩
  · exact ⟨halike.rooted hd, fun _ ↦ halike⟩
  · exact ⟨(halike.rooted hd).moveFile hmove, fun hne ↦ absurd hmoved hne⟩

theorem store_draft_read (hd : d.Rooted) (hparent : d.HasParent path)
    (hs : d.store (Archive.draftPath path) data = .ok d') : d'.read path = d.read path := by
  obtain ⟨place, hl, hplace, rfl⟩ := store_eq_ok_iff.1 hs
  have hlocate := locate_of_locatePath hl
  rcases hname : fileName? path with _ | name
  · rw [Archive.draftPath_of_fileName?_eq_none hname] at hlocate
    exact absurd (hd.entry_of_no_name hname hlocate) hplace
  · -- The draft lands in the directory of the file, under another name.
    obtain ⟨q, hq, hdir⟩ := hparent
    obtain ⟨hsame, hdraft⟩ := Archive.draftPath_cases hname
    rcases hdraft with hnone | ⟨new, hnew, hne⟩
    · exact absurd (hd.entry_of_no_name hnone hlocate) hplace
    · obtain rfl := place_of_parent hnew (hsame ▸ hq) hdir hlocate
      refine read_congr_of_parent hname hq hdir (keeps_put hplace) ?_
      have hother : q ++ [new] ≠ q ++ [name] := by
        intro heq
        exact hne (List.cons.inj (List.append_cancel_left heq)).1
      rw [entry_put hplace, if_neg hother]

theorem write_draft_spec {written : Except DiskFault Unit} (hd : d.Rooted)
    (hparent : d.HasParent path)
    (h : d.write (Archive.draftPath path) data = (written, d')) :
    d'.Rooted ∧ d'.read path = d.read path := by
  rcases write_cases h with halike | ⟨d₀, part, halike, hstore⟩
  · exact ⟨halike.rooted hd, halike.read path⟩
  · have hd₀ := halike.rooted hd
    refine ⟨hd₀.store hstore, ?_⟩
    rw [store_draft_read hd₀ (hparent.mono halike.keeps) hstore, halike.read path]

theorem makeDirectories_read {made : Except DiskFault Unit} (hd : d.Rooted)
    (hsteady : d.Steady path) (hopens : d.Opens path)
    (hm : d.makeDirectories (parent path) = (made, d')) : d'.read path = d.read path := by
  by_cases hparent : d.HasParent path
  · obtain ⟨q, hq, hdir⟩ := hparent
    have halike := makeDirectories_there hq hdir
    rw [hm] at halike
    exact halike.read path
  · -- There is no file without its directory, so nothing is there yet.
    rcases hopens with hnone | ⟨data, hdata⟩
    · obtain ⟨hgrows, hd', -⟩ := makeDirectories_spec hd hm
      rw [hnone]
      exact hgrows.read_notFound hd hd' (hsteady.resolve_left hparent) hnone
    · exact absurd (hd.hasParent_of_read hdata) hparent

end Disk

namespace Archive

variable {V : Type} [Json.Format V] {a a' : Archive V} {d d' : Disk} {path : Text}
  {shelf saved : Shelf V} {r : Request V} {given : Answer V} {pending : List (Request V)}
  {strayed : Bool}

/-- The directories of the file are made, the draft is written, and the draft takes the place of
the file. What goes wrong on the way ends the save. -/
theorem save_stages {result : Except StoreError Unit} (h : a.save d = (result, d')) :
    ∃ made d₁, (parent a.path = [] ∧ made = .ok () ∧ d₁ = d ∨
        d.makeDirectories (parent a.path) = (made, d₁)) ∧
      (result ≠ .ok () ∧ d' = d₁ ∨
        made = .ok () ∧ ∃ written d₂,
          d₁.write (draftPath a.path) (Json.writeMap a.shelf) = (written, d₂) ∧
            (result ≠ .ok () ∧ d' = d₂ ∨ ∃ moved,
              d₂.rename (draftPath a.path) a.path = (moved, d') ∧
                (moved = .ok () → result = .ok ()))) := by
  simp only [save, parent_draftPath] at h
  rcases hmake : (if (parent a.path).isEmpty then (.ok (), d)
    else d.makeDirectories (parent a.path) : Except DiskFault Unit × Disk) with ⟨made, d₁⟩
  rw [hmake] at h
  refine ⟨made, d₁, ?_, ?_⟩
  · split at hmake
    · rename_i hempty
      cases hmake
      exact .inl ⟨List.isEmpty_iff.1 hempty, rfl, rfl⟩
    · exact .inr hmake
  rcases made with fault | _
  · cases h
    exact .inl ⟨by simp, rfl⟩
  refine .inr ⟨rfl, ?_⟩
  rcases hw : d₁.write (draftPath a.path) (Json.writeMap a.shelf) with ⟨written, d₂⟩
  refine ⟨written, d₂, rfl, ?_⟩
  simp only [hw] at h
  rcases written with fault | _
  · cases h
    exact .inl ⟨by simp, rfl⟩
  rcases hr : d₂.rename (draftPath a.path) a.path with ⟨moved, d₃⟩
  simp only [hr] at h
  rcases moved with fault | _
  · cases h
    exact .inr ⟨_, rfl, by simp⟩
  · cases h
    exact .inr ⟨_, rfl, fun _ ↦ rfl⟩

/-- A save that fails leaves the file as it was, and every save leaves a tree. -/
theorem save_spec {result : Except StoreError Unit} (hd : d.Rooted)
    (h : a.save d = (result, d')) :
    d'.Rooted ∧ (result ≠ .ok () → d.Steady a.path → d.Opens a.path →
      d'.read a.path = d.read a.path) := by
  obtain ⟨made, d₁, hmake, hrest⟩ := save_stages h
  -- Up to the draft nothing that is done reaches the file itself.
  have hmade : d₁.Rooted ∧ (made = .ok () → d₁.HasParent a.path) ∧
      (d.Steady a.path → d.Opens a.path → d₁.read a.path = d.read a.path) := by
    rcases hmake with ⟨hparent, rfl, rfl⟩ | hmake
    · refine ⟨hd, fun _ ↦ ⟨[], ?_, rfl⟩, fun _ _ ↦ rfl⟩
      rw [hparent]
      rfl
    · obtain ⟨-, hd₁, hlast⟩ := Disk.makeDirectories_spec hd hmake
      exact ⟨hd₁, hlast, fun hsteady hopens ↦ Disk.makeDirectories_read hd hsteady hopens hmake⟩
  obtain ⟨hd₁, hparent, hread⟩ := hmade
  rcases hrest with ⟨-, rfl⟩ | ⟨rfl, written, d₂, hwrite, hrest⟩
  · exact ⟨hd₁, fun _ ↦ hread⟩
  obtain ⟨hd₂, hread₂⟩ := Disk.write_draft_spec hd₁ (hparent rfl) hwrite
  rcases hrest with ⟨-, rfl⟩ | ⟨moved, hmove, hresult⟩
  · exact ⟨hd₂, fun _ hsteady hopens ↦ hread₂.trans (hread hsteady hopens)⟩
  obtain ⟨hd', hfailed⟩ := Disk.rename_spec hd₂ hmove
  refine ⟨hd', fun hresult' hsteady hopens ↦ ?_⟩
  have halike := hfailed fun hmoved ↦ hresult' (hresult hmoved)
  rw [halike.read, hread₂, hread hsteady hopens]

end Archive

variable {V : Type}

def Answer.isSaved (given : Answer V) (r : Request V) : Bool :=
  !given.late true r

theorem Answer.isSaved_of_isUnsaved {given : Answer V} {r : Request V}
    (h : given.isUnsaved = true) : given.isSaved r = false := by
  rw [isSaved, late_of_isUnsaved h]
  rfl

def Request.changes (requests : List (Request V)) (s : Shelf V) : Shelf V :=
  requests.foldl (fun s r ↦ r.change s) s

theorem Request.changes_concat (rs : List (Request V)) (r : Request V) (s : Shelf V) :
    changes (rs ++ [r]) s = r.change (changes rs s) :=
  List.foldl_concat ..

namespace Archive

variable [Json.Format V]

/-- An archive and the disk, with what the archive held when it was opened or saved last and the
requests since then. Others change the disk as they like, but for what the file at the path reads
as. It may have strayed once a save failed that made directories on a path that is not plain. -/
inductive Kept (explain : Text → Text) (path : Text) :
    Bool → Shelf V → List (Request V) → Archive V → Disk → Prop
  | opened {a : Archive V} {d : Disk} :
      d.Rooted → load explain d path = .ok a → Kept explain path false a.shelf [] a d
  | saved {strayed : Bool} {saved : Shelf V} {pending : List (Request V)} {a a' : Archive V}
      {d d' : Disk} {r : Request V} {given : Answer V} :
      Kept explain path strayed saved pending a d →
      (Store.archive a).answer d r = (given, .archive a', d') → given.isSaved r →
      Kept explain path false a'.shelf [] a' d'
  | unsaved {strayed : Bool} {saved : Shelf V} {pending : List (Request V)} {a a' : Archive V}
      {d d' : Disk} {r : Request V} {given : Answer V} :
      Kept explain path strayed saved pending a d →
      (Store.archive a).answer d r = (given, .archive a', d') → given.isSaved r = false →
      (given.isUnsaved → d.Steady path) → Kept explain path strayed saved (pending ++ [r]) a' d'
  | strayed {strayed : Bool} {saved : Shelf V} {pending : List (Request V)} {a a' : Archive V}
      {d d' : Disk} {r : Request V} {given : Answer V} :
      Kept explain path strayed saved pending a d →
      (Store.archive a).answer d r = (given, .archive a', d') → given.isSaved r = false →
      Kept explain path true saved (pending ++ [r]) a' d'
  | elsewhere {strayed : Bool} {saved : Shelf V} {pending : List (Request V)} {a : Archive V}
      {d d' : Disk} :
      Kept explain path strayed saved pending a d → d'.Rooted → d'.read path = d.read path →
      Kept explain path strayed saved pending a d'

variable {explain : Text → Text} {a a' : Archive V} {d d' : Disk} {path : Text}
  {shelf saved : Shelf V} {r : Request V} {given : Answer V} {pending : List (Request V)}
  {strayed : Bool}

theorem opens_of_load (h : load explain d path = .ok a) : d.Opens path := by
  rw [load] at h
  split at h
  · rename_i hread
    exact .inl hread
  · cases h
  · rename_i hread
    exact .inr ⟨_, hread⟩
  · rename_i hread
    exact .inr ⟨_, hread⟩

variable [Json.LawfulFormat V]

theorem answer_spec (hd : d.Rooted)
    (h : (Store.archive a).answer d r = (given, .archive a', d')) :
    d'.Rooted ∧ (given.isSaved r = true → ∀ explain, load explain d' a.path = .ok a') ∧
      (given.isSaved r = false → (given.isUnsaved = true → d.Steady a.path) → d.Opens a.path →
        d'.read a.path = d.read a.path) := by
  obtain ⟨rfl, hends⟩ := answer_ends h
  cases hends with
  | untouched _ hsame hidle =>
    rw [hsame]
    exact ⟨hd, fun hyes ↦ by simp [Answer.isSaved, hidle] at hyes, fun _ _ _ ↦ rfl⟩
  | saved hsave hlate =>
    exact ⟨(save_spec hd hsave).1, fun _ _ ↦ load_of_save hsave,
      fun hno ↦ by simp [Answer.isSaved, hlate] at hno⟩
  | failed hsave hunsaved =>
    obtain ⟨hd', hread⟩ := save_spec hd hsave
    refine ⟨hd', fun hyes ↦ ?_, fun _ hsteady hopens ↦ hread (by simp) (hsteady hunsaved) hopens⟩
    rw [Answer.isSaved_of_isUnsaved hunsaved] at hyes
    cases hyes

theorem Kept.invariant (h : Kept explain path strayed saved pending a d) :
    d.Rooted ∧ a = ⟨path, Request.changes pending saved⟩ ∧
      (strayed = false → load explain d path = .ok (⟨path, saved⟩ : Archive V)) := by
  -- The shelf is what was saved with all that is pending, and the file has what was saved.
  induction h with
  | @opened a d hd hload =>
    obtain rfl := path_of_load hload
    exact ⟨hd, rfl, fun _ ↦ hload⟩
  | saved _ hanswer hsaved ih =>
    obtain ⟨hd, rfl, -⟩ := ih
    obtain ⟨hd', hload, -⟩ := answer_spec hd hanswer
    obtain ⟨rfl, -⟩ := answer_ends hanswer
    exact ⟨hd', rfl, fun _ ↦ hload hsaved explain⟩
  | unsaved _ hanswer hsaved hsteady ih =>
    obtain ⟨hd, rfl, hload⟩ := ih
    obtain ⟨hd', -, hread⟩ := answer_spec hd hanswer
    obtain ⟨rfl, -⟩ := answer_ends hanswer
    refine ⟨hd', by rw [Request.changes_concat], fun hnot ↦ ?_⟩
    have hopens := opens_of_load (hload hnot)
    rw [Store.load_congr (hread hsaved hsteady hopens), hload hnot]
  | strayed _ hanswer _ ih =>
    obtain ⟨hd, rfl, -⟩ := ih
    obtain ⟨hd', -, -⟩ := answer_spec hd hanswer
    obtain ⟨rfl, -⟩ := answer_ends hanswer
    exact ⟨hd', by rw [Request.changes_concat], by simp⟩
  | elsewhere _ hd' hread ih =>
    obtain ⟨-, rfl, hload⟩ := ih
    exact ⟨hd', rfl, fun hnot ↦ (Store.load_congr hread).trans (hload hnot)⟩

/-- A change that cannot be saved stays in memory and leaves the file as it was, so that what was
saved last is found again, until all that is pending is saved with another change. Where no file
stands yet, directories that the save makes may lead the path elsewhere, unless it is steady. -/
theorem failed_save_harmless (h : Kept explain path strayed saved pending a d)
    (hanswer : (Store.archive a).answer d r = (given, .archive a', d')) :
    (strayed = false → load explain d path = .ok ⟨path, saved⟩) ∧
      a'.shelf = r.change (Request.changes pending saved) ∧
      (given.isSaved r = true → load explain d' path = .ok a') ∧
      (given.isUnsaved = true → ∀ data, d.read path = .ok data → d'.read path = .ok data) ∧
      (given.isUnsaved = true → strayed = false → d.Steady path →
        d'.read path = d.read path ∧ load explain d' path = .ok ⟨path, saved⟩) ∧
      (fileName? path ≠ none → draftPath path ≠ path) := by
  obtain ⟨hd, rfl, hload⟩ := h.invariant
  obtain ⟨-, hsave, hread⟩ := answer_spec hd hanswer
  obtain ⟨rfl, -⟩ := answer_ends hanswer
  refine ⟨hload, rfl, fun hyes ↦ hsave hyes explain, fun hunsaved data hdata ↦ ?_,
    fun hunsaved hstayed hsteady ↦ ?_, draftPath_ne⟩
  · have hnot := Answer.isSaved_of_isUnsaved (r := r) hunsaved
    have hparent := hd.hasParent_of_read hdata
    rw [hread hnot (fun _ ↦ .inl hparent) (.inr ⟨data, hdata⟩), hdata]
  · have hnot := Answer.isSaved_of_isUnsaved (r := r) hunsaved
    have hsame := hread hnot (fun _ ↦ hsteady) (opens_of_load (hload hstayed))
    exact ⟨hsame, (Store.load_congr hsame).trans (hload hstayed)⟩

def filed : Disk :=
  blocked.put ["q.json".toList] (.file (Json.writeMap unsaved.shelf))

theorem rooted_blocked : blocked.Rooted :=
  Disk.rooted_empty.put (by decide +kernel) rfl

theorem rooted_filed : filed.Rooted :=
  rooted_blocked.put (by decide +kernel) rfl

theorem kept_filed :
    Kept id "q.json".toList false unsaved.shelf [.set 2 ['b']]
      (⟨"q.json".toList, .ofList [(1, ['a']), (2, ['b'])]⟩ : Archive Text) filed := by
  have hload : load id filed "q.json".toList = .ok unsaved := by
    refine load_of_read ?_
    decide +kernel
  have hanswer : (Store.archive unsaved).answer filed (.set 2 ['b']) =
      (.value (.error (.access "q.json".toList .isDirectory)),
        .archive ⟨"q.json".toList, .ofList [(1, ['a']), (2, ['b'])]⟩, filed) := rfl
  exact (Kept.opened rooted_filed hload).unsaved hanswer rfl fun _ ↦ .inl ⟨[], rfl, rfl⟩

theorem failed_save_harmless_filed : ∃ a' d',
    (Store.archive (⟨"q.json".toList, .ofList [(1, ['a']), (2, ['b'])]⟩ : Archive Text)).answer
        filed (.set 3 ['c']) =
      (.value (.error (.access "q.json".toList .isDirectory)), .archive a', d') ∧
    a'.shelf.entries = [(1, ['a']), (2, ['b']), (3, ['c'])] ∧
    load id d' "q.json".toList = .ok unsaved := by
  have hanswer : (Store.archive (⟨"q.json".toList, .ofList [(1, ['a']), (2, ['b'])]⟩ :
      Archive Text)).answer filed (.set 3 ['c']) =
      (.value (.error (.access "q.json".toList .isDirectory)), .archive _, _) := rfl
  obtain ⟨-, -, -, -, hfailed, -⟩ := failed_save_harmless kept_filed hanswer
  exact ⟨_, _, hanswer, rfl, (hfailed rfl rfl (.inl ⟨[], rfl, rfl⟩)).2⟩

/-- A path that leads back up from a directory which is not there before a save. -/
def astray : Text :=
  "d/../q.json".toList

/-- A path in such a directory to a name that no directory can hold. -/
def overlong : Text :=
  "d/".toList ++ List.replicate 64 '😀'

/-- A save that fails can make another file appear at a path, and it can make a path unusable. -/
theorem failed_save_strays :
    (∃ (a a' : Archive Text) (d d' : Disk), Kept id astray false .empty [] a d ∧
      (Store.archive a).answer d (.set 2 ['b']) =
        (.value (.error (.access astray .isDirectory)), .archive a', d') ∧
      load id d' astray = .ok (⟨astray, unsaved.shelf⟩ : Archive Text)) ∧
    ∃ (a a' : Archive Text) (d d' : Disk), Kept id overlong false .empty [] a d ∧
      (Store.archive a).answer d (.set 2 ['b']) =
        (.value (.error (.access overlong .nameTooLong)), .archive a', d') ∧
      d'.read overlong = .error .nameTooLong := by
  have hastray : load id filed astray = .ok (⟨astray, .empty⟩ : Archive Text) :=
    Store.load_of_start (.inl (by decide +kernel))
  have hoverlong : load id .empty overlong = .ok (⟨overlong, .empty⟩ : Archive Text) :=
    Store.load_of_start (.inl (by decide +kernel))
  refine ⟨⟨⟨astray, .empty⟩, _, filed, _, .opened rooted_filed hastray, rfl, ?_⟩,
    ⟨⟨overlong, .empty⟩, _, .empty, _, .opened Disk.rooted_empty hoverlong, rfl, ?_⟩⟩
  · refine load_of_read ?_
    decide +kernel
  · decide +kernel

end Archive

end ChatCommand
