import ChatCommand.Proofs.SortedMap
import ChatCommand.Proofs.Store.Saving
import ChatCommand.Store
import Mathlib.Data.List.Basic

namespace ChatCommand

variable {V : Type}

inductive Request (V : Type) where
  | get (key : UInt64)
  | set (key : UInt64) (value : V)
  | delete (key : UInt64)
  | add (value : V)
  | list
  | count

inductive Answer (V : Type) where
  | value (result : Except StoreError (Option V))
  | key (result : Except StoreError UInt64)
  | entries (entries : List (UInt64 × V))
  | size (n : Nat)
  | refused (e : StoreError)

/-- Whether a change could not be saved. -/
def Answer.isUnsaved : Answer V → Bool
  | value (.error (.access _ _)) | key (.error (.access _ _)) => true
  | _ => false

/-- What happens to a store: it is asked something, it is closed and opened again, or the disk is
changed by others. -/
inductive Event (V : Type) where
  | request (r : Request V)
  | reopen
  | elsewhere (d : Disk)

def Event.isReopen : Event V → Bool
  | reopen => true
  | _ => false

namespace Store

variable [Json.Format V]

def answer (s : Store V) (d : Disk) : Request V → Answer V × Store V × Disk
  | .get key => (.value (.ok (s.shelf.get? key)), s, d)
  | .set key value =>
    let (result, s, d) := s.set d key value
    (.value result, s, d)
  | .delete key =>
    let (result, s, d) := s.delete d key
    (.value result, s, d)
  | .add value =>
    let (result, s, d) := s.add d value
    (.key result, s, d)
  | .list => (.entries s.shelf.entries, s, d)
  | .count => (.size s.shelf.size, s, d)

/-- What is left of a store when it is opened again: in memory nothing, otherwise the file. -/
def reopen (explain : Text → Text) (d : Disk) : Store V → Except StoreError (Store V)
  | .memory _ => .ok (.memory .empty)
  | .archive a => (Archive.load explain d a.path).map .archive

def session (explain : Text → Text) (s : Store V) (d : Disk) : List (Event V) → List (Answer V)
  | [] => []
  | .request r :: events =>
    let (answer, s, d) := s.answer d r
    answer :: s.session explain d events
  | .reopen :: events =>
    match s.reopen explain d with
    | .ok s => s.session explain d events
    | .error e => [.refused e]
  | .elsewhere d :: events => s.session explain d events

/-- Every change is saved, and nobody else changes what the file at the path reads as. -/
def undisturbed (explain : Text → Text) (path : Text) (s : Store V) (d : Disk) :
    List (Event V) → Bool
  | [] => true
  | .request r :: events =>
    let (answer, s, d) := s.answer d r
    !answer.isUnsaved && s.undisturbed explain path d events
  | .reopen :: events =>
    match s.reopen explain d with
    | .ok s => s.undisturbed explain path d events
    | .error _ => true
  | .elsewhere d' :: events => d'.read path = d.read path && s.undisturbed explain path d' events

variable {explain : Text → Text} {a : Archive V} {d : Disk} {path : Text} {events : List (Event V)}

theorem load_congr {d' : Disk} (h : d'.read path = d.read path) :
    Archive.load (V := V) explain d' path = Archive.load explain d path := by
  rw [Archive.load, Archive.load, h]

theorem load_of_start (h : d.read path = .error .notFound ∨ d.read path = .ok []) :
    Archive.load explain d path = .ok (⟨path, .empty⟩ : Archive V) := by
  rcases h with h | h <;> rw [Archive.load, h]

theorem commit_cases {α : Type} (a : Archive V) (d : Disk) (x : α) :
    (∃ d', a.save d = (.ok (), d') ∧ a.commit d x = (.ok x, a, d')) ∨
      ∃ fault d', a.save d = (.error (.access a.path fault), d') ∧
        a.commit d x = (.error (.access a.path fault), a, d') := by
  rcases hs : a.save d with ⟨e | _, d'⟩
  · obtain ⟨fault, rfl⟩ := Archive.save_error (congrArg Prod.fst hs)
    exact .inr ⟨fault, d', rfl, by simp only [Archive.commit, hs, Except.map]⟩
  · exact .inl ⟨d', rfl, by simp only [Archive.commit, hs, Except.map]⟩

variable [Json.LawfulFormat V]

theorem answer_archive (hload : Archive.load explain d a.path = .ok a) (r : Request V)
    (hsaved : ((archive a).answer d r).1.isUnsaved = false) :
    ∃ given a' d', (archive a).answer d r = (given, archive a', d') ∧
      (∀ d₀, (memory a.shelf).answer d₀ r = (given, memory a'.shelf, d₀)) ∧
      a'.path = a.path ∧ Archive.load explain d' a.path = .ok a' := by
  cases r with
  | get | list | count => exact ⟨_, a, d, rfl, fun _ ↦ rfl, rfl, hload⟩
  | set key value =>
    let after : Archive V := { a with shelf := a.shelf.insert key value }
    rcases commit_cases after d (a.shelf.get? key) with ⟨d', hs, hc⟩ | ⟨fault, d', -, hc⟩
    · refine ⟨.value (.ok (a.shelf.get? key)), after, d', ?_, fun _ ↦ rfl, rfl,
        Archive.load_of_save hs⟩
      simp only [answer, set, Archive.set, Shelf.set, after, hc]
    · simp [answer, set, Archive.set, Shelf.set, after, hc, Answer.isUnsaved] at hsaved
  | delete key =>
    rcases hget : a.shelf.get? key with _ | old
    · -- The file is left as it is, and so is the shelf in memory, which loses nothing.
      refine ⟨.value (.ok none), a, d, ?_, fun d₀ ↦ ?_, rfl, hload⟩
      · simp only [answer, delete, Archive.delete, Shelf.delete, hget]
      · simp only [answer, delete, Shelf.delete, hget, SortedMap.erase_of_get?_eq_none hget]
    · let after : Archive V := { a with shelf := a.shelf.erase key }
      rcases commit_cases after d (some old) with ⟨d', hs, hc⟩ | ⟨fault, d', -, hc⟩
      · refine ⟨.value (.ok (some old)), after, d', ?_, fun d₀ ↦ ?_, rfl, Archive.load_of_save hs⟩
        · simp only [answer, delete, Archive.delete, Shelf.delete, hget, after, hc]
        · simp only [answer, delete, Shelf.delete, hget, after]
      · simp [answer, delete, Archive.delete, Shelf.delete, hget, after, hc,
          Answer.isUnsaved] at hsaved
  | add value =>
    rcases hadd : a.shelf.add value with last | ⟨key, shelf⟩
    · refine ⟨.key (.error (.keysExhausted last)), a, d, ?_, fun d₀ ↦ ?_, rfl, hload⟩
      · simp only [answer, add, Archive.add, hadd]
      · simp only [answer, add, hadd]
    · let after : Archive V := { a with shelf }
      rcases commit_cases after d key with ⟨d', hs, hc⟩ | ⟨fault, d', -, hc⟩
      · refine ⟨.key (.ok key), after, d', ?_, fun d₀ ↦ ?_, rfl, Archive.load_of_save hs⟩
        · simp only [answer, add, Archive.add, hadd, after, hc]
        · simp only [answer, add, hadd, after]
      · simp [answer, add, Archive.add, hadd, after, hc, Answer.isUnsaved] at hsaved

theorem session_archive (hload : Archive.load explain d a.path = .ok a)
    (hun : (archive a).undisturbed explain a.path d events) (d₀ : Disk) :
    (archive a).session explain d events =
      (memory a.shelf).session explain d₀ (events.filter (!·.isReopen)) := by
  induction events generalizing a d d₀ with
  | nil => rfl
  | cons event events ih =>
    cases event with
    | request r =>
      rw [undisturbed, Bool.and_eq_true, Bool.not_eq_true'] at hun
      have hsaved : ((archive a).answer d r).1.isUnsaved = false := hun.1
      obtain ⟨given, a', d', hanswer, hmemory, hpath, hload'⟩ := answer_archive hload r hsaved
      rw [hanswer, ← hpath] at hun
      rw [← hpath] at hload'
      have hnext := ih hload' hun.2 d₀
      rw [List.filter_cons_of_pos rfl, session, session, hanswer, hmemory]
      exact congrArg (given :: ·) hnext
    | reopen =>
      have hreopen : (archive a).reopen explain d = .ok (archive a) := by
        rw [reopen, hload]
        rfl
      rw [undisturbed, hreopen] at hun
      rw [List.filter_cons_of_neg (by simp [Event.isReopen]), session, hreopen]
      exact ih hload hun d₀
    | elsewhere d' =>
      rw [undisturbed, Bool.and_eq_true, decide_eq_true_eq] at hun
      obtain ⟨hread, hrest⟩ := hun
      rw [List.filter_cons_of_pos rfl, session, session]
      exact ih ((load_congr hread).trans hload) hrest d'

/-- A store of texts that starts without a file, or with an empty one, answers like a store in
memory, wherever it is closed and opened again. -/
theorem archive_session_eq_memory {d : Disk} {path : Text} {events : List (Event Text)}
    (hstart : d.read path = .error .notFound ∨ d.read path = .ok [])
    (hun : (archive ⟨path, .empty⟩).undisturbed explain path d events) :
    Archive.load explain d path = .ok ⟨path, (.empty : Shelf Text)⟩ ∧
      (archive ⟨path, .empty⟩).session explain d events =
        (memory .empty).session explain d (events.filter (!·.isReopen)) := by
  have hload : Archive.load explain d path = .ok ⟨path, (.empty : Shelf Text)⟩ :=
    load_of_start hstart
  exact ⟨hload, session_archive hload hun d⟩

def errands : List (Event Text) :=
  [.elsewhere (Disk.empty.put [['z']] .directory), .request (.add ['"', '\\', '\x00', 'å']),
    .reopen, .request (.set 18446744073709551615 ['\n', '😀']), .request (.delete 7), .reopen,
    .request (.add []), .request (.delete 1), .reopen, .request .list, .request .count]

theorem archive_session_errands :
    Disk.empty.read ['q'] = .error .notFound ∧
      (archive ⟨['q'], .empty⟩).undisturbed id ['q'] .empty errands = true ∧
      (archive ⟨['q'], .empty⟩).session id .empty errands =
        [.key (.ok 1), .value (.ok none), .value (.ok none),
          .key (.error (.keysExhausted 18446744073709551615)),
          .value (.ok (some ['"', '\\', '\x00', 'å'])),
          .entries [(18446744073709551615, ['\n', '😀'])], .size 1] := by
  have hstart : Disk.empty.read ['q'] = .error .notFound := rfl
  have hun : (archive ⟨['q'], .empty⟩).undisturbed id ['q'] .empty errands = true := by
    decide +kernel
  refine ⟨hstart, hun, ?_⟩
  rw [(archive_session_eq_memory (.inl hstart) hun).2]
  rfl

end Store

end ChatCommand
