import ChatCommand.Bot.Run
import ChatCommand.Proofs.Bot.Heard

namespace ChatCommand

open Text

/-- Whether it was not a failed save that came of it. -/
def isSaved : Except BotError Text → Bool
  | .error (.store (.access _ _)) => false
  | _ => true

namespace Bot

def savesAll (bot : Bot) : List Quote → Bool
  | [] => true
  | quote :: quotes => isSaved (bot.keep quote).1 && (bot.keep quote).2.savesAll quotes

/-- Whether what comes of the order is saved and does not depend on chance. -/
def isCalmOrder (bot : Bot) : Order → Bool
  | .random => bot.stored.length ≤ 1
  | order => isSaved (bot.obey order).1

def isCalm (bot : Bot) : Utterance → Bool
  | .command line => (Order.ofLine line).all bot.isCalmOrder
  | .prose prose =>
    match ofBlocks (Quote.blocks prose) with
    | .error _ => true
    | .ok quotes => bot.savesAll quotes

/-- Whether no save fails while all this is said, and nothing is drawn from two or more quotes. -/
def isCalmAll (bot : Bot) : List Utterance → Bool
  | [] => true
  | u :: us => bot.isCalm u && (bot.respond u).2.isCalmAll us

def isCalmHearing (bot : Bot) (marker : Text) (lines : List Text) : Bool :=
  bot.isCalmAll (Utterance.heard marker [] lines)

theorem isCalm_congr {u v : Utterance} (h : u.content = v.content) (bot : Bot) :
    bot.isCalm u = bot.isCalm v := by
  rcases Utterance.content_eq_cases h with rfl | ⟨prose, prose', rfl, rfl, hblocks⟩
  · rfl
  · rw [isCalm, isCalm, hblocks]

theorem isCalmAll_congr {us vs : List Utterance}
    (h : us.map Utterance.content = vs.map Utterance.content) (bot : Bot) :
    bot.isCalmAll us = bot.isCalmAll vs := by
  induction us generalizing bot vs with
  | nil => rw [List.map_eq_nil_iff.1 h.symm]
  | cons u us ih =>
    cases vs with
    | nil => cases h
    | cons v vs =>
      obtain ⟨hfirst, hrest⟩ := List.cons.inj h
      rw [isCalmAll, isCalmAll, isCalm_congr hfirst, respond_congr hfirst, ih hrest]

theorem isCalmAll_append (bot : Bot) (us vs : List Utterance) :
    bot.isCalmAll (us ++ vs) = (bot.isCalmAll us && (bot.respondAll us).2.isCalmAll vs) := by
  induction us generalizing bot with
  | nil => rfl
  | cons u us ih => rw [List.cons_append, isCalmAll, isCalmAll, ih, respondAll_cons, Bool.and_assoc]

theorem isCalmHearing_cut {marker : Text} (hmarker : marker ≠ []) (bot : Bot)
    (lines more : List Text) :
    bot.isCalmHearing marker (lines ++ [] :: more) =
      (bot.isCalmHearing marker lines &&
        (bot.hear marker lines).2.isCalmHearing marker more) := by
  rw [isCalmHearing, isCalmAll_congr (Utterance.content_heard_cut hmarker lines more),
    isCalmAll_append, ← hear_eq_respondAll]
  rfl

/-- Two bots with the same quotes over a file that is up to date, and reads the same for both. -/
inductive Level (explain : Text → Text) (path : Text) : Bot → Bot → Prop
  | intro {shelf : Shelf Quote} {d e : Disk} (i j : Nat → Nat) :
      Archive.load explain d path = .ok ⟨path, shelf⟩ → e.read path = d.read path →
      Level explain path ⟨.archive ⟨path, shelf⟩, d, i⟩ ⟨.archive ⟨path, shelf⟩, e, j⟩

theorem commit_level {α : Type} {explain : Text → Text} {a : Archive Quote} {d e : Disk} {x : α}
    (reply : Except StoreError α → Except BotError Text)
    (herror : ∀ fault, reply (.error fault) = .error (.store fault))
    (hd : isSaved (reply (a.commit d x).1)) (he : isSaved (reply (a.commit e x).1)) :
    ∃ d' e', a.commit d x = (.ok x, a, d') ∧ a.commit e x = (.ok x, a, e') ∧
      Archive.load explain d' a.path = .ok a ∧ e'.read a.path = d'.read a.path := by
  rcases Store.commit_cases a d x with ⟨d', hsaved, hcommit⟩ | ⟨fault, d', -, hcommit⟩
  · rcases Store.commit_cases a e x with ⟨e', hsaved', hcommit'⟩ | ⟨fault, e', -, hcommit'⟩
    · exact ⟨d', e', hcommit, hcommit', Archive.load_of_save hsaved,
        (Archive.save_read hsaved').trans (Archive.save_read hsaved).symm⟩
    · rw [hcommit', herror] at he
      cases he
  · rw [hcommit, herror] at hd
    cases hd

namespace Level

variable {explain : Text → Text} {path : Text} {b c : Bot} {quote : Quote} {quotes : List Quote}

theorem read (h : Level explain path b c) : c.disk.read path = b.disk.read path := by
  cases h with
  | intro _ _ _ hread => exact hread

theorem reopen {e : Disk} (h : Level explain path b c) (he : e.read path = b.disk.read path) :
    ∃ a, Archive.load explain e path = .ok a ∧ ∀ j, Level explain path ⟨.archive a, e, j⟩ c := by
  cases h with
  | intro _ k hload hread =>
    have hagain := (Store.load_congr he).trans hload
    exact ⟨_, hagain, fun j ↦ .intro j k hagain (hread.trans he.symm)⟩

theorem stored (h : Level explain path b c) : c.stored = b.stored := by
  cases h
  rfl

theorem keep (h : Level explain path b c) (hb : isSaved (b.keep quote).1)
    (hc : isSaved (c.keep quote).1) :
    (c.keep quote).1 = (b.keep quote).1 ∧ Level explain path (b.keep quote).2 (c.keep quote).2 := by
  by_cases hmem : quote ∈ b.stored
  · have hmem' : quote ∈ c.stored := h.stored ▸ hmem
    rw [keep_of_mem hmem, keep_of_mem hmem']
    exact ⟨rfl, h⟩
  · have hmem' : quote ∉ c.stored := h.stored ▸ hmem
    rw [keep_of_notMem hmem] at hb ⊢
    rw [keep_of_notMem hmem'] at hc ⊢
    cases h with
    | @intro shelf d e i j hload hread =>
      -- The shelf decides for both whether there is anything to save.
      rcases hadd : shelf.add quote with last | ⟨key, after⟩
      · simp only [Store.add, Archive.add, hadd]
        exact ⟨trivial, .intro i j hload hread⟩
      · simp only [Store.add, Archive.add, hadd] at hb hc ⊢
        obtain ⟨d', e', hd, he, hload', hread'⟩ := commit_level
          (fun r ↦ (r.mapError .store).map (addedText quote)) (fun _ ↦ rfl) hb hc
        rw [hd, he]
        exact ⟨rfl, .intro i j hload' hread'⟩

theorem remove {id : Int64} (h : Level explain path b c) (hb : isSaved (b.remove id).1)
    (hc : isSaved (c.remove id).1) :
    (c.remove id).1 = (b.remove id).1 ∧ Level explain path (b.remove id).2 (c.remove id).2 := by
  by_cases hneg : id.toInt < 0
  · rw [remove_of_neg hneg, remove_of_neg hneg]
    exact ⟨rfl, h⟩
  · have hnonneg : 0 ≤ id.toInt := by omega
    rw [remove_of_nonneg hnonneg] at hb hc ⊢
    rw [remove_of_nonneg hnonneg]
    cases h with
    | @intro shelf d e i j hload hread =>
      rcases hget : shelf.get? id.toUInt64 with _ | old
      · simp only [Store.delete, Archive.delete, Shelf.delete, hget]
        exact ⟨trivial, .intro i j hload hread⟩
      · simp only [Store.delete, Archive.delete, Shelf.delete, hget] at hb hc ⊢
        obtain ⟨d', e', hd, he, hload', hread'⟩ := commit_level
          (deletion id) (fun _ ↦ rfl) hb hc
        rw [hd, he]
        exact ⟨rfl, .intro i j hload' hread'⟩

theorem keepAll (h : Level explain path b c) (hb : b.savesAll quotes) (hc : c.savesAll quotes) :
    (c.keepAll quotes).1 = (b.keepAll quotes).1 ∧
      Level explain path (b.keepAll quotes).2 (c.keepAll quotes).2 := by
  induction quotes generalizing b c with
  | nil => exact ⟨rfl, h⟩
  | cons quote quotes ih =>
    obtain ⟨hb, hbs⟩ := Bool.and_eq_true_iff.1 hb
    obtain ⟨hc, hcs⟩ := Bool.and_eq_true_iff.1 hc
    obtain ⟨hfirst, hnext⟩ := h.keep hb hc
    obtain ⟨hrest, hlast⟩ := ih hnext hbs hcs
    rw [keepAll_cons, keepAll_cons, hfirst, hrest]
    exact ⟨rfl, hlast⟩

theorem random (h : Level explain path b c) (hb : b.stored.length ≤ 1) :
    c.random.1 = b.random.1 ∧ Level explain path b.random.2 c.random.2 := by
  have hdrawn (n : Nat) : b.stored[n % b.stored.length]? = b.stored[0]? := by
    rcases Nat.le_one_iff_eq_zero_or_eq_one.1 hb with hnone | hone
    · rw [List.length_eq_zero_iff.1 hnone]
      rfl
    · rw [hone, Nat.mod_one]
  constructor
  · simp only [Bot.random, h.stored, hdrawn]
  · obtain ⟨i, hi⟩ := exists_draws_random b
    obtain ⟨j, hj⟩ := exists_draws_random c
    rw [hi, hj]
    cases h with
    | intro _ _ hload hread => exact .intro i j hload hread

theorem obey {order : Order} (h : Level explain path b c) (hb : b.isCalmOrder order)
    (hc : c.isCalmOrder order) :
    (c.obey order).1 = (b.obey order).1 ∧ Level explain path (b.obey order).2 (c.obey order).2 := by
  cases order with
  | add speaker text audience =>
    have hb : isSaved (b.add speaker text audience).1 := hb
    have hc : isSaved (c.add speaker text audience).1 := hc
    rw [Bot.obey, Bot.obey]
    rcases hcheck : Quote.check ⟨speaker, audience.elim [] Quote.splitNames, text⟩ with fault | _
    · simp only [Bot.add, hcheck]
      exact ⟨trivial, h⟩
    · simp only [Bot.add, hcheck] at hb hc ⊢
      exact h.keep hb hc
  | remove id => exact h.remove hb hc
  | list showIds =>
    refine ⟨?_, h⟩
    cases h
    rfl
  | random =>
    obtain ⟨hdrawn, hnext⟩ := h.random (of_decide_eq_true hb)
    exact ⟨congrArg Except.ok hdrawn, hnext⟩

theorem respond {u : Utterance} (h : Level explain path b c) (hb : b.isCalm u) (hc : c.isCalm u) :
    (c.respond u).1 = (b.respond u).1 ∧ Level explain path (b.respond u).2 (c.respond u).2 := by
  cases u with
  | command line =>
    rcases horder : Order.ofLine line with _ | order
    · obtain ⟨reply, hreply⟩ := respond_of_no_order horder
      rw [hreply, hreply]
      exact ⟨rfl, h⟩
    · rw [isCalm, horder] at hb hc
      obtain ⟨hsame, hnext⟩ := h.obey hb hc
      rw [respond_of_order horder, respond_of_order horder, hsame]
      exact ⟨rfl, hnext⟩
  | prose text =>
    rw [isCalm] at hb hc
    rw [Bot.respond, Bot.respond, keepProse, keepProse]
    rcases hblocks : ofBlocks (Quote.blocks text) with e | quotes
    · exact ⟨rfl, h⟩
    · rw [hblocks] at hb hc
      obtain ⟨hsame, hnext⟩ := h.keepAll hb hc
      exact ⟨congrArg (join ['\n']) hsame, hnext⟩

theorem respondAll {us : List Utterance} (h : Level explain path b c) (hb : b.isCalmAll us)
    (hc : c.isCalmAll us) :
    (c.respondAll us).1 = (b.respondAll us).1 ∧
      Level explain path (b.respondAll us).2 (c.respondAll us).2 := by
  induction us generalizing b c with
  | nil => exact ⟨rfl, h⟩
  | cons u us ih =>
    obtain ⟨hb, hbs⟩ := Bool.and_eq_true_iff.1 hb
    obtain ⟨hc, hcs⟩ := Bool.and_eq_true_iff.1 hc
    obtain ⟨hfirst, hnext⟩ := h.respond hb hc
    obtain ⟨hrest, hlast⟩ := ih hnext hbs hcs
    rw [respondAll_cons, respondAll_cons, hfirst, hrest]
    exact ⟨rfl, hlast⟩

theorem hear {marker : Text} {lines : List Text} (h : Level explain path b c)
    (hb : b.isCalmHearing marker lines) (hc : c.isCalmHearing marker lines) :
    (c.hear marker lines).1 = (b.hear marker lines).1 ∧
      Level explain path (b.hear marker lines).2 (c.hear marker lines).2 := by
  rw [hear_eq_respondAll, hear_eq_respondAll]
  exact h.respondAll hb hc

end Level

end Bot

namespace Settings

variable {s : Settings} {explain : Text → Text} {path : Text} {d e : Disk} {quotes : Store Quote}

/-- Whether the run is calm, which it is if the file cannot be opened. -/
def isCalmRun (s : Settings) (explain : Text → Text) (input : Text) (d : Disk) (draws : Nat → Nat) :
    Bool :=
  match s.openStore explain d with
  | .error _ => true
  | .ok quotes => Bot.isCalmHearing ⟨quotes, d, draws⟩ s.marker input.lines

theorem openStore_congr (hfile : s.file = some path) (h : e.read path = d.read path) :
    s.openStore explain e = s.openStore explain d := by
  rw [openStore, openStore, hfile]
  simp only [Store.load_congr h]

theorem exists_archive_of_openStore (hfile : s.file = some path)
    (h : s.openStore explain d = .ok quotes) :
    ∃ shelf, quotes = .archive ⟨path, shelf⟩ ∧
      Archive.load explain d path = .ok ⟨path, shelf⟩ := by
  rw [openStore, hfile] at h
  simp only at h
  rcases hload : Archive.load explain d path with err | a
  · rw [hload] at h
    cases h
  · rw [hload] at h
    cases h
    obtain rfl := Archive.path_of_load hload
    exact ⟨a.shelf, rfl, rfl⟩

theorem openStore_of_load {a : Archive Quote} (hfile : s.file = some path)
    (h : Archive.load explain d path = .ok a) : s.openStore explain d = .ok (.archive a) := by
  rw [openStore, hfile]
  simp only [h]
  rfl

end Settings

namespace Outcome

variable {explain : Text → Text} {args : List Text} {settings : Settings}
  {path input first second whole : Text} {d e f : Disk} {i j k : Nat → Nat}

theorem ofRun_of_error {fault : StoreError} (hargs : Settings.ofArgs args = .ok settings)
    (h : settings.openStore explain d = .error fault) :
    ofRun explain args input d i = ⟨[], some fault.message, d⟩ := by
  unfold ofRun
  rw [hargs]
  simp only [h]

theorem ofRun_of_ok {quotes : Store Quote} (hargs : Settings.ofArgs args = .ok settings)
    (h : settings.openStore explain d = .ok quotes) :
    ofRun explain args input d i =
      ⟨(Bot.hear ⟨quotes, d, i⟩ settings.marker input.lines).1, none,
        (Bot.hear ⟨quotes, d, i⟩ settings.marker input.lines).2.disk⟩ := by
  unfold ofRun
  rw [hargs]
  simp only [h]

/-- A run that is stopped and started again on its file prints and leaves what it would print and
leave if an empty line stood where it was stopped. -/
theorem restart_transparent (hargs : Settings.ofArgs args = .ok settings)
    (hmarker : settings.marker ≠ []) (hfile : settings.file = some path)
    (hwhole : whole.lines = first.lines ++ [] :: second.lines)
    (he : e.read path = (ofRun explain args first d i).disk.read path)
    (hf : f.read path = d.read path) (hfirst : settings.isCalmRun explain first d i)
    (hsecond : settings.isCalmRun explain second e j)
    (hcalm : settings.isCalmRun explain whole f k) :
    (ofRun explain args whole f k).output =
        (ofRun explain args first d i).output ++ (ofRun explain args second e j).output ∧
      (ofRun explain args whole f k).disk.read path =
        (ofRun explain args second e j).disk.read path := by
  rcases hopen : settings.openStore explain d with fault | quotes
  · rw [ofRun_of_error hargs hopen] at he ⊢
    rw [ofRun_of_error hargs ((Settings.openStore_congr hfile he).trans hopen),
      ofRun_of_error hargs ((Settings.openStore_congr hfile hf).trans hopen)]
    exact ⟨rfl, hf.trans he.symm⟩
  · obtain ⟨shelf, rfl, hload⟩ := Settings.exists_archive_of_openStore hfile hopen
    have hopenf := (Settings.openStore_congr hfile hf).trans hopen
    rw [ofRun_of_ok hargs hopen] at he ⊢
    rw [ofRun_of_ok hargs hopenf, hwhole, Bot.hear_cut hmarker]
    simp only [Settings.isCalmRun, hopen, hopenf, hwhole, Bot.isCalmHearing_cut hmarker,
      Bool.and_eq_true] at hfirst hcalm
    -- The long run goes along with the first run up to the cut, and then with the second one.
    obtain ⟨hsame, hlevel⟩ := (Bot.Level.intro i k hload hf).hear hfirst hcalm.1
    obtain ⟨a, hagain, hreopened⟩ := hlevel.reopen he
    have hopene := Settings.openStore_of_load hfile hagain
    rw [ofRun_of_ok hargs hopene]
    simp only [Settings.isCalmRun, hopene] at hsecond
    obtain ⟨hsame', hlevel'⟩ := (hreopened j).hear hsecond hcalm.2
    exact ⟨congr (congrArg (· ++ ·) hsame) hsame', hlevel'.read⟩

def onFile : List Text :=
  ["--db".toList, "q".toList]

def morning : Text :=
  "!quote random\nOla\n  hei  \n".toList

def evening : Text :=
  " \nPer\nja\n\n!quote remove 1\n".toList

theorem restart_transparent_evening :
    Settings.ofArgs onFile = .ok ⟨['!'], some "q".toList, false⟩ ∧
      (ofRun id onFile (morning ++ '\n' :: evening) .empty id).output =
        join ['\n'] (["no quotes yet", "added #1: \"hei\" - Ola", "added #2: \"ja\" - Per",
          "deleted #1: \"hei\" - Ola", ""].map String.toList) ∧
      (ofRun id onFile (morning ++ '\n' :: evening) .empty id).output =
        (ofRun id onFile morning .empty .succ).output ++
          (ofRun id onFile evening (ofRun id onFile morning .empty .succ).disk .pred).output ∧
      (ofRun id onFile (morning ++ '\n' :: evening) .empty id).disk.read "q".toList =
        (ofRun id onFile evening (ofRun id onFile morning .empty .succ).disk .pred).disk.read
          "q".toList := by
  have hargs : Settings.ofArgs onFile = .ok ⟨['!'], some "q".toList, false⟩ := by decide +kernel
  refine ⟨hargs, ?_, restart_transparent hargs ?_ rfl ?_ rfl rfl ?_ ?_ ?_⟩
  all_goals decide +kernel

end Outcome

end ChatCommand
