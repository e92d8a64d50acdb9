import Mathlib.Logic.Relation
import Tdxrs.Downloader.Download
import Tdxrs.Library.TransitionSystem

set_option relaxedAutoImplicit false
set_option autoImplicit false

/-!
# Calls of `run` and their checkpoint

`Downloader.run` of `python/tdxrs/downloader.py` for whole markets (`codes=None`), with the one
checkpoint file that all calls on a data directory share. A call goes through the pairs of a
category and a market it is asked for, attempts the stocks of each one by one, and saves how far it
is after every fifty stocks and at the end of each market. It may be interrupted between any two
steps, also while the checkpoint is written, and the next call resumes where the file says.

The lists of stocks are a parameter: `none` is a market whose list cannot be fetched. What an
attempt does is `Tdxrs.downloadOne`; here it is an entry in the log, since `run` goes on in the
same way whatever comes of it.

## Main definitions

* `Tdxrs.RunCall.pairs` — the pairs that a call is asked for.
* `Tdxrs.DownloadRuns.step` — the steps of the calls on one data directory.
* `Tdxrs.DownloadRuns.SkipsNothing` — every stock that a completed call was asked for has been
  attempted with the settings of the call.

## Main results

* `Tdxrs.resume_skips_nothing` — this holds of every run in which a call resumes only checkpoints
  that were written under its own settings.
* `Tdxrs.resume_skips_other_settings` — a call that resumes the checkpoint of a call with another
  format skips the stocks of that call.
-/

namespace Tdxrs

/-! ## What a call is asked for -/

/-- The markets of the downloader. -/
inductive Market where
  | sh
  | sz
  | bj
deriving DecidableEq, Repr

/-- The name of a market, as the callers and the checkpoint write it. -/
def Market.name : Market → Text
  | .sh => "sh".toList
  | .sz => "sz".toList
  | .bj => "bj".toList

/-- The number of a market in requests. -/
def Market.code : Market → UInt8
  | .sh => 1
  | .sz => 0
  | .bj => 2

/-- A category or a market as a caller writes it. -/
inductive Key where
  | name (text : Text)
  | number (n : ℤ)
deriving DecidableEq, Repr

/-- The names behind the numbers of categories. -/
def categoryAliases (n : ℤ) : Option Text :=
  if n = 0 then some "min5".toList
  else if n = 1 then some "min15".toList
  else if n = 2 then some "min30".toList
  else if n = 3 then some "min60".toList
  else if n = 4 ∨ n = 9 then some "daily".toList
  else if n = 5 then some "weekly".toList
  else if n = 6 then some "monthly".toList
  else none

/-- The names behind the numbers of markets. -/
def marketAliases (n : ℤ) : Option Text :=
  if n = 0 then some "sz".toList
  else if n = 1 then some "sh".toList
  else none

/-- Numbers are replaced by the names they stand for, where there is one. -/
def normalizeKeys (aliases : ℤ → Option Text) (keys : List Key) : List Key :=
  keys.map fun
    | .name text => .name text
    | .number n => (aliases n).elim (.number n) .name

/-- The categories by their names. -/
def normalizeCategories : List Key → List Key := normalizeKeys categoryAliases

/-- The markets by their names. -/
def normalizeMarkets : List Key → List Key := normalizeKeys marketAliases

/-- The category of a name. -/
def categoryMap (key : Key) : Option Category :=
  [.daily, .weekly, .monthly, .min5, .min15, .min30, .min60].find? fun category : Category =>
    key = .name category.dirName

/-- The market of a name. -/
def marketMap (key : Key) : Option Market :=
  [.sh, .sz, .bj].find? fun market : Market => key = .name market.name

/-- A category of a market. -/
structure Pair where
  category : Category
  market : Market
deriving DecidableEq, Repr

/-- The settings under which a call downloads: those of the downloader and the date range. -/
structure RunSettings extends Downloader where
  startDate : Option Text
  endDate : Option Text
deriving DecidableEq, Repr

/-- A call of `run` for whole markets. -/
structure RunCall where
  settings : RunSettings
  markets : Option (List Key)
  categories : Option (List Key)
deriving DecidableEq, Repr

/-- The pairs that a call goes through: every category over all markets. Unknown names are passed
over. -/
def RunCall.pairs (call : RunCall) : List Pair :=
  let markets := call.markets.getD [.name "sh".toList, .name "sz".toList]
  let categories := call.categories.getD [.name "daily".toList]
  ((normalizeCategories categories).filterMap categoryMap).flatMap fun category =>
    ((normalizeMarkets markets).filterMap marketMap).map fun market => ⟨category, market⟩

/-! ## The state of a data directory -/

/-- The checkpoint as its file holds it; times are in microseconds. -/
structure Checkpoint where
  updatedAt : ℕ
  market : Text
  category : Text
  lastCode : Text
  done : ℕ
  total : ℕ
deriving DecidableEq, Repr

/-- A checkpoint with what its file does not say: the call that wrote it, the settings of that
call, and how many stocks of the market that call had skipped itself. -/
structure SavedCheckpoint extends Checkpoint where
  call : ℕ
  settings : RunSettings
  skipped : ℕ
deriving DecidableEq, Repr

/-- One stock attempted by a call. -/
structure Attempt where
  call : ℕ
  settings : RunSettings
  pair : Pair
  code : Text
deriving DecidableEq, Repr

/-- How far a call is with a pair: `rest` are the stocks left, `unsaved` is the last stock while a
checkpoint is due. -/
structure Progress where
  pair : Pair
  total : ℕ
  index : ℕ
  rest : List Text
  unsaved : Option Text
  skipped : ℕ
deriving DecidableEq, Repr

/-- A call that is running. -/
structure ActiveCall where
  id : ℕ
  call : RunCall
  todo : List Pair
  current : Option Progress
deriving DecidableEq, Repr

/-- Whether the next step of a call writes the checkpoint of a pair it is in. -/
def ActiveCall.saveDue (a : ActiveCall) : Bool :=
  a.current.any fun p => p.unsaved.isSome || p.rest.isEmpty

/-- What has happened: the stocks that were attempted, and which call resumed the checkpoint of
which. -/
structure History where
  attempts : List Attempt
  resumes : List (ℕ × ℕ)
deriving DecidableEq, Repr

/-- A data directory with the calls on it. -/
structure DownloadRuns where
  now : ℕ
  file : Option SavedCheckpoint
  running : Option ActiveCall
  nextId : ℕ
  completed : List (ℕ × RunCall)
  history : History
deriving DecidableEq, Repr

/-- Something that happens on a data directory. -/
inductive RunEvent where
  /-- A call of `run`. -/
  | start (call : RunCall)
  /-- The running call takes its next step. -/
  | advance
  /-- The running call is interrupted. -/
  | interrupt
  /-- The running call is interrupted while it writes the checkpoint. -/
  | tear
  /-- Time passes. -/
  | wait (microseconds : ℕ)
deriving DecidableEq, Repr

namespace DownloadRuns

/-- A data directory without a checkpoint. -/
def init : DownloadRuns := ⟨0, none, none, 0, [], ⟨[], []⟩⟩

/-! ## The steps of a call -/

/-- Writes how far a call is. -/
def saveCheckpoint (s : DownloadRuns) (a : ActiveCall) (pair : Pair) (skipped : ℕ)
    (lastCode : Text) (done total : ℕ) : DownloadRuns :=
  { s with
    file := some
      { updatedAt := s.now, market := pair.market.name, category := pair.category.dirName,
        lastCode := lastCode, done := done, total := total, call := a.id,
        settings := a.call.settings, skipped := skipped } }

/-- The checkpoint, unless it is more than a day old. -/
def loadCheckpoint (s : DownloadRuns) : Option SavedCheckpoint :=
  s.file.filter fun c => decide (s.now - c.updatedAt ≤ 86400 * 1000000)

/-- The checkpoint from which the pair is resumed, with the number of stocks to skip: those up to
the first one that has the code of the checkpoint. -/
def resumePoint (s : DownloadRuns) (pair : Pair) (codes : List Text) :
    Option (SavedCheckpoint × ℕ) :=
  s.loadCheckpoint.bind fun c =>
    if c.market = pair.market.name ∧ c.category = pair.category.dirName ∧
        0 < c.done ∧ c.done < c.total then
      (codes.findIdx? (· = c.lastCode)).map fun i => (c, i + 1)
    else none

/-- The stocks of a pair from `skipped` on are next. -/
def beginPair (s : DownloadRuns) (a : ActiveCall) (pair : Pair) (todo : List Pair)
    (codes : List Text) (skipped : ℕ) : DownloadRuns :=
  { s with
    running := some
      { a with
        todo := todo
        current :=
          some ⟨pair, (codes.drop skipped).length, 0, codes.drop skipped, none, skipped⟩ } }

/-- The next pair: its list is fetched, and the checkpoint says where to begin. -/
def enterPair (stocks : Market → Option (List Text)) (s : DownloadRuns) (a : ActiveCall)
    (pair : Pair) (todo : List Pair) : DownloadRuns :=
  match stocks pair.market with
  | none => { s.saveCheckpoint a pair 0 [] 0 0 with running := some { a with todo := todo } }
  | some [] => { s with running := some { a with todo := todo } }
  | some codes =>
    match s.resumePoint pair codes with
    | none => s.beginPair a pair todo codes 0
    | some (c, skipped) =>
      { s.beginPair a pair todo codes skipped with
        history := { s.history with resumes := (a.id, c.call) :: s.history.resumes } }

/-- One stock is attempted; a checkpoint is due after every fifty. -/
def attempt (s : DownloadRuns) (a : ActiveCall) (p : Progress) (code : Text) (rest : List Text) :
    DownloadRuns :=
  { s with
    running := some
      { a with
        current := some
          { p with
            index := p.index + 1
            rest := rest
            unsaved := if (p.index + 1) % 50 = 0 then some code else none } }
    history :=
      { s.history with
        attempts := ⟨a.id, a.call.settings, p.pair, code⟩ :: s.history.attempts } }

/-- The next step of a running call. -/
def advance (stocks : Market → Option (List Text)) (s : DownloadRuns) (a : ActiveCall) :
    DownloadRuns :=
  match a.current with
  | none =>
    match a.todo with
    | [] => { s with running := none, completed := (a.id, a.call) :: s.completed }
    | pair :: todo => s.enterPair stocks a pair todo
  | some p =>
    match p.unsaved with
    | some code =>
      { s.saveCheckpoint a p.pair p.skipped code p.index p.total with
        running := some { a with current := some { p with unsaved := none } } }
    | none =>
      match p.rest with
      | code :: rest => s.attempt a p code rest
      | [] =>
        { s.saveCheckpoint a p.pair p.skipped [] p.total p.total with
          running := some { a with current := none } }

/-- What happens on a data directory. One call runs at a time. -/
def step (stocks : Market → Option (List Text)) (s : DownloadRuns) :
    RunEvent → Option DownloadRuns
  | .start call =>
    if s.running.isNone then
      some { s with running := some ⟨s.nextId, call, call.pairs, none⟩, nextId := s.nextId + 1 }
    else none
  | .advance => s.running.map (s.advance stocks)
  | .interrupt => s.running.map fun _ => { s with running := none }
  | .tear =>
    (s.running.filter ActiveCall.saveDue).map fun _ => { s with running := none, file := none }
  | .wait microseconds => some { s with now := s.now + microseconds }

/-! ## What is due -/

/-- The call, the checkpoint that its next step resumes, if it resumes one. -/
def resuming (stocks : Market → Option (List Text)) (s : DownloadRuns) :
    Option (ActiveCall × SavedCheckpoint) :=
  s.running.bind fun a =>
    match a.current, a.todo with
    | none, pair :: _ =>
      (stocks pair.market).bind fun codes => (s.resumePoint pair codes).map fun r => (a, r.1)
    | _, _ => none

/-- A checkpoint is resumed only by a call with the settings under which it was written, and only
if it meets `ok`. -/
def ResumesOwn (stocks : Market → Option (List Text)) (ok : SavedCheckpoint → Prop)
    (s : DownloadRuns) (e : RunEvent) : Prop :=
  e = .advance → ∀ r ∈ s.resuming stocks, r.2.settings = r.1.call.settings ∧ ok r.2

instance (stocks : Market → Option (List Text)) (ok : SavedCheckpoint → Prop) [DecidablePred ok]
    (s : DownloadRuns) (e : RunEvent) : Decidable (s.ResumesOwn stocks ok e) :=
  inferInstanceAs (Decidable (_ → _))

end DownloadRuns

/-- The call itself, or a call whose checkpoint it resumed. -/
def DirectlyResumed (resumes : List (ℕ × ℕ)) (call writer : ℕ) : Prop :=
  writer = call ∨ (call, writer) ∈ resumes

instance (resumes : List (ℕ × ℕ)) (call writer : ℕ) :
    Decidable (DirectlyResumed resumes call writer) :=
  inferInstanceAs (Decidable (_ ∨ _))

/-- The call itself, or one from which it goes on through any number of checkpoints. -/
def EventuallyResumed (resumes : List (ℕ × ℕ)) : ℕ → ℕ → Prop :=
  Relation.ReflTransGen fun call writer => (call, writer) ∈ resumes

/-- The stock has been attempted for the pair under the settings by a call that counts for the
given one. -/
def History.Covers (counts : List (ℕ × ℕ) → ℕ → ℕ → Prop) (h : History) (call : ℕ)
    (settings : RunSettings) (pair : Pair) (code : Text) : Prop :=
  ∃ a ∈ h.attempts, counts h.resumes call a.call ∧
    a.settings = settings ∧ a.pair = pair ∧ a.code = code

/-- Every stock of every pair that a completed call was asked for has been attempted with the
settings of the call, by a call that counts for it. -/
def DownloadRuns.SkipsNothing (stocks : Market → Option (List Text))
    (counts : List (ℕ × ℕ) → ℕ → ℕ → Prop) (s : DownloadRuns) : Prop :=
  ∀ done ∈ s.completed, ∀ pair ∈ done.2.pairs, ∀ code ∈ (stocks pair.market).getD [],
    s.history.Covers counts done.1 done.2.settings pair code

instance (stocks : Market → Option (List Text)) (s : DownloadRuns) :
    Decidable (s.SkipsNothing stocks DirectlyResumed) :=
  inferInstanceAs (Decidable (∀ done ∈ s.completed, ∀ pair ∈ done.2.pairs,
    ∀ code ∈ (stocks pair.market).getD [], ∃ a ∈ s.history.attempts,
      DirectlyResumed s.history.resumes done.1 a.call ∧
        a.settings = done.2.settings ∧ a.pair = pair ∧ a.code = code))

/-! ## Calls that count -/

/-- What a notion of calls that count has to meet: the call itself counts, no call ceases to
count, and for a call that resumes a good checkpoint those count that attempted the stocks before
it. -/
structure CountRule (counts : List (ℕ × ℕ) → ℕ → ℕ → Prop) (ok : SavedCheckpoint → Prop) :
    Prop where
  self (resumes : List (ℕ × ℕ)) (call : ℕ) : counts resumes call call
  mono {resumes resumes' : List (ℕ × ℕ)} {call writer : ℕ} :
    resumes ⊆ resumes' → counts resumes call writer → counts resumes' call writer
  resumed {c : SavedCheckpoint} {resumes : List (ℕ × ℕ)} {call writer : ℕ} : ok c →
    writer = c.call ∨ 0 < c.skipped ∧ counts resumes c.call writer →
    counts ((call, c.call) :: resumes) call writer

/-- The writer of a checkpoint counts if it had begun the market at its first stock. -/
lemma countRule_directly : CountRule DirectlyResumed fun c => c.skipped = 0 where
  self _ _ := .inl rfl
  mono hsub h := h.imp_right (hsub ·)
  resumed := by
    rintro c resumes call writer hc (rfl | ⟨hskipped, -⟩)
    · exact .inr List.mem_cons_self
    · exact absurd hc hskipped.ne'

/-- Further checkpoints that are resumed do not take calls away. -/
lemma EventuallyResumed.mono {resumes resumes' : List (ℕ × ℕ)} {call writer : ℕ}
    (hsub : resumes ⊆ resumes') (h : EventuallyResumed resumes call writer) :
    EventuallyResumed resumes' call writer :=
  Relation.ReflTransGen.mono (fun _ _ hmem => hsub hmem) _ _ h

/-- All calls behind a checkpoint count. -/
lemma countRule_eventually : CountRule EventuallyResumed fun _ => True where
  self _ _ := .refl
  mono := EventuallyResumed.mono
  resumed := by
    rintro c resumes call writer - (rfl | ⟨-, h⟩)
    · exact .single List.mem_cons_self
    · exact .head List.mem_cons_self (h.mono (List.subset_cons_self _ _))

/-! ## The invariant -/

variable {counts : List (ℕ × ℕ) → ℕ → ℕ → Prop} {ok : SavedCheckpoint → Prop}
  {stocks : Market → Option (List Text)} {s : DownloadRuns} {h h' : History}

/-- Nothing that has happened is forgotten. -/
structure History.Extends (h' h : History) : Prop where
  attempts : h.attempts ⊆ h'.attempts
  resumes : h.resumes ⊆ h'.resumes

/-- The first `n` stocks of a list, of which a call skipped some: they have been attempted by the
call itself, or, where it skipped some, by calls that count for it. -/
def History.Front (counts : List (ℕ × ℕ) → ℕ → ℕ → Prop) (h : History) (call : ℕ)
    (settings : RunSettings) (pair : Pair) (codes : List Text) (skipped n : ℕ) : Prop :=
  ∀ code ∈ codes.take n, ∃ a ∈ h.attempts,
    (a.call = call ∨ 0 < skipped ∧ counts h.resumes call a.call) ∧
      a.settings = settings ∧ a.pair = pair ∧ a.code = code

/-- What a checkpoint says is true: the stocks up to the one it names have been dealt with. -/
def SavedCheckpoint.Grounded (counts : List (ℕ × ℕ) → ℕ → ℕ → Prop)
    (stocks : Market → Option (List Text)) (h : History) (c : SavedCheckpoint) : Prop :=
  ∀ pair codes, stocks pair.market = some codes → c.market = pair.market.name →
    c.category = pair.category.dirName → 0 < c.done → c.done < c.total →
    codes[c.skipped + c.done - 1]? = some c.lastCode ∧
      h.Front counts c.call c.settings pair codes c.skipped (c.skipped + c.done)

/-- How far a call is with a pair is true. -/
structure Progress.Grounded (counts : List (ℕ × ℕ) → ℕ → ℕ → Prop) (h : History)
    (a : ActiveCall) (p : Progress) (codes : List Text) : Prop where
  rest : p.rest = codes.drop (p.skipped + p.index)
  unsaved : ∀ code ∈ p.unsaved, codes[p.skipped + p.index - 1]? = some code
  front : h.Front counts a.id a.call.settings p.pair codes p.skipped (p.skipped + p.index)

/-- A call that is running has dealt with every pair that it has left behind. -/
structure ActiveCall.Grounded (counts : List (ℕ × ℕ) → ℕ → ℕ → Prop)
    (stocks : Market → Option (List Text)) (h : History) (a : ActiveCall) : Prop where
  pairs : ∀ pair ∈ a.call.pairs, pair ∈ a.todo ∨ (∃ p ∈ a.current, p.pair = pair) ∨
    ∀ code ∈ (stocks pair.market).getD [], h.Covers counts a.id a.call.settings pair code
  current : ∀ p ∈ a.current, ∃ codes, stocks p.pair.market = some codes ∧
    p.Grounded counts h a codes

/-- **The invariant.** The checkpoint and the running call tell the truth, and completed calls
have skipped nothing. -/
structure DownloadRuns.Grounded (counts : List (ℕ × ℕ) → ℕ → ℕ → Prop)
    (stocks : Market → Option (List Text)) (s : DownloadRuns) : Prop where
  file : ∀ c ∈ s.file, c.Grounded counts stocks s.history
  running : ∀ a ∈ s.running, a.Grounded counts stocks s.history
  completed : s.SkipsNothing stocks counts

namespace CountRule

variable (rule : CountRule counts ok)
include rule

/-- What counts goes on counting. -/
lemma covers_mono (hext : h'.Extends h) {call : ℕ} {settings : RunSettings} {pair : Pair}
    {code : Text} (hcovers : h.Covers counts call settings pair code) :
    h'.Covers counts call settings pair code := by
  obtain ⟨a, ha, hcounts, hsame⟩ := hcovers
  exact ⟨a, hext.attempts ha, rule.mono hext.resumes hcounts, hsame⟩

/-- The stocks a call has dealt with stay so. -/
lemma front_mono (hext : h'.Extends h) {call : ℕ} {settings : RunSettings} {pair : Pair}
    {codes : List Text} {skipped n : ℕ}
    (hfront : h.Front counts call settings pair codes skipped n) :
    h'.Front counts call settings pair codes skipped n := by
  intro code hcode
  obtain ⟨a, ha, hcounts, hsame⟩ := hfront code hcode
  exact ⟨a, hext.attempts ha, hcounts.imp_right (And.imp_right (rule.mono hext.resumes)), hsame⟩

/-- The stocks a call has dealt with have been attempted by calls that count for it. -/
lemma covers_of_front {call : ℕ} {settings : RunSettings} {pair : Pair} {codes : List Text}
    {skipped n : ℕ} (hfront : h.Front counts call settings pair codes skipped n) {code : Text}
    (hcode : code ∈ codes.take n) : h.Covers counts call settings pair code := by
  obtain ⟨a, ha, hcounts, hsame⟩ := hfront code hcode
  refine ⟨a, ha, ?_, hsame⟩
  rcases hcounts with hself | ⟨-, hcounts⟩
  · rw [hself]
    exact rule.self _ _
  · exact hcounts

/-- A checkpoint stays true. -/
lemma saved_mono (hext : h'.Extends h) {c : SavedCheckpoint}
    (hc : c.Grounded counts stocks h) : c.Grounded counts stocks h' :=
  fun pair codes hcodes hmarket hcategory hpos hlt =>
    have hfacts := hc pair codes hcodes hmarket hcategory hpos hlt
    ⟨hfacts.1, rule.front_mono hext hfacts.2⟩

/-- Completed calls go on having skipped nothing. -/
lemma skipsNothing_mono {s s' : DownloadRuns} (hext : s'.history.Extends s.history)
    (hcompleted : s'.completed = s.completed) (hs : s.SkipsNothing stocks counts) :
    s'.SkipsNothing stocks counts := by
  intro done hdone pair hpair code hcode
  rw [hcompleted] at hdone
  exact rule.covers_mono hext (hs done hdone pair hpair code hcode)

/-- A call that resumes a good checkpoint of its own settings has dealt with the stocks it skips.

**Proof sketch.** The checkpoint names the last stock its writer has dealt with, so the first stock
of that code does not come later; the stocks up to it have been attempted by the writer or by calls
that count for the writer, and those count for the call that resumes it. -/
lemma front_resumed {c : SavedCheckpoint} (hok : ok c) (hc : c.Grounded counts stocks h)
    {pair : Pair} {codes : List Text} (hcodes : stocks pair.market = some codes)
    (hmarket : c.market = pair.market.name) (hcategory : c.category = pair.category.dirName)
    (hpos : 0 < c.done) (hlt : c.done < c.total) {i : ℕ}
    (hfound : codes.findIdx? (· = c.lastCode) = some i) (call : ℕ) :
    ({ h with resumes := (call, c.call) :: h.resumes } : History).Front counts call c.settings
      pair codes (i + 1) (i + 1) := by
  obtain ⟨hlast, hfront⟩ := hc pair codes hcodes hmarket hcategory hpos hlt
  obtain ⟨_, _, hbefore⟩ := List.findIdx?_eq_some_iff_getElem.mp hfound
  have hle : i ≤ c.skipped + c.done - 1 := by
    by_contra hlater
    obtain ⟨hbound, heq⟩ := List.getElem?_eq_some_iff.mp hlast
    have hne := hbefore (c.skipped + c.done - 1) (by omega)
    simp [heq] at hne
  intro code hcode
  obtain ⟨a, ha, hcounts, hsame⟩ :=
    hfront code ((List.take_subset_take_left codes (by omega)) hcode)
  exact ⟨a, ha, .inr ⟨by omega, rule.resumed hok hcounts⟩, hsame⟩

/-- What a step has to show for the invariant: about the new checkpoint, if it wrote one, and about
the call that runs after it. -/
lemma grounded_of_extends {s s' : DownloadRuns} (hs : s.Grounded counts stocks)
    (hext : s'.history.Extends s.history) (hcompleted : s'.completed = s.completed)
    (hfile : ∀ c ∈ s'.file, c ∈ s.file ∨ c.Grounded counts stocks s'.history)
    (hrunning : ∀ a ∈ s'.running, a.Grounded counts stocks s'.history) :
    s'.Grounded counts stocks where
  file c hc := (hfile c hc).elim (fun hold => rule.saved_mono hext (hs.file c hold)) id
  running := hrunning
  completed := rule.skipsNothing_mono hext hcompleted hs.completed

end CountRule

/-! ## The steps keep the invariant -/

lemma History.Extends.refl (h : History) : h.Extends h := ⟨List.Subset.refl _, List.Subset.refl _⟩

/-- A category is read back from its name. -/
lemma categoryMap_dirName (category : Category) :
    categoryMap (.name category.dirName) = some category := by
  cases category <;> rfl

/-- A market is read back from its name. -/
lemma marketMap_name (market : Market) : marketMap (.name market.name) = some market := by
  cases market <;> rfl

/-- Markets and categories are told apart by the names in a checkpoint. -/
lemma Pair.ext_names {pair pair' : Pair} (hmarket : pair.market.name = pair'.market.name)
    (hcategory : pair.category.dirName = pair'.category.dirName) : pair = pair' := by
  obtain ⟨category, market⟩ := pair
  obtain ⟨category', market'⟩ := pair'
  have hm : some market = some market' := by
    rw [← marketMap_name market, ← marketMap_name market',
      show market.name = market'.name from hmarket]
  have hc : some category = some category' := by
    rw [← categoryMap_dirName category, ← categoryMap_dirName category',
      show category.dirName = category'.dirName from hcategory]
  rw [Option.some.inj hm, Option.some.inj hc]

/-- A checkpoint of a market that is finished is not resumed. -/
lemma SavedCheckpoint.grounded_of_done {c : SavedCheckpoint} (hdone : ¬ c.done < c.total) :
    c.Grounded counts stocks h :=
  fun _ _ _ _ _ _ hlt => absurd hlt hdone

/-- Where a pair is resumed, the checkpoint is of this pair, and says that stocks are left. -/
lemma DownloadRuns.resumePoint_eq_some {pair : Pair} {codes : List Text} {c : SavedCheckpoint}
    {skipped : ℕ} (hresume : s.resumePoint pair codes = some (c, skipped)) :
    c ∈ s.file ∧ (c.market = pair.market.name ∧ c.category = pair.category.dirName ∧
      0 < c.done ∧ c.done < c.total) ∧
      ∃ i, codes.findIdx? (· = c.lastCode) = some i ∧ skipped = i + 1 := by
  obtain ⟨c', hload, hresume⟩ := Option.bind_eq_some_iff.mp hresume
  by_cases hsame : c'.market = pair.market.name ∧ c'.category = pair.category.dirName ∧
      0 < c'.done ∧ c'.done < c'.total
  · rw [if_pos hsame] at hresume
    obtain ⟨i, hfound, hpoint⟩ := Option.map_eq_some_iff.mp hresume
    obtain ⟨rfl, rfl⟩ := Prod.mk.inj hpoint
    exact ⟨(Option.filter_eq_some_iff.mp hload).1, hsame, i, hfound, rfl⟩
  · rw [if_neg hsame] at hresume
    cases hresume

/-- A call whose pairs are all behind it is complete.

**Proof sketch.** With no pair to come and none under way, each pair of the call is covered, which
is what a completed call is to show. -/
lemma DownloadRuns.Grounded.complete (hs : s.Grounded counts stocks) {a : ActiveCall}
    (ha : s.running = some a) (hcurrent : a.current = none) (htodo : a.todo = []) :
    ({ s with running := none, completed := (a.id, a.call) :: s.completed } :
      DownloadRuns).Grounded counts stocks where
  file := hs.file
  running _ hnone := absurd hnone (by simp)
  completed := by
    intro done hdone
    rcases List.mem_cons.mp hdone with rfl | hold
    · intro pair hpair
      rcases (hs.running a ha).pairs pair hpair with htodo' | ⟨p, hp, -⟩ | hcovers
      · simp [htodo] at htodo'
      · simp [hcurrent] at hp
      · exact hcovers
    · exact hs.completed done hold

namespace CountRule

variable (rule : CountRule counts ok)
include rule

/-- One more stock is attempted.

**Proof sketch.** The position moves over the stock that is attempted: the stocks up to it are those
before, which stay dealt with when the history grows (`front_mono`), and this one, whose attempt is
now the last entry of the history. The pairs that were passed before stay covered. -/
lemma grounded_attempt (hs : s.Grounded counts stocks) {a : ActiveCall} (ha : s.running = some a)
    {p : Progress} (hp : a.current = some p) {code : Text} {rest : List Text}
    (hrest : p.rest = code :: rest) : (s.attempt a p code rest).Grounded counts stocks := by
  obtain ⟨codes, hcodes, hprogress⟩ := (hs.running a ha).current p hp
  have hext : (s.attempt a p code rest).history.Extends s.history :=
    ⟨List.subset_cons_self _ _, List.Subset.refl _⟩
  have hdrop : codes.drop (p.skipped + p.index) = code :: rest := by
    rw [← hprogress.rest, hrest]
  have hcode : codes[p.skipped + p.index]? = some code := by
    rw [← List.head?_drop, hdrop]
    rfl
  refine rule.grounded_of_extends hs hext rfl (fun c hc => .inl hc) ?_
  rintro a' ⟨⟩
  refine ⟨fun pair hpair => ?_, ?_⟩
  · rcases (hs.running a ha).pairs pair hpair with htodo | ⟨p', hp', rfl⟩ | hcovers
    · exact .inl htodo
    · obtain rfl : p = p' := Option.some.inj (hp.symm.trans hp')
      exact .inr (.inl ⟨_, rfl, rfl⟩)
    · exact .inr (.inr fun code hcode => rule.covers_mono hext (hcovers code hcode))
  · rintro p' ⟨⟩
    refine ⟨codes, hcodes, ?_, ?_, ?_⟩
    · show rest = codes.drop (p.skipped + (p.index + 1))
      rw [← Nat.add_assoc, ← List.drop_drop, hdrop]
      rfl
    · intro last hlast
      have : last = code := by
        simp only [Option.mem_def] at hlast
        split at hlast
        · exact (Option.some.inj hlast).symm
        · cases hlast
      rw [this, ← hcode]
      congr 1
    · intro c hc
      have hsplit : codes.take (p.skipped + (p.index + 1)) =
          codes.take (p.skipped + p.index) ++ [code] := by
        rw [← Nat.add_assoc, List.take_add_one, hcode]
        rfl
      rw [hsplit] at hc
      rcases List.mem_append.mp hc with hold | hnew
      · exact rule.front_mono hext hprogress.front c hold
      · obtain rfl := List.mem_singleton.mp hnew
        exact ⟨_, List.mem_cons_self, .inl rfl, rfl, rfl, rfl⟩

/-- A checkpoint is written within a market.

**Proof sketch.** The checkpoint names the stock at the position, and the invariant of the running
call says that all stocks up to there are dealt with; a pair is determined by the names of its
market and its category, so that no other pair is meant. -/
lemma grounded_save (hs : s.Grounded counts stocks) {a : ActiveCall} (ha : s.running = some a)
    {p : Progress} (hp : a.current = some p) {code : Text} (hunsaved : p.unsaved = some code) :
    ({ s.saveCheckpoint a p.pair p.skipped code p.index p.total with
        running := some { a with current := some { p with unsaved := none } } } :
      DownloadRuns).Grounded counts stocks := by
  obtain ⟨codes, hcodes, hprogress⟩ := (hs.running a ha).current p hp
  refine rule.grounded_of_extends hs (.refl _) rfl ?_ ?_
  · rintro c ⟨⟩
    refine .inr fun pair codes' hcodes' hmarket hcategory _ _ => ?_
    obtain rfl : p.pair = pair := Pair.ext_names hmarket hcategory
    obtain rfl : codes = codes' := Option.some.inj (hcodes.symm.trans hcodes')
    exact ⟨hprogress.unsaved code hunsaved, hprogress.front⟩
  · rintro a' ⟨⟩
    refine ⟨fun pair hpair => ?_, ?_⟩
    · rcases (hs.running a ha).pairs pair hpair with htodo | ⟨p', hp', rfl⟩ | hcovers
      · exact .inl htodo
      · obtain rfl : p = p' := Option.some.inj (hp.symm.trans hp')
        exact .inr (.inl ⟨_, rfl, rfl⟩)
      · exact .inr (.inr hcovers)
    · rintro p' ⟨⟩
      exact ⟨codes, hcodes, hprogress.rest, fun _ hnone => absurd hnone (by simp),
        hprogress.front⟩

/-- A market is finished: all its stocks are dealt with.

**Proof sketch.** No stock of the market is left, so the position is at or beyond the end, and the
pair is covered (`covers_of_front`). The checkpoint that is written says that it is done, and
promises nothing. -/
lemma grounded_finish (hs : s.Grounded counts stocks) {a : ActiveCall} (ha : s.running = some a)
    {p : Progress} (hp : a.current = some p) (hrest : p.rest = []) :
    ({ s.saveCheckpoint a p.pair p.skipped [] p.total p.total with
        running := some { a with current := none } } : DownloadRuns).Grounded counts stocks := by
  obtain ⟨codes, hcodes, hprogress⟩ := (hs.running a ha).current p hp
  refine rule.grounded_of_extends hs (.refl _) rfl ?_ ?_
  · rintro c ⟨⟩
    exact .inr (SavedCheckpoint.grounded_of_done (lt_irrefl _))
  · rintro a' ⟨⟩
    refine ⟨fun pair hpair => ?_, fun _ hnone => absurd hnone (by simp)⟩
    rcases (hs.running a ha).pairs pair hpair with htodo | ⟨p', hp', rfl⟩ | hcovers
    · exact .inl htodo
    · obtain rfl : p = p' := Option.some.inj (hp.symm.trans hp')
      have hall : codes.length ≤ p.skipped + p.index :=
        List.drop_eq_nil_iff.mp (hprogress.rest.symm.trans hrest)
      refine .inr (.inr fun code hcode => rule.covers_of_front hprogress.front ?_)
      rwa [hcodes, Option.getD_some, ← List.take_of_length_le hall] at hcode
    · exact .inr (.inr hcovers)

/-- A pair is passed over, since its list cannot be fetched or is empty.

**Proof sketch.** The pair passed over has no stocks, so nothing is to be covered for it; the other
pairs are to come or covered as before. -/
lemma grounded_pass (hs : s.Grounded counts stocks) {a : ActiveCall} (ha : s.running = some a)
    (hcurrent : a.current = none) {pair : Pair} {todo : List Pair} (htodo : a.todo = pair :: todo)
    (hempty : (stocks pair.market).getD [] = []) {s' : DownloadRuns}
    (hhistory : s'.history = s.history) (hcompleted : s'.completed = s.completed)
    (hrunning : s'.running = some { a with todo := todo })
    (hfile : ∀ c ∈ s'.file, c ∈ s.file ∨ ¬ c.done < c.total) : s'.Grounded counts stocks := by
  refine rule.grounded_of_extends hs (hhistory ▸ .refl _) hcompleted
    (fun c hc => (hfile c hc).imp_right SavedCheckpoint.grounded_of_done) ?_
  rw [hrunning, hhistory]
  rintro a' ⟨⟩
  refine ⟨fun pair' hpair => ?_, fun p hp => absurd hp (by simp [hcurrent])⟩
  rcases (hs.running a ha).pairs pair' hpair with hmem | ⟨p, hp, -⟩ | hcovers
  · rw [htodo] at hmem
    rcases List.mem_cons.mp hmem with rfl | hmem
    · exact .inr (.inr fun code hcode => absurd hcode (by simp [hempty]))
    · exact .inl hmem
  · simp [hcurrent] at hp
  · exact .inr (.inr hcovers)

/-- A pair is begun, at its first stock or at the one behind a checkpoint.

**Proof sketch.** The pair that was the next one is now under way, and the history of its stocks up
to the first one to do is given. What was covered stays so, since the history only grows. -/
lemma grounded_begin (hs : s.Grounded counts stocks) {a : ActiveCall} (ha : s.running = some a)
    (hcurrent : a.current = none) {pair : Pair} {todo : List Pair} (htodo : a.todo = pair :: todo)
    {codes : List Text} (hcodes : stocks pair.market = some codes) {skipped : ℕ} {h : History}
    (hext : h.Extends s.history)
    (hfront : h.Front counts a.id a.call.settings pair codes skipped skipped) :
    ({ s.beginPair a pair todo codes skipped with history := h } :
      DownloadRuns).Grounded counts stocks := by
  refine rule.grounded_of_extends hs hext rfl (fun c hc => .inl hc) ?_
  rintro a' ⟨⟩
  refine ⟨fun pair' hpair => ?_, ?_⟩
  · rcases (hs.running a ha).pairs pair' hpair with hmem | ⟨p, hp, -⟩ | hcovers
    · rw [htodo] at hmem
      rcases List.mem_cons.mp hmem with rfl | hmem
      · exact .inr (.inl ⟨_, rfl, rfl⟩)
      · exact .inl hmem
    · simp [hcurrent] at hp
    · exact .inr (.inr fun code hcode => rule.covers_mono hext (hcovers code hcode))
  · rintro p ⟨⟩
    exact ⟨codes, hcodes, rfl, fun _ hnone => absurd hnone (by simp), hfront⟩

/-- The next pair: passed over, begun at its first stock, or resumed.

**Proof sketch.** A market without stocks is covered as it is. Without a checkpoint to resume from,
the pair begins at its first stock, with nothing dealt with yet. With one, the step is guarded: the
checkpoint is good and of the same settings, so the stocks that are passed over are dealt with
(`front_resumed`). -/
lemma grounded_enter (hs : s.Grounded counts stocks) (hok : s.ResumesOwn stocks ok .advance)
    {a : ActiveCall} (ha : s.running = some a) (hcurrent : a.current = none) {pair : Pair}
    {todo : List Pair} (htodo : a.todo = pair :: todo) :
    (s.enterPair stocks a pair todo).Grounded counts stocks := by
  unfold DownloadRuns.enterPair
  rcases hcodes : stocks pair.market with _ | _ | ⟨code, codes⟩
  · refine rule.grounded_pass hs ha hcurrent htodo (by rw [hcodes]; rfl) rfl rfl rfl ?_
    rintro c ⟨⟩
    exact .inr (lt_irrefl _)
  · exact rule.grounded_pass hs ha hcurrent htodo (by rw [hcodes]; rfl) rfl rfl rfl fun c hc =>
      .inl hc
  · rcases hresume : s.resumePoint pair (code :: codes) with _ | ⟨c, skipped⟩
    · simp only [hresume]
      exact rule.grounded_begin hs ha hcurrent htodo hcodes (.refl _)
        fun _ hnone => absurd hnone (by simp)
    · simp only [hresume]
      obtain ⟨hc, ⟨hmarket, hcategory, hpos, hlt⟩, i, hfound, rfl⟩ :=
        DownloadRuns.resumePoint_eq_some hresume
      have hresuming : (a, c) ∈ s.resuming stocks := by
        simp [DownloadRuns.resuming, ha, hcurrent, htodo, hcodes, hresume]
      obtain ⟨hsettings, hgood⟩ := hok rfl (a, c) hresuming
      refine rule.grounded_begin hs ha hcurrent htodo hcodes
        ⟨List.Subset.refl _, List.subset_cons_self _ _⟩ ?_
      rw [← show c.settings = a.call.settings from hsettings]
      exact rule.front_resumed hgood (hs.file c hc) hcodes hmarket hcategory hpos hlt hfound a.id

/-- **Every step keeps the invariant** if a call resumes only good checkpoints of its own
settings.

**Proof sketch.** One lemma for each thing a call can do next; the invariant carries the pairs it
has passed and the position in the present one. An interrupted call leaves the checkpoint as it was
written, and a torn file promises nothing. -/
theorem grounded_step (s : DownloadRuns) (e : RunEvent) (s' : DownloadRuns)
    (hs : s.Grounded counts stocks) (hok : s.ResumesOwn stocks ok e)
    (hstep : DownloadRuns.step stocks s e = some s') : s'.Grounded counts stocks := by
  cases e with
  | start call =>
    obtain ⟨-, rfl⟩ := Option.ite_none_right_eq_some.mp hstep |>.imp_right Option.some.inj
    refine rule.grounded_of_extends hs (.refl _) rfl (fun c hc => .inl hc) ?_
    rintro a ⟨⟩
    exact ⟨fun pair hpair => .inl hpair, fun p hp => absurd hp (by simp)⟩
  | advance =>
    obtain ⟨a, ha, rfl⟩ := Option.map_eq_some_iff.mp hstep
    unfold DownloadRuns.advance
    rcases hcurrent : a.current with _ | p
    · rcases htodo : a.todo with _ | ⟨pair, todo⟩
      · exact hs.complete ha hcurrent htodo
      · exact rule.grounded_enter hs hok ha hcurrent htodo
    · rcases hunsaved : p.unsaved with _ | code
      · rcases hrest : p.rest with _ | ⟨code, rest⟩
        · simp only [hunsaved, hrest]
          exact rule.grounded_finish hs ha hcurrent hrest
        · simp only [hunsaved, hrest]
          exact rule.grounded_attempt hs ha hcurrent hrest
      · simp only [hunsaved]
        exact rule.grounded_save hs ha hcurrent hunsaved
  | interrupt =>
    obtain ⟨a, -, rfl⟩ := Option.map_eq_some_iff.mp hstep
    exact ⟨hs.file, fun _ hnone => absurd hnone (by simp), hs.completed⟩
  | tear =>
    obtain ⟨a, -, rfl⟩ := Option.map_eq_some_iff.mp hstep
    exact ⟨fun _ hnone => absurd hnone (by simp), fun _ hnone => absurd hnone (by simp),
      hs.completed⟩
  | wait microseconds =>
    obtain rfl := Option.some.inj hstep
    exact ⟨hs.file, hs.running, hs.completed⟩

/-- After every run in which a call resumes only good checkpoints of its own settings, the
completed calls have skipped nothing. -/
theorem skipsNothing {events : List RunEvent}
    (hrun : Transition.run (DownloadRuns.step stocks) .init events = some s)
    (hguard : Transition.Guarded (DownloadRuns.step stocks) (DownloadRuns.ResumesOwn stocks ok)
      .init events) : s.SkipsNothing stocks counts := by
  have hinit : DownloadRuns.init.Grounded counts stocks :=
    ⟨fun _ hnone => absurd hnone (by simp [DownloadRuns.init]),
      fun _ hnone => absurd hnone (by simp [DownloadRuns.init]),
      fun _ hnone => absurd hnone (by simp [DownloadRuns.init])⟩
  exact (Transition.run_invariant_of_guarded
    (fun s e s' => rule.grounded_step s e s') hinit hguard hrun).completed

end CountRule

/-- **Resuming skips nothing that is due**, after any calls with any interruptions, as long as a
call resumes only checkpoints that were written under its own settings. If the writers of these had
begun the market at its first stock, then every stock of a completed call has been attempted under
its settings by the call or by one whose checkpoint it resumed; in any case by one from which it
goes on, directly or through further checkpoints.

**Proof sketch.** The invariant holds at first, since there is neither a file nor a call, and
`grounded_step` keeps it through every guarded run. Of a state it gives what is claimed of the calls
that have completed. -/
theorem resume_skips_nothing (stocks : Market → Option (List Text)) (events : List RunEvent)
    (s : DownloadRuns) (hrun : Transition.run (DownloadRuns.step stocks) .init events = some s) :
    (Transition.Guarded (DownloadRuns.step stocks)
        (DownloadRuns.ResumesOwn stocks fun c => c.skipped = 0) .init events →
      s.SkipsNothing stocks DirectlyResumed) ∧
    (Transition.Guarded (DownloadRuns.step stocks)
        (DownloadRuns.ResumesOwn stocks fun _ => True) .init events →
      s.SkipsNothing stocks EventuallyResumed) :=
  ⟨countRule_directly.skipsNothing hrun, countRule_eventually.skipsNothing hrun⟩

/-! ## A call with another format -/

/-- Sixty stocks in Shanghai. -/
def sixtyStocks : Market → Option (List Text)
  | .sh => some ((List.range 60).map fun n => [Char.ofNat (48 + n / 10), Char.ofNat (48 + n % 10)])
  | _ => some []

/-- The daily bars of Shanghai in a format. -/
def shanghaiDaily (format : Format) : RunCall :=
  ⟨⟨⟨format, 0⟩, none, none⟩, some [.name "sh".toList], none⟩

/-- A call is interrupted after its first checkpoint, and a second one runs to its end. -/
def interruptedThen (first second : RunCall) : List RunEvent :=
  .start first :: List.replicate 52 .advance ++
    .interrupt :: .start second :: List.replicate 13 .advance

/-- A second call with the settings of the first attempts the ten stocks that are left, and the
first has attempted the others. -/
theorem resume_skips_nothing_same_settings :
    ∃ s, Transition.run (DownloadRuns.step sixtyStocks) .init
        (interruptedThen (shanghaiDaily .tdx) (shanghaiDaily .tdx)) = some s ∧
      s.completed ≠ [] ∧ s.SkipsNothing sixtyStocks DirectlyResumed ∧
      s.SkipsNothing sixtyStocks EventuallyResumed := by
  have hsome : (Transition.run (DownloadRuns.step sixtyStocks) .init
      (interruptedThen (shanghaiDaily .tdx) (shanghaiDaily .tdx))).any
        (fun s => s.completed ≠ []) = true := by
    decide +kernel
  obtain ⟨s, hrun, hcompleted⟩ := (Option.any_eq_true _ _).mp hsome
  obtain ⟨hdirectly, heventually⟩ := resume_skips_nothing sixtyStocks _ s hrun
  exact ⟨s, hrun, of_decide_eq_true hcompleted, hdirectly (by decide +kernel),
    heventually (by decide +kernel)⟩

/-- **A call with another format skips stocks.** The first call writes fifty stocks in the format of
the terminal and is interrupted; the second one asks for text files, completes, and has made none
for these fifty, and no other call has. -/
theorem resume_skips_other_settings :
    ∃ s, Transition.run (DownloadRuns.step sixtyStocks) .init
        (interruptedThen (shanghaiDaily .tdx) (shanghaiDaily .csv)) = some s ∧
      ¬ s.SkipsNothing sixtyStocks DirectlyResumed := by
  have hsome : (Transition.run (DownloadRuns.step sixtyStocks) .init
      (interruptedThen (shanghaiDaily .tdx) (shanghaiDaily .csv))).any
        (fun s => ¬ s.SkipsNothing sixtyStocks DirectlyResumed) = true := by
    decide +kernel
  obtain ⟨s, hrun, hskips⟩ := (Option.any_eq_true _ _).mp hsome
  exact ⟨s, hrun, of_decide_eq_true hskips⟩

end Tdxrs
