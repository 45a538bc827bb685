import LintBridge.Proofs.Worker.Callers

/-! The notices of a supervisor.  Its ledger holds what its callers were told of them, what is still
pending, and its starts, each with the runtime that passed its check, if it came to that.  A start
makes one notice at most, since it checks the runtime once: at the points before that, the last
start of the ledger has no runtime yet.  So what was told and what is pending are at any moment the
notices of all starts, in order: `balances_run`, for any number of callers, and
`Supervised.balances_perform`. -/

namespace LintBridge.Worker

variable {σ : Type}

/-! ### The ledger -/

structure Ledger where
  told : List String
  pending : List String
  starts : List (Option CheckedRuntime)
  /-- How many starts have begun. -/
  begun : Nat
  /-- The runtimes that passed a check, in order. -/
  passed : List CheckedRuntime

namespace Event

/-- The notices that a caller took. -/
def told : Event → List String
  | .tookNotices texts => texts
  | _ => []

/-- Whether a start begins. -/
def begins : Event → Bool
  | .deployed _ => true
  | _ => false

/-- The runtime that passed a check. -/
def passed? : Event → Option CheckedRuntime
  | .checkedRuntime (.ok r) => some r
  | _ => none

/-- The starts once an event is entered: a start begins with the deployment of the worker program,
and its runtime is entered once it has passed its check. -/
def enterStart (starts : List (Option CheckedRuntime)) : Event → List (Option CheckedRuntime)
  | .deployed _ => starts ++ [none]
  | .checkedRuntime (.ok r) => starts.dropLast ++ [some r]
  | _ => starts

/-- Whether nothing is entered for an event. -/
def isUnentered : Event → Bool
  | .deployed _ | .checkedRuntime (.ok _) | .tookNotices _ => false
  | _ => true

theorem told_of_isUnentered {e : Event} (h : e.isUnentered = true) : e.told = [] := by
  cases e <;> first | rfl | cases h

theorem begins_of_isUnentered {e : Event} (h : e.isUnentered = true) : e.begins = false := by
  cases e <;> first | rfl | cases h

theorem passed?_of_isUnentered {e : Event} (h : e.isUnentered = true) : e.passed? = none := by
  unfold passed?
  split
  · cases h
  · rfl

theorem enterStart_of_isUnentered {e : Event} (h : e.isUnentered = true)
    (starts : List (Option CheckedRuntime)) : e.enterStart starts = starts := by
  unfold enterStart
  split
  · cases h
  · cases h
  · rfl

end Event

/-- The notices that callers took, in order. -/
def toldIn (history : List Event) : List String := history.flatMap Event.told

/-- The starts in a history, in order. -/
def startsOf (history : List Event) : List (Option CheckedRuntime) :=
  history.foldl Event.enterStart []

/-- The notices of starts: one for each whose runtime passed the check and is deprecated. -/
def noticesOf (starts : List (Option CheckedRuntime)) : List String :=
  starts.filterMap fun start => start.bind CheckedRuntime.notice?

theorem noticesOf_concat (starts : List (Option CheckedRuntime)) (start : Option CheckedRuntime) :
    noticesOf (starts ++ [start]) =
      noticesOf starts ++ (start.bind CheckedRuntime.notice?).toList := by
  cases told : start.bind CheckedRuntime.notice? <;> simp [noticesOf, told]

namespace Ledger

/-- Some texts were told, and with what is pending they are the notices of the starts; there are as
many starts as have begun, and they have the runtimes that passed a check. -/
structure Balances (texts : List String) (l : Ledger) : Prop where
  told : l.told = texts
  balance : texts ++ l.pending = noticesOf l.starts
  begun : l.starts.length = l.begun
  passed : l.starts.filterMap id = l.passed

/-- The last start has not come to the check of its runtime. -/
def IsUnchecked (l : Ledger) : Prop := l.starts.getLast? = some none

/-- The ledger once an event is entered that leaves the pending notices as they are. -/
def enter (l : Ledger) (e : Event) : Ledger where
  told := l.told ++ e.told
  pending := l.pending
  starts := e.enterStart l.starts
  begun := l.begun + if e.begins = true then 1 else 0
  passed := l.passed ++ e.passed?.toList

def begin (l : Ledger) : Ledger :=
  { l with starts := l.starts ++ [none], begun := l.begun + 1 }

/-- The last start has found its runtime, and what there is to be said about it is pending. -/
def check (l : Ledger) (r : CheckedRuntime) : Ledger :=
  { l with
    pending := l.pending ++ r.notice?.toList
    starts := l.starts.dropLast ++ [some r]
    passed := l.passed ++ [r] }

/-- What else there is to be said is pending. -/
def await (l : Ledger) (texts : List String) : Ledger := { l with pending := l.pending ++ texts }

def take (l : Ledger) : Ledger := { l with told := l.told ++ l.pending, pending := [] }

variable {texts : List String} {l : Ledger}

theorem enter_of_isUnentered (l : Ledger) {e : Event} (h : e.isUnentered = true) :
    l.enter e = l := by
  simp [enter, Event.told_of_isUnentered h, Event.enterStart_of_isUnentered h,
    Event.begins_of_isUnentered h, Event.passed?_of_isUnentered h]

theorem enter_deployed (l : Ledger) (found : Bool) : l.enter (.deployed found) = l.begin := by
  simp [enter, begin, Event.told, Event.enterStart, Event.begins, Event.passed?]

theorem await_enter_checked (l : Ledger) (r : CheckedRuntime) :
    (l.enter (.checkedRuntime (.ok r))).await r.notice?.toList = l.check r := by
  simp [enter, await, check, Event.told, Event.enterStart, Event.begins, Event.passed?]

theorem Balances.begin (h : l.Balances texts) : l.begin.Balances texts := by
  refine ⟨h.told, ?_, ?_, ?_⟩
  · rw [Ledger.begin, noticesOf_concat, ← h.balance]
    exact (List.append_nil _).symm
  · rw [Ledger.begin, List.length_append, h.begun]
    rfl
  · rw [Ledger.begin, List.filterMap_append, h.passed]
    exact List.append_nil _

theorem isUnchecked_begin (l : Ledger) : l.begin.IsUnchecked := List.getLast?_concat

theorem Balances.check (h : l.Balances texts) (unchecked : l.IsUnchecked) (r : CheckedRuntime) :
    (l.check r).Balances texts := by
  obtain ⟨before, split⟩ := List.getLast?_eq_some_iff.mp unchecked
  obtain ⟨told, balance, begun, passed⟩ := h
  rw [split] at balance begun passed
  rw [noticesOf_concat] at balance
  have balance : texts ++ l.pending = noticesOf before := balance.trans (List.append_nil _)
  have passed : before.filterMap id = l.passed := by simpa using passed
  refine ⟨told, ?_, ?_, ?_⟩ <;> rw [Ledger.check, split, List.dropLast_concat]
  · rw [noticesOf_concat, ← balance, List.append_assoc]
    rfl
  · rw [← begun, List.length_append, List.length_append]
    rfl
  · rw [List.filterMap_append, passed]
    rfl

theorem Balances.take (h : l.Balances texts) : l.take.Balances (texts ++ l.pending) := by
  refine ⟨congrArg (· ++ l.pending) h.told, ?_, h.begun, h.passed⟩
  rw [Ledger.take, List.append_nil]
  exact h.balance

end Ledger

namespace Supervised

def ledger (s : Supervised σ) : Ledger where
  told := toldIn s.history
  pending := s.supervisor.notices
  starts := startsOf s.history
  begun := s.history.countP Event.begins
  passed := s.history.filterMap Event.passed?

variable (p : Platform σ) (s : Supervised σ)

/-! ### What leaves the ledger as it is -/

theorem ledger_note (e : Event) : (s.note e).ledger = s.ledger.enter e := by
  cases passed : e.passed? <;>
    simp [ledger, note, toldIn, startsOf, Ledger.enter, List.countP_append, List.countP_singleton,
      passed]

theorem ledger_note_unentered (world : σ) {e : Event} (h : e.isUnentered = true) :
    ({ s with world }.note e).ledger = s.ledger :=
  (ledger_note _ e).trans (Ledger.enter_of_isUnentered _ h)

@[simp] theorem ledger_log (level : Log.Level) (text : String)
    (fields : List (String × Log.FieldValue)) : (s.log level text fields).ledger = s.ledger :=
  ledger_note_unentered s s.world rfl

@[simp] theorem ledger_setPhase (phase : Phase) : (s.setPhase phase).ledger = s.ledger := rfl

@[simp] theorem ledger_setWorker (worker : Option Held) : (s.setWorker worker).ledger = s.ledger :=
  rfl

@[simp] theorem ledger_ask (worker : Held) (call : Call) :
    (s.ask p worker call).2.ledger = s.ledger :=
  ledger_note_unentered s _ rfl

@[simp] theorem ledger_choosePort : (s.choosePort p).2.ledger = s.ledger :=
  ledger_note_unentered s _ rfl

@[simp] theorem ledger_checkEntry : (s.checkEntry p).2.ledger = s.ledger :=
  ledger_note_unentered s _ rfl

@[simp] theorem ledger_makeClient (port : Nat) : (s.makeClient p port).2.ledger = s.ledger :=
  ledger_note_unentered s _ rfl

@[simp] theorem ledger_kill (process : ProcessId) : (s.kill p process).ledger = s.ledger :=
  ledger_note_unentered s _ rfl

@[simp] theorem ledger_launch (command : Command) : (s.launch p command).2.ledger = s.ledger := by
  unfold launch
  dsimp only
  split <;> exact (ledger_note _ _).trans (Ledger.enter_of_isUnentered _ rfl)

@[simp] theorem ledger_awaitListener (process : ProcessId) (port : Nat) :
    (s.awaitListener p process port).2.ledger = s.ledger := by
  cases came : (p.awaitStartup process port s.supervisor.options.timeout s.world).1 <;>
    simp only [awaitListener, came, ledger_log] <;>
    exact ledger_note_unentered s _ rfl

@[simp] theorem ledger_giveUp (worker : Held) : (s.giveUp p worker).ledger = s.ledger := by
  rw [giveUp, ledger_log, ledger_setWorker, ledger_note_unentered s _ rfl]

@[simp] theorem ledger_finish (worker : Held) : (s.finish p worker).ledger = s.ledger := by
  rw [finish, ledger_log, ledger_note_unentered s _ rfl]

@[simp] theorem ledger_reset : s.reset.ledger = s.ledger := by
  unfold reset
  split <;> rfl

@[simp] theorem ledger_settle_error (e : Error) :
    (settle (.error e, s)).2.ledger = s.ledger := by
  simp [settle]

/-! ### What is entered -/

@[simp] theorem ledger_deploy : (s.deploy p).2.ledger = s.ledger.begin := by
  rw [deploy, ledger_note, Ledger.enter_deployed]
  rfl

@[simp] theorem ledger_takeNotices : s.takeNotices.2.ledger = s.ledger.take := by
  rw [takeNotices, ledger_note]
  simp [Ledger.enter, Ledger.take, Event.told, Event.enterStart, Event.begins, Event.passed?,
    ledger]

theorem ledger_notify (text : String) : (s.notify text).ledger = s.ledger.await [text] := by
  rw [notify, ledger_note, Ledger.enter_of_isUnentered _ rfl, ← ledger_log s .warn text []]
  rfl

/-- A runtime that was checked is entered if it has passed. -/
theorem ledger_checkedProgram (command : String) :
    (s.checkedProgram p command).2.ledger = s.ledger ∨
      ∃ r, (s.checkedProgram p command).2.ledger = s.ledger.check r := by
  cases checked : (p.checkRuntime command s.world).1 with
  | error e =>
    simp only [checkedProgram, checked]
    exact .inl (ledger_note_unentered s _ rfl)
  | ok r =>
    refine .inr ⟨r, ?_⟩
    simp only [checkedProgram, checked]
    rw [← Ledger.await_enter_checked]
    cases r.notice? with
    | none =>
      rw [Option.elim_none, ledger_note]
      simp [Ledger.await, ledger]
    | some text =>
      rw [Option.elim_some, ledger_notify, ledger_note]
      rfl

theorem ledger_chooseProgram :
    (s.chooseProgram p).2.ledger = s.ledger ∨
      ∃ r, (s.chooseProgram p).2.ledger = s.ledger.check r := by
  unfold chooseProgram
  split
  · exact .inl rfl
  · split
    · exact ledger_checkedProgram p s _
    · exact .inl rfl

end Supervised

/-! ### Steps -/

/-- Whether a start has begun and has not come to the check of its runtime. -/
def Point.isUnchecked : Point → Bool
  | choosingPort | checkingEntry _ | choosingProgram _ => true
  | _ => false

/-- A ledger that balances, and goes with where an operation stands. -/
structure Ledger.Goes (texts : List String) (at? : Option Point) (l : Ledger) : Prop where
  balances : l.Balances texts
  unchecked : ∀ point, at? = some point → point.isUnchecked = true → l.IsUnchecked

theorem Ledger.Balances.goes {texts : List String} {l : Ledger} (h : l.Balances texts)
    {point : Point} (other : point.isUnchecked = false) : l.Goes texts (some point) := by
  refine ⟨h, fun next same unchecked => ?_⟩
  rw [← Option.some.inj same, other] at unchecked
  cases unchecked

theorem Ledger.Balances.goes_none {texts : List String} {l : Ledger} (h : l.Balances texts) :
    l.Goes texts none :=
  ⟨h, nofun⟩

section

variable {p : Platform σ} {s : Supervised σ} {texts : List String}

@[simp] theorem ledger_goOn {α : Type} (next : α → Point) (r : Except Error α × Supervised σ) :
    (Point.goOn next r).2.ledger = r.2.ledger := by
  rcases r with ⟨e | a, t⟩
  · exact Supervised.ledger_settle_error t e
  · rfl

/-- A step that goes on leads to a point that goes with the ledger. -/
theorem goes_goOn {α : Type} {next : α → Point} {r : Except Error α × Supervised σ}
    (balances : r.2.ledger.Balances texts)
    (unchecked : ∀ a, (next a).isUnchecked = true → r.2.ledger.IsUnchecked) :
    (Point.goOn next r).2.ledger.Goes texts (Point.goOn next r).1.point? := by
  rw [ledger_goOn]
  rcases r with ⟨e | a, t⟩
  · exact balances.goes_none
  · refine ⟨balances, fun point same => ?_⟩
    rw [← Option.some.inj same]
    exact unchecked a

theorem goes_checking (h : s.ledger.Balances texts) :
    (Point.checking.step p s).2.ledger.Goes texts (Point.checking.step p s).1.point? := by
  simp only [Point.step]
  by_cases failed : s.supervisor.phase = .failed
  · rw [if_pos failed]
    exact h.goes_none
  rw [if_neg failed]
  cases s.supervisor.worker with
  | none => exact h.goes (show Point.deploying.isUnchecked = false from rfl)
  | some worker =>
    by_cases alive : isAlive (s.ask p worker .status).1.reply? = true
    · simp only [if_pos alive, Point.conclude, Supervised.ledger_setPhase, Supervised.ledger_ask]
      exact h.goes_none
    · simp only [if_neg alive, Supervised.ledger_ask]
      exact h.goes rfl

theorem goes_choosingProgram (port : Nat) (h : s.ledger.Balances texts)
    (unchecked : s.ledger.IsUnchecked) :
    ((Point.choosingProgram port).step p s).2.ledger.Goes texts
      ((Point.choosingProgram port).step p s).1.point? := by
  refine goes_goOn ?_ fun _ early => Bool.noConfusion early
  obtain same | ⟨r, passed⟩ := Supervised.ledger_chooseProgram p s
  · exact same ▸ h
  · exact passed ▸ h.check unchecked r

theorem goes_awaiting (process : ProcessId) (port : Nat) (h : s.ledger.Balances texts) :
    ((Point.awaiting process port).step p s).2.ledger.Goes texts
      ((Point.awaiting process port).step p s).1.point? := by
  have same := Supervised.ledger_awaitListener p s process port
  simp only [Point.step]
  rcases waited : s.awaitListener p process port with ⟨e | worker, t⟩
  · rw [waited] at same
    rw [← same] at h
    exact h.goes (show (Point.clearing process e).isUnchecked = false from rfl)
  · rw [waited] at same
    rw [← same] at h
    exact h.goes_none

theorem goes_stopping (h : s.ledger.Balances texts) :
    (Point.stopping.step p s).2.ledger.Goes texts (Point.stopping.step p s).1.point? := by
  have noted : (s.note .stopped).ledger.Balances texts := by
    have same : (s.note .stopped).ledger = s.ledger :=
      Supervised.ledger_note_unentered s s.world rfl
    exact same ▸ h
  simp only [Point.step]
  cases (s.note .stopped).supervisor.worker with
  | none =>
    simp only [Supervised.ledger_reset]
    exact noted.goes_none
  | some worker => exact noted.goes rfl

/-- A step leads to a ledger that goes with the point to which it leads. -/
theorem goes_step {point : Point} (h : s.ledger.Goes texts (some point)) :
    (point.step p s).2.ledger.Goes texts (point.step p s).1.point? := by
  have balances := h.balances
  have unchecked := h.unchecked point rfl
  cases point with
  | checking => exact goes_checking balances
  | discarding worker =>
    rw [Point.step, Supervised.ledger_giveUp]
    exact balances.goes rfl
  | replacing worker =>
    rw [Point.step, Supervised.ledger_setPhase, Supervised.ledger_kill]
    exact balances.goes rfl
  | deploying =>
    refine goes_goOn ?_ fun _ _ => ?_
    · rw [Supervised.ledger_deploy]
      exact balances.begin
    · rw [Supervised.ledger_deploy]
      exact s.ledger.isUnchecked_begin
  | choosingPort =>
    refine goes_goOn ?_ fun _ _ => ?_ <;> rw [Supervised.ledger_choosePort]
    · exact balances
    · exact unchecked rfl
  | checkingEntry port =>
    refine goes_goOn ?_ fun _ _ => ?_ <;> rw [Supervised.ledger_checkEntry]
    · exact balances
    · exact unchecked rfl
  | choosingProgram port => exact goes_choosingProgram port balances (unchecked rfl)
  | makingClient port program =>
    refine goes_goOn ?_ fun _ early => Bool.noConfusion early
    rw [Supervised.ledger_makeClient]
    exact balances
  | launching port command =>
    refine goes_goOn ?_ fun _ early => Bool.noConfusion early
    rw [Supervised.ledger_launch]
    exact balances
  | awaiting process port => exact goes_awaiting process port balances
  | clearing process e =>
    simp only [Point.step, Point.conclude, Supervised.ledger_settle_error, Supervised.ledger_kill]
    exact balances.goes_none
  | stopping => exact goes_stopping balances
  | closing worker =>
    rw [Point.step, Supervised.ledger_ask]
    exact balances.goes rfl
  | ending worker =>
    rw [Point.step, Supervised.ledger_reset, Supervised.ledger_finish]
    exact balances.goes_none

/-! ### One operation after another -/

theorem Finishes.balances {point : Point} {s s' : Supervised σ} {reply : Reply}
    (finishes : Finishes p point s reply s') (h : s.ledger.Goes texts (some point)) :
    s'.ledger.Balances texts := by
  induction finishes with
  | done step =>
    have goes := goes_step (p := p) h
    rw [step] at goes
    exact goes.balances
  | next step rest ih =>
    have goes := goes_step (p := p) h
    rw [step] at goes
    exact ih goes

/-- The notices that an operation returns. -/
def Reply.told : Reply → List String
  | notices texts => texts
  | _ => []

/-- An operation tells what it returns, and the ledger balances again. -/
theorem Supervised.balances_perform (h : s.ledger.Balances texts) (op : Operation) :
    (s.perform p op).2.ledger.Balances (texts ++ (s.perform p op).1.told) := by
  have silent : ∀ {t : Supervised σ}, t.ledger.Balances texts → t.ledger.Balances (texts ++ []) :=
    fun kept => (List.append_nil texts).symm ▸ kept
  cases op with
  | ensureRunning => exact silent (finishes_checking.balances (h.goes rfl))
  | stop => exact silent (finishes_stopping.balances (h.goes rfl))
  | ask errand =>
    rw [Supervised.perform_ask]
    cases s.supervisor.worker with
    | none => cases errand <;> exact silent h
    | some worker =>
      have asked : (s.ask p worker errand.call).2.ledger.Balances texts := by
        rw [Supervised.ledger_ask]
        exact h
      cases errand <;> exact silent asked
  | state => exact silent h
  | takeNotices =>
    show s.takeNotices.2.ledger.Balances (texts ++ s.ledger.pending)
    rw [Supervised.ledger_takeNotices]
    exact h.take
  | commandInfo => exact silent h

theorem Supervised.balances_fresh (bundle : Bundle) (options : LaunchOptions) (world : σ) :
    (Supervised.fresh bundle options world).ledger.Balances [] :=
  ⟨rfl, rfl, rfl, rfl⟩

end

/-! ### Any number of callers -/

/-- The notices that callers were told, in order. -/
def Crowd.told (c : Crowd σ) : List String := c.replies.flatMap fun r => r.2.told

/-- The ledger balances with what the callers were told. -/
def Crowd.Balances (c : Crowd σ) : Prop := c.server.ledger.Goes c.told c.point?

section

variable {p : Platform σ} {c : Crowd σ}

theorem Crowd.told_tell (c : Crowd σ) (caller : CallerId) (reply : Reply) :
    (c.tell caller reply).told = c.told ++ reply.told := by
  simp [told, tell]

theorem Crowd.Balances.tell (h : c.Balances) (caller : CallerId) {reply : Reply}
    (silent : reply.told = []) : (c.tell caller reply).Balances := by
  have same : (c.tell caller reply).told = c.told := by
    rw [told_tell, silent, List.append_nil]
  rw [Balances, same]
  exact h

theorem balances_read (h : c.Balances) (caller : CallerId) (errand : Errand) :
    (c.read caller errand).Balances := by
  unfold Crowd.read
  cases c.server.supervisor.worker with
  | none => exact h.tell caller (by cases errand <;> rfl)
  | some worker => exact h

/-- Notices can be taken at any point: what was pending has then been told. -/
theorem balances_takeNotices (h : c.Balances) (caller : CallerId) :
    (c.perform p caller .takeNotices).Balances := by
  have taken : (c.server.perform p .takeNotices).2.ledger = c.server.ledger.take :=
    Supervised.ledger_takeNotices c.server
  show (c.server.perform p .takeNotices).2.ledger.Goes (Crowd.tell _ caller _).told c.point?
  rw [Crowd.told_tell, taken]
  exact ⟨h.balances.take, h.unchecked⟩

theorem balances_begin (h : c.Balances) (caller : CallerId) (op : Operation) :
    (c.begin p caller op).Balances := by
  cases op with
  | ensureRunning => exact h.balances.goes rfl
  | stop => exact h.balances.goes rfl
  | ask errand => exact balances_read h caller errand
  | state => exact h.tell caller rfl
  | takeNotices => exact balances_takeNotices (p := p) h caller
  | commandInfo => exact h.tell caller rfl

/-- An operation that keeps the supervisor to itself returns no notices. -/
theorem Advance.told_of_done {point : Point} {t t' : Standing} {reply : Reply}
    (step : Advance point t (.done reply) t') : reply.told = [] := by
  cases step <;> rfl

theorem balances_proceed (h : c.Balances) : (c.proceed p).Balances := by
  rcases held : c.lock with _ | ⟨caller, point⟩
  · rw [proceed_free held]
    exact h
  · rw [Crowd.Balances, Crowd.point?_of_held held] at h
    have goes := goes_step (p := p) h
    rcases stepped : point.step p c.server with ⟨next | reply, server⟩
    · rw [stepped] at goes
      rw [proceed_next held stepped]
      exact goes
    · rw [stepped] at goes
      rw [proceed_done held stepped]
      have ended : ({ c with server, lock := none } : Crowd σ).Balances := goes
      exact ended.tell caller (advance_of_step stepped).told_of_done

theorem balances_answer (h : c.Balances) (caller : CallerId) : (c.answer p caller).Balances := by
  unfold Crowd.answer
  rcases c.pending caller with _ | ⟨worker, errand⟩
  · exact h
  · have asked :
        ({ c with server := (c.server.ask p worker errand.call).2 } : Crowd σ).Balances := by
      rw [Crowd.Balances, Supervised.ledger_ask]
      exact h
    exact Crowd.Balances.tell (c := Crowd.setPending _ caller none) asked caller
      (by cases errand <;> rfl)

theorem balances_move (h : c.Balances) (move : Move) : (c.step p move).Balances := by
  cases move with
  | call caller op =>
    rw [Crowd.step]
    split
    · exact h
    · exact balances_begin h caller op
  | proceed => exact balances_proceed h
  | answer caller => exact balances_answer h caller

/-- In whatever order the callers make their moves, what they were told of the notices and what is
pending balances with the starts. -/
theorem balances_run (p : Platform σ) (bundle : Bundle) (options : LaunchOptions) (world : σ)
    (moves : List Move) : ((Crowd.opened bundle options world).run p moves).Balances :=
  Crowd.run_preserves (P := Crowd.Balances) (fun _ move h => balances_move h move) moves _
    (Supervised.balances_fresh bundle options world).goes_none

end

end LintBridge.Worker
