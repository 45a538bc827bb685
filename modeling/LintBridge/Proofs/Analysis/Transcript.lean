import LintBridge.Proofs.Analysis.Books

/-! What can pass between a run and its worker.  A run says nothing, or it stores the configuration
of the linter and asks for the worker; if that is running, the files are gone through in exchanges,
each of which begins with the question whether the worker is alive.  `IsTalk` follows the loop over
the files and `IsDialogue` the whole run. -/

namespace LintBridge.Analysis

variable {σ : Type}

/-! ### The transcript -/

/-- Whether an event is a call to the worker. -/
def Event.isCall : Event → Bool
  | .startedWorker _ | .tookNotices _ | .askedCommand _ | .askedAlive _ | .askedAnalysis _ _ => true
  | _ => false

/-- Whether an event is a call to the worker, or one that decides what the worker is asked: the
configuration of the linter is stored, or a text is read. -/
def Event.isTranscribed : Event → Bool
  | .storedConfig _ _ _ | .readText _ _ => true
  | e => e.isCall

def Run.transcript (r : Run σ) : List Event := r.events.filter Event.isTranscribed

def callsIn (events : List Event) : List Event := events.filter Event.isCall

/-- The calls of a run to its worker, in order. -/
def Run.calls (r : Run σ) : List Event := callsIn r.events

/-- The notices of the worker among some events. -/
def noticesIn (events : List Event) : List String :=
  events.flatMap fun e => match e with
    | .tookNotices texts => texts
    | _ => []

def requestsIn (events : List Event) : List Request :=
  events.filterMap fun e => match e with
    | .askedAnalysis request _ => some request
    | _ => none

/-- What came of asking for the worker, among some events. -/
def startsIn (events : List Event) : List (Except Worker.Error Unit) :=
  events.filterMap fun e => match e with
    | .startedWorker result => some result
    | _ => none

def Run.starts (r : Run σ) : List (Except Worker.Error Unit) := startsIn r.events

/-- Whether an event is part of what passes for one file. -/
def Event.isExchanged : Event → Bool
  | .askedAlive _ | .readText _ _ | .askedAnalysis _ _ => true
  | _ => false

section Transcribed

variable (r : Run σ)

theorem callsIn_transcript : callsIn r.transcript = r.calls := by
  have within : ∀ e : Event, (e.isCall && e.isTranscribed) = e.isCall := by
    intro e
    cases e <;> rfl
  simp only [callsIn, Run.transcript, Run.calls, List.filter_filter, within]

theorem filterMap_transcript {α : Type} {f : Event → Option α}
    (h : ∀ e, e.isTranscribed = false → f e = none) :
    r.transcript.filterMap f = r.events.filterMap f := by
  rw [Run.transcript, List.filterMap_filter]
  congr 1
  funext e
  cases transcribed : e.isTranscribed with
  | false => rw [if_neg Bool.false_ne_true, h e transcribed]
  | true => rw [if_pos rfl]

theorem requestsIn_transcript : requestsIn r.transcript = r.requests :=
  filterMap_transcript r fun e aside => by cases e <;> first | rfl | cases aside

theorem startsIn_transcript : startsIn r.transcript = r.starts :=
  filterMap_transcript r fun e aside => by cases e <;> first | rfl | cases aside

end Transcribed

/-! ### What can be said -/

/-- What passes between a run and its worker for one file that it asks to be analyzed. -/
structure Exchange where
  file : SourceFile
  path : Path
  /-- What came of reading the text of the file, if that was tried. -/
  reading : Option (Except String String)
  /-- What the worker answered, unless the analysis was aborted. -/
  answer : Option (Except Worker.Error Outcome)

namespace Exchange

def place (x : Exchange) : SourceFile × Path := (x.file, x.path)

/-- The text that is sent along, which is the one that was read. -/
def text? (x : Exchange) : Option String := x.reading.bind Except.toOption

def request (config : Path) (x : Exchange) : Request := ⟨x.path, x.text?, config⟩

def isAnswered (x : Exchange) : Bool :=
  match x.answer with
  | some (.ok _) => true
  | _ => false

/-- What is said for a file once the worker has said that it is alive. -/
def inquiry (config : Path) (x : Exchange) : List Event :=
  x.reading.toList.map (.readText x.file) ++ [.askedAnalysis (x.request config) x.answer]

def events (config : Path) (x : Exchange) : List Event :=
  .askedAlive (some true) :: x.inquiry config

/-- The text of the file is read if it is to be sent, and only then. -/
def IsRead (options : Options) (x : Exchange) : Prop :=
  x.reading.isSome = options.contentPolicy.sends options.mode x.file

theorem text?_eq_some {x : Exchange} {text : String} :
    x.text? = some text ↔ x.reading = some (.ok text) := by
  match h : x.reading with
  | none | some (.error _) | some (.ok _) => simp [text?, h, Except.toOption]

theorem IsRead.sends {options : Options} {x : Exchange} (read : x.IsRead options)
    {reading : Except String String} (h : x.reading = some reading) :
    options.contentPolicy.sends options.mode x.file = true := by
  rw [← read, h]
  rfl

end Exchange

/-- What is said while files are gone through: exchanges that are answered, and at the end perhaps
one that is not, or a question whether the worker is alive that no analysis follows. -/
inductive IsTalk (config : Path) : List Exchange → List Event → Prop
  | nothing : IsTalk config [] []
  | unasked (alive : Option Bool) : IsTalk config [] [.askedAlive alive]
  | withheld (file : SourceFile) (reading : Except String String) :
      IsTalk config [] [.askedAlive (some true), .readText file reading]
  | unanswered {x : Exchange} (h : x.isAnswered = false) : IsTalk config [x] (x.events config)
  | answered {x : Exchange} {xs : List Exchange} {events : List Event} (h : x.isAnswered = true)
      (rest : IsTalk config xs events) : IsTalk config (x :: xs) (x.events config ++ events)

/-- What is said in a run that stores a text as the configuration of the linter. -/
inductive IsDialogue (config : Path) (text : String) : List Exchange → List Event → Prop
  | silent : IsDialogue config text [] []
  | unstored (fault : Fault) : IsDialogue config text [] [.storedConfig config text (.error fault)]
  | unstarted {e : Worker.Error} (notices : List String) (h : e.isStartupFailure = false) :
      IsDialogue config text []
        [.storedConfig config text (.ok ()), .startedWorker (.error e), .tookNotices notices]
  /-- Where a start has failed it is asked which command was tried. -/
  | failedStart {e : Worker.Error} (notices : List String) (info : Option String)
      (h : e.isStartupFailure = true) :
      IsDialogue config text []
        [.storedConfig config text (.ok ()), .startedWorker (.error e), .tookNotices notices,
          .askedCommand info]
  | started (notices : List String) {xs : List Exchange} {events : List Event}
      (talk : IsTalk config xs events) :
      IsDialogue config text xs
        (.storedConfig config text (.ok ()) :: .startedWorker (.ok ()) :: .tookNotices notices ::
          events)

/-! ### What follows from it -/

/-- Each analysis that is asked for comes right after the worker has said that it is alive. -/
def AliveFirst (calls : List Event) : Prop :=
  ∀ before request answer after, calls = before ++ .askedAnalysis request answer :: after →
    ∃ earlier, before = earlier ++ [.askedAlive (some true)]

def Event.isAnalysis : Event → Bool
  | .askedAnalysis _ _ => true
  | _ => false

theorem aliveFirst_nil : AliveFirst [] := by
  intro before request answer after split
  simp at split

theorem AliveFirst.cons {e : Event} {calls : List Event} (h : AliveFirst calls)
    (other : e.isAnalysis = false) : AliveFirst (e :: calls) := by
  intro before request answer after split
  cases before with
  | nil =>
    obtain ⟨rfl, -⟩ := List.cons.inj split
    cases other
  | cons b before =>
    obtain ⟨earlier, rfl⟩ := h before request answer after (List.cons.inj split).2
    exact ⟨b :: earlier, rfl⟩

theorem AliveFirst.pair {request : Request} {answer : Option (Except Worker.Error Outcome)}
    {calls : List Event} (h : AliveFirst calls) :
    AliveFirst (.askedAlive (some true) :: .askedAnalysis request answer :: calls) := by
  intro before request' answer' after split
  match before with
  | [] => cases (List.cons.inj split).1
  | [alive] =>
    obtain ⟨rfl, -⟩ := List.cons.inj split
    exact ⟨[], rfl⟩
  | alive :: asked :: before =>
    have rest := (List.cons.inj (List.cons.inj split).2).2
    obtain ⟨earlier, rfl⟩ := h before request' answer' after rest
    exact ⟨alive :: asked :: earlier, rfl⟩

section Read

variable {config : Path} {text : String} {xs : List Exchange} {events : List Event}

theorem callsIn_exchange (x : Exchange) :
    callsIn (x.events config) =
      [.askedAlive (some true), .askedAnalysis (x.request config) x.answer] := by
  cases read : x.reading <;>
    simp [callsIn, Exchange.events, Exchange.inquiry, Event.isCall, List.filter_cons, read]

theorem isExchanged_exchange (x : Exchange) : ∀ e ∈ x.events config, e.isExchanged = true := by
  cases read : x.reading <;> simp [Event.isExchanged, Exchange.events, Exchange.inquiry, read]

theorem requestsIn_exchange (x : Exchange) :
    requestsIn (x.events config) = [x.request config] := by
  cases read : x.reading <;> simp [requestsIn, Exchange.events, Exchange.inquiry, read]

theorem IsTalk.aliveFirst (talk : IsTalk config xs events) : AliveFirst (callsIn events) := by
  induction talk with
  | nothing => exact aliveFirst_nil
  | unasked alive => exact aliveFirst_nil.cons rfl
  | withheld file reading => exact aliveFirst_nil.cons rfl
  | unanswered h =>
    rw [callsIn_exchange]
    exact aliveFirst_nil.pair
  | answered h rest ih =>
    rw [callsIn, List.filter_append, ← callsIn, ← callsIn, callsIn_exchange]
    exact ih.pair

theorem IsTalk.requests (talk : IsTalk config xs events) :
    requestsIn events = xs.map (Exchange.request config) := by
  induction talk with
  | nothing => rfl
  | unasked alive => rfl
  | withheld file reading => rfl
  | unanswered h => exact requestsIn_exchange _
  | answered h rest ih =>
    rw [requestsIn, List.filterMap_append, ← requestsIn, ← requestsIn, requestsIn_exchange, ih]
    rfl

/-- Nothing but exchanges is part of a talk. -/
theorem IsTalk.exchanged (talk : IsTalk config xs events) : ∀ e ∈ events, e.isExchanged = true := by
  induction talk with
  | nothing => exact fun _ member => (List.not_mem_nil member).elim
  | unasked alive => simp [Event.isExchanged]
  | withheld file reading => simp [Event.isExchanged]
  | unanswered h => exact isExchanged_exchange _
  | answered h rest ih =>
    intro e member
    exact (List.mem_append.mp member).elim (isExchanged_exchange _ e) (ih e)

theorem IsTalk.notices (talk : IsTalk config xs events) : noticesIn events = [] := by
  refine List.flatMap_eq_nil_iff.mpr fun e member => ?_
  have exchanged := talk.exchanged e member
  cases e <;> first | rfl | cases exchanged

theorem IsTalk.starts (talk : IsTalk config xs events) : startsIn events = [] := by
  refine List.filterMap_eq_nil_iff.mpr fun e member => ?_
  have exchanged := talk.exchanged e member
  cases e <;> first | rfl | cases exchanged

theorem IsDialogue.aliveFirst (dialogue : IsDialogue config text xs events) :
    AliveFirst (callsIn events) := by
  cases dialogue with
  | silent => exact aliveFirst_nil
  | unstored fault => exact aliveFirst_nil
  | unstarted notices h => exact (aliveFirst_nil.cons rfl).cons rfl
  | failedStart notices info h => exact ((aliveFirst_nil.cons rfl).cons rfl).cons rfl
  | started notices talk => exact (talk.aliveFirst.cons rfl).cons rfl

theorem IsDialogue.requests (dialogue : IsDialogue config text xs events) :
    requestsIn events = xs.map (Exchange.request config) := by
  cases dialogue with
  | started notices talk => exact talk.requests
  | _ => rfl

end Read

end LintBridge.Analysis
