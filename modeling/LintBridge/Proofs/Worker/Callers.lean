import LintBridge.Proofs.Worker.Steps

/-! Any number of callers of one supervisor.  To make sure that a worker runs, and to stop it, a
caller keeps the supervisor to itself from its first step to its last; the steps of others fall in
between as far as they do not need it.  An errand reads the worker while nobody keeps the
supervisor to itself, and goes out at any later time, whatever has become of that worker.  A run is
a list of moves in any order; a move that cannot be made yet changes nothing.  What happens in the
system by itself does so within the call that comes next.  Where nobody interrupts, the moves of a
caller come to what its operation comes to: `serves`. -/

namespace LintBridge.Worker

variable {σ : Type}

abbrev CallerId := Nat

structure Crowd (σ : Type) where
  server : Supervised σ
  /-- The caller that keeps the supervisor to itself, and where its operation stands. -/
  lock : Option (CallerId × Point) := none
  /-- The errands that are under way, each with the worker that it has read. -/
  pending : CallerId → Option (Held × Errand) := fun _ => none
  replies : List (CallerId × Reply) := []

inductive Move where
  | call (caller : CallerId) (op : Operation)
  /-- The operation that keeps the supervisor to itself makes a step. -/
  | proceed
  /-- The errand of a caller goes out and comes back. -/
  | answer (caller : CallerId)

/-- Whether an operation has to wait while another one keeps the supervisor to itself. -/
def Operation.waits : Operation → Bool
  | takeNotices => false
  | ensureRunning | stop | ask _ | state | commandInfo => true

namespace Crowd

def opened (bundle : Bundle) (options : LaunchOptions) (world : σ) : Crowd σ where
  server := Supervised.fresh bundle options world

def point? (c : Crowd σ) : Option Point := c.lock.map Prod.snd

theorem point?_of_held {c : Crowd σ} {caller : CallerId} {point : Point}
    (held : c.lock = some (caller, point)) : c.point? = some point :=
  congrArg (Option.map Prod.snd) held

theorem point?_of_free {c : Crowd σ} (free : c.lock = none) : c.point? = none :=
  congrArg (Option.map Prod.snd) free

def tell (c : Crowd σ) (caller : CallerId) (reply : Reply) : Crowd σ :=
  { c with replies := c.replies ++ [(caller, reply)] }

def isBusy (c : Crowd σ) (caller : CallerId) : Bool :=
  c.lock.map Prod.fst == some caller || (c.pending caller).isSome

def setPending (c : Crowd σ) (caller : CallerId) (errand : Option (Held × Errand)) : Crowd σ :=
  { c with pending := fun other => if other = caller then errand else c.pending other }

def perform (p : Platform σ) (c : Crowd σ) (caller : CallerId) (op : Operation) : Crowd σ :=
  let (reply, server) := c.server.perform p op
  { c with server }.tell caller reply

/-- Begins an errand: reads the worker to whom it will go. -/
def read (c : Crowd σ) (caller : CallerId) (errand : Errand) : Crowd σ :=
  match c.server.supervisor.worker with
  | none => c.tell caller errand.refusal
  | some worker => c.setPending caller (some (worker, errand))

def begin (p : Platform σ) (c : Crowd σ) (caller : CallerId) (op : Operation) : Crowd σ :=
  match op with
  | .ensureRunning => { c with lock := some (caller, .checking) }
  | .stop => { c with lock := some (caller, .stopping) }
  | .ask errand => c.read caller errand
  | .state | .takeNotices | .commandInfo => c.perform p caller op

def proceed (p : Platform σ) (c : Crowd σ) : Crowd σ :=
  match c.lock with
  | none => c
  | some (caller, point) =>
    match point.step p c.server with
    | (.next point, server) => { c with server, lock := some (caller, point) }
    | (.done reply, server) => { c with server, lock := none }.tell caller reply

def answer (p : Platform σ) (c : Crowd σ) (caller : CallerId) : Crowd σ :=
  match c.pending caller with
  | none => c
  | some (worker, errand) =>
    let (answer, server) := c.server.ask p worker errand.call
    ({ c with server }.setPending caller none).tell caller (errand.reply answer)

def step (p : Platform σ) (c : Crowd σ) : Move → Crowd σ
  | .call caller op =>
    if c.isBusy caller || (op.waits && c.lock.isSome) then c else c.begin p caller op
  | .proceed => c.proceed p
  | .answer caller => c.answer p caller

def run (p : Platform σ) (moves : List Move) (c : Crowd σ) : Crowd σ := moves.foldl (step p) c

@[simp] theorem run_nil (p : Platform σ) (c : Crowd σ) : c.run p [] = c := rfl

@[simp] theorem run_cons (p : Platform σ) (move : Move) (moves : List Move) (c : Crowd σ) :
    c.run p (move :: moves) = (c.step p move).run p moves := rfl

/-- What holds at first and is kept by every move holds after every run. -/
theorem run_preserves {p : Platform σ} {P : Crowd σ → Prop}
    (kept : ∀ c move, P c → P (c.step p move)) (moves : List Move) (c : Crowd σ) (h : P c) :
    P (c.run p moves) := by
  induction moves generalizing c with
  | nil => exact h
  | cons move moves ih => exact ih _ (kept c move h)

end Crowd

/-! ### What a move does -/

/-- Whether an operation ends so that keeps the supervisor to itself. -/
def Reply.isMajor : Reply → Bool
  | ensured _ | stopped => true
  | alive _ | analyzed _ | phase _ | notices _ | command _ => false

/-- What a move does to who keeps the supervisor to itself, to the standing and to the replies. -/
inductive Change (c d : Crowd σ) : Prop
  /-- Nothing of this changes, up to the reply to an operation that needs no step. -/
  | aside (lock : d.lock = c.lock) (standing : d.server.standing = c.server.standing)
      (replies : d.replies = c.replies ∨
        ∃ caller reply, reply.isMajor = false ∧ d.replies = c.replies ++ [(caller, reply)])
  | begun (caller : CallerId) (point : Point) (first : point = .checking ∨ point = .stopping)
      (free : c.lock = none) (lock : d.lock = some (caller, point))
      (standing : d.server.standing = c.server.standing) (replies : d.replies = c.replies)
  | went (caller : CallerId) (point next : Point) (held : c.lock = some (caller, point))
      (advance : Advance point c.server.standing (.next next) d.server.standing)
      (lock : d.lock = some (caller, next)) (replies : d.replies = c.replies)
  | ended (caller : CallerId) (point : Point) (reply : Reply)
      (held : c.lock = some (caller, point))
      (advance : Advance point c.server.standing (.done reply) d.server.standing)
      (lock : d.lock = none) (replies : d.replies = c.replies ++ [(caller, reply)])

section
variable {p : Platform σ} (c : Crowd σ)

theorem Errand.isMajor_refusal (errand : Errand) : errand.refusal.isMajor = false := by
  cases errand <;> rfl

theorem Errand.isMajor_reply (errand : Errand) (answer : Answer) :
    (errand.reply answer).isMajor = false := by
  cases errand <;> rfl

theorem read_changes (caller : CallerId) (errand : Errand) : Change c (c.read caller errand) := by
  unfold Crowd.read
  cases c.server.supervisor.worker with
  | none => exact .aside rfl rfl (.inr ⟨caller, _, errand.isMajor_refusal, rfl⟩)
  | some worker => exact .aside rfl rfl (.inl rfl)

theorem begin_changes (caller : CallerId) (op : Operation)
    (able : op.waits = true → c.lock = none) : Change c (c.begin p caller op) := by
  cases op with
  | ensureRunning => exact .begun caller .checking (.inl rfl) (able rfl) rfl rfl rfl
  | stop => exact .begun caller .stopping (.inr rfl) (able rfl) rfl rfl rfl
  | ask errand => exact read_changes c caller errand
  | state => exact .aside rfl rfl (.inr ⟨caller, _, rfl, rfl⟩)
  | takeNotices =>
    refine .aside rfl ?_ (.inr ⟨caller, _, rfl, rfl⟩)
    exact Supervised.standing_takeNotices c.server
  | commandInfo => exact .aside rfl rfl (.inr ⟨caller, _, rfl, rfl⟩)

variable {c}

theorem proceed_free (free : c.lock = none) : c.proceed p = c := by
  rw [Crowd.proceed, free]

theorem proceed_next {caller : CallerId} {point next : Point} {server : Supervised σ}
    (held : c.lock = some (caller, point)) (step : point.step p c.server = (.next next, server)) :
    c.proceed p = { c with server, lock := some (caller, next) } := by
  simp only [Crowd.proceed, held, step]

theorem proceed_done {caller : CallerId} {point : Point} {reply : Reply} {server : Supervised σ}
    (held : c.lock = some (caller, point)) (step : point.step p c.server = (.done reply, server)) :
    c.proceed p = { c with server, lock := none }.tell caller reply := by
  simp only [Crowd.proceed, held, step]

variable (c)

theorem proceed_changes : Change c (c.proceed p) := by
  rcases held : c.lock with _ | ⟨caller, point⟩
  · rw [proceed_free held]
    exact .aside rfl rfl (.inl rfl)
  · rcases stepped : point.step p c.server with ⟨next | reply, server⟩
    · rw [proceed_next held stepped]
      exact .went caller point next held (advance_of_step stepped) rfl rfl
    · rw [proceed_done held stepped]
      exact .ended caller point reply held (advance_of_step stepped) rfl rfl

theorem answer_changes (caller : CallerId) : Change c (c.answer p caller) := by
  unfold Crowd.answer
  rcases c.pending caller with _ | ⟨worker, errand⟩
  · exact .aside rfl rfl (.inl rfl)
  · refine .aside rfl ?_ (.inr ⟨caller, _, errand.isMajor_reply _, rfl⟩)
    exact Supervised.standing_ask p c.server worker errand.call

theorem step_changes (move : Move) : Change c (c.step p move) := by
  cases move with
  | call caller op =>
    rw [Crowd.step]
    by_cases waits : (c.isBusy caller || (op.waits && c.lock.isSome)) = true
    · rw [if_pos waits]
      exact .aside rfl rfl (.inl rfl)
    · rw [if_neg waits]
      refine begin_changes c caller op fun major => ?_
      simp [major] at waits
      exact waits.2
  | proceed => exact proceed_changes c
  | answer caller => exact answer_changes c caller

end

/-- The reply to an operation that keeps the supervisor to itself is its last step. -/
theorem Change.of_major {c d : Crowd σ} (change : Change c d) {caller : CallerId} {reply : Reply}
    (told : d.replies = c.replies ++ [(caller, reply)]) (major : reply.isMajor = true) :
    ∃ point, c.lock = some (caller, point) ∧
      Advance point c.server.standing (.done reply) d.server.standing ∧ d.lock = none := by
  cases change with
  | aside lock standing replies =>
    rcases replies with same | ⟨other, minor, isMinor, told'⟩
    · rw [same] at told
      cases List.self_eq_append_right.mp told
    · rw [told', List.append_cancel_left_eq] at told
      cases told
      rw [isMinor] at major
      cases major
  | begun other point first free lock standing replies =>
    rw [replies] at told
    cases List.self_eq_append_right.mp told
  | went other point next held advance lock replies =>
    rw [replies] at told
    cases List.self_eq_append_right.mp told
  | ended other point reply' held advance lock told' =>
    rw [told', List.append_cancel_left_eq] at told
    cases told
    exact ⟨point, held, advance, lock⟩

theorem Change.replies {c d : Crowd σ} (change : Change c d) :
    ∃ more, d.replies = c.replies ++ more := by
  cases change with
  | aside lock standing replies =>
    rcases replies with same | ⟨caller, reply, _, told⟩
    · exact ⟨[], by rw [same, List.append_nil]⟩
    · exact ⟨_, told⟩
  | begun caller point first free lock standing replies =>
    exact ⟨[], by rw [replies, List.append_nil]⟩
  | went caller point next held advance lock replies =>
    exact ⟨[], by rw [replies, List.append_nil]⟩
  | ended caller point reply held advance lock replies => exact ⟨_, replies⟩

theorem run_replies (p : Platform σ) (moves : List Move) (c : Crowd σ) :
    ∃ more, (c.run p moves).replies = c.replies ++ more := by
  induction moves generalizing c with
  | nil => exact ⟨[], (List.append_nil _).symm⟩
  | cons move moves ih =>
    obtain ⟨first, told⟩ := (step_changes (p := p) c move).replies
    obtain ⟨rest, later⟩ := ih (c.step p move)
    refine ⟨first ++ rest, ?_⟩
    rw [Crowd.run_cons, later, told, List.append_assoc]

/-! ### One caller alone -/

/-- As long as moves last, some caller keeps the supervisor to itself. -/
def Crowd.IsHeld (p : Platform σ) (c : Crowd σ) (moves : List Move) : Prop :=
  ∀ k < moves.length, (c.run p (moves.take k)).lock.isSome = true

theorem Crowd.IsHeld.cons {p : Platform σ} {c : Crowd σ} {move : Move} {moves : List Move}
    (first : c.lock.isSome = true) (rest : (c.step p move).IsHeld p moves) :
    c.IsHeld p (move :: moves)
  | 0, _ => first
  | k + 1, short => rest k (Nat.lt_of_succ_lt_succ short)

/-- An operation that goes to its end without interruption does so by its steps. -/
theorem Finishes.exists_run {p : Platform σ} {point : Point} {s s' : Supervised σ} {reply : Reply}
    (finishes : Finishes p point s reply s') {c : Crowd σ} {caller : CallerId}
    (server : c.server = s) (held : c.lock = some (caller, point)) :
    ∃ moves, c.run p moves = { c with server := s', lock := none }.tell caller reply ∧
      c.IsHeld p moves := by
  have busy : c.lock.isSome = true := congrArg Option.isSome held
  induction finishes generalizing c with
  | done step => exact ⟨[.proceed], proceed_done held (server ▸ step), .cons busy nofun⟩
  | @next point next s t s' reply step rest ih =>
    have moved : c.step p .proceed = { c with server := t, lock := some (caller, next) } :=
      proceed_next held (server ▸ step)
    obtain ⟨moves, ran, through⟩ :=
      ih (c := c.step p .proceed) (by rw [moved]) (by rw [moved]) (by rw [moved]; rfl)
    refine ⟨.proceed :: moves, ?_, .cons busy through⟩
    rw [Crowd.run_cons, ran, moved]

/-- Whether an operation keeps the supervisor to itself. -/
def Operation.isMajor : Operation → Bool
  | ensureRunning | stop => true
  | ask _ | state | takeNotices | commandInfo => false

/-- A caller that nobody interrupts gets what the operation returns, and the supervisor is left as
the operation leaves it. -/
def Crowd.Serves (p : Platform σ) (c : Crowd σ) : Prop :=
  c.lock = none → ∀ caller, c.isBusy caller = false → ∀ op, ∃ during,
    c.run p (.call caller op :: during) =
      { c with server := (c.server.perform p op).2 }.tell caller (c.server.perform p op).1 ∧
    (op.isMajor = true → (c.step p (.call caller op)).IsHeld p during)

theorem serves (p : Platform σ) (c : Crowd σ) : c.Serves p := by
  intro free caller idle op
  have called : c.step p (.call caller op) = c.begin p caller op := by
    simp [Crowd.step, idle, free]
  simp only [Crowd.run_cons, called]
  cases op with
  | ensureRunning =>
    obtain ⟨moves, ran, through⟩ := finishes_checking.exists_run (p := p)
      (c := c.begin p caller .ensureRunning) rfl rfl
    refine ⟨moves, ran.trans ?_, fun _ => through⟩
    rw [← free]
    rfl
  | stop =>
    obtain ⟨moves, ran, through⟩ := finishes_stopping.exists_run (p := p)
      (c := c.begin p caller .stop) rfl rfl
    refine ⟨moves, ran.trans ?_, fun _ => through⟩
    rw [← free]
    rfl
  | ask errand =>
    rw [Supervised.perform_ask]
    cases held : c.server.supervisor.worker with
    | none =>
      refine ⟨[], ?_, nofun⟩
      simp [Crowd.begin, Crowd.read, held]
    | some worker =>
      have waiting : c.pending caller = none := by
        simp [Crowd.isBusy] at idle
        exact idle.2
      have back : (fun other => if other = caller then none
          else if other = caller then some (worker, errand) else c.pending other) = c.pending := by
        funext other
        by_cases same : other = caller
        · rw [if_pos same, same, waiting]
        · rw [if_neg same, if_neg same]
      refine ⟨[.answer caller], ?_, nofun⟩
      simp [Crowd.begin, Crowd.read, held, Crowd.step, Crowd.answer, Crowd.setPending, back]
  | state => exact ⟨[], rfl, nofun⟩
  | takeNotices => exact ⟨[], rfl, nofun⟩
  | commandInfo => exact ⟨[], rfl, nofun⟩

theorem exists_run_performAll (p : Platform σ) (caller : CallerId) (ops : List Operation)
    {c : Crowd σ} (free : c.lock = none) (idle : c.isBusy caller = false) :
    ∃ moves, (c.run p moves).server = Supervised.performAll p ops c.server := by
  induction ops generalizing c with
  | nil => exact ⟨[], rfl⟩
  | cons op ops ih =>
    obtain ⟨first, performed, -⟩ := serves p c free caller idle op
    let d := { c with server := (c.server.perform p op).2 }.tell caller (c.server.perform p op).1
    obtain ⟨rest, ran⟩ := ih (c := d) free idle
    refine ⟨.call caller op :: first ++ rest, ?_⟩
    rw [Crowd.run, List.foldl_append]
    exact (congrArg (fun c => (c.run p rest).server) performed).trans ran

/-! ### The invariant of all moves -/

/-- What goes with no operation goes with one that begins, and what every step keeps is kept by
every change. -/
theorem Change.preserves {c d : Crowd σ} (change : Change c d) {P : Option Point → Standing → Prop}
    (checking : ∀ t, P none t → P (some .checking) t)
    (stopping : ∀ t, P none t → P (some .stopping) t)
    (step : ∀ {point t turn t'}, Advance point t turn t' → P (some point) t → P turn.point? t')
    (h : P c.point? c.server.standing) : P d.point? d.server.standing := by
  cases change with
  | aside lock standing replies =>
    have same : d.point? = c.point? := congrArg (Option.map Prod.snd) lock
    rw [same, standing]
    exact h
  | begun caller point first free lock standing replies =>
    rw [Crowd.point?_of_free free] at h
    rw [Crowd.point?_of_held lock, standing]
    rcases first with rfl | rfl
    · exact checking _ h
    · exact stopping _ h
  | went caller point next held advance lock replies =>
    rw [Crowd.point?_of_held held] at h
    rw [Crowd.point?_of_held lock]
    exact step advance h
  | ended caller point reply held advance lock replies =>
    rw [Crowd.point?_of_held held] at h
    rw [Crowd.point?_of_free lock]
    exact step advance h

theorem Change.fits {c d : Crowd σ} (change : Change c d)
    (fits : Fits c.point? c.server.standing) : Fits d.point? d.server.standing :=
  change.preserves (fun _ fits => fits) (fun _ fits => fits) Advance.fits fits

theorem fits_opened (bundle : Bundle) (options : LaunchOptions) (world : σ) :
    Fits (Crowd.opened bundle options world).point?
      (Crowd.opened bundle options world).server.standing :=
  Supervised.isSettled_fresh bundle options world

theorem fits_run (p : Platform σ) (moves : List Move) {c : Crowd σ}
    (fits : Fits c.point? c.server.standing) :
    Fits (c.run p moves).point? (c.run p moves).server.standing :=
  Crowd.run_preserves (P := fun c => Fits c.point? c.server.standing)
    (fun c move fits => (step_changes c move).fits fits) moves c fits

end LintBridge.Worker
