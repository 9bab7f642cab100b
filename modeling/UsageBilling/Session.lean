import UsageBilling.Metrics
import UsageBilling.Sample
import UsageBilling.Store.Statement

/-!
# Sessions with the outside

The library works with a database, a source of metrics and an accounting system.  An `Environment`
is how these answer, over a state of their own.  A `Session` is a computation that asks them; the
`World` it runs in also holds the metrics and a trace of everything asked and answered, in order.

A session ends with a result or with a `Stop`.  `Session.transaction` is the only way to open a
transaction: it commits when its body has a result, and otherwise rolls back.
-/

namespace UsageBilling

/-! ### Questions and answers -/

/-- A statement about a transaction. -/
inductive Control where
  | start
  | readOnly
  | commit
  deriving DecidableEq

/-- What the source of metrics answers to a query. -/
inductive Evaluation where
  | answered (elapsed : Duration) (outcome : Except BillingError (List Sample))
  /-- No answer, ever. -/
  | silent

/-- What the accounting system answers: the mapping it has, or why it has none, from the outermost
to the innermost cause. -/
abbrev Reconciliation := Except (List String) CategoryMapping

/-- How the outside answers. -/
structure Environment (σ : Type) where
  /-- There is a connection to the database. -/
  reachable : σ → Bool
  /-- Carry out a statement about a transaction, or refuse it. -/
  control : Control → σ → Option Refusal × σ
  execute : Statement → σ → Reply × σ
  /-- Evaluate the text of a query at a time. -/
  evaluate : String → Timestamp → σ → Evaluation × σ
  reconcile : CategoryMapping → σ → Reconciliation × σ

/-- A step of a session. -/
inductive Event where
  | control (c : Control) (refusal : Option Refusal)
  /-- A transaction was given up. -/
  | rollback
  | statement (s : Statement) (reply : Reply)
  | evaluation (text : String) (time : Timestamp) (answer : Evaluation)
  | reconciliation (mapping : CategoryMapping) (answer : Reconciliation)
  /-- An hour of a range was completed, the `count`-th. -/
  | progress (time : Timestamp) (count : Nat)

/-! ### Sessions -/

/-- What a session runs in. -/
structure World (σ : Type) where
  outside : σ
  trace : List Event
  metrics : ReportMetrics

/-- Why a session ends without a result. -/
inductive Stop where
  | failed (e : BillingError)
  /-- A date or an amount is out of range. -/
  | overflow
  /-- It waits for an answer that does not come. -/
  | stalled
  deriving DecidableEq

/-- A computation that asks the outside. -/
abbrev Session (σ : Type) := ReaderT (Environment σ) (ExceptT Stop (StateM (World σ)))

namespace Session

variable {σ α : Type}

/-- Run a session: its result, and the world afterwards. -/
def runIn (env : Environment σ) (w : World σ) (x : Session σ α) : Except Stop α × World σ :=
  ((x.run env).run).run w

def fail (e : BillingError) : Session σ α := throw (.failed e)

/-- The result of a computation that may fail. -/
def ofExcept {ε : Type} (toError : ε → BillingError) : Except ε α → Session σ α
  | .ok a => pure a
  | .error e => fail (toError e)

/-- The result of a computation that may run out of range. -/
def inRange : Option α → Session σ α
  | some a => pure a
  | none => throw .overflow

/-- Add a step to the trace. -/
def record (e : Event) : Session σ Unit := modify fun w => { w with trace := w.trace ++ [e] }

/-- Change the metrics. -/
def measure (f : ReportMetrics → ReportMetrics) : Session σ Unit :=
  modify fun w => { w with metrics := f w.metrics }

/-- Get an answer from the outside. -/
def ask {β : Type} (question : Environment σ → σ → β × σ) : Session σ β := do
  let env ← read
  modifyGet fun w =>
    let (answer, outside) := question env w.outside
    (answer, { w with outside := outside })

/-- Fail unless there is a connection. -/
def connected : Session σ Unit := do
  let env ← read
  let w ← get
  if env.reachable w.outside then pure () else fail (.storage .unavailable)

/-- Carry out a statement about a transaction. -/
def control (c : Control) : Session σ Unit := do
  let refusal ← ask fun env => env.control c
  record (.control c refusal)
  match refusal with
  | some r => fail r.toError
  | none => pure ()

/-- Carry out a statement. -/
def execute (s : Statement) : Session σ Outcome := do
  let reply ← ask fun env => env.execute s
  record (.statement s reply)
  ofExcept Refusal.toError reply

/-- A record from a row. -/
def decode (read? : Row → Option α) (row : Row) : Session σ α :=
  match read? row with
  | some a => pure a
  | none => fail (.storage .columnDecode)

/-- The records that answer a statement. -/
def fetchAll (read? : Row → Option α) (s : Statement) : Session σ (List α) := do
  (← execute s).toRows.mapM (decode read?)

/-- The first of the records that answer a statement. -/
def fetchFirst? (read? : Row → Option α) (s : Statement) : Session σ (Option α) := do
  match (← execute s).toRows with
  | [] => pure none
  | row :: _ => some <$> decode read? row

/-- The first of the records that answer a statement; there has to be one. -/
def fetchFirst (read? : Row → Option α) (s : Statement) : Session σ α := do
  match ← fetchFirst? read? s with
  | some a => pure a
  | none => fail (.storage .rowNotFound)

/-- How many rows a statement changed. -/
def countChanged (s : Statement) : Session σ Nat := Outcome.count <$> execute s

/-! ### Transactions -/

/-- What a transaction may do. -/
inductive Access where
  | readWrite
  | readOnly
  deriving DecidableEq

/-- Give up the open transaction if `x` ends without a result. -/
def orRollback (x : Session σ α) : Session σ α :=
  tryCatch x fun stop => do
    record .rollback
    throw stop

/-- Run a body in a transaction of its own. -/
def transaction (access : Access) (body : Session σ α) : Session σ α := do
  connected
  -- what was never started needs no rollback
  control .start
  orRollback do
    if access = .readOnly then control .readOnly
    let a ← body
    control .commit
    pure a

/-- Run a body on a connection, without a transaction. -/
def onConnection (body : Session σ α) : Session σ α := do
  connected
  body

end Session

end UsageBilling
