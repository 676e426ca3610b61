import Mathlib.Algebra.Group.Int.Defs
import Mathlib.Data.List.Basic
/-!
# PgConnection — the operations of a PostgreSQL connection

`PgConnection` (`pg_connection.cpp`) runs on the thread of its `io_context`: an event is a task there, which submits an
operation, closes or opens the connection, or goes on with an operation after a wait for the socket.  One operation is
under way at a time, the others wait in `pending_ops_`.  A task brings along what libpq answers on behalf of each
operation: each is sent or gone on with at most once in a task, and every function of libpq is called at most once there.

Operations are numbered as they are submitted.  The log says what was done for which operation, and in which order.
-/
namespace Gb

/-- What `ToDbValue` makes; a floating-point number is the one `atof` reads in the text. -/
inductive DbValue
  | null
  | bool (value : Bool)
  | int64 (value : Int)
  | float (text : String)
  | double (text : String)
  | string (value : String)

structure DbField where
  name  : String
  value : DbValue

structure DbError where
  code    : Int := 0
  message : String := ""

structure DbResult where
  isOk     : Bool := false
  error    : DbError := {}
  affected : Nat := 0
  insertId : Nat := 0
  rows     : List (List DbField) := []
  colCount : Nat := 0

namespace DbResult

def ofRows (rows : List (List DbField)) (colCount : Nat) : DbResult := { isOk := true, rows := rows, colCount := colCount }

def affectedRows (affected insertId : Nat) : DbResult := { isOk := true, affected := affected, insertId := insertId }

def ofError (msg : String) (code : Int) : DbResult := { isOk := false, error := ⟨code, msg⟩ }

def isError (r : DbResult) : Bool := !r.isOk

end DbResult

/-- A `PGresult`: its columns with their types, its rows with `none` for null, and what `PQcmdTuples` reads, if anything. -/
structure PGresult where
  status       : Nat
  columns      : List (String × Nat) := []
  tuples       : List (List (Option String)) := []
  cmdTuples    : Option Nat := none
  oidValue     : Nat := 0
  errorMessage : String := ""

/-- A `PGconn`: the command whose results have not all been read. -/
structure PGconn where
  command : Option Nat := none

/-- What a task does to the connection. -/
inductive ConnTask
  | closeSync
  | connectSync (allocated : Bool)

/-- `CloseSync` and `ConnectSync`, which leave nothing of the connection there was. -/
def ConnTask.run (_ : Option PGconn) : ConnTask → Option PGconn
  | .closeSync             => none
  | .connectSync allocated => if allocated then some {} else none

inductive FlushStatus
  | done
  | incomplete
  | failed

/-- What libpq answers in a task that works on an operation, and what the operation's callback does to the connection. -/
structure PqAnswers where
  status   : Bool
  sent     : Bool
  flush    : FlushStatus
  socket   : Bool
  consumed : Bool
  busy     : Bool
  results  : List PGresult
  message  : String
  callback : List ConnTask

inductive WaitType
  | waitWrite
  | waitRead

/-- A step of libpq or of the socket for an operation; `error` is the text of one that fails. -/
inductive PqCall
  | unavailable
  | send (error : Option String)
  | flush (status : FlushStatus) (message : String)
  | socket (ok : Bool)
  | wait (type : WaitType) (error : Option String)
  | consumeInput (error : Option String)
  | isBusy
  | results (command : Option Nat) (results : List PGresult)

inductive PgEntry
  | submitted (op : Nat)
  | call (op : Nat) (call : PqCall)
  | callback (op : Nat) (result : DbResult)

structure AsyncOp where
  op       : Nat
  flushing : Bool := true

structure PgConnection where
  conn       : Option PGconn := none
  pendingOps : List AsyncOp := []
  opActive   : Bool := false
  waiting    : Option (WaitType × AsyncOp) := none
  submitted  : Nat := 0
  log        : List PgEntry := []

inductive PgEvent
  | submit (answers : Nat → PqAnswers)
  | waited (error : Option String) (answers : Nat → PqAnswers)
  | task (task : ConnTask)

namespace PgConnection

def pgresCommandOk : Nat := 1

def pgresTuplesOk : Nat := 2

/-- `atoll`: what follows the digits is ignored, and what is out of range is cut off. -/
def atoll (value : String) : Int :=
  let text := value.toList.dropWhile fun c => c == ' ' || 9 ≤ c.toNat && c.toNat ≤ 13
  let digits := if text.head? = some '-' ∨ text.head? = some '+' then text.tail else text
  let n : Nat := (digits.takeWhile Char.isDigit).foldl (fun n c => 10 * n + (c.toNat - 48)) 0
  if text.head? = some '-' then max (-2 ^ 63) (-n) else min (2 ^ 63 - 1) n

def toDbValue (value : String) (typeOid : Nat) : DbValue :=
  match typeOid with
  | 16  => .bool (value.toList.head? == some 't')
  | 20  => .int64 (atoll value)
  | 21  => .int64 (atoll value)
  | 23  => .int64 (atoll value)
  | 700 => .float value
  | 701 => .double value
  | _   => .string value

def parseResult (res : PGresult) : DbResult :=
  if res.status = pgresTuplesOk then
    let field (column : String × Nat) (value : Option String) : DbField :=
      ⟨column.1, (value.map fun text => toDbValue text column.2).getD .null⟩
    .ofRows (res.tuples.map fun tuple => List.zipWith field res.columns tuple) res.columns.length
  else if res.status = pgresCommandOk then .affectedRows (res.cmdTuples.getD 0) res.oidValue
  else .ofError res.errorMessage res.status

/-- One round of the loop that collects the results. -/
def mergeResult (final : DbResult) (res : PGresult) : DbResult :=
  let parsed := parseResult res
  if parsed.isOk then parsed else if final.isError then parsed else final

def finalResult (results : List PGresult) : DbResult := results.foldl mergeResult (.ofError "no result" (-1))

variable (p : PgConnection)

/-! ## libpq -/

/-- `conn_` is there and its `PQstatus` is `CONNECTION_OK`. -/
def pqStatus (a : PqAnswers) : Bool := p.conn.isSome && a.status

/-- `PQerrorMessage`. -/
def pqErrorMessage (a : PqAnswers) : String := if p.conn.isNone then "connection pointer is NULL\n" else a.message

/-- `PQsendQuery` and `PQsendQueryParams`, which refuse while a command is under way. -/
def pqSend (a : PqAnswers) (op : Nat) : Bool × PgConnection :=
  match p.conn with
  | some ⟨none⟩ => if a.sent then (true, { p with conn := some ⟨some op⟩ }) else (false, p)
  | _           => (false, p)

def pqFlush (a : PqAnswers) : FlushStatus := if p.conn.isNone then .failed else a.flush

def pqSocket (a : PqAnswers) : Bool := p.conn.isSome && a.socket

def pqConsumeInput (a : PqAnswers) : Bool := p.conn.isSome && a.consumed

def pqIsBusy (a : PqAnswers) : Bool := p.conn.isSome && a.busy

/-- `PQgetResult` until it returns null: the results of the command under way, which is over then. -/
def pqGetResults (a : PqAnswers) : Option Nat × List PGresult × PgConnection :=
  match p.conn with
  | some ⟨some command⟩ => (some command, a.results, { p with conn := some {} })
  | _                   => (none, [], p)

/-! ## The pipeline -/

def logs (op : Nat) (call : PqCall) : PgConnection := { p with log := p.log ++ [.call op call] }

/-- The operation's callback is invoked. -/
def invoke (a : PqAnswers) (op : Nat) (result : DbResult) : PgConnection :=
  { p with log := p.log ++ [.callback op result], conn := a.callback.foldl ConnTask.run p.conn }

@[simp] theorem pendingOps_logs (op : Nat) (call : PqCall) : (p.logs op call).pendingOps = p.pendingOps := rfl

@[simp] theorem pendingOps_invoke (a : PqAnswers) (op : Nat) (result : DbResult) :
    (p.invoke a op result).pendingOps = p.pendingOps := rfl

@[simp] theorem pendingOps_pqSend (a : PqAnswers) (op : Nat) : (p.pqSend a op).2.pendingOps = p.pendingOps := by
  rw [pqSend]
  split
  · split <;> rfl
  · rfl

@[simp] theorem pendingOps_pqGetResults (a : PqAnswers) : (p.pqGetResults a).2.2.pendingOps = p.pendingOps := by
  rw [pqGetResults]
  split <;> rfl

mutual

def startSend (answers : Nat → PqAnswers) (op : Nat) (p : PgConnection) : PgConnection :=
  if p.opActive then { p with pendingOps := p.pendingOps ++ [⟨op, true⟩] }
  else
    let p := { p with opActive := true }
    let a := answers op
    if p.pqStatus a = false then
      startNext answers ((p.logs op .unavailable).invoke a op (.ofError "Connection not available" (-1)))
    else
      let sent := p.pqSend a op
      let message := sent.2.pqErrorMessage a
      if sent.1 = false then
        startNext answers ((sent.2.logs op (.send (some message))).invoke a op (.ofError message (-1)))
      else continueOp answers ⟨op, true⟩ (sent.2.logs op (.send none))
termination_by (p.pendingOps.length, 4)
decreasing_by all_goals simp [Prod.lex_def]

/-- `ContinueOp`, first phase. -/
def continueOp (answers : Nat → PqAnswers) (op : AsyncOp) (p : PgConnection) : PgConnection :=
  let a := answers op.op
  if op.flushing then
    let message := p.pqErrorMessage a
    match p.pqFlush a with
    | .failed     =>
      startNext answers ((p.logs op.op (.flush .failed message)).invoke a op.op (.ofError message (-1)))
    | .incomplete => awaitSocket answers .waitWrite op (p.logs op.op (.flush .incomplete message))
    | .done       => collect answers { op with flushing := false } (p.logs op.op (.flush .done message))
  else collect answers op p
termination_by (p.pendingOps.length, 3)
decreasing_by all_goals simp [Prod.lex_def]

/-- `ContinueOp`, second and third phase. -/
def collect (answers : Nat → PqAnswers) (op : AsyncOp) (p : PgConnection) : PgConnection :=
  let a := answers op.op
  let message := p.pqErrorMessage a
  if p.pqConsumeInput a = false then
    startNext answers ((p.logs op.op (.consumeInput (some message))).invoke a op.op (.ofError message (-1)))
  else
    let p := p.logs op.op (.consumeInput none)
    if p.pqIsBusy a then awaitSocket answers .waitRead op (p.logs op.op .isBusy)
    else
      let got := p.pqGetResults a
      startNext answers ((got.2.2.logs op.op (.results got.1 got.2.1)).invoke a op.op (finalResult got.2.1))
termination_by (p.pendingOps.length, 2)
decreasing_by all_goals simp [Prod.lex_def]

/-- `WrapPgSocket` and the wait for the socket. -/
def awaitSocket (answers : Nat → PqAnswers) (type : WaitType) (op : AsyncOp) (p : PgConnection) : PgConnection :=
  let a := answers op.op
  if p.pqSocket a then { p.logs op.op (.socket true) with waiting := some (type, op) }
  else startNext answers ((p.logs op.op (.socket false)).invoke a op.op (.ofError "PQsocket failed" (-1)))
termination_by (p.pendingOps.length, 1)
decreasing_by all_goals simp [Prod.lex_def]

def startNext (answers : Nat → PqAnswers) (p : PgConnection) : PgConnection :=
  match _hpending : p.pendingOps with
  | []           => { p with opActive := false }
  | next :: rest => startSend answers next.op { p with opActive := false, pendingOps := rest }
termination_by (p.pendingOps.length, 0)
decreasing_by all_goals simp [Prod.lex_def, _hpending]

end

def waitError : WaitType → String → String
  | .waitWrite, message => "socket write: " ++ message
  | .waitRead,  message => "socket read: " ++ message

/-- The handler of the wait. -/
def onWait (error : Option String) (answers : Nat → PqAnswers) : PgConnection :=
  match p.waiting with
  | none            => p
  | some (type, op) =>
    let p := { p with waiting := none }.logs op.op (.wait type error)
    match error with
    | some message => startNext answers (p.invoke (answers op.op) op.op (.ofError (waitError type message) (-1)))
    | none         => continueOp answers op p

def step (p : PgConnection) : PgEvent → PgConnection
  | .submit answers       =>
    startSend answers p.submitted { p with submitted := p.submitted + 1, log := p.log ++ [.submitted p.submitted] }
  | .waited error answers => p.onWait error answers
  | .task task            => { p with conn := ConnTask.run p.conn task }

end PgConnection

end Gb
