/-
# The session store (`store.rs`, `migrations/`)

Two tables: `sessions` with the rollups, and `turns`.  They are written by
`resolve_session`, one statement that commits by itself, and by `record_turn`, a
transaction of five statements.  Each statement is translated here as a function of what
it sees; how the statements of concurrent callers interleave is `ReadCommitted`.

A failure that has nothing to do with the rows (a lost connection, a caller that is
dropped by its timeout, a text that the server refuses) is a rollback and needs no statement
of its own.
-/
import LlmCtl.ReadCommitted
import LlmCtl.SessionId
import LlmCtl.TurnRow
import Mathlib.Data.Rat.Defs

namespace LlmCtl

open ReadCommitted

/-! ## Tables -/

/-- A row of `sessions`. -/
structure SessionRow where
  id : String
  createdAt : ℚ
  updatedAt : ℚ
  model : Option String
  totalRequests : ℤ := 0
  totalPromptTokens : ℤ := 0
  totalCompletionTokens : ℤ := 0
  totalCacheTokens : ℤ := 0
  totalPromptMs : ℚ := 0
  totalCompletionMs : ℚ := 0

/-- A row of `turns`. -/
structure StoredTurn where
  turnIndex : ℤ
  timestamp : ℚ
  turn : TurnRow

structure Tables where
  sessions : List SessionRow
  turns : List StoredTurn

namespace Tables

/-- The tables after the migrations of a new database. -/
def empty : Tables := ⟨[], []⟩

/-- The row of a session. -/
def session? (d : Tables) (id : String) : Option SessionRow :=
  d.sessions.find? fun s => s.id == id

/-- The turns of a session, in the order in which they were inserted. -/
def turnsOf (d : Tables) (id : String) : List StoredTurn :=
  d.turns.filter fun r => r.turn.sessionId == id

/-- The new version of a session's row, or a new row. -/
def putSession (d : Tables) (row : SessionRow) : Tables :=
  { d with sessions := row :: d.sessions.filter fun s => s.id != row.id }

def insertTurn (d : Tables) (r : StoredTurn) : Tables := { d with turns := d.turns ++ [r] }

end Tables

/-- A row that a statement writes. -/
inductive RowWrite where
  | session (row : SessionRow)
  | turn (r : StoredTurn)

/-- The row takes its place in the tables. -/
def RowWrite.apply : RowWrite → Tables → Tables
  | .session row, d => d.putSession row
  | .turn r, d => d.insertTurn r

/-! ## Statements -/

/-- What a statement locks: an advisory key, the row of a session (also one that is being
inserted), an entry of the unique index on the turns. -/
inductive StoreLock where
  | advisory (key : ℤ)
  | session (id : String)
  | turnIndex (id : String) (index : ℤ)
  deriving DecidableEq, Repr

/-- The errors of the statements. -/
inductive StoreError where
  | uniqueViolation
  | foreignKeyViolation
  | outOfRange
  deriving DecidableEq, Repr

/-- `INSERT INTO sessions … ON CONFLICT (id) DO UPDATE`: the row that it leaves, given the
latest version. -/
def upsertSession (id model : String) (now : ℚ) (latest : Tables) : SessionRow :=
  match latest.session? id with
  | some row => { row with model := some model, updatedAt := now }
  | none => { id := id, createdAt := now, updatedAt := now, model := some model }

/-- `SELECT COALESCE(MAX(turn_index), -1) + 1 FROM turns WHERE session_id = $1`. -/
def nextTurnIndex (sid : String) (snapshot : Tables) : Except StoreError ℤ :=
  let index := (((snapshot.turnsOf sid).map StoredTurn.turnIndex).max?.getD (-1)) + 1
  if inI64 index then .ok index else .error .outOfRange

/-- `INSERT INTO turns`.  The column of `max_tokens` is an `INTEGER`; the new key must be
new to the unique index; the session must exist. -/
def insertTurnRow (r : StoredTurn) (latest : Tables) : Except StoreError StoredTurn :=
  if r.turn.requestMaxTokens.any fun n => !decide (-2 ^ 31 ≤ n ∧ n < 2 ^ 31) then
    .error .outOfRange
  else if (latest.turnsOf r.turn.sessionId).any fun x => x.turnIndex == r.turnIndex then
    .error .uniqueViolation
  else if (latest.session? r.turn.sessionId).isNone then .error .foreignKeyViolation
  else .ok r

/-- `UPDATE sessions SET total_requests = total_requests + 1, …`: a row with one turn more. -/
def SessionRow.addTurn (s : SessionRow) (t : TurnRow) : SessionRow :=
  { s with
    totalRequests := s.totalRequests + 1
    totalPromptTokens := s.totalPromptTokens + t.usagePromptTokens
    totalCompletionTokens := s.totalCompletionTokens + t.usageCompletionTokens
    totalCacheTokens := s.totalCacheTokens + t.usageCachedTokens
    totalPromptMs := s.totalPromptMs + t.promptMs
    totalCompletionMs := s.totalCompletionMs + t.predictedMs }

/-- Do the totals fit their `BIGINT` columns? -/
def SessionRow.fits (s : SessionRow) : Bool :=
  inI64 s.totalRequests && inI64 s.totalPromptTokens && inI64 s.totalCompletionTokens &&
    inI64 s.totalCacheTokens

/-- The same statement: it updates the row that its snapshot shows, in its latest version. -/
def rollup (t : TurnRow) (snapshot latest : Tables) : Except StoreError (List RowWrite) :=
  match snapshot.session? t.sessionId, latest.session? t.sessionId with
  | some _, some row =>
    if (row.addTurn t).fits then .ok [.session (row.addTurn t)] else .error .outOfRange
  | _, _ => .ok []

/-! ## The two writers -/

/-- A call of the store; `now` is the server's clock when its transaction begins. -/
inductive StoreCall where
  | resolveSession (clientId : Option String) (model : String) (random : UInt64) (now : ℚ)
  | recordTurn (turn : TurnRow) (now : ℚ)

/-- Program points of `resolve_session` and `record_turn`: the next statement. -/
inductive StorePc where
  | resolve (sid model : String) (now : ℚ)
  | lock (turn : TurnRow) (now : ℚ)
  | upsert (turn : TurnRow) (now : ℚ)
  | selectIndex (turn : TurnRow) (now : ℚ)
  | insert (turn : TurnRow) (now : ℚ) (index : ℤ)
  | rollup (turn : TurnRow)
  | commit

/-- The statement at a program point. -/
def StorePc.exec (pc : StorePc) (snapshot latest : Tables) :
    Except StoreError (List RowWrite × StorePc) :=
  match pc with
  | .resolve sid model now => .ok ([.session (upsertSession sid model now latest)], .commit)
  | .lock turn now => .ok ([], .upsert turn now)
  | .upsert turn now =>
    .ok ([.session (upsertSession turn.sessionId turn.requestModel now latest)],
      .selectIndex turn now)
  | .selectIndex turn now =>
    (nextTurnIndex turn.sessionId snapshot).map fun index => ([], .insert turn now index)
  | .insert turn now index =>
    (insertTurnRow ⟨index, now, turn⟩ latest).map fun r => ([.turn r], .rollup turn)
  | .rollup turn => (LlmCtl.rollup turn snapshot latest).map fun ws => (ws, .commit)
  | .commit => .ok ([], .commit)

/-- The locks of the statement at a program point.  The foreign key of a turn shares the
lock on the session's row, which its own transaction holds already. -/
def StorePc.locks (lockKey : String → ℤ) : StorePc → List StoreLock
  | .resolve sid _ _ => [.session sid]
  | .lock turn _ => [.advisory (lockKey turn.sessionId)]
  | .upsert turn _ => [.session turn.sessionId]
  | .selectIndex _ _ => []
  | .insert turn _ index => [.turnIndex turn.sessionId index]
  | .rollup turn => [.session turn.sessionId]
  | .commit => []

/-- The callers of the store, with `lockKey` for the advisory lock. -/
def storeClient (lockKey : String → ℤ) :
    Client Tables RowWrite StoreLock StorePc StoreCall StoreError where
  apply := RowWrite.apply
  entry
    | .resolveSession clientId model random now => .resolve (resolvedId clientId random) model now
    | .recordTurn turn now => .lock turn now
  done
    | .commit => true
    | _ => false
  locks := fun pc _ => pc.locks lockKey
  exec := StorePc.exec

/-- A transaction of the store. -/
abbrev StoreTx := Tx Tables RowWrite StoreLock StorePc

/-- The database with any number of concurrent callers. -/
abbrev StoreState := ReadCommitted.State Tables RowWrite StoreLock StorePc

/-- The database, from the migrations on. -/
def storeSystem (lockKey : String → ℤ) :
    EventSystem StoreState (Act StoreCall) (Event StoreError) :=
  (storeClient lockKey).system Tables.empty

/-! ## Facts about the tables -/

namespace Tables

@[simp] theorem turnsOf_putSession (d : Tables) (row : SessionRow) (id : String) :
    (d.putSession row).turnsOf id = d.turnsOf id := rfl

@[simp] theorem session?_insertTurn (d : Tables) (r : StoredTurn) (id : String) :
    (d.insertTurn r).session? id = d.session? id := rfl

theorem turnsOf_insertTurn (d : Tables) (r : StoredTurn) (id : String) :
    (d.insertTurn r).turnsOf id
      = d.turnsOf id ++ if r.turn.sessionId = id then [r] else [] := by
  simp only [turnsOf, insertTurn, List.filter_append, List.filter_cons, List.filter_nil,
    beq_iff_eq]

theorem session?_putSession (d : Tables) (row : SessionRow) (id : String) :
    (d.putSession row).session? id = if row.id = id then some row else d.session? id := by
  by_cases h : row.id = id
  · simp [session?, putSession, h]
  · have hcongr : (fun s : SessionRow => decide ((s.id != row.id) = true ∧ (s.id == id) = true))
        = fun s => s.id == id := by
      funext s
      by_cases hs : s.id = id
      · simp [hs, Ne.symm h]
      · simp [hs]
    rw [if_neg h, session?, putSession, List.find?_cons_of_neg (by simpa using h),
      List.find?_filter, hcongr]
    rfl

/-- The row that is found has the id that was looked for. -/
theorem session?_id {d : Tables} {id : String} {row : SessionRow} (h : d.session? id = some row) :
    row.id = id := by
  simpa using List.find?_some h

/-- A row of the tables with a new version of a session's row is that version or an old row of
another session. -/
theorem mem_putSession {d : Tables} {row s : SessionRow} :
    s ∈ (d.putSession row).sessions ↔ s = row ∨ (s ∈ d.sessions ∧ s.id ≠ row.id) := by
  simp [putSession]

/-- Every session keeps one row. -/
theorem nodup_putSession {d : Tables} (hd : (d.sessions.map SessionRow.id).Nodup)
    (row : SessionRow) : ((d.putSession row).sessions.map SessionRow.id).Nodup := by
  rw [putSession, List.map_cons, List.nodup_cons]
  constructor
  · simp
  · exact hd.sublist (List.filter_sublist.map _)

/-- Only the last of two versions counts. -/
theorem putSession_putSession (d : Tables) {row new : SessionRow} (h : new.id = row.id) :
    (d.putSession row).putSession new = d.putSession new := by
  simp [putSession, h]

end Tables

end LlmCtl
