import Mathlib.Data.Nat.Notation

/-!
# `OnlineJudger.Acm.ZMySql`: the database connection

The model of `query` and `storeResult` of `acm/ZMySql.cpp` over one connection. The library
behind them is not part of the repository. The model takes from it what its documentation says. A
connection holds at most one result set that is not stored yet, a query in front of such a result
set fails and sends nothing, and `storeResult` takes the result set of the latest query.

A result set bears the number of the query that it answers.
-/

set_option autoImplicit false

namespace OnlineJudger

/-- A stored result set, with the number of its query. The number is not a part of the code: it
tells which query a result belongs to. -/
structure ZMySqlRes (Rows : Type) where
  serial : ℕ
  rows : Rows
  deriving DecidableEq, Repr

/-- What the server answers to a query. A query that the library refuses does not get to the
server. -/
inductive ServerAnswer (Rows : Type) where
  | error
  /-- A statement without a result set. -/
  | done
  | rows (rows : Rows)
  deriving DecidableEq, Repr

/-- A connection. Both threads use the same one, and it has one result set at a time. -/
structure ZMySql (Rows : Type) where
  /-- The result set that is not stored yet. -/
  unread : Option (ZMySqlRes Rows) := none
  /-- The number of the next query. -/
  serial : ℕ := 0

namespace ZMySql

variable {Rows : Type}

/-- `query`. It is refused while a result set is not stored yet, and the result set stays. -/
def query (answer : ServerAnswer Rows) (sql : ZMySql Rows) : Bool × ZMySql Rows :=
  match sql.unread with
  | some _ => (false, { sql with serial := sql.serial + 1 })
  | none =>
    match answer with
    | .error => (false, { sql with serial := sql.serial + 1 })
    | .done => (true, { sql with serial := sql.serial + 1 })
    | .rows rows => (true, { unread := some ⟨sql.serial, rows⟩, serial := sql.serial + 1 })

/-- `storeResult`. It takes the result set of the connection, whoever has asked for it. -/
def storeResult (sql : ZMySql Rows) : Option (ZMySqlRes Rows) × ZMySql Rows :=
  (sql.unread, { sql with unread := none })

end ZMySql

end OnlineJudger
