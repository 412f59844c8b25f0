import Mathlib.Algebra.Ring.Int.Defs
import Mathlib.Tactic.Common

/-!
# Broker.Db.Models — the database rows the broker's writers share

`DeepJobRow` is one row of `deep_jobs`; the JSON columns `request` and `result_meta` are type
parameters, since plain jobs and agent runs store different documents there.  Timestamps are
microseconds (`Time`).

The unit of work of the ORM writes back only the columns whose value differs from the one it
loaded (`col`), so a transaction that reads a row, changes it in memory and commits later leaves
every other column as it finds it: `flush loaded new cur`.
-/

namespace Broker.Db

/-- A timestamp or a duration, in microseconds. -/
abbrev Time := ℤ

/-- Whole seconds as a duration. -/
def seconds (n : ℤ) : Time := n * 1000000

/-- `deep_jobs.status`. -/
inductive Status | pending | running | done | error | cancelled
  deriving DecidableEq, Repr

/-- The three statuses no writer is meant to leave. -/
def Status.terminal : Status → Bool
  | .done | .error | .cancelled => true
  | .pending | .running => false

structure DeepJobRow (Req Meta : Type) where
  id : ℕ
  projectId : ℕ
  capability : String
  status : Status
  request : Req
  resultText : Option String
  resultMeta : Option Meta
  errorMessage : Option String
  retryCount : ℕ
  runAfter : Option Time
  startedAt : Option Time
  createdAt : Time
  completedAt : Option Time
  cancelRequested : Bool
  priority : ℕ
  deriving DecidableEq, Repr

/-- A column of a flushed row: written only when it differs from the loaded value. -/
def col {α : Type} [DecidableEq α] (loaded new cur : α) : α := if new = loaded then cur else new

@[simp] theorem col_self {α : Type} [DecidableEq α] (l c : α) : col l l c = c := if_pos rfl

theorem col_of_ne {α : Type} [DecidableEq α] {l n : α} (c : α) (h : n ≠ l) : col l n c = n := if_neg h

theorem col_of_loaded {α : Type} [DecidableEq α] (l n : α) : col l n l = n := by
  unfold col
  split_ifs with h
  · exact h.symm
  · rfl

/-- Write back what the session changed of the row it loaded. -/
def DeepJobRow.flush {Req Meta : Type} [DecidableEq Req] [DecidableEq Meta]
    (loaded new cur : DeepJobRow Req Meta) : DeepJobRow Req Meta where
  id := cur.id
  projectId := cur.projectId
  capability := cur.capability
  status := col loaded.status new.status cur.status
  request := col loaded.request new.request cur.request
  resultText := col loaded.resultText new.resultText cur.resultText
  resultMeta := col loaded.resultMeta new.resultMeta cur.resultMeta
  errorMessage := col loaded.errorMessage new.errorMessage cur.errorMessage
  retryCount := col loaded.retryCount new.retryCount cur.retryCount
  runAfter := col loaded.runAfter new.runAfter cur.runAfter
  startedAt := col loaded.startedAt new.startedAt cur.startedAt
  createdAt := cur.createdAt
  completedAt := col loaded.completedAt new.completedAt cur.completedAt
  cancelRequested := col loaded.cancelRequested new.cancelRequested cur.cancelRequested
  priority := cur.priority

end Broker.Db
