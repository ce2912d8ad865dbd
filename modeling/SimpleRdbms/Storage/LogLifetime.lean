import SimpleRdbms.Storage.SegmentedLog

/-!
# The life of a log

A crash comes at any point, also within a flush or before a truncation has removed all of its files.
-/

namespace SimpleRdbms.Storage
open Lib

def SegmentedLog.firstLsn (log : SegmentedLog) : Nat :=
  (log.sealed.head?.map SegmentMeta.startLsn).getD log.activeStartLsn

/-- The flush a crash interrupts, the files an unfinished truncation has removed, and the bytes of each file that
survive beyond those synced. -/
structure CrashPoint where
  flush : Option (Nat × FlushOutcome)
  removed : Nat
  keep : Nat → Nat

/-- The log with the segments still to be removed, all records ever appended and the largest bound of a truncation. -/
structure LogLifetime where
  log : SegmentedLog
  removing : List Nat
  history : List LoggedRecord
  bound : Nat

namespace LogLifetime

inductive Action where
  | append (txnId : Nat) (kind : LogRecordKind)
  | flush (upTo : Nat)
  | flushAll
  | truncateBelow (bound : Nat)
  | removeFiles
  | reopen
  | crash (point : CrashPoint)

def retained (w : LogLifetime) : List LoggedRecord := w.history.filter (w.log.firstLsn ≤ ·.lsn)

def removeFiles (w : LogLifetime) : LogLifetime :=
  { w with log := { w.log with files := w.removing.foldl SegmentFiles.remove w.log.files }, removing := [] }

def interrupted (w : LogLifetime) (point : CrashPoint) : SegmentedLog :=
  match point.flush with
  | none => w.log
  | some (upTo, outcome) => (w.log.flush upTo outcome).1

def crashFiles (w : LogLifetime) (point : CrashPoint) : SegmentFiles :=
  LogHistory.crashed ((w.removing.take point.removed).foldl SegmentFiles.remove (w.interrupted point).files) point.keep

def reopen (w : LogLifetime) : Option LogLifetime :=
  if w.removing ≠ [] then none
  else (SegmentedLog.openWithStore w.log.flushAll.files w.log.targetSegmentSize).map fun log => { w with log }

def restart (w : LogLifetime) (point : CrashPoint) : Option LogLifetime :=
  (SegmentedLog.openWithStore (w.crashFiles point) w.log.targetSegmentSize).map fun log =>
    { w with log, removing := [], history := w.history.filter (·.lsn < log.nextLsn) }

def step (w : LogLifetime) : Action → Option LogLifetime
  | .append txnId kind =>
    some { w with log := w.log.append txnId kind, history := w.history ++ [w.log.nextRecord txnId kind] }
  | .flush upTo => some { w with log := (w.log.flush upTo (.succeeds none)).1 }
  | .flushAll => some { w with log := w.log.flushAll }
  | .truncateBelow bound =>
    let truncated := w.log.truncateBelow bound
    some { w with log := truncated.1, removing := w.removing ++ truncated.2, bound := max w.bound bound }
  | .removeFiles => some w.removeFiles
  | .reopen => w.reopen
  | .crash point => w.restart point

def system : System LogLifetime Action where
  init w := w.history = [] ∧ w.removing = [] ∧ w.bound = 0 ∧
    ∃ targetSegmentSize, SegmentedLog.openWithStore [] targetSegmentSize = some w.log
  step := step

end LogLifetime

end SimpleRdbms.Storage
