import Casebook.Value.Basic

/-!
# Traces

A recorder keeps what happens in each case: one record for every case that was started, with the
entries made until the next start or stop. An entry made while no case is open is dropped.
-/

namespace Casebook

/-- The kinds of entries. -/
inductive TraceLevel where
  | section
  | normal
  | step
  | error
  deriving DecidableEq

namespace TraceLevel

/-- The name of a kind of entries. -/
def name : TraceLevel → String
  | .section => "section"
  | .normal => "normal"
  | .step => "step"
  | .error => "error"

end TraceLevel

/-- Something that happened in a case. -/
structure TraceEntry where
  level : TraceLevel
  message : String
  deriving DecidableEq

/-- What happened in a case. -/
structure CaseTrace where
  module : String
  case : String
  responsible : Option String
  tester : Option String
  entries : List TraceEntry
  deriving DecidableEq

namespace CaseTrace

/-- The messages of one kind, in order. -/
def messages (t : CaseTrace) (level : TraceLevel) : List String :=
  (t.entries.filter fun e => e.level = level).map TraceEntry.message

/-- An entry as a document shows it. -/
def entryValue (e : TraceEntry) : Value :=
  .object [("level", .string e.level.name), ("message", .string e.message)]

/-- A record as a document shows it. -/
def toValue (t : CaseTrace) : Value :=
  .object ([("module", .string t.module), ("case", .string t.case)]
    ++ (t.responsible.toList.map fun s => ("responsible", .string s))
    ++ (t.tester.toList.map fun s => ("tester", .string s))
    ++ [("entries", .array (t.entries.map entryValue))])

end CaseTrace

/-- The records so far, and the one that is open. -/
structure Recorder where
  finished : List CaseTrace
  current : Option CaseTrace
  deriving DecidableEq

namespace Recorder

/-- A recorder without records. -/
def empty : Recorder := ⟨[], none⟩

/-- Close the open record. -/
def stop (r : Recorder) : Recorder :=
  ⟨r.finished ++ r.current.toList, none⟩

/-- Open a record for a case, closing the one that is open. -/
def start (r : Recorder) (module case : String) (responsible tester : Option String) : Recorder :=
  ⟨r.stop.finished, some ⟨module, case, responsible, tester, []⟩⟩

/-- Add an entry to the open record. -/
def add (r : Recorder) (level : TraceLevel) (message : String) : Recorder :=
  { r with current := r.current.map fun t => { t with entries := t.entries ++ [⟨level, message⟩] } }

/-- The records that are closed. -/
def records (r : Recorder) : List CaseTrace :=
  r.finished

/-- All records, the open one closed. -/
def allRecords (r : Recorder) : List CaseTrace :=
  r.stop.finished

end Recorder

end Casebook
