import BlockCalc.Location
import BlockCalc.Step
import BlockCalc.Table

/-!
# The log of steps

A log numbers its entries from zero and chains them: each entry names the state before it and the
state after it, which is its own. The names of the states come from the numbers, so that no two
entries share one.

The record of an entry may be a dictionary that whoever made the entry keeps. The log writes its
links into that dictionary. If it is recorded once more or edited, all entries made of it change.
-/

namespace BlockCalc

/-- The name of the state after the step of an index. -/
def stateId (index : Nat) : String :=
  let digits := Nat.toDigits 10 index
  String.ofList ('s' :: '_' :: (List.replicate (6 - digits.length) '0' ++ digits))

/-- The name of the state before the first step. -/
def seedId : String := "seed"

/-- A recorded step. -/
structure Entry where
  index : Nat
  location : Option Location
  /-- The text of the line that the step comes from. -/
  statement : Option String
  /-- The visible bindings after the step, in logs that keep them. -/
  bindings : Option (Table String)
  /-- The rule of the step with its details and the states that it connects. -/
  record : Table Json
  /-- The number of the dictionary that the record is, if somebody keeps that. -/
  dictionary : Option Nat := none

namespace Entry

/-- The name of the state after the step. -/
def id (entry : Entry) : String :=
  stateId entry.index

end Entry

/-- The recorded steps, oldest first. -/
structure StepLog where
  entries : Array Entry := #[]

namespace StepLog

/-- The log without entries. -/
def empty : StepLog := {}

/-- The name of the state that the next step starts from. -/
def lastId (log : StepLog) : String :=
  match log.entries.back? with
  | some entry => entry.id
  | none => seedId

/--
The entry that recording a step would make. A record that names the state before it keeps that.
-/
def nextEntry (log : StepLog) (record : Table Json) (location : Option Location)
    (statement : Option String) (bindings : Option (Table String))
    (dictionary : Option Nat := none) : Entry where
  index := log.entries.size
  location := location
  statement := statement
  bindings := bindings
  record :=
    (record.insertIfNew "from_state_id" (.text log.lastId)).insert "to_state_id"
      (.text (stateId log.entries.size))
  dictionary := dictionary

/-- The log with one more entry. -/
def push (log : StepLog) (entry : Entry) : StepLog where
  entries := log.entries.push entry

/-- The log after a dictionary has got other contents. -/
def rewrite (log : StepLog) (dictionary : Nat) (contents : Table Json) : StepLog where
  entries := log.entries.map fun entry =>
    if entry.dictionary = some dictionary then { entry with record := contents } else entry

/-- Adds an entry, whose links show in all entries that were made of the same dictionary. -/
def add (log : StepLog) (entry : Entry) : StepLog :=
  match entry.dictionary with
  | none => log.push entry
  | some dictionary => (log.rewrite dictionary entry.record).push entry

/-- The log with other discarded names in its last entry. -/
def rediscard (log : StepLog) (discarded : List String) : StepLog where
  entries := log.entries.modify (log.entries.size - 1) fun entry =>
    { entry with record := entry.record.insert "discarded" (.texts discarded) }

/-- The last entry with an index. -/
def find? (log : StepLog) (index : Int) : Option Entry :=
  log.entries.toList.reverse.find? fun entry => (entry.index : Int) == index

/-- The location of the last entry. -/
def lastLocation (log : StepLog) : Option Location :=
  log.entries.back?.bind (·.location)

/-- The rules of all entries, unless a record lacks one. -/
def rules? (log : StepLog) : Option (List Json) :=
  log.entries.toList.mapM fun entry => entry.record.get? "rule"

end StepLog

end BlockCalc
