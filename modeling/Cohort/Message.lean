import Cohort.Credentials
import Cohort.Failure
import Cohort.Lock.Basic

/-!
# What nodes tell each other

A node that subscribes to another opens a session with it. Everything the subscriber sends is a
`Request`; everything the other node sends back is a `Message`. `NodeEvent`s are what a node
publishes to all its subscribers, numbered one after the other from the `Snapshot` that opens the
session on.

Counters (`sequence`, `requestId`, `bootStamp`) are natural numbers here; on the wire they take
eight octets.
-/

namespace Cohort

/-- What a node publishes about itself. -/
inductive NodeEvent where
  /-- The node tries to acquire the lock. -/
  | acquiring (lock : Lock)
  /-- The node tries to release the lock. -/
  | releasing (lock : Lock)
  /-- The node holds the lock from now on. -/
  | added (lock : Lock)
  /-- The node keeps a lock it had started to release. -/
  | kept (lock : Lock)
  /-- The node holds the lock no longer. -/
  | removed (lock : Lock)
  /-- News about a cache of the application, or about a mapping. -/
  | cacheData (cache : String) (data : Bytes)
  deriving DecidableEq, Repr

/-- What a node holds at the moment a session opens. -/
structure Snapshot where
  nodeName : NodeName
  /-- When the node started. -/
  bootStamp : Nat
  locks : LockSet
  /-- Number of the last event published before. -/
  sequence : Nat
  deriving DecidableEq

/-- A call on a mapping, which is named by its index. -/
inductive MappingCall where
  | get (index : UInt16) (key : Bytes)
  | put (index : UInt16) (key value : Bytes)
  | remove (index : UInt16) (key : Bytes)
  /-- Several changes; a missing value deletes its key. -/
  | sync (index : UInt16) (keys : List Bytes) (values : List (Option Bytes))
  /-- Run a named action on the whole mapping. -/
  | withAll (index : UInt16) (action : String) (args : Bytes)
  /-- Run a named action on one value. -/
  | withValue (index : UInt16) (key : Bytes) (action : String) (args : Bytes)
  /-- Entries passed on by a former master. -/
  | handOff (index : UInt16) (keys values : List Bytes)
  deriving DecidableEq, Repr

/-- The index of the mapping a call is for. -/
def MappingCall.index : MappingCall → UInt16
  | get index _ | put index _ _ | remove index _ | sync index _ _ | withAll index _ _
  | withValue index _ _ _ | handOff index _ _ => index

/-- What a subscriber sends. -/
inductive Request where
  /-- First of every session. -/
  | subscribe (credentials : Credentials) (version : UInt16)
  /-- Consent to the publisher acquiring or releasing a lock. -/
  | ratify (lock : Lock) (acquire : Bool)
  /-- A call on a mapping that the publisher masters. -/
  | mapping (requestId : Nat) (call : MappingCall)
  /-- Run a named action of the publisher. -/
  | nodeAction (requestId : Nat) (action : String) (args : Bytes)
  /-- A clean end. -/
  | logOff
  deriving DecidableEq, Repr

/-- What a publisher sends. -/
inductive Message where
  | snapshot (snapshot : Snapshot)
  | event (sequence : Nat) (event : NodeEvent)
  /-- Answer to a call on a mapping; the code is zero on success. -/
  | mappingResult (requestId : Nat) (code : UInt32) (value : Option Bytes)
  /-- Answer to a named action; the code is zero on success. -/
  | actionResult (requestId : Nat) (code : UInt32) (value : Option Bytes)
  /-- The session was refused. -/
  | refused (code : UInt32)
  deriving DecidableEq

namespace Message

/-- The answer to a call on a mapping. -/
def ofMappingResult (requestId : Nat) : Outcome (Option Bytes) → Message
  | .ok value => mappingResult requestId 0 value
  | .error failure => mappingResult requestId failure.code none

/-- The answer to a named action. -/
def ofActionResult (requestId : Nat) : Outcome Bytes → Message
  | .ok value => actionResult requestId 0 (some value)
  | .error failure => actionResult requestId failure.code none

/-- The outcome that a code and a value of an answer stand for. -/
def outcome (code : UInt32) (value : Option Bytes) : Outcome (Option Bytes) :=
  match Failure.ofCode? code with
  | none => .ok value
  | some failure => .error failure

/-- An answer with the code of success stands for its value. -/
theorem outcome_zero (value : Option Bytes) : outcome 0 value = .ok value := rfl

/-- An answer with the code of a failure stands for that failure, whatever value came along. -/
theorem outcome_code (failure : Failure) (value : Option Bytes) :
    outcome failure.code value = .error failure := by
  simp [outcome, Failure.ofCode?_code]

end Message

end Cohort
