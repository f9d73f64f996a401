/-!
# Failures

Everything that can go wrong at a node, locally or on behalf of a remote caller, is one
`Failure`. A failure travels between nodes as a number: `Failure.code` writes it and
`Failure.ofCode?` reads it back, where zero stands for success and every number that no failure
owns reads as `Failure.unknown`.

## Main statements

* `Failure.ofCode?_code`: the number of a failure reads back as that failure.
* `Failure.ofCode?_eq_none_iff`: only zero reads as success.
-/

namespace Cohort

/-- What can go wrong at a node, in the order in which the wire numbers the cases. -/
inductive Failure where
  | unknown
  | io
  | system
  | invalidParameters
  | shutDown
  | versionMismatch
  | authFailed
  | network
  | malformedFrame
  | truncatedFrame
  | codec
  | unexpectedMessage
  | peerUnavailable
  | lockContended
  | unknownMapping
  | duplicateMapping
  | configurationClosed
  | wrongMappingKind
  | noMaster
  | notMaster
  | unknownAction
  | actionFailed
  | duplicateAction
  deriving DecidableEq, Repr, Inhabited

namespace Failure

/-- Every failure, in declaration order. -/
def all : List Failure :=
  [unknown, io, system, invalidParameters, shutDown, versionMismatch, authFailed, network,
    malformedFrame, truncatedFrame, codec, unexpectedMessage, peerUnavailable, lockContended,
    unknownMapping, duplicateMapping, configurationClosed, wrongMappingKind, noMaster, notMaster,
    unknownAction, actionFailed, duplicateAction]

/-- The number that stands for a failure in an answer to another node. -/
def code : Failure → UInt32
  | unknown => 0x01
  | io => 0x02
  | system => 0x03
  | invalidParameters => 0x04
  | shutDown => 0x05
  | versionMismatch => 0x06
  | authFailed => 0x07
  | network => 0x10
  | malformedFrame => 0x11
  | truncatedFrame => 0x12
  | codec => 0x13
  | unexpectedMessage => 0x14
  | peerUnavailable => 0x20
  | lockContended => 0x21
  | unknownMapping => 0x30
  | duplicateMapping => 0x31
  | configurationClosed => 0x32
  | wrongMappingKind => 0x33
  | noMaster => 0x34
  | notMaster => 0x35
  | unknownAction => 0x36
  | actionFailed => 0x37
  | duplicateAction => 0x40

/-- The failure a number stands for: none for zero, and `unknown` for a number nobody owns. -/
def ofCode? (number : UInt32) : Option Failure :=
  if number = 0 then none
  else some ((all.find? fun failure => failure.code = number).getD unknown)

/-- The wording of a failure for people. -/
def message : Failure → String
  | unknown => "unknown error"
  | io => "I/O error"
  | system => "system error"
  | invalidParameters => "invalid parameters"
  | shutDown => "node is shutting down"
  | versionMismatch => "protocol version mismatch"
  | authFailed => "peer credentials rejected"
  | network => "network error between nodes"
  | malformedFrame => "malformed frame header"
  | truncatedFrame => "stream ended inside a frame"
  | codec => "failed to encode or decode message"
  | unexpectedMessage => "unexpected message"
  | peerUnavailable => "no peer available"
  | lockContended => "lock is held by another node"
  | unknownMapping => "mapping is not configured"
  | duplicateMapping => "mapping configured twice"
  | configurationClosed => "mapping configuration is closed"
  | wrongMappingKind => "wrong kind of mapping for this operation"
  | noMaster => "no master available for mapping"
  | notMaster => "node is not the master of this mapping"
  | unknownAction => "unknown mapping action"
  | actionFailed => "mapping action failed"
  | duplicateAction => "node action registered twice"

/-- The list of all failures leaves none out. -/
theorem mem_all (failure : Failure) : failure ∈ all := by
  cases failure <;> decide

/-- The number of a failure reads back as that failure. -/
theorem ofCode?_code (failure : Failure) : ofCode? failure.code = some failure := by
  cases failure <;> decide

/-- Only zero reads as success. -/
theorem ofCode?_eq_none_iff (number : UInt32) : ofCode? number = none ↔ number = 0 := by
  simp [ofCode?]

end Failure

/-- What an operation gives: a value, or the failure that kept it from one. -/
abbrev Outcome (α : Type) := Except Failure α

/-- Whether two operations gave the same can be decided where that can be of their values. -/
instance Outcome.decidableEq {α : Type} [DecidableEq α] : DecidableEq (Outcome α)
  | .ok a, .ok b => decidable_of_iff (a = b) (by simp)
  | .error e, .error f => decidable_of_iff (e = f) (by simp)
  | .ok _, .error _ => .isFalse (by simp)
  | .error _, .ok _ => .isFalse (by simp)

end Cohort
