import Cohort.Wire.Codec
import Cohort.Membership.Record
import Cohort.Message

/-!
# The written form of messages

The codec of every type that travels between nodes or is stored by one. Fields are written in the
order in which their type declares them, and the case of a sum type by its place in the
declaration.
-/

namespace Cohort

namespace Codec

/-- One of finitely many values, by its place in the list of all of them. -/
def oneOf {α : Type} [DecidableEq α] (all : List α) : Codec α :=
  caseNumber.through (fun a => UInt32.ofNat (all.idxOf a)) fun place => all[place.toNat]?

/-- A value after the number of its case. -/
def inCase {α : Type} (place : UInt32) (codec : Codec α) (a : α) : Bytes :=
  caseNumber.encode place ++ codec.encode a

end Codec

open Codec

/-- A failure, by its place. -/
def Failure.placeCodec : Codec Failure := oneOf Failure.all

/-- A relationship, by its place. -/
def Relationship.codec : Codec Relationship :=
  oneOf [.peer, .parent, .child, .indirect]

/-- A lock: domain, qualifier. -/
def Lock.codec : Codec Lock :=
  (text.pair text.optional).through (fun lock => (lock.domain, lock.qualifier))
    fun fields => some ⟨fields.1, fields.2⟩

/-- Credentials: name, password. -/
def Credentials.codec : Codec Credentials :=
  (text.pair text).through (fun creds => (creds.nodeName, creds.password))
    fun fields => some ⟨fields.1, fields.2⟩

/-- A membership record, field by field. -/
def NodeRecord.codec : Codec NodeRecord where
  encode record :=
    text.encode record.name ++ text.encode record.hostName ++ text.encode record.publicHostName ++
      text.optional.encode record.region ++ u16.encode record.port ++
      count.encode record.lastUpdated ++ bool.encode record.hasLeft
  read := do
    let name ← text.read
    let hostName ← text.read
    let publicHostName ← text.read
    let region ← text.optional.read
    let port ← u16.read
    let lastUpdated ← count.read
    let hasLeft ← bool.read
    return { name, hostName, publicHostName, region, port, lastUpdated, hasLeft }

/-- A snapshot: name, boot stamp, locks, number of the last event. -/
def Snapshot.codec : Codec Snapshot where
  encode snapshot :=
    text.encode snapshot.nodeName ++ count.encode snapshot.bootStamp ++
      (Codec.set Lock.codec).encode snapshot.locks ++ count.encode snapshot.sequence
  read := do
    let nodeName ← text.read
    let bootStamp ← count.read
    let locks ← (Codec.set Lock.codec).read
    let sequence ← count.read
    return { nodeName, bootStamp, locks, sequence }

/-- An event after its case number. -/
def NodeEvent.codec : Codec NodeEvent where
  encode
    | .acquiring lock => inCase 0 Lock.codec lock
    | .releasing lock => inCase 1 Lock.codec lock
    | .added lock => inCase 2 Lock.codec lock
    | .kept lock => inCase 3 Lock.codec lock
    | .removed lock => inCase 4 Lock.codec lock
    | .cacheData cache data => inCase 5 (text.pair bytes) (cache, data)
  read := do
    match (← caseNumber.read).toNat with
    | 0 => return .acquiring (← Lock.codec.read)
    | 1 => return .releasing (← Lock.codec.read)
    | 2 => return .added (← Lock.codec.read)
    | 3 => return .kept (← Lock.codec.read)
    | 4 => return .removed (← Lock.codec.read)
    | 5 =>
      let (cache, data) ← (text.pair bytes).read
      return .cacheData cache data
    | _ => Reader.giveUp

/-- A call on a mapping after its case number. -/
def MappingCall.codec : Codec MappingCall where
  encode
    | .get index key => inCase 0 (u16.pair bytes) (index, key)
    | .put index key value => inCase 1 (u16.pair (bytes.pair bytes)) (index, key, value)
    | .remove index key => inCase 2 (u16.pair bytes) (index, key)
    | .sync index keys values =>
      inCase 3 (u16.pair (bytes.list.pair bytes.optional.list)) (index, keys, values)
    | .withAll index action args => inCase 4 (u16.pair (text.pair bytes)) (index, action, args)
    | .withValue index key action args =>
      inCase 5 (u16.pair (bytes.pair (text.pair bytes))) (index, key, action, args)
    | .handOff index keys values =>
      inCase 6 (u16.pair (bytes.list.pair bytes.list)) (index, keys, values)
  read := do
    match (← caseNumber.read).toNat with
    | 0 =>
      let (index, key) ← (u16.pair bytes).read
      return .get index key
    | 1 =>
      let (index, key, value) ← (u16.pair (bytes.pair bytes)).read
      return .put index key value
    | 2 =>
      let (index, key) ← (u16.pair bytes).read
      return .remove index key
    | 3 =>
      let (index, keys, values) ← (u16.pair (bytes.list.pair bytes.optional.list)).read
      return .sync index keys values
    | 4 =>
      let (index, action, args) ← (u16.pair (text.pair bytes)).read
      return .withAll index action args
    | 5 =>
      let (index, key, action, args) ← (u16.pair (bytes.pair (text.pair bytes))).read
      return .withValue index key action args
    | 6 =>
      let (index, keys, values) ← (u16.pair (bytes.list.pair bytes.list)).read
      return .handOff index keys values
    | _ => Reader.giveUp

/-- A request after its case number. -/
def Request.codec : Codec Request where
  encode
    | .subscribe creds version => inCase 0 (Credentials.codec.pair u16) (creds, version)
    | .ratify lock acquire => inCase 1 (Lock.codec.pair bool) (lock, acquire)
    | .mapping requestId call => inCase 2 (count.pair MappingCall.codec) (requestId, call)
    | .nodeAction requestId action args =>
      inCase 3 (count.pair (text.pair bytes)) (requestId, action, args)
    | .logOff => inCase 4 unit ()
  read := do
    match (← caseNumber.read).toNat with
    | 0 =>
      let (creds, version) ← (Credentials.codec.pair u16).read
      return .subscribe creds version
    | 1 =>
      let (lock, acquire) ← (Lock.codec.pair bool).read
      return .ratify lock acquire
    | 2 =>
      let (requestId, call) ← (count.pair MappingCall.codec).read
      return .mapping requestId call
    | 3 =>
      let (requestId, action, args) ← (count.pair (text.pair bytes)).read
      return .nodeAction requestId action args
    | 4 => return .logOff
    | _ => Reader.giveUp

/-- An answer: the number of the request, the code, and the value. -/
def Message.answerCodec : Codec (Nat × UInt32 × Option Bytes) :=
  count.pair (u32.pair bytes.optional)

/-- A message after its case number. -/
def Message.codec : Codec Message where
  encode
    | .snapshot state => inCase 0 Snapshot.codec state
    | .event sequence news => inCase 1 (count.pair NodeEvent.codec) (sequence, news)
    | .mappingResult requestId code value => inCase 2 answerCodec (requestId, code, value)
    | .actionResult requestId code value => inCase 3 answerCodec (requestId, code, value)
    | .refused code => inCase 4 u32 code
  read := do
    match (← caseNumber.read).toNat with
    | 0 => return .snapshot (← Snapshot.codec.read)
    | 1 =>
      let (sequence, news) ← (count.pair NodeEvent.codec).read
      return .event sequence news
    | 2 =>
      let (requestId, code, value) ← answerCodec.read
      return .mappingResult requestId code value
    | 3 =>
      let (requestId, code, value) ← answerCodec.read
      return .actionResult requestId code value
    | 4 => return .refused (← u32.read)
    | _ => Reader.giveUp

end Cohort
