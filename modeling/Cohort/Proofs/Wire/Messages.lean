import Cohort.Wire.Message
import Mathlib.Tactic.Common

/-!
# Messages read back

Every message that nodes exchange reads back from its octets, and whatever follows it is left
alone. The counters of a message, and the counts of what it holds, take eight octets each; a message
is written faithfully as long as these numbers fit.

## Main definitions

* `NodeRecord.numbers`, `Request.numbers`, `Message.numbers`: the numbers that a record or a message
  is written with.

## Main statements

* `NodeRecord.keeps`, `Request.keeps`, `Message.keeps`: the codecs keep what fits.
-/

namespace Cohort

/-- Numbers fit eight octets each. -/
def Fit (numbers : List Nat) : Prop := ∀ n ∈ numbers, n < UInt64.size

/-- How many octets a text takes. -/
def textLength (s : String) : Nat := (Bytes.ofText s).length

section Fit

variable {n : Nat} {numbers numbers' : List Nat}

theorem fit_cons : Fit (n :: numbers) ↔ n < UInt64.size ∧ Fit numbers := List.forall_mem_cons

theorem fit_append : Fit (numbers ++ numbers') ↔ Fit numbers ∧ Fit numbers' :=
  List.forall_mem_append

theorem fit_flatMap {α : Type} {as : List α} {f : α → List Nat} :
    Fit (as.flatMap f) ↔ ∀ a ∈ as, Fit (f a) := by
  simp only [Fit, List.mem_flatMap]
  exact ⟨fun fit a member n there => fit n ⟨a, member, there⟩,
    fun fit n ⟨a, member, there⟩ => fit a member n there⟩

theorem fit_map {α : Type} {as : List α} {f : α → Nat} :
    Fit (as.map f) ↔ ∀ a ∈ as, f a < UInt64.size := List.forall_mem_map

end Fit

/-! ## The numbers that messages are written with -/

/-- The lengths of the texts of a lock. -/
def Lock.numbers (lock : Lock) : List Nat :=
  textLength lock.domain :: lock.qualifier.toList.map textLength

/-- The lengths of the texts of credentials. -/
def Credentials.numbers (creds : Credentials) : List Nat :=
  [textLength creds.nodeName, textLength creds.password]

/-- The stamp of a record, and the lengths of its texts. -/
def NodeRecord.numbers (record : NodeRecord) : List Nat :=
  record.lastUpdated :: textLength record.name :: textLength record.hostName ::
    textLength record.publicHostName :: record.region.toList.map textLength

/-- The counters of a snapshot, and the counts of what it holds. -/
def Snapshot.numbers (snapshot : Snapshot) : List Nat :=
  textLength snapshot.nodeName :: snapshot.bootStamp :: snapshot.sequence ::
    snapshot.locks.toList.length :: snapshot.locks.toList.flatMap Lock.numbers

/-- The counts of what an event holds. -/
def NodeEvent.numbers : NodeEvent → List Nat
  | acquiring lock | releasing lock | added lock | kept lock | removed lock => lock.numbers
  | cacheData cache data => [textLength cache, data.length]

/-- The counts of what a call holds. -/
def MappingCall.numbers : MappingCall → List Nat
  | get _ key | remove _ key => [key.length]
  | put _ key value => [key.length, value.length]
  | sync _ keys values =>
    keys.length :: values.length ::
      (keys.map List.length ++ values.flatMap fun value => value.toList.map List.length)
  | withAll _ action args => [textLength action, args.length]
  | withValue _ key action args => [key.length, textLength action, args.length]
  | handOff _ keys values =>
    keys.length :: values.length :: (keys.map List.length ++ values.map List.length)

/-- The counter of a request, and the counts of what it holds. -/
def Request.numbers : Request → List Nat
  | subscribe creds _ => creds.numbers
  | ratify lock _ => lock.numbers
  | mapping requestId call => requestId :: call.numbers
  | nodeAction requestId action args => [requestId, textLength action, args.length]
  | logOff => []

/-- The counters of a message, and the counts of what it holds. -/
def Message.numbers : Message → List Nat
  | snapshot state => state.numbers
  | event sequence news => sequence :: news.numbers
  | mappingResult requestId _ value | actionResult requestId _ value =>
    requestId :: value.toList.map List.length
  | refused _ => []

/-! ## What the codecs keep -/

namespace Codec

variable {α β : Type}

/-- A case of a sum type reads back if the value it holds does. -/
theorem Keeps.inCase {codec : Codec α} {a : α} (keeps : codec.Keeps a) {place : UInt32}
    {select : UInt32 → Reader β} (make : α → β)
    (selects : select place = codec.read >>= fun a => pure (make a)) (rest : Bytes) :
    (caseNumber.read >>= select) (inCase place codec a ++ rest) = (some (make a), rest) := by
  have keepsPlace : caseNumber.Keeps place := keeps_u32 place
  rw [Codec.inCase, List.append_assoc, Reader.bind_apply_of_some (keepsPlace _), selects,
    Reader.bind_apply_of_some (keeps rest), Reader.pure_apply]

theorem keeps_bytes_list {bss : List Bytes} (count : bss.length < UInt64.size)
    (fits : Fit (bss.map List.length)) : bytes.list.Keeps bss :=
  keeps_list count fun _ member => keeps_bytes (fit_map.1 fits _ member)

theorem keeps_bytes_optional {value : Option Bytes} (fits : Fit (value.toList.map List.length)) :
    bytes.optional.Keeps value :=
  keeps_optional fun _ member => keeps_bytes (fit_map.1 fits _ (Option.mem_toList.2 member))

end Codec

open Codec

theorem Lock.keeps {lock : Lock} (fits : Fit lock.numbers) : Lock.codec.Keeps lock := by
  obtain ⟨domain, qualifier⟩ := fit_cons.1 fits
  refine keeps_through (keeps_pair (keeps_text domain) (keeps_optional fun s member => ?_)) rfl
  exact keeps_text (fit_map.1 qualifier s (Option.mem_toList.2 member))

theorem Credentials.keeps {creds : Credentials} (fits : Fit creds.numbers) :
    Credentials.codec.Keeps creds := by
  obtain ⟨name, rest⟩ := fit_cons.1 fits
  obtain ⟨password, -⟩ := fit_cons.1 rest
  exact keeps_through (keeps_pair (keeps_text name) (keeps_text password)) rfl

theorem NodeRecord.keeps {record : NodeRecord} (fits : Fit record.numbers) :
    NodeRecord.codec.Keeps record := by
  obtain ⟨stamp, rest⟩ := fit_cons.1 fits
  obtain ⟨name, rest⟩ := fit_cons.1 rest
  obtain ⟨hostName, rest⟩ := fit_cons.1 rest
  obtain ⟨publicHostName, region⟩ := fit_cons.1 rest
  have keepsRegion : text.optional.Keeps record.region :=
    keeps_optional fun s member => keeps_text (fit_map.1 region s (Option.mem_toList.2 member))
  intro rest
  simp only [NodeRecord.codec, List.append_assoc]
  rw [Reader.bind_apply_of_some (keeps_text name _),
    Reader.bind_apply_of_some (keeps_text hostName _),
    Reader.bind_apply_of_some (keeps_text publicHostName _),
    Reader.bind_apply_of_some (keepsRegion _), Reader.bind_apply_of_some (keeps_u16 record.port _),
    Reader.bind_apply_of_some (keeps_count stamp _), Reader.bind_apply_of_some (keeps_bool _ _)]
  rfl

theorem Snapshot.keeps {snapshot : Snapshot} (fits : Fit snapshot.numbers) :
    Snapshot.codec.Keeps snapshot := by
  obtain ⟨name, rest⟩ := fit_cons.1 fits
  obtain ⟨bootStamp, rest⟩ := fit_cons.1 rest
  obtain ⟨sequence, rest⟩ := fit_cons.1 rest
  obtain ⟨number, locks⟩ := fit_cons.1 rest
  have keepsLocks : (Codec.set Lock.codec).Keeps snapshot.locks :=
    keeps_set number fun lock member => Lock.keeps (fit_flatMap.1 locks lock member)
  intro rest
  simp only [Snapshot.codec, List.append_assoc]
  rw [Reader.bind_apply_of_some (keeps_text name _),
    Reader.bind_apply_of_some (keeps_count bootStamp _),
    Reader.bind_apply_of_some (keepsLocks _),
    Reader.bind_apply_of_some (keeps_count sequence _), Reader.pure_apply]

theorem NodeEvent.keeps {event : NodeEvent} (fits : Fit event.numbers) :
    NodeEvent.codec.Keeps event := by
  intro rest
  cases event with
  | acquiring lock => exact (Lock.keeps fits).inCase acquiring rfl rest
  | releasing lock => exact (Lock.keeps fits).inCase releasing rfl rest
  | added lock => exact (Lock.keeps fits).inCase added rfl rest
  | kept lock => exact (Lock.keeps fits).inCase kept rfl rest
  | removed lock => exact (Lock.keeps fits).inCase removed rfl rest
  | cacheData cache data =>
    simp only [numbers, fit_cons] at fits
    have keeps := keeps_pair (keeps_text fits.1) (keeps_bytes fits.2.1)
    exact keeps.inCase (fun fields => cacheData fields.1 fields.2) rfl rest

theorem MappingCall.keeps {call : MappingCall} (fits : Fit call.numbers) :
    MappingCall.codec.Keeps call := by
  intro rest
  cases call with
  | get index key =>
    simp only [numbers, fit_cons] at fits
    have keeps := keeps_pair (keeps_u16 index) (keeps_bytes fits.1)
    exact keeps.inCase (fun fields => get fields.1 fields.2) rfl rest
  | put index key value =>
    simp only [numbers, fit_cons] at fits
    have keeps := keeps_pair (keeps_u16 index)
      (keeps_pair (keeps_bytes fits.1) (keeps_bytes fits.2.1))
    exact keeps.inCase (fun fields => put fields.1 fields.2.1 fields.2.2) rfl rest
  | remove index key =>
    simp only [numbers, fit_cons] at fits
    have keeps := keeps_pair (keeps_u16 index) (keeps_bytes fits.1)
    exact keeps.inCase (fun fields => remove fields.1 fields.2) rfl rest
  | sync index keys values =>
    simp only [numbers, fit_cons, fit_append] at fits
    obtain ⟨keysCount, valuesCount, keysFit, valuesFit⟩ := fits
    have keepsValues : bytes.optional.list.Keeps values :=
      keeps_list valuesCount fun value member =>
        keeps_bytes_optional (fit_flatMap.1 valuesFit value member)
    have keeps := keeps_pair (keeps_u16 index)
      (keeps_pair (keeps_bytes_list keysCount keysFit) keepsValues)
    exact keeps.inCase (fun fields => sync fields.1 fields.2.1 fields.2.2) rfl rest
  | withAll index action args =>
    simp only [numbers, fit_cons] at fits
    have keeps := keeps_pair (keeps_u16 index)
      (keeps_pair (keeps_text fits.1) (keeps_bytes fits.2.1))
    exact keeps.inCase (fun fields => withAll fields.1 fields.2.1 fields.2.2) rfl rest
  | withValue index key action args =>
    simp only [numbers, fit_cons] at fits
    have keeps := keeps_pair (keeps_u16 index) (keeps_pair (keeps_bytes fits.1)
      (keeps_pair (keeps_text fits.2.1) (keeps_bytes fits.2.2.1)))
    exact keeps.inCase (fun fields => withValue fields.1 fields.2.1 fields.2.2.1 fields.2.2.2)
      rfl rest
  | handOff index keys values =>
    simp only [numbers, fit_cons, fit_append] at fits
    obtain ⟨keysCount, valuesCount, keysFit, valuesFit⟩ := fits
    have keeps := keeps_pair (keeps_u16 index) (keeps_pair (keeps_bytes_list keysCount keysFit)
      (keeps_bytes_list valuesCount valuesFit))
    exact keeps.inCase (fun fields => handOff fields.1 fields.2.1 fields.2.2) rfl rest

/-- Every request that fits reads back, whatever follows it. -/
theorem Request.keeps {request : Request} (fits : Fit request.numbers) :
    Request.codec.Keeps request := by
  intro rest
  cases request with
  | subscribe creds version =>
    have keeps := keeps_pair (Credentials.keeps fits) (keeps_u16 version)
    exact keeps.inCase (fun fields => subscribe fields.1 fields.2) rfl rest
  | ratify lock acquire =>
    have keeps := keeps_pair (Lock.keeps fits) (keeps_bool acquire)
    exact keeps.inCase (fun fields => ratify fields.1 fields.2) rfl rest
  | mapping requestId call =>
    obtain ⟨counter, callFits⟩ := fit_cons.1 fits
    have keeps := keeps_pair (keeps_count counter) (MappingCall.keeps callFits)
    exact keeps.inCase (fun fields => mapping fields.1 fields.2) rfl rest
  | nodeAction requestId action args =>
    simp only [numbers, fit_cons] at fits
    have keeps := keeps_pair (keeps_count fits.1)
      (keeps_pair (keeps_text fits.2.1) (keeps_bytes fits.2.2.1))
    exact keeps.inCase (fun fields => nodeAction fields.1 fields.2.1 fields.2.2) rfl rest
  | logOff => exact (keeps_unit ()).inCase (fun _ => logOff) rfl rest

theorem Message.keeps_answer {requestId : Nat} {value : Option Bytes}
    (fits : Fit (requestId :: value.toList.map List.length)) (code : UInt32) :
    answerCodec.Keeps (requestId, code, value) := by
  obtain ⟨counter, valueFits⟩ := fit_cons.1 fits
  exact keeps_pair (keeps_count counter)
    (keeps_pair (keeps_u32 code) (keeps_bytes_optional valueFits))

/-- Every message that fits reads back, whatever follows it. -/
theorem Message.keeps {message : Message} (fits : Fit message.numbers) :
    Message.codec.Keeps message := by
  intro rest
  cases message with
  | snapshot state => exact (Snapshot.keeps fits).inCase snapshot rfl rest
  | event sequence news =>
    obtain ⟨counter, newsFits⟩ := fit_cons.1 fits
    have keeps := keeps_pair (keeps_count counter) (NodeEvent.keeps newsFits)
    exact keeps.inCase (fun fields => event fields.1 fields.2) rfl rest
  | mappingResult requestId code value =>
    exact (keeps_answer fits code).inCase
      (fun fields => mappingResult fields.1 fields.2.1 fields.2.2) rfl rest
  | actionResult requestId code value =>
    exact (keeps_answer fits code).inCase
      (fun fields => actionResult fields.1 fields.2.1 fields.2.2) rfl rest
  | refused code => exact (keeps_u32 code).inCase refused rfl rest

end Cohort
