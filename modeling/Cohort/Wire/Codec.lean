import Cohort.Failure
import Cohort.Wire.Reader
import Std.Data.ExtTreeSet

/-!
# Codecs

A `Codec` writes values of a type as octets and reads them back. The format is fixed: whole
numbers in a fixed width with the least significant octet first, counts in eight octets, the case
of a sum type in four, and one octet of zero or one for a truth value or an optional one. Text is
checked to be UTF-8. What follows a value is left alone.

A codec that always reads back what it wrote, and leaves exactly what followed, keeps its word:
`Codec.Keeps`. The lemmas of this module say so for each codec, part by part.

## Main definitions

* `Codec.number`: a number in a fixed width.
* `Codec.list`, `Codec.optional`, `Codec.pair`: values made of others.
* `Codec.decode?`: the value a payload starts with.
-/

namespace Cohort

/-- Writes values as octets and reads them back. -/
structure Codec (α : Type) where
  encode : α → Bytes
  read : Reader α

namespace Codec

variable {α β : Type}

/-- The value a payload starts with, whatever follows it. -/
def decode? (codec : Codec α) (bs : Bytes) : Option α := codec.read.value? bs

/-- The value a payload starts with, or the failure to find one. -/
def decode (codec : Codec α) (bs : Bytes) : Outcome α :=
  match codec.decode? bs with
  | some a => .ok a
  | none => .error .codec

/-- The codec reads `a` back, and leaves exactly what followed it. -/
def Keeps (codec : Codec α) (a : α) : Prop :=
  ∀ rest, codec.read (codec.encode a ++ rest) = (some a, rest)

/-- Writes through `toWritten` and reads through `ofWritten?`. -/
def through (codec : Codec α) (toWritten : β → α) (ofWritten? : α → Option β) : Codec β where
  encode b := codec.encode (toWritten b)
  read := codec.read.accept ofWritten?

/-- A number in `width` octets, least significant first. -/
def number (width : Nat) : Codec Nat where
  encode n := Bytes.ofNatLE width n
  read := (Reader.take width).accept fun bs => some bs.toNatLE

/-- Nothing at all. -/
def unit : Codec Unit where
  encode _ := []
  read := pure ()

/-- A word of sixteen bits. -/
def u16 : Codec UInt16 := (number 2).through UInt16.toNat fun n => some (UInt16.ofNat n)

/-- A word of thirty-two bits. -/
def u32 : Codec UInt32 := (number 4).through UInt32.toNat fun n => some (UInt32.ofNat n)

/-- A word of sixty-four bits. -/
def u64 : Codec UInt64 := (number 8).through UInt64.toNat fun n => some (UInt64.ofNat n)

/-- A signed word of sixty-four bits. -/
def i64 : Codec Int64 := u64.through Int64.toUInt64 fun word => some word.toInt64

/-- A count: a number below two to the sixty-fourth. -/
def count : Codec Nat := number 8

/-- A truth value in one octet; only zero and one are read. -/
def bool : Codec Bool := (number 1).through Bool.toNat fun n =>
  if n = 0 then some false else if n = 1 then some true else none

/-- A byte string after its length. -/
def bytes : Codec Bytes where
  encode bs := count.encode bs.length ++ bs
  read := do Reader.take (← count.read)

/-- A text after its length in octets; only UTF-8 is read. -/
def text : Codec String := bytes.through Bytes.ofText Bytes.toText?

/-- An optional value: an octet that tells whether it is there, and the value if so. -/
def optional (codec : Codec α) : Codec (Option α) where
  encode
    | none => bool.encode false
    | some a => bool.encode true ++ codec.encode a
  read := do
    if ← bool.read then return some (← codec.read) else return none

/-- The values of a list, one after the other, after their count. -/
def list (codec : Codec α) : Codec (List α) where
  encode as := count.encode as.length ++ as.flatMap codec.encode
  read := do Reader.times (← count.read) codec.read

/-- Two values, one after the other. -/
def pair (first : Codec α) (second : Codec β) : Codec (α × β) where
  encode ab := first.encode ab.1 ++ second.encode ab.2
  read := do
    let a ← first.read
    let b ← second.read
    return (a, b)

/-- The number of a case of a sum type. -/
def caseNumber : Codec UInt32 := u32

/-- The values of a set in their order, after their count; read in any order and number. -/
def set {cmp : α → α → Ordering} [Std.TransCmp cmp] (codec : Codec α) :
    Codec (Std.ExtTreeSet α cmp) :=
  codec.list.through Std.ExtTreeSet.toList fun as => some (Std.ExtTreeSet.ofList as cmp)

/-! ## What the codecs keep -/

/-- A value that a codec keeps is the one its octets start with. -/
theorem Keeps.decode? {codec : Codec α} {a : α} (keeps : codec.Keeps a) (rest : Bytes) :
    codec.decode? (codec.encode a ++ rest) = some a := by
  simp [Codec.decode?, Reader.value?, keeps rest]

theorem keeps_through {codec : Codec α} {toWritten : β → α} {ofWritten? : α → Option β} {b : β}
    (keeps : codec.Keeps (toWritten b)) (back : ofWritten? (toWritten b) = some b) :
    (codec.through toWritten ofWritten?).Keeps b := by
  intro rest
  simp [through, Reader.accept, keeps rest, back]

theorem keeps_number {width n : Nat} (fits : n < Bytes.capacity width) :
    (number width).Keeps n := by
  intro rest
  have front := Reader.take_append (Bytes.ofNatLE width n) rest
  rw [Bytes.length_ofNatLE] at front
  simp [number, Reader.accept, front, Bytes.toNatLE_ofNatLE fits]

theorem keeps_unit (a : Unit) : unit.Keeps a := fun _ => rfl

theorem keeps_u16 (word : UInt16) : u16.Keeps word :=
  keeps_through (keeps_number word.toNat_lt) (by simp)

theorem keeps_u32 (word : UInt32) : u32.Keeps word :=
  keeps_through (keeps_number word.toNat_lt) (by simp)

theorem keeps_u64 (word : UInt64) : u64.Keeps word :=
  keeps_through (keeps_number word.toNat_lt) (by simp)

theorem keeps_i64 (word : Int64) : i64.Keeps word :=
  keeps_through (keeps_u64 _) (by simp)

theorem keeps_count {n : Nat} (fits : n < UInt64.size) : count.Keeps n :=
  keeps_number fits

theorem keeps_bool (b : Bool) : bool.Keeps b := by
  cases b <;> exact keeps_through (keeps_number (by decide)) (by decide)

theorem keeps_bytes {bs : Bytes} (fits : bs.length < UInt64.size) : bytes.Keeps bs := by
  intro rest
  simp only [bytes, List.append_assoc]
  rw [Reader.bind_apply_of_some (keeps_count fits _)]
  exact Reader.take_append bs rest

theorem keeps_text {s : String} (fits : (Bytes.ofText s).length < UInt64.size) : text.Keeps s :=
  keeps_through (keeps_bytes fits) (Bytes.toText?_ofText s)

theorem keeps_optional {codec : Codec α} {oa : Option α} (keeps : ∀ a ∈ oa, codec.Keeps a) :
    codec.optional.Keeps oa := by
  intro rest
  cases oa with
  | none =>
    show codec.optional.read (bool.encode false ++ rest) = _
    simp only [optional]
    rw [Reader.bind_apply_of_some (keeps_bool false _)]
    rfl
  | some a =>
    show codec.optional.read ((bool.encode true ++ codec.encode a) ++ rest) = _
    simp only [optional, List.append_assoc]
    rw [Reader.bind_apply_of_some (keeps_bool true _)]
    simp only [if_true]
    rw [Reader.bind_apply_of_some (keeps a rfl _)]
    rfl

theorem timesOnto_append {codec : Codec α} (as : List α) (keeps : ∀ a ∈ as, codec.Keeps a)
    (read : List α) (rest : Bytes) :
    Reader.timesOnto codec.read as.length read (as.flatMap codec.encode ++ rest) =
      (some (read.reverse ++ as), rest) := by
  induction as generalizing read with
  | nil => simp [Reader.timesOnto]
  | cons a as ih =>
    simp only [List.length_cons, List.flatMap_cons, List.append_assoc, Reader.timesOnto]
    rw [keeps a (by simp)]
    simp only
    rw [ih (fun b hb => keeps b (by simp [hb]))]
    simp

theorem keeps_list {codec : Codec α} {as : List α} (fits : as.length < UInt64.size)
    (keeps : ∀ a ∈ as, codec.Keeps a) : codec.list.Keeps as := by
  intro rest
  simp only [list, List.append_assoc]
  rw [Reader.bind_apply_of_some (keeps_count fits _)]
  simpa [Reader.times] using timesOnto_append as keeps [] rest

theorem keeps_pair {first : Codec α} {second : Codec β} {a : α} {b : β}
    (keepsFirst : first.Keeps a) (keepsSecond : second.Keeps b) :
    (first.pair second).Keeps (a, b) := by
  intro rest
  simp only [pair, List.append_assoc]
  rw [Reader.bind_apply_of_some (keepsFirst _), Reader.bind_apply_of_some (keepsSecond _)]
  rfl

theorem keeps_set {cmp : α → α → Ordering} [Std.TransCmp cmp] [Std.LawfulEqCmp cmp]
    [BEq α] [LawfulBEq α] {codec : Codec α} {as : Std.ExtTreeSet α cmp}
    (fits : as.toList.length < UInt64.size) (keeps : ∀ a ∈ as.toList, codec.Keeps a) :
    (set codec).Keeps as := by
  refine keeps_through (keeps_list fits keeps) (congrArg some ?_)
  apply Std.ExtTreeSet.ext_mem
  intro a
  rw [Std.ExtTreeSet.mem_ofList, Std.ExtTreeSet.contains_toList]
  simp

end Codec

end Cohort
