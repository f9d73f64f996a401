/-!
# Byte strings

A byte string is a list of octets. This module holds the two spellings of a number as octets of a
given width, least significant octet first (`Bytes.ofNatLE`) and most significant octet first
(`Bytes.ofNatBE`), and the lowercase hexadecimal text of a byte string.

## Main statements

* `Bytes.toNatLE_ofNatLE`: a number that fits the width reads back.
* `Bytes.length_ofNatLE`, `Bytes.length_ofNatBE`: the spelling has exactly the width asked for.
-/

namespace Cohort

/-- A byte string. -/
abbrev Bytes := List UInt8

namespace Bytes

/-- The number as `width` octets, least significant first; higher octets are cut off. -/
def ofNatLE : Nat → Nat → Bytes
  | 0, _ => []
  | width + 1, n => UInt8.ofNat n :: ofNatLE width (n / 256)

/-- The number that octets spell, least significant first. -/
def toNatLE : Bytes → Nat
  | [] => 0
  | b :: rest => b.toNat + 256 * toNatLE rest

/-- The number as `width` octets, most significant first. -/
def ofNatBE (width n : Nat) : Bytes := (ofNatLE width n).reverse

/-- The number that octets spell, most significant first. -/
def toNatBE (bs : Bytes) : Nat := toNatLE bs.reverse

/-- How many numbers fit `width` octets. -/
def capacity : Nat → Nat
  | 0 => 1
  | width + 1 => 256 * capacity width

@[simp] theorem length_ofNatLE (width n : Nat) : (ofNatLE width n).length = width := by
  induction width generalizing n with
  | zero => rfl
  | succ width ih => simp [ofNatLE, ih]

@[simp] theorem length_ofNatBE (width n : Nat) : (ofNatBE width n).length = width := by
  simp [ofNatBE]

/-- What `width` octets spell is the number without its higher octets. -/
theorem toNatLE_ofNatLE_mod (width n : Nat) : toNatLE (ofNatLE width n) = n % capacity width := by
  induction width generalizing n with
  | zero => simp [ofNatLE, toNatLE, capacity, Nat.mod_one]
  | succ width ih =>
    have step : n % capacity (width + 1) = n % 256 + 256 * (n / 256 % capacity width) :=
      Nat.mod_mul
    simp [ofNatLE, toNatLE, ih, step]

/-- A number that fits `width` octets reads back from them. -/
theorem toNatLE_ofNatLE {width n : Nat} (fits : n < capacity width) :
    toNatLE (ofNatLE width n) = n := by
  rw [toNatLE_ofNatLE_mod, Nat.mod_eq_of_lt fits]

/-- A number that fits `width` octets reads back from them, most significant first. -/
theorem toNatBE_ofNatBE {width n : Nat} (fits : n < capacity width) :
    toNatBE (ofNatBE width n) = n := by
  simp [toNatBE, ofNatBE, toNatLE_ofNatLE fits]

/-- Octets spell a number below the bound of their width. -/
theorem toNatLE_lt (bs : Bytes) : toNatLE bs < capacity bs.length := by
  induction bs with
  | nil => simp [toNatLE, capacity]
  | cons b rest ih =>
    have hb := b.toNat_lt
    simp only [toNatLE, List.length_cons, capacity]
    omega

/-- Octets spell the octets of their number. -/
theorem ofNatLE_toNatLE (bs : Bytes) : ofNatLE bs.length (toNatLE bs) = bs := by
  induction bs with
  | nil => rfl
  | cons b rest ih =>
    have hb := b.toNat_lt
    have hdiv : (b.toNat + 256 * toNatLE rest) / 256 = toNatLE rest := by omega
    have hmod : UInt8.ofNat (b.toNat + 256 * toNatLE rest) = b := by
      apply UInt8.toNat_inj.mp
      rw [UInt8.toNat_ofNat']
      omega
    simp [ofNatLE, toNatLE, hdiv, hmod, ih]

/-- The hexadecimal digit of a number below sixteen. -/
def hexDigit (n : Nat) : Char := Nat.digitChar n

/-- The lowercase hexadecimal text, two digits an octet. -/
def toHex (bs : Bytes) : String :=
  String.ofList (bs.flatMap fun b => [hexDigit (b.toNat / 16), hexDigit (b.toNat % 16)])

/-- The number that a lowercase hexadecimal digit stands for. -/
def hexValue? (c : Char) : Option Nat := (List.range 16).find? fun n => hexDigit n == c

/-- The octets whose digits these are, two digits an octet. -/
def ofHexDigits? : List Char → Option Bytes
  | [] => some []
  | [_] => none
  | high :: low :: rest => do
    let high ← hexValue? high
    let low ← hexValue? low
    return .ofNat (16 * high + low) :: (← ofHexDigits? rest)

/-- The octets that a lowercase hexadecimal text spells, if it spells any. -/
def ofHex? (s : String) : Option Bytes := ofHexDigits? s.toList

/-- A digit stands for the number it was written for. -/
theorem hexValue?_hexDigit : ∀ n < 16, hexValue? (hexDigit n) = some n := by decide

/-- Octets read back from their hexadecimal text. -/
theorem ofHex?_toHex (bs : Bytes) : ofHex? (toHex bs) = some bs := by
  simp only [ofHex?, toHex, String.toList_ofList]
  induction bs with
  | nil => rfl
  | cons b rest ih =>
    have hb := b.toNat_lt
    have whole : UInt8.ofNat (16 * (b.toNat / 16) + b.toNat % 16) = b := by
      rw [Nat.div_add_mod, UInt8.ofNat_toNat]
    simp [ofHexDigits?, hexValue?_hexDigit, ih, whole, show b.toNat / 16 < 16 by omega,
      Nat.mod_lt, -UInt8.ofNat_add, -UInt8.ofNat_mul]

/-- The octets of a text in UTF-8. -/
def ofText (s : String) : Bytes := s.toUTF8.data.toList

theorem length_ofText (s : String) : (ofText s).length = s.utf8ByteSize := by
  rw [← String.size_toByteArray]
  rfl

theorem ofText_append (s t : String) : ofText (s ++ t) = ofText s ++ ofText t := by
  simp [ofText]

/-- The text that octets spell in UTF-8, if they spell one. -/
def toText? (bs : Bytes) : Option String := String.fromUTF8? ⟨bs.toArray⟩

/-- A text reads back from its octets. -/
theorem toText?_ofText (s : String) : toText? (ofText s) = some s := by
  have same : (⟨(ofText s).toArray⟩ : ByteArray) = s.toByteArray := by
    simp [ofText, String.toUTF8]
  unfold toText?
  rw [same]
  exact dif_pos s.isValidUTF8

theorem ofText_inj {s t : String} : ofText s = ofText t ↔ s = t := by
  refine ⟨fun same => ?_, fun same => same ▸ rfl⟩
  have read := toText?_ofText s
  rw [same, toText?_ofText] at read
  exact (Option.some.inj read).symm

end Bytes

end Cohort
