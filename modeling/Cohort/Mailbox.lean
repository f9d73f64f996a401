/-!
# Mailboxes

A mailbox joins a sender, which puts items in and never waits, to a writer, which takes them out.
It holds a bounded number of items, and it is refused to a sender when it is full or when its
writer is gone. It remembers everything that was ever put in.

## Main definitions

* `Mailbox.offer?`: put an item in.
* `Mailbox.take`: take all items out.
* `Mailbox.hangUp`, `Mailbox.abandon`: the sender, or the writer, goes away.
-/

namespace Cohort

/-- A bounded queue between a sender and a writer. -/
structure Mailbox (α : Type) where
  /-- How many items it holds at most. -/
  capacity : Nat
  /-- Everything ever put in, oldest first. -/
  sent : List α
  /-- How many of those were taken out. -/
  taken : Nat
  /-- Whether the sender is still there. -/
  sending : Bool
  /-- Whether the writer is still there. -/
  receiving : Bool
  deriving DecidableEq, Repr

namespace Mailbox

variable {α : Type}

/-- An empty mailbox with both sides there. -/
def fresh (capacity : Nat) : Mailbox α := ⟨capacity, [], 0, true, true⟩

/-- What was put in and not taken out yet, oldest first. -/
def waiting (box : Mailbox α) : List α := box.sent.drop box.taken

/-- Whether an item can be put in. -/
def hasRoom (box : Mailbox α) : Bool :=
  box.receiving && decide (box.waiting.length < box.capacity)

/-- Put an item in, if it is let in. -/
def offer? (box : Mailbox α) (item : α) : Option (Mailbox α) :=
  if box.hasRoom then some { box with sent := box.sent ++ [item] } else none

/-- Take everything out. -/
def take (box : Mailbox α) : List α × Mailbox α :=
  (box.waiting, { box with taken := box.sent.length })

/-- The sender goes away. What was put in can still be taken out. -/
def hangUp (box : Mailbox α) : Mailbox α := { box with sending := false }

/-- The writer goes away. -/
def abandon (box : Mailbox α) : Mailbox α := { box with receiving := false }

end Mailbox

end Cohort
