/-!
# Timers

Timers post commands when their time has come: once, or again and again after a period. Time is
counted in milliseconds. A timer without a period that is due at once fires before any time passes.
A timer whose commands nobody takes any more ends when it fires.

## Main definitions

* `Timers.scheduleOnce`, `Timers.scheduleRepeating`: new timers.
* `Timers.fire`: the timers whose time has come.
* `Timers.advance`: let time pass.
-/

namespace Cohort

/-- A timer that still runs. -/
structure Timer (α : Type) where
  due : Nat
  /-- The time between two commands of a repeating timer. -/
  period : Option Nat
  command : α
  deriving DecidableEq, Repr

/-- Timers, oldest first. -/
structure Timers (α : Type) where
  now : Nat
  running : List (Timer α)
  /-- Whether somebody takes the commands. -/
  accepting : Bool
  /-- Set once the timers are dropped; nothing runs or is scheduled after that. -/
  dropped : Bool
  deriving DecidableEq, Repr

namespace Timers

variable {α : Type}

/-- No timers. -/
def fresh : Timers α := ⟨0, [], true, false⟩

/-- Add a timer. -/
def add (t : Timers α) (timer : Timer α) : Timers α :=
  if t.dropped then t else { t with running := t.running ++ [timer] }

/-- Post a command once after a delay. -/
def scheduleOnce (t : Timers α) (delay : Nat) (command : α) : Timers α :=
  t.add ⟨t.now + delay, none, command⟩

/-- Post a command after every period. A period of nothing makes no timer. -/
def scheduleRepeating (t : Timers α) (period : Nat) (command : α) : Timers α :=
  if period = 0 then t else t.add ⟨t.now + period, some period, command⟩

/-- End all timers. -/
def shutDown (t : Timers α) : Timers α := { t with running := [] }

/-- End all timers for good. -/
def drop (t : Timers α) : Timers α := { t with running := [], dropped := true }

/-- Nobody takes the commands any more. -/
def refuse (t : Timers α) : Timers α := { t with accepting := false }

/-- The timer after it fired, unless it has ended. -/
def renew (accepting : Bool) (timer : Timer α) : Option (Timer α) :=
  if accepting then timer.period.map fun period => { timer with due := timer.due + period }
  else none

/-- Fire the timers whose time has come. Tells the commands that were taken. -/
def fire (t : Timers α) : List α × Timers α :=
  let due := t.running.filter (·.due ≤ t.now)
  (if t.accepting then due.map (·.command) else [],
    { t with running := t.running.filterMap fun timer =>
        if timer.due ≤ t.now then renew t.accepting timer else some timer })

/-- One millisecond passes. -/
def tick (t : Timers α) : List α × Timers α := fire { t with now := t.now + 1 }

/-- Let time pass, given how much of it has passed already. Tells the commands that were taken,
each with the time that had passed. -/
def advance (passed : Nat) : Nat → Timers α → List (Nat × α) × Timers α
  | 0, t => ([], t)
  | n + 1, t =>
    let (commands, t) := t.tick
    let (later, t) := advance (passed + 1) n t
    (commands.map (fun command => (passed + 1, command)) ++ later, t)

/-- Fire what is due at once, then let time pass. Tells the commands that were taken, each with the
time that had passed. -/
def pass (t : Timers α) (time : Nat) : List (Nat × α) × Timers α :=
  let (commands, t) := t.fire
  let (later, t) := advance 0 time t
  (commands.map (fun command => (0, command)) ++ later, t)

/-- How many timers run; nothing once they are dropped. -/
def pending? (t : Timers α) : Option Nat := if t.dropped then none else some t.running.length

/-- Whether no command can come any more, or none is taken. -/
def isClosed (t : Timers α) : Bool := t.dropped || !t.accepting

end Timers

end Cohort
