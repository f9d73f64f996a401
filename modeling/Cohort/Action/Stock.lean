import Cohort.Action.Basic

/-!
# Stock actions

A few node actions to try a cluster with.
-/

namespace Cohort.StockActions

/-- Double a number, counting round. -/
def double (n : UInt32) : Attempted UInt32 := .ok (n * 2)

/-- Give a text back. -/
def echo (s : String) : Attempted String := .ok s

/-- Describe a text and a number that may be missing. -/
def describe (args : String × Option UInt32) : Attempted String :=
  .ok (args.1 ++ "=" ++ match args.2 with
    | none => "None"
    | some n => "Some(" ++ toString n.toNat ++ ")")

/-- Do nothing. -/
def unit (_ : Unit) : Attempted Unit := .ok ()

/-- Fail. -/
def refuse (_ : Unit) : Attempted Unit := .error (.failed .invalidParameters)

/-- Break down. -/
def explode (_ : Unit) : Attempted Unit := .error .crashed

/-- The stock actions, by name. -/
def all : List (String × NodeAction) :=
  [("double", .typed Codec.u32 Codec.u32 double),
    ("echo", .typed Codec.text Codec.text echo),
    ("describe", .typed (Codec.text.pair Codec.u32.optional) Codec.text describe),
    ("unit", .typed Codec.unit Codec.unit unit),
    ("refuse", .typed Codec.unit Codec.unit refuse),
    ("explode", .typed Codec.unit Codec.unit explode)]

/-- Register the stock action of a kind under a name. Without such a kind nothing is registered,
and there is nothing to tell. -/
def register (actions : NodeActions) (name kind : String) : Option (Outcome Unit) × NodeActions :=
  match all.lookup kind with
  | some action =>
    let (done, actions) := actions.register name action
    (some done, actions)
  | none => (none, actions)

end Cohort.StockActions
