import Mathlib

/-!
A watch channel: one value, any number of senders, and receivers that are
told when the value was sent again.

A receiver is its version: the number of sends it has seen.
-/

namespace Wagonet.Library

structure Watch (α : Type) where
  value : α
  version : Nat
  closed : Bool

namespace Watch

variable {α : Type}

def send (w : Watch α) (a : α) : Watch α := { w with value := a, version := w.version + 1 }

/-- All senders are gone. -/
def close (w : Watch α) : Watch α := { w with closed := true }

/-- `changed` is ready for a receiver at version `seen`: with a value it has not
seen, or with an error because no sender is left. -/
def changed (w : Watch α) (seen : Nat) : Bool := w.version != seen || w.closed

@[simp] theorem send_value (w : Watch α) (a : α) : (w.send a).value = a := rfl

@[simp] theorem close_value (w : Watch α) : w.close.value = w.value := rfl

end Watch

end Wagonet.Library
