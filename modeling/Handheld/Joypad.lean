/-!
# Keys and key events

There are eight keys in two groups of four: the four directions and the four buttons.  A `KeyMask`
is a set of keys of one group, in the order of the lines of the joypad register: right, left, up,
down, or A, B, select, start.  An event presses or releases a set of keys.

Events from outside wait in an `InputQueue` until the machine is ready to take them, all at once and
in the order in which they came.
-/

set_option autoImplicit false

namespace Handheld

/-- A set of keys of one group. -/
abbrev KeyMask := BitVec 4

namespace KeyMask

/-- Whether all keys of `keys` are in `held`. -/
def covers (held keys : KeyMask) : Bool := held &&& keys == keys

/-- The keys held after an event. -/
def update (held keys : KeyMask) (pressed : Bool) : KeyMask :=
  if pressed then held ||| keys else held &&& ~~~keys

/-- The four lines of a group: a held key pulls its line down. -/
def lines (held : KeyMask) : UInt8 := UInt8.ofNat (~~~held).toNat

end KeyMask

/-- The two groups of keys. -/
inductive KeyGroup where
  | directions
  | buttons
  deriving DecidableEq

/-- Keys of one group pressed or released. -/
structure InputEvent where
  group : KeyGroup
  keys : KeyMask
  pressed : Bool
  deriving DecidableEq

/-- Events waiting to be delivered, oldest first. -/
structure InputQueue where
  events : Array InputEvent := #[]

namespace InputQueue

/-- The events in the queue, oldest first. -/
def toList (q : InputQueue) : List InputEvent := q.events.toList

def isEmpty (q : InputQueue) : Bool := q.events.isEmpty

/-- The queue with an event added at its end. -/
def push (q : InputQueue) (e : InputEvent) : InputQueue := ⟨q.events.push e⟩

/-- All events, and the queue without them. -/
def drain (q : InputQueue) : List InputEvent × InputQueue := (q.toList, {})

@[simp] theorem toList_push (q : InputQueue) (e : InputEvent) :
    (q.push e).toList = q.toList ++ [e] := by
  simp [push, toList]

@[simp] theorem toList_drain (q : InputQueue) : q.drain.2.toList = [] := rfl

end InputQueue
end Handheld
