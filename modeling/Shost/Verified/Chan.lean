import Mathlib.Tactic

/-!
# Buffered channels

A channel of capacity `cap` is a queue that never holds more than `cap`
values.  A send is possible while there is room and otherwise blocks; a
receive takes the oldest value and blocks on an empty buffer.
-/

namespace Shost.Verified

/-- A buffered channel. -/
@[ext] structure Chan (α : Type) (cap : Nat) where
  buf : List α
  fits : buf.length ≤ cap
  deriving DecidableEq

namespace Chan

variable {α : Type} {cap : Nat}

/-- The channel as `make` returns it. -/
def empty : Chan α cap := ⟨[], Nat.zero_le _⟩

/-- A send does not block. -/
def hasRoom (c : Chan α cap) : Bool := decide (c.buf.length < cap)

/-- Send a value; without room nothing happens. -/
def send (c : Chan α cap) (x : α) : Chan α cap :=
  if h : c.buf.length < cap then ⟨c.buf ++ [x], by simpa using h⟩ else c

/-- The value the next receive takes, if any. -/
def next (c : Chan α cap) : Option α := c.buf.head?

/-- The channel after a receive. -/
def drop (c : Chan α cap) : Chan α cap :=
  ⟨c.buf.tail, by have := c.fits; rw [List.length_tail]; omega⟩

@[simp] theorem buf_empty : (empty : Chan α cap).buf = [] := rfl

@[simp] theorem buf_drop (c : Chan α cap) : c.drop.buf = c.buf.tail := rfl

theorem hasRoom_iff (c : Chan α cap) : c.hasRoom = true ↔ c.buf.length < cap := by
  simp [hasRoom]

theorem buf_send {c : Chan α cap} {x : α} (h : c.hasRoom = true) :
    (c.send x).buf = c.buf ++ [x] := by
  rw [hasRoom_iff] at h
  simp [send, h]

theorem next_eq_some_iff (c : Chan α cap) (x : α) :
    c.next = some x ↔ ∃ rest, c.buf = x :: rest := List.head?_eq_some_iff

end Chan

end Shost.Verified
