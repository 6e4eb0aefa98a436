import ChipEight.Bits

/-!
# The backlog of picture changes

Whoever shows the picture asks from time to time what has changed.  Until then the changes wait in
a backlog of bounded length.  When one more would not fit, the backlog gives up the single changes
and remembers only that the whole picture has to be shown again.
-/

namespace ChipEight

/-- A change of the picture. -/
inductive Change where
  /-- All pixels went dark. -/
  | blanked
  /-- The byte at `offset` is now `byte`. -/
  | cell (offset : Fin 256) (byte : Byte)
deriving Repr, DecidableEq

/-- What has changed since the picture was last shown. -/
inductive Backlog where
  /-- Exactly these changes, oldest first. -/
  | changes (pending : Array Change)
  /-- More than a backlog can list. -/
  | everything
deriving Repr, DecidableEq

namespace Backlog

/-- The longest list of changes that a backlog keeps. -/
def limit : Nat := 512

/-- Nothing has changed. -/
def empty : Backlog := changes #[]

/-- One more change. -/
def push (change : Change) : Backlog → Backlog
  | changes pending => if pending.size < limit then changes (pending.push change) else everything
  | everything => everything

theorem push_changes_of_lt {pending : Array Change} (change : Change) (h : pending.size < limit) :
    (changes pending).push change = changes (pending.push change) := if_pos h

theorem push_changes_of_le {pending : Array Change} (change : Change) (h : limit ≤ pending.size) :
    (changes pending).push change = everything := if_neg (Nat.not_lt.2 h)

@[simp] theorem push_everything (change : Change) : everything.push change = everything := rfl

end Backlog

end ChipEight
