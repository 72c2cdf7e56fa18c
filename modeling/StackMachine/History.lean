import StackMachine.Trace

/-! A history of machine states under a memory budget. Sizes are estimates: a fixed part, and for
each state its slots, its arena with the map, its hooks and its table of blocks. -/
namespace StackMachine

/-- A machine after the operation at an index, or before the first one. -/
structure Snapshot where
  machine : Machine
  opIndex : Option Nat
  deriving DecidableEq, Repr, Inhabited

def Snapshot.size (s : Snapshot) : Nat :=
  144 + 4 * s.machine.stack.capacity + 2 * s.machine.heap.size + 16 * s.machine.hooks.size +
    16 * s.machine.heap.live.length

structure LimitExceeded where
  current : Nat
  requested : Nat
  limit : Nat
  deriving DecidableEq, Repr, Inhabited

def LimitExceeded.message (e : LimitExceeded) : String :=
  s!"snapshot memory limit exceeded: {e.current} + {e.requested} > {e.limit}"

structure History where
  snapshots : Array Snapshot
  limit : Nat
  used : Nat
  deriving DecidableEq, Repr, Inhabited

namespace History

def defaultLimit : Nat := 256 * 1024 * 1024

def empty (limit : Nat) : History := ⟨#[], limit, 0⟩

def push (s : Snapshot) : EStateM LimitExceeded History Unit := do
  let h ← get
  if h.limit < h.used + s.size then throw ⟨h.used, s.size, h.limit⟩
  set { h with snapshots := h.snapshots.push s, used := h.used + s.size }

theorem push_eq (s : Snapshot) (h : History) :
    push s h =
      if h.limit < h.used + s.size then .error ⟨h.used, s.size, h.limit⟩ h
      else .ok () { h with snapshots := h.snapshots.push s, used := h.used + s.size } := by
  rw [push, Action.bind_ok (Action.get_run h)]
  split <;> rfl

end History
end StackMachine
