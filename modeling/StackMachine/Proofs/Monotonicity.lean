import Mathlib
import StackMachine.Proofs.Growth
import StackMachine.Proofs.Reachable
import StackMachine.Proofs.Run

/-! Runs with more room. A trace is run on a fresh machine and on a fresh machine that is at least as
large in every part. As long as the smaller run finds room, the two go through the same states, and
they end alike: the larger one succeeds where the smaller one does, and it fails at the same operation
with the same fault, unless that fault is a want of room. -/
namespace StackMachine

/-- What a machine and a larger one have in common, where the heap of the smaller one has `size`
bytes: everything that the smaller one holds. What the larger one has beyond is unused. -/
structure Machine.AgreesBelow (size : Nat) (small large : Machine) : Prop where
  pointer : large.stack.pointer = small.stack.pointer
  live : large.stack.live = small.stack.live
  basePointer : large.basePointer = small.basePointer
  returnRegister : large.returnRegister = small.returnRegister
  frameDepth : large.frameDepth = small.frameDepth
  hooks : ∀ i reference : Nat,
    large.hooks[i]? = some (some reference) ↔ small.hooks[i]? = some (some reference)
  blocks : large.heap.live = small.heap.live
  arena : small.heap.size = size
  bytes : ∀ i < size, large.heap.bytes[i]? = small.heap.bytes[i]?
  taken : ∀ i < size, large.heap.taken[i]? = small.heap.taken[i]?
  beyond : ∀ i, size ≤ i → i < large.heap.size →
    large.heap.bytes[i]? = some 0 ∧ large.heap.taken[i]? = some false

namespace Machine

variable {m next : Machine} {extra : Config} {op : Op} {fault : Fault}

theorem grown_agrees (form : m.WellFormed) : m.AgreesBelow m.heap.size (m.grown extra) := by
  have map := form.heap.mapSize
  have values : (m.grown extra).stack.live.reverse = m.stack.live.reverse := grown_values
  refine ⟨form.pointer.symm, List.reverse_injective values, rfl, rfl, rfl, ?_, rfl, rfl, ?_, ?_, ?_⟩
  · intro i reference
    by_cases inside : i < m.hooks.size
    · rw [grown, Array.getElem?_append_left inside]
    · rw [grown, Array.getElem?_append_right (Nat.not_lt.mp inside), Array.getElem?_replicate,
        Array.getElem?_eq_none (Nat.not_lt.mp inside)]
      split <;> simp
  · exact fun i inside => Array.getElem?_append_left inside
  · exact fun i inside => Array.getElem?_append_left (map ▸ inside)
  · intro i above below
    rw [grown_heap, Heap.grown_size] at below
    have position : i - m.heap.size < extra.heapSize := by omega
    rw [grown_heap, Heap.grown]
    constructor
    · rw [Array.getElem?_append_right above, Array.getElem?_replicate]
      exact if_pos position
    · rw [Array.getElem?_append_right (map ▸ above), map, Array.getElem?_replicate]
      exact if_pos position

theorem apply_grown (form : m.WellFormed) (large : (m.grown extra).WellFormed) {flow : Flow}
    (applied : op.apply m = .ok flow next) :
    op.apply (m.grown extra) = .ok flow (next.grown extra) := by
  obtain ⟨taken, counted⟩ := step_of_apply form applied
  rw [Op.apply_eq large op counted, Op.step_grown_ok extra form taken, Op.flow_of_apply applied]

theorem apply_grown_error (form : m.WellFormed) (large : (m.grown extra).WellFormed)
    {after : Machine} (failed : op.apply m = .error fault after) (settled : ¬fault.WantsRoom) :
    ∃ after, op.apply (m.grown extra) = .error fault after := by
  obtain ⟨counted, run⟩ | ⟨rfl, last, run | ⟨room, _, run, -⟩⟩ := apply_cases form op
  · rw [run] at failed
    cases step : op.step m with
    | ok taken => rw [step] at failed; cases failed
    | error cause =>
      rw [step] at failed
      cases failed
      refine ⟨m.grown extra, ?_⟩
      rw [Op.apply_eq large op counted, Op.step_grown_error extra form step settled]
  · rw [run] at failed
    cases failed
    exact absurd trivial settled
  · -- The trap does not go away: with more room there is room for the link as well.
    rw [run] at failed
    cases failed
    have more : (m.grown extra).stack.values.length < (m.grown extra).stack.capacity := by
      rw [grown_values, form.grown_capacity]
      omega
    exact ⟨_, enter_last large last more⟩

end Machine

namespace Trace

variable {m : Machine} {extra : Config} {fault : Fault} {ops : List TracedOp}

theorem stateAt_wellFormed (form : m.WellFormed) (ops : List TracedOp) (k : Nat) :
    (stateAt ops m k).WellFormed := by
  induction k with
  | zero => exact form
  | succ k ih =>
    rw [stateAt]
    split
    · exact ih.after_apply _
    · exact ih

theorem stateAt_heap_size (form : m.WellFormed) (ops : List TracedOp) (k : Nat) :
    (stateAt ops m k).heap.size = m.heap.size := by
  induction k with
  | zero => rfl
  | succ k ih =>
    rw [stateAt]
    split
    · exact ((stateAt_wellFormed form ops k).follows_apply _).size.trans ih
    · exact ih

theorem stateAt_grown (form : m.WellFormed) (large : (m.grown extra).WellFormed) {k : Nat}
    (succeed : ∀ j < k, ∃ traced flow next, ops[j]? = some traced ∧
      traced.op.apply (stateAt ops m j) = .ok flow next) :
    stateAt ops (m.grown extra) k = (stateAt ops m k).grown extra := by
  induction k with
  | zero => rfl
  | succ k ih =>
    obtain ⟨traced, flow, next, found, applied⟩ := succeed k (Nat.lt_succ_self k)
    have before := ih fun j early => succeed j (Nat.lt_succ_of_lt early)
    have grown := stateAt_wellFormed large ops k
    rw [before] at grown
    have again := Machine.apply_grown (stateAt_wellFormed form ops k) grown applied
    rw [stateAt, stateAt, found, before]
    dsimp only
    rw [Action.after_ok applied, Action.after_ok again]

theorem runOps_grown (form : m.WellFormed) (large : (m.grown extra).WellFormed) {code : Nat}
    (runs : runOps m ops = .ok code) : runOps (m.grown extra) ops = .ok code := by
  induction ops generalizing m with
  | nil => exact runs
  | cons traced rest ih =>
    rw [runOps] at runs ⊢
    cases applied : traced.op.apply m with
    | error fault after => rw [applied] at runs; cases runs
    | ok flow next =>
      have again := Machine.apply_grown form large applied
      rw [applied] at runs
      rw [again]
      cases flow with
      | halt => exact runs
      | next =>
        have form' := form.after_apply traced.op
        have large' := large.after_apply traced.op
        rw [Action.after_ok applied] at form'
        rw [Action.after_ok again] at large'
        exact ih form' large' runs

theorem FailsAt.grown (form : m.WellFormed) (large : (m.grown extra).WellFormed) {i : Nat}
    (failing : FailsAt ops m i fault) (settled : ¬fault.WantsRoom) :
    FailsAt ops (m.grown extra) i fault := by
  have succeed : ∀ j < i, ∃ traced flow next, ops[j]? = some traced ∧
      traced.op.apply (stateAt ops m j) = .ok flow next := by
    intro j early
    obtain ⟨traced, next, found, applied⟩ := failing.earlier j early
    exact ⟨traced, .next, next, found, applied⟩
  -- Up to the failing operation the two runs go side by side; there the fault decides.
  have same : ∀ j ≤ i, stateAt ops (m.grown extra) j = (stateAt ops m j).grown extra :=
    fun j early => stateAt_grown form large fun k before => succeed k (before.trans_le early)
  have grown : ∀ j ≤ i, ((stateAt ops m j).grown extra).WellFormed := by
    intro j early
    rw [← same j early]
    exact stateAt_wellFormed large ops j
  refine ⟨fun j early => ?_, ?_⟩
  · obtain ⟨traced, next, found, applied⟩ := failing.earlier j early
    refine ⟨traced, next.grown extra, found, ?_⟩
    rw [same j early.le]
    exact Machine.apply_grown (stateAt_wellFormed form ops j) (grown j early.le) applied
  · obtain ⟨traced, after, found, fails⟩ := failing.fails
    obtain ⟨left, again⟩ :=
      Machine.apply_grown_error (stateAt_wellFormed form ops i) (grown i le_rfl) fails settled
    refine ⟨traced, left, found, ?_⟩
    rw [same i le_rfl]
    exact again

/-- More room never changes what a trace does. Where the run on a fresh machine succeeds, it succeeds
on every larger one, and after each operation the two machines agree in all that the smaller one
has, the rest of the larger one being unused. Where it fails for another reason than want of room,
the larger one fails at the same operation with the same fault. -/
theorem run_on_larger_machine {small large : Config} (addressable : large.Addressable)
    (stack : small.stackCapacity ≤ large.stackCapacity) (heap : small.heapSize ≤ large.heapSize)
    (hooks : small.hookCount ≤ large.hookCount) (trace : Trace) :
    (∀ code, trace.run (.fresh small) = .ok code →
      trace.run (.fresh large) = .ok code ∧
      ∀ k ≤ executed trace.ops,
        (stateAt trace.ops (.fresh small) k).AgreesBelow small.heapSize
          (stateAt trace.ops (.fresh large) k)) ∧
    (∀ i fault, FailsAt trace.ops (.fresh small) i fault → ¬fault.WantsRoom →
      FailsAt trace.ops (.fresh large) i fault ∧ trace.run (.fresh large) = .error fault) := by
  obtain ⟨extra, same⟩ : ∃ extra, (Machine.fresh small).grown extra = .fresh large := by
    refine ⟨⟨large.stackCapacity - small.stackCapacity, large.heapSize - small.heapSize,
      large.hookCount - small.hookCount⟩, ?_⟩
    rw [Machine.fresh_grown, Nat.add_sub_of_le stack, Nat.add_sub_of_le heap, Nat.add_sub_of_le hooks]
  have form : (Machine.fresh small).WellFormed :=
    Machine.fresh_wellFormed ⟨stack.trans_lt addressable.stack, heap.trans_lt addressable.heap⟩
  have form' := Machine.fresh_wellFormed addressable
  rw [← same] at form' ⊢
  refine ⟨fun code runs => ⟨runOps_grown form form' runs, fun k early => ?_⟩,
    fun i fault failing settled => ?_⟩
  · have size : (stateAt trace.ops (.fresh small) k).heap.size = small.heapSize :=
      (stateAt_heap_size form trace.ops k).trans Array.size_replicate
    rw [stateAt_grown form form' fun j before => applied_of_run runs (before.trans_le early), ← size]
    exact Machine.grown_agrees (stateAt_wellFormed form trace.ops k)
  · have fails := failing.grown form form' settled
    exact ⟨fails, fails.run⟩

theorem run_on_larger_machine_after_allocation :
    let trace := ofOps [.push (.ofNat 1), .allocate]
    trace.run (.fresh ⟨1, 4, 0⟩) = .ok success ∧ trace.run (.fresh ⟨3, 16, 2⟩) = .ok success ∧
      (stateAt trace.ops (.fresh ⟨1, 4, 0⟩) 2).AgreesBelow 4
        (stateAt trace.ops (.fresh ⟨3, 16, 2⟩) 2) := by
  intro trace
  have runs : trace.run (.fresh ⟨1, 4, 0⟩) = .ok success := by cbv
  have addressable : Config.Addressable ⟨3, 16, 2⟩ := ⟨by decide, by decide⟩
  have stack : (⟨1, 4, 0⟩ : Config).stackCapacity ≤ (⟨3, 16, 2⟩ : Config).stackCapacity := by decide
  obtain ⟨successes, -⟩ := run_on_larger_machine addressable stack (by decide) (by decide) trace
  obtain ⟨again, agree⟩ := successes success runs
  exact ⟨runs, again, agree 2 (by decide)⟩

end Trace
end StackMachine
