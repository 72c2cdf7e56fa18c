import Mathlib
import StackMachine.Proofs.StepRun

/-! The machines that programs can meet. A step keeps the sizes of all parts and the soundness of the
heap, so every machine that operations lead to from a fresh one is well formed, whichever way the
operations ended. On such machines an operation that fails leaves everything as it was. -/
namespace StackMachine

/-- Stack and heap are smaller than half of the words, as in any memory. -/
structure Config.Addressable (config : Config) : Prop where
  stack : config.stackCapacity < 2 ^ 63
  heap : config.heapSize < 2 ^ 63

namespace Machine

variable {m next : Machine} {values : List Value} {fault : Fault} {config : Config}

structure Follows (m next : Machine) : Prop where
  stack : ∃ values, values.length ≤ m.stack.capacity ∧ next.stack = .holding m.stack.capacity values
  heap : next.heap.Sound
  size : next.heap.size = m.heap.size
  hooks : next.hooks.size = m.hooks.size
  depth : next.frameDepth < Word.limit

theorem Follows.capacity (follows : m.Follows next) : next.stack.capacity = m.stack.capacity := by
  obtain ⟨values, fits, stack⟩ := follows.stack
  rw [stack, OperandStack.holding_capacity fits]

theorem WellFormed.of_follows (form : m.WellFormed) (follows : m.Follows next) :
    next.WellFormed := by
  have capacity := follows.capacity
  obtain ⟨values, fits, stack⟩ := follows.stack
  have live : next.stack.values = values := by rw [stack, OperandStack.holding_values]
  refine ⟨?_, ?_, ?_, follows.heap, follows.size.trans_lt form.size, follows.depth⟩
  · rw [keeping, live, capacity, ← stack]
  · rw [live, capacity]
    exact fits
  · rw [capacity]
    exact form.capacity

theorem WellFormed.follows (form : m.WellFormed) (fits : values.length ≤ m.stack.capacity) :
    m.Follows (m.keeping values) := 
  ⟨⟨values, fits, rfl⟩, form.heap, rfl, rfl, form.depth⟩

theorem WellFormed.shrinks (form : m.WellFormed) (fewer : values.length ≤ m.stack.values.length) :
    m.Follows (m.keeping values) := form.follows (fewer.trans form.fits)

theorem WellFormed.follows_self (form : m.WellFormed) : m.Follows m :=
  ⟨⟨m.stack.values, form.fits, congrArg Machine.stack form.stack.symm⟩, form.heap, rfl, rfl, form.depth⟩

theorem Follows.withHeap {heap : Heap} (follows : m.Follows next) (sound : heap.Sound)
    (size : heap.size = m.heap.size) : m.Follows (next.withHeap heap) :=
  ⟨follows.stack, sound, size, follows.hooks, follows.depth⟩

theorem Follows.frame (follows : m.Follows next) (base : Nat) {depth : Nat}
    (counted : depth < Word.limit) :
    m.Follows { next with basePointer := base, frameDepth := depth } :=
  ⟨follows.stack, follows.heap, follows.size, follows.hooks, counted⟩

theorem push_follows (form : m.WellFormed) {v : Value} (taken : Step.push v m = .ok next) :
    m.Follows next := by
  obtain ⟨room, rfl⟩ := Step.push_ok taken
  exact form.follows room

theorem replace_follows (form : m.WellFormed) {f : Value → Value}
    (taken : Step.replace f m = .ok next) : m.Follows next := by
  obtain ⟨v, rest, live, rfl⟩ := Step.replace_ok taken
  exact form.shrinks (by simp [live])

theorem allocate_follows (form : m.WellFormed) {address : Nat}
    (taken : Step.allocate m = .ok (address, next)) : m.Follows next := by
  obtain ⟨count, rest, _, _, heap, live, -, -, allocated, rfl⟩ := Step.allocate_ok taken
  obtain ⟨-, size, sound⟩ := Heap.allocation_ok form.heap allocated
  exact (form.shrinks (by simp [live])).withHeap sound size

theorem parseText_follows (form : m.WellFormed) {kind : Numeral.Kind} {operation : String} {v : Value}
    (taken : Step.parseText kind operation m = .ok (v, next)) : m.Follows next := by
  obtain ⟨count, top, rest, _, _, _, live, -, -, -, -, -, rfl⟩ := Step.parseText_ok taken
  exact form.shrinks (by simp [live])

theorem formatText_follows (form : m.WellFormed) {kind : Numeral.Kind} {operation : String}
    {address : Nat} (taken : Step.formatText kind operation m = .ok (address, next)) :
    m.Follows next := by
  obtain ⟨v, rest, heap, live, allocated, rfl⟩ := Step.formatText_ok taken
  obtain ⟨-, size, sound⟩ := Heap.allocation_ok form.heap allocated
  exact (form.shrinks (by simp [live])).withHeap (sound.writing _)
    ((Heap.writing_size ..).trans size)

theorem step_follows (form : m.WellFormed) {op : Op} (taken : op.step m = .ok next)
    (counted : op = .enter → m.frameDepth < Word.last) : m.Follows next := by
  cases op with
  | push v => exact push_follows form taken
  | binary op =>
    obtain ⟨a, b, rest, result, live, -, rfl⟩ := Step.binary_ok taken
    exact form.shrinks (by simp [live])
  | sign => exact replace_follows form taken
  | allocate =>
    obtain ⟨address, answered⟩ := Action.map_snd_ok taken
    exact allocate_follows form answered
  | free =>
    obtain ⟨top, count, rest, _, _, _, heap, live, -, -, -, released, rfl⟩ := Step.free_ok taken
    obtain ⟨size, sound⟩ := Heap.release_ok form.heap released
    exact (form.shrinks (by rw [live]; exact Nat.le_add_right _ 2)).withHeap sound size
  | store slots =>
    obtain ⟨address, _, -, -, -, -, rfl⟩ := Step.store_ok taken
    refine (form.shrinks ?_).withHeap (form.heap.writing _) (Heap.writing_size ..)
    rw [List.length_drop, List.length_tail]
    omega
  | load slots =>
    obtain ⟨top, rest, address, _, live, -, -, -, room, rfl⟩ := Step.load_ok taken
    have fits : rest.length < m.stack.capacity := by simpa [live] using form.fits
    refine form.follows ?_
    rw [List.length_append, List.length_reverse, Heap.slotsAt_length]
    omega
  | copy =>
    obtain ⟨reference, rest, _, live, -, rfl⟩ := Step.copy_ok taken
    exact form.shrinks (by simp [live])
  | move =>
    obtain ⟨reference, v, rest, _, live, -, rfl⟩ := Step.move_ok taken
    refine form.shrinks ?_
    rw [List.length_reverse, List.length_set, List.length_reverse, live, List.length_cons,
      List.length_cons]
    omega
  | hook index =>
    obtain ⟨-, -, rfl⟩ := Step.hook_ok taken
    obtain ⟨stack, heap, size, -, depth⟩ := form.follows_self
    exact ⟨stack, heap, size, Array.size_setIfInBounds, depth⟩
  | readHook index =>
    obtain ⟨_, -, -, pushed⟩ := Step.readHook_ok taken
    exact push_follows form pushed
  | loadBasePointer => exact push_follows form taken
  | enter =>
    obtain ⟨room, rfl⟩ := Step.enter_ok taken
    have depth : m.frameDepth + 1 < Word.limit := Nat.add_lt_of_lt_sub (counted rfl)
    exact (form.follows (by exact room)).frame _ depth
  | leave args locals =>
    obtain ⟨saved, -, -, -, -, rfl⟩ := Step.leave_ok taken
    exact (form.shrinks (by simp)).frame _ ((Nat.sub_le _ 1).trans_lt form.depth)
  | setReturn =>
    obtain ⟨v, rest, live, rfl⟩ := Step.setReturn_ok taken
    have fewer : rest.length ≤ m.stack.values.length := by simp [live]
    obtain ⟨stack, heap, size, hooks, depth⟩ := form.shrinks fewer
    exact ⟨stack, heap, size, hooks, depth⟩
  | getReturn => exact push_follows form taken
  | textToInteger | textToFloat =>
    obtain ⟨v, answered⟩ := Action.map_snd_ok taken
    exact parseText_follows form answered
  | integerToText | floatToText =>
    obtain ⟨address, answered⟩ := Action.map_snd_ok taken
    exact formatText_follows form answered
  | floatToInteger => exact replace_follows form taken
  | integerToFloat =>
    rw [Step.integerToFloat_ok taken]
    exact form.follows_self
  | halt =>
    cases taken
    exact form.follows_self

/-- Where the count of frames is used up, the link is on the stack already when the count stops. -/
theorem enter_last (form : m.WellFormed) (last : m.frameDepth = Word.last)
    (room : m.stack.values.length < m.stack.capacity) :
    Op.enter.apply m = .error (.trap .arithmetic) ({ m with
      basePointer := m.stack.values.length + 1 }.keeping
        (Value.ofNat m.basePointer :: m.stack.values)) := by
  have counted : Word.add m.frameDepth 1 = .error .arithmetic := by
    rw [last]
    rfl
  have run := enter_keeping room form.capacity
  rw [counted, form.stack] at run
  exact Action.bind_error run

theorem enter_full (form : m.WellFormed) (full : ¬m.stack.values.length < m.stack.capacity) :
    Op.enter.apply m = .error (.stackOverflow m.stack.capacity) m := by
  have run := enter_keeping_full (form.fits.antisymm (Nat.not_lt.mp full))
  rw [form.stack] at run
  exact Action.bind_error run

/-- How an operation ends on a well-formed machine: as its step says, except that entering a frame
when the count is used up finds the stack full or ends in a trap. -/
theorem apply_cases (form : m.WellFormed) (op : Op) :
    ((op = .enter → m.frameDepth < Word.last) ∧
      op.apply m = match op.step m with
        | .ok next => .ok op.flow next
        | .error fault => .error fault m) ∨
    (op = .enter ∧ m.frameDepth = Word.last ∧
      (op.apply m = .error (.stackOverflow m.stack.capacity) m ∨
        m.stack.values.length < m.stack.capacity ∧
          ∃ next, op.apply m = .error (.trap .arithmetic) next ∧ m.Follows next)) := by
  by_cases counted : op = .enter → m.frameDepth < Word.last
  · exact .inl ⟨counted, Op.apply_eq form op counted⟩
  obtain ⟨rfl, used⟩ := Classical.not_imp.mp counted
  have last : m.frameDepth = Word.last := by
    have depth := form.depth
    rw [Word.last, Word.limit] at *
    omega
  refine .inr ⟨rfl, last, ?_⟩
  by_cases room : m.stack.values.length < m.stack.capacity
  · have fits : (Value.ofNat m.basePointer :: m.stack.values).length ≤ m.stack.capacity := room
    obtain ⟨stack, heap, size, hooks, depth⟩ := form.follows fits
    exact .inr ⟨room, _, enter_last form last room, stack, heap, size, hooks, depth⟩
  · exact .inl (enter_full form room)

theorem step_of_apply (form : m.WellFormed) {op : Op} {flow : Flow}
    (applied : op.apply m = .ok flow next) :
    op.step m = .ok next ∧ (op = .enter → m.frameDepth < Word.last) := by
  obtain ⟨counted, run⟩ | ⟨-, -, run | ⟨-, _, run, -⟩⟩ := apply_cases form op
  · rw [run] at applied
    cases step : op.step m with
    | error fault => rw [step] at applied; cases applied
    | ok taken =>
      rw [step] at applied
      cases applied
      exact ⟨rfl, counted⟩
  · rw [run] at applied
    cases applied
  · rw [run] at applied
    cases applied

/-- An operation takes its step, or it fails; then heap and hooks are as they were, also where the count
of frames is used up. -/
theorem apply_ends (form : m.WellFormed) (op : Op) :
    (∃ next, op.step m = .ok next ∧ op.apply m = .ok op.flow next) ∨
      ∃ fault next, op.apply m = .error fault next ∧ next.heap = m.heap ∧ next.hooks = m.hooks := by
  obtain ⟨-, run⟩ | ⟨rfl, last, run | ⟨room, -⟩⟩ := apply_cases form op
  · cases step : op.step m with
    | ok next =>
      rw [step] at run
      exact .inl ⟨next, rfl, run⟩
    | error fault =>
      rw [step] at run
      exact .inr ⟨fault, m, run, rfl, rfl⟩
  · exact .inr ⟨_, m, run, rfl, rfl⟩
  · exact .inr ⟨_, _, enter_last form last room, rfl, rfl⟩

theorem WellFormed.follows_apply (form : m.WellFormed) (op : Op) :
    m.Follows (Action.after op.apply m) := by
  obtain ⟨counted, run⟩ | ⟨-, -, run | ⟨-, next, run, follows⟩⟩ := apply_cases form op
  · cases step : op.step m with
    | ok next =>
      rw [step] at run
      rw [Action.after_ok run]
      exact step_follows form step counted
    | error fault =>
      rw [step] at run
      rw [Action.after_error run]
      exact form.follows_self
  · rw [Action.after_error run]
    exact form.follows_self
  · rw [Action.after_error run]
    exact follows

theorem WellFormed.after_apply (form : m.WellFormed) (op : Op) :
    (Action.after op.apply m).WellFormed := form.of_follows (form.follows_apply op)

theorem WellFormed.of_apply (form : m.WellFormed) {op : Op} {flow : Flow}
    (applied : op.apply m = .ok flow next) : next.WellFormed :=
  Action.after_ok applied ▸ form.after_apply op

theorem WellFormed.follows_pop (form : m.WellFormed) : m.Follows (Action.after pop m) := by
  have fits := form.fits
  have stack := form.stack
  cases live : m.stack.values with
  | nil =>
    rw [live] at stack
    have run : pop (m.keeping []) = _ := pop_keeping_nil
    rw [stack] at run
    rw [Action.after_error run]
    exact form.follows_self
  | cons v rest =>
    rw [live] at stack fits
    have run := pop_keeping fits
    rw [stack] at run
    rw [Action.after_ok run]
    exact form.follows (Nat.le_of_succ_le fits)

theorem WellFormed.after_pop (form : m.WellFormed) : (Action.after pop m).WellFormed :=
  form.of_follows form.follows_pop

theorem after_onStack {α : Type} (action : Action OperandStack α) :
    ∃ stack, Action.after (onStack action) m = { m with stack := stack } := by
  rw [Action.after, onStack]
  cases action m.stack with
  | ok _ stack => exact ⟨stack, rfl⟩
  | error _ stack => exact ⟨stack, rfl⟩

theorem fresh_wellFormed (addressable : config.Addressable) : (fresh config).WellFormed := by
  have stack : (fresh config).stack = .holding config.stackCapacity [] :=
    OperandStack.empty_eq_holding _
  have capacity : (fresh config).stack.capacity = config.stackCapacity := by
    rw [stack, OperandStack.holding_capacity (Nat.zero_le _)]
  have live : (fresh config).stack.values = [] := by rw [stack, OperandStack.holding_values]
  refine ⟨?_, ?_, ?_, Heap.empty_sound _, ?_, Nat.two_pow_pos 64⟩
  · rw [keeping, live, capacity, ← stack]
  · rw [live]
    exact Nat.zero_le _
  · rw [capacity]
    exact addressable.stack
  · have size : (fresh config).heap.size = config.heapSize := Array.size_replicate
    rw [size]
    exact addressable.heap

/-- The machines that operations lead to from a fresh one, whichever way each operation ends. -/
inductive Reachable (config : Config) : Machine → Prop
  | fresh : Reachable config (fresh config)
  | apply {m : Machine} (op : Op) : Reachable config m → Reachable config (Action.after op.apply m)
  | pop {m : Machine} : Reachable config m → Reachable config (Action.after pop m)

theorem Reachable.wellFormed (addressable : config.Addressable) (reachable : Reachable config m) :
    m.WellFormed := by
  induction reachable with
  | fresh => exact fresh_wellFormed addressable
  | apply op _ ih => exact ih.after_apply op
  | pop _ ih => exact ih.after_pop

theorem Reachable.operations (reachable : Reachable config m) (ops : List Op) :
    Reachable config (ops.foldl (fun m op => Action.after op.apply m) m) := by
  induction ops generalizing m with
  | nil => exact reachable
  | cons op rest ih => exact ih (reachable.apply op)

theorem Reachable.sizes (addressable : config.Addressable) (reachable : Reachable config m) :
    m.stack.capacity = config.stackCapacity ∧ m.heap.size = config.heapSize ∧
      m.hooks.size = config.hookCount := by
  induction reachable with
  | fresh => exact ⟨Array.size_replicate, Array.size_replicate, Array.size_replicate⟩
  | apply op before ih =>
    have follows := (before.wellFormed addressable).follows_apply op
    rw [follows.capacity, follows.size, follows.hooks]
    exact ih
  | pop before ih =>
    have follows := (before.wellFormed addressable).follows_pop
    rw [follows.capacity, follows.size, follows.hooks]
    exact ih

theorem Reachable.heap_induction {P : Heap → Prop} (addressable : config.Addressable)
    (initial : P (.empty config.heapSize))
    (kept : ∀ {m next : Machine} {op : Op}, m.WellFormed → P m.heap → op.step m = .ok next →
      P next.heap) (reachable : Reachable config m) : P m.heap := by
  induction reachable with
  | fresh => exact initial
  | @apply m op before ih =>
    have form := before.wellFormed addressable
    obtain ⟨next, step, run⟩ | ⟨fault, next, run, heap, -⟩ := apply_ends form op
    · rw [Action.after_ok run]
      exact kept form ih step
    · rw [Action.after_error run, heap]
      exact ih
  | @pop m before ih =>
    obtain ⟨stack, same⟩ := after_onStack (m := m) OperandStack.pop
    rw [Machine.pop, same]
    exact ih

/-- An operation that fails leaves the whole machine as it was. The only ending that does not is the
overflow of the frame counter, which is no fault of a program but a trap. -/
theorem failed_operation_changes_nothing (addressable : config.Addressable)
    (reachable : Reachable config m) (op : Op) (failed : op.apply m = .error fault next) :
    next = m ∨ (fault = .trap .arithmetic ∧ op = .enter ∧ m.frameDepth = Word.last) := by
  have form := reachable.wellFormed addressable
  obtain ⟨-, run⟩ | ⟨enters, last, run | ⟨-, _, run, -⟩⟩ := apply_cases form op
  · rw [run] at failed
    cases step : op.step m with
    | ok taken => rw [step] at failed; cases failed
    | error cause => rw [step] at failed; cases failed; exact .inl rfl
  · rw [run] at failed
    cases failed
    exact .inl rfl
  · rw [run] at failed
    cases failed
    exact .inr ⟨rfl, enters, last⟩

theorem failed_allocation_changes_nothing :
    let m := Action.after (Op.push (.ofNat 4)).apply (fresh ⟨2, 8, 1⟩)
    Op.allocate.apply m = .error (.noFreeMemory 16 8) m := by
  intro m
  have addressable : Config.Addressable ⟨2, 8, 1⟩ := ⟨by decide, by decide⟩
  have failed : Op.allocate.apply m =
      .error (.noFreeMemory 16 8) (Action.after Op.allocate.apply m) := by cbv
  have unchanged := failed_operation_changes_nothing addressable (.apply _ .fresh) .allocate failed
  exact failed.trans (congrArg _ (unchanged.resolve_right (by simp)))

end Machine
end StackMachine
