import Mathlib
import StackMachine.Proofs.Reachable

/-! What an operation touches. By how much it moves the stack pointer is known from the operation alone,
`Op.stackEffect`: it takes its operands from the top and leaves its results in their place. All that
lies below the operands stays, but for the slot that `move` names; so do the parts of the machine that
the operation has no business with. `Op.Effect` says this of a machine and the next one, and it holds
of every operation that succeeds. -/
namespace StackMachine

namespace OperandStack

variable {capacity i : Nat} {values : List Value}

theorem top?_eq_head? (s : OperandStack) : s.top? = s.values.head? := by
  simp [top?, values]

theorem holding_slot_live (live : i < values.length) :
    (holding capacity values).slots[i]? = values.reverse[i]? := by
  simp only [holding, List.getElem?_toArray]
  exact List.getElem?_append_left (by simpa using live)

theorem holding_slot_dead (dead : values.length ≤ i) (inside : i < capacity) :
    (holding capacity values).slots[i]? = some .zero := by
  simp only [holding, List.getElem?_toArray]
  rw [List.getElem?_append_right (by simpa using dead), List.length_reverse]
  exact List.getElem?_replicate_of_lt (by omega)

end OperandStack

theorem Word.add_le_of_saturatingAdd_le {a b n : Nat} (cut : saturatingAdd a b ≤ n)
    (below : n < last) : a + b ≤ n := by
  rw [saturatingAdd] at cut
  omega

theorem Machine.resolve_names {reference : Value} {live index : Nat} {operation : String}
    (resolved : resolve reference live operation = .ok index) :
    reference.toIndex? = some (index + 1) := by
  rw [resolve_eq, Value.expectIndex] at resolved
  cases named : reference.toIndex? with
  | none => simp [named, bind, Except.bind] at resolved
  | some r =>
    simp only [named, bind, Except.bind] at resolved
    split_ifs at resolved with zero
    cases resolved
    exact congrArg some (by omega)

theorem Machine.WellFormed.length_lt_last {m : Machine} (form : m.WellFormed) :
    m.stack.values.length < Word.last := by
  have fits := form.fits
  have words := form.capacity
  rw [Word.last, Word.limit]
  omega

/-- `leave` asks for the locals, the link, the return slot and the arguments; on a stack of words the cut
at the last word makes no difference. -/
theorem Machine.WellFormed.leave_required {m : Machine} (form : m.WellFormed) {args locals : Nat} :
    Word.saturatingAdd (Word.saturatingAdd locals 2) args ≤ m.stack.pointer ↔
      locals + 2 + args ≤ m.stack.values.length := by
  have short := form.length_lt_last
  rw [form.pointer, Word.saturatingAdd, Word.saturatingAdd]
  omega

namespace Op

def stackEffect : Op → Int
  | .push _ | .readHook _ | .loadBasePointer | .enter | .getReturn => 1
  | .binary _ | .setReturn | .textToInteger | .textToFloat => -1
  | .free | .move => -2
  | .store slots => -(slots.toNat + 1)
  | .load slots => slots.toNat - 1
  | .leave args locals => -(args.toNat + locals.toNat + 2)
  | .sign | .allocate | .copy | .hook _ | .integerToText | .floatToText | .floatToInteger
  | .integerToFloat | .halt => 0

def operands : Op → Nat
  | .push _ | .hook _ | .readHook _ | .loadBasePointer | .enter | .getReturn | .integerToFloat
  | .halt => 0
  | .sign | .allocate | .load _ | .copy | .setReturn | .integerToText | .floatToText
  | .floatToInteger => 1
  | .binary _ | .free | .move | .textToInteger | .textToFloat => 2
  | .store slots => slots.toNat + 1
  | .leave args locals => locals.toNat + 2 + args.toNat

def results : Op → Nat
  | .free | .store _ | .move | .hook _ | .leave _ _ | .setReturn | .integerToFloat | .halt => 0
  | .push _ | .binary _ | .sign | .allocate | .copy | .readHook _ | .loadBasePointer | .enter
  | .getReturn | .textToInteger | .textToFloat | .integerToText | .floatToText
  | .floatToInteger => 1
  | .load slots => slots.toNat

theorem results_sub_operands (op : Op) : (op.results : Int) - op.operands = op.stackEffect := by
  cases op <;> simp only [results, operands, stackEffect] <;> omega

def movesFrame : Op → Bool
  | .enter | .leave _ _ => true
  | _ => false

def writesHeap : Op → Bool
  | .allocate | .free | .store _ | .integerToText | .floatToText => true
  | _ => false

/-- The slot that an operation overwrites below its operands: `move` names it by a reference. -/
def Names (op : Op) (m : Machine) (i : Nat) : Prop :=
  op = .move ∧ m.stack.top?.bind Value.toIndex? = some (i + 1)

structure Spares (op : Op) (m next : Machine) : Prop where
  frame : op.movesFrame = false →
    next.basePointer = m.basePointer ∧ next.frameDepth = m.frameDepth
  returnRegister : op ≠ .setReturn → next.returnRegister = m.returnRegister
  hooks : ∀ i, (∀ index, op = .hook index → index.toNat ≠ i) → next.hooks[i]? = m.hooks[i]?
  heap : op.writesHeap = false → next.heap = m.heap

structure Effect (op : Op) (m next : Machine) : Prop extends op.Spares m next where
  pointer : (next.stack.pointer : Int) = m.stack.pointer + op.stackEffect
  operands : op.operands ≤ m.stack.pointer
  below : ∀ i < m.stack.pointer - op.operands, ¬op.Names m i →
    next.stack.slots[i]? = m.stack.slots[i]?
  dead : ∀ i, next.stack.pointer ≤ i → i < next.stack.capacity →
    next.stack.slots[i]? = some .zero
  capacity : next.stack.capacity = m.stack.capacity
  heapSize : next.heap.size = m.heap.size
  hookCount : next.hooks.size = m.hooks.size

/-- The stack after an operation: the results stand in place of the operands, and of the values below
only the one that the operation names may be another. -/
def Rewrites (op : Op) (m next : Machine) : Prop :=
  ∃ taken given below kept : List Value,
    m.stack.values = taken ++ below ∧ taken.length = op.operands ∧ given.length = op.results ∧
    next.stack = .holding m.stack.capacity (given ++ kept) ∧ kept.length = below.length ∧
    ∀ i, ¬op.Names m i → kept.reverse[i]? = below.reverse[i]?

variable {op : Op} {m next : Machine} {below values : List Value} {heap : Heap}

theorem Rewrites.of_kept (taken given : List Value) (live : m.stack.values = taken ++ below)
    (count : taken.length = op.operands) (left : given.length = op.results)
    (stack : next.stack = .holding m.stack.capacity (given ++ below)) : op.Rewrites m next :=
  ⟨taken, given, below, below, live, count, left, stack, rfl, fun _ _ => rfl⟩

theorem Rewrites.of_same (form : m.WellFormed) (stack : next.stack = m.stack)
    (taken : op.operands = 0) (nothing : op.results = 0) : op.Rewrites m next := by
  refine .of_kept [] [] rfl taken.symm nothing.symm ?_
  rw [stack]
  exact congrArg Machine.stack form.stack.symm

theorem Spares.of_keeping : op.Spares m (m.keeping values) :=
  ⟨fun _ => ⟨rfl, rfl⟩, fun _ => rfl, fun _ _ => rfl, fun _ => rfl⟩

theorem Spares.of_withHeap (writes : op.writesHeap = true) :
    op.Spares m ((m.keeping values).withHeap heap) :=
  ⟨fun _ => ⟨rfl, rfl⟩, fun _ => rfl, fun _ _ => rfl, fun spares => by simp [writes] at spares⟩

theorem push_touches {v : Value} (pushed : Step.push v m = .ok next) (taken : op.operands = 0)
    (one : op.results = 1) : op.Rewrites m next ∧ op.Spares m next := by
  obtain ⟨-, rfl⟩ := Step.push_ok pushed
  exact ⟨.of_kept [] [v] rfl taken.symm one.symm rfl, .of_keeping⟩

theorem replace_touches {f : Value → Value} (replaced : Step.replace f m = .ok next)
    (one : op.operands = 1) (again : op.results = 1) : op.Rewrites m next ∧ op.Spares m next := by
  obtain ⟨v, rest, live, rfl⟩ := Step.replace_ok replaced
  exact ⟨.of_kept [v] [f v] live one.symm again.symm rfl, .of_keeping⟩

theorem parseText_touches {kind : Numeral.Kind} {operation : String} {v : Value}
    (parsed : Step.parseText kind operation m = .ok (v, next)) (two : op.operands = 2)
    (one : op.results = 1) : op.Rewrites m next ∧ op.Spares m next := by
  obtain ⟨count, top, rest, _, _, _, live, -, -, -, -, -, rfl⟩ := Step.parseText_ok parsed
  exact ⟨.of_kept [count, top] [v] live two.symm one.symm rfl, .of_keeping⟩

theorem formatText_touches {kind : Numeral.Kind} {operation : String} {address : Nat}
    (formatted : Step.formatText kind operation m = .ok (address, next)) (one : op.operands = 1)
    (again : op.results = 1) (writes : op.writesHeap = true) :
    op.Rewrites m next ∧ op.Spares m next := by
  obtain ⟨v, rest, _, live, -, rfl⟩ := Step.formatText_ok formatted
  exact ⟨.of_kept [v] [.ofNat address] live one.symm again.symm rfl,
    .of_withHeap writes⟩

theorem step_touches (form : m.WellFormed) (taken : op.step m = .ok next) :
    op.Rewrites m next ∧ op.Spares m next := by
  cases op with
  | push v => exact push_touches taken rfl rfl
  | binary op =>
    obtain ⟨a, b, rest, result, live, -, rfl⟩ := Step.binary_ok taken
    exact ⟨.of_kept [b, a] [result] live rfl rfl rfl, .of_keeping⟩
  | sign => exact replace_touches taken rfl rfl
  | allocate =>
    obtain ⟨address, answered⟩ := Action.map_snd_ok taken
    obtain ⟨count, rest, _, _, heap, live, -, -, -, rfl⟩ := Step.allocate_ok answered
    exact ⟨.of_kept [count] [.ofNat address] live rfl rfl rfl,
      .of_withHeap rfl⟩
  | free =>
    obtain ⟨top, count, rest, _, _, _, heap, live, -, -, -, -, rfl⟩ := Step.free_ok taken
    exact ⟨.of_kept [top, count] [] live rfl rfl rfl, .of_withHeap rfl⟩
  | store slots =>
    obtain ⟨address, _, required, -, -, -, rfl⟩ := Step.store_ok taken
    rw [form.pointer] at required
    have enough := Word.add_le_of_saturatingAdd_le required form.length_lt_last
    cases live : m.stack.values with
    | nil => simp [live] at enough
    | cons top rest =>
      refine ⟨.of_kept (top :: rest.take slots.toNat) [] ?_ ?_ rfl rfl,
        .of_withHeap rfl⟩
      · simp [live]
      · simpa [live, operands] using enough
  | load slots =>
    obtain ⟨top, rest, address, _, live, -, -, -, -, rfl⟩ := Step.load_ok taken
    refine ⟨.of_kept [top] _ live rfl ?_ rfl, .of_keeping⟩
    simp [results]
  | copy =>
    obtain ⟨reference, rest, index, live, -, rfl⟩ := Step.copy_ok taken
    exact ⟨.of_kept [reference] [_] live rfl rfl rfl, .of_keeping⟩
  | move =>
    obtain ⟨reference, v, rest, index, live, resolved, rfl⟩ := Step.move_ok taken
    refine ⟨⟨[reference, v], [], rest, (rest.reverse.set index v).reverse, live, rfl, rfl, rfl,
      by simp, ?_⟩, .of_keeping⟩
    -- The one operation that rewrites a slot below its operands, namely the one that it names.
    intro i other
    have apart : index ≠ i := by
      rintro rfl
      refine other ⟨rfl, ?_⟩
      rw [OperandStack.top?_eq_head?, live]
      exact Machine.resolve_names resolved
    simp [List.getElem?_set_ne apart]
  | hook index =>
    obtain ⟨-, -, rfl⟩ := Step.hook_ok taken
    refine ⟨.of_same form rfl rfl rfl, fun _ => ⟨rfl, rfl⟩, fun _ => rfl, fun i other => ?_,
      fun _ => rfl⟩
    exact Array.getElem?_setIfInBounds_ne (other index rfl)
  | readHook index =>
    obtain ⟨_, -, -, pushed⟩ := Step.readHook_ok taken
    exact push_touches pushed rfl rfl
  | loadBasePointer => exact push_touches taken rfl rfl
  | enter =>
    obtain ⟨-, rfl⟩ := Step.enter_ok taken
    exact ⟨.of_kept [] [.ofNat m.basePointer] rfl rfl rfl rfl, nofun, fun _ => rfl,
      fun _ _ => rfl, fun _ => rfl⟩
  | leave args locals =>
    obtain ⟨saved, required, -, -, -, rfl⟩ := Step.leave_ok taken
    have enough := form.leave_required.mp required
    refine ⟨.of_kept (m.stack.values.take (locals.toNat + 2 + args.toNat)) [] ?_ ?_ rfl rfl, nofun,
      fun _ => rfl, fun _ _ => rfl, fun _ => rfl⟩
    · simp
    · simp [operands]
      omega
  | setReturn =>
    obtain ⟨v, rest, live, rfl⟩ := Step.setReturn_ok taken
    exact ⟨.of_kept [v] [] live rfl rfl rfl, fun _ => ⟨rfl, rfl⟩,
      fun other => absurd rfl other, fun _ _ => rfl, fun _ => rfl⟩
  | getReturn => exact push_touches taken rfl rfl
  | textToInteger | textToFloat =>
    obtain ⟨v, answered⟩ := Action.map_snd_ok taken
    exact parseText_touches answered rfl rfl
  | integerToText | floatToText =>
    obtain ⟨address, answered⟩ := Action.map_snd_ok taken
    exact formatText_touches answered rfl rfl rfl
  | floatToInteger => exact replace_touches taken rfl rfl
  | integerToFloat =>
    rw [Step.integerToFloat_ok taken]
    exact ⟨.of_same form rfl rfl rfl, fun _ => ⟨rfl, rfl⟩, fun _ => rfl, fun _ _ => rfl, fun _ => rfl⟩
  | halt =>
    cases taken
    exact ⟨.of_same form rfl rfl rfl, fun _ => ⟨rfl, rfl⟩, fun _ => rfl, fun _ _ => rfl, fun _ => rfl⟩

theorem effect_of_step (form : m.WellFormed) (counted : op = .enter → m.frameDepth < Word.last)
    (taken : op.step m = .ok next) : op.Effect m next := by
  obtain ⟨⟨operands, given, below, kept, live, count, left, stack, same, others⟩, spares⟩ :=
    step_touches form taken
  have follows := Machine.step_follows form taken counted
  -- The new stack is known twice: as what it holds, and as what the operation puts on what it kept.
  obtain ⟨values, fits, held⟩ := follows.stack
  obtain rfl : values = given ++ kept := by
    have equal := congrArg OperandStack.values (held.symm.trans stack)
    simpa using equal
  have pointer : m.stack.pointer = operands.length + below.length := by
    rw [form.pointer, live, List.length_append]
  have before : m.stack = .holding m.stack.capacity (operands ++ below) := by
    rw [← live, form.holding]
  have capacity : next.stack.capacity = m.stack.capacity := by
    rw [stack, OperandStack.holding_capacity fits]
  refine ⟨spares, ?_, by omega, fun i low other => ?_, fun i high inside => ?_, capacity, follows.size,
    follows.hooks⟩
  · rw [stack, OperandStack.holding_pointer, List.length_append, pointer, ← results_sub_operands]
    omega
  · have upper : i < kept.length := by omega
    have lower : i < below.length := by omega
    rw [before, stack, OperandStack.holding_slot_live (by simp; omega),
      OperandStack.holding_slot_live (by simp; omega), List.reverse_append, List.reverse_append,
      List.getElem?_append_left (by simpa using upper),
      List.getElem?_append_left (by simpa using lower)]
    exact others i other
  · rw [capacity] at inside
    rw [stack] at high ⊢
    exact OperandStack.holding_slot_dead high inside

end Op

namespace Machine

variable {m next : Machine} {config : Config}

/-- An operation that succeeds moves the stack pointer by an amount that it has of itself, clears what
it gives up, and leaves alone what it has no business with. -/
theorem operation_effect (addressable : config.Addressable) (reachable : Reachable config m) (op : Op)
    {flow : Flow} (applied : op.apply m = .ok flow next) : op.Effect m next := by
  have form := reachable.wellFormed addressable
  obtain ⟨taken, counted⟩ := step_of_apply form applied
  exact Op.effect_of_step form counted taken

/-- Taking down a frame with one argument and one local gives up four slots. -/
theorem leave_effect :
    let m := [Op.push (.ofNat 7), .push (.ofNat 0), .enter, .push (.ofNat 9)].foldl
      (fun m op => Action.after op.apply m) (fresh ⟨4, 8, 1⟩)
    m.stack.pointer = 4 ∧ ∃ next, (Op.leave 1 1).apply m = .ok .next next ∧
      (Op.leave 1 1).stackEffect = -4 ∧ (Op.leave 1 1).Effect m next := by
  have addressable : Config.Addressable ⟨4, 8, 1⟩ := ⟨by decide, by decide⟩
  refine ⟨by decide +kernel, fresh ⟨4, 8, 1⟩, ?applied, rfl,
    operation_effect addressable (Reachable.fresh.operations _) _ ?applied⟩
  case applied => cbv

end Machine
end StackMachine
