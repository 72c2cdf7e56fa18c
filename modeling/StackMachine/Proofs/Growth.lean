import Mathlib
import StackMachine.Proofs.StepRun

/-! More room changes nothing else. A machine can be given a longer stack, a longer heap and more
hooks, `Machine.grown`; what it holds stays where it is. An operation on the grown machine does what
it does on the machine itself, unless that one fails for want of room: the first free run of an arena
is also the first one of a longer arena, and no operation looks at a size but to refuse. What this
means for runs is in `StackMachine.Proofs.Monotonicity`. -/
namespace StackMachine

def Fault.WantsRoom : Fault → Prop
  | .stackOverflow _ => True
  | .noFreeMemory _ _ => True
  | .invalidAddress .heap _ _ => True
  | .invalidAddress .hook _ _ => True
  | _ => False

/-- A computation ends with more room as it does with less, up to `lift`, unless it wants room. -/
def Carries {α β : Type} (lift : α → β) (small : Except Fault α) (large : Except Fault β) : Prop :=
  match small with
  | .ok a => large = .ok (lift a)
  | .error fault => fault.WantsRoom ∨ large = .error fault

namespace Carries

variable {α β γ δ : Type} {lift : α → β} {raise : γ → δ}

theorem bind {x : Except Fault α} {y : Except Fault β} {f : α → Except Fault γ}
    {g : β → Except Fault δ} (first : Carries lift x y)
    (rest : ∀ a, x = .ok a → Carries raise (f a) (g (lift a))) : Carries raise (x >>= f) (y >>= g) := by
  cases x with
  | ok a =>
    cases first
    exact rest a rfl
  | error fault =>
    refine first.imp_right fun same => ?_
    rw [same]
    rfl

theorem check {x : Except Fault α} {f : α → Except Fault γ} {g : α → Except Fault δ}
    (rest : ∀ a, x = .ok a → Carries raise (f a) (g a)) : Carries raise (x >>= f) (x >>= g) := by
  cases x with
  | ok a => exact rest a rfl
  | error fault => exact .inr rfl

theorem map_snd {x : Except Fault (α × γ)} {y : Except Fault (α × δ)}
    (both : Carries (Prod.map id raise) x y) :
    Carries raise (x.map Prod.snd) (y.map Prod.snd) := by
  cases x with
  | ok pair =>
    cases both
    rfl
  | error fault =>
    refine both.imp_right fun same => ?_
    rw [same]
    rfl

end Carries

theorem Cells.overlay_extended {α : Type} (cells extra : Array α) (start : Nat) (xs : List α)
    (inside : start + xs.length ≤ cells.size) :
    overlay (cells ++ extra) start xs = overlay cells start xs ++ extra := by
  induction xs generalizing cells start with
  | nil => rfl
  | cons x rest ih =>
    rw [List.length_cons] at inside
    rw [overlay, Array.setIfInBounds_append_left (by omega),
      ih _ _ (by rw [Array.size_setIfInBounds]; omega), overlay]

namespace Heap

variable {h : Heap}

def grown (h : Heap) (extra : Nat) : Heap :=
  ⟨h.bytes ++ Array.replicate extra 0, h.taken ++ Array.replicate extra false, h.live⟩

theorem grown_size (extra : Nat) : (h.grown extra).size = h.size + extra := by
  simp [grown, size]

theorem empty_grown (size extra : Nat) : (empty size).grown extra = empty (size + extra) := by
  simp [empty, grown]

theorem writing_grown {address : Nat} {data : List UInt8} (extra : Nat)
    (inside : address + data.length ≤ h.size) :
    (h.writing address data).grown extra = (h.grown extra).writing address data := by
  rw [writing, grown, writing, grown, Cells.overlay_extended _ _ _ _ inside]

theorem slotsAt_grown {address n : Nat} (extra : Nat)
    (inside : address + n * Value.slotSize ≤ h.size) :
    (h.grown extra).slotsAt address n = h.slotsAt address n := by
  induction n generalizing address with
  | zero => rfl
  | succ n ih =>
    rw [Nat.succ_mul] at inside
    have slot : (h.grown extra).slotAt address = h.slotAt address := by
      have first : address + Value.slotSize ≤ h.bytes.size := by
        change address + Value.slotSize ≤ h.size
        omega
      rw [slotAt, slotAt, grown, Array.extract_append, Nat.sub_eq_zero_of_le first]
      simp
    rw [slotsAt, slotsAt, slot, ih (by omega)]

theorem runEnd_extended {size position run stop : Nat} {taken : List Bool} (extra : List Bool)
    (found : runEnd size position run taken = some stop) :
    runEnd size position run (taken ++ extra) = some stop := by
  induction taken generalizing position run with
  | nil => cases found
  | cons bit rest ih =>
    rw [List.cons_append, runEnd_cons]
    rw [runEnd_cons] at found
    by_cases complete : (if bit then 0 else run + 1) = size
    · rw [if_pos complete] at found ⊢
      exact found
    · rw [if_neg complete] at found ⊢
      exact ih found

theorem allocation_grown (size extra : Nat) :
    Carries (Prod.map id (·.grown extra)) (h.allocation size) ((h.grown extra).allocation size) := by
  rw [allocation, allocation]
  by_cases positive : size = 0
  · rw [if_pos positive, if_pos positive]
    rfl
  rw [if_neg positive, if_neg positive]
  cases found : runEnd size 0 0 h.taken.toList with
  | none => exact .inl trivial
  | some stop =>
    obtain ⟨fits, inside, -⟩ := runEnd_least (Nat.pos_of_ne_zero positive) found
    have same : runEnd size 0 0 (h.grown extra).taken.toList = some stop := by
      rw [grown, Array.toList_append]
      exact runEnd_extended _ found
    have room : stop - size + (List.replicate size true).length ≤ h.taken.size := by
      rw [Array.length_toList] at inside
      rw [List.length_replicate]
      omega
    have taking : (h.grown extra).taking (stop - size) size =
        (h.taking (stop - size) size).grown extra := by
      rw [Heap.taking, grown, grown, Heap.taking, Cells.overlay_extended _ _ _ _ room]
    rw [same]
    exact congrArg (fun heap => Except.ok (stop - size, heap)) taking

theorem release_grown (sound : h.Sound) (address size extra : Nat) :
    Carries (·.grown extra) (h.release address size) ((h.grown extra).release address size) := by
  rw [release, release]
  by_cases positive : size = 0
  · rw [if_pos positive, if_pos positive]
    rfl
  rw [if_neg positive, if_neg positive]
  by_cases member : (⟨address, size⟩ : Block) ∈ h.live
  · have inside : address + size ≤ h.size := sound.inside _ member
    have kept : (⟨address, size⟩ : Block) ∈ (h.grown extra).live := member
    have bytes := Cells.overlay_extended h.bytes (Array.replicate extra 0) address
      (List.replicate size 0) (by rw [List.length_replicate]; exact inside)
    have map := Cells.overlay_extended h.taken (Array.replicate extra false) address
      (List.replicate size false) (by rw [List.length_replicate, sound.mapSize]; exact inside)
    rw [if_pos member, if_pos kept]
    refine congrArg Except.ok ?_
    simp only [releasing, grown, bytes, map]
  · have gone : (⟨address, size⟩ : Block) ∉ (h.grown extra).live := member
    rw [if_neg member, if_neg gone]
    exact .inr rfl

theorem checkRange_grown (address length extra : Nat) :
    Carries id (h.checkRange address length) ((h.grown extra).checkRange address length) := by
  rw [checkRange_eq, checkRange_eq, grown_size]
  by_cases inside : address + length ≤ h.size ∧ address + length < Word.limit
  · rw [if_pos inside, if_pos ⟨by omega, inside.2⟩]
    rfl
  · rw [if_neg inside]
    exact .inl trivial

end Heap

namespace Machine

variable {m : Machine} {values : List Value} {extra : Config}

def grown (m : Machine) (extra : Config) : Machine :=
  { m with
    stack := .holding (m.stack.capacity + extra.stackCapacity) m.stack.values
    heap := m.heap.grown extra.heapSize
    hooks := m.hooks ++ Array.replicate extra.hookCount none }

@[simp] theorem grown_values : (m.grown extra).stack.values = m.stack.values :=
  OperandStack.holding_values

@[simp] theorem grown_pointer : (m.grown extra).stack.pointer = m.stack.values.length := rfl

@[simp] theorem grown_heap : (m.grown extra).heap = m.heap.grown extra.heapSize := rfl

theorem WellFormed.grown_capacity (form : m.WellFormed) :
    (m.grown extra).stack.capacity = m.stack.capacity + extra.stackCapacity :=
  OperandStack.holding_capacity (form.fits.trans (Nat.le_add_right _ _))

theorem WellFormed.keeping_grown (form : m.WellFormed) (fits : values.length ≤ m.stack.capacity) :
    (m.keeping values).grown extra = (m.grown extra).keeping values := by
  simp only [grown, keeping, OperandStack.holding_capacity fits, OperandStack.holding_values,
    OperandStack.holding_capacity (form.fits.trans (Nat.le_add_right _ extra.stackCapacity))]

theorem fresh_grown (config : Config) :
    (fresh config).grown extra = fresh ⟨config.stackCapacity + extra.stackCapacity,
      config.heapSize + extra.heapSize, config.hookCount + extra.hookCount⟩ := by
  have stack : (fresh config).stack = .holding config.stackCapacity [] :=
    OperandStack.empty_eq_holding _
  have capacity : (OperandStack.holding config.stackCapacity []).capacity = config.stackCapacity :=
    OperandStack.holding_capacity (Nat.zero_le _)
  simp only [grown, stack, OperandStack.holding_values, capacity]
  simp only [fresh, Heap.empty_grown, OperandStack.empty_eq_holding, Array.replicate_append_replicate]

theorem WellFormed.withHeap_grown (form : m.WellFormed) (fits : values.length ≤ m.stack.capacity)
    (heap : Heap) :
    ((m.keeping values).withHeap heap).grown extra =
      ((m.grown extra).keeping values).withHeap (heap.grown extra.heapSize) :=
  congrArg (·.withHeap (heap.grown extra.heapSize)) (form.keeping_grown fits)

/-! Steps with more room. -/

theorem WellFormed.keeping_carries (form : m.WellFormed) (fits : values.length ≤ m.stack.capacity) :
    Carries (·.grown extra) (.ok (m.keeping values)) (.ok ((m.grown extra).keeping values)) :=
  congrArg Except.ok (form.keeping_grown fits).symm

theorem require_grown (form : m.WellFormed) (operation : String) (required : Nat) :
    (m.grown extra).stack.require operation required = m.stack.require operation required := by
  rw [OperandStack.require, OperandStack.require, form.pointer, grown_pointer]

theorem push_grown (form : m.WellFormed) (v : Value) :
    Carries (·.grown extra) (Step.push v m) (Step.push v (m.grown extra)) := by
  rw [Step.push, Step.push, grown_values, form.grown_capacity]
  by_cases room : m.stack.values.length < m.stack.capacity
  · rw [if_pos room, if_pos (by omega)]
    exact form.keeping_carries room
  · rw [if_neg room]
    exact .inl trivial

theorem binary_grown (form : m.WellFormed) (op : BinaryOperator) :
    Carries (·.grown extra) (Step.binary op m) (Step.binary op (m.grown extra)) := by
  have fits := form.fits
  rw [Step.binary, Step.binary, grown_values]
  rcases live : m.stack.values with _ | ⟨b, _ | ⟨a, rest⟩⟩
  · exact .inr rfl
  · exact .inr rfl
  · rw [live] at fits
    exact .check fun result _ => form.keeping_carries (Nat.le_of_succ_le fits)

theorem replace_grown (form : m.WellFormed) (f : Value → Value) :
    Carries (·.grown extra) (Step.replace f m) (Step.replace f (m.grown extra)) := by
  have fits := form.fits
  rw [Step.replace, Step.replace, grown_values]
  cases live : m.stack.values with
  | nil => exact .inr rfl
  | cons v rest =>
    rw [live] at fits
    exact form.keeping_carries fits

theorem integerToFloat_grown (form : m.WellFormed) :
    Carries (·.grown extra) (Step.integerToFloat m) (Step.integerToFloat (m.grown extra)) := by
  rw [Step.integerToFloat, Step.integerToFloat, require_grown form]
  exact .check fun _ _ => rfl

theorem allocate_grown (form : m.WellFormed) :
    Carries (Prod.map id (·.grown extra)) (Step.allocate m) (Step.allocate (m.grown extra)) := by
  have fits := form.fits
  rw [Step.allocate, Step.allocate, grown_values]
  cases live : m.stack.values with
  | nil => exact .inr rfl
  | cons count rest =>
    rw [live] at fits
    refine .check fun slots _ => .check fun size _ =>
      .bind (Heap.allocation_grown size extra.heapSize) fun found _ => ?_
    exact congrArg (fun next => Except.ok (found.1, next))
      (form.withHeap_grown (by exact fits) found.2).symm

theorem free_grown (form : m.WellFormed) :
    Carries (·.grown extra) (Step.free m) (Step.free (m.grown extra)) := by
  have fits := form.fits
  rw [Step.free, Step.free, grown_values]
  rcases live : m.stack.values with _ | ⟨top, _ | ⟨count, rest⟩⟩
  · exact .inr rfl
  · exact .inr rfl
  · rw [live, List.length_cons, List.length_cons] at fits
    refine .check fun address _ => .check fun slots _ => .check fun size _ =>
      .bind (Heap.release_grown form.heap address size extra.heapSize) fun heap _ => ?_
    exact congrArg Except.ok (form.withHeap_grown (by omega) heap).symm

theorem store_grown (form : m.WellFormed) (slots : Nat) :
    Carries (·.grown extra) (Step.store slots m) (Step.store slots (m.grown extra)) := by
  have fits := form.fits
  rw [Step.store, Step.store, require_grown form, grown_values]
  refine .check fun _ _ => .check fun address _ => .check fun size sized =>
    .bind (Heap.checkRange_grown address size extra.heapSize) fun _ checked => ?_
  obtain ⟨rfl, -⟩ := Value.slotBytes_ok sized
  obtain ⟨inside, -⟩ := Heap.checkRange_ok.mp checked
  have written : address + (Value.listBytes (m.stack.values.tail.take slots).reverse).length ≤
      m.heap.size := by
    have count : (m.stack.values.tail.take slots).length ≤ slots := List.length_take_le ..
    rw [Value.listBytes_length, List.length_reverse]
    exact (Nat.add_le_add_left (Nat.mul_le_mul_right _ count) _).trans inside
  have dropped : (m.stack.values.tail.drop slots).length ≤ m.stack.capacity := by
    rw [List.length_drop, List.length_tail]
    omega
  refine congrArg Except.ok (Eq.trans ?_ (form.withHeap_grown dropped _).symm)
  rw [Heap.writing_grown _ written, grown_heap]

theorem load_grown (form : m.WellFormed) (slots : Nat) :
    Carries (·.grown extra) (Step.load slots m) (Step.load slots (m.grown extra)) := by
  have fits := form.fits
  rw [Step.load, Step.load, grown_values]
  cases live : m.stack.values with
  | nil => exact .inr rfl
  | cons top rest =>
    rw [live, List.length_cons] at fits
    refine .check fun address _ => .check fun size sized =>
      .bind (Heap.checkRange_grown address size extra.heapSize) fun _ checked => ?_
    obtain ⟨rfl, -⟩ := Value.slotBytes_ok sized
    obtain ⟨inside, -⟩ := Heap.checkRange_ok.mp checked
    rw [form.grown_capacity]
    by_cases full : m.stack.capacity - rest.length < slots
    · rw [if_pos full]
      exact .inl trivial
    · have loaded : ((m.heap.slotsAt address slots).reverse ++ rest).length ≤ m.stack.capacity := by
        rw [List.length_append, List.length_reverse, Heap.slotsAt_length]
        omega
      rw [if_neg full, if_neg (by omega), grown_heap, Heap.slotsAt_grown _ inside]
      exact form.keeping_carries loaded

theorem copy_grown (form : m.WellFormed) :
    Carries (·.grown extra) (Step.copy m) (Step.copy (m.grown extra)) := by
  have fits := form.fits
  rw [Step.copy, Step.copy, grown_values]
  cases live : m.stack.values with
  | nil => exact .inr rfl
  | cons reference rest =>
    rw [live] at fits
    exact .check fun index _ => form.keeping_carries fits

theorem move_grown (form : m.WellFormed) :
    Carries (·.grown extra) (Step.move m) (Step.move (m.grown extra)) := by
  have fits := form.fits
  rw [Step.move, Step.move, grown_values]
  rcases live : m.stack.values with _ | ⟨reference, _ | ⟨v, rest⟩⟩
  · exact .inr rfl
  · exact .inr rfl
  · rw [live, List.length_cons, List.length_cons] at fits
    refine .check fun index _ => form.keeping_carries ?_
    rw [List.length_reverse, List.length_set, List.length_reverse]
    omega

theorem checkHook_grown (index : Nat) :
    Carries id (m.checkHook index) ((m.grown extra).checkHook index) := by
  have size : (m.grown extra).hooks.size = m.hooks.size + extra.hookCount := by simp [grown]
  rw [checkHook, checkHook, size]
  by_cases outside : m.hooks.size ≤ index
  · rw [if_pos outside]
    exact .inl trivial
  · rw [if_neg outside, if_neg (by omega)]
    rfl

theorem hook_grown (form : m.WellFormed) (index : Nat) :
    Carries (·.grown extra) (Step.hook index m) (Step.hook index (m.grown extra)) := by
  rw [Step.hook, Step.hook, require_grown form, grown_values]
  refine .bind (checkHook_grown index) fun _ checked => .check fun _ _ => ?_
  have inside := checkHook_lt checked
  have set : (m.hooks ++ Array.replicate extra.hookCount none).setIfInBounds index
      (some m.stack.values.length) = m.hooks.setIfInBounds index (some m.stack.values.length) ++
        Array.replicate extra.hookCount none := Array.setIfInBounds_append_left inside
  exact congrArg (fun hooks => Except.ok { m.grown extra with hooks := hooks }) set

theorem readHook_grown (form : m.WellFormed) (index : Nat) :
    Carries (·.grown extra) (Step.readHook index m) (Step.readHook index (m.grown extra)) := by
  rw [Step.readHook, Step.readHook, grown_values]
  refine .bind (checkHook_grown index) fun _ checked => ?_
  have same : (m.grown extra).hooks[index]? = m.hooks[index]? :=
    Array.getElem?_append_left (checkHook_lt checked)
  rw [same]
  rcases m.hooks[index]? with _ | _ | reference
  · exact .inr rfl
  · exact .inr rfl
  · dsimp only
    by_cases stale : m.stack.values.length < reference
    · rw [if_pos stale, if_pos stale]
      exact .inr rfl
    · rw [if_neg stale, if_neg stale]
      exact push_grown form _

theorem enter_grown (form : m.WellFormed) :
    Carries (·.grown extra) (Step.enter m) (Step.enter (m.grown extra)) := by
  rw [Step.enter, Step.enter, grown_values]
  exact .bind (push_grown form _) fun next _ => rfl

theorem leave_grown (form : m.WellFormed) (args locals : Nat) :
    Carries (·.grown extra) (Step.leave args locals m) (Step.leave args locals (m.grown extra)) := by
  have fits := form.fits
  rw [Step.leave, Step.leave, require_grown form, grown_values]
  refine .check fun _ _ => ?_
  have base : (m.grown extra).basePointer = m.basePointer := rfl
  dsimp only
  rw [base]
  by_cases closing : m.stack.values.length - locals - 1 + 1 ≠ m.basePointer
  · rw [if_pos closing, if_pos closing]
    exact .inr rfl
  rw [if_neg closing, if_neg closing]
  refine .check fun saved _ => ?_
  by_cases outside : m.stack.values.length - locals - 1 < saved
  · rw [if_pos outside, if_pos outside]
    exact .inr rfl
  rw [if_neg outside, if_neg outside]
  have dropped : (m.stack.values.drop (locals + 2 + args)).length ≤ m.stack.capacity := by
    rw [List.length_drop]
    omega
  exact congrArg (fun next => Except.ok { next with
    basePointer := saved, frameDepth := m.frameDepth - 1 }) (form.keeping_grown dropped).symm

theorem setReturn_grown (form : m.WellFormed) :
    Carries (·.grown extra) (Step.setReturn m) (Step.setReturn (m.grown extra)) := by
  have fits := form.fits
  rw [Step.setReturn, Step.setReturn, grown_values]
  cases live : m.stack.values with
  | nil => exact .inr rfl
  | cons v rest =>
    rw [live] at fits
    exact congrArg (fun next => Except.ok { next with returnRegister := v })
      (form.keeping_grown (Nat.le_of_succ_le fits)).symm

theorem parseText_grown (form : m.WellFormed) (kind : Numeral.Kind) (operation : String) :
    Carries (Prod.map id (·.grown extra)) (Step.parseText kind operation m)
      (Step.parseText kind operation (m.grown extra)) := by
  have fits := form.fits
  rw [Step.parseText, Step.parseText, grown_values]
  rcases live : m.stack.values with _ | ⟨count, _ | ⟨top, rest⟩⟩
  · exact .inr rfl
  · exact .inr rfl
  · rw [live] at fits
    refine .check fun length _ => .check fun address _ => .check fun size sized =>
      .bind (Heap.checkRange_grown address size extra.heapSize) fun _ checked => ?_
    obtain ⟨rfl, -⟩ := Value.slotBytes_ok sized
    obtain ⟨inside, -⟩ := Heap.checkRange_ok.mp checked
    rw [grown_heap, Heap.slotsAt_grown _ inside]
    exact .check fun v _ => congrArg (fun next => Except.ok (v, next))
      (form.keeping_grown (by exact Nat.le_of_succ_le fits)).symm

theorem formatText_grown (form : m.WellFormed) (kind : Numeral.Kind) (operation : String) :
    Carries (Prod.map id (·.grown extra)) (Step.formatText kind operation m)
      (Step.formatText kind operation (m.grown extra)) := by
  have fits := form.fits
  rw [Step.formatText, Step.formatText, grown_values]
  cases live : m.stack.values with
  | nil => exact .inr rfl
  | cons v rest =>
    rw [live] at fits
    refine .bind (Heap.allocation_grown _ extra.heapSize) fun found allocated => ?_
    obtain ⟨inside, size, -⟩ := Heap.allocation_ok form.heap allocated
    have written : found.1 + (Value.listBytes (Numeral.buffer (Numeral.render kind v))).length ≤
        found.2.size := by
      rw [Value.listBytes_length, Numeral.buffer_length, size]
      exact inside
    refine congrArg (fun next => Except.ok (found.1, next))
      (Eq.trans ?_ (form.withHeap_grown (by exact fits) _).symm)
    exact congrArg _ (Heap.writing_grown _ written).symm

end Machine

/-- With more room a step ends as it does with less, unless it wants room. -/
theorem Op.step_grown {m : Machine} {extra : Config} (form : m.WellFormed) (op : Op) :
    Carries (·.grown extra) (op.step m) (op.step (m.grown extra)) := by
  cases op with
  | push v => exact Machine.push_grown form v
  | binary op => exact Machine.binary_grown form op
  | sign => exact Machine.replace_grown form _
  | allocate => exact (Machine.allocate_grown form).map_snd
  | free => exact Machine.free_grown form
  | store slots => exact Machine.store_grown form _
  | load slots => exact Machine.load_grown form _
  | copy => exact Machine.copy_grown form
  | move => exact Machine.move_grown form
  | hook index => exact Machine.hook_grown form _
  | readHook index => exact Machine.readHook_grown form _
  | loadBasePointer => exact Machine.push_grown form _
  | enter => exact Machine.enter_grown form
  | leave args locals => exact Machine.leave_grown form _ _
  | setReturn => exact Machine.setReturn_grown form
  | getReturn => exact Machine.push_grown form _
  | textToInteger => exact (Machine.parseText_grown form _ _).map_snd
  | textToFloat => exact (Machine.parseText_grown form _ _).map_snd
  | integerToText => exact (Machine.formatText_grown form _ _).map_snd
  | floatToText => exact (Machine.formatText_grown form _ _).map_snd
  | floatToInteger => exact Machine.replace_grown form _
  | integerToFloat => exact Machine.integerToFloat_grown form
  | halt => rfl

theorem Op.step_grown_ok {m next : Machine} (extra : Config) (form : m.WellFormed) {op : Op}
    (taken : op.step m = .ok next) : op.step (m.grown extra) = .ok (next.grown extra) := by
  have carried : Carries (·.grown extra) (op.step m) _ := step_grown form op
  rw [taken] at carried
  exact carried

theorem Op.step_grown_error {m : Machine} (extra : Config) (form : m.WellFormed) {op : Op}
    {fault : Fault} (failed : op.step m = .error fault) (settled : ¬fault.WantsRoom) :
    op.step (m.grown extra) = .error fault := by
  have carried : Carries (·.grown extra) (op.step m) _ := step_grown form op
  rw [failed] at carried
  exact carried.resolve_left settled

end StackMachine
