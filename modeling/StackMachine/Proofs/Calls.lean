import Mathlib
import StackMachine.Proofs.Effect
import StackMachine.Proofs.Index
import StackMachine.Proofs.Sequence

/-! Calls in calls. A call pushes its arguments and a return slot, opens a frame, runs a body of
locals, results and further calls, and closes the frame. Whatever the nesting, the machine comes back
as it was but for the return register. On the way the chain of saved base pointers names the calls
that are open at that point, which an outline reads off from the operations alone. -/
namespace StackMachine

/-- What is done inside a frame: values are kept as locals or set as results, and calls are made. -/
inductive Body
  | done
  | keep (v : Value) (rest : Body)
  | yield (v : Value) (rest : Body)
  | call (args : List Value) (slot : Value) (inner rest : Body)

structure Call where
  args : List Value
  slot : Value
  body : Body

namespace Body

def locals : Body → List Value
  | done => []
  | keep v rest => v :: rest.locals
  | yield _ rest => rest.locals
  | call _ _ _ rest => rest.locals

/-- The values set as results, those of the calls among them, in their order. -/
def results : Body → List Value
  | done => []
  | keep _ rest => rest.results
  | yield v rest => v :: rest.results
  | call _ _ inner rest => inner.results ++ rest.results

def framed (args : List Value) (slot : Value) (body : List Op) (locals : Nat) : List Op :=
  (args ++ [slot]).map .push ++ [.enter] ++ body ++ [.leave (.ofNat args.length) (.ofNat locals)]

def ops : Body → List Op
  | done => []
  | keep v rest => .push v :: rest.ops
  | yield v rest => .push v :: .setReturn :: rest.ops
  | call args slot inner rest => framed args slot inner.ops inner.locals.length ++ rest.ops

/-- The number of slots that a body takes up at its highest point. -/
def room : Body → Nat
  | done => 0
  | keep _ rest => rest.room + 1
  | yield _ rest => max 1 rest.room
  | call args _ inner rest => max (args.length + 2 + inner.room) rest.room

/-- The number of calls that are open at the deepest point of a body. -/
def depth : Body → Nat
  | done => 0
  | keep _ rest | yield _ rest => rest.depth
  | call _ _ inner rest => max (inner.depth + 1) rest.depth

theorem locals_le_room (body : Body) : body.locals.length ≤ body.room := by
  induction body with
  | done => exact Nat.le_refl 0
  | keep v rest ih => exact Nat.succ_le_succ ih
  | yield v rest ih => exact ih.trans (Nat.le_max_right ..)
  | call args slot inner rest _ ih => exact ih.trans (Nat.le_max_right ..)

theorem getLastD_append (first later : List Value) (r : Value) :
    (first ++ later).getLastD r = later.getLastD (first.getLastD r) := by
  simp only [List.getLastD_eq_getLast?, List.getLast?_append]
  cases later.getLast? <;> rfl

end Body

namespace Call

def ops (c : Call) : List Op := Body.framed c.args c.slot c.body.ops c.body.locals.length

def results (c : Call) : List Value := c.body.results

def room (c : Call) : Nat := c.args.length + 2 + c.body.room

def depth (c : Call) : Nat := c.body.depth + 1

end Call

/-- The height of the stack and the link slots of the open calls, the innermost first. -/
structure Outline where
  height : Nat
  links : List Nat

namespace Outline

/-- The outline after an operation. A call is open from `enter` to the `leave` that goes with it. -/
def after (o : Outline) (op : Op) : Outline where
  height := (o.height + op.stackEffect).toNat
  links :=
    match op with
    | .enter => o.height :: o.links
    | .leave _ _ => o.links.tail
    | _ => o.links

variable {o : Outline}

theorem after_push (v : Value) : o.after (.push v) = ⟨o.height + 1, o.links⟩ := rfl

theorem after_enter : o.after .enter = ⟨o.height + 1, o.height :: o.links⟩ := rfl

theorem after_setReturn : o.after .setReturn = ⟨o.height - 1, o.links⟩ := by
  simp only [after, Op.stackEffect]
  congr 1
  omega

theorem after_leave (args locals : UInt64) :
    o.after (.leave args locals) = ⟨o.height - (args.toNat + locals.toNat + 2), o.links.tail⟩ := by
  simp only [after, Op.stackEffect]
  congr 1
  omega

def openLinks (height : Nat) (ops : List Op) : List Nat := (ops.foldl after ⟨height, []⟩).links

end Outline

namespace Machine

variable {m mid next outer : Machine} {o p q : Outline} {op : Op} {ops more : List Op}
  {config : Config}

section Links

variable {base : Nat} {values : List Value}

/-- The chain below a base pointer does not see what lies above. -/
theorem linksFrom_append (capacity : Nat) (upper : List Value) (below : base ≤ values.length) :
    linksFrom (.holding capacity (upper ++ values)) base =
      linksFrom (.holding capacity values) base := by
  induction base using Nat.strongRecOn with
  | ind base ih =>
    rw [linksFrom, linksFrom]
    by_cases positive : 0 < base
    · have inside : base - 1 < values.reverse.length := by
        rw [List.length_reverse]
        omega
      -- Both chains read the same link, and from there on they are shorter.
      have link := List.getElem?_eq_getElem inside
      have same : (upper ++ values).reverse[base - 1]? = some values.reverse[base - 1] := by
        rw [List.reverse_append, List.getElem?_append_left inside, link]
      simp only [OperandStack.peek_holding same, OperandStack.peek_holding link,
        OperandStack.holding_pointer]
      rw [if_pos ⟨positive, below.trans (by simp)⟩, if_pos ⟨positive, below⟩]
      simp only [Except.toOption, Option.bind_some]
      congr 1
      cases values.reverse[base - 1].toIndex? with
      | none => rfl
      | some saved =>
        by_cases outwards : saved < base
        · simp only [if_pos outwards, ih saved outwards (by omega)]
        · simp only [if_neg outwards]
    · rw [if_neg (fun chained => positive chained.1), if_neg (fun chained => positive chained.1)]

theorem linksFrom_link (capacity : Nat) {v : Value} (named : v.toIndex? = some base)
    (below : base ≤ values.length) :
    linksFrom (.holding capacity (v :: values)) (values.length + 1) =
      values.length :: linksFrom (.holding capacity values) base := by
  have link : (v :: values).reverse[values.length]? = some v := by simp
  rw [linksFrom, if_pos ⟨Nat.succ_pos _, by simp⟩]
  simp only [Nat.add_sub_cancel, OperandStack.peek_holding link, Except.toOption, Option.bind_some,
    named]
  rw [if_pos (Nat.lt_succ_of_le below)]
  exact congrArg _ (linksFrom_append capacity [v] below)

end Links

/-- A machine in the middle of calls from the machine `outer`, as an outline has it. -/
structure Matches (outer : Machine) (o : Outline) (m : Machine) : Prop where
  form : m.WellFormed
  small : m.stack.capacity ≤ 2 ^ 24
  based : m.basePointer ≤ m.stack.pointer
  pointer : m.stack.pointer = o.height
  links : m.frameLinks = o.links ++ outer.frameLinks
  depth : m.frameDepth = outer.frameDepth + o.links.length

/-- All operations succeed, and the machine is as the outline has it before and after each. -/
inductive MatchedRun (outer : Machine) : Outline → Machine → List Op → Outline → Machine → Prop
  | nil {o : Outline} {m : Machine} (here : Matches outer o m) : MatchedRun outer o m [] o m
  | cons {o p : Outline} {m mid next : Machine} {op : Op} {rest : List Op}
      (here : Matches outer o m) (first : op.apply m = .ok .next mid)
      (later : MatchedRun outer (o.after op) mid rest p next) :
      MatchedRun outer o m (op :: rest) p next

namespace MatchedRun

theorem append (first : MatchedRun outer o m ops p mid)
    (later : MatchedRun outer p mid more q next) : MatchedRun outer o m (ops ++ more) q next := by
  induction first with
  | nil _ => exact later
  | cons here applied _ ih => exact .cons here applied (ih later)

theorem runs (run : MatchedRun outer o m ops p next) : Runs m ops next := by
  induction run with
  | nil _ => exact .nil _
  | cons _ applied _ ih => exact .cons applied ih

theorem start (run : MatchedRun outer o m ops p next) : Matches outer o m := by
  cases run with
  | nil here => exact here
  | cons here _ _ => exact here

theorem stop (run : MatchedRun outer o m ops p next) : Matches outer p next := by
  induction run with
  | nil here => exact here
  | cons _ _ _ ih => exact ih

theorem split (run : MatchedRun outer o m (ops ++ more) p next) :
    ∃ mid, Runs m ops mid ∧ Matches outer (ops.foldl .after o) mid := by
  induction ops generalizing o m with
  | nil => exact ⟨m, .nil m, run.start⟩
  | cons op rest ih =>
    cases run with
    | cons _ applied later =>
      obtain ⟨mid, runs, there⟩ := ih later
      exact ⟨mid, .cons applied runs, there⟩

end MatchedRun

theorem WellFormed.toNat_ofNat (form : m.WellFormed) {n : Nat} (few : n ≤ m.stack.capacity) :
    (UInt64.ofNat n).toNat = n := by
  have words := form.capacity
  exact UInt64.toNat_ofNat_of_lt' (by rw [UInt64.size]; omega)

namespace Matches

variable {v : Value}

theorem height (here : Matches outer o m) : o.height = m.stack.values.length :=
  here.pointer.symm.trans here.form.pointer

theorem fits_push (here : Matches outer o m) (room : o.height < m.stack.capacity) :
    (v :: m.stack.values).length ≤ m.stack.capacity := by
  rw [List.length_cons, ← here.height]
  exact room

theorem withReturn (here : Matches outer o m) (r : Value) :
    Matches outer o { m with returnRegister := r } where
  form :=
    { here.form with stack := congrArg (fun m => { m with returnRegister := r }) here.form.stack }
  small := here.small
  based := here.based
  pointer := here.pointer
  links := here.links
  depth := here.depth

theorem push (here : Matches outer o m) (v : Value) (room : o.height < m.stack.capacity) :
    Matches outer (o.after (.push v)) (m.keeping (v :: m.stack.values)) := by
  have height := here.height
  have based := here.based
  rw [here.pointer, height] at based
  have fits : (v :: m.stack.values).length ≤ m.stack.capacity := here.fits_push room
  have chain := linksFrom_append m.stack.capacity [v] based
  rw [here.form.holding] at chain
  refine ⟨here.form.of_keeping fits, ?_, ?_, ?_, chain.trans here.links, here.depth⟩
  · rw [keeping_capacity fits]
    exact here.small
  · exact Nat.le_succ_of_le based
  · rw [Outline.after_push, height]
    rfl

end Matches

def entered (m : Machine) : Machine :=
  { m.keeping (Value.ofNat m.basePointer :: m.stack.values) with
    basePointer := m.stack.values.length + 1, frameDepth := m.frameDepth + 1 }

theorem enter_apply (form : m.WellFormed) (room : m.stack.values.length < m.stack.capacity)
    (counted : m.frameDepth < Word.last) : Op.enter.apply m = .ok .next m.entered := by
  refine Op.apply_of_step form ?_ fun _ => counted
  rw [Op.step, Step.enter, Step.push, if_pos room]
  rfl

theorem Matches.enter (here : Matches outer o m) (room : o.height < m.stack.capacity)
    (counted : m.frameDepth < Word.last) : Matches outer (o.after .enter) m.entered := by
  have height := here.height
  have based := here.based
  have small := here.small
  rw [here.pointer, height] at based
  rw [height] at room
  have named := Value.toIndex?_ofNat_of_le (n := m.basePointer) (by omega)
  have chain := linksFrom_link m.stack.capacity named based
  rw [here.form.holding] at chain
  refine ⟨here.form.of_apply (enter_apply here.form room counted), ?_, Nat.le_refl _, ?_, ?_, ?_⟩
  · have fits : (Value.ofNat m.basePointer :: m.stack.values).length ≤ m.stack.capacity := room
    exact (keeping_capacity fits).trans_le small
  · rw [Outline.after_enter, height]
    rfl
  · rw [Outline.after_enter, List.cons_append, ← here.links, height]
    exact chain
  · rw [Outline.after_enter, List.length_cons, ← Nat.add_assoc, ← here.depth]
    rfl

def finished (m : Machine) (locals : List Value) (result : Value) : Machine :=
  { m.keeping (locals.reverse ++ m.stack.values) with returnRegister := result }

theorem matched_push (here : Matches outer o m) (values : List Value)
    (room : o.height + values.length ≤ m.stack.capacity) :
    MatchedRun outer o m (values.map .push) ⟨o.height + values.length, o.links⟩
      (m.keeping (values.reverse ++ m.stack.values)) := by
  induction values generalizing m o with
  | nil =>
    rw [List.reverse_nil, List.nil_append, here.form.stack]
    exact .nil here
  | cons v rest ih =>
    rw [List.length_cons] at room
    have free : o.height < m.stack.capacity := by omega
    have fits : (v :: m.stack.values).length ≤ m.stack.capacity := here.fits_push free
    have later := ih (here.push v free) (by
      rw [Outline.after_push, keeping_capacity fits]
      dsimp only
      omega)
    rw [keeping_values, keeping_keeping fits, List.append_cons, ← List.reverse_cons,
      Outline.after_push, Nat.add_right_comm] at later
    exact .cons here (push_apply here.form fits v) later

theorem matched_yield (here : Matches outer o m) (room : o.height < m.stack.capacity) (v : Value) :
    MatchedRun outer o m [.push v, .setReturn] o { m with returnRegister := v } := by
  have fits : (v :: m.stack.values).length ≤ m.stack.capacity := here.fits_push room
  have pushed := here.push v room
  have set : Op.setReturn.apply (m.keeping (v :: m.stack.values)) =
      .ok .next { m with returnRegister := v } := by
    refine Op.apply_of_step pushed.form ?_ (by simp)
    rw [Op.step, Step.setReturn, keeping_values]
    dsimp only
    rw [keeping_keeping fits, here.form.stack]
  refine .cons here (push_apply here.form fits v) (.cons pushed set ?_)
  rw [Outline.after_setReturn]
  exact .nil (here.withReturn v)

theorem leave_apply (form : m.WellFormed) (args locals : UInt64) {upper lower : List Value}
    {v : Value} {saved : Nat} (named : v.toIndex? = some saved)
    (live : m.stack.values = upper ++ v :: lower) (count : locals.toNat = upper.length)
    (enough : args.toNat < lower.length) (based : m.basePointer = lower.length + 1)
    (outwards : saved ≤ lower.length) :
    (Op.leave args locals).apply m =
      .ok .next { m.keeping (lower.drop (args.toNat + 1)) with
        basePointer := saved, frameDepth := m.frameDepth - 1 } := by
  have length : m.stack.values.length = upper.length + (lower.length + 1) := by simp [live]
  have required : m.stack.require "end_frame"
      (Word.saturatingAdd (Word.saturatingAdd locals.toNat 2) args.toNat) = .ok () := by
    exact if_neg (Nat.not_lt.mpr (form.leave_required.mpr (by omega)))
  have link : m.stack.values.length - locals.toNat - 1 = lower.length := by omega
  have top : m.stack.values.getD locals.toNat .zero = v := by simp [live, count]
  have rest : m.stack.values.drop (locals.toNat + 2 + args.toNat) = lower.drop (args.toNat + 1) := by
    have split : locals.toNat + 2 + args.toNat = upper.length + (args.toNat + 1 + 1) := by omega
    rw [live, split, ← List.drop_drop, List.drop_left, List.drop_succ_cons]
  refine Op.apply_of_step form ?_ (by simp)
  rw [Op.step, Step.leave, link, top, rest, required, Value.expectIndex_of_toIndex? named, based]
  simp only [bind, Except.bind, ne_eq, not_true_eq_false, if_false, Nat.not_lt.mpr outwards]
  rfl

section Framed

variable {args locals : List Value} {slot result : Value}

def called (m : Machine) (args : List Value) (slot : Value) : Machine :=
  (m.keeping ((args ++ [slot]).reverse ++ m.stack.values)).entered

theorem called_values : (m.called args slot).stack.values =
    Value.ofNat m.basePointer :: ((args ++ [slot]).reverse ++ m.stack.values) := by
  simp [called, entered]

theorem called_frameDepth : (m.called args slot).frameDepth = m.frameDepth + 1 := rfl

theorem header_length (here : Matches outer o m) (args : List Value) (slot : Value) :
    ((args ++ [slot]).reverse ++ m.stack.values).length = o.height + args.length + 1 := by
  simp only [List.length_append, List.length_reverse, List.length_singleton, here.height]
  omega

theorem header_capacity (here : Matches outer o m) (slot : Value)
    (room : o.height + args.length + 1 ≤ m.stack.capacity) :
    (m.keeping ((args ++ [slot]).reverse ++ m.stack.values)).stack.capacity = m.stack.capacity :=
  keeping_capacity (by rw [header_length here]; exact room)

theorem called_capacity (here : Matches outer o m) (slot : Value)
    (room : o.height + args.length + 2 ≤ m.stack.capacity) :
    (m.called args slot).stack.capacity = m.stack.capacity := by
  have header := header_capacity here slot (Nat.le_of_succ_le room)
  refine (keeping_capacity ?_).trans header
  rw [header, keeping_values, List.length_cons, header_length here]
  exact room

theorem matched_open (here : Matches outer o m) (args : List Value) (slot : Value)
    (room : o.height + args.length + 2 ≤ m.stack.capacity) (counted : m.frameDepth < Word.last) :
    MatchedRun outer o m ((args ++ [slot]).map .push ++ [.enter])
      ⟨o.height + args.length + 2, (o.height + args.length + 1) :: o.links⟩
      (m.called args slot) := by
  have pushes := matched_push here (args ++ [slot]) (by
    rw [List.length_append, List.length_singleton]
    omega)
  rw [List.length_append, List.length_singleton, ← Nat.add_assoc] at pushes
  have free : o.height + args.length + 1 <
      (m.keeping ((args ++ [slot]).reverse ++ m.stack.values)).stack.capacity := by
    rw [header_capacity here slot (Nat.le_of_succ_le room)]
    exact room
  have entered := pushes.stop.enter free counted
  have applied := enter_apply pushes.stop.form (pushes.stop.height ▸ free) counted
  exact pushes.append (.cons pushes.stop applied (.nil entered))

theorem leave_called (here : Matches outer o m)
    (room : o.height + args.length + 2 + locals.length ≤ m.stack.capacity)
    (body : ((m.called args slot).finished locals result).WellFormed) :
    (Op.leave (.ofNat args.length) (.ofNat locals.length)).apply
      ((m.called args slot).finished locals result) =
        .ok .next { m with returnRegister := result } := by
  have based := here.based
  have small := here.small
  rw [here.pointer] at based
  have argCount := here.form.toNat_ofNat (n := args.length) (by omega)
  have localCount := here.form.toNat_ofNat (n := locals.length) (by omega)
  have named := Value.toIndex?_ofNat_of_le (n := m.basePointer) (by omega)
  have length := header_length here args slot
  have live : ((m.called args slot).finished locals result).stack.values = locals.reverse ++
      Value.ofNat m.basePointer :: ((args ++ [slot]).reverse ++ m.stack.values) := by
    rw [← called_values]
    exact keeping_values
  have base : ((m.called args slot).finished locals result).basePointer =
      ((args ++ [slot]).reverse ++ m.stack.values).length + 1 :=
    congrArg (fun values => List.length values + 1) keeping_values
  have opened := called_capacity here slot (Nat.le_of_add_right_le room)
  have capacity : ((m.called args slot).finished locals result).stack.capacity =
      m.stack.capacity := by
    refine (keeping_capacity ?_).trans opened
    rw [opened, called_values, List.length_append, List.length_cons, List.length_reverse, length]
    omega
  have rest : ((args ++ [slot]).reverse ++ m.stack.values).drop (args.length + 1) =
      m.stack.values := List.drop_left' (by simp)
  have closed := leave_apply body (.ofNat args.length) (.ofNat locals.length) named live
    (by rw [localCount, List.length_reverse]) (by rw [argCount, length]; omega) base
    (by rw [length]; omega)
  rw [closed, argCount, rest, keeping, capacity, here.form.holding]
  rfl

end Framed

def Fits (m : Machine) (room depth : Nat) : Prop :=
  m.stack.pointer + room ≤ m.stack.capacity ∧ m.frameDepth + depth < Word.limit

/-- A body runs where it fits: it leaves its locals and its last result. -/
def Returns (outer : Machine) (body : Body) : Prop :=
  ∀ {o : Outline} {m : Machine}, Matches outer o m → m.Fits body.room body.depth →
    MatchedRun outer o m body.ops ⟨o.height + body.locals.length, o.links⟩
      (m.finished body.locals (body.results.getLastD m.returnRegister))

theorem matched_call {body : Body} (returns : Returns outer body) (here : Matches outer o m)
    (args : List Value) (slot : Value)
    (fits : m.Fits (args.length + 2 + body.room) (body.depth + 1)) :
    MatchedRun outer o m (Body.framed args slot body.ops body.locals.length) o
      { m with returnRegister := body.results.getLastD m.returnRegister } := by
  obtain ⟨room, counted⟩ := fits
  rw [here.pointer] at room
  have locals := body.locals_le_room
  have opened := matched_open here args slot (by omega) (by simp only [Word.last]; omega)
  have inside : (m.called args slot).Fits body.room body.depth := by
    refine ⟨?_, by rw [called_frameDepth]; omega⟩
    rw [called_capacity here slot (by omega), opened.stop.pointer]
    dsimp only
    omega
  have inner := returns opened.stop inside
  have closed := leave_called here (by omega) inner.stop.form
  -- The counts that `leave` is given are words, because the values they count were all on the stack.
  have back : (Outline.mk (o.height + args.length + 2 + body.locals.length)
      ((o.height + args.length + 1) :: o.links)).after
        (.leave (.ofNat args.length) (.ofNat body.locals.length)) = o := by
    rw [Outline.after_leave, here.form.toNat_ofNat (by omega), here.form.toNat_ofNat (by omega)]
    dsimp only [List.tail_cons]
    congr 1
    omega
  refine (opened.append inner).append (.cons inner.stop closed ?_)
  rw [back]
  exact .nil (here.withReturn _)

/-- By induction on the body: the rest of a body runs in the same frame, the body of a call in the
frame that it opens. -/
theorem matched_body (body : Body) : Returns outer body := by
  induction body with
  | done =>
    intro o m here _
    have same : m.finished [] m.returnRegister = m := here.form.stack
    simp only [Body.ops, Body.locals, Body.results, List.getLastD_nil, same]
    exact .nil here
  | keep v rest ih =>
    rintro o m here ⟨room, counted⟩
    simp only [Body.room, Body.depth, here.pointer] at room counted
    have free : o.height < m.stack.capacity := by omega
    have fits : (v :: m.stack.values).length ≤ m.stack.capacity := here.fits_push free
    have pushed := here.push v free
    have above : (m.keeping (v :: m.stack.values)).stack.pointer + rest.room ≤
        (m.keeping (v :: m.stack.values)).stack.capacity := by
      rw [keeping_capacity fits, pushed.pointer, Outline.after_push]
      dsimp only
      omega
    have later := ih pushed ⟨above, counted⟩
    rw [finished, keeping_values, keeping_keeping fits, List.append_cons, ← List.reverse_cons,
      Outline.after_push, Nat.add_right_comm] at later
    exact .cons here (push_apply here.form fits v) later
  | yield v rest ih =>
    rintro o m here ⟨room, counted⟩
    simp only [Body.room, Body.depth] at room counted
    have after : m.stack.pointer + rest.room ≤ m.stack.capacity := by omega
    have set := matched_yield here (by rw [← here.pointer]; omega) v
    have run := set.append (ih set.stop ⟨after, counted⟩)
    rw [Body.results, List.getLastD_cons]
    exact run
  | call args slot inner rest innerReturns restReturns =>
    rintro o m here ⟨room, counted⟩
    simp only [Body.room, Body.depth] at room counted
    have after : m.stack.pointer + rest.room ≤ m.stack.capacity := by omega
    have countable : m.frameDepth + rest.depth < Word.limit := by omega
    have first := matched_call innerReturns here args slot ⟨by omega, by omega⟩
    have run := first.append (restReturns first.stop ⟨after, countable⟩)
    rw [Body.results, Body.getLastD_append]
    exact run

/-! What runs also fits, so that nothing less would do. -/

theorem room_of_open (here : Matches outer o m) {args : List Value} {slot : Value}
    (runs : Runs m ((args ++ [slot]).map .push ++ [.enter]) next) :
    o.height + args.length + 2 ≤ m.stack.capacity ∧ m.frameDepth < Word.last := by
  obtain ⟨mid, pushes, enters⟩ := runs.of_append
  have room := room_of_pushes here.form pushes
  rw [← here.height] at room
  have pushed := matched_push here (args ++ [slot]) room
  cases pushes.unique pushed.runs
  cases enters with
  | cons applied _ =>
    obtain ⟨taken, counted⟩ := step_of_apply pushed.stop.form applied
    obtain ⟨free, -⟩ := Step.enter_ok taken
    rw [List.length_append, List.length_singleton, ← Nat.add_assoc] at room
    rw [keeping_values, header_length here, header_capacity here slot room] at free
    exact ⟨free, counted rfl⟩

def Needs (outer : Machine) (body : Body) : Prop :=
  ∀ {o : Outline} {m next : Machine}, Matches outer o m → Runs m body.ops next →
    m.Fits body.room body.depth

theorem fits_call {body : Body} (needs : Needs outer body) (here : Matches outer o m)
    {args : List Value} {slot : Value}
    (runs : Runs m (Body.framed args slot body.ops body.locals.length) next) :
    m.Fits (args.length + 2 + body.room) (body.depth + 1) := by
  obtain ⟨_, bodyRuns, -⟩ := runs.of_append
  obtain ⟨_, opens, inner⟩ := bodyRuns.of_append
  obtain ⟨room, counted⟩ := room_of_open here opens
  have opened := matched_open here args slot room counted
  cases opens.unique opened.runs
  obtain ⟨higher, deeper⟩ := needs opened.stop inner
  rw [called_capacity here slot room, opened.stop.pointer] at higher
  rw [called_frameDepth] at deeper
  dsimp only at higher
  exact ⟨by rw [here.pointer]; omega, by omega⟩

theorem fits_body (body : Body) : Needs outer body := by
  induction body with
  | done =>
    intro o m next here _
    exact ⟨here.form.pointer ▸ here.form.fits, here.form.depth⟩
  | keep v rest ih =>
    intro o m next here runs
    cases runs with
    | cons applied later =>
      obtain ⟨room, rfl⟩ := Step.push_ok (step_of_apply here.form applied).1
      have fits : (v :: m.stack.values).length ≤ m.stack.capacity := room
      obtain ⟨higher, deeper⟩ := ih (here.push v (here.height ▸ room)) later
      rw [keeping_capacity fits, keeping_pointer, List.length_cons, ← here.form.pointer] at higher
      exact ⟨by rw [Body.room]; omega, deeper⟩
  | yield v rest ih =>
    intro o m next here runs
    cases runs with
    | cons applied later =>
      cases later with
      | cons set later =>
        obtain ⟨room, -⟩ := Step.push_ok (step_of_apply here.form applied).1
        have matched := matched_yield here (here.height ▸ room) v
        cases Runs.unique (.cons applied (.cons set (.nil _))) matched.runs
        obtain ⟨higher, deeper⟩ := ih matched.stop later
        rw [← here.form.pointer] at room
        dsimp only at higher
        exact ⟨by rw [Body.room]; omega, deeper⟩
  | call args slot inner rest innerNeeds restNeeds =>
    intro o m next here runs
    obtain ⟨_, first, later⟩ := Runs.of_append runs
    have fits := fits_call innerNeeds here first
    -- The call fits, so the run at hand is the one that is known.
    have matched := matched_call (matched_body inner) here args slot fits
    cases first.unique matched.runs
    obtain ⟨higher, deeper⟩ := restNeeds matched.stop later
    obtain ⟨room, counted⟩ := fits
    dsimp only at higher deeper
    exact ⟨by rw [Body.room]; omega, by rw [Body.depth]; omega⟩

/-- A call runs where it fits and nowhere else. Then the caller has its machine back, but for the last
result in the return register. Wherever the run is stopped, the chain holds the links of the calls
that are open, the innermost first, before those of the caller, and each of them is counted. -/
theorem calls_restore_caller (addressable : config.Addressable) (reachable : Reachable config m)
    (based : m.basePointer ≤ m.stack.pointer) (small : m.stack.capacity ≤ 2 ^ 24) (call : Call) :
    (m.Fits call.room call.depth ↔ ∃ next, Runs m call.ops next) ∧
      (m.Fits call.room call.depth →
        Runs m call.ops { m with returnRegister := call.results.getLastD m.returnRegister } ∧
          ∀ done rest, call.ops = done ++ rest →
            ∃ mid, Runs m done mid ∧
              mid.frameLinks = Outline.openLinks m.stack.pointer done ++ m.frameLinks ∧
              mid.frameDepth = m.frameDepth + (Outline.openLinks m.stack.pointer done).length) := by
  have form := reachable.wellFormed addressable
  have here : Matches m ⟨m.stack.pointer, []⟩ m := ⟨form, small, based, rfl, rfl, rfl⟩
  have run := matched_call (matched_body call.body) here call.args call.slot
  refine ⟨⟨fun fits => ⟨_, (run fits).runs⟩, ?_⟩, fun fits => ⟨(run fits).runs, ?_⟩⟩
  · rintro ⟨next, runs⟩
    exact fits_call (fits_body call.body) here runs
  · intro done rest parts
    have whole := run fits
    rw [← Call.ops, parts] at whole
    obtain ⟨mid, before, there⟩ := whole.split
    exact ⟨mid, before, there.links, there.depth⟩

/-- A call with an argument, a local and a call of its own fills the stack and leaves it again. -/
theorem nested_call_restores_caller :
    let m := Action.after (Op.push (.ofNat 5)).apply (fresh ⟨8, 8, 1⟩)
    let call : Call := ⟨[.ofNat 1], .ofNat 0, .keep (.ofNat 2) (.yield (.ofNat 7)
      (.call [] (.ofNat 0) (.yield (.ofNat 9) .done) .done))⟩
    Runs m call.ops { m with returnRegister := .ofNat 9 } ∧
      ∃ mid, Runs m (call.ops.take 9) mid ∧ mid.frameLinks = [6, 3] ++ m.frameLinks ∧
        mid.frameDepth = m.frameDepth + 2 := by
  intro m call
  have addressable : Config.Addressable ⟨8, 8, 1⟩ := ⟨by decide, by decide⟩
  have reached : Reachable ⟨8, 8, 1⟩ m := .apply (.push (.ofNat 5)) .fresh
  obtain ⟨-, restores⟩ := calls_restore_caller addressable reached (by decide +kernel)
    (by decide +kernel) call
  obtain ⟨runs, stops⟩ := restores ⟨by decide +kernel, by decide +kernel⟩
  obtain ⟨mid, before, links, depth⟩ := stops _ _ (List.take_append_drop 9 call.ops).symm
  exact ⟨runs, mid, before, links, depth⟩

end Machine
end StackMachine
