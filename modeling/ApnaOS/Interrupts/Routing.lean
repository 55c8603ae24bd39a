import ApnaOS.Interrupts.Descriptors
import ApnaOS.Lib.Transition

/-!
# From an interrupt to its handler

An interrupt goes through the gate of its vector and the code segment to a stub, through
`common_irq_handler` to the entry of `interrupt_handlers`, and is acknowledged at the interrupt
controllers.  Where the stubs lie in memory is a parameter.  A handler is run as a whole: through
these gates no other interrupt comes while it runs.
-/

set_option autoImplicit false

namespace ApnaOS.Interrupts

open ApnaOS.Lib
open Function (update update_self update_of_ne)

variable {Handler : Type}

/-! ## The code -/

inductive Event (Handler : Type) where
  | ran (handler : Handler)
  | outb (port : Nat) (value : Nat)

/-- The addresses of `irq0_stub` to `irq15_stub` and of `isr_stub`: different code is at
different addresses. -/
structure Layout where
  irqStub : Nat → UInt32
  isrStub : UInt32
  injective : ∀ j, j < 16 → ∀ k, k < 16 → irqStub j = irqStub k → j = k
  apart : ∀ k, k < 16 → irqStub k ≠ isrStub

structure InterruptState (Handler : Type) where
  gdt : Nat → GdtEntry
  idt : Nat → IdtEntry
  interruptHandlers : Nat → Option Handler
  /-- The latest event first. -/
  events : List (Event Handler)
  /-- `isr_stub` has stopped the processor. -/
  halted : Bool

namespace InterruptState

/-- A NULL handler is `none`. -/
def registerInterruptHandler (interrupts : InterruptState Handler) (n : UInt8)
    (handler : Option Handler) : InterruptState Handler :=
  { interrupts with interruptHandlers := update interrupts.interruptHandlers n.toNat handler }

def emit (interrupts : InterruptState Handler) (event : Event Handler) : InterruptState Handler :=
  { interrupts with events := event :: interrupts.events }

/-- `interrupt_handlers[irq + 32]`; the sum is an `int`. -/
def irqHandler (interrupts : InterruptState Handler) (irq : UInt8) : InterruptState Handler :=
  match interrupts.interruptHandlers (irq.toNat + 32) with
  | some handler => interrupts.emit (.ran handler)
  | none => interrupts

def commonIrqHandler (interrupts : InterruptState Handler) (irqNum : UInt32) :
    InterruptState Handler :=
  let irq := (irqNum &&& 0xFF).toUInt8
  let interrupts := interrupts.irqHandler irq
  let interrupts := if 8 ≤ irq then interrupts.emit (.outb 0xA0 0x20) else interrupts
  interrupts.emit (.outb 0x20 0x20)

end InterruptState

def gdtInstall (gdt : Nat → GdtEntry) : Nat → GdtEntry :=
  [SegmentCall.mk 0 0 0 0 0, ⟨1, 0, 0xFFFFFFFF, 0x9A, 0xCF⟩, ⟨2, 0, 0xFFFFFFFF, 0x92, 0xCF⟩].foldl
    gdtSetGate gdt

/-- `idt_set_gate(i, (uint32_t)isr_stub, 0x08, 0x8E);` -/
def isrGate (layout : Layout) (i : Nat) : GateCall := ⟨UInt8.ofNat i, layout.isrStub, 0x08, 0x8E⟩

def idtInstall (layout : Layout) (idt : Nat → IdtEntry) : Nat → IdtEntry :=
  ((List.range 32).map (isrGate layout)).foldl idtSetGate idt

/-- `idt_set_gate(32 + k, (uint32_t)irqk_stub, 0x08, 0x8E);` -/
def irqGate (layout : Layout) (k : Nat) : GateCall :=
  ⟨UInt8.ofNat (32 + k), layout.irqStub k, 0x08, 0x8E⟩

def irqInstall (layout : Layout) (idt : Nat → IdtEntry) : Nat → IdtEntry :=
  ((List.range 16).map (irqGate layout)).foldl idtSetGate idt

def bootGdt : Nat → GdtEntry := gdtInstall fun _ => ⟨0, 0, 0, 0, 0, 0⟩

def bootIdt (layout : Layout) : Nat → IdtEntry :=
  irqInstall layout (idtInstall layout fun _ => ⟨0, 0, 0, 0, 0⟩)

/-! ## Runs -/

inductive Code where
  | irqStub (k : Nat)
  | isrStub

def Layout.codeAt (layout : Layout) (address : Nat) : Option Code :=
  if layout.isrStub.toNat = address then some .isrStub
  else ((List.range 16).find? fun k => decide ((layout.irqStub k).toNat = address)).map .irqStub

inductive InterruptAction (Handler : Type) where
  | register (n : UInt8) (handler : Option Handler)
  | interrupt (vector : UInt8)

def Gate.Present (gate : Gate) : Prop := 0x80 ≤ gate.access

instance (gate : Gate) : Decidable gate.Present := inferInstanceAs (Decidable (_ ≤ _))

/-- The bits of the access byte that say that a segment is there and holds code. -/
def Segment.HasCode (segment : Segment) : Prop := segment.access &&& 0x98 = 0x98

instance (segment : Segment) : Decidable segment.HasCode := inferInstanceAs (Decidable (_ = _))

/-- The last offset in a segment, whose limit counts pages if the highest flag says so. -/
def Segment.lastOffset (segment : Segment) : Nat :=
  if 8 ≤ segment.flags then 0x1000 * segment.limit + 0xFFF else segment.limit

/-- The selector of a gate is eight times the number of its segment. -/
def InterruptState.address (interrupts : InterruptState Handler) (gate : Gate) : Option Nat :=
  let segment := segmentOf (interrupts.gdt (gate.selector / 8)).word
  if gate.Present ∧ segment.HasCode ∧ gate.offset ≤ segment.lastOffset then
    some ((segment.base + gate.offset) % 0x100000000)
  else none

def InterruptState.target (layout : Layout) (interrupts : InterruptState Handler) (vector : UInt8) :
    Option Code :=
  (interrupts.address (gateOf (interrupts.idt vector.toNat).word)).bind layout.codeAt

/-- The exception that the processor raises for an interrupt without a gate. -/
def generalProtection : UInt8 := 13

def interruptStep (layout : Layout) (interrupts : InterruptState Handler) :
    InterruptAction Handler → Option (InterruptState Handler)
  | .register n handler =>
      if interrupts.halted then none
      else some (interrupts.registerInterruptHandler n handler)
  | .interrupt vector =>
      if interrupts.halted then none
      else
        ((interrupts.target layout vector).or (interrupts.target layout generalProtection)).map
          fun
          | .irqStub k => interrupts.commonIrqHandler (UInt32.ofNat k)
          | .isrStub => { interrupts with halted := true }

def InterruptState.boot (layout : Layout) : InterruptState Handler where
  gdt := bootGdt
  idt := bootIdt layout
  interruptHandlers := fun _ => none
  events := []
  halted := false

def interruptSystem (layout : Layout) :
    System (InterruptState Handler) (InterruptAction Handler) where
  initial interrupts := interrupts = .boot layout
  step := interruptStep layout

/-! ## What it is for -/

structure Routes (Handler : Type) where
  handlers : UInt8 → Option Handler
  halted : Bool

def Routes.none : Routes Handler := ⟨fun _ => Option.none, false⟩

/-- The end-of-interrupt commands for a request: the second controller is told first. -/
def acknowledge (irq : Nat) : List (Event Handler) :=
  (if 8 ≤ irq then [.outb 0xA0 0x20] else []) ++ [.outb 0x20 0x20]

/-- Requests run their handler and are acknowledged, all other interrupts stop the kernel. -/
def Routes.step (routes : Routes Handler) :
    InterruptAction Handler → Option (List (Event Handler) × Routes Handler)
  | .register n handler =>
      if routes.halted then Option.none
      else some ([], { routes with handlers := update routes.handlers n handler })
  | .interrupt vector =>
      if routes.halted then Option.none
      else if 32 ≤ vector ∧ vector < 48 then
        some ((routes.handlers vector).toList.map .ran ++ acknowledge (vector.toNat - 32), routes)
      else some ([], { routes with halted := true })

def Routes.play (routes : Routes Handler) :
    List (InterruptAction Handler) → Option (List (Event Handler) × Routes Handler)
  | [] => some ([], routes)
  | action :: rest =>
      (routes.step action).bind fun (events, next) =>
        (next.play rest).map fun (more, last) => (events ++ more, last)

/-! ## Gates -/

theorem lastFor_range {Call : Type} {num : Call → Nat} {made : Nat → Call} {start n : Nat}
    (places : ∀ i, i < n → num (made i) = start + i) (entry : Nat) :
    lastFor num ((List.range n).map made) entry =
      if start ≤ entry ∧ entry < start + n then some (made (entry - start)) else none := by
  induction n with
  | zero =>
      rw [if_neg (by omega)]
      rfl
  | succ n ih =>
      have here := places n (Nat.lt_succ_self n)
      have before := ih fun i inside => places i (Nat.lt_succ_of_lt inside)
      rw [lastFor, List.range_succ, List.map_append, List.reverse_append, List.map_singleton,
        List.reverse_singleton, List.singleton_append, List.find?_cons, here]
      by_cases same : start + n = entry
      · rw [decide_eq_true same, if_pos (by omega)]
        dsimp only
        rw [← same, Nat.add_sub_cancel_left]
      · rw [decide_eq_false same]
        refine before.trans (if_congr ?_ rfl rfl)
        omega

theorem gates_range {made : Nat → GateCall} {start n : Nat}
    (places : ∀ i, i < n → (made i).vector = start + i) (idt : Nat → IdtEntry) (v : Nat) :
    gateOf (((List.range n).map made).foldl idtSetGate idt v).word =
      if start ≤ v ∧ v < start + n then (made (v - start)).gate else gateOf (idt v).word := by
  rw [gate_after, lastFor_range places]
  split <;> rfl

section Boot

variable (layout : Layout)

/-- A gate that is there for the kernel alone, and through which no other interrupt comes. -/
def interruptGate (stub : UInt32) : Gate := ⟨stub.toNat, 0x08, 0, 0x8E⟩

theorem boot_segment : segmentOf (bootGdt 1).word = ⟨0, 0xFFFFF, 0x9A, 0xC⟩ := by
  rw [bootGdt, gdtInstall, segment_after]
  rfl

theorem toNat_vector {v : Nat} (bound : v < 256) : (UInt8.ofNat v).toNat = v :=
  UInt8.toNat_ofNat_of_lt' bound

theorem boot_gate (v : Nat) :
    gateOf (bootIdt layout v).word =
      if v < 32 then interruptGate layout.isrStub
      else if v < 48 then interruptGate (layout.irqStub (v - 32))
      else ⟨0, 0, 0, 0⟩ := by
  have request : ∀ k, k < 16 → (irqGate layout k).vector = 32 + k :=
    fun k inside => toNat_vector (by omega)
  have exception : ∀ i, i < 32 → (isrGate layout i).vector = 0 + i := by
    intro i inside
    rw [Nat.zero_add]
    exact toNat_vector (by omega)
  rw [bootIdt, irqInstall, gates_range request, idtInstall, gates_range exception]
  by_cases first : v < 32
  · rw [if_neg (by omega), if_pos (by omega), if_pos first]
    rfl
  by_cases second : v < 48
  · rw [if_pos (by omega), if_neg first, if_pos second]
    rfl
  · rw [if_neg (by omega), if_neg (by omega), if_neg first, if_neg second]
    rfl

theorem codeAt_isrStub : layout.codeAt layout.isrStub.toNat = some .isrStub := if_pos rfl

theorem codeAt_irqStub {k : Nat} (inside : k < 16) :
    layout.codeAt (layout.irqStub k).toNat = some (.irqStub k) := by
  have different : layout.isrStub.toNat ≠ (layout.irqStub k).toNat :=
    fun same => layout.apart k inside (UInt32.toNat_inj.mp same).symm
  have found : ((List.range 16).find? fun j =>
      decide ((layout.irqStub j).toNat = (layout.irqStub k).toNat)) = some k := by
    rw [List.find?_range_eq_some]
    refine ⟨decide_eq_true rfl, List.mem_range.mpr inside, ?_⟩
    intro j earlier
    rw [Bool.not_eq_true', decide_eq_false_iff_not]
    intro same
    have equal := layout.injective j (by omega) k inside (UInt32.toNat_inj.mp same)
    omega
  rw [Layout.codeAt, if_neg different, found, Option.map_some]

end Boot

/-! ## The refinement -/

structure Sees (layout : Layout) (interrupts : InterruptState Handler) (routes : Routes Handler) :
    Prop where
  gdt : interrupts.gdt = bootGdt
  idt : interrupts.idt = bootIdt layout
  handlers : ∀ v : UInt8, interrupts.interruptHandlers v.toNat = routes.handlers v
  halted : interrupts.halted = routes.halted

theorem sees_boot (layout : Layout) :
    Sees layout (InterruptState.boot layout) (Routes.none : Routes Handler) :=
  ⟨rfl, rfl, fun _ => rfl, rfl⟩

section Step

variable {layout : Layout} {interrupts : InterruptState Handler} {routes : Routes Handler}

theorem Sees.register (sees : Sees layout interrupts routes) (n : UInt8)
    (handler : Option Handler) :
    Sees layout (interrupts.registerInterruptHandler n handler)
      { routes with handlers := update routes.handlers n handler } := by
  refine ⟨sees.gdt, sees.idt, ?_, sees.halted⟩
  intro v
  rw [InterruptState.registerInterruptHandler]
  dsimp only
  by_cases same : v = n
  · rw [same, update_self, update_self]
  · have apart : v.toNat ≠ n.toNat := fun equal => same (UInt8.toNat_inj.mp equal)
    rw [update_of_ne same, update_of_ne apart, sees.handlers]

theorem irq_toNat {k : Nat} (inside : k < 16) :
    ((UInt32.ofNat k) &&& 0xFF).toUInt8.toNat = k := by
  rw [low8, UInt32.toNat_ofNat_of_lt' (Nat.lt_trans inside (by decide))]
  omega

theorem Sees.request (sees : Sees layout interrupts routes) {vector : UInt8}
    (above : 32 ≤ vector.toNat) (below : vector.toNat < 48) :
    let after := interrupts.commonIrqHandler (UInt32.ofNat (vector.toNat - 32))
    Sees layout after routes ∧
      after.events = ((routes.handlers vector).toList.map Event.ran ++
        acknowledge (vector.toNat - 32)).reverse ++ interrupts.events := by
  have irq := irq_toNat (k := vector.toNat - 32) (by omega)
  have place : vector.toNat - 32 + 32 = vector.toNat := by omega
  have second : 8 ≤ (UInt32.ofNat (vector.toNat - 32) &&& 0xFF).toUInt8 ↔
      8 ≤ vector.toNat - 32 := by
    rw [UInt8.le_iff_toNat_le, irq]
    rfl
  simp only [InterruptState.commonIrqHandler, InterruptState.irqHandler, irq, place, second,
    acknowledge, sees.handlers]
  cases routes.handlers vector with
  | none | some handler =>
      by_cases far : 8 ≤ vector.toNat - 32
      · rw [if_pos far, if_pos far]
        exact ⟨⟨sees.gdt, sees.idt, sees.handlers, sees.halted⟩, rfl⟩
      · rw [if_neg far, if_neg far]
        exact ⟨⟨sees.gdt, sees.idt, sees.handlers, sees.halted⟩, rfl⟩

structure Routed (layout : Layout) (interrupts next : InterruptState Handler)
    (events : List (Event Handler)) (routes : Routes Handler) : Prop where
  sees : Sees layout next routes
  events : next.events = events.reverse ++ interrupts.events

theorem Sees.address (sees : Sees layout interrupts routes) (stub : UInt32) :
    interrupts.address (interruptGate stub) = some stub.toNat := by
  have inside : stub.toNat < 0x100000000 := stub.toNat_lt
  have segment : segmentOf (interrupts.gdt ((interruptGate stub).selector / 8)).word =
      ⟨0, 0xFFFFF, 0x9A, 0xC⟩ := by
    have place : (interruptGate stub).selector / 8 = 1 := Nat.div_self (by decide : 0 < 8)
    rw [sees.gdt, place]
    exact boot_segment
  have reached : (interruptGate stub).offset ≤ Segment.lastOffset ⟨0, 0xFFFFF, 0x9A, 0xC⟩ :=
    Nat.le_of_lt_succ inside
  rw [InterruptState.address, segment]
  refine (if_pos ⟨show 0x80 ≤ 0x8E by decide, by decide, reached⟩).trans (congrArg some ?_)
  exact (congrArg (· % 0x100000000) (Nat.zero_add _)).trans (Nat.mod_eq_of_lt inside)

theorem Sees.target (sees : Sees layout interrupts routes) (vector : UInt8) :
    interrupts.target layout vector =
      if vector.toNat < 32 then some .isrStub
      else if vector.toNat < 48 then some (.irqStub (vector.toNat - 32))
      else none := by
  rw [InterruptState.target, sees.idt, boot_gate layout vector.toNat]
  by_cases exception : vector.toNat < 32
  · rw [if_pos exception, if_pos exception, sees.address]
    exact codeAt_isrStub layout
  rw [if_neg exception, if_neg exception]
  by_cases request : vector.toNat < 48
  · rw [if_pos request, if_pos request, sees.address]
    exact codeAt_irqStub layout (by omega)
  · rw [if_neg request, if_neg request]
    have missing : ¬ Gate.Present ⟨0, 0, 0, 0⟩ := by decide
    have nowhere : interrupts.address ⟨0, 0, 0, 0⟩ = none := by
      rw [InterruptState.address]
      exact if_neg fun there => missing there.1
    rw [nowhere]
    rfl

theorem Sees.goes (sees : Sees layout interrupts routes) (vector : UInt8) :
    (interrupts.target layout vector).or (interrupts.target layout generalProtection) =
      some (if 32 ≤ vector ∧ vector < 48 then .irqStub (vector.toNat - 32) else .isrStub) := by
  have fault : interrupts.target layout generalProtection = some .isrStub :=
    (sees.target generalProtection).trans (if_pos (by decide))
  have range : 32 ≤ vector ∧ vector < 48 ↔ ¬ vector.toNat < 32 ∧ vector.toNat < 48 := by
    rw [UInt8.le_iff_toNat_le, UInt8.lt_iff_toNat_lt, Nat.not_lt]
    rfl
  rw [fault, sees.target vector, if_congr range rfl rfl]
  by_cases exception : vector.toNat < 32
  · rw [if_pos exception, if_neg fun requested => requested.1 exception]
    rfl
  rw [if_neg exception]
  by_cases request : vector.toNat < 48
  · rw [if_pos request, if_pos ⟨exception, request⟩]
    rfl
  · rw [if_neg request, if_neg fun requested => request requested.2]
    rfl

theorem Sees.step (sees : Sees layout interrupts routes) (action : InterruptAction Handler) :
    (interruptStep layout interrupts action = none ∧ routes.step action = none) ∨
    ∃ next events routes', interruptStep layout interrupts action = some next ∧
      routes.step action = some (events, routes') ∧
      Routed layout interrupts next events routes' := by
  cases action with
  | register n handler =>
      rw [interruptStep, Routes.step, sees.halted]
      by_cases halted : routes.halted = true
      · rw [if_pos halted, if_pos halted]
        exact Or.inl ⟨rfl, rfl⟩
      · rw [if_neg halted, if_neg halted]
        exact Or.inr ⟨_, _, _, rfl, rfl, sees.register n handler, rfl⟩
  | interrupt vector =>
      rw [interruptStep, Routes.step, sees.halted]
      by_cases halted : routes.halted = true
      · rw [if_pos halted, if_pos halted]
        exact Or.inl ⟨rfl, rfl⟩
      rw [if_neg halted, if_neg halted, sees.goes vector, Option.map_some]
      refine Or.inr ?_
      by_cases requested : 32 ≤ vector ∧ vector < 48
      · have above : 32 ≤ vector.toNat := UInt8.le_iff_toNat_le.mp requested.1
        have below : vector.toNat < 48 := UInt8.lt_iff_toNat_lt.mp requested.2
        obtain ⟨seen, events⟩ := sees.request above below
        rw [if_pos requested, if_pos requested]
        exact ⟨_, _, _, rfl, rfl, seen, events⟩
      · rw [if_neg requested, if_neg requested]
        exact ⟨_, _, _, rfl, rfl, ⟨sees.gdt, sees.idt, sees.handlers, rfl⟩, rfl⟩

theorem Sees.run (sees : Sees layout interrupts routes)
    (actions : List (InterruptAction Handler)) :
    ((interruptSystem layout).record interrupts actions).map
        (fun run => (run.2.events, run.2.halted)) =
      (routes.play actions).map fun run =>
        (run.1.reverse ++ interrupts.events, run.2.halted) := by
  induction actions generalizing interrupts routes with
  | nil =>
      rw [System.record, Routes.play, Option.map_some, Option.map_some, sees.halted]
      rfl
  | cons action rest ih =>
      rw [System.record, Routes.play]
      obtain ⟨stuck, stops⟩ | ⟨next, events, routes', taken, played, routed⟩ := sees.step action
      · rw [show (interruptSystem layout).step interrupts action = none from stuck, stops]
        rfl
      · rw [show (interruptSystem layout).step interrupts action = some next from taken, played]
        rw [Option.bind_some, Option.bind_some, Option.map_map, Option.map_map]
        refine (ih routed.sees).trans ?_
        refine congrArg (fun f => (routes'.play rest).map f) (funext fun run => ?_)
        rw [routed.events, Function.comp_apply, List.reverse_append, List.append_assoc]

end Step

/-- In every run of calls to `register_interrupt_handler` and of interrupts with any vectors,
the segment, the gates, the stubs and the table of handlers do what the routes do: a request
runs the handler last registered for it and is acknowledged, and every other interrupt stops the
processor. -/
theorem interrupts_routed (layout : Layout) (actions : List (InterruptAction Handler)) :
    ((interruptSystem layout).record (.boot layout) actions).map
        (fun run => (run.2.events.reverse, run.2.halted)) =
      (Routes.none.play actions).map fun run => (run.1, run.2.halted) := by
  have seen : Sees layout (.boot layout) (Routes.none : Routes Handler) := sees_boot layout
  have run := congrArg (Option.map fun last => (last.1.reverse, last.2)) (seen.run actions)
  rw [Option.map_map, Option.map_map] at run
  refine run.trans (congrArg (fun f => (Routes.none.play actions).map f) (funext fun last => ?_))
  simp only [Function.comp_apply, InterruptState.boot, List.append_nil, List.reverse_reverse]

/-- Stubs of at most sixteen bytes, one behind the other. -/
def denseLayout : Layout where
  irqStub k := UInt32.ofNat (0x100000 + 16 * k)
  isrStub := 0x200000
  injective := by decide
  apart := by decide

/-- A request without a handler, one for the keyboard, and a division by zero. -/
example : ((interruptSystem denseLayout).record (.boot denseLayout)
      [.interrupt 40, .register 33 (some "keyboard_handler"), .interrupt 33, .interrupt 0]).map
        (fun run => (run.2.events.reverse, run.2.halted)) =
    some ([.outb 0xA0 0x20, .outb 0x20 0x20, .ran "keyboard_handler", .outb 0x20 0x20], true) := by
  rfl

end ApnaOS.Interrupts
