import Mathlib.Data.List.Induction
import Mathlib.Logic.Function.Basic

/-!
# Descriptor tables

`idt_set_gate` and `gdt_set_gate` scatter addresses and limits over the fields of packed
structures.  The processor reads eight bytes of a table and takes the fields out of them.
-/

set_option autoImplicit false

namespace ApnaOS.Interrupts

open Function (update update_self update_of_ne)

/-! ## The code -/

structure IdtEntry where
  baseLow : UInt16
  sel : UInt16
  always0 : UInt8
  flags : UInt8
  baseHigh : UInt16

/-- The arguments of `idt_set_gate`. -/
structure GateCall where
  num : UInt8
  base : UInt32
  sel : UInt16
  flags : UInt8

def GateCall.vector (call : GateCall) : Nat := call.num.toNat

def GateCall.entry (call : GateCall) : IdtEntry where
  baseLow := (call.base &&& 0xFFFF).toUInt16
  baseHigh := ((call.base >>> 16) &&& 0xFFFF).toUInt16
  sel := call.sel
  always0 := 0
  flags := call.flags

def idtSetGate (idt : Nat → IdtEntry) (call : GateCall) : Nat → IdtEntry :=
  update idt call.vector call.entry

structure GdtEntry where
  limitLow : UInt16
  baseLow : UInt16
  baseMiddle : UInt8
  access : UInt8
  granularity : UInt8
  baseHigh : UInt8

/-- The arguments of `gdt_set_gate`; an `unsigned long` has 32 bits. -/
structure SegmentCall where
  num : Nat
  base : UInt32
  limit : UInt32
  access : UInt8
  gran : UInt8

def SegmentCall.entry (call : SegmentCall) : GdtEntry where
  baseLow := (call.base &&& 0xFFFF).toUInt16
  baseMiddle := ((call.base >>> 16) &&& 0xFF).toUInt8
  baseHigh := ((call.base >>> 24) &&& 0xFF).toUInt8
  limitLow := (call.limit &&& 0xFFFF).toUInt16
  granularity := ((call.limit >>> 16) &&& 0x0F).toUInt8 ||| (call.gran &&& 0xF0)
  access := call.access

def gdtSetGate (gdt : Nat → GdtEntry) (call : SegmentCall) : Nat → GdtEntry :=
  update gdt call.num call.entry

/-! ## What the processor reads -/

/-- The eight bytes of the packed structure as one number, the first byte lowest. -/
def IdtEntry.word (entry : IdtEntry) : Nat :=
  entry.baseLow.toNat + 0x10000 * entry.sel.toNat + 0x100000000 * entry.always0.toNat +
    0x10000000000 * entry.flags.toNat + 0x1000000000000 * entry.baseHigh.toNat

def GdtEntry.word (entry : GdtEntry) : Nat :=
  entry.limitLow.toNat + 0x10000 * entry.baseLow.toNat + 0x100000000 * entry.baseMiddle.toNat +
    0x10000000000 * entry.access.toNat + 0x1000000000000 * entry.granularity.toNat +
    0x100000000000000 * entry.baseHigh.toNat

/-- Bits 0 to 15 and 48 to 63 of a gate are the offset, bits 16 to 31 the selector, bits 32 to
39 have to be zero, and bits 40 to 47 are the type and the privileges. -/
structure Gate where
  offset : Nat
  selector : Nat
  reserved : Nat
  access : Nat
  deriving DecidableEq

def gateOf (word : Nat) : Gate where
  offset := word % 0x10000 + 0x10000 * (word / 0x1000000000000 % 0x10000)
  selector := word / 0x10000 % 0x10000
  reserved := word / 0x100000000 % 0x100
  access := word / 0x10000000000 % 0x100

/-- Bits 16 to 39 and 56 to 63 of a segment are the base, bits 0 to 15 and 48 to 51 the limit,
bits 40 to 47 the access byte and bits 52 to 55 the flags. -/
structure Segment where
  base : Nat
  limit : Nat
  access : Nat
  flags : Nat
  deriving DecidableEq

def segmentOf (word : Nat) : Segment where
  base := word / 0x10000 % 0x1000000 + 0x1000000 * (word / 0x100000000000000 % 0x100)
  limit := word % 0x10000 + 0x10000 * (word / 0x1000000000000 % 0x10)
  access := word / 0x10000000000 % 0x100
  flags := word / 0x10000000000000 % 0x10

/-! ## Fields -/

theorem low16 (word : UInt32) : (word &&& 0xFFFF).toUInt16.toNat = word.toNat % 0x10000 := by
  have mask : (0xFFFF : UInt32).toNat = 2 ^ 16 - 1 := rfl
  rw [UInt32.toNat_toUInt16, UInt32.toNat_and, mask, Nat.and_two_pow_sub_one_eq_mod]
  omega

theorem low8 (word : UInt32) : (word &&& 0xFF).toUInt8.toNat = word.toNat % 0x100 := by
  have mask : (0xFF : UInt32).toNat = 2 ^ 8 - 1 := rfl
  rw [UInt32.toNat_toUInt8, UInt32.toNat_and, mask, Nat.and_two_pow_sub_one_eq_mod]
  omega

theorem low4 (word : UInt32) : (word &&& 0x0F).toUInt8.toNat = word.toNat % 0x10 := by
  have mask : (0x0F : UInt32).toNat = 2 ^ 4 - 1 := rfl
  rw [UInt32.toNat_toUInt8, UInt32.toNat_and, mask, Nat.and_two_pow_sub_one_eq_mod]
  omega

theorem shift16 (word : UInt32) : (word >>> 16).toNat = word.toNat / 0x10000 := by
  rw [UInt32.toNat_shiftRight, Nat.shiftRight_eq_div_pow]
  rfl

theorem shift24 (word : UInt32) : (word >>> 24).toNat = word.toNat / 0x1000000 := by
  rw [UInt32.toNat_shiftRight, Nat.shiftRight_eq_div_pow]
  rfl

theorem high4 : ∀ n, n < 256 → n &&& 0xF0 = 0x10 * (n / 0x10) := by decide +kernel

theorem granularity_toNat (call : SegmentCall) :
    call.entry.granularity.toNat =
      call.limit.toNat / 0x10000 % 0x10 + 0x10 * (call.gran.toNat / 0x10) := by
  have mask : (0xF0 : UInt8).toNat = 0xF0 := rfl
  have small : call.limit.toNat / 0x10000 % 0x10 < 2 ^ 4 := Nat.mod_lt _ (by decide)
  have joined : 0x10 * (call.gran.toNat / 0x10) ||| call.limit.toNat / 0x10000 % 0x10 =
      0x10 * (call.gran.toNat / 0x10) + call.limit.toNat / 0x10000 % 0x10 :=
    (Nat.two_pow_add_eq_or_of_lt small _).symm
  rw [SegmentCall.entry]
  dsimp only
  rw [UInt8.toNat_or, low4, shift16, UInt8.toNat_and, mask, high4 _ call.gran.toNat_lt,
    Nat.or_comm, joined, Nat.add_comm]

/-! ## Round trips -/

/-- What a gate is meant to be. -/
def GateCall.gate (call : GateCall) : Gate where
  offset := call.base.toNat
  selector := call.sel.toNat
  reserved := 0
  access := call.flags.toNat

/-- The limit has twenty bits, and the flags are the high four bits of `gran`. -/
def SegmentCall.segment (call : SegmentCall) : Segment where
  base := call.base.toNat
  limit := call.limit.toNat % 0x100000
  access := call.access.toNat
  flags := call.gran.toNat / 0x10

theorem gateOf_fields {low sel reserved flags high : Nat} (low_lt : low < 0x10000)
    (sel_lt : sel < 0x10000) (reserved_lt : reserved < 0x100) (flags_lt : flags < 0x100)
    (high_lt : high < 0x10000) :
    gateOf (low + 0x10000 * sel + 0x100000000 * reserved + 0x10000000000 * flags +
      0x1000000000000 * high) = ⟨low + 0x10000 * high, sel, reserved, flags⟩ := by
  rw [gateOf, Gate.mk.injEq]
  refine ⟨?_, ?_, ?_, ?_⟩ <;> omega

theorem segmentOf_fields {limit low middle access granularity high : Nat}
    (limit_lt : limit < 0x10000) (low_lt : low < 0x10000) (middle_lt : middle < 0x100)
    (access_lt : access < 0x100) (granularity_lt : granularity < 0x100) (high_lt : high < 0x100) :
    segmentOf (limit + 0x10000 * low + 0x100000000 * middle + 0x10000000000 * access +
      0x1000000000000 * granularity + 0x100000000000000 * high) =
        ⟨low + 0x10000 * middle + 0x1000000 * high, limit + 0x10000 * (granularity % 0x10), access,
          granularity / 0x10⟩ := by
  rw [segmentOf, Segment.mk.injEq]
  refine ⟨?_, ?_, ?_, ?_⟩ <;> omega

theorem gateOf_entry (call : GateCall) : gateOf call.entry.word = call.gate := by
  have base := call.base.toNat_lt
  have low : call.entry.baseLow.toNat = call.base.toNat % 0x10000 := low16 _
  have high : call.entry.baseHigh.toNat = call.base.toNat / 0x10000 % 0x10000 := by
    rw [GateCall.entry, low16, shift16]
  have offset : call.entry.baseLow.toNat + 0x10000 * call.entry.baseHigh.toNat =
      call.base.toNat := by
    rw [low, high]
    omega
  rw [IdtEntry.word, gateOf_fields call.entry.baseLow.toNat_lt call.entry.sel.toNat_lt
    call.entry.always0.toNat_lt call.entry.flags.toNat_lt call.entry.baseHigh.toNat_lt, offset]
  rfl

theorem segmentOf_entry (call : SegmentCall) : segmentOf call.entry.word = call.segment := by
  have bound := call.base.toNat_lt
  have small := call.gran.toNat_lt
  have low : call.entry.baseLow.toNat = call.base.toNat % 0x10000 := low16 _
  have middle : call.entry.baseMiddle.toNat = call.base.toNat / 0x10000 % 0x100 := by
    rw [SegmentCall.entry, low8, shift16]
  have high : call.entry.baseHigh.toNat = call.base.toNat / 0x1000000 % 0x100 := by
    rw [SegmentCall.entry, low8, shift24]
  have limitLow : call.entry.limitLow.toNat = call.limit.toNat % 0x10000 := low16 _
  have granularity := granularity_toNat call
  rw [GdtEntry.word, segmentOf_fields call.entry.limitLow.toNat_lt call.entry.baseLow.toNat_lt
    call.entry.baseMiddle.toNat_lt call.entry.access.toNat_lt call.entry.granularity.toNat_lt
    call.entry.baseHigh.toNat_lt, SegmentCall.segment, Segment.mk.injEq]
  refine ⟨?_, ?_, rfl, ?_⟩
  · rw [low, middle, high]
    omega
  · rw [limitLow, granularity]
    omega
  · rw [granularity]
    omega

def lastFor {Call : Type} (num : Call → Nat) (calls : List Call) (entry : Nat) : Option Call :=
  calls.reverse.find? fun call => decide (num call = entry)

/-- What `read` shows of the entries of a table, where it shows of an entry that a call has made
what the call was given. -/
theorem table_after {Call Entry View : Type} (num : Call → Nat) (read : Entry → View)
    {made : Call → Entry} {given : Call → View} (shows : ∀ call, read (made call) = given call)
    (table : Nat → Entry) (calls : List Call) (entry : Nat) :
    read (calls.foldl (fun table call => update table (num call) (made call)) table entry) =
      ((lastFor num calls entry).map given).getD (read (table entry)) := by
  induction calls using List.reverseRecOn with
  | nil => rfl
  | append_singleton calls call ih =>
      rw [List.foldl_append, lastFor, List.reverse_append, List.reverse_singleton,
        List.singleton_append]
      by_cases here : num call = entry
      · rw [List.find?_cons, decide_eq_true here, ← here]
        exact (congrArg read (update_self ..)).trans (shows call)
      · rw [List.find?_cons, decide_eq_false here]
        exact (congrArg read (update_of_ne (Ne.symm here) ..)).trans ih

theorem gate_after (idt : Nat → IdtEntry) (calls : List GateCall) (entry : Nat) :
    gateOf (calls.foldl idtSetGate idt entry).word =
      ((lastFor GateCall.vector calls entry).map GateCall.gate).getD
        (gateOf (idt entry).word) :=
  table_after GateCall.vector (fun entry => gateOf entry.word) gateOf_entry idt calls entry

theorem segment_after (gdt : Nat → GdtEntry) (calls : List SegmentCall) (entry : Nat) :
    segmentOf (calls.foldl gdtSetGate gdt entry).word =
      ((lastFor SegmentCall.num calls entry).map SegmentCall.segment).getD
        (segmentOf (gdt entry).word) :=
  table_after SegmentCall.num (fun entry => segmentOf entry.word) segmentOf_entry gdt calls entry

/-- After any sequence of calls the processor reads from each entry of the two tables what the
last call for it was given, up to the twenty bits of a limit and the four flags of a segment. -/
theorem descriptors_decode :
    (∀ (idt : Nat → IdtEntry) (calls : List GateCall) (entry : Nat),
      gateOf (calls.foldl idtSetGate idt entry).word =
        ((lastFor GateCall.vector calls entry).map GateCall.gate).getD
          (gateOf (idt entry).word)) ∧
    ∀ (gdt : Nat → GdtEntry) (calls : List SegmentCall) (entry : Nat),
      segmentOf (calls.foldl gdtSetGate gdt entry).word =
        ((lastFor SegmentCall.num calls entry).map SegmentCall.segment).getD
          (segmentOf (gdt entry).word) :=
  ⟨gate_after, segment_after⟩

end ApnaOS.Interrupts
