import ApnaOS.Keyboard.StringOps
import ApnaOS.Lib.FixedDigits
import ApnaOS.Lib.Slices

/-!
# The debug log

`serial_print` waits for the line before each byte.  `debug_print` and `debug_int` of
`kernel.c` write one line each, numbers as eight hexadecimal digits.  The accesses to the
ports are recorded, the latest first; what a read of a port gives is up to the device.
-/

set_option autoImplicit false

namespace ApnaOS.Serial

open ApnaOS.Lib
open ApnaOS.StringOps (Byte Bytes)
open Function (update)

/-! ## The code -/

def hexChars : List Byte := [48, 49, 50, 51, 52, 53, 54, 55, 56, 57, 65, 66, 67, 68, 69, 70]

/-- `hex_chars[(num >> ((7 - i) * 4)) & 0xF]` -/
def hexDigit (num : UInt32) (i : Nat) : Byte :=
  hexChars.getD ((num >>> UInt32.ofNat ((7 - i) * 4)) &&& 0xF).toNat 0

def intToHex (num : UInt32) (buffer : Bytes) : Bytes :=
  let buffer := update buffer 0 48
  let buffer := update buffer 1 120
  let buffer := (List.range 8).foldl
    (fun buffer i => update buffer (i + 2) (hexDigit num i)) buffer
  update buffer 10 0

inductive Access where
  | inb (port : Nat) (value : Byte)
  | outb (port : Nat) (value : Byte)

structure Ports where
  accesses : List Access
  reads : Nat

def serialPort : Nat := 0x3F8

/-- `SERIAL_PORT + 5` -/
def lineStatusPort : Nat := serialPort + 5

/-- The bit of the line status that `serial_print` waits for. -/
def Ready (value : Byte) : Prop := value &&& 0x20 ≠ 0

instance (value : Byte) : Decidable (Ready value) := inferInstanceAs (Decidable (_ ≠ _))

section Code

-- What the reads give, by how many there were before.
variable (status : Nat → Byte)

/-- `while (!(inb(SERIAL_PORT + 5) & 0x20));` -/
def waitLoop : Nat → Ports → Option Ports
  | 0, _ => none
  | fuel + 1, ports =>
      let value := status ports.reads
      let ports := ⟨.inb lineStatusPort value :: ports.accesses, ports.reads + 1⟩
      if Ready value then some ports else waitLoop fuel ports

/-- `while (*message)` of `serial_print` from offset `i`. -/
def serialPrint (message : Bytes) : Nat → Nat → Ports → Option Ports
  | 0, _, _ => none
  | fuel + 1, i, ports =>
      if message i ≠ 0 then do
        let ports ← waitLoop status fuel ports
        serialPrint message fuel (i + 1)
          ⟨.outb serialPort (message i) :: ports.accesses, ports.reads⟩
      else some ports

/-- `"\r\n"` -/
def lineEnd : Bytes := fun i => [13, 10].getD i 0

def debugPrint (msg : Bytes) (fuel : Nat) (ports : Ports) : Option Ports := do
  let ports ← serialPrint status msg fuel 0 ports
  serialPrint status lineEnd fuel 0 ports

/-- `buffer` holds what was on the stack. -/
def debugInt (buffer : Bytes) (val : UInt32) (fuel : Nat) (ports : Ports) : Option Ports :=
  debugPrint status (intToHex val buffer) fuel ports

end Code

inductive Entry where
  | print (chars : List Byte)
  | int (val : UInt32)
  deriving DecidableEq

def Entry.run (status : Nat → Byte) (buffer : Bytes) : Entry → Nat → Ports → Option Ports
  | .print chars => debugPrint status fun i => chars.getD i 0
  | .int val => debugInt status buffer val

/-- A call, and what the stack holds where `debug_int` has its buffer. -/
structure Call where
  entry : Entry
  buffer : Bytes

def runLog (status : Nat → Byte) : List Call → Nat → Ports → Option Ports
  | [], _, ports => some ports
  | call :: rest, fuel, ports => do
      let ports ← call.entry.run status call.buffer fuel ports
      runLog status rest fuel ports

/-! ## Hexadecimal text -/

def hexChar (d : Nat) : Byte := hexChars.getD d 0

/-- `0x` and eight digits. -/
def hexText (n : Nat) : List Byte := 48 :: 120 :: (fixedDigits 16 8 n).reverse.map hexChar

example : hexText 48879 = [48, 120, 48, 48, 48, 48, 66, 69, 69, 70] := by decide

/-- The value of the digits behind `0x`. -/
def readHex (text : List Byte) : Nat :=
  Nat.ofDigits 16 ((text.drop 2).map fun c => hexChars.idxOf c).reverse

theorem idxOf_hexChar : ∀ d, d < 16 → hexChars.idxOf (hexChar d) = d := by decide

theorem hexChar_plain : ∀ d, d < 16 → hexChar d ≠ 0 ∧ hexChar d ≠ 13 ∧ hexChar d ≠ 10 := by
  decide

theorem readHex_hexText (val : UInt32) : readHex (hexText val.toNat) = val.toNat := by
  have fits : val.toNat < 16 ^ 8 := val.toNat_lt
  have digits : ((hexText val.toNat).drop 2).map (fun c => hexChars.idxOf c) =
      (fixedDigits 16 8 val.toNat).reverse := by
    rw [hexText, List.drop_succ_cons, List.drop_succ_cons, List.drop_zero, List.map_map]
    have same := List.map_congr_left (l := (fixedDigits 16 8 val.toNat).reverse)
      (f := (fun c => hexChars.idxOf c) ∘ hexChar) (g := id) fun d member =>
        idxOf_hexChar d (fixedDigits_lt (by decide) (List.mem_reverse.mp member))
    rw [same, List.map_id]
  rw [readHex, digits, List.reverse_reverse, ofDigits_fixedDigits fits]

/-- Characters that neither end a string nor a line. -/
def Plain (chars : List Byte) : Prop := ∀ c ∈ chars, c ≠ 0 ∧ c ≠ 13 ∧ c ≠ 10

instance (chars : List Byte) : Decidable (Plain chars) :=
  inferInstanceAs (Decidable (∀ c ∈ chars, _))

theorem Plain.terminated {chars : List Byte} (plain : Plain chars) : 0 ∉ chars :=
  fun member => (plain 0 member).1 rfl

theorem plain_hexText (n : Nat) : Plain (hexText n) := by
  intro c member
  rw [hexText, List.mem_cons, List.mem_cons] at member
  rcases member with rfl | rfl | digit
  · decide
  · decide
  · obtain ⟨d, within, rfl⟩ := List.mem_map.mp digit
    have small : d < 16 := fixedDigits_lt (by decide) (List.mem_reverse.mp within)
    exact hexChar_plain d small

/-! ## int_to_hex -/

theorem hexDigit_eq (num : UInt32) {i : Nat} (inside : i < 8) :
    hexDigit num i = hexChar (num.toNat / 16 ^ (7 - i) % 16) := by
  have small : (7 - i) * 4 < UInt32.size := by
    unfold UInt32.size
    omega
  have shift : (UInt32.ofNat ((7 - i) * 4)).toNat % 32 = 4 * (7 - i) := by
    rw [UInt32.toNat_ofNat_of_lt' small]
    omega
  have low : (0xF : UInt32).toNat = 2 ^ 4 - 1 := rfl
  rw [hexDigit, hexChar, UInt32.toNat_and, UInt32.toNat_shiftRight, shift, low,
    Nat.and_two_pow_sub_one_eq_mod, Nat.shiftRight_eq_div_pow, Nat.pow_mul]

theorem hexText_eq (num : UInt32) :
    hexText num.toNat = 48 :: 120 :: (List.range 8).map (hexDigit num) := by
  have turned : ∀ place : Nat → Nat,
      ((List.range 8).map place).reverse = (List.range 8).map fun i => place (7 - i) :=
    fun place => rfl
  have digits : ((fixedDigits 16 8 num.toNat).reverse).map hexChar =
      (List.range 8).map (hexDigit num) := by
    rw [fixedDigits_eq_map, turned, List.map_map]
    apply List.map_congr_left
    intro i member
    exact (hexDigit_eq num (List.mem_range.mp member)).symm
  rw [hexText, digits]

theorem hexLoop_slice (num : UInt32) {buffer : Bytes} (rounds : Nat)
    (slice : HasSlice buffer 0 [48, 120]) :
    HasSlice ((List.range rounds).foldl
      (fun buffer i => update buffer (i + 2) (hexDigit num i)) buffer) 0
      (48 :: 120 :: (List.range rounds).map (hexDigit num)) := by
  induction rounds with
  | zero => exact slice
  | succ rounds ih =>
      have stored := ih.push (hexDigit num rounds)
      rw [List.length_cons, List.length_cons, List.length_map, List.length_range,
        Nat.zero_add] at stored
      rw [List.range_succ, List.foldl_append, List.map_append]
      exact stored

theorem intToHex_text (num : UInt32) (buffer : Bytes) :
    EndsAt 0 (intToHex num buffer) 0 (hexText num.toNat) := by
  have none_stored : HasSlice buffer 0 [] := trivial
  have prefixed : HasSlice (update (update buffer 0 48) 1 120) 0 [48, 120] :=
    (none_stored.push 48).push 120
  have digits := hexLoop_slice num 8 prefixed
  rw [← hexText_eq] at digits
  exact EndsAt.of_slice digits (plain_hexText num.toNat).terminated

/-! ## What is sent -/

/-- Bytes go to the data port one at a time, each right after a read of the line status that
said it was ready, and there are no other accesses but reads of the line status. -/
inductive Sends : List Access → List Byte → Prop where
  | nil : Sends [] []
  | poll {accesses : List Access} {sent : List Byte} (value : Byte) (before : Sends accesses sent) :
      Sends (.inb lineStatusPort value :: accesses) sent
  | send {accesses : List Access} {sent : List Byte} {value : Byte} (c : Byte)
      (ready : Ready value) (before : Sends accesses sent) :
      Sends (.outb serialPort c :: .inb lineStatusPort value :: accesses) (sent ++ [c])

theorem Sends.append {later earlier : List Access} {sent sent' : List Byte}
    (after : Sends later sent') (before : Sends earlier sent) :
    Sends (later ++ earlier) (sent ++ sent') := by
  induction after with
  | nil =>
      rw [List.append_nil]
      exact before
  | poll value _ ih => exact .poll value ih
  | send c ready _ ih =>
      rw [← List.append_assoc]
      exact .send c ready ih

/-- With enough fuel the code ends, and it has sent these bytes. -/
def Prints (run : Nat → Ports → Option Ports) (bytes : List Byte) : Prop :=
  ∀ ports, ∃ enough later reads, Sends later bytes ∧
    ∀ fuel, enough ≤ fuel → run fuel ports = some ⟨later ++ ports.accesses, reads⟩

theorem Prints.nothing : Prints (fun _ ports => some ports) [] :=
  fun ports => ⟨0, [], ports.reads, .nil, fun _ _ => rfl⟩

theorem Prints.andThen {first second : Nat → Ports → Option Ports} {bytes more : List Byte}
    (prints : Prints first bytes) (prints' : Prints second more) :
    Prints (fun fuel ports => (first fuel ports).bind (second fuel)) (bytes ++ more) := by
  intro ports
  obtain ⟨enough, later, reads, sends, runs⟩ := prints ports
  obtain ⟨enough', later', reads', sends', runs'⟩ := prints' ⟨later ++ ports.accesses, reads⟩
  refine ⟨max enough enough', later' ++ later, reads', sends'.append sends, ?_⟩
  intro fuel large
  dsimp only
  rw [runs fuel (Nat.le_trans (Nat.le_max_left ..) large), Option.bind_some,
    runs' fuel (Nat.le_trans (Nat.le_max_right ..) large), List.append_assoc]

section Device

variable {status : Nat → Byte}

/-- The loop ends with the first read that says that the line is ready. -/
theorem waitLoop_spec (distance : Nat) (ports : Ports)
    (ready : Ready (status (ports.reads + distance))) :
    ∃ value polls reads, Ready value ∧ Sends polls [] ∧ ∀ fuel, distance < fuel →
      waitLoop status fuel ports =
        some ⟨.inb lineStatusPort value :: (polls ++ ports.accesses), reads⟩ := by
  induction distance generalizing ports with
  | zero =>
      rw [Nat.add_zero] at ready
      refine ⟨status ports.reads, [], ports.reads + 1, ready, .nil, ?_⟩
      intro fuel enough
      obtain ⟨fuel, rfl⟩ := Nat.exists_eq_succ_of_ne_zero (Nat.ne_of_gt enough)
      rw [Nat.succ_eq_add_one, waitLoop, if_pos ready, List.nil_append]
  | succ distance ih =>
      by_cases now : Ready (status ports.reads)
      · refine ⟨status ports.reads, [], ports.reads + 1, now, .nil, ?_⟩
        intro fuel enough
        obtain ⟨fuel, rfl⟩ := Nat.exists_eq_succ_of_ne_zero (Nat.ne_zero_of_lt enough)
        rw [Nat.succ_eq_add_one, waitLoop, if_pos now, List.nil_append]
      · have next : ports.reads + (distance + 1) = ports.reads + 1 + distance := by omega
        rw [next] at ready
        obtain ⟨value, polls, reads, isReady, sends, runs⟩ :=
          ih ⟨.inb lineStatusPort (status ports.reads) :: ports.accesses, ports.reads + 1⟩ ready
        refine ⟨value, polls ++ [.inb lineStatusPort (status ports.reads)], reads, isReady,
          sends.append (.poll _ .nil), ?_⟩
        intro fuel enough
        obtain ⟨fuel, rfl⟩ := Nat.exists_eq_succ_of_ne_zero (Nat.ne_zero_of_lt enough)
        rw [Nat.succ_eq_add_one, waitLoop, if_neg now, runs fuel (Nat.lt_of_succ_lt_succ enough),
          List.append_assoc, List.singleton_append]

def Often (status : Nat → Byte) : Prop := ∀ reads, ∃ distance, Ready (status (reads + distance))

theorem serialPrint_prints (often : Often status) {message : Bytes} {i : Nat}
    {text : List Byte} (ends : EndsAt 0 message i text) :
    Prints (fun fuel ports => serialPrint status message fuel i ports) text := by
  induction text generalizing i with
  | nil =>
      intro ports
      refine ⟨1, [], ports.reads, .nil, ?_⟩
      intro fuel enough
      obtain ⟨fuel, rfl⟩ := Nat.exists_eq_succ_of_ne_zero (Nat.ne_zero_of_lt enough)
      dsimp only
      rw [Nat.succ_eq_add_one, serialPrint, if_neg (not_not.mpr (EndsAt.nil_iff.mp ends)),
        List.nil_append]
  | cons c text ih =>
      obtain ⟨here, running, rest⟩ := EndsAt.cons_iff.mp ends
      intro ports
      obtain ⟨distance, ready⟩ := often ports.reads
      obtain ⟨value, polls, reads, isReady, polled, waited⟩ := waitLoop_spec distance ports ready
      let middle : Ports :=
        ⟨.outb serialPort c :: .inb lineStatusPort value :: (polls ++ ports.accesses), reads⟩
      obtain ⟨enough, later, reads', sends, runs⟩ := ih rest middle
      refine ⟨max (distance + 1) enough + 1,
        later ++ (.outb serialPort c :: .inb lineStatusPort value :: polls), reads',
        sends.append (.send c isReady polled), ?_⟩
      intro fuel large
      obtain ⟨fuel, rfl⟩ := Nat.exists_eq_succ_of_ne_zero (Nat.ne_zero_of_lt large)
      have first : distance < fuel := by omega
      have second : enough ≤ fuel := by omega
      dsimp only
      rw [Nat.succ_eq_add_one, serialPrint, here, if_pos running, waited fuel first]
      exact (runs fuel second).trans (by rw [List.append_assoc]; rfl)

theorem debugPrint_prints (often : Often status) {msg : Bytes} {text : List Byte}
    (ends : EndsAt 0 msg 0 text) : Prints (debugPrint status msg) (text ++ [13, 10]) := by
  have closing : EndsAt 0 lineEnd 0 [13, 10] := EndsAt.of_getD (by decide)
  exact (serialPrint_prints often ends).andThen (serialPrint_prints often closing)

end Device

/-! ## The log as it is read -/

def Entry.text : Entry → List Byte
  | .print chars => chars
  | .int val => hexText val.toNat

/-- A message is not split by its own characters, and does not look like a number. -/
def Entry.Clean : Entry → Prop
  | .print chars => Plain chars ∧ hexText (readHex chars) ≠ chars
  | .int _ => True

/-- Lines end with `"\r\n"`; `line` is what has come of the current one. -/
def linesOf (line : List Byte) : List Byte → List (List Byte)
  | [] => []
  | c :: rest =>
      if c = 13 then line :: linesOf [] rest
      else if c = 10 then linesOf line rest
      else linesOf (line ++ [c]) rest

def Entry.read (line : List Byte) : Entry :=
  if hexText (readHex line) = line then .int (UInt32.ofNat (readHex line)) else .print line

theorem linesOf_plain {text : List Byte} (plain : Plain text) (line rest : List Byte) :
    linesOf line (text ++ 13 :: 10 :: rest) = (line ++ text) :: linesOf [] rest := by
  induction text generalizing line with
  | nil =>
      rw [List.nil_append, List.append_nil]
      simp [linesOf]
  | cons c text ih =>
      obtain ⟨⟨_, notReturn, notNewline⟩, later⟩ := List.forall_mem_cons.mp plain
      rw [List.cons_append, linesOf, if_neg notReturn, if_neg notNewline, ih later,
        List.append_assoc, List.singleton_append]

theorem Entry.plain {entry : Entry} (clean : entry.Clean) : Plain entry.text := by
  cases entry with
  | print chars => exact clean.1
  | int val => exact plain_hexText val.toNat

theorem Entry.read_text {entry : Entry} (clean : entry.Clean) : Entry.read entry.text = entry := by
  cases entry with
  | print chars => exact if_neg clean.2
  | int val =>
      rw [Entry.read, Entry.text, readHex_hexText, if_pos rfl, UInt32.ofNat_toNat]

theorem Entry.run_prints {status : Nat → Byte} (often : Often status) (buffer : Bytes)
    {entry : Entry} (clean : entry.Clean) :
    Prints (entry.run status buffer) (entry.text ++ [13, 10]) := by
  cases entry with
  | print chars => exact debugPrint_prints often (EndsAt.of_getD clean.1.terminated)
  | int val => exact debugPrint_prints often (intToHex_text val buffer)

theorem runLog_prints {status : Nat → Byte} (often : Often status) (calls : List Call)
    (clean : ∀ entry ∈ calls.map Call.entry, entry.Clean) :
    Prints (runLog status calls)
      ((calls.map Call.entry).flatMap fun entry => entry.text ++ [13, 10]) := by
  induction calls with
  | nil => exact .nothing
  | cons call calls ih =>
      obtain ⟨here, later⟩ := List.forall_mem_cons.mp clean
      exact (Entry.run_prints often call.buffer here).andThen (ih later)

theorem linesOf_log (entries : List Entry) (clean : ∀ entry ∈ entries, entry.Clean) :
    linesOf [] (entries.flatMap fun entry => entry.text ++ [13, 10]) =
      entries.map Entry.text := by
  induction entries with
  | nil => rfl
  | cons entry entries ih =>
      obtain ⟨here, later⟩ := List.forall_mem_cons.mp clean
      rw [List.flatMap_cons, List.append_assoc]
      exact (linesOf_plain (Entry.plain here) [] _).trans (congrArg (List.cons _) (ih later))

/-- On every device that is ready again and again the log is written to its end, byte by byte
and none before the device is ready, and the calls that wrote it can be read off the bytes. -/
theorem log_read_back {status : Nat → Byte} (often : Often status) (calls : List Call)
    (clean : ∀ entry ∈ calls.map Call.entry, entry.Clean) (ports : Ports) :
    ∃ enough later reads bytes, Sends later bytes ∧
      (linesOf [] bytes).map Entry.read = calls.map Call.entry ∧ ∀ fuel, enough ≤ fuel →
        runLog status calls fuel ports = some ⟨later ++ ports.accesses, reads⟩ := by
  obtain ⟨enough, later, reads, sends, runs⟩ := runLog_prints often calls clean ports
  refine ⟨enough, later, reads, _, sends, ?_, runs⟩
  rw [linesOf_log (calls.map Call.entry) clean, List.map_map]
  calc
    (calls.map Call.entry).map (Entry.read ∘ Entry.text) = (calls.map Call.entry).map id :=
      List.map_congr_left fun entry member => Entry.read_text (clean entry member)
    _ = calls.map Call.entry := List.map_id _

/-- A device that is ready at each third read, and a line with a number in it. -/
theorem log_read_back_pid : ∃ enough later reads bytes, Sends later bytes ∧
    (linesOf [] bytes).map Entry.read = [.print [112, 105, 100, 58], .int 48879] ∧
    ∀ fuel, enough ≤ fuel →
      runLog (fun n => if n % 3 = 0 then 0x60 else 0)
          [⟨.print [112, 105, 100, 58], fun _ => 9⟩, ⟨.int 48879, fun _ => 7⟩] fuel ⟨[], 0⟩ =
        some ⟨later ++ [], reads⟩ := by
  have often : Often fun n => if n % 3 = 0 then 0x60 else 0 := by
    intro reads
    have third : (reads + 2 * reads) % 3 = 0 := by omega
    refine ⟨2 * reads, ?_⟩
    dsimp only
    rw [if_pos third]
    decide
  apply log_read_back often
    [⟨.print [112, 105, 100, 58], fun _ => 9⟩, ⟨.int 48879, fun _ => 7⟩]
  intro entry member
  rcases List.mem_cons.mp member with rfl | member
  · exact ⟨by decide +kernel, by decide +kernel⟩
  · rw [List.mem_singleton.mp member]
    exact trivial

end ApnaOS.Serial
