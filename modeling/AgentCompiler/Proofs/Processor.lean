import AgentCompiler.Lowering.Pool
import AgentCompiler.Proofs.AddressSpace

/-!
What the instructions do: registers, flags and memory of the processor, one instruction after the
other.

A process is what stays fixed while a program runs: its code, where code and data stand in memory,
which memory there is, and what happens outside the program. Reading or writing a byte that is not
mapped, reading a flag that is undefined and dividing out of range have no next state, so a run that
goes on has done none of these.

`effect` is an instruction that control passes through, `step` adds the branches. A routine
`Flows` from one configuration to another when it neither calls nor returns on the way, and
`Returns` follows a routine to its own return, the routines that it calls included.
-/

namespace AgentCompiler

open Option List Instruction
open BitVec (ofNat)

/-- The flags that conditions read; `none` where the last result leaves a flag undefined. -/
structure Flags where
  carry : Option Bool
  zero : Option Bool
  sign : Option Bool
  overflow : Option Bool
  deriving DecidableEq

namespace Flags

def undefined : Flags := ⟨none, none, none, none⟩

def ofResult {n : Nat} (result : BitVec n) (carry overflow : Option Bool) : Flags :=
  ⟨carry, some (result == 0), some result.msb, overflow⟩

end Flags

def Condition.holds (c : Condition) (f : Flags) : Option Bool :=
  match c with
  | o => f.overflow
  | no => f.overflow.map (!·)
  | b => f.carry
  | ae => f.carry.map (!·)
  | e => f.zero
  | ne => f.zero.map (!·)
  | be => f.carry.bind fun c => f.zero.map (c || ·)
  | a => f.carry.bind fun c => f.zero.map fun z => !(c || z)
  | s => f.sign
  | ns => f.sign.map (!·)
  | l => f.sign.bind fun s => f.overflow.map (s != ·)
  | ge => f.sign.bind fun s => f.overflow.map (s == ·)
  | le => f.zero.bind fun z => f.sign.bind fun s => f.overflow.map fun o => z || s != o
  | g => f.zero.bind fun z => f.sign.bind fun s => f.overflow.map fun o => !(z || s != o)

namespace AluOp

def result {n : Nat} (op : AluOp) (a b : BitVec n) : BitVec n :=
  match op with
  | add => a + b
  | or => a ||| b
  | and => a &&& b
  | sub | cmp => a - b
  | xor => a ^^^ b

def flags {n : Nat} (op : AluOp) (a b : BitVec n) : Flags :=
  match op with
  | add => .ofResult (a + b) (some (BitVec.uaddOverflow a b)) (some (BitVec.saddOverflow a b))
  | sub | cmp => .ofResult (a - b) (some (BitVec.usubOverflow a b)) (some (BitVec.ssubOverflow a b))
  | or | and | xor => .ofResult (op.result a b) (some false) (some false)

def compute (op : AluOp) (width : Width) (a b : Word) : Word × Flags :=
  match width with
  | .qword => (op.result a b, op.flags a b)
  | .dword =>
    ((op.result (a.setWidth 32) (b.setWidth 32)).setWidth 64, op.flags (a.setWidth 32)
      (b.setWidth 32))
  | .byte =>
    ((op.result (a.setWidth 8) (b.setWidth 8)).setWidth 64, op.flags (a.setWidth 8) (b.setWidth 8))

end AluOp

namespace Condition

@[simp] lemma holds_b_cmp (x y : Word) : b.holds (AluOp.cmp.flags x y) = some
    (decide (x.toNat < y.toNat)) := rfl

@[simp] lemma holds_ae_cmp (x y : Word) : ae.holds (AluOp.cmp.flags x y) = some
    (decide (y.toNat ≤ x.toNat)) := by
  change some (!decide (x.toNat < y.toNat)) = _
  rw [← decide_not]
  simp only [not_lt]

@[simp] lemma holds_e_check (x : Word) (carry overflow : Option Bool) :
    e.holds (.ofResult x carry overflow) = some (x == 0) := rfl

end Condition

def ShiftOp.result (op : ShiftOp) (a : Word) (count : Nat) : Word :=
  match op with
  | shl => a <<< count
  | shr => a >>> count
  | sar => a.sshiftRight count

def Place.operand : Place → Operand
  | reg r => .reg r
  | mem m => .mem m

structure Machine where
  regs : Register → Word
  flags : Flags
  memory : Memory

namespace Machine

def set (s : Machine) (r : Register) (value : Word) : Machine :=
  { s with regs := Function.update s.regs r value }

/-- Writes the low part of a register. Four bytes clear the upper half, one byte keeps the rest. -/
def setPart (s : Machine) (width : Width) (r : Register) (value : Word) : Machine :=
  match width with
  | .qword => s.set r value
  | .dword => s.set r ((value.setWidth 32).setWidth 64)
  | .byte => s.set r (s.regs r &&& ~~~0xFF ||| value &&& 0xFF)

def shiftCount (s : Machine) : ShiftCount → Nat
  | .cl => (s.regs .rcx).toNat % 64
  | .imm count => count.toNat % 64

def ChangesOnly (s : Machine) (changed : List Register) (t : Machine) : Prop :=
  ∀ r, r ∉ changed → t.regs r = s.regs r

structure Preserves (s t : Machine) : Prop where
  stack : t.regs .rsp = s.regs .rsp
  saved : ∀ r, r.isCalleeSaved → t.regs r = s.regs r

lemma ChangesOnly.trans {s t u : Machine} {first second : List Register}
    (earlier : s.ChangesOnly first t) (later : t.ChangesOnly second u)
    (sub : second ⊆ first) : s.ChangesOnly first u :=
  fun r outside => (later r fun inside => outside (sub inside)).trans (earlier r outside)

lemma ChangesOnly.mono {s t : Machine} {first second : List Register}
    (changes : s.ChangesOnly first t) (sub : first ⊆ second) : s.ChangesOnly second t :=
  fun r outside => changes r fun inside => outside (sub inside)

section

variable (s : Machine) (r : Register) (value : Word)
include s r value

@[simp] lemma set_regs : (s.set r value).regs = Function.update s.regs r value := rfl

@[simp] lemma set_memory : (s.set r value).memory = s.memory := rfl

@[simp] lemma setPart_qword : s.setPart .qword r value = s.set r value := rfl

end

end Machine

/-- Copies bytes one after the other, so an overlapping copy sees what it has written. -/
def Memory.copy (m : Memory) (target source : Word) : Nat → Memory
  | 0 => m
  | count + 1 =>
    let done := m.copy target source count
    Function.update done (target + ofNat 64 count) (done (source + ofNat 64 count))

structure Process where
  code : Code
  codeAddress : Nat → Word
  symbolAt : SymbolId → Word
  mapped : Word → Bool
  /-- What a call of a routine does that is not followed into the code. -/
  outside : Label → Option (Machine → Option Machine)
  /-- What the system does when it is called, if it lets the program go on. -/
  system : Machine → Option Machine

/-- A state of a running program: the instruction that comes next, and what it works on. -/
structure Config where
  position : Nat
  machine : Machine

namespace Process

variable (P : Process) {a : Word} {i : Instruction} {cond : Condition}

def address (s : Machine) (m : Address) : Word :=
  let base := match m.base with
    | .reg r => s.regs r
    | .symbol id => P.symbolAt id
  let index := match m.index with
    | none => 0
    | some (r, scale) => s.regs r * ofNat 64 scale.factor
  base + index + BitVec.ofInt 64 m.disp.toInt

def allows (a : Word) (count : Nat) : Bool := (List.range count).all fun i =>
    P.mapped (a + ofNat 64 i)

def read (s : Machine) (a : Word) (width : Width) : Option Word :=
  if P.allows a width.bytes then some (s.memory.load a width) else none

def write (s : Machine) (a : Word) (width : Width) (value : Word) : Option Machine :=
  if P.allows a width.bytes then some { s with memory := s.memory.store a width value } else none

/-- An operand; of a register or a constant the low part counts. -/
def value (s : Machine) (width : Width) : Operand → Option Word
  | .reg r => some (s.regs r)
  | .imm v => some v.toBitVec
  | .mem m => P.read s (P.address s m) width

def assign (s : Machine) (width : Width) (dst : Operand) (value : Word) : Option Machine :=
  match dst with
  | .reg r => some (s.setPart width r value)
  | .mem m => P.write s (P.address s m) width value
  | .imm _ => none

def push (s : Machine) (value : Word) : Option Machine :=
  let top := s.regs .rsp - 8
  (P.write s top .qword value).map (·.set .rsp top)

def divide (s : Machine) (dividend divisor low high : Int) : Option Machine :=
  let quotient := dividend.tdiv divisor
  if divisor = 0 ∨ quotient < low ∨ high < quotient then none
  else
    some { (s.set .rax (BitVec.ofInt 64 quotient)).set .rdx
      (BitVec.ofInt 64 (dividend.tmod divisor)) with flags := .undefined }

def unary (s : Machine) (op : UnaryOp) (dst : Operand) (v : Word) : Option Machine :=
  match op with
  | .not => P.assign s .qword dst (~~~v)
  | .neg =>
    P.assign { s with flags := .ofResult (-v) (some (v != 0)) (some (BitVec.negOverflow v)) }
      .qword dst (-v)
  | .inc =>
    P.assign { s with flags := .ofResult (v + 1) s.flags.carry (some (BitVec.saddOverflow v 1)) }
      .qword dst (v + 1)
  | .dec =>
    P.assign { s with flags := .ofResult (v - 1) s.flags.carry (some (BitVec.ssubOverflow v 1)) }
      .qword dst (v - 1)
  | .div =>
    divide s (s.regs .rdx ++ s.regs .rax).toNat v.toNat 0 0xFFFFFFFFFFFFFFFF
  | .idiv =>
    divide s (s.regs .rdx ++ s.regs .rax).toInt v.toInt (-0x8000000000000000) 0x7FFFFFFFFFFFFFFF

def effect (i : Instruction) (s : Machine) : Option Machine :=
  match i with
  | .label _ | .align _ => some s
  | .mov width dst src => (P.value s width src).bind (P.assign s width dst)
  | .movAddress dst symbol addend => some (s.set dst (P.symbolAt symbol + addend.toBitVec))
  | .movZeroByte dst src =>
    (P.value s .byte src.operand).map fun v => s.set dst ((v.setWidth 8).setWidth 64)
  | .movSignDword dst src =>
    (P.value s .dword src.operand).map fun v => s.set dst ((v.setWidth 32).signExtend 64)
  | .lea dst src => some (s.set dst (P.address s src))
  | .alu op width dst src =>
    (P.value s width dst).bind fun a => (P.value s width src).bind fun b =>
      let (result, flags) := op.compute width a b
      if op = .cmp then some { s with flags } else P.assign { s with flags } width dst result
  | .test dst src =>
    (P.value s .qword dst.operand).map fun a =>
      { s with flags := .ofResult (a &&& s.regs src) (some false) (some false) }
  | .imul dst src =>
    (P.value s .qword src.operand).map fun b =>
      let lost := some (BitVec.smulOverflow (s.regs dst) b)
      { s.set dst (s.regs dst * b) with flags := ⟨lost, none, none, lost⟩ }
  | .unary op dst => (P.value s .qword dst.operand).bind (P.unary s op dst.operand)
  | .shift op dst count =>
    (P.value s .qword dst.operand).bind fun a =>
      let result := op.result a (s.shiftCount count)
      let flags := if s.shiftCount count = 0 then s.flags else .ofResult result none none
      P.assign { s with flags } .qword dst.operand result
  | .cqo => some (s.set .rdx (if (s.regs .rax).msb then BitVec.allOnes 64 else 0))
  | .setcc cond dst =>
    (cond.holds s.flags).map fun b => s.setPart .byte dst (ofNat 64 b.toNat)
  | .push r => P.push s (s.regs r)
  | .pop r =>
    (P.read s (s.regs .rsp) .qword).map fun v =>
      (s.set .rsp (s.regs .rsp + 8)).set r v
  | .repMovsb =>
    let count := (s.regs .rcx).toNat
    let source := s.regs .rsi
    let target := s.regs .rdi
    if P.allows source count && P.allows target count then
      some { ((s.set .rsi (source + s.regs .rcx)).set .rdi
        (target + s.regs .rcx)).set .rcx 0 with memory := s.memory.copy target source count }
    else none
  | .repStosb =>
    let count := (s.regs .rcx).toNat
    let target := s.regs .rdi
    if P.allows target count then
      some { (s.set .rdi (target + s.regs .rcx)).set .rcx 0 with
        memory := s.memory.write target
          (List.replicate count (UInt8.ofNat (s.regs .rax).toNat)) }
    else none
  | _ => none

def labelPosition (l : Label) : Option Nat := P.code.findIdx? (· == .label l)

def positionOf (a : Word) : Option Nat := (List.range (P.code.length + 1)).find?
    (P.codeAddress · == a)

def jump (l : Label) (s : Machine) : Option Config := (P.labelPosition l).map (⟨·, s⟩)

def step (c : Config) : Option Config := P.code[c.position]?.bind fun i =>
    match i with
    | .jmp l | .jmpShort l => P.jump l c.machine
    | .jcc cond l | .jccShort cond l =>
      (cond.holds c.machine.flags).bind fun taken =>
        if taken then P.jump l c.machine else some ⟨c.position + 1, c.machine⟩
    | .call l =>
      match P.outside l with
      | some routine => (routine c.machine).map (⟨c.position + 1, ·⟩)
      | none => (P.push c.machine (P.codeAddress (c.position + 1))).bind (P.jump l)
    | .ret =>
      (P.read c.machine (c.machine.regs .rsp) .qword).bind fun a =>
        (P.positionOf a).map (⟨·, c.machine.set .rsp (c.machine.regs .rsp + 8)⟩)
    | .syscall => (P.system c.machine).map (⟨c.position + 1, ·⟩)
    | i => (P.effect i c.machine).map (⟨c.position + 1, ·⟩)

def execute : Code → Machine → Option Machine
  | [], s => some s
  | i :: rest, s => (P.effect i s).bind (execute rest)

/-- Whether the instruction at a position leaves the routine: a return, or a call that is followed
into the code. -/
def leaves (position : Nat) : Bool :=
  match P.code[position]? with
  | some .ret => true
  | some (.call l) => (P.outside l).isNone
  | _ => false

def Goes (c d : Config) : Prop := P.leaves c.position = false ∧ P.step c = some d

abbrev Flows : Config → Config → Prop := Relation.ReflTransGen P.Goes

inductive Returns : Config → Config → Prop
  | ret {c d : Config} (at_ret : P.code[c.position]? = some .ret) (runs : P.step c = some d) :
      Returns c d
  | step {c d e : Config} (goes : P.Goes c d) (rest : Returns d e) : Returns c e
  | call {c d e f : Config} {l : Label} (at_call : P.code[c.position]? = some (.call l))
      (inside : P.outside l = none) (enters : P.step c = some d) (callee : Returns d e)
      (rest : Returns e f) : Returns c f

def Stops (l : Label) : Prop := ∀ c d, P.code[c.position]? = some (.call l) → ¬ Returns P c d

/-- A routine has just been called: control is at its label, and the word on top of the stack is
the address that it returns to. -/
structure Entered (l : Label) (back : Nat) (c : Config) : Prop where
  position : P.labelPosition l = some c.position
  stack : ∀ x ∈ cells (c.machine.regs .rsp) Width.qword.bytes, P.mapped x
  back : P.positionOf (c.machine.memory.load (c.machine.regs .rsp) .qword) = some back

def Holds (position : Nat) (code : Code) : Prop := code <+: P.code.drop position

def HasDistinctLabels : Prop := ∀ l, P.code.count (.label l) ≤ 1

variable {P} {s t : Machine} {c d e : Config} {k j : Nat} {l : Label} {code : Code} {width : Width}

section

variable (s : Machine)

@[simp] lemma address_near (r : Register) (disp : Int32) :
    P.address s (.near r disp) = s.regs r + BitVec.ofInt 64 disp.toInt := by
  simp [address, Address.near]

@[simp] lemma address_deref (r : Register) : P.address s (.deref r) = s.regs r := by
  simp [Address.deref]

@[simp] lemma address_indexed (r i : Register) (disp : Int32) : P.address s (.indexed r i disp) =
      s.regs r + s.regs i + BitVec.ofInt 64 disp.toInt := by
  simp [address, Address.indexed, Scale.factor]

@[simp] lemma address_symbol (id : SymbolId) (addend : Int32) :
    P.address s (.symbol id addend) = P.symbolAt id + BitVec.ofInt 64 addend.toInt := by
  simp [address, Address.symbol]

@[simp] lemma value_reg (width : Width) (r : Register) : P.value s width (.reg r) = some
    (s.regs r) := rfl

@[simp] lemma value_imm (width : Width) (v : Int64) : P.value s width (.imm v) = some v.toBitVec :=
  rfl

@[simp] lemma value_mem (width : Width) (m : Address) :
    P.value s width (.mem m) = P.read s (P.address s m) width := rfl

@[simp] lemma assign_reg (r : Register) (v : Word) : P.assign s .qword (.reg r) v = some
    (s.set r v) := rfl

@[simp] lemma assign_mem (width : Width) (m : Address) (v : Word) :
    P.assign s width (.mem m) v = P.write s (P.address s m) width v := rfl

@[simp] lemma execute_nil : P.execute [] s = some s := rfl

end

@[simp] lemma execute_cons (i : Instruction) (rest : Code) (s : Machine) :
    P.execute (i :: rest) s = (P.effect i s).bind (P.execute rest) := rfl

@[simp] lemma effect_label (l : Label) (s : Machine) : P.effect (.label l) s = some s := rfl

@[simp] lemma effect_align (boundary : Nat) (s : Machine) : P.effect (.align boundary) s = some s :=
  rfl

@[simp] lemma effect_move (dst src : Operand) (s : Machine) :
    P.effect (.move dst src) s = (P.value s .qword src).bind (P.assign s .qword dst) := rfl

@[simp] lemma effect_lea (dst : Register) (src : Address) (s : Machine) :
    P.effect (.lea dst src) s = some (s.set dst (P.address s src)) := rfl

@[simp] lemma effect_compare (dst src : Operand) (s : Machine) :
    P.effect (.arith .cmp dst src) s = (P.value s .qword dst).bind fun a =>
      (P.value s .qword src).map fun b => { s with flags := AluOp.cmp.flags a b } := by
  simp [effect, arith, AluOp.compute, map_eq_bind]

lemma effect_arith {op : AluOp} (stores : op ≠ .cmp) (r : Register) (src : Operand) (s : Machine) :
    P.effect (.arith op (.reg r) src) s = (P.value s .qword src).map fun b =>
      ({ s with flags := op.flags (s.regs r) b } : Machine).set r (op.result (s.regs r) b) := by
  simp [effect, arith, AluOp.compute, stores, map_eq_bind]

@[simp] lemma effect_add (r : Register) (src : Operand) (s : Machine) :
    P.effect (.arith .add (.reg r) src) s = (P.value s .qword src).map fun b =>
      ({ s with flags := AluOp.add.flags (s.regs r) b } : Machine).set r
        (s.regs r + b) := effect_arith (by decide) r src s

@[simp] lemma effect_sub (r : Register) (src : Operand) (s : Machine) :
    P.effect (.arith .sub (.reg r) src) s = (P.value s .qword src).map fun b =>
      ({ s with flags := AluOp.sub.flags (s.regs r) b } : Machine).set r
        (s.regs r - b) := effect_arith (by decide) r src s

@[simp] lemma effect_zero (r : Register) (s : Machine) : P.effect (.zero r) s =
      some (({ s with flags := AluOp.xor.flags (s.regs r) (s.regs r) } : Machine).set r 0) := by
  simp [Instruction.zero, effect_arith, AluOp.result]

@[simp] lemma effect_check (r : Register) (s : Machine) : P.effect (.check r) s = some { s with
      flags := .ofResult (s.regs r) (some false) (some false) } := by
  simp [effect, check, Place.operand]

@[simp] lemma effect_shift_imm (op : ShiftOp) (r : Register) (count : UInt8) (s : Machine) :
    P.effect (.shift op (.reg r) (.imm count)) s = some (({ s with
      flags := if count.toNat % 64 = 0 then s.flags
        else .ofResult (op.result (s.regs r) (count.toNat % 64)) none none } : Machine).set r
      (op.result (s.regs r) (count.toNat % 64))) := rfl

lemma allows_of_mapped {count : Nat} (mapped : ∀ x ∈ cells a count, P.mapped x) :
    P.allows a count = true :=
  List.all_eq_true.2 fun _ inside => mapped _ (add_mem_cells a (mem_range.1 inside))

lemma read_of_mapped (mapped : ∀ x ∈ cells a width.bytes, P.mapped x) (s : Machine) :
    P.read s a width = some (s.memory.load a width) := by
  rw [read, if_pos (allows_of_mapped mapped)]

lemma write_of_mapped (mapped : ∀ x ∈ cells a width.bytes, P.mapped x) (s : Machine)
    (v : Word) : P.write s a width v = some { s with memory := s.memory.store a width v } := by
  rw [write, if_pos (allows_of_mapped mapped)]

section

variable {base : Word} {offset size : Nat}

section

variable (mapped : ∀ x ∈ cells base size, P.mapped x) (inside : offset + 8 ≤ size)
  (fits : size ≤ UInt64.size)
include mapped inside fits

lemma mapped_word : ∀ x ∈ cells (base + ofNat 64 offset) Width.qword.bytes, P.mapped x :=
  fun x near => mapped x (cells_subset inside fits near)

lemma read_word (s : Machine) : P.read s (base + ofNat 64 offset) .qword = some
    (s.memory.word base offset) :=
  read_of_mapped (mapped_word mapped inside fits) s

lemma write_word (s : Machine) (v : Word) : P.write s (base + ofNat 64 offset) .qword v =
      some { s with memory := s.memory.put base offset v } :=
  write_of_mapped (mapped_word mapped inside fits) s v

end

end

lemma execute_append (first second : Code) (s : Machine) :
    P.execute (first ++ second) s = (P.execute first s).bind (P.execute second) := by
  induction first generalizing s with
  | nil => rfl
  | cons i rest ih => simp only [cons_append, execute, bind_assoc, ih]

@[simp] lemma holds_nil (k : Nat) : P.Holds k [] := nil_prefix

lemma holds_cons : P.Holds k (i :: code) ↔ P.code[k]? = some i ∧ P.Holds (k + 1) code := by
  rw [Holds, Holds, ← drop_drop, drop_one, ← head?_drop]
  cases P.code.drop k with
  | nil => simp
  | cons first rest => simp [cons_prefix_cons, eq_comm]

lemma holds_append {first second : Code} :
    P.Holds k (first ++ second) ↔ P.Holds k first ∧ P.Holds (k + first.length) second := by
  induction first generalizing k with
  | nil => simp
  | cons i rest ih =>
    rw [cons_append, holds_cons, holds_cons, ih, length_cons, and_assoc, add_right_comm,
      ← add_assoc]

lemma Holds.get {i : Nat} {instruction : Instruction} (placed : P.Holds k code)
    (at_i : code[i]? = some instruction) : P.code[k + i]? = some instruction := by
  obtain ⟨rest, whole⟩ := placed
  rw [← getElem?_drop, ← whole, getElem?_append_left, at_i]
  exact (List.getElem?_eq_some_iff.1 at_i).1

lemma Holds.slice (placed : P.Holds k code) (i count : Nat) : P.Holds (k + i)
    ((code.drop i).take count) := by
  obtain ⟨rest, whole⟩ := placed
  rw [Holds, ← drop_drop, ← whole, drop_append]
  exact (List.take_prefix _ _).trans (prefix_append _ _)

lemma labelPosition_of_at (distinct : P.HasDistinctLabels)
    (bound : P.code[k]? = some (.label l)) : P.labelPosition l = some k := by
  obtain ⟨inside, is⟩ := List.getElem?_eq_some_iff.1 bound
  refine findIdx?_eq_some_iff_getElem.2 ⟨inside, by simp [is], fun j before twice => ?_⟩
  have other : P.code[j] = .label l := by simpa using twice
  have dup : P.code.Duplicate (.label l) := by
    refine duplicate_iff_exists_distinct_get.2
      ⟨⟨j, before.trans inside⟩, ⟨k, inside⟩, before, ?_, ?_⟩ <;> simp [other, is]
  have := duplicate_iff_two_le_count.1 dup
  have := distinct l
  omega

lemma Holds.labelPosition (distinct : P.HasDistinctLabels) (placed : P.Holds k (.label l :: code)) :
    P.labelPosition l = some k :=
  labelPosition_of_at distinct (holds_cons.1 placed).1

section

variable (at_k : P.code[k]? = some i)
include at_k

lemma step_of_effect (runs : P.effect i s = some t) : P.step ⟨k, s⟩ = some ⟨k + 1, t⟩ := by
  simp only [step, at_k, bind_some]
  cases i <;> first | (simp [effect] at runs; done) | simp [runs]

lemma Goes.effect (runs : P.effect i s = some t) : P.Goes ⟨k, s⟩ ⟨k + 1, t⟩ := by
  refine ⟨?_, step_of_effect at_k runs⟩
  simp only [leaves, at_k]
  cases i <;> first | rfl | simp [Process.effect] at runs

lemma Goes.jump (jumps : i = .jmp l ∨ i = .jmpShort l) (target : P.labelPosition l = some j) :
    P.Goes ⟨k, s⟩ ⟨j, s⟩ := by
  rcases jumps with rfl | rfl <;> exact ⟨by simp [leaves, at_k], by simp [step, at_k,
    Process.jump, target]⟩

lemma Goes.branch (branches : i = .jcc cond l ∨ i = .jccShort cond l)
    (taken : cond.holds s.flags = some true) (target : P.labelPosition l = some j) :
    P.Goes ⟨k, s⟩ ⟨j, s⟩ := by
  rcases branches with rfl | rfl <;> exact ⟨by simp [leaves, at_k], by simp [step, at_k,
    Process.jump, target, taken]⟩

lemma Goes.pass (branches : i = .jcc cond l ∨ i = .jccShort cond l)
    (passed : cond.holds s.flags = some false) : P.Goes ⟨k, s⟩ ⟨k + 1, s⟩ := by
  rcases branches with rfl | rfl <;> exact ⟨by simp [leaves, at_k], by simp [step, at_k, passed]⟩

end

section

variable {R : Config → Config → Prop} {Q : Machine → Prop} {i j : Nat}
  (effect : ∀ {k i s t}, P.code[k]? = some i → P.effect i s = some t → R ⟨k, s⟩ ⟨k + 1, t⟩)

include effect in
lemma reaches_execute (placed : P.Holds k code) (runs : P.execute code s = some t) :
    Relation.ReflTransGen R ⟨k, s⟩ ⟨k + code.length, t⟩ := by
  induction code generalizing k s with
  | nil =>
    obtain rfl : s = t := by simpa [execute] using runs
    exact .refl
  | cons i rest ih =>
    obtain ⟨at_k, placed⟩ := holds_cons.1 placed
    obtain ⟨u, first, runs⟩ := bind_eq_some_iff.1 runs
    have later := ih placed runs
    rw [add_right_comm] at later
    exact .head (effect at_k first) later

include effect in
lemma Holds.reaches (placed : P.Holds k code) (part : Code)
    (same : (code.drop i).take part.length = part) (ends : i + part.length = j)
    (runs : ∃ t, P.execute part s = some t ∧ Q t) : ∃ t, Relation.ReflTransGen R ⟨k + i, s⟩
    ⟨k + j, t⟩ ∧ Q t := by
  obtain ⟨t, runs, result⟩ := runs
  have reaches := reaches_execute effect (same ▸ placed.slice i part.length) runs
  rw [add_assoc, ends] at reaches
  exact ⟨t, reaches, result⟩

lemma flows_execute (placed : P.Holds k code) (runs : P.execute code s = some t) :
    P.Flows ⟨k, s⟩ ⟨k + code.length, t⟩ :=
  reaches_execute .effect placed runs

lemma Holds.flows (placed : P.Holds k code) (part : Code)
    (same : (code.drop i).take part.length = part) (ends : i + part.length = j)
    (runs : ∃ t, P.execute part s = some t ∧ Q t) :
    ∃ t, P.Flows ⟨k + i, s⟩ ⟨k + j, t⟩ ∧ Q t :=
  placed.reaches .effect part same ends runs

end

lemma Returns.of_flows (flows : P.Flows c d) (returns : P.Returns d e) : P.Returns c e := by
  induction flows using Relation.ReflTransGen.head_induction_on with
  | refl => exact returns
  | head goes _ ih => exact .step goes ih

lemma called_eq {l' : Label} (at_k : P.code[k]? = some (.call l))
    (at_k' : P.code[k]? = some (.call l')) : l = l' :=
  Instruction.call.inj (some.inj (at_k.symm.trans at_k'))

lemma Entered.position_eq {back : Nat} (entered : P.Entered l back c)
    (distinct : P.HasDistinctLabels) (at_k : P.code[k]? = some (.label l)) : c.position = k :=
  some.inj (entered.position.symm.trans (labelPosition_of_at distinct at_k))

lemma stops_of_outside (never : P.outside l = some fun _ => none) : P.Stops l := by
  intro c d at_call returns
  have stuck : P.step c = none := by simp [step, at_call, never]
  cases returns with
  | ret _ runs => simp [stuck] at runs
  | step goes _ => simp [Goes, stuck] at goes
  | call _ _ enters => simp [stuck] at enters

lemma Returns.after_flows (flows : P.Flows c d) (returns : P.Returns c e) : P.Returns d e := by
  induction flows with
  | refl => exact returns
  | tail _ goes ih =>
    cases ih with
    | ret at_ret => simp [Goes, leaves, at_ret] at goes
    | step again rest => exact some.inj (again.2.symm.trans goes.2) ▸ rest
    | call at_call inside => simp [Goes, leaves, at_call, inside] at goes

lemma Returns.unique (first : P.Returns c d) (second : P.Returns c e) : d = e := by
  induction first generalizing e with
  | ret at_ret runs =>
    cases second with
    | ret _ again => exact some.inj (runs.symm.trans again)
    | step goes _ => simp [Goes, leaves, at_ret] at goes
    | call at_call => rw [at_ret] at at_call; cases at_call
  | step goes _ ih =>
    cases second with
    | ret at_ret => simp [Goes, leaves, at_ret] at goes
    | step again rest =>
      obtain rfl := some.inj (goes.2.symm.trans again.2)
      exact ih rest
    | call at_call inside => simp [Goes, leaves, at_call, inside] at goes
  | call at_call inside enters _ _ callee rest =>
    cases second with
    | ret at_ret => rw [at_ret] at at_call; cases at_call
    | step goes _ => simp [Goes, leaves, at_call, inside] at goes
    | call _ _ again callee' rest' =>
      obtain rfl := some.inj (enters.symm.trans again)
      obtain rfl := callee callee'
      exact rest rest'

end Process

end AgentCompiler
