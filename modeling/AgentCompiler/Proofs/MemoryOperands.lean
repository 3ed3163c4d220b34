import AgentCompiler.Proofs.Processor

/-!
The memory operands of an instruction and the registers that it may change, read off its text.

Both are upper bounds of what the processor does: an instruction that control passes through keeps
every register that it is not said to change, and every byte outside the operands that it stores to.
The stack is not among the operands; a push writes below the stack pointer.
-/

namespace AgentCompiler

open Option List

/-- A memory operand, and whether it is written or read. -/
structure Access where
  address : Address
  width : Width
  isStore : Bool
  deriving DecidableEq

namespace Operand

def access (width : Width) (isStore : Bool) : Operand → List Access
  | mem m => [⟨m, width, isStore⟩]
  | _ => []

def target : Operand → List Register
  | reg r => [r]
  | _ => []

section

variable (width : Width) (isStore : Bool)
include width isStore

@[simp] lemma access_reg (r : Register) : (reg r).access width isStore = [] := rfl

@[simp] lemma access_imm (value : Int64) : (imm value).access width isStore = [] := rfl

@[simp] lemma access_mem (m : Address) : (mem m).access width isStore = [⟨m, width, isStore⟩] := rfl

end

@[simp] lemma target_reg (r : Register) : (reg r).target = [r] := rfl

@[simp] lemma target_mem (m : Address) : (mem m).target = [] := rfl

end Operand

namespace Instruction

open Register (rax rcx rdx rsp rsi rdi r11)

/-- The memory operands of loads and stores. An address that is only formed is none of them. -/
def accesses : Instruction → List Access
  | mov width dst src => src.access width false ++ dst.access width true
  | movZeroByte _ src => src.operand.access .byte false
  | movSignDword _ src => src.operand.access .dword false
  | alu op width dst src =>
    src.access width false ++ dst.access width false ++ if op = .cmp then [] else dst.access
      width true
  | test dst _ => dst.operand.access .qword false
  | imul _ src => src.operand.access .qword false
  | unary _ dst | shift _ dst _ =>
    dst.operand.access .qword false ++ dst.operand.access .qword true
  | repMovsb => [⟨.deref rsi, .byte, false⟩, ⟨.deref rdi, .byte, true⟩]
  | repStosb => [⟨.deref rdi, .byte, true⟩]
  | _ => []

/-- The registers that may be different afterwards. A call comes back with all but the registers
that a routine keeps for its caller. -/
def changed : Instruction → List Register
  | mov _ dst _ => dst.target
  | movAddress dst _ _ | movZeroByte dst _ | movSignDword dst _ | lea dst _ | imul dst _
  | setcc _ dst => [dst]
  | alu op _ dst _ => if op = .cmp then [] else dst.target
  | unary op dst => if op = .div ∨ op = .idiv then [rax, rdx] else dst.operand.target
  | shift _ dst _ => dst.operand.target
  | cqo => [rdx]
  | push _ => [rsp]
  | pop r => [r, rsp]
  | call _ => Register.all.filter Register.isCallerSaved
  | ret => [rsp]
  | syscall => [rax, rcx, r11]
  | repMovsb => [rsi, rdi, rcx]
  | repStosb => [rdi, rcx]
  | _ => []

end Instruction

namespace Process

variable {P : Process} {s t : Machine} {i : Instruction} {width : Width} {dst : Operand} {v : Word}

lemma changesOnly_set (s : Machine) (r : Register) (v : Word) : s.ChangesOnly [r] (s.set r v) := by
  intro other outside
  simp only [mem_singleton] at outside
  simp [outside]

lemma changesOnly_setPart (s : Machine) (width : Width) (r : Register) (v : Word) :
    s.ChangesOnly [r] (s.setPart width r v) := by
  cases width <;> exact changesOnly_set s r _

lemma assign_keeps (flags : Flags) (runs : P.assign { s with flags } width dst v = some t) :
    s.ChangesOnly dst.target t ∧ ∀ x, (∀ a ∈ dst.access width true,
      x ∉ cells (P.address s a.address) a.width.bytes) → t.memory x = s.memory x := by
  cases dst with
  | reg r =>
    obtain rfl := some.inj runs
    refine ⟨changesOnly_setPart { s with flags } width r v, fun x _ => ?_⟩
    cases width <;> rfl
  | imm value => simp [assign] at runs
  | mem m =>
    simp only [assign, write] at runs
    split at runs
    · obtain rfl := some.inj runs
      exact ⟨fun _ _ => rfl, fun x outside => Memory.store_eqOn _ _ _ _
        (outside ⟨m, width, true⟩ (by simp))⟩
    · simp at runs

lemma divide_eq_some {dividend divisor low high : Int}
    (runs : divide s dividend divisor low high = some t) :
    s.ChangesOnly [.rax, .rdx] t ∧ t.memory = s.memory := by
  simp only [divide] at runs
  split at runs
  · simp at runs
  · obtain rfl := some.inj runs
    refine ⟨fun r outside => ?_, rfl⟩
    simp only [mem_cons, not_mem_nil, or_false, not_or] at outside
    simp [outside]

lemma unary_keeps {op : UnaryOp} (runs : P.unary s op dst v = some t) :
    s.ChangesOnly (if op = .div ∨ op = .idiv then [.rax, .rdx] else dst.target) t ∧
      ∀ x, (∀ a ∈ dst.access .qword true, x ∉ cells (P.address s a.address) a.width.bytes) →
        t.memory x = s.memory x := by
  cases op with
  | div | idiv =>
    obtain ⟨changes, memory⟩ := divide_eq_some runs
    exact ⟨changes, fun x _ => by rw [memory]⟩
  | not => exact assign_keeps s.flags runs
  | neg | inc | dec => exact assign_keeps _ runs

structure Spares (P : Process) (s : Machine) (i : Instruction) (x : Word) : Prop where
  single : i ≠ .repMovsb ∧ i ≠ .repStosb
  stack : ∀ r, i = .push r → x ∉ cells (s.regs .rsp - 8) Width.qword.bytes
  outside : ∀ a ∈ i.accesses, a.isStore = true → x ∉ cells (P.address s a.address) a.width.bytes

lemma Spares.stored {x : Word} (h : P.Spares s i x)
    (included : dst.access width true ⊆ i.accesses) :
    ∀ a ∈ dst.access width true, x ∉ cells (P.address s a.address) a.width.bytes := by
  intro a mem
  have isStore : a.isStore = true := by
    cases dst <;> simp_all
  exact h.outside a (included mem) isStore

lemma effect_keeps (runs : P.effect i s = some t) :
    s.ChangesOnly i.changed t ∧ ∀ x, P.Spares s i x → t.memory x = s.memory x := by
  have several : ∀ {regs : List Register} {u : Machine}, (∀ r ∉ regs, u.regs r = s.regs r) →
      u.memory = s.memory → s.ChangesOnly regs u ∧ ∀ x, P.Spares s i x → u.memory x = s.memory x :=
    fun same memory => ⟨same, fun x _ => by rw [memory]⟩
  cases i with
  | label | align =>
    obtain rfl := some.inj runs
    exact several (fun _ _ => rfl) rfl
  | mov width dst src =>
    obtain ⟨v, -, runs⟩ := bind_eq_some_iff.1 runs
    obtain ⟨changes, keeps⟩ := assign_keeps s.flags runs
    exact ⟨changes, fun x spares => keeps x (spares.stored (subset_append_right _ _))⟩
  | movAddress dst symbol addend | lea dst src =>
    obtain rfl := some.inj runs
    exact several (changesOnly_set s dst _) rfl
  | movZeroByte dst src | movSignDword dst src | imul dst src =>
    obtain ⟨v, -, rfl⟩ := map_eq_some_iff.1 runs
    exact several (changesOnly_set s dst _) rfl
  | alu op width dst src =>
    obtain ⟨a, -, runs⟩ := bind_eq_some_iff.1 runs
    obtain ⟨b, -, runs⟩ := bind_eq_some_iff.1 runs
    simp only at runs
    split at runs
    next isCompare =>
      obtain rfl := some.inj runs
      exact several (fun _ _ => rfl) rfl
    next stores =>
      simp only [Instruction.changed, if_neg stores]
      obtain ⟨changes, keeps⟩ := assign_keeps _ runs
      refine ⟨changes, fun x spares => keeps x (spares.stored ?_)⟩
      simp only [Instruction.accesses, if_neg stores]
      exact subset_append_right _ _
  | test dst src =>
    obtain ⟨v, -, rfl⟩ := map_eq_some_iff.1 runs
    exact several (fun _ _ => rfl) rfl
  | unary op dst =>
    obtain ⟨v, -, runs⟩ := bind_eq_some_iff.1 runs
    obtain ⟨changes, keeps⟩ := unary_keeps runs
    exact ⟨changes, fun x spares => keeps x (spares.stored (subset_append_right _ _))⟩
  | shift op dst count =>
    obtain ⟨v, -, runs⟩ := bind_eq_some_iff.1 runs
    obtain ⟨changes, keeps⟩ := assign_keeps _ runs
    exact ⟨changes, fun x spares => keeps x (spares.stored (subset_append_right _ _))⟩
  | cqo =>
    obtain rfl := some.inj runs
    exact several (changesOnly_set s .rdx _) rfl
  | setcc cond dst =>
    obtain ⟨b, -, rfl⟩ := map_eq_some_iff.1 runs
    exact several (changesOnly_setPart s .byte dst _) rfl
  | push r =>
    obtain ⟨u, written, rfl⟩ := map_eq_some_iff.1 runs
    simp only [write] at written
    split at written
    · obtain rfl := some.inj written
      exact ⟨changesOnly_set s .rsp _, fun x spares => Memory.store_eqOn _ _ _ _
        (spares.stack r rfl)⟩
    · simp at written
  | pop r =>
    obtain ⟨v, -, rfl⟩ := map_eq_some_iff.1 runs
    refine several (fun other outside => ?_) rfl
    simp only [Instruction.changed, mem_cons, not_mem_nil, or_false, not_or] at outside
    simp [outside]
  | repMovsb | repStosb =>
    simp only [effect] at runs
    split at runs
    · obtain rfl := some.inj runs
      refine ⟨fun other outside => ?_, fun x spares => ?_⟩
      · simp only [Instruction.changed, mem_cons, not_mem_nil, or_false, not_or] at outside
        simp [outside]
      · have single := spares.single
        simp at single
    · simp at runs
  | call | jmp | jmpShort | jcc | jccShort | ret | syscall | ud2 => simp [effect] at runs

end Process

end AgentCompiler
