import AgentCompiler.Proofs.Decoder

/-!
Instructions as the processor sees them. Labels and symbols are gone: in their place stand the
values of the fields that name them, which the assembler and the layout of the image fill in.
-/

namespace AgentCompiler

/-- Values for the fields of an encoding that name labels and symbols. -/
structure Filling where
  /-- From the end of the instruction to its label. -/
  distance : Int
  /-- From the end of the instruction to the symbol of its memory operand. -/
  disp : Int32
  address : Int64

/-- The fields of symbols are zero until the image is laid out. -/
def Filling.unlinked (distance : Int) : Filling := ⟨distance, 0, 0⟩

def Displacement.filled (fill : Filling) : Displacement → Bytes
  | .symbol _ _ => littleEndianInt 4 fill.disp.toInt
  | d => d.bytes

def Immediate.filled (fill : Filling) : Immediate → Bytes
  | .address _ _ => littleEndianInt 8 fill.address.toInt
  | i => i.bytes fill.distance

def Encoding.filled (e : Encoding) (fill : Filling) : Bytes := e.head ++ e.disp.filled fill ++
    e.imm.filled fill

lemma Encoding.filled_unlinked (e : Encoding) (distance : Int) :
    e.filled (.unlinked distance) = e.bytes distance := by
  have disp : e.disp.filled (.unlinked distance) = e.disp.bytes := by
    cases e.disp <;> rfl
  have imm : e.imm.filled (.unlinked distance) = e.imm.bytes distance := by
    cases e.imm <;> rfl
  rw [filled, bytes, disp, imm]

section

def Address.seen (fill : Filling) (m : Address) : MachineCode.Address :=
  match m.base with
  | .reg r => ⟨.register r, m.index, m.disp.toInt⟩
  | .symbol _ => ⟨.next, m.index, fill.disp.toInt⟩

def Place.seen (fill : Filling) : Place → MachineCode.Place
  | .reg r => .reg r
  | .mem m => .mem (m.seen fill)

def Width.wrap : Width → Int → Int
  | .byte, value => value.bmod 0x100
  | .dword, value => value.bmod 0x100000000
  | .qword, value => value

def Operand.seen (fill : Filling) (width : Width) : Operand → MachineCode.Operand
  | .reg r => .place (.reg r)
  | .imm value => .imm (width.wrap value.toInt)
  | .mem m => .place (.mem (m.seen fill))

/-- An instruction as the processor sees it; directives leave nothing to see. -/
def Instruction.seen (fill : Filling) : Instruction → Option MachineCode.Action
  | label _ | align _ => none
  | mov width dst src => some (.mov width (dst.seen fill width) (src.seen fill width))
  | movAddress dst _ _ => some (.mov .qword (.place (.reg dst)) (.imm fill.address.toInt))
  | movZeroByte dst src => some (.movZeroByte dst (src.seen fill))
  | movSignDword dst src => some (.movSignDword dst (src.seen fill))
  | lea dst src => some (.lea dst (src.seen fill))
  | alu op width dst src => some (.alu op width (dst.seen fill width) (src.seen fill width))
  | test dst src => some (.test (dst.seen fill) src)
  | imul dst src => some (.imul dst (src.seen fill))
  | unary op dst => some (.unary op (dst.seen fill))
  | shift op dst count => some (.shift op (dst.seen fill) count)
  | cqo => some .cqo
  | setcc cond dst => some (.setcc cond (.reg dst))
  | push r => some (.push r)
  | pop r => some (.pop r)
  | call _ => some (.call (fill.distance.bmod 0x100000000))
  | jmp _ => some (.jmp (fill.distance.bmod 0x100000000))
  | jmpShort _ => some (.jmpShort (fill.distance.bmod 0x100))
  | jcc cond _ => some (.jcc cond (fill.distance.bmod 0x100000000))
  | jccShort cond _ => some (.jccShort cond (fill.distance.bmod 0x100))
  | ret => some .ret
  | syscall => some .syscall
  | repMovsb => some .repMovsb
  | repStosb => some .repStosb
  | ud2 => some .ud2

end

end AgentCompiler
