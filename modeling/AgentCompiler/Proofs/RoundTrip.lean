import AgentCompiler.Proofs.OpcodeForms

/-!
Encoding and reading back. The bytes of an encoded instruction are read as that instruction, with
nothing left over and whatever bytes follow, once the fields for labels and symbols have values.
-/

namespace AgentCompiler
open MachineCode

namespace Instruction

variable {e : Encoding} {width : Width} {op : AluOp} {p : Place} {f : PlaceFields} {i : Instruction}
  {fill : Filling} {opcode : Nat}

lemma isPairOpcode_mov (h : opcode ∈ [0x88, 0x89, 0x8A, 0x8B]) : IsPairOpcode opcode .mov := by
  simp only [List.mem_cons, List.not_mem_nil, or_false] at h
  rcases h with rfl | rfl | rfl | rfl <;> exact ⟨rfl, fun _ _ => rfl⟩

lemma reads_encodeMove {dst src : Operand} (h : encodeMove width dst src = .ok e)
    (fill : Filling) : e.Reads fill (.mov width (dst.seen fill width) (src.seen fill width)) := by
  unfold encodeMove at h
  split at h
  next d s =>
    obtain ⟨f, hf, h⟩ := bind_ok.1 h
    have same : (Place.reg d).lowByteNeedsRex = true →
        (d.lowByteNeedsRex || s.lowByteNeedsRex) = true := by
      simp +contextual [Place.lowByteNeedsRex]
    exact reads_pair hf rfl (isPairOpcode_mov (by decide)) (isPairOpcode_mov (by decide)) same
      (by simp +contextual) h fill
  next d m =>
    obtain ⟨f, hf, h⟩ := bind_ok.1 h
    exact reads_pair (p := .mem m) hf rfl (isPairOpcode_mov (by decide))
      (isPairOpcode_mov (by decide)) (by simp [Place.lowByteNeedsRex]) id h fill
  next m s =>
    obtain ⟨f, hf, h⟩ := bind_ok.1 h
    exact reads_pair (p := .mem m) hf rfl (isPairOpcode_mov (by decide))
      (isPairOpcode_mov (by decide)) (by simp [Place.lowByteNeedsRex]) id h fill
  next d v =>
    split at h
    next =>
      split at h
      next fits =>
        obtain ⟨f, hf, rfl⟩ := bind_pure_ok.1 h
        exact reads_movConst hf (.inr rfl) rfl (by simp) (takeInt_toInt32 fits fill)
      next =>
        obtain rfl := pure_ok.1 h
        exact reads_movShort .qword (by simp) (takeInt_of_bmod_eq v.toInt_bmod)
    next =>
      obtain ⟨imm, himm, rfl⟩ := bind_pure_ok.1 h
      exact reads_movShort .dword (by simp) (takeInt_ofDword himm fill)
    next =>
      obtain ⟨imm, himm, rfl⟩ := bind_pure_ok.1 h
      exact reads_movShort .byte (fun _ => id) (takeInt_ofByte himm fill)
  next m v =>
    split at h
    next =>
      split at h
      next fits =>
        obtain ⟨f, hf, rfl⟩ := bind_pure_ok.1 h
        exact reads_movConst (p := .mem m) hf (.inr rfl) rfl (by simp) (takeInt_toInt32 fits fill)
      next => simp at h
    next =>
      obtain ⟨f, hf, h⟩ := bind_ok.1 h
      obtain ⟨imm, himm, rfl⟩ := bind_pure_ok.1 h
      exact reads_movConst (p := .mem m) hf (.inr rfl) rfl (by simp) (takeInt_ofDword himm fill)
    next =>
      obtain ⟨f, hf, h⟩ := bind_ok.1 h
      obtain ⟨imm, himm, rfl⟩ := bind_pure_ok.1 h
      exact reads_movConst (p := .mem m) hf (.inl rfl) rfl (by simp [Place.lowByteNeedsRex])
        (takeInt_ofByte himm fill)
  next => simp at h

lemma isPairOpcode_alu (op : AluOp) (form : Nat) (h : form < 4) : IsPairOpcode (op.opcode + form)
    (.alu op) := by
  have hform : form = 0 ∨ form = 1 ∨ form = 2 ∨ form = 3 := by omega
  rcases hform with rfl | rfl | rfl | rfl <;> cases op <;> exact ⟨rfl, fun _ _ => rfl⟩

lemma orderedPair_alu (op : AluOp) (fill : Filling) (p : Place) (s : Register) :
    orderedPair op.opcode width fill p s (.alu op) = .alu op width (.place (p.seen fill))
      (.place (.reg s)) ∧
    orderedPair (op.opcode + 2) width fill p s (.alu op) = .alu op width (.place (.reg s))
        (.place (p.seen fill)) := by
  cases op <;> exact ⟨rfl, rfl⟩

lemma reads_encodeAluStore {s : Register} (h : encodeAluStore op width p s = .ok e)
    (fill : Filling) :
    e.Reads fill (.alu op width (.place (p.seen fill)) (.place (.reg s))) := by
  obtain ⟨f, hf, h⟩ := bind_ok.1 h
  have even : op.opcode % 2 = 0 := by cases op <;> rfl
  rw [← (orderedPair_alu op fill p s).1]
  exact reads_pair hf even (isPairOpcode_alu op 0 (by decide)) (isPairOpcode_alu op 1 (by decide))
    (by simp +contextual) (by simp +contextual) h fill

lemma reads_encodeAluLoad {d : Register} {m : Address} (h : encodeAluLoad op width d m = .ok e)
    (fill : Filling) :
    e.Reads fill (.alu op width (.place (.reg d)) (.place (.mem (m.seen fill)))) := by
  obtain ⟨f, same, h⟩ := bind_ok.1 h
  have same : (Place.mem m).fields d.number = .ok f := same
  have even : (op.opcode + 2) % 2 = 0 := by cases op <;> rfl
  have read : orderedPair (op.opcode + 2) width fill (.mem m) d (.alu op) =
      .alu op width (.place (.reg d)) (.place (.mem (m.seen fill))) :=
    (orderedPair_alu op fill (.mem m) d).2
  rw [← read]
  exact reads_pair same even (isPairOpcode_alu op 2 (by decide)) (isPairOpcode_alu op 3 (by decide))
    (by simp [Place.lowByteNeedsRex]) id h fill

lemma reads_aluConst {forced wide : Bool} {imm : Immediate} {value : Int}
    (same : p.fields op.selector = .ok f) (hopcode : opcode = 0x80 ∨ opcode = 0x81 ∨ opcode = 0x83)
    (hwidth : widthOf { f.rex with w := wide } opcode = width)
    (hp : width = .byte → p.lowByteNeedsRex = true → forced = true)
    (read : ∀ rest, takeAluValue opcode width (imm.filled fill ++ rest) = some (value, rest)) :
    (Encoding.ofPlace [opcode] wide forced f imm).Reads fill
        (.alu op width (.place (p.seen fill)) (.imm value)) := by
  have plain : isPlainOpcode opcode = true := by rcases hopcode with rfl | rfl | rfl <;> rfl
  have after : ∀ rex? bytes, afterOpcode rex? opcode bytes = takeAluConst rex? opcode bytes := by
    rcases hopcode with rfl | rfl | rfl <;> exact fun _ _ => rfl
  have applied : AluOp.ofSelector? (op.selector % 8) = some op := by cases op <;> rfl
  apply reads_ofPlace plain
  intro rest
  have place := takePlace_fields wide same hp fill (imm.filled fill ++ rest)
  rw [after]
  simp [takeAluConst, hwidth, place, applied, read]

lemma reads_encodeAluConst {v : Int64} (h : encodeAluConst op width p v = .ok e) (fill : Filling) :
    e.Reads fill (.alu op width (.place (p.seen fill)) (.imm (width.wrap v.toInt))) := by
  unfold encodeAluConst at h
  split at h
  next =>
    obtain ⟨f, hf, h⟩ := bind_ok.1 h
    obtain ⟨imm, himm, rfl⟩ := bind_pure_ok.1 h
    exact reads_aluConst hf (.inl rfl) rfl (fun _ => id) (takeInt_ofByte himm fill)
  next hw =>
    have same : width = .byte → p.lowByteNeedsRex = true → false = true := fun same =>
      absurd same hw
    dsimp only at h
    split at h
    next fits =>
      obtain ⟨f, hf, rfl⟩ := bind_pure_ok.1 h
      rw [wrap_of_fitsInt8 fits]
      exact reads_aluConst hf (.inr (.inr rfl)) (widthOf_odd _ hw rfl) same
        (takeInt_toInt8 fits fill)
    next =>
      split at h
      next fits =>
        obtain ⟨f, hf, h⟩ := bind_ok.1 h
        obtain ⟨imm, himm, rfl⟩ := bind_pure_ok.1 h
        apply reads_aluConst hf (.inr (.inl rfl)) (widthOf_odd _ hw rfl) same
        intro rest
        have read := takeInt_ofDword himm fill rest
        cases width with
        | byte => exact absurd rfl hw
        | dword => exact read
        | qword =>
          have signed : fitsInt32 v.toInt = true := by simpa [Width.isQword] using fits
          rw [wrap_of_fitsInt32 signed] at read
          exact read
      next => simp at h

lemma reads_encodeAlu {dst src : Operand} (h : encodeAlu op width dst src = .ok e)
    (fill : Filling) :
    e.Reads fill (.alu op width (dst.seen fill width) (src.seen fill width)) := by
  unfold encodeAlu at h
  split at h
  next d s => exact reads_encodeAluStore h fill
  next m s => exact reads_encodeAluStore h fill
  next d m => exact reads_encodeAluLoad h fill
  next d v => exact reads_encodeAluConst h fill
  next m v => exact reads_encodeAluConst h fill
  next => simp at h

lemma reads_encodeShift {op : ShiftOp} {count : ShiftCount} (h : encodeShift op p count = .ok e)
    (fill : Filling) : e.Reads fill (.shift op (p.seen fill) count) := by
  unfold encodeShift at h
  split at h
  next =>
    obtain ⟨f, hf, rfl⟩ := bind_pure_ok.1 h
    apply reads_ofPlace rfl
    intro rest
    have counted : takeCount 0xD3 rest = some (.cl, rest) := by cases rest <;> rfl
    exact takeShift_fields hf counted fill
  next n =>
    split at h
    next => simp at h
    next =>
      obtain ⟨f, hf, rfl⟩ := bind_pure_ok.1 h
      apply reads_ofPlace rfl
      intro rest
      have counted : takeCount 0xC1 (n :: rest) = some (.imm n, rest) := rfl
      rw [filled_count]
      exact takeShift_fields hf counted fill

lemma reads_unary {op : UnaryOp} (h : (unary op p).encode = .ok e) (fill : Filling) :
    e.Reads fill (.unary op (p.seen fill)) := by
  obtain ⟨f, hf, rfl⟩ := bind_pure_ok.1 h
  have plain : isPlainOpcode op.opcode.1 = true := by cases op <;> rfl
  have after : ∀ rex? bytes, afterOpcode rex? op.opcode.1 bytes = takeSelected rex?
      (fun n p => (UnaryOp.ofOpcode? op.opcode.1 n).map (.unary · p)) bytes := by
    cases op <;> exact fun _ _ => rfl
  have lt : op.opcode.2 % 8 = op.opcode.2 := by cases op <;> rfl
  have applied : UnaryOp.ofOpcode? op.opcode.1 op.opcode.2 = some op := by cases op <;> rfl
  apply reads_ofPlace plain
  intro rest
  have place : takePlace (writtenRex { f.rex with w := true } false) .qword
      (placeBytes f fill rest) = some (op.opcode.2 % 8, p.seen fill, rest) :=
      takePlace_fields true hf (by simp) fill rest
  rw [after]
  simp [takeSelected, Immediate.filled, Immediate.bytes, place, lt, applied]

lemma reads_setcc {cond : Condition} {dst : Register} (same : (Place.reg dst).fields 0 = .ok f)
    (fill : Filling) :
    (Encoding.ofPlace [0x0F, 0x90 + cond.code] false dst.lowByteNeedsRex f .none).Reads fill
      (.setcc cond (.reg dst)) := by
  have lt : 0x90 + cond.code < 256 := by cases cond <;> decide
  have high : (0x90 + cond.code) / 16 = 9 := by cases cond <;> rfl
  have tested : Condition.ofCode? ((0x90 + cond.code) % 16) = some cond := by cases cond <;> rfl
  apply reads_ofPlace_escape lt
  intro rest
  have place : takePlace (writtenRex { f.rex with w := false } dst.lowByteNeedsRex) .byte
      (placeBytes f fill rest) = some (0, .reg dst, rest) :=
    takePlace_fields false same (fun _ => id) fill rest
  unfold afterSecond
  rw [if_neg (by omega), if_pos high]
  simp [tested, Immediate.filled, Immediate.bytes, place]

lemma takeBranch_distance (count : Nat) (make : Int → Action) (distance : Int) (rest : Bytes) :
    takeBranch count make (littleEndianInt count distance ++ rest) =
      some (make (distance.bmod (Nat.pow 256 count)), rest) := by
  simp [takeBranch]

lemma reads_jcc (cond : Condition) (l : Label) (fill : Filling) :
    (Encoding.plain [0x0F, 0x80 + cond.code] (.near l)).Reads fill
        (.jcc cond (fill.distance.bmod 0x100000000)) := by
  have lt : 0x80 + cond.code < 256 := by cases cond <;> decide
  have high : (0x80 + cond.code) / 16 = 8 := by cases cond <;> rfl
  have tested : Condition.ofCode? ((0x80 + cond.code) % 16) = some cond := by cases cond <;> rfl
  apply reads_plain_escape lt
  intro rest
  unfold afterSecond
  rw [if_pos high, tested]
  exact takeBranch_distance 4 (.jcc cond) fill.distance rest

lemma reads_jccShort (cond : Condition) (l : Label) (fill : Filling) :
    (Encoding.plain [0x70 + cond.code] (.short l)).Reads fill
        (.jccShort cond (fill.distance.bmod 0x100)) := by
  have plain : isPlainOpcode (0x70 + cond.code) = true := by cases cond <;> rfl
  apply reads_plain plain
  intro rest
  rw [← takeBranch_distance 1 (.jccShort cond) fill.distance rest]
  cases cond <;> rfl

lemma reads_encode (h : i.encode = .ok e) {action : Action}
    (hseen : i.seen fill = some action) : e.Reads fill action := by
  cases i
  case label | align => simp [seen] at hseen
  all_goals obtain rfl := Option.some.inj hseen
  case mov => exact reads_encodeMove h fill
  case alu => exact reads_encodeAlu h fill
  case shift => exact reads_encodeShift h fill
  case movZeroByte =>
    obtain ⟨f, hf, rfl⟩ := bind_pure_ok.1 h
    apply reads_ofPlace_escape (by decide)
    exact takeWide_fields .byte (fun r p => some (.movZeroByte r p)) hf (fun _ => id) rfl
  case movSignDword =>
    obtain ⟨f, hf, rfl⟩ := bind_pure_ok.1 h
    apply reads_ofPlace rfl
    exact takeWide_fields .dword (fun r p => some (.movSignDword r p)) hf (by simp) rfl
  case lea dst src =>
    obtain ⟨f, hf, rfl⟩ := bind_pure_ok.1 h
    apply reads_ofPlace rfl
    exact takeWide_fields (p := .mem src) .qword leaOf hf (by simp) rfl
  case test =>
    obtain ⟨f, hf, rfl⟩ := bind_pure_ok.1 h
    apply reads_ofPlace rfl
    exact takeWide_fields .qword (fun r p => some (.test p r)) hf (by simp) rfl
  case imul =>
    obtain ⟨f, hf, rfl⟩ := bind_pure_ok.1 h
    apply reads_ofPlace_escape (by decide)
    exact takeWide_fields .qword (fun r p => some (.imul r p)) hf (by simp) rfl
  case unary => exact reads_unary h fill
  case setcc =>
    obtain ⟨f, hf, rfl⟩ := bind_pure_ok.1 h
    exact reads_setcc hf fill
  all_goals obtain rfl := pure_ok.1 h
  case movAddress =>
    exact reads_movShort .qword (by simp) (takeInt_of_bmod_eq fill.address.toInt_bmod)
  case push r | pop r => cases r <;> exact fun rest => rfl
  case call => exact reads_plain rfl (takeBranch_distance 4 .call fill.distance)
  case jmp => exact reads_plain rfl (takeBranch_distance 4 .jmp fill.distance)
  case jmpShort => exact reads_plain rfl (takeBranch_distance 1 .jmpShort fill.distance)
  case jcc cond l => exact reads_jcc cond l fill
  case jccShort cond l => exact reads_jccShort cond l fill
  all_goals exact fun rest => rfl

def isDirective : Instruction → Bool
  | label _ | align _ => true
  | _ => false

lemma exists_seen (found : i.isDirective = false) (fill : Filling) : ∃ action, i.seen fill =
    some action := by
  cases i <;> first | exact ⟨_, rfl⟩ | cases found

/-- Whatever the distance and whatever follows, the bytes of an encoded instruction are read as
that instruction, and exactly as many as its size says. -/
theorem decode_encode {i : Instruction} (h : i.encode = .ok e) (same : i.isDirective = false)
    (distance : Int) (rest : Bytes) :
    ∃ action, i.seen (.unlinked distance) = some action ∧
      decode (e.bytes distance ++ rest) = some (action, rest) ∧
      (e.bytes distance).length = e.size := by
  obtain ⟨action, acts⟩ := exists_seen same (.unlinked distance)
  refine ⟨action, acts, ?_, e.length_bytes distance⟩
  rw [← e.filled_unlinked]
  exact reads_encode h acts rest

/-- A store whose base needs a displacement, whose index has the number that means none, and whose
source is a low byte named only under a REX byte. -/
theorem decode_encode_indexed_store :
    ∃ e, (alu .add .byte (.mem ⟨.reg .r13, some (.r12, .four), 0⟩) (.reg .rsi)).encode = .ok e ∧
      ∃ action, (alu .add .byte (.mem ⟨.reg .r13, some (.r12, .four), 0⟩) (.reg .rsi)).seen
          (.unlinked 7) = some action ∧
        decode (e.bytes 7 ++ [0xC3]) = some (action, [0xC3]) ∧ (e.bytes 7).length = e.size :=
  ⟨_, rfl, decode_encode rfl rfl 7 [0xC3]⟩

end Instruction

end AgentCompiler
