import AgentCompiler.Proofs.OperandFields

/-!
Whole encodings read back, by the form that their opcode announces: an encoding that names a place,
one with its register in the opcode, one without operands, and the constants that may follow.
-/

namespace AgentCompiler
open MachineCode Encoding

section

variable {imm : Immediate}

def Encoding.Reads (e : Encoding) (fill : Filling) (action : Action) : Prop :=
  ∀ rest, decode (e.filled fill ++ rest) = some (action, rest)

def isPlainOpcode (opcode : Nat) : Bool := opcode < 256 && opcode / 16 != 4 && opcode !=
    0xF3 && opcode != 0x0F

variable {opcode : Nat} {wide forced : Bool} {f : PlaceFields} {fill : Filling} {action : Action}

lemma decode_opcode (rex : Rex) (forced : Bool) (h : isPlainOpcode opcode = true) (rest : Bytes) :
    decode ((rexByte rex forced).toList ++ UInt8.ofNat opcode :: rest) =
      afterOpcode (writtenRex rex forced) opcode rest := by
  simp only [isPlainOpcode, Bool.and_eq_true, decide_eq_true_eq, bne_iff_ne] at h
  obtain ⟨⟨⟨lt, hrex⟩, rep⟩, esc⟩ := h
  have byte : (UInt8.ofNat opcode).toNat = opcode := by
    rw [UInt8.toNat_ofNat']
    exact Nat.mod_eq_of_lt lt
  have ne : ∀ n : UInt8, n.toNat ≠ opcode → UInt8.ofNat opcode ≠ n := by
    rintro n hn rfl
    exact hn byte
  have differs3 : UInt8.ofNat opcode ≠ 0xF3 := ne _ (Ne.symm rep)
  have h0F : UInt8.ofNat opcode ≠ 0x0F := ne _ (Ne.symm esc)
  rw [decode_rexByte (by rwa [byte]) differs3, afterRex, if_neg h0F, byte]

lemma decode_escape (rex : Rex) (forced : Bool) (h : opcode < 256) (rest : Bytes) :
    decode ((rexByte rex forced).toList ++ 0x0F :: UInt8.ofNat opcode :: rest) =
      afterSecond (writtenRex rex forced) opcode rest := by
  have byte : (UInt8.ofNat opcode).toNat = opcode := by
    rw [UInt8.toNat_ofNat']
    exact Nat.mod_eq_of_lt h
  rw [decode_rexByte (by decide) (by decide), afterRex, if_pos rfl, afterEscape, byte]

lemma reads_ofPlace (h : isPlainOpcode opcode = true)
    (read : ∀ rest, afterOpcode (writtenRex { f.rex with w := wide } forced) opcode
      (placeBytes f fill (imm.filled fill ++ rest)) = some (action, rest)) :
    (ofPlace [opcode] wide forced f imm).Reads fill action := by
  intro rest
  rw [← read rest, ← decode_opcode _ _ h]
  simp [filled, head, ofPlace, placeBytes]

lemma reads_ofPlace_escape (h : opcode < 256)
    (read : ∀ rest, afterSecond (writtenRex { f.rex with w := wide } forced) opcode
      (placeBytes f fill (imm.filled fill ++ rest)) = some (action, rest)) :
    (ofPlace [0x0F, opcode] wide forced f imm).Reads fill action := by
  intro rest
  rw [← read rest, ← decode_escape _ _ h]
  simp [filled, head, ofPlace, placeBytes]

lemma reads_ofRegister {r : Register} (h : isPlainOpcode (opcode + r.lowBits) = true)
    (read : ∀ rest, afterOpcode (writtenRex { w := wide, b := r.isExtended } forced)
      (opcode + r.lowBits) (imm.filled fill ++ rest) = some (action, rest)) :
    (ofRegister opcode wide forced r imm).Reads fill action := by
  intro rest
  rw [← read rest, ← decode_opcode _ _ h]
  simp [filled, head, ofRegister, Displacement.filled, Displacement.bytes]

lemma reads_plain (h : isPlainOpcode opcode = true)
    (read : ∀ rest, afterOpcode none opcode (imm.filled fill ++ rest) = some (action, rest)) :
    (plain [opcode] imm).Reads fill action := by
  intro rest
  have decoded : decode (UInt8.ofNat opcode :: (imm.filled fill ++ rest)) = some (action, rest) :=
    (decode_opcode {} false h _).trans (read rest)
  simpa [filled, head, plain, Displacement.filled, Displacement.bytes] using decoded

lemma reads_plain_escape (h : opcode < 256)
    (read : ∀ rest, afterSecond none opcode (imm.filled fill ++ rest) = some (action, rest)) :
    (plain [0x0F, opcode] imm).Reads fill action := by
  intro rest
  have decoded : decode (0x0F :: UInt8.ofNat opcode :: (imm.filled fill ++ rest)) = some
      (action, rest) :=
    (decode_escape {} false h _).trans (read rest)
  simpa [filled, head, plain, Displacement.filled, Displacement.bytes] using decoded

end

section

variable {v : Int64} {imm : Immediate}

lemma takeInt_ofByte (h : Immediate.ofByte v = .ok imm) (fill : Filling) (rest : Bytes) :
    takeInt 1 (imm.filled fill ++ rest) = some (Width.byte.wrap v.toInt, rest) := by
  rw [Immediate.ofByte] at h
  split at h
  · obtain rfl := pure_ok.1 h
    rw [Width.wrap, ← Int64.toInt_toInt8]
    exact takeInt_of_bmod_eq v.toInt8.toInt_bmod rest
  · simp at h

lemma takeInt_ofDword (h : Immediate.ofDword v = .ok imm) (fill : Filling) (rest : Bytes) :
    takeInt 4 (imm.filled fill ++ rest) = some (Width.dword.wrap v.toInt, rest) := by
  rw [Immediate.ofDword] at h
  split at h
  · obtain rfl := pure_ok.1 h
    rw [Width.wrap, ← Int64.toInt_toInt32]
    exact takeInt_of_bmod_eq v.toInt32.toInt_bmod rest
  · simp at h

lemma wrap_of_fitsInt32 (h : fitsInt32 v.toInt = true) : Width.dword.wrap v.toInt = v.toInt := by
  simp only [fitsInt32, Bool.and_eq_true, decide_eq_true_eq] at h
  exact Int.bmod_eq_of_le (by omega) (by omega)

lemma wrap_of_fitsInt8 (h : fitsInt8 v.toInt = true) (width : Width) : width.wrap v.toInt =
    v.toInt := by
  simp only [fitsInt8, Bool.and_eq_true, decide_eq_true_eq] at h
  cases width with
  | byte => exact Int.bmod_eq_of_le (by omega) (by omega)
  | dword => exact Int.bmod_eq_of_le (by omega) (by omega)
  | qword => rfl

lemma takeInt_toInt32 (h : fitsInt32 v.toInt = true) (fill : Filling) (rest : Bytes) :
    takeInt 4 ((Immediate.dword v.toInt32).filled fill ++ rest) = some (v.toInt, rest) := by
  have valued : v.toInt32.toInt = v.toInt := by
    rw [Int64.toInt_toInt32]
    exact wrap_of_fitsInt32 h
  rw [← valued]
  exact takeInt_of_bmod_eq v.toInt32.toInt_bmod rest

lemma takeInt_toInt8 (h : fitsInt8 v.toInt = true) (fill : Filling) (rest : Bytes) :
    takeInt 1 ((Immediate.byte v.toInt8).filled fill ++ rest) = some (v.toInt, rest) := by
  have valued : v.toInt8.toInt = v.toInt := by
    rw [Int64.toInt_toInt8]
    exact wrap_of_fitsInt8 h .byte
  rw [← valued]
  exact takeInt_of_bmod_eq v.toInt8.toInt_bmod rest

lemma filled_count (n : UInt8) (fill : Filling) (rest : Bytes) :
    (Immediate.byte n.toInt8).filled fill ++ rest = n :: rest := by
  have signed : n.toInt8.toInt = (n.toNat : Int).bmod 256 := BitVec.toInt_eq_toNat_bmod n.toBitVec
  have byte : UInt8.ofNat (n.toInt8.toInt % 256).toNat = n := by
    have lt := n.toNat_lt
    have mod : (n.toNat : Int).bmod 256 % 256 = n.toNat % 256 := Int.bmod_emod
    apply UInt8.toNat.inj
    rw [signed, mod, UInt8.toNat_ofNat']
    omega
  change UInt8.ofNat (n.toInt8.toInt % 256).toNat :: rest = n :: rest
  rw [byte]

end

section

variable {p : Place} {s : Register} {f : PlaceFields} {opcode : Nat} {forced : Bool} {width : Width}
  {make : Width → MachineCode.Operand → MachineCode.Operand → Action}

lemma widthOf_even (rex : Rex) (h : opcode % 2 = 0) : widthOf rex opcode = .byte := if_pos h

lemma widthOf_odd (rex : Rex) (differs : width ≠ .byte) (h : opcode % 2 = 1) :
    widthOf { rex with w := width.isQword } opcode = width := by
  rw [widthOf, if_neg (by omega)]
  cases width with
  | byte => exact absurd rfl differs
  | dword => rfl
  | qword => rfl

def orderedPair (opcode : Nat) (width : Width) (fill : Filling) (p : Place) (s : Register)
    (make : Width → MachineCode.Operand → MachineCode.Operand → Action) : Action :=
  if opcode / 2 % 2 = 0 then make width (.place (p.seen fill)) (.place (.reg s))
  else make width (.place (.reg s)) (.place (p.seen fill))

def IsPairOpcode (opcode : Nat) (make : Width → MachineCode.Operand → MachineCode.Operand →
    Action) : Prop :=
  isPlainOpcode opcode = true ∧ ∀ rex? bytes, afterOpcode rex? opcode bytes = takePair rex? opcode
    make bytes

/-- Moves and arithmetic have their byte form at an even opcode and their word form right after. -/
lemma reads_pair {e : Encoding} (same : p.fields s.number = .ok f) (even : opcode % 2 = 0)
    (byte : IsPairOpcode opcode make) (word : IsPairOpcode (opcode + 1) make)
    (hp : p.lowByteNeedsRex = true → forced = true) (hs : s.lowByteNeedsRex = true → forced = true)
    (h : (match width with
      | .byte => pure (.ofPlace [opcode] false forced f .none)
      | _ => pure (.ofPlace [opcode + 1] width.isQword false f .none) :
        Except EncodingFault Encoding) = .ok e) (fill : Filling) :
    e.Reads fill (orderedPair opcode width fill p s make) := by
  split at h
  next =>
    obtain rfl := pure_ok.1 h
    apply reads_ofPlace byte.1
    intro rest
    rw [byte.2]
    exact takePair_fields same (widthOf_even _ even) (fun _ => hp) (fun _ => hs) make fill rest
  next hw =>
    obtain rfl := pure_ok.1 h
    have odd : (opcode + 1) % 2 = 1 := by omega
    have order : (opcode + 1) / 2 = opcode / 2 := by omega
    apply reads_ofPlace word.1
    intro rest
    rw [word.2, orderedPair, ← order]
    exact takePair_fields same (widthOf_odd _ hw odd) (fun hb => absurd hb hw)
      (fun hb => absurd hb hw) make fill rest

end

section

variable {width : Width} {imm : Immediate} {value : Int} {fill : Filling}

def shortMoveOpcode : Width → Nat
  | .byte => 0xB0
  | _ => 0xB8

lemma isPlainOpcode_shortMove (width : Width) (d : Register) :
    isPlainOpcode (shortMoveOpcode width + d.lowBits) = true := by
  cases width <;> cases d <;> rfl

lemma afterOpcode_shortMove (width : Width) (d : Register) (rex? : Option Rex) (bytes : Bytes) :
    afterOpcode rex? (shortMoveOpcode width + d.lowBits) bytes =
      takeMovShort rex? (shortMoveOpcode width + d.lowBits) bytes := by
  cases width <;> cases d <;> rfl

lemma reads_movShort (width : Width) {d : Register} {forced : Bool}
    (same : width = .byte → d.lowByteNeedsRex = true → forced = true)
    (read : ∀ rest, takeInt width.bytes (imm.filled fill ++ rest) = some (value, rest)) :
    (ofRegister (shortMoveOpcode width) width.isQword forced d imm).Reads fill
      (.mov width (.place (.reg d)) (.imm value)) := by
  apply reads_ofRegister (isPlainOpcode_shortMove width d)
  intro rest
  have name : width = .byte → writtenRex { w := width.isQword, b := d.isExtended } forced = none →
      d.number < 4 := by
    intro hwidth absent
    obtain ⟨-, ext, hforced⟩ := writtenRex_eq_none absent
    apply number_lt_four ext
    have low := same hwidth
    rw [hforced] at low
    simpa using low
  have place := registerPlace_lowBits name
  have lt : d.lowBits < 8 := Nat.mod_lt _ (by decide)
  have low : (shortMoveOpcode width + d.lowBits) % 8 = d.lowBits := by
    cases width <;> simp only [shortMoveOpcode] <;> omega
  have hwidth : (if shortMoveOpcode width + d.lowBits < 0xB8 then Width.byte
      else if width.isQword = true then .qword else .dword) = width := by
    cases width with
    | byte => exact if_pos (by simp only [shortMoveOpcode]; omega)
    | dword => rw [if_neg (by simp [shortMoveOpcode])]; rfl
    | qword => rw [if_neg (by simp [shortMoveOpcode])]; rfl
  rw [afterOpcode_shortMove]
  simp [takeMovShort, hwidth, low, place, read]

lemma reads_movConst {p : Place} {f : PlaceFields} {forced wide : Bool} {opcode : Nat}
    (same : p.fields 0 = .ok f) (hopcode : opcode = 0xC6 ∨ opcode = 0xC7)
    (hwidth : widthOf { f.rex with w := wide } opcode = width)
    (hp : width = .byte → p.lowByteNeedsRex = true → forced = true)
    (read : ∀ rest, takeConst width (imm.filled fill ++ rest) = some (value, rest)) :
    (ofPlace [opcode] wide forced f imm).Reads fill
        (.mov width (.place (p.seen fill)) (.imm value)) := by
  have plain : isPlainOpcode opcode = true := by rcases hopcode with rfl | rfl <;> rfl
  have after : ∀ rex? bytes, afterOpcode rex? opcode bytes = takeMovConst rex? opcode bytes := by
    rcases hopcode with rfl | rfl <;> exact fun _ _ => rfl
  apply reads_ofPlace plain
  intro rest
  have place := takePlace_fields wide same hp fill (imm.filled fill ++ rest)
  rw [after]
  simp [takeMovConst, hwidth, place, read]

end

end AgentCompiler
