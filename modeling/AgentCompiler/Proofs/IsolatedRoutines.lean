import AgentCompiler.Proofs.AnnotatedCode
import AgentCompiler.Proofs.ConfinedBodies

/-!
Runs of a routine that stays in its territory. Its code is annotated line by line: the entry sets up
the three fixed registers, the body keeps them, and while a message is built the payload that was
allocated for it stays in its register. So at every point of a run the memory operands lie in the
state record, the message, the frame, the pool or a new payload, and no byte outside of these is
touched.
-/

namespace AgentCompiler

open Instruction Process Line List Lower
open Register (rax rbx rbp rsp rdi rsi)

structure RoutineParts where
  entry : Label
  leave : Label
  params : Nat
  frame : Frame
  body : Code

def RoutineParts.code (u : RoutineParts) : Code :=
  prologue u.entry u.frame u.params ++ u.body ++ epilogue u.leave u.frame

variable {i : Instruction} {piece : Piece} {u : RoutineParts}

/-- A routine that stays in its territory. Its entry stores parameters to slots, its exit has no
operand in memory, and it never starts over. -/
structure Territory.Contains (T : Territory) (u : RoutineParts) : Prop where
  slots : u.frame.slots = T.slots
  params : u.params ≤ T.slots
  entrance : ∀ i ∈ prologue u.entry u.frame u.params, ∀ a ∈ i.accesses, ∃ s < T.slots,
    a.IsAt rbp (-8 * (s + 1)) 8
  body : T.Confines T.messages u.body
  exit : ∀ i ∈ epilogue u.leave u.frame, i.accesses = []
  once : u.entry ∉ jumpTargets u.body

inductive Territory.Touches (T : Territory) : Access → Prop
  | own {a : Access} (owns : T.Owns a) : Touches T a
  | payload {a : Access} {record : Record} {slot : Slot} (sent : record ∈ T.messages)
      (field : slot ∈ record.slots) (here : a.IsAt rbx slot.offset slot.type.size)
      (stores : a.isStore = true) : Touches T a

section

variable {T : Territory} {outer : Label → Prop} {n m params : Nat} {code : Code} {entry : Label}
  {f : Frame}

lemma Territory.Encloses.jumps {records : List Record} (h : T.Encloses outer n m records code) :
    ∀ l ∈ jumpTargets code, outer l ∨ n ≤ l.id ∧ l.id < m := by
  obtain ⟨pieces, rfl, -, splits⟩ := h
  intro l jump
  rw [jumpTargets, filterMap_flatMap, mem_flatMap] at jump
  obtain ⟨piece, mem, jump⟩ := jump
  exact splits.jumps piece mem l jump

lemma prologue_cases (mem : i ∈ prologue entry f params) :
    i.isOwn = true ∧ i.jump? = none ∧ (∀ l, i = .label l → l = entry) ∧
      (i.accesses = [] ∨ ∃ reg slot, slot < params ∧ i = .move (Variable.address slot)
      (.reg reg)) := by
  simp only [prologue, mem_append, mem_cons, not_mem_nil, or_false, mem_map] at mem
  obtain (((((rfl | rfl | rfl | rfl) | reserve) | ⟨r, saved, rfl⟩) | (rfl | rfl)) | ⟨⟨reg, slot⟩,
      pair, rfl⟩) := mem
  case inl.inl.inl.inr =>
    split at reserve
    · simp at reserve
    · obtain rfl := mem_singleton.1 reserve
      exact ⟨rfl, rfl, by simp [arith, accesses]⟩
  case inr =>
    have index := (mem_zipIdx' pair).1
    rw [length_take] at index
    exact ⟨rfl, rfl, by simp [move], .inr ⟨reg, slot, by omega, rfl⟩⟩
  all_goals exact ⟨rfl, rfl, by simp [move, accesses]⟩

lemma prologue_accesses (given : params ≤ f.slots) (few : f.slots < 0x8000000) :
    ∀ i ∈ prologue entry f params, ∀ a ∈ i.accesses, ∃ s < f.slots,
        a.IsAt rbp (-8 * (s + 1)) 8 := by
  intro i mem a accessed
  obtain ⟨-, -, -, silent | ⟨reg, slot, index, rfl⟩⟩ := prologue_cases mem
  · simp [silent] at accessed
  · have handed : slot < f.slots := by omega
    obtain rfl : a = ⟨Variable.address slot, .qword, true⟩ := by
      simpa [accesses, move] using accessed
    exact ⟨slot, handed, isAt_slot (handed.trans few)⟩

lemma epilogue_silent (leave : Label) (f : Frame) : ∀ i ∈ epilogue leave f, i.accesses = [] ∧
    i.jump? = none := by
  intro i mem
  simp only [epilogue, mem_append, mem_cons, not_mem_nil, or_false, mem_map] at mem
  obtain ((rfl | rfl) | ⟨r, -, rfl⟩) | (rfl | rfl | rfl) := mem <;> exact ⟨rfl, rfl⟩

lemma Lower.block_contains {plan : Plan} {r : Routine} {body : List Stmt} {f' : Frame} {p q : Pool}
    (covers : T.Covers plan r) (stands : Stands T plan f p q) (level : f.depth = 0)
    (given : params ≤ f.slots) (final : f'.slots = T.slots) (early : entry.id < r.epilogue.id)
    (named : r.epilogue.id < p.labels.size) (emits : T.emits = Stmt.emitsIn body)
    (h : block plan r body f p = .ok ((code, f'), q)) : T.Contains ⟨entry, r.epilogue, params, f',
    code⟩ := by
  have encloses : T.Encloses (· = r.epilogue) p.labels.size q.labels.size T.messages code := by
    rw [Territory.messages, emits]
    exact block_encloses (fun _ _ => statement_encloses covers)
      ⟨stands, level, final.le, by rintro l rfl; exact named, rfl⟩ h
  have given : params ≤ f'.slots := given.trans (block_advances h).1.slots_le
  have few : f'.slots < 0x8000000 := final ▸ covers.small.slots
  refine ⟨final, final ▸ given, final ▸ prologue_accesses given few, encloses.confines,
    fun i mem => (epilogue_silent _ _ i mem).1, fun jump => ?_⟩
  rcases encloses.jumps _ jump with same | ⟨low, -⟩
  · exact absurd (congrArg Label.id same) (Nat.ne_of_lt early)
  · simp only at low
    omega

lemma Fill.IsSound.operand {fill : Fill} {a : Access} (sound : fill.IsSound T) (mem : i ∈ fill.code)
    (accessed : a ∈ i.accesses) :
    T.Owns a ∨ a.IsAt rbx fill.slot.offset fill.slot.type.size ∧ a.isStore = true := by
  rcases mem_append.1 mem with computed | stored
  · exact .inl (sound.computes.owns i computed a accessed)
  · obtain ⟨a', accesses, stores, here⟩ := sound.store
    rw [mem_singleton.1 stored, accesses, mem_singleton] at accessed
    exact .inr (accessed ▸ ⟨here, stores⟩)

lemma Piece.IsSound.touches (sound : piece.IsSound T)
    (among : ∀ record ∈ piece.record?, record ∈ T.messages) :
    ∀ i ∈ piece.code, ∀ a ∈ i.accesses, T.Touches a := by
  intro i mem a accessed
  cases piece with
  | own code => exact .own (Territory.Computes.owns sound i mem a accessed)
  | message record fills =>
    obtain ⟨-, slots, sound⟩ := sound
    rcases mem_append.1 mem with header | filling
    · simp only [mem_cons, not_mem_nil, or_false] at header
      obtain rfl | rfl | rfl := header <;> simp [accesses, move] at accessed
    · obtain ⟨fill, one, inside⟩ := mem_flatMap.1 filling
      rcases (sound fill one).operand inside accessed with owns | ⟨here, stores⟩
      · exact .own owns
      · exact .payload (among record rfl) (slots ▸ mem_map_of_mem one) here stores

lemma Territory.Contains.touches (contains : T.Contains u) : ∀ i ∈ u.code, ∀ a ∈ i.accesses,
    T.Touches a := by
  intro i mem a accessed
  rw [RoutineParts.code, mem_append, mem_append] at mem
  obtain (entering | inside) | leaving := mem
  · obtain ⟨s, handed, here⟩ := contains.entrance i entering a accessed
    exact .own (.slot handed here)
  · obtain ⟨pieces, body, built, sound, -⟩ := contains.body
    rw [body] at inside
    obtain ⟨piece, among, inside⟩ := mem_flatMap.1 inside
    exact (sound piece among).touches (fun record is => built ▸ mem_filterMap.2 ⟨piece, among, is⟩)
      i inside a accessed
  · simp [contains.exit i leaving] at accessed

lemma Territory.Touches.base {a : Access} (h : T.Touches a) :
    (∃ id, a.address.base = .symbol id) ∨ ∃ r ∈ rbx :: fixedRegisters, a.address.base = .reg r := by
  cases h with
  | payload _ _ here => exact .inr ⟨rbx, by simp, here.base⟩
  | own owns =>
    cases owns with
    | state _ here => exact .inr ⟨.stateBase, by simp [fixedRegisters], here.base⟩
    | message _ _ here => exact .inr ⟨.message, by simp [fixedRegisters], here.base⟩
    | slot _ here => exact .inr ⟨rbp, by simp [fixedRegisters], here.base⟩
    | constant _ here => exact .inl ⟨_, by rw [here]; rfl⟩

lemma Territory.Contains.single (contains : T.Contains u) : ∀ i ∈ u.code, i ≠ .repMovsb ∧
    i ≠ .repStosb := by
  intro i mem
  have plain : ∀ width, ⟨.deref rdi, width, true⟩ ∉ i.accesses := by
    intro width accessed
    obtain ⟨_, symbol⟩ | ⟨r, inside, base⟩ := (contains.touches i mem _ accessed).base
    · simp [Address.deref, Address.near] at symbol
    · obtain rfl : rdi = r := by simpa [Address.deref, Address.near] using base
      exact absurd inside (by decide)
  constructor <;> rintro rfl <;> exact plain .byte (by simp [accesses])

end

/-- Where a call of a routine finds the state record, the message and its frame. -/
structure Bearings where
  state : Word
  message : Word
  frame : Word

def Machine.bearings (s : Machine) : Bearings :=
  ⟨s.regs rdi, s.regs rsi, s.regs rsp - BitVec.ofNat 64 8⟩

namespace Bearings

variable (b : Bearings) (foreign : Set Word) (size : Nat) (reg : Register)

def fixed : Assertion := fun s =>
  s.regs .stateBase = b.state ∧ s.regs .message = b.message ∧ s.regs rbp = b.frame

def sized : Assertion := fun s => b.fixed s ∧ s.regs rdi = BitVec.ofNat 64 size

/-- A register points to a payload of that size, outside of the foreign region. -/
def holds : Assertion := fun s => b.fixed s ∧ Disjoint (cells (s.regs reg) size) foreign

lemma reads_fixed : b.fixed.Reads fixedRegisters := by
  rintro s t same ⟨state, message, frame⟩
  refine ⟨?_, ?_, ?_⟩
  · rw [same _ (by simp [fixedRegisters]), state]
  · rw [same _ (by simp [fixedRegisters]), message]
  · rw [same _ (by simp [fixedRegisters]), frame]

lemma fixed_of_passes {P : Process} (respects : P.Respects) {s t : Machine}
    (keeps : ∀ r ∈ fixedRegisters, r ∉ i.changed) (fixed : b.fixed s) (passes : P.Passes i s t) :
    b.fixed t :=
  b.reads_fixed s t (fun r inside => passes.changes respects r (keeps r inside)) fixed

lemma reads_holds : (b.holds foreign size reg).Reads (reg :: fixedRegisters) := by
  rintro s t same ⟨fixed, apart⟩
  refine ⟨b.reads_fixed s t (fun r inside => same r (mem_cons_of_mem _ inside)) fixed, ?_⟩
  rwa [same reg (mem_cons_self ..)]

end Bearings

structure Territory.LiesBeside (T : Territory) (P : Process) (b : Bearings) (region : Set Word) :
    Prop where
  message : ∀ record, T.message = some record → Disjoint (cells b.message record.size) region
  frame : Disjoint (cells (b.frame - BitVec.ofNat 64 (8 * T.slots)) (8 * T.slots)) region
  constants : ∀ id, T.constants id → Disjoint (cells (P.symbolAt id) 8) region
  payloads : ∀ routine s t, P.outside Service.allocate.label = some routine → routine s = some t →
    Disjoint (cells (t.regs rax) (s.regs rdi).toNat) region

lemma Territory.LiesBeside.mono {T : Territory} {P : Process} {b : Bearings}
    {region part : Set Word} (h : T.LiesBeside P b region) (inside : part ⊆ region) :
    T.LiesBeside P b part where
  message record handled := (h.message record handled).mono_right inside
  frame := h.frame.mono_right inside
  constants id pooled := (h.constants id pooled).mono_right inside
  payloads routine s t found runs := (h.payloads routine s t found runs).mono_right inside

structure Territory.LiesOutside (T : Territory) (P : Process) (b : Bearings) (foreign : Set Word) :
    Prop extends T.LiesBeside P b foreign where
  state : Disjoint (cells b.state T.state.size) foreign

section

variable {P : Process} {T : Territory} {b : Bearings} {foreign : Set Word} {a : Access}
  {s : Machine} {base : Register}

lemma Access.IsAt.address {distance : Int} {size : Nat} (h : a.IsAt base distance size) :
    P.address s a.address = s.regs base + BitVec.ofInt 64 distance := by
  simp [Process.address, h.base, h.index, h.disp]

lemma Access.IsAt.spares {slot : Slot} {record : Record} (small : record.IsSmall)
    (field : slot ∈ record.slots) (h : a.IsAt base slot.offset slot.type.size)
    (outside : Disjoint (cells (s.regs base) record.size) foreign) :
    Disjoint (cells (P.address s a.address) a.width.bytes) foreign := by
  rw [h.address, h.size, BitVec.ofInt_natCast]
  refine Disjoint.mono_left (cells_subset (small.inside slot field) ?_) outside
  have size := small.size
  simp only [UInt64.size]
  omega

lemma Territory.Owns.spares (owns : T.Owns a) (small : T.IsSmall)
    (outside : T.LiesOutside P b foreign) (fixed : b.fixed s) :
    Disjoint (cells (P.address s a.address) a.width.bytes) foreign := by
  obtain ⟨state, message, frame⟩ := fixed
  cases owns with
  | state field here => exact here.spares small.state field (state ▸ outside.state)
  | message handled field here =>
    exact here.spares (small.message _ handled) field (message ▸ outside.message _ handled)
  | @slot slot handed here =>
    have few := small.slots
    have distance : BitVec.ofInt 64 (-8 * (slot + 1)) = -BitVec.ofNat 64 (8 * (slot + 1)) := by
      rw [← BitVec.ofInt_natCast, ← BitVec.ofInt_neg]
      congr 1
    rw [here.address, here.size, frame, distance, ← BitVec.sub_eq_add_neg]
    refine Disjoint.mono_left (cells_below_subset (by omega) (by omega) ?_) outside.frame
    simp only [UInt64.size]
    omega
  | constant pooled here whole =>
    rw [here, whole, address_symbol]
    simpa [Width.bytes] using outside.constants _ pooled

end

section

variable {P : Process} {T : Territory} {b : Bearings} {foreign : Set Word}

namespace Piece

def lines (b : Bearings) (foreign : Set Word) : Piece → List Line
  | own code => under b.fixed code
  | message record fills =>
    [⟨b.fixed, move rdi (Int64.ofNat record.size)⟩,
      ⟨b.sized record.size, .call Service.allocate.label⟩,
      ⟨b.holds foreign record.size rax, .move rbx rax⟩] ++ under (b.holds foreign record.size rbx)
      (fills.flatMap Fill.code)

lemma map_lines (piece : Piece) : (piece.lines b foreign).map (·.instruction) = piece.code := by
  cases piece <;> simp [lines, code]

lemma mem_lines {line : Line} (mem : line ∈ piece.lines b foreign) :
      (∀ s, line.before s → b.fixed s) ∧ (line.instruction.boundLabel? = none ∧
      line.instruction.jump? = none ∨ line.before = b.fixed ∧ piece.inner = [] ∨
        ∃ record fills, piece = message record fills ∧ line.before = b.holds foreign
          record.size rbx ∧ line.instruction ∈ piece.inner) := by
  cases piece with
  | own code =>
    obtain ⟨before, -⟩ := mem_under.1 mem
    exact ⟨fun s known => before ▸ known, .inr (.inl ⟨before, rfl⟩)⟩
  | message record fills =>
    rcases mem_append.1 mem with header | filling
    · simp only [mem_cons, not_mem_nil, or_false] at header
      obtain rfl | rfl | rfl := header
      · exact ⟨fun s => id, .inl ⟨rfl, rfl⟩⟩
      · exact ⟨fun s known => known.1, .inl ⟨rfl, rfl⟩⟩
      · exact ⟨fun s known => known.1, .inl ⟨rfl, rfl⟩⟩
    · obtain ⟨before, inside⟩ := mem_under.1 filling
      refine ⟨fun s known => ?_, .inr (.inr ⟨record, fills, rfl, before, inside⟩)⟩
      rw [before] at known
      exact known.1

lemma fills_keep {fills : List Fill} (sound : ∀ fill ∈ fills, fill.IsSound T) :
    ∀ i ∈ fills.flatMap Fill.code, ∀ reg ∈ rbx :: fixedRegisters, reg ∉ i.changed := by
  intro i mem reg inside
  obtain ⟨fill, among, mem⟩ := mem_flatMap.1 mem
  rcases mem_append.1 mem with computed | stored
  · exact (sound fill among).computes.keeps (by decide) i computed reg inside
  · obtain rfl := mem_singleton.1 stored
    simp [(sound fill among).keeps]

lemma leads (respects : P.Respects) (outside : T.LiesOutside P b foreign)
    (sound : piece.IsSound T) :
    P.Connects b.fixed (piece.lines b foreign) b.fixed := by
  cases piece with
  | own code => exact .under respects b.reads_fixed (Territory.Computes.keeps sound (by decide))
  | message record fills =>
    obtain ⟨payload, -, sound⟩ := sound
    have size := payload.size
    have saved : ∀ r ∈ fixedRegisters, r ∉ Register.all.filter Register.isCallerSaved := by decide
    refine .append (.cons (fun _ => id) ?_ (.cons (fun _ => id) ?_ (.single ?_)))
      ((Connects.under respects (Bearings.reads_holds b foreign record.size rbx)
        (fills_keep sound)).weaken fun s known => known.1)
    · intro s t fixed passes
      obtain rfl : s.set rdi (BitVec.ofNat 64 record.size) = t := by simpa using passes.of_isOwn rfl
      refine ⟨b.fixed_of_passes respects ?_ fixed passes, by simp⟩
      exact (by decide : ∀ r ∈ fixedRegisters, r ∉ [rdi])
    · rintro s t ⟨fixed, sized⟩ passes
      obtain ⟨routine, found, runs⟩ := passes.of_call
      refine ⟨b.fixed_of_passes respects ?_ fixed passes, ?_⟩
      · exact saved
      have apart := outside.payloads routine s t found runs
      rwa [sized, BitVec.toNat_ofNat, Nat.mod_eq_of_lt (by omega)] at apart
    · rintro s t ⟨fixed, apart⟩ passes
      obtain rfl : s.set rbx (s.regs rax) = t := by simpa using passes.of_isOwn rfl
      refine ⟨b.fixed_of_passes respects ?_ fixed passes, by simpa using apart⟩
      exact (by decide : ∀ r ∈ fixedRegisters, r ∉ [rbx])

lemma spares_foreign (small : T.IsSmall) (outside : T.LiesOutside P b foreign)
    (sound : piece.IsSound T) : ∀ line ∈ piece.lines b foreign, ∀ s, line.before s →
      ∀ a ∈ line.instruction.accesses, Disjoint
      (cells (P.address s a.address) a.width.bytes) foreign := by
  intro line mem s known a accessed
  have fixed := (mem_lines mem).1 s known
  cases piece with
  | own code =>
    obtain ⟨-, inside⟩ := mem_under.1 mem
    exact (Territory.Computes.owns sound _ inside a accessed).spares small outside fixed
  | message record fills =>
    obtain ⟨payload, slots, sound⟩ := sound
    rcases mem_append.1 mem with header | filling
    · simp only [mem_cons, not_mem_nil, or_false] at header
      obtain rfl | rfl | rfl := header <;> simp [accesses, move] at accessed
    · obtain ⟨before, inside⟩ := mem_under.1 filling
      obtain ⟨fill, among, inside⟩ := mem_flatMap.1 inside
      rcases (sound fill among).operand inside accessed with owns | ⟨here, -⟩
      · exact owns.spares small outside fixed
      · have field := slots ▸ mem_map_of_mem among
        rw [before] at known
        exact here.spares payload field known.2

end Piece

section

variable {pieces : List Piece}

lemma pieces_lead (respects : P.Respects) (outside : T.LiesOutside P b foreign)
    (sound : ∀ piece ∈ pieces, piece.IsSound T) : P.Connects b.fixed
    (pieces.flatMap (·.lines b foreign)) b.fixed := by
  induction pieces with
  | nil => exact .nil fun _ => id
  | cons piece rest ih =>
    rw [forall_mem_cons] at sound
    exact (piece.leads respects outside sound.1).append (ih sound.2)

/-- Jumps inside a message stay in it, and no jump from outside leads into its middle. -/
lemma pieces_reach (apart : pieces.Pairwise fun a b => a.Spares b ∧ b.Spares a) :
    ∀ x ∈ pieces.flatMap (·.lines b foreign), ∀ y ∈ pieces.flatMap (·.lines b foreign),
        x.Reaches y := by
  intro x from_x y from_y l jump label s known
  obtain ⟨source, inside, from_x⟩ := mem_flatMap.1 from_x
  obtain ⟨target, inside', from_y⟩ := mem_flatMap.1 from_y
  obtain ⟨fixed, kind⟩ := Piece.mem_lines from_x
  obtain ⟨-, ⟨noLabel, -⟩ | ⟨before, -⟩ | ⟨record, fills, rfl, before, middle⟩⟩ :=
    Piece.mem_lines from_y
  · simp [label, boundLabel?] at noLabel
  · rw [before]
    exact fixed s known
  · rw [before]
    by_cases same : source = .message record fills
    · subst same
      obtain ⟨-, noJump⟩ | ⟨-, empty⟩ | ⟨_, _, same, before', -⟩ := kind
      · simp [jump] at noJump
      · simp [empty] at middle
      · obtain ⟨rfl, rfl⟩ := Piece.message.inj same
        rwa [before'] at known
    · have symmetric : Std.Symm fun a b : Piece => a.Spares b ∧ b.Spares a := ⟨fun _ _ => And.symm⟩
      have spares := (apart.forall inside inside' same).1
      refine absurd ?_ (spares l ?_)
      · exact mem_filterMap.2 ⟨_, middle, by rw [label]; rfl⟩
      · have code : (source.lines b foreign).map (·.instruction) = source.code := source.map_lines
        rw [← code]
        exact mem_filterMap.2 ⟨_, mem_map_of_mem from_x, jump⟩

end

namespace RoutineParts

variable {pieces : List Piece}

lemma map_pieces : (pieces.flatMap (·.lines b foreign)).map (·.instruction) = pieces.flatMap
    Piece.code := by
  rw [map_flatMap]
  simp only [Piece.map_lines]

lemma entry_lines (few : u.frame.slots < 0x8000000) (s : Machine) :
    ∃ lines : List Line, lines.map (·.instruction) = prologue u.entry u.frame u.params ∧
      P.Connects (· = s) lines (fun t => P.execute (prologue u.entry u.frame u.params) s = some t) ∧
      ∀ line ∈ lines, line.instruction.accesses = [] ∨ ∀ m, line.before m → s.bearings.fixed m := by
  let stores : Code := (parameterRegisters.take u.params).zipIdx.map fun pair =>
    .move (Variable.address pair.2) pair.1
  have split : prologue u.entry u.frame u.params = prologue u.entry u.frame 0 ++ stores := by
    simp [prologue, stores]
  have own : ∀ i ∈ prologue u.entry u.frame 0 ++ stores, i.isOwn = true := fun i mem =>
    (prologue_cases (split ▸ mem)).1
  rw [forall_mem_append] at own
  refine ⟨_, ?_, ((Connects.straight own.1).append (.straight own.2)).weaken ?_,
    forall_mem_append.2 ⟨fun line mem => .inl ?_, fun line mem => .inr ?_⟩⟩
  · rw [map_append, map_straight, map_straight, split]
  · rintro t ⟨m, ⟨_, rfl, first⟩, later⟩
    rw [split, execute_append, first, Option.bind_some, later]
  · have inside := mem_map_of_mem (f := (·.instruction)) mem
    rw [map_straight] at inside
    obtain ⟨-, -, -, silent | ⟨_, _, below, -⟩⟩ := prologue_cases inside
    · exact silent
    · simp at below
  · refine of_straight s.bearings.reads_fixed (fun i mem reg _ => ?_) ?_ mem
    · obtain ⟨pair, -, rfl⟩ := mem_map.1 mem
      simp [move, changed]
    · rintro t ⟨_, rfl, runs⟩
      obtain ⟨frame, state, message, -⟩ := Frame.of_prologue few (Nat.zero_le _) runs
      exact ⟨state, message, frame⟩

lemma holds {front body exit : List Line} {inside : Assertion} {k : Nat} {s : Machine} {c : Config}
    (once : u.entry ∉ jumpTargets u.body) (before : front.map (·.instruction) = prologue u.entry
    u.frame u.params) (lowered : body.map (·.instruction) = u.body) (hexit :
    exit.map (·.instruction) = epilogue u.leave u.frame) (start : P.Connects (· = s) front inside)
    (inner : P.Connects inside body inside) (outer : P.Connects inside exit fun _ => True)
    (jumps : ∀ x ∈ body, ∀ y ∈ body ++ exit, x.Reaches y) (placed : P.Holds k u.code)
    (run : Relation.ReflTransGen (P.GoesWithin k u.code.length) ⟨k, s⟩ c) :
    ∃ j line, c.position = k + j ∧ (front ++ body ++ exit)[j]? = some line ∧
      P.code[c.position]? = some line.instruction ∧ line.before c.machine := by
  have whole : (front ++ body ++ exit).map (·.instruction) = u.code := by
    rw [map_append, map_append, before, lowered, hexit, code]
  have text : ∀ {lines : List Line} {code : Code} {line : Line}, lines.map (·.instruction) = code →
      line ∈ lines → line.instruction ∈ code := fun same mem => same ▸ mem_map_of_mem mem
  have reach : ∀ x ∈ front ++ body ++ exit, ∀ y ∈ front ++ body ++ exit, x.Reaches y := by
    intro x from_x y from_y l jump label
    rw [append_assoc, mem_append] at from_y
    rw [mem_append, mem_append] at from_x
    obtain (from_x | from_x) | from_x := from_x
    · simp [(prologue_cases (text before from_x)).2.1] at jump
    · rcases from_y with from_y | from_y
      · have same := (prologue_cases (text before from_y)).2.2.1 l label
        exact absurd (mem_filterMap.2 ⟨_, text lowered from_x, same ▸ jump⟩) once
      · exact jumps x from_x y from_y l jump label
    · simp [(epilogue_silent _ _ _ (text hexit from_x)).2] at jump
  have nonempty : front ++ body ++ exit ≠ [] := by
    rintro empty
    simp [empty, code, prologue] at whole
  have length := congrArg List.length whole
  rw [length_map] at length
  rw [← whole] at placed
  rw [← length] at run
  obtain ⟨j, line, position, found, known⟩ := ((start.append inner).append outer).holds reach placed
    nonempty rfl run
  exact ⟨j, line, position, found, position ▸ placed.get (by rw [getElem?_map, found]; rfl), known⟩

end RoutineParts

section

variable {k : Nat} {s : Machine} {c : Config} (contains : T.Contains u) (small : T.IsSmall)
  (respects : P.Respects) (outside : T.LiesOutside P b foreign) (placed : P.Holds k u.code)
  (state : s.regs rdi = b.state) (message : s.regs rsi = b.message)
  (stack : s.regs rsp = b.frame + 8)
  (run : Relation.ReflTransGen (P.GoesWithin k u.code.length) ⟨k, s⟩ c)
include contains small respects outside placed state message stack run

/-- Wherever a run of the routine is, its memory operands lie outside of the foreign region. -/
lemma Territory.Contains.spares (at_c : P.code[c.position]? = some i) :
    ∀ a ∈ i.accesses, Disjoint (cells (P.address c.machine a.address) a.width.bytes) foreign := by
  obtain rfl : b = s.bearings := by
    cases b
    simp only [Machine.bearings, state, message, stack]
    exact congrArg (Bearings.mk _ _) (BitVec.add_sub_cancel _ 8).symm
  have few : u.frame.slots < 0x8000000 := contains.slots ▸ small.slots
  obtain ⟨pieces, body, -, sound, apart⟩ := contains.body
  obtain ⟨front, text, start, stores⟩ := RoutineParts.entry_lines (P := P) few s
  have fixed : ∀ t, P.execute (prologue u.entry u.frame u.params) s = some t →
      s.bearings.fixed t := by
    intro t runs
    obtain ⟨frame, state, message, -⟩ := Frame.of_prologue few (contains.slots ▸ contains.params)
      runs
    exact ⟨state, message, frame⟩
  have anything : Assertion.Reads (fun _ => True) [] := fun _ _ _ => id
  have exit : P.Connects s.bearings.fixed (under (fun _ => True) (epilogue u.leave u.frame))
      fun _ => True :=
    (Connects.under respects anything (by simp)).strengthen fun _ _ => trivial
  have jumps : ∀ x ∈ pieces.flatMap (·.lines s.bearings foreign), ∀ y ∈ pieces.flatMap
      (·.lines s.bearings foreign) ++ under (fun _ => True) (epilogue u.leave u.frame),
      x.Reaches y := by
    intro x from_x y from_y
    rcases mem_append.1 from_y with from_y | from_y
    · exact pieces_reach apart x from_x y from_y
    · intro _ _ _ _ _
      rw [(mem_under.1 from_y).1]
      trivial
  obtain ⟨j, line, -, found, fetched, known⟩ := RoutineParts.holds contains.once text
    (RoutineParts.map_pieces.trans body.symm) (map_under ..) (start.weaken fixed)
    (pieces_lead respects outside sound) exit jumps placed run
  obtain rfl := Option.some.inj (at_c.symm.trans fetched)
  intro a accessed
  have mem := mem_of_getElem? found
  rw [mem_append, mem_append] at mem
  obtain (entering | inside) | leaving := mem
  · rcases stores line entering with silent | fixed
    · simp [silent] at accessed
    · obtain ⟨s, handed, here⟩ := contains.entrance _ (text ▸ mem_map_of_mem entering) a accessed
      exact (Territory.Owns.slot handed here).spares small outside (fixed _ known)
  · obtain ⟨piece, among, inside⟩ := mem_flatMap.1 inside
    exact piece.spares_foreign small outside (sound piece among) line inside _ known a accessed
  · simp [contains.exit _ (mem_under.1 leaving).2] at accessed

/-- A step of the routine keeps every foreign byte, as far as it is the routine's own: what is
called has its own rules, and a push goes where the stack pointer says. -/
lemma Territory.Contains.keeps {d : Config} (goes : P.Goes c d)
    (at_c : P.code[c.position]? = some i) (own : (∀ l, i ≠ .call l) ∧ i ≠ .syscall)
    (pushes : ∀ r, i = .push r → Disjoint (cells (c.machine.regs rsp - 8) 8) foreign) :
    Set.EqOn d.machine.memory c.machine.memory foreign := by
  have apart := contains.spares small respects outside placed state message stack run at_c
  have nonempty : u.code ≠ [] := by simp [RoutineParts.code, prologue]
  have mem := mem_of_runsWithin placed nonempty run at_c
  obtain ⟨_, fetched, ⟨passes, -⟩ | ⟨l, -, -, same⟩⟩ := goes.cases
  · obtain rfl := Option.some.inj (fetched.symm.trans at_c)
    intro x inside
    generalize d.machine = t at passes
    cases passes with
    | effect runs =>
      exact (effect_keeps runs).2 x ⟨contains.single _ mem,
        fun r push near => Set.disjoint_left.1 (pushes r push) near inside,
        fun a accessed _ near => Set.disjoint_left.1 (apart a accessed) near inside⟩
    | call => exact absurd rfl (own.1 _)
    | system => exact absurd rfl own.2
    | branch => rfl
  · rw [same]
    exact fun _ _ => rfl

end

end

end AgentCompiler
