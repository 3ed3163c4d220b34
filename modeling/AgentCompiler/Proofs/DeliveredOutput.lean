import AgentCompiler.Proofs.ReadableStrings

/-!
Strings that are written to a descriptor. The system may take less than it is asked for. The service
asks again for what is left, until nothing is left or the system takes nothing.
-/

namespace AgentCompiler

open Service Process List
open BitVec (ofNat ofNat_add)
open Register (rax rcx rdx rsp rsi rdi r11)

/-- A call of the system, with the machine in front of it and behind it. -/
structure SystemCall where
  before : Machine
  behind : Machine

namespace SystemCall

/-- How many bytes were taken; an error is negative. -/
def answer (call : SystemCall) : Int := (call.behind.regs rax).toInt

def taken (call : SystemCall) : Bytes := call.before.memory.bytes (call.before.regs rsi)
    call.answer.toNat

/-- A request to write something to a descriptor. -/
def Asks (call : SystemCall) (descriptor : Word) : Prop :=
  call.before.regs rax = sysWrite.toBitVec ∧ call.before.regs rdi = descriptor

end SystemCall

/-- Calls that write a text: in order, each byte once, up to the first call that takes nothing. -/
structure Delivers (descriptor : Word) (text : Bytes) (calls : List SystemCall) : Prop where
  asks : ∀ call ∈ calls, call.Asks descriptor
  inOrder : calls.flatMap SystemCall.taken <+: text
  all : (∀ call ∈ calls, 0 < call.answer) → calls.flatMap SystemCall.taken = text
  stops : ∀ call ∈ calls.dropLast, 0 < call.answer

namespace Delivers

variable {descriptor : Word} {text : Bytes} {call : SystemCall} {calls : List SystemCall}

lemma nil (descriptor : Word) : Delivers descriptor [] [] := ⟨by simp, by simp, by simp, by simp⟩

lemma refused (asks : call.Asks descriptor) (none : call.answer ≤ 0) : Delivers descriptor text
    [call] where
  asks := by simpa using asks
  inOrder := by simp [SystemCall.taken, Int.toNat_of_nonpos none, Memory.bytes]
  all positive := absurd (positive call (mem_singleton.2 rfl)) (Int.not_lt.2 none)
  stops := by simp

lemma cons (asks : call.Asks descriptor) (some : 0 < call.answer)
    (rest : Delivers descriptor text calls) :
    Delivers descriptor (call.taken ++ text) (call :: calls) where
  asks := forall_mem_cons.2 ⟨asks, rest.asks⟩
  inOrder := by
    rw [flatMap_cons, prefix_append_right_inj]
    exact rest.inOrder
  all positive := by rw [flatMap_cons, rest.all (forall_mem_cons.1 positive).2]
  stops := by
    cases calls with
    | nil => simp
    | cons other calls =>
      rw [dropLast_cons_cons]
      exact forall_mem_cons.2 ⟨some, rest.stops⟩

end Delivers

namespace Process

/-- The system answers a request to write with an error, or with how many of the bytes it has taken.
-/
def Accepts (P : Process) : Prop := ∀ s : Machine, s.regs rax = sysWrite.toBitVec →
  ∃ t, P.system s = some t ∧ t.memory = s.memory ∧ s.ChangesOnly [rax, rcx, r11] t ∧
    (t.regs rax).toInt ≤ (s.regs rdx).toNat

/-- A step that is no call of the system. -/
def Stays (P : Process) (c d : Config) : Prop := P.code[c.position]? ≠ some .syscall ∧
    P.step c = some d

instance (P : Process) : P.Paces P.Stays :=
  ⟨fun at_c _ other goes => ⟨fun asks => other (Option.some.inj (at_c.symm.trans asks)), goes.2⟩⟩

/-- A run, with the calls of the system on it. -/
def Sends (P : Process) : Config → List SystemCall → Config → Prop
  | c, [], d => Relation.ReflTransGen P.Stays c d
  | c, call :: calls, d => ∃ k, Relation.ReflTransGen P.Stays c ⟨k, call.before⟩ ∧ P.code[k]? =
      some .syscall ∧ P.system call.before = some call.behind ∧ P.Sends ⟨k + 1, call.behind⟩ calls d

lemma Sends.tail {P : Process} {c d e : Config} {calls : List SystemCall}
    (sends : P.Sends c calls d) (stays : P.Stays d e) : P.Sends c calls e := by
  induction calls generalizing c with
  | nil => exact Relation.ReflTransGen.tail sends stays
  | cons call calls ih =>
    obtain ⟨k, first, at_k, answered, rest⟩ := sends
    exact ⟨k, first, at_k, answered, ih rest⟩

end Process

variable {P : Process} {k j count back : Nat} {s : Machine} {c : Config}
  {again done scan found : Label} {text : Bytes}

lemma Memory.bytes_add (m : Memory) (a : Word) (n count : Nat) :
    m.bytes a (n + count) = m.bytes a n ++ m.bytes (a + ofNat 64 n) count := by
  simp [bytes, range_add, ofNat_add, BitVec.add_assoc]

lemma Condition.holds_le_check (x : Word) :
    le.holds (.ofResult x (some false) (some false)) = some (decide (x.toInt ≤ 0)) := by
  change some (x == 0 || (x.msb != false)) = _
  rw [Bool.bne_false, BitVec.msb_eq_toInt, Option.some.injEq, Bool.eq_iff_iff, Bool.or_eq_true,
    beq_iff_eq,
    decide_eq_true_iff, decide_eq_true_iff, ← BitVec.toInt_inj, Int.le_iff_eq_or_lt]
  rfl

section

variable (placed : P.Holds k (writeBytesCode again done)) (distinct : P.HasDistinctLabels)
include placed distinct

lemma writeBytes_checks (leads : Leads P.Stays (· ∈ [rdi, rsp]) ∅ c ⟨k + 2, s⟩)
    (much : s.regs rdx = ofNat 64 count) (narrow : count < UInt64.size) :
    (count = 0 ∧ ∃ t, Leads P.Stays (· ∈ [rdi, rsp]) ∅ c ⟨k + 13, t⟩) ∨
    ∃ t, Leads P.Stays (· ∈ [rdi, rsp]) ∅ c ⟨k + 6, t⟩ ∧
      t.regs = putAll s.regs [(rax, sysWrite.toBitVec)] := by
  obtain ⟨t, leads, -, regs, flags⟩ := leads.stores placed
    (Q := fun flags => Condition.e.holds flags = some (s.regs rdx == 0)) [.label again, .check rdx]
    [] _ rfl rfl (by simp) (fun _ _ => rfl) (by simp)
  have zero : (s.regs rdx == 0) = decide (count = 0) := by
    rw [much, Bool.eq_iff_iff, beq_iff_eq, decide_eq_true_iff]
    simp only [UInt64.size] at narrow
    bv_omega
  rw [zero] at flags
  by_cases none : count = 0
  · rw [decide_eq_true none] at flags
    have target := labelPosition_of_at distinct (placed.get (i := 12) rfl)
    obtain ⟨u, leads, -⟩ := (leads.branches placed rfl (.inr rfl) flags target).turns placed
      [.label done] [] rfl rfl (by simp) (by simp)
    exact .inl ⟨none, u, leads⟩
  · rw [decide_eq_false none] at flags
    obtain ⟨u, leads, -, regs'⟩ := (leads.passes placed rfl (.inr rfl) flags).turns placed
      [.move rax sysWrite] [(rax, sysWrite.toBitVec)] rfl rfl (by decide) (by simp)
    exact .inr ⟨u, leads, by rw [regs', regs, putAll_nil]⟩

lemma writeBytes_goes_on (leads : Leads P.Stays (· ∈ [rdi, rsp]) ∅ c ⟨k + 7, s⟩) :
    ((s.regs rax).toInt ≤ 0 ∧ ∃ t, Leads P.Stays (· ∈ [rdi, rsp]) ∅ c ⟨k + 13, t⟩) ∨
    0 < (s.regs rax).toInt ∧ ∃ t, Leads P.Stays (· ∈ [rdi, rsp]) ∅ c ⟨k + 2, t⟩ ∧ t.regs =
      putAll s.regs [(rsi, s.regs rsi + s.regs rax), (rdx, s.regs rdx - s.regs rax)] := by
  obtain ⟨t, leads, -, regs, flags⟩ := leads.stores placed
    (Q := fun flags => Condition.le.holds flags = some (decide ((s.regs rax).toInt ≤ 0)))
    [.check rax] [] _ rfl rfl (by simp) (fun _ _ => rfl) (by simp [Condition.holds_le_check])
  by_cases none : (s.regs rax).toInt ≤ 0
  · rw [decide_eq_true none] at flags
    have target := labelPosition_of_at distinct (placed.get (i := 12) rfl)
    obtain ⟨u, leads, -⟩ := (leads.branches placed rfl (.inr rfl) flags target).turns placed
      [.label done] [] rfl rfl (by simp) (by simp)
    exact .inl ⟨none, u, leads⟩
  · rw [decide_eq_false none] at flags
    obtain ⟨u, leads, -, regs'⟩ := (leads.passes placed rfl (.inr rfl) flags).turns placed
      [.arith .add rsi rax, .arith .sub rdx rax]
      [(rsi, s.regs rsi + s.regs rax), (rdx, s.regs rdx - s.regs rax)] rfl rfl (by simp)
      (by simp [regs])
    have target := labelPosition_of_at distinct (placed.get (i := 2) rfl)
    exact .inr ⟨Int.not_le.1 none, u, leads.jumps placed rfl (.inr rfl) target, by rw [regs', regs,
      putAll_nil]⟩

/-- Whatever the system answers, the loop comes to its end. -/
lemma writeBytes_loops (accepts : P.Accepts) (leads : Leads P.Stays (· ∈ [rdi, rsp]) ∅ c ⟨k + 2, s⟩)
    (much : s.regs rdx = ofNat 64 count) (narrow : count < UInt64.size) :
    ∃ calls t, P.Sends c calls ⟨k + 13, t⟩ ∧ t.memory = c.machine.memory ∧
      t.regs rsp = c.machine.regs rsp ∧
      Delivers (c.machine.regs rdi) (c.machine.memory.bytes (s.regs rsi) count) calls := by
  induction count using Nat.strong_induction_on generalizing c s with
  | _ count ih =>
    obtain ⟨rfl, t, leads⟩ | ⟨u, leads, regs⟩ := writeBytes_checks placed distinct leads much narrow
    · exact ⟨[], t, leads.reaches, leads.memory_eq, leads.regs rsp (by decide), .nil _⟩
    obtain ⟨v, answered, same, changes, most⟩ := accepts u (by simp [regs])
    have memory : v.memory = c.machine.memory := same.trans leads.memory_eq
    have kept (r : Register) (mem : r ∈ [rdi, rsp]) : v.regs r = c.machine.regs r := by
      rw [changes r (by revert mem; cases r <;> decide), leads.regs r mem]
    have asks : SystemCall.Asks ⟨u, v⟩ (c.machine.regs rdi) :=
      ⟨by simp [regs], leads.regs rdi (by decide)⟩
    have at_call := placed.get (i := 6) rfl
    obtain ⟨none, t, leads'⟩ | ⟨positive, t, leads', regs'⟩ :=
      writeBytes_goes_on placed distinct (.refl ⟨k + 7, v⟩)
    · exact ⟨[⟨u, v⟩], t, ⟨_, leads.reaches, at_call, answered, leads'.reaches⟩,
        leads'.memory_eq.trans memory, (leads'.regs rsp (by decide)).trans (kept rsp (by decide)),
        .refused asks none⟩
    · have value := BitVec.toInt_eq_toNat_cond (v.regs rax)
      have asked : u.regs rdx = ofNat 64 count := by simp [regs, much]
      rw [asked, toNat_ofNat_of_lt narrow] at most
      obtain ⟨n, rest, taken, rfl⟩ : ∃ n rest, v.regs rax = ofNat 64 n ∧ count = n + rest :=
        ⟨(v.regs rax).toNat, count - (v.regs rax).toNat, by simp, by split at value <;> omega⟩
      have number : (v.regs rax).toNat = n := by rw [taken, toNat_ofNat_of_lt (by omega)]
      have left : t.regs rdx = ofNat 64 rest := by
        have gone : t.regs rdx = ofNat 64 (n + rest) - ofNat 64 n := by
          simp [regs', changes rdx (by decide), asked, taken]
        rw [gone, Nat.add_comm, ofNat_add, BitVec.add_sub_cancel]
      obtain ⟨calls, x, sends, memory', stack, delivers⟩ :=
        ih rest (by split at value <;> omega) leads' left (by omega)
      refine ⟨⟨u, v⟩ :: calls, x, ⟨_, leads.reaches, at_call, answered, sends⟩,
        memory'.trans memory, stack.trans (kept rsp (by decide)), ?_⟩
      have sent : SystemCall.taken ⟨u, v⟩ = c.machine.memory.bytes (s.regs rsi) n := by
        have answer : (v.regs rax).toInt.toNat = n := by split at value <;> omega
        have front : u.memory = c.machine.memory := leads.memory_eq
        simp [SystemCall.taken, SystemCall.answer, answer, front, regs]
      rw [Memory.bytes_add, ← sent]
      refine .cons asks positive ?_
      change Delivers (v.regs rdi) (v.memory.bytes _ rest) calls at delivers
      rw [memory, kept rdi (by decide)] at delivers
      simpa [regs', changes rsi (by decide), regs, taken] using delivers

end

namespace Memory.HoldsText

variable {m : Memory} {a : Word} (holds : m.HoldsText a text)
include holds

lemma bytes_eq : m.bytes a text.length = text := by
  refine ext_getElem (by simp) fun i _ inside => ?_
  have byte := holds.filled i (by omega)
  rw [getD_eq_getElem _ _ inside] at byte
  simpa [bytes] using byte

/-- A string that filled all of the memory would have no room for its zero. -/
lemma length_lt : text.length < UInt64.size := by
  by_contra large
  have inside : text.length % UInt64.size < text.length :=
    (Nat.mod_lt _ (by decide)).trans_le (Nat.le_of_not_lt large)
  have around := holds.filled (text.length % UInt64.size) (by omega)
  have same : ofNat 64 (text.length % UInt64.size) = ofNat 64 text.length := by
    simp [← BitVec.toNat_inj, UInt64.size]
  rw [same, holds.filled text.length (by omega), getD_eq_getElem _ _ inside] at around
  simp only [getD_eq_getElem?_getD, List.getElem?_length, Option.getD_none] at around
  exact holds.plain (around ▸ getElem_mem inside)

end Memory.HoldsText

/-- A string is written in order, each byte once, to its end or to the first answer that is no
number of bytes. Whatever the answers are, the service comes back. -/
theorem putText_delivers (puts : P.Holds k (putTextCode scan found))
    (writes : P.Holds j (writeBytesCode again done)) (distinct : P.HasDistinctLabels)
    (accepts : P.Accepts) (entered : P.Entered putText.label back c)
    (shows : P.Shows c.machine.memory (c.machine.regs rsi) text) :
    ∃ calls t, P.Sends c calls ⟨back, t⟩ ∧ Delivers (c.machine.regs rdi) text calls ∧
      t.memory = c.machine.memory ∧ t.regs rsp = c.machine.regs rsp + 8 := by
  obtain ⟨position, s⟩ := c
  obtain rfl : position = k + 1 := entered.position_eq distinct (puts.get (i := 1) rfl)
  have leads : Leads P.Stays (· ∈ [rdi, rsp]) ∅ ⟨k + 1, s⟩ _ := .refl ⟨k + 1, s⟩
  obtain ⟨t1, leads, memory1, regs1⟩ := leads.turns puts [.label putText.label, .zero rdx]
    [(rdx, 0)] rfl rfl (by simp) (by simp)
  have loop : P.Holds (k + 3) (scanCode scan found rsi rdx) := puts.slice 3 5
  have string : P.Shows t1.memory (t1.regs rsi + t1.regs rdx) text := by
    simpa [memory1, regs1] using shows
  obtain ⟨t2, leads, -, regs2⟩ := leads.scans loop string distinct (by decide) (by decide)
    (labelPosition_of_at distinct (puts.get (i := 8) rfl))
  obtain ⟨t3, leads, -, regs3⟩ := leads.turns puts (i := 8) [.label found] [] rfl rfl (by simp)
    (by simp)
  obtain ⟨t4, leads, -, regs4⟩ := (leads.jumps puts (i := 9) rfl (.inl rfl)
    (labelPosition_of_at distinct (writes.get (i := 1) rfl))).turns writes [.label writeBytes.label]
    [] rfl rfl (by simp) (by simp)
  have regs : t4.regs = putAll s.regs [(rdx, ofNat 64 text.length)] := by
    simp [regs4, regs3, regs2, regs1]
  have here : t4.regs rsi = s.regs rsi := by simp [regs]
  obtain ⟨calls, t, sends, memory, stack, delivers⟩ := writeBytes_loops writes distinct
    accepts leads (by simp [regs]) shows.length_lt
  rw [here, shows.bytes_eq] at delivers
  have back := entered.step_back (writes.get (i := 13) rfl) stack fun z _ => congrFun memory z
  have at_ret : P.code[j + 13]? = some .ret := writes.get rfl
  exact ⟨calls, _, sends.tail ⟨by simp [at_ret], back⟩, delivers, memory, by simp⟩

/-- A system that takes at most two bytes at once. -/
def reluctant : Process :=
  { fortyBytes (putTextCode ⟨19⟩ ⟨20⟩ ++ writeBytesCode ⟨21⟩ ⟨22⟩) with
    system := fun s => some (s.set rax (if (s.regs rdx).toNat < 2 then s.regs rdx else 2)) }

/-- A call with a string of three bytes. -/
def greeting : Config := ⟨29, (asking 29 1 0x216968).machine.set rsi 8192⟩

theorem putText_delivers_greeting : ∃ calls t, reluctant.Sends greeting calls ⟨0, t⟩ ∧
    Delivers 1 [104, 105, 33] calls := by
  have distinct : reluctant.HasDistinctLabels := hasDistinctLabels_of_nodup (by decide)
  have accepts : reluctant.Accepts := fun s _ => by
    refine ⟨_, rfl, rfl, fun r other => Function.update_of_ne (fun same => other (by simp [same])) _
      _, ?_⟩
    rw [Machine.set_regs, Function.update_self]
    split
    next few => exact (BitVec.toInt_eq_toNat_of_lt (by omega)).le
    next many => exact Int.ofNat_le.2 (Nat.le_of_not_lt many)
  have entered : reluctant.Entered putText.label 0 greeting := by
    have asks : Entered (fortyBytes (putTextCode ⟨19⟩ ⟨20⟩ ++ writeBytesCode ⟨21⟩ ⟨22⟩))
        putText.label 0 (asking 29 1 0x216968) :=
      asking_entered 1 (rfl : _[29]? = _) distinct (by decide)
    exact ⟨asks.position, asks.stack, asks.back⟩
  have string : reluctant.Shows greeting.machine.memory 8192 [104, 105, 33] :=
    ⟨⟨(by decide : ∀ i < 4, greeting.machine.memory (8192 + ofNat 64 i) =
      [104, 105, 33].getD i 0), by decide⟩, fun _ _ => rfl⟩
  have puts : reluctant.Holds 28 (putTextCode ⟨19⟩ ⟨20⟩) := prefix_append _ _
  have writes : reluctant.Holds 38 (writeBytesCode ⟨21⟩ ⟨22⟩) := prefix_rfl
  obtain ⟨calls, t, sends, delivers, -⟩ := putText_delivers puts writes distinct accepts
    entered string
  exact ⟨calls, t, sends, delivers⟩

end AgentCompiler
