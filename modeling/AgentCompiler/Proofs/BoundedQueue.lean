import AgentCompiler.Proofs.BoundLabels
import AgentCompiler.Proofs.QueueRing

/-!
The two queue services, called in any order, keep a first-in first-out list of bounded length.

Calls are followed in the memory that they leave behind. Between two calls the rest of the program
may change everything but the queue. Only the queue, the slot and the return address are asked to
be mapped.
-/

namespace AgentCompiler

open Service Process Width

open Plan (queueSize)
open Register (rax rcx rdx rsp rsi rdi r8)

inductive QueueCall
  | enqueue (entry : Pending)
  | dequeue (slot : Word)

namespace QueueCall

def service : QueueCall → Service
  | enqueue _ => .enqueue
  | dequeue _ => .dequeue

/-- The messages that are pending after a call; a full list takes no other. -/
def apply (cap : Nat) (entries : List Pending) : QueueCall → Option (List Pending)
  | enqueue e => if entries.length < cap then some (entries ++ [e]) else none
  | dequeue _ => some entries.tail

/-- What the registers hold at a call, and where the slot of a removal lies. -/
def Passes (P : Process) (cap : Nat) (queue : Word) (s : Machine) : QueueCall → Prop
  | enqueue e => s.regs rsi = e.schema ∧ s.regs rdx = e.payload
  | dequeue slot =>
    s.regs rsi = slot ∧ (∀ x ∈ cells slot slotSize, P.mapped x) ∧
    Disjoint (cells queue (queueSize cap)) (cells slot slotSize) ∧
    Disjoint (cells slot slotSize) (cells (s.regs rsp) qword.bytes)

def Writes (cap : Nat) (queue : Word) (entries : List Pending) (m n : Memory) : QueueCall → Prop
  | enqueue e =>
    QueueAt cap queue n (entries ++ [e]) ∧
    Set.EqOn n m (cells queue (queueSize cap))ᶜ
  | dequeue slot =>
    match entries with
    | [] => n = m
    | e :: rest =>
      QueueAt cap queue n rest ∧ SlotAt slot n e ∧
      Set.EqOn n m (cells queue (queueSize cap) ∪ cells slot slotSize)ᶜ

end QueueCall

structure IsQueueCall (P : Process) (cap : Nat) (queue : Word) (call : QueueCall) (back : Nat)
    (c : Config) : Prop where
  entered : P.Entered call.service.label back c
  here : c.machine.regs rdi = queue
  passes : call.Passes P cap queue c.machine
  apart : Disjoint (cells queue (queueSize cap)) (cells (c.machine.regs rsp) qword.bytes)

inductive QueueRun (P : Process) (cap : Nat) (queue : Word) (start : Memory) :
    List QueueCall → Memory → Prop
  | nil : QueueRun P cap queue start [] start
  /-- Something else runs, and leaves the queue alone. -/
  | elsewhere {calls : List QueueCall} {m n : Memory} (run : QueueRun P cap queue start calls m)
      (same : Set.EqOn n m (cells queue (queueSize cap))) :
      QueueRun P cap queue start calls n
  | call {calls : List QueueCall} {call : QueueCall} {back : Nat} {c d : Config}
      (run : QueueRun P cap queue start calls c.machine.memory)
      (calls_it : IsQueueCall P cap queue call back c) (returns : P.Returns c d) :
      QueueRun P cap queue start (calls ++ [call]) d.machine.memory

lemma Process.positionOf_ofNat {P : Process} {k : Nat} (flat : P.codeAddress = BitVec.ofNat 64)
    (inside : k ≤ P.code.length) (short : P.code.length < UInt64.size) :
    P.positionOf (P.codeAddress k) = some k := by
  rw [positionOf, flat, List.find?_range_eq_some]
  refine ⟨by simp, List.mem_range.2 (Nat.lt_succ_of_le inside), fun j before => ?_⟩
  have different : BitVec.ofNat 64 j ≠ BitVec.ofNat 64 k := fun same => by
    have numbers := congrArg BitVec.toNat same
    rw [toNat_ofNat_of_lt (by omega), toNat_ofNat_of_lt (by omega)] at numbers
    omega
  simpa using different

lemma Process.hasDistinctLabels_of_nodup {P : Process} (nodup : (boundLabels P.code).Nodup) :
    P.HasDistinctLabels := fun l => by
  rw [count_label]
  exact List.nodup_iff_count_le_one.1 nodup l

structure HasQueueServices (P : Process) (cap : Nat) (overflow : Label) : Prop where
  distinct : P.HasDistinctLabels
  positive : 0 < cap
  fits : cap ≤ 65536
  enqueue : ∃ k message inRange, P.Holds k (enqueueCode cap message inRange overflow)
  dequeue : ∃ k empty inRange, P.Holds k (dequeueCode cap empty inRange)
  stops : P.Stops abort.label

section

variable {P : Process} {cap back : Nat} {queue : Word} {overflow : Label} {c d : Config}
  {entries : List Pending} {call : QueueCall} {calls : List QueueCall}

namespace Process.Entered

variable {l : Label} {k : Nat} {t : Machine} (entered : P.Entered l back c)
  (at_k : P.code[k]? = some .ret)
include entered at_k

section

variable (top : t.regs rsp = c.machine.regs rsp)
  (same : Set.EqOn t.memory c.machine.memory (cells (c.machine.regs rsp) qword.bytes))
include top same

/-- The last instruction of a service, when stack pointer and return address are as at its start. -/
lemma step_back : P.step ⟨k, t⟩ = some ⟨back, t.set rsp (c.machine.regs rsp + 8)⟩ := by
  have word : P.positionOf (t.memory.load (t.regs rsp) .qword) = some back := by
    rw [top, Memory.load_congr same]
    exact entered.back
  rw [← top]
  simp [step, at_k, read_of_mapped (top ▸ entered.stack), word]

lemma returns : P.Returns ⟨k, t⟩ ⟨back, t.set rsp (c.machine.regs rsp + 8)⟩ :=
  .ret at_k (entered.step_back at_k top same)

end

lemma leads_back {kept : Register → Prop} {written : Set Word}
    (leads : Leads P.Goes kept written c ⟨k, t⟩) (stack : kept rsp)
    (apart : Disjoint written (cells (c.machine.regs rsp) qword.bytes)) :
    P.Returns c ⟨back, t.set rsp (c.machine.regs rsp + 8)⟩ :=
  .of_flows leads.reaches (entered.returns at_k (leads.regs rsp stack)
    (leads.memory.mono (Set.disjoint_right.1 apart)))

end Process.Entered

lemma kept_by_services {s t : Machine} (kept : ∀ r, r ∉ [rax, rcx, rdx, r8] → t.regs r = s.regs r)
    (top : Word) (r : Register) (is : r = rdi ∨ r = rsi ∨ r.isCalleeSaved) :
    (t.set rsp top).regs r = s.regs r := by
  have away : r ∉ rsp :: [rax, rcx, rdx, r8] := by
    rcases is with rfl | rfl | saved
    · decide
    · decide
    · cases r <;> first | decide | cases saved
  rw [List.mem_cons, not_or] at away
  rw [Machine.set_regs, Function.update_of_ne away.1]
  exact kept r away.2

section

variable (services : HasQueueServices P cap overflow) (mapped : ∀ x ∈ cells queue (queueSize cap),
  P.mapped x)
include services mapped

section

variable (holds : QueueAt cap queue c.machine.memory entries)
include holds

lemma enqueue_call_overflows {e : Pending}
    (full : ¬ entries.length < cap) (calls_it : IsQueueCall P cap queue (.enqueue e) back c) :
    (∃ j t, P.labelPosition overflow = some j ∧ P.Flows c ⟨j, t⟩ ∧
      t.memory = c.machine.memory) ∧ ∀ d, ¬ P.Returns c d := by
  obtain ⟨k, message, inRange, placed⟩ := services.enqueue
  obtain ⟨head, ring⟩ := holds
  have position := calls_it.entered.position_eq services.distinct (placed.get (i := 1) rfl)
  have target := labelPosition_of_at services.distinct (placed.get (i := 17) rfl)
  obtain ⟨t, flows, memory⟩ := enqueue_overflows services.distinct placed services.fits mapped ring
    calls_it.here (le_antisymm ring.length_le (not_lt.1 full))
  rw [← position] at flows
  refine ⟨⟨k + 17, t, target, flows, memory⟩, fun d returns => ?_⟩
  obtain ⟨u, onward, -⟩ : ∃ u, P.Flows ⟨k + 17, t⟩ ⟨k + 20, u⟩ ∧ True :=
    placed.flows [.label overflow, .arith .sub rsp (.imm 8), .lea rdi (.symbol message 0)] rfl rfl
      (by simp)
  exact services.stops _ d (placed.get (i := 20) rfl) (.after_flows (flows.trans onward) returns)

lemma queue_call_returns {after : List Pending}
    (calls_it : IsQueueCall P cap queue call back c)
    (answered : call.apply cap entries = some after) :
    ∃ d, P.Returns c d ∧ d.position = back ∧ d.machine.regs rsp = c.machine.regs rsp + 8 ∧
      (∀ r, r = rdi ∨ r = rsi ∨ r.isCalleeSaved → d.machine.regs r = c.machine.regs r) ∧
      QueueAt cap queue d.machine.memory after ∧
      call.Writes cap queue entries c.machine.memory d.machine.memory := by
  obtain ⟨head, ring⟩ := holds
  have fits := services.fits
  cases call with
  | enqueue e =>
    obtain ⟨k, message, inRange, placed⟩ := services.enqueue
    have position := calls_it.entered.position_eq services.distinct (placed.get (i := 1) rfl)
    obtain ⟨schema, payload⟩ := calls_it.passes
    by_cases room : entries.length < cap
    · obtain rfl : entries ++ [e] = after := by simpa [QueueCall.apply, room] using answered
      obtain ⟨t, leads, appended⟩ := enqueue_appends services.distinct placed fits mapped ring
        calls_it.here room
      rw [schema, payload] at appended
      rw [← position] at leads
      have returns := calls_it.entered.leads_back (placed.get (i := 16) rfl) leads
        (by decide) calls_it.apart
      exact ⟨_, returns, rfl, by simp, kept_by_services (fun r outside =>
        leads.regs r (by simp_all)) _, ⟨head, appended⟩, ⟨head, appended⟩, leads.memory⟩
    · simp [QueueCall.apply, room] at answered
  | dequeue slot =>
    obtain ⟨k, empty, inRange, placed⟩ := services.dequeue
    have position := calls_it.entered.position_eq services.distinct (placed.get (i := 1) rfl)
    obtain ⟨there, open_slot, apart, away⟩ := calls_it.passes
    obtain rfl : entries.tail = after := by simpa [QueueCall.apply] using answered
    cases entries with
    | nil =>
      obtain ⟨t, leads, memory⟩ := dequeue_passes services.distinct placed fits mapped
        calls_it.here ring
      rw [← position] at leads
      have returns := calls_it.entered.leads_back (placed.get (i := 22) rfl) leads (by decide)
        (Set.empty_disjoint _)
      exact ⟨_, returns, rfl, by simp, kept_by_services leads.regs _, ⟨head, memory ▸ ring⟩, memory⟩
    | cons e rest =>
      obtain ⟨t, leads, taken, slot_holds⟩ := dequeue_takes services.distinct placed fits mapped
        calls_it.here open_slot apart there ring
      rw [← position] at leads
      have returns := calls_it.entered.leads_back (placed.get (i := 22) rfl) leads (by decide)
        (calls_it.apart.union_left away)
      exact ⟨_, returns, rfl, by simp, kept_by_services leads.regs _, ⟨_, taken⟩, ⟨_, taken⟩,
        slot_holds, leads.memory⟩

end

lemma QueueRun.continues {start m : Memory} (first : QueueAt cap queue start entries)
    (run : QueueRun P cap queue start calls m) :
    ∃ after, calls.foldlM (QueueCall.apply cap) entries = some after ∧
        QueueAt cap queue m after := by
  induction run with
  | nil => exact ⟨entries, rfl, first⟩
  | elsewhere _ same ih =>
    obtain ⟨after, pending, holds⟩ := ih
    exact ⟨after, pending, holds.congr services.fits same⟩
  | @call calls call back c d _ calls_it returns ih =>
    obtain ⟨before, pending, holds⟩ := ih
    cases answered : call.apply cap before with
    | none =>
      cases call with
      | dequeue slot => cases answered
      | enqueue e =>
        have full : ¬ before.length < cap := fun room => by
          simp [QueueCall.apply, room] at answered
        exact absurd returns ((enqueue_call_overflows services mapped holds full calls_it).2 d)
    | some after =>
      obtain ⟨e, again, -, -, -, held, -⟩ := queue_call_returns services mapped holds
        calls_it answered
      obtain rfl := returns.unique again
      refine ⟨after, ?_, held⟩
      rw [List.foldlM_append, pending]
      simp [answered]

lemma QueueRun.holds {start m : Memory} (zeros : ∀ x ∈ cells queue (queueSize cap), start x = 0)
    (run : QueueRun P cap queue start calls m) :
    ∃ entries, calls.foldlM (QueueCall.apply cap) [] = some entries ∧ QueueAt cap queue m entries :=
  run.continues services mapped ⟨0, .empty services.positive services.fits zeros⟩

end

end

/-- After any calls on a queue that starts as zeros, the queue holds the pending messages in order,
at most as many as its capacity. The next call then does to it what it does to that list: a message
for a full queue goes to the panic and changes no memory, and every other call returns, with its
registers, its stack and all other memory as they were. -/
theorem queue_services_refine_fifo {P : Process} {cap : Nat} {queue : Word} {overflow : Label}
    {start m : Memory} {calls : List QueueCall} (services : HasQueueServices P cap overflow)
    (mapped : ∀ x ∈ cells queue (queueSize cap), P.mapped x)
    (zeros : ∀ x ∈ cells queue (queueSize cap), start x = 0)
    (run : QueueRun P cap queue start calls m) :
    ∃ entries, calls.foldlM (QueueCall.apply cap) [] = some entries ∧
      entries.length ≤ cap ∧ QueueAt cap queue m entries ∧
      ∀ call back c, IsQueueCall P cap queue call back c → c.machine.memory = m →
        match call.apply cap entries with
        | none =>
          entries.length = cap ∧ (∀ d, ¬ P.Returns c d) ∧
          ∃ j t, P.labelPosition overflow = some j ∧ P.Flows c ⟨j, t⟩ ∧ t.memory = m
        | some after =>
          ∃ d, P.Returns c d ∧ d.position = back ∧
            d.machine.regs rsp = c.machine.regs rsp + 8 ∧
            (∀ r, r = rdi ∨ r = rsi ∨ r.isCalleeSaved →
              d.machine.regs r = c.machine.regs r) ∧
            QueueAt cap queue d.machine.memory after ∧
            call.Writes cap queue entries m d.machine.memory := by
  obtain ⟨entries, pending, holds⟩ := run.holds services mapped zeros
  have short : entries.length ≤ cap := holds.elim fun _ ring => ring.length_le
  refine ⟨entries, pending, short, holds, fun call back c calls_it memory => ?_⟩
  subst memory
  cases answered : call.apply cap entries with
  | some after => exact queue_call_returns services mapped holds calls_it answered
  | none =>
    cases call with
    | dequeue slot => cases answered
    | enqueue e =>
      have full : ¬ entries.length < cap := fun room => by
        simp [QueueCall.apply, room] at answered
      obtain ⟨overflows, never⟩ := enqueue_call_overflows services mapped holds full calls_it
      exact ⟨le_antisymm short (Nat.le_of_not_lt full), never, overflows⟩

def twoPlaceQueues : Process where
  code := enqueueCode 2 ⟨0⟩ ⟨18⟩ ⟨19⟩ ++ dequeueCode 2 ⟨20⟩ ⟨21⟩
  codeAddress := BitVec.ofNat 64
  symbolAt := fun _ => 0
  mapped := fun _ => true
  outside := fun l => if l = abort.label then some fun _ => none else none
  system := fun _ => none

lemma twoPlaceQueues_services : HasQueueServices twoPlaceQueues 2 ⟨19⟩ where
  distinct := hasDistinctLabels_of_nodup (by decide)
  positive := by decide
  fits := by decide
  enqueue := ⟨0, ⟨0⟩, ⟨18⟩, List.prefix_append _ _⟩
  dequeue := ⟨21, ⟨20⟩, ⟨21⟩, List.prefix_rfl⟩
  stops := stops_of_outside rfl

/-- A call for the queue at 4096, with the stack at 16384 and all other memory zero. -/
def queueCall (m : Memory) (call : QueueCall) : Config where
  position := match call with
    | .enqueue _ => 1
    | .dequeue _ => 22
  machine :=
    { regs := fun r => if r = rdi then 4096 else if r = rsp then 16384 else match call with
        | .enqueue e => if r = rsi then e.schema else e.payload
        | .dequeue slot => slot
      flags := .undefined
      memory := fun x => if (x - 4096).toNat < queueSize 2 then m x else 0 }

lemma queueCall_isQueueCall (m : Memory) {call : QueueCall}
    (slot : ∀ a, call = .dequeue a → a = 8192) :
    IsQueueCall twoPlaceQueues 2 4096 call 0 (queueCall m call) := by
  have apart : Disjoint (cells (0 + BitVec.ofNat 64 4096) 48)
      (cells (0 + BitVec.ofNat 64 16384) 8) :=
    disjoint_cells (by decide) (by decide)
  have top : (queueCall m call).machine.memory.load 16384 .qword = 0 :=
    Memory.load_of_zeros fun x high => if_neg (Set.disjoint_right.1 apart high)
  have back : twoPlaceQueues.positionOf ((queueCall m call).machine.memory.load 16384 .qword) =
      some 0 := by
    rw [top]
    decide
  cases call with
  | enqueue e =>
    exact ⟨⟨labelPosition_of_at twoPlaceQueues_services.distinct rfl, fun _ _ => rfl, back⟩, rfl,
      ⟨rfl, rfl⟩, apart⟩
  | dequeue a =>
    obtain rfl := slot a rfl
    have low : Disjoint (cells (0 + BitVec.ofNat 64 4096) 48)
        (cells (0 + BitVec.ofNat 64 8192) 24) :=
      disjoint_cells (by decide) (by decide)
    have high : Disjoint (cells (0 + BitVec.ofNat 64 8192) 24)
        (cells (0 + BitVec.ofNat 64 16384) 8) :=
      disjoint_cells (by decide) (by decide)
    exact ⟨⟨labelPosition_of_at twoPlaceQueues_services.distinct rfl, fun _ _ => rfl, back⟩, rfl,
      ⟨rfl, fun _ _ => rfl, low, high⟩, apart⟩

lemma QueueRun.next {m : Memory} {calls : List QueueCall} {entries : List Pending}
    (call : QueueCall) (run : QueueRun twoPlaceQueues 2 4096 (fun _ => 0) calls m)
    (slot : ∀ a, call = .dequeue a → a = 8192)
    (takes : (calls ++ [call]).foldlM (QueueCall.apply 2) [] = some entries) :
    ∃ n, QueueRun twoPlaceQueues 2 4096 (fun _ => 0) (calls ++ [call]) n := by
  obtain ⟨before, pending, holds⟩ := run.holds twoPlaceQueues_services (fun _ _ => rfl) fun _ _ =>
    rfl
  have same : Set.EqOn (queueCall m call).machine.memory m (cells 4096 (queueSize 2)) :=
    fun x inside => if_pos inside
  have answered : call.apply 2 before = some entries := by simpa [pending] using takes
  have calls_it := queueCall_isQueueCall m slot
  obtain ⟨d, returns, -⟩ := queue_call_returns twoPlaceQueues_services (fun _ _ => rfl)
    (holds.congr twoPlaceQueues_services.fits same) calls_it answered
  exact ⟨_, .call (.elsewhere run same) calls_it returns⟩

/-- Two messages come, the first is taken, a third comes, and then there is no room for a fourth. -/
theorem queue_services_refine_fifo_full : ∃ m,
    QueueRun twoPlaceQueues 2 4096 (fun _ => 0) [.enqueue ⟨1, 8192⟩, .enqueue ⟨2, 8200⟩,
    .dequeue 8192, .enqueue ⟨3, 0⟩] m ∧ QueueAt 2 4096 m [⟨2, 8200⟩, ⟨3, 0⟩] ∧ ∀ d,
    ¬twoPlaceQueues.Returns (queueCall m (.enqueue ⟨4, 0⟩)) d := by
  obtain ⟨_, run⟩ := QueueRun.next (.enqueue ⟨1, 8192⟩) .nil (by simp) rfl
  obtain ⟨_, run⟩ := run.next (.enqueue ⟨2, 8200⟩) (by simp) rfl
  obtain ⟨_, run⟩ := run.next (.dequeue 8192) (by simp) rfl
  obtain ⟨m, run⟩ := run.next (.enqueue ⟨3, 0⟩) (by simp) rfl
  have again := run.elsewhere (n := (queueCall m (.enqueue ⟨4, 0⟩)).machine.memory) fun x inside =>
    if_pos inside
  have fifo {calls m} (run : QueueRun twoPlaceQueues 2 4096 (fun _ => 0) calls m) :=
    queue_services_refine_fifo twoPlaceQueues_services (fun _ _ => rfl) (fun _ _ => rfl) run
  obtain ⟨_, pending, -, holds, -⟩ := fifo run
  obtain ⟨_, same, -, -, next⟩ := fifo again
  obtain rfl := Option.some.inj pending
  obtain rfl := Option.some.inj same
  exact ⟨m, run, holds, (next (.enqueue ⟨4, 0⟩) 0 _ (queueCall_isQueueCall m (by simp)) rfl).2.1⟩

end AgentCompiler
