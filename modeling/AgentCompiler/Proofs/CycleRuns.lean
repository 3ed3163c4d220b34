import AgentCompiler.Proofs.AgentStorage
import AgentCompiler.Proofs.WordOperators

/-!
The rest and the sense of a cycle, in the code of the main routine. At rest the number of complete
cycles is compared with the bound and then the queues are looked through; nothing but scratch
registers and flags changes. Sensing takes the oldest message of one agent after the other.
-/

namespace AgentCompiler

open Register (rax rbx rsp rsi rdi)
open BitVec (ofNat)

variable {settings : Settings} {halt : Label} {code : Code}

namespace Emit

lemma cycleBound_ok
    (run : cycleBound settings halt = .ok code) : (settings.maxCycles.toNat = 0 ∧ code = []) ∨
      (0 < settings.maxCycles.toNat ∧ settings.maxCycles.toNat ≤ maxInt64 ∧
        code = [.move rax (Int64.ofNat settings.maxCycles.toNat), .arith .cmp rbx rax,
        .jcc .ae halt]) := by
  simp only [cycleBound] at run
  split at run
  next none => exact .inl ⟨none, (AgentCompiler.pure_ok.1 run).symm⟩
  next some =>
    split at run
    next fits => exact .inr ⟨pos_of_ne_zero some, fits, (AgentCompiler.pure_ok.1 run).symm⟩
    next => cases run

lemma length_flatMap_checkQueue (sense : Label) (pairs : List (AgentLayout × Storage)) :
    (pairs.flatMap fun pair => checkQueue sense pair.2).length = 2 * pairs.length := by
  simp [List.length_flatMap, checkQueue, mul_comm]

lemma length_flatMap_takeMessage (pairs : List (AgentLayout × Storage)) :
    (pairs.flatMap fun pair => takeMessage pair.2).length = 3 * pairs.length := by
  simp [List.length_flatMap, takeMessage, mul_comm]

end Emit

variable {P : Process} {observed : Label → Prop} {cap k j : Nat} {top : Word}
  {queued todo : List (AgentLayout × Storage)} {c : Config} {s : Machine}
  {queues : String → List Pending} {slots : String → Option Pending}
  (works : P.Works observed cap top queued c ⟨k, s⟩)
include works

section

lemma bound_runs {cycles : Nat}
    (written : Emit.cycleBound settings halt = .ok code) (placed : P.Holds k code)
    (target : P.labelPosition halt = some j) (counted : s.regs rbx = ofNat 64 cycles)
    (bounded : 0 < settings.maxCycles.toNat → cycles ≤ settings.maxCycles.toNat) :
    ∃ t, t.memory = s.memory ∧ P.Works observed cap top queued c
      ⟨if 0 < settings.maxCycles.toNat ∧ settings.maxCycles.toNat ≤ cycles then j else k +
      code.length, t⟩ := by
  have shape := Emit.cycleBound_ok written
  generalize settings.maxCycles.toNat = bound at shape bounded ⊢
  obtain ⟨none, rfl⟩ | ⟨positive, fits, rfl⟩ := shape
  · refine ⟨s, rfl, ?_⟩
    rwa [if_neg (by omega)]
  · have low := bounded positive
    simp only [maxInt64] at fits
    have compares : Condition.ae.holds (AluOp.cmp.flags (ofNat 64 cycles) (ofNat 64 bound)) =
        some (decide (bound ≤ cycles)) := by
      rw [Condition.holds_ae_cmp, toNat_ofNat_of_lt (by simp only [UInt64.size]; omega),
        toNat_ofNat_of_lt (by simp only [UInt64.size]; omega)]
    obtain ⟨t, works, memory, -, flags⟩ := works.stores placed (i := 0)
      (Q := (· = AluOp.cmp.flags (ofNat 64 cycles) (ofNat 64 bound)))
      [.move rax (Int64.ofNat bound), .arith .cmp rbx rax] [(rax, ofNat 64 bound)] _ rfl rfl
      (by simp +decide) (fun _ _ => rfl) (by simp [counted])
    rw [← flags] at compares
    refine ⟨t, memory, ?_⟩
    split
    next late =>
      exact works.branches placed rfl (.inl rfl) (by rw [compares, decide_eq_true late.2]) target
    next late =>
      have early := fun reached => late ⟨positive, reached⟩
      exact works.passes placed rfl (.inl rfl) (by rw [compares, decide_eq_false early])

lemma checks_run {sense : Label} (stores : P.Stores cap top queued) (within : todo ⊆ queued)
    (placed : P.Holds k (todo.flatMap fun pair => Emit.checkQueue sense pair.2))
    (target : P.labelPosition sense = some j) (holds : P.HoldsQueues cap queued s.memory queues) :
    ∃ t, t.memory = s.memory ∧ P.Works observed cap top queued c
      ⟨if ∀ pair ∈ todo, queues pair.1.name = [] then k + 2 * todo.length else j, t⟩ := by
  induction todo generalizing k s with
  | nil => exact ⟨s, rfl, by simpa using works⟩
  | cons pair rest ih =>
    obtain ⟨mem, within⟩ := List.cons_subset.1 within
    rw [List.flatMap_cons, Process.holds_append] at placed
    obtain ⟨first, placed⟩ := placed
    obtain ⟨head, ring⟩ := holds pair mem
    have size := queueSize_eq cap
    have read := Process.read_word (fun x near => stores.mapped pair mem x (.inl near))
      (show 8 + 8 ≤ Plan.queueSize cap by omega) (queueSize_le stores.fits) s
    obtain ⟨t, works, memory, -, flags⟩ := works.stores first (i := 0)
      (Q := (· = AluOp.cmp.flags (ofNat 64 (queues pair.1.name).length) 0))
      [.arith .cmp (wordOf pair.2.queue 8) (.imm 0)] [] _ rfl rfl (by simp) (fun _ _ => rfl)
      (by simp [wordOf, read, ring.count])
    have short : (queues pair.1.name).length < UInt64.size := by
      have fits := stores.fits
      have length := ring.length_le
      simp only [UInt64.size]
      omega
    have isZero : ofNat 64 (queues pair.1.name).length = 0 ↔ queues pair.1.name = [] := by
      rw [← BitVec.toNat_inj, toNat_ofNat_of_lt short]
      simp
    have waits : Condition.ne.holds t.flags = some (decide (queues pair.1.name ≠ [])) := by
      rw [flags, Condition.holds_ne_cmp, bne, beq_eq_decide, decide_not, decide_eq_decide.2 isZero]
    by_cases empty : queues pair.1.name = []
    · have onward : P.Works observed cap top queued c ⟨k + 2, t⟩ :=
        works.passes first rfl (.inl rfl) (by rw [waits]; simp [empty])
      obtain ⟨u, memory', later⟩ := ih onward within placed (memory ▸ holds)
      refine ⟨u, memory'.trans memory, ?_⟩
      have same : k + 2 + 2 * rest.length = k + 2 * (pair :: rest).length := by
        rw [List.length_cons]
        omega
      simpa only [List.forall_mem_cons, empty, true_and, same] using later
    · refine ⟨t, memory, ?_⟩
      rw [if_neg fun all => empty (all pair List.mem_cons_self)]
      exact works.branches first rfl (.inl rfl) (by rw [waits, decide_eq_true empty]) target

end

section

omit works in
lemma ite_mem_cons_eq_update {α β : Type} {key : String} {keys : List String} (fresh : key ∉ keys)
    (g : α → β) (q : String → α) (f : String → β) (x : α) :
    (fun name => if name ∈ key :: keys then g (q name) else f name) = fun name =>
      if name ∈ keys then g (Function.update q key x name) else Function.update f key
          (g (q key)) name := by
  funext name
  by_cases equal : name = key
  · subst equal
    simp [fresh]
  · simp [equal]

section

variable (stores : P.Stores cap top queued) (hidden : ¬ observed Service.dequeue.label)
include stores hidden

lemma take_runs {pair : AgentLayout × Storage} (mem : pair ∈ queued)
    (placed : P.Holds k (Emit.takeMessage pair.2)) (stack : s.regs rsp = top)
    (holds : P.HoldsMail cap queued s.memory queues slots) (free : slots pair.1.name = none) :
    ∃ t, P.Works observed cap top queued c ⟨k + 3, t⟩ ∧ t.regs rsp = top ∧
      P.HoldsMail cap queued t.memory (Function.update queues pair.1.name (queues pair.1.name).tail)
        (Function.update slots pair.1.name (queues pair.1.name).head?) := by
  obtain ⟨t, works, memory, regs⟩ := works.turns placed (i := 0)
    [.lea rdi (.symbol pair.2.queue 0), .lea rsi (.symbol pair.2.slot 0)]
    [(rdi, P.symbolAt pair.2.queue), (rsi, P.symbolAt pair.2.slot)] rfl rfl (by simp +decide)
    (by simp)
  obtain ⟨u, calls, holds⟩ := stores.dequeue_runs mem hidden (placed.get (i := 2) rfl)
    (by simpa [regs] using stack) (by simp [regs]) (by simp [regs]) (memory ▸ holds) free
  have kept : u.regs rsp = t.regs rsp := calls.preserves.stack
  exact ⟨u, works.trans calls, by simpa [kept, regs] using stack, holds⟩

lemma takes_run (within : todo ⊆ queued) (nodup : (todo.map (·.1.name)).Nodup)
    (placed : P.Holds k (todo.flatMap fun pair => Emit.takeMessage pair.2))
    (stack : s.regs rsp = top) (holds : P.HoldsMail cap queued s.memory queues slots)
    (free : ∀ pair ∈ todo, slots pair.1.name = none) :
    ∃ t, P.Works observed cap top queued c ⟨k + 3 * todo.length, t⟩ ∧
        P.HoldsMail cap queued t.memory (fun name =>
        if name ∈ todo.map (·.1.name) then (queues name).tail else queues name)
        (fun name => if name ∈ todo.map (·.1.name) then (queues name).head? else slots name) := by
  induction todo generalizing k s queues slots with
  | nil => exact ⟨s, works, by simpa using holds⟩
  | cons pair rest ih =>
    obtain ⟨mem, within⟩ := List.cons_subset.1 within
    rw [List.map_cons, List.nodup_cons] at nodup
    rw [List.flatMap_cons, Process.holds_append] at placed
    rw [List.forall_mem_cons] at free
    obtain ⟨t, works, stack, holds⟩ := take_runs works stores hidden mem placed.1 stack holds free.1
    have others : ∀ other ∈ rest, Function.update slots pair.1.name (queues pair.1.name).head?
      other.1.name =
        none := fun other inside => by
      have differ : other.1.name ≠ pair.1.name := fun equal =>
        nodup.1 (equal ▸ Process.Stores.mem_names inside)
      rw [Function.update_of_ne differ]
      exact free.2 other inside
    obtain ⟨u, later, holds⟩ := ih works within nodup.2 placed.2 stack holds others
    have size : k + 3 + 3 * rest.length = k + 3 * (pair :: rest).length := by
      rw [List.length_cons]
      omega
    rw [size] at later
    rw [List.map_cons, ite_mem_cons_eq_update nodup.1, ite_mem_cons_eq_update nodup.1]
    exact ⟨u, later, holds⟩

end

end

end AgentCompiler
