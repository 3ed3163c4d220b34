import AgentCompiler.Proofs.AgentStorage
import AgentCompiler.Proofs.CallSequences

/-!
Services that call other services. They keep some registers of their caller on the stack, with one
word more that they use themselves, and hand them back at the end.

In a run of such a service a call that comes back is one step. What is proved about its body alone
holds for the service as a whole, if the body leaves the kept words and the return address as they
are.
-/

namespace AgentCompiler

open Service List Process Machine
open Register (rax rsp)
open BitVec (ofNat)

namespace Process

variable (P : Process)

abbrev Runs : Config → Config → Prop := P.Quietly fun _ => False

/-- Steps of the processor, those of called routines included. -/
abbrev Reaches : Config → Config → Prop := Relation.ReflTransGen fun c d => P.step c = some d

/-- In the body of a service control comes from one place to another. The stack pointer, the
registers of the caller that are not on the stack and the memory that is not written to are as
before. -/
abbrev Comes (regs : List Register) (written : Set Word) : Config → Config → Prop :=
  Leads (fun c d => P.Moves (fun _ => False) c [] d) (Register.IsKept regs) written

variable {P} {c d e : Config}

lemma Returns.reaches (returns : P.Returns c d) : P.Reaches c d := by
  induction returns with
  | ret _ runs => exact .single runs
  | step goes _ ih => exact .head goes.2 ih
  | call _ _ enters _ _ callee rest => exact .head enters (callee.trans rest)

lemma step_outside {k : Nat} {l : Label} {s t : Machine} {routine : Machine → Option Machine}
    (at_k : P.code[k]? = some (.call l)) (known : P.outside l = some routine)
    (result : routine s = some t) :
    P.Goes ⟨k, s⟩ ⟨k + 1, t⟩ :=
  ⟨by simp [leaves, at_k, known], by simp [step, at_k, known, result]⟩

lemma reaches_of_runs (runs : P.Runs c d) : P.Reaches c d := by
  induction runs with
  | refl => exact .refl
  | tail _ last ih =>
    cases last with
    | step _ goes => exact ih.tail goes.2
    | call at_k _ answers =>
      cases answers with
      | outside known result => exact ih.tail (step_outside at_k known result).2
      | followed _ enters returns => exact (ih.tail enters).trans returns.reaches

lemma Returns.of_runs (runs : P.Runs c d) (returns : P.Returns d e) : P.Returns c e := by
  induction runs using Relation.ReflTransGen.head_induction_on with
  | refl => exact returns
  | head first _ ih =>
    cases first with
    | step _ goes => exact .step goes ih
    | call at_k _ answers =>
      cases answers with
      | outside known result => exact .step (step_outside at_k known result) ih
      | followed inside enters callee => exact .call at_k inside enters callee ih

end Process

def framed (service : Service) (regs : List Register) (body : Code) : Code :=
  enter service (keeping regs (.arith .sub rsp (.imm 8) :: body ++ [.arith .add rsp (.imm 8)]))

lemma Process.Holds.framed_parts {P : Process} {service : Service} {regs : List Register}
    {body : Code} {k : Nat} (placed : P.Holds k (framed service regs body)) : P.code[k + 1]? = some
      (.label service.label) ∧ P.Holds (k + 2) (regs.map .push ++ [.arith .sub rsp (.imm 8)]) ∧
      P.Holds (k + (3 + regs.length + body.length))
      (.arith .add rsp (.imm 8) :: regs.reverse.map .pop) ∧
      P.code[k + (3 + regs.length + body.length) + (regs.length + 1)]? = some .ret := by
  have parts : framed service regs body = [.align 16, .label service.label] ++ ((regs.map .push ++
      [.arith .sub rsp (.imm 8)]) ++ (body ++
      ((.arith .add rsp (.imm 8) :: regs.reverse.map .pop) ++ [.ret]))) := by
    simp [framed, enter, keeping]
  rw [parts] at placed
  obtain ⟨front, rest⟩ := holds_append.1 placed
  obtain ⟨pushes, rest⟩ := holds_append.1 rest
  obtain ⟨pops, last⟩ := holds_append.1 (holds_append.1 rest).2
  simp only [length_append, length_map, length_cons, length_nil, length_reverse] at pops last
  have start : k + 2 + (regs.length + 1) + body.length = k +
      (3 + regs.length + body.length) := by omega
  rw [start] at pops last
  exact ⟨front.get (i := 1) rfl, pushes, pops, last.get (i := 0) rfl⟩

/-- The two words that the body of a service writes to: its own word, at the stack pointer, and
below it the return addresses of calls. -/
def Machine.ownCells (s : Machine) : Set Word := cells (s.regs rsp - 8) 16

def Config.below (c : Config) (distance count : Nat) : Set Word :=
  cells (c.machine.regs rsp - ofNat 64 distance) count

/-- The stack of a service that keeps some registers, its own word and a return address there. -/
def Config.room (c : Config) (regs : List Register) : Set Word :=
  c.below (8 * (regs.length + 2)) (8 * (regs.length + 2))

/-- In front of the body of a service the registers that it keeps are on the stack. -/
structure Config.Enters (c : Config) (regs : List Register) (u : Machine) : Prop where
  stack : u.regs rsp = c.machine.regs rsp - ofNat 64 (8 * (regs.length + 1))
  others : ∀ r, r ≠ rsp → u.regs r = c.machine.regs r
  words : ∀ i r, regs[i]? = some r →
    u.memory.load (c.machine.regs rsp - ofNat 64 (8 * (i + 1))) .qword = c.machine.regs r
  memory : Set.EqOn u.memory c.machine.memory (c.below (8 * regs.length) (8 * regs.length))ᶜ

/-- Behind a service the stack is one word shorter, and the registers of the caller have their
values. -/
structure Config.Leaves (c : Config) (t : Machine) : Prop where
  stack : t.regs rsp = c.machine.regs rsp + 8
  saved : ∀ r, r.isCalleeSaved → t.regs r = c.machine.regs r

/-- A service has been called, and has a stack. Its stack and the return address are not where the
data is. -/
structure Process.IsCalled (P : Process) (service : Service) (regs : List Register)
    (data : Set Word) (back : Nat)
    (c : Config) : Prop extends P.Entered service.label back c where
  mapped : ∀ x ∈ c.room regs, P.mapped x
  apart : Disjoint (c.below (8 * (regs.length + 2)) (8 * (regs.length + 3))) data

section

variable {P : Process} {service : Service} {regs : List Register} {body : Code}
  {data written : Set Word} {back k : Nat} {c : Config} {u v : Machine}

lemma Config.below_subset (c : Config) {a b n m : Nat} (order : b ≤ a) (inside : a - b + n ≤ m)
    (fits : m < 0x10000000) : c.below b n ⊆ c.below a m :=
  cells_below_subset order inside (by simp only [UInt64.size]; omega)

lemma Config.Enters.ownCells (enters : c.Enters regs u) : u.ownCells = c.below
    (8 * (regs.length + 2)) 16 := by
  rw [Machine.ownCells, enters.stack, Config.below, mul_add 8 _ 2, mul_add 8 _ 1, BitVec.ofNat_add,
    BitVec.ofNat_add]
  congr 1
  bv_omega

namespace Process.IsCalled

variable (called : P.IsCalled service regs data back c) (distinct : P.HasDistinctLabels)
  (placed : P.Holds k (framed service regs body)) (few : regs.length < 0x1000000)
  (callers : ∀ r ∈ regs, r.isCalleeSaved = true)

include called few in
lemma data_eqOn (enters : c.Enters regs u) : Set.EqOn u.memory c.machine.memory data :=
  enters.memory.mono (Set.disjoint_right.1
    (called.apart.mono_left (c.below_subset (by omega) (by omega) (by omega))))

include called distinct placed few callers in
lemma enters : ∃ u, P.Runs c ⟨k + (3 + regs.length), u⟩ ∧ c.Enters regs u := by
  obtain ⟨at_label, pushes, -⟩ := placed.framed_parts
  obtain ⟨t, runs⟩ := exists_pushes (s := c.machine) few fun a near =>
    called.mapped a (c.below_subset (by omega) (by omega) (by omega) near)
  obtain ⟨bottom, changes, stored, same⟩ := execute_pushes
    (fun own => absurd (callers _ own) (by decide)) few runs
  obtain ⟨u, lowers, memory, changes', stack⟩ : ∃ u, P.execute [.arith .sub rsp (.imm 8)]
      t = some u ∧ u.memory = t.memory ∧ t.ChangesOnly [rsp] u ∧ u.regs rsp = t.regs rsp - 8 := by
    simp +contextual [ChangesOnly]
  have goes : P.Runs c ⟨k + (3 + regs.length), u⟩ := by
    have labelled : P.Runs ⟨k + 1, c.machine⟩ ⟨k + 2, c.machine⟩ := .single (.effect at_label rfl)
    have pushed : P.Runs ⟨k + 2, c.machine⟩ ⟨_, u⟩ := P.quietly_execute pushes
      (by rw [execute_append, runs, Option.bind_some, lowers])
    rw [length_append, length_map, length_singleton, add_assoc, add_left_comm 2,
      add_comm regs.length] at pushed
    rw [← called.position_eq distinct at_label] at labelled
    exact labelled.trans pushed
  refine ⟨u, goes, ?_, fun r other => changes.trans changes' (by decide) r (by simpa using other),
    memory ▸ stored, memory ▸ same⟩
  rw [stack, bottom, mul_add, BitVec.ofNat_add]
  bv_omega

include called few in
lemma kept_apart (enters : c.Enters regs u) (sub : written ⊆ data) :
    Disjoint (c.below (8 * regs.length) (8 * regs.length + 8)) (u.ownCells ∪ written) := by
  rw [Set.disjoint_union_right, enters.ownCells]
  exact ⟨(disjoint_cells_below (by omega) (by simp only [UInt64.size]; omega)).symm,
    called.apart.mono (c.below_subset (by omega) (by omega) (by omega)) sub⟩

include called placed few callers in
lemma leaves (nodup : regs.Nodup) (sub : written ⊆ data) (enters : c.Enters regs u)
    (comes : P.Comes regs (u.ownCells ∪ written) ⟨k + (3 + regs.length), u⟩
    ⟨k + (3 + regs.length + body.length), v⟩) :
    ∃ t, P.Returns ⟨k + (3 + regs.length + body.length), v⟩ ⟨back, t⟩ ∧ c.Leaves t ∧
      t.regs rax = v.regs rax ∧ t.memory = v.memory := by
  obtain ⟨-, -, pops, at_ret⟩ := placed.framed_parts
  have same := comes.memory.mono (Set.disjoint_left.1 (called.kept_apart few enters sub))
  obtain ⟨w, raises, memory, changes, raised⟩ : ∃ w, P.execute [.arith .add rsp (.imm 8)]
      v = some w ∧ w.memory = v.memory ∧ v.ChangesOnly [rsp] w ∧
      w.regs rsp = c.machine.regs rsp - ofNat 64 (8 * regs.length) := by
    have top : v.regs rsp + 8#64 = c.machine.regs rsp - ofNat 64 (8 * regs.length) := by
      rw [comes.stack, enters.stack, mul_add, BitVec.ofNat_add]
      bv_omega
    simp +contextual [top, ChangesOnly]
  have words : ∀ i r, regs[i]? = some r →
      w.memory.load (c.machine.regs rsp - ofNat 64 (8 * (i + 1))) .qword = c.machine.regs r := by
    intro i r found
    have index := (List.getElem?_eq_some_iff.1 found).1
    rw [memory, ← enters.words i r found]
    exact Memory.load_congr (same.mono (c.below_subset (by omega)
      (by simp only [Width.bytes]; omega) (by omega)))
  have plain : rsp ∉ regs ∧ rax ∉ regs := by
    constructor <;> exact fun own => absurd (callers _ own) (by decide)
  obtain ⟨t, runs, memory', top, changes', values⟩ := execute_pops few plain.1 nodup
    (fun x near => called.mapped x (c.below_subset (by omega) (by omega) (by omega) near))
    raised words
  have popped : P.Runs ⟨_, v⟩ ⟨_, t⟩ := P.quietly_execute pops
    (by rw [← singleton_append, execute_append, raises, Option.bind_some, runs])
  rw [length_cons, length_map, length_reverse] at popped
  have untouched : Set.EqOn t.memory c.machine.memory
      (cells (c.machine.regs rsp) Width.qword.bytes) := by
    have above : c.below 0 8 ⊆ c.below (8 * regs.length) (8 * regs.length + 8) ∧
        Disjoint (c.below (8 * regs.length) (8 * regs.length)) (c.below 0 8) :=
      ⟨c.below_subset (by omega) (by omega) (by omega),
        disjoint_cells_below (by omega) (by simp only [UInt64.size]; omega)⟩
    rw [Config.below, BitVec.sub_zero] at above
    rw [memory', memory]
    exact (same.mono above.1).trans (enters.memory.mono (Set.disjoint_right.1 above.2))
  have others : ∀ r, r ≠ rsp → r ∉ regs → t.regs r = v.regs r := fun r noStack own => by
    rw [changes' r (by simp [noStack, own]), changes r (by simpa using noStack)]
  refine ⟨_, .of_runs popped (called.returns at_ret top untouched), ⟨by simp, fun r saved => ?_⟩,
    ?_, memory'.trans memory⟩
  · have noStack : r ≠ rsp := by
      rintro rfl
      cases saved
    rw [set_regs, Function.update_of_ne noStack]
    by_cases own : r ∈ regs
    · exact values r own
    · rw [others r noStack own, comes.saved r saved own, enters.others r noStack]
  · rw [set_regs, Function.update_of_ne (by decide), others rax (by decide) plain.2]

include called distinct placed few callers in
lemma comes_back (nodup : regs.Nodup) (sub : written ⊆ data) {Q : Memory → Word → Prop}
    (works : ∀ u, c.Enters regs u → ∃ v, P.Comes regs (u.ownCells ∪ written)
      ⟨k + (3 + regs.length), u⟩ ⟨k + (3 + regs.length + body.length), v⟩ ∧
      Q v.memory (v.regs rax)) :
    ∃ t, P.Returns c ⟨back, t⟩ ∧ c.Leaves t ∧
      Set.EqOn t.memory c.machine.memory (c.room regs ∪ written)ᶜ ∧ Q t.memory (t.regs rax) := by
  obtain ⟨u, first, enters⟩ := called.enters distinct placed few callers
  obtain ⟨v, comes, result⟩ := works u enters
  obtain ⟨t, returns, leaves, block, memory⟩ := called.leaves placed few callers nodup sub
    enters comes
  refine ⟨t, .of_runs (first.trans comes.reaches) returns, leaves, fun x away => ?_,
    memory ▸ block ▸ result⟩
  rw [Set.compl_union] at away
  have own : x ∉ u.ownCells ∪ written := by
    rw [enters.ownCells]
    exact fun near => near.elim (fun near => away.1 (cells_mono (by omega) near)) away.2
  rw [memory, comes.memory own, enters.memory fun near => away.1 ?_]
  exact c.below_subset (by omega) (by omega) (by omega) near

end Process.IsCalled

end

end AgentCompiler
