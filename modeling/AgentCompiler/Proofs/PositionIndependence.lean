import AgentCompiler.Proofs.ProgramLookups
import AgentCompiler.Proofs.ReadyCode
import AgentCompiler.Proofs.SymbolSites

/-!
Code generation does not know where a program will be loaded. The settings are read for the reports,
the queues, the heap and the bound on cycles, so that settings which differ in the load address
alone give the same code and data. And the code refers to symbols by distance only: no instruction
holds an address.
-/

namespace AgentCompiler

section

def Settings.movedTo (s : Settings) (address : UInt64) : Settings :=
  { s with loadAddress := address }

variable {program : Program} {layout : Layout} {settings : Settings} {address : UInt64}

lemma analyze_movedTo : Layout.analyze program (settings.movedTo address) = Layout.analyze
    program settings := rfl

lemma generate_movedTo : generate program layout (settings.movedTo address) = generate program
    layout settings := by
  have same : settings.WritesAlike (settings.movedTo address) := ⟨rfl, rfl, rfl, rfl⟩
  exact generate_alike (.refl settings program) same layout

lemma lower_movedTo (valid : settings.validate = .ok ())
    (valid' : (settings.movedTo address).validate = .ok ()) :
    lower program (settings.movedTo address) = lower program settings := by
  simp only [lower, describeLayout, valid, valid', analyze_movedTo, generate_movedTo]

end

section

open Instruction

variable {code : Code}

def Code.IsRelative (code : Code) : Prop := ∀ i ∈ code, i.loadedSymbols = []

lemma generate_isRelative {program : Program} {layout : Layout} {settings : Settings}
    {object : ObjectCode} (generated : generate program layout settings = .ok object) :
    object.code.IsRelative :=
  fun i mem => ((generate_text generated).ready False.elim i mem).relative

lemma Code.IsRelative.kind_eq {names : Names} {a : Assembly} {r : Relocation}
    (relative : code.IsRelative) (assembled : assemble names code = .ok a)
    (mem : r ∈ a.relocations) : r.kind = .relative := by
  obtain ⟨k, i, e, found, encoded, among⟩ := (Assembly.mem_relocations assembled).1 mem
  obtain ⟨s, d, -, rfl⟩ | ⟨s, v, field, rfl⟩ := Assembly.mem_relocationsOf.1 among
  · rfl
  · obtain ⟨dst, rfl⟩ := ((Instruction.namesAs_encode encoded).address s v).1 field
    have none := relative _ (List.mem_of_getElem? found)
    simp [loadedSymbols] at none

end

end AgentCompiler
