import AgentCompiler.Lowering.ObjectCode
import AgentCompiler.Object.Assembly
import AgentCompiler.Object.Image

/-! The compiler as a whole: from a program and settings to a layout, a listing or an image. -/

namespace AgentCompiler

def describeLayout (program : Program) (settings : Settings) : Outcome Layout := do
  settings.validate
  Layout.analyze program settings

def lower (program : Program) (settings : Settings) : Outcome ObjectCode := do
  let layout ← describeLayout program settings
  generate program layout settings

def assemblyListing (program : Program) (settings : Settings) : Outcome String := do
  let object ← lower program settings
  object.listing

def ObjectCode.link (object : ObjectCode) (loadAddress : Nat) : Outcome Image := do
  let assembly ← assemble object.names object.code
  match assembly.offset? object.entry with
  | none => throw (.unresolved (object.labels.name object.entry))
  | some entryOffset =>
      let blueprint : Blueprint := {
        loadAddress
        text := assembly.bytes
        relocations := assembly.relocations ++ object.dataRelocations
        entryOffset }
      let sections := [object.rodata, object.data, object.bss]
      (sections.foldl Blueprint.withSection blueprint).build object.symbols

def compile (program : Program) (settings : Settings) : Outcome Image := do
  let object ← lower program settings
  object.link settings.loadAddress.toNat

end AgentCompiler
