import AgentCompiler.Bytes
import AgentCompiler.Object.Symbol

/-!
Data sections under construction. Every append or reservation starts at the next offset of the
wanted alignment. A zero-initialised section holds no bytes; it counts its size in words, and can
wrap around.
-/

namespace AgentCompiler

structure DataSection where
  kind : SectionKind
  align : Nat := 16
  bytes : Bytes := []
  reserved : Nat := 0
  deriving DecidableEq

namespace DataSection

def empty (kind : SectionKind) : DataSection := { kind }

def size (s : DataSection) : Nat :=
  match s.kind with
  | .bss => s.reserved
  | _ => s.bytes.length

def isEmpty (s : DataSection) : Bool := s.size == 0

def nextOffset (s : DataSection) (align : Nat) : Nat :=
  match s.kind with
  | .bss => toWord (alignUp s.size align)
  | _ => alignUp s.size align

def append (s : DataSection) (content : Bytes) (align : Nat) : Nat × DataSection :=
  let offset := s.nextOffset align
  let grown : DataSection :=
    match s.kind with
    | .bss => { s with reserved := toWord (offset + content.length) }
    | _ => { s with bytes := resize s.bytes offset ++ content }
  (offset, { grown with align := max s.align align })

def reserve (s : DataSection) (count align : Nat) : Nat × DataSection :=
  let offset := s.nextOffset align
  let finish := toWord (offset + count)
  let grown : DataSection :=
    match s.kind with
    | .bss => { s with reserved := finish }
    | _ => { s with bytes := resize s.bytes finish }
  (offset, { grown with align := max s.align align })

end DataSection

end AgentCompiler
