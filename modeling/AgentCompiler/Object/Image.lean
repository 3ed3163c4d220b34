import AgentCompiler.Machine.Encoding
import AgentCompiler.Object.Section
import AgentCompiler.Text.Hex

/-!
Static executables for 64-bit Linux.

The file starts with the file header and the segment table, and the code follows on the next
16-byte boundary; all of this is the first segment. Constants start on the next page, and data on
the page after them, with the zero-initialised section behind the data in memory only. Addresses
are load address plus file offset, so an offset and its address agree modulo the page size. Sums of
addresses wrap around at the word size. Empty segments are left out.

Once every section has its address, relocations are applied in order and the first impossible one
is reported.
-/

namespace AgentCompiler

def pageSize : Nat := 0x1000

structure FileHeader where
  fileType : Nat := 2
  machine : Nat := 62
  version : Nat := 1
  entry : Nat
  segmentTable : Nat := 64
  sectionTable : Nat := 0
  flags : Nat := 0
  headerSize : Nat := 64
  segmentEntrySize : Nat := 56
  segmentCount : Nat
  sectionEntrySize : Nat := 0
  sectionCount : Nat := 0
  sectionNames : Nat := 0
  deriving DecidableEq

/-- Magic number, 64-bit class, little endian, version, system ABI and padding. -/
def FileHeader.identification : Bytes :=
  [0x7F, 0x45, 0x4C, 0x46, 2, 1, 1, 0] ++ List.replicate 8 0

def FileHeader.bytes (h : FileHeader) : Bytes :=
  identification ++ littleEndian 2 h.fileType ++ littleEndian 2 h.machine ++
    littleEndian 4 h.version ++ littleEndian 8 h.entry ++ littleEndian 8 h.segmentTable ++
    littleEndian 8 h.sectionTable ++ littleEndian 4 h.flags ++ littleEndian 2 h.headerSize ++
    littleEndian 2 h.segmentEntrySize ++ littleEndian 2 h.segmentCount ++
    littleEndian 2 h.sectionEntrySize ++ littleEndian 2 h.sectionCount ++
    littleEndian 2 h.sectionNames

/-- A part of the file to be mapped, and the memory it is mapped to. -/
structure Segment where
  kind : Nat := 1
  /-- The sum of 1 for execution, 2 for writing and 4 for reading. -/
  flags : Nat
  offset : Nat
  address : Nat
  physical : Nat
  fileSize : Nat
  memSize : Nat
  align : Nat := pageSize
  deriving DecidableEq

namespace Segment

def load (flags offset address fileSize memSize : Nat) : Segment :=
  { flags, offset, address, physical := address, fileSize, memSize }

def bytes (s : Segment) : Bytes :=
  littleEndian 4 s.kind ++ littleEndian 4 s.flags ++ littleEndian 8 s.offset ++
    littleEndian 8 s.address ++ littleEndian 8 s.physical ++ littleEndian 8 s.fileSize ++
    littleEndian 8 s.memSize ++ littleEndian 8 s.align

end Segment

@[simp] theorem FileHeader.length_bytes (h : FileHeader) : h.bytes.length = 64 := by
  simp [bytes, identification]

@[simp] theorem Segment.length_bytes (s : Segment) : s.bytes.length = 56 := by
  simp [bytes]

structure PlacedSection where
  kind : SectionKind
  align : Nat
  address : Nat
  fileOffset : Nat
  /-- Bytes in the file; a zero-initialised section has none. -/
  fileSize : Nat
  memSize : Nat
  deriving DecidableEq

structure Image where
  header : FileHeader
  segments : List Segment
  sections : List PlacedSection
  bytes : Bytes

structure Blueprint where
  loadAddress : Nat := 0x400000
  text : Bytes := []
  rodata : DataSection := .empty .rodata
  data : DataSection := .empty .data
  bss : DataSection := .empty .bss
  relocations : List Relocation := []
  /-- Where execution starts, counted from the code's first byte. -/
  entryOffset : Nat := 0
  rodata_kind : rodata.kind = .rodata := by rfl
  data_kind : data.kind = .data := by rfl
  bss_kind : bss.kind = .bss := by rfl

structure Contents where
  text : Bytes
  rodata : Bytes
  data : Bytes

namespace Contents

def get? (c : Contents) : SectionKind → Option Bytes
  | .text => some c.text
  | .rodata => some c.rodata
  | .data => some c.data
  | .bss => none

def set (c : Contents) (kind : SectionKind) (bytes : Bytes) : Contents :=
  match kind with
  | .text => { c with text := bytes }
  | .rodata => { c with rodata := bytes }
  | .data => { c with data := bytes }
  | .bss => c

end Contents

namespace Blueprint

/-- Takes over a data section, which replaces an earlier one of its kind. Code is given apart. -/
def withSection (b : Blueprint) (s : DataSection) : Blueprint :=
  match h : s.kind with
  | .text => b
  | .rodata => { b with rodata := s, rodata_kind := h }
  | .data => { b with data := s, data_kind := h }
  | .bss => { b with bss := s, bss_kind := h }

def hasRodata (b : Blueprint) : Bool := !b.rodata.isEmpty

def hasData (b : Blueprint) : Bool := !b.data.isEmpty || !b.bss.isEmpty

def segmentCount (b : Blueprint) : Nat := 1 + b.hasRodata.toNat + b.hasData.toNat

def textOffset (b : Blueprint) : Nat := alignUp (64 + b.segmentCount * 56) 16

def textEnd (b : Blueprint) : Nat := b.textOffset + b.text.length

def rodataOffset (b : Blueprint) : Nat := alignUp b.textEnd pageSize

def constantsEnd (b : Blueprint) : Nat :=
  if b.hasRodata then b.rodataOffset + b.rodata.size else b.textEnd

def dataOffset (b : Blueprint) : Nat := alignUp b.constantsEnd pageSize

def dataEnd (b : Blueprint) : Nat := b.dataOffset + b.data.size

def addressAt (b : Blueprint) (offset : Nat) : Nat := toWord (b.loadAddress + offset)

def bssAddress (b : Blueprint) : Nat :=
  toWord (alignUp (b.loadAddress + b.dataEnd) b.bss.align)

def placedText (b : Blueprint) : PlacedSection where
  kind := .text
  align := 16
  address := b.addressAt b.textOffset
  fileOffset := b.textOffset
  fileSize := b.text.length
  memSize := b.text.length

def placedRodata (b : Blueprint) : PlacedSection where
  kind := .rodata
  align := b.rodata.align
  address := b.addressAt b.rodataOffset
  fileOffset := b.rodataOffset
  fileSize := b.rodata.size
  memSize := b.rodata.size

def placedData (b : Blueprint) : PlacedSection where
  kind := .data
  align := b.data.align
  address := b.addressAt b.dataOffset
  fileOffset := b.dataOffset
  fileSize := b.data.size
  memSize := b.data.size

def placedBss (b : Blueprint) : PlacedSection where
  kind := .bss
  align := b.bss.align
  address := b.bssAddress
  fileOffset := b.dataEnd
  fileSize := 0
  memSize := b.bss.size

def sections (b : Blueprint) : List PlacedSection :=
  [b.placedText] ++ (if b.hasRodata then [b.placedRodata] else []) ++
    (if b.hasData then [b.placedData] else []) ++
    (if b.bss.isEmpty then [] else [b.placedBss])

def sectionAddress? (b : Blueprint) (kind : SectionKind) : Option Nat :=
  (b.sections.find? (·.kind = kind)).map (·.address)

def contents (b : Blueprint) : Contents := ⟨b.text, b.rodata.bytes, b.data.bytes⟩

def symbolAddress (b : Blueprint) (s : Symbol) : Outcome Nat :=
  match b.sectionAddress? s.kind with
  | some address =>
      if s.isBound then pure (toWord (address + s.offset)) else throw (.unresolved s.name)
  | none => throw (.unresolved s.name)

def patchFor (r : Relocation) (name : String) (goal place : Nat) : Outcome Bytes :=
  let value : Int := goal + r.addend
  match r.kind with
  | .absolute => pure (littleEndianInt 8 value)
  | .relative =>
      let delta := toSignedWord (value - place)
      if fitsInt32 delta then pure (littleEndianInt 4 delta)
      else throw (.range s!"{r.site.name}+{hexText r.offset} -> `{name}`" delta 32)

def relocate (b : Blueprint) (symbols : SymbolTable) (c : Contents) (r : Relocation) :
    Outcome Contents := do
  let s ← symbols.read r.symbol
  let goal ← b.symbolAddress s
  let item := s!"relocation against `{s.name}`"
  match b.sectionAddress? r.site with
  | none => throw (.unencodable item s!"site section {r.site.name} is not part of the image")
  | some start =>
      match c.get? r.site with
      | none => throw (.unencodable item "zero-initialized sections cannot hold relocations")
      | some bytes =>
          if r.offset + r.kind.width ≤ bytes.length then do
            let patch ← patchFor r s.name goal (start + r.offset)
            pure (c.set r.site (overwrite bytes r.offset patch))
          else
            throw (.unencodable item
              s!"site {r.site.name}+{hexText r.offset} lies outside the section")

def codeSegment (b : Blueprint) : Segment := .load 5 0 b.loadAddress b.textEnd b.textEnd

def memoryEnd (b : Blueprint) : Nat :=
  let endOfData := b.addressAt b.dataEnd
  if b.bss.isEmpty then endOfData else max endOfData (toWord (b.bssAddress + b.bss.size))

def segments (b : Blueprint) : List Segment :=
  let rodata := Segment.load 4 b.rodataOffset (b.addressAt b.rodataOffset) b.rodata.size
    b.rodata.size
  let start := b.addressAt b.dataOffset
  let data := Segment.load 6 b.dataOffset start b.data.size (distanceUp start b.memoryEnd)
  [b.codeSegment] ++ (if b.hasRodata then [rodata] else []) ++ (if b.hasData then [data] else [])

def header (b : Blueprint) : FileHeader where
  entry := b.addressAt (b.textOffset + b.entryOffset)
  segmentCount := b.segmentCount

def addSection (c : Contents) (file : Bytes) (s : PlacedSection) : Bytes :=
  match c.get? s.kind with
  | none => file
  | some bytes => resize file s.fileOffset ++ bytes

def fileBytes (b : Blueprint) (c : Contents) : Bytes :=
  b.sections.foldl (addSection c) (b.header.bytes ++ b.segments.flatMap (·.bytes))

def build (b : Blueprint) (symbols : SymbolTable) : Outcome Image := do
  let contents ← b.relocations.foldlM (b.relocate symbols) b.contents
  pure {
    header := b.header
    segments := b.segments
    sections := b.sections
    bytes := b.fileBytes contents }

end Blueprint

end AgentCompiler
