import SwiftCodec.Calendar
import SwiftCodec.Codec.Enum
import SwiftCodec.Codec.Struct
import SwiftCodec.Registry.Resolution

/-!
Generated text as a sequence of headers and extension blocks. A block holds the codecs its type
lacks; a type that has both gets no block.
-/
namespace SwiftCodec

/-- An extension of a type by one or both of its codecs. -/
structure Block where
  typeName : String
  decoder : Option Function
  encoder : Option Function
deriving DecidableEq, Repr

namespace Block

/-- A blank line separates the two codecs, and another ends the block. -/
def lines (b : Block) : List String :=
  ["extension " ++ b.typeName ++ " \x7b"] ++
    (match b.decoder, b.encoder with
      | none, none => []
      | some d, none => d.lines
      | none, some e => e.lines
      | some d, some e => d.lines ++ [""] ++ e.lines) ++
    ["\x7d", ""]

end Block

inductive Section where
  | header (filename : String) (time : Time)
  | block (b : Block)
deriving DecidableEq, Repr

namespace Section

def headerLines (filename : String) (time : Time) : List String :=
  ["//",
    "//  " ++ filename,
    "//",
    "//  Auto generated by swift-json-gen on " ++ time.text,
    "//  See for details: https://github.com/tomlokhorst/swift-json-gen",
    "//",
    "",
    "import Foundation",
    ""]

def lines : Section → List String
  | .header filename time => headerLines filename time
  | .block b => b.lines

def isBlock : Section → Bool
  | .header _ _ => false
  | .block _ => true

end Section

/-- What has been generated so far. -/
structure Listing where
  sections : List Section := []
  warnings : List Warning := []
deriving DecidableEq, Repr, Inhabited

namespace Listing

def lines (l : Listing) : List String := l.sections.flatMap Section.lines

/-- The number of extension blocks. It need not be kept beside the sections: only `extend` adds
blocks, one at a time, and a count that is raised by one whenever it does is this one. -/
def extensions (l : Listing) : Nat := l.sections.countP Section.isBlock

/-- Without an extension block there is nothing worth writing. -/
def isEmpty (l : Listing) : Bool := l.extensions = 0

def header (l : Listing) (filename : String) (time : Time) : Listing :=
  { l with sections := l.sections ++ [.header filename time] }

/-- Adds a block, unless it would be empty. -/
def extend (l : Listing) (b : Block) : Listing :=
  if b.decoder.isNone && b.encoder.isNone then l
  else { l with sections := l.sections ++ [.block b] }

@[simp] theorem extensions_empty : ({} : Listing).extensions = 0 := rfl

@[simp] theorem extensions_header (l : Listing) (filename : String) (time : Time) :
    (l.header filename time).extensions = l.extensions := by
  simp [extensions, header, Section.isBlock]

@[simp] theorem extensions_extend (l : Listing) (b : Block) :
    (l.extend b).extensions =
      l.extensions + if b.decoder.isNone && b.encoder.isNone then 0 else 1 := by
  unfold extend
  split
  · rfl
  · simp [extensions, Section.isBlock]

def emitEnum (codecs : Codecs) (l : Listing) (e : EnumDecl) : Listing :=
  l.extend {
    typeName := e.name
    decoder := if codecs.hasDecoder e.name then none else some e.decoder
    encoder := if codecs.hasEncoder e.name then none else some e.encoder }

/-- Adds the block of a struct. A defect in its decoder comes before one in its encoder, and
either leaves nothing behind. -/
def emitStruct (codecs : Codecs) (known : List EnumDecl) (l : Listing) (s : StructDecl) :
    Except Defect Listing := do
  let decoder ←
    if codecs.hasDecoder s.name then .ok none else s.decoder.map some
  let (encoder, warnings) ←
    if codecs.hasEncoder s.name then .ok (none, [])
    else (s.encoder known).map fun (f, warnings) => (some f, warnings)
  .ok ({ l with warnings := l.warnings ++ warnings }.extend ⟨s.name, decoder, encoder⟩)

/-- Adds the blocks of structs up to the first with a defect. -/
def emitStructs (codecs : Codecs) (known : List EnumDecl) (l : Listing) :
    List StructDecl → Listing × Option Defect
  | [] => (l, none)
  | s :: rest =>
    match l.emitStruct codecs known s with
    | .ok l => emitStructs codecs known l rest
    | .error d => (l, some d)

/-- Adds the blocks of enums, then those of structs. `known` are the enums a dictionary key may
name. -/
def emit (codecs : Codecs) (known : List EnumDecl) (l : Listing) (enums : List EnumDecl)
    (structs : List StructDecl) : Listing × Option Defect :=
  (enums.foldl (emitEnum codecs) l).emitStructs codecs known structs

end Listing

end SwiftCodec
