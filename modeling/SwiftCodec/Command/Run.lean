import SwiftCodec.Command.Load
import SwiftCodec.Files.Tree
import SwiftCodec.Output.File
import SwiftCodec.Output.Support

/-!
What a command does. It first reads all it needs, changing nothing; what it writes then follows
from that, action by action. An action that fails is the last one.
-/
namespace SwiftCodec

namespace Command

inductive Action where
  /-- Text for the standard output. -/
  | print (text : String)
  /-- A line for the standard error. -/
  | report (line : String)
  /-- A file to write, with the directories above it. -/
  | write (path contents : String)
deriving DecidableEq, Repr

/-- Actions, and the failure that comes after them. -/
structure Script where
  actions : List Action
  failure : Option Failure := none
deriving Repr

/-! ## Generate -/

/-- The path of a generated file: under the directory for output, or next to the document. -/
def GenerateOptions.target (o : GenerateOptions) (d : Document) (f : GeneratedFile) : String :=
  Path.join (o.out.getD ((Path.parent? d.path).getD "")) f.filename

def warningLine (w : Warning) : String :=
  "warning: " ++ w.typeName ++ "." ++ w.field ++ ": dictionary key `" ++ w.key ++
    "` does not encode to a JSON string"

/-- A written file is reported once it is there. -/
def writeReported (path contents : String) : List Action :=
  [.write path contents, .report ("✓ " ++ path)]

/-- What is done with the outcome for one document. -/
def GenerateOptions.actions (o : GenerateOptions) (d : Document) :
    Except Defect GeneratedFile → List Action
  | .error e => [.report ("✗ " ++ d.file.filename ++ ": " ++ e.message)]
  | .ok f =>
    f.listing.warnings.map (.report <| warningLine ·) ++
      if f.listing.isEmpty then
        [.report ("– " ++ d.file.filename ++ " (nothing to generate)")]
      else if o.stdout then [.print f.contents]
      else writeReported (o.target d f) f.contents

/-- Every document is generated against the registry of all of them. -/
def GenerateOptions.script (o : GenerateOptions) (time : Time) (documents : List Document) :
    Script :=
  let registry := Registry.scan (documents.map (·.file))
  let results := documents.map fun d => (d, d.file.generate registry time)
  let support :=
    if o.emitSupport then
      writeReported (Path.join (o.out.getD ".") Support.filename) Support.source
    else []
  let failed := results.countP fun (_, r) => r matches .error _
  ⟨results.flatMap (fun (d, r) => o.actions d r) ++ support,
    if 0 < failed then some (.documents failed documents.length) else none⟩

/-! ## Registry -/

def RegistryOptions.script (o : RegistryOptions) (documents : List Document) : Script :=
  let text := (Registry.scan (documents.map (·.file))).toJson.pretty
  match o.out with
  | none => ⟨[.print (text ++ "\n")], none⟩
  | some path => ⟨[.write path text], none⟩

/-! ## Any request -/

/-- The script of a request, once its documents have been read. -/
def afterLoading (filtering : Filtering) (inputs : Inputs) (script : List Document → Script) :
    Inquiry Script := do
  match ← (load filtering inputs).run with
  | .error f => pure ⟨[], some f⟩
  | .ok documents => pure (script documents)

def Request.script (filtering : Filtering) (time : Time) : Request → Inquiry Script
  | .help => pure ⟨[.print helpText], none⟩
  | .version => pure ⟨[.print versionText], none⟩
  | .registry o => afterLoading filtering o.inputs o.script
  | .generate o =>
    if o.showOnly then pure ⟨o.lines.map .report, none⟩
    else afterLoading filtering o.inputs (o.script time)

/-! ## Running on a tree of files -/

/-- A tree of files, and what has been printed so far. -/
structure World where
  tree : Tree
  stdout : String := ""
  stderr : String := ""
deriving DecidableEq, Repr

namespace World

/-- Writes a file, with the directories above it. -/
def store (w : World) (path contents : String) : World × Option Failure :=
  let above := (Path.parent? path).getD ""
  let (refused?, tree) :=
    if above.isEmpty then (none, w.tree) else w.tree.makeDirectories above
  let w := { w with tree := tree }
  match refused? with
  | some e => (w, some (.directory above e))
  | none =>
    match w.tree.write path contents with
    | .ok tree => ({ w with tree := tree }, none)
    | .error e => (w, some (.unwritable path e))

def act (w : World) : Action → World × Option Failure
  | .print text => ({ w with stdout := w.stdout ++ text }, none)
  | .report line => ({ w with stderr := w.stderr ++ line ++ "\n" }, none)
  | .write path contents => w.store path contents

def actAll (w : World) : List Action → World × Option Failure
  | [] => (w, none)
  | a :: rest =>
    match w.act a with
    | (w, none) => w.actAll rest
    | (w, some f) => (w, some f)

/-- Runs a script. A failure is reported last; the result is the exit code. -/
def perform (w : World) (s : Script) : World × Nat :=
  let (w, refused?) := w.actAll s.actions
  match refused?.or s.failure with
  | none => (w, 0)
  | some f => ({ w with stderr := w.stderr ++ "error: " ++ f.message ++ "\n" }, 1)

end World

/-- Runs a request. -/
def Request.run (r : Request) (filtering : Filtering) (time : Time) (w : World) : World × Nat :=
  w.perform ((r.script filtering time).answer w.tree)

end Command

end SwiftCodec
