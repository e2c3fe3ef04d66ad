import ServiceIdl.Resolve.Service
import ServiceIdl.Syntax.Document

/-!
# Resolving a document

`resolve` turns a text into its service model and diagnostics. Services come
first, then structures, enumerations and `apply` statements. A text that is no
document has the empty model and one diagnostic. Only a corrupt sequence of
events, or a tree that no document has, would be a `Fault`.
-/

namespace ServiceIdl

/-- Why a resolution ended early, which no document causes. -/
inductive Fault where
  | stream (error : StreamError)
  | tree (defect : Defect)
deriving DecidableEq, Repr

/-- What is said about a fault. -/
def Fault.message : Fault → String
  | .stream error => "tree construction failed: " ++ error.message
  | .tree defect => "syntax tree invariant violated: " ++ defect.message

/-- The title of a model: that of the first service or else the name of its
interface; without services, the namespace. -/
def ServiceModel.titleFrom (header : Option ServiceHeader) (namespaceName : Option String) :
    String :=
  match header with
  | some header => header.title.getD header.interface
  | none => namespaceName.getD ""

/-- The major version of a model: that of the first service, if it has one. -/
def ServiceModel.majorVersionFrom (header : Option ServiceHeader) (default : Nat) : Nat :=
  ((header.bind ServiceHeader.version).bind leadingMajorVersion?).getD default

namespace ShapeIndex

/-- Reports that a statement applies traits from outside a declaration. -/
def reportApply (statement : ApplyStatement) : Reporting Unit := do
  let target := (← ApplyStatement.target statement).text
  Reporting.report (.applied target) statement.span

/-- The model of an indexed document. -/
def resolveModel (index : ShapeIndex) (lines : LineIndex) (path : String) (options : Options) :
    Reporting ServiceModel := do
  let services ← (index.records .service).mapM (index.resolveService lines options)
  let types ← (index.records .structureShape).mapM (index.resolveStructure lines)
  let enums ← (index.records .enum).mapM fun record => do
    let resolved ← index.resolveEnum lines record
    return resolved
  let _ ← index.applies.mapM reportApply
  let header := (services.map Prod.snd).head?
  return {
    sourcePath := path
    title := ServiceModel.titleFrom header index.namespaceName
    majorVersion := ServiceModel.majorVersionFrom header options.defaultMajorVersion
    interfaces := services.map Prod.fst
    types
    enums
    unions := [] }

/-- The resolution of an indexed document. -/
def resolve (index : ShapeIndex) (lines : LineIndex) (path : String) (options : Options) :
    Except Defect Resolution :=
  match index.resolveModel lines path options with
  | .error defect => .error defect
  | .ok (model, reports) =>
    .ok { model, diagnostics := (Log.empty.insertReports path lines reports).entries }

end ShapeIndex

/-- The resolution of a text that is no document. -/
def Resolution.ofRejection (lines : LineIndex) (path : String) (options : Options)
    (rejection : Rejection) : Resolution :=
  { model := .empty path options.defaultMajorVersion
    diagnostics := [.ofReport path lines ⟨.rejected rejection, .point rejection.offset⟩] }

/-- The resolution of a text, which the caller names by a path. -/
def resolve (text path : String) (options : Options) : Except Fault Resolution :=
  match documentTree text with
  | .error error => .error (.stream error)
  | .ok (.error rejection) => .ok (.ofRejection (.ofText text) path options rejection)
  | .ok (.ok tree) =>
    let resolution := do
      let idl ← Idl.ofTree tree
      let index ← ShapeIndex.ofIdl idl
      index.resolve (.ofText text) path options
    resolution.mapError .tree

/-- The resolutions of independent texts, each with its path. -/
def resolveAll (documents : List (String × String)) (options : Options) :
    List (Except Fault Resolution) :=
  documents.map fun (text, path) => resolve text path options

end ServiceIdl
