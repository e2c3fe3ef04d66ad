import ServiceIdl.Model.Finding
import ServiceIdl.Shape.Table
import ServiceIdl.Shape.Trait
import ServiceIdl.Text.LineIndex

/-!
# HTTP bindings

The trait `http` binds an operation to a verb and a path. Bindings are grouped
by path in the order in which the paths first occur. A verb that is not known
counts as GET and is reported.
-/

namespace ServiceIdl

/-- An HTTP verb. -/
inductive HttpVerb where
  | get
  | post
  | put
  | patch
  | delete
  | head
  | options
  | trace
deriving DecidableEq, Repr

namespace HttpVerb

/-- The verb that a literal names. Only capitals will do. -/
def ofLiteral? : String → Option HttpVerb
  | "GET" => some .get
  | "POST" => some .post
  | "PUT" => some .put
  | "PATCH" => some .patch
  | "DELETE" => some .delete
  | "HEAD" => some .head
  | "OPTIONS" => some .options
  | "TRACE" => some .trace
  | _ => none

/-- The verb as it is printed in a model. -/
def name : HttpVerb → String
  | .get => "get"
  | .post => "post"
  | .put => "put"
  | .patch => "patch"
  | .delete => "delete"
  | .head => "head"
  | .options => "options"
  | .trace => "trace"

end HttpVerb

/-- What an `http` trait says. -/
structure HttpBinding where
  /-- The verb as written. -/
  method : String
  uri : String
  code : Option Nat
  span : Span
deriving DecidableEq, Repr

namespace HttpBinding

/-- A success code: an integer of 16 bits. -/
def code? (value : Value) : Option Nat :=
  ((value.number?.bind Numeric.integer?).filter fun n => 0 ≤ n ∧ n < 0x10000).map Int.toNat

/-- What an `http` trait says. Its body must have entries, with texts as `method`
and `uri`, and a `code` must be a success code. -/
def ofTrait? (t : Trait) : Option HttpBinding :=
  match t.body with
  | some (.entries _) => do
    let method ← (t.field? "method").bind Value.string?
    let uri ← (t.field? "uri").bind Value.string?
    let code ←
      match t.field? "code" with
      | none => pure none
      | some value => (code? value).map some
    return { method, uri, code, span := t.span }
  | _ => none

/-- The binding among the traits of an operation. Only the last `http` trait
counts. -/
def ofTraits? (traits : List Trait) : Option HttpBinding :=
  (Trait.find? traits "http").bind ofTrait?

/-- The verb of a binding. -/
def verb (binding : HttpBinding) : HttpVerb := (HttpVerb.ofLiteral? binding.method).getD .get

/-- The report on the binding of an operation, if its verb is not known. -/
def reports (binding : HttpBinding) (operation : String) : List Report :=
  if (HttpVerb.ofLiteral? binding.method).isNone then
    [⟨.unsupportedVerb binding.method operation, binding.span⟩]
  else []

end HttpBinding

/-- An operation bound to a verb on a path. -/
structure HttpMethod where
  verb : HttpVerb
  successCode : Nat
  /-- The name of the operation. -/
  name : String
  location : Location
deriving DecidableEq, Repr

/-- All operations bound to one path. -/
structure HttpPath where
  path : String
  methods : List HttpMethod
deriving DecidableEq, Repr

/-- The methods of each path. -/
abbrev HttpPaths := Table String (List HttpMethod)

namespace HttpPaths

/-- Adds the binding of an operation. -/
def add (paths : HttpPaths) (lines : LineIndex) (defaultCode : Nat) (operation : String)
    (binding : HttpBinding) : HttpPaths :=
  let method : HttpMethod :=
    { verb := binding.verb
      successCode := binding.code.getD defaultCode
      name := operation
      location := lines.locate binding.span }
  paths.alter binding.uri fun present => present.getD [] ++ [method]

/-- The paths with their methods. -/
def toList (paths : HttpPaths) : List HttpPath :=
  paths.entries.map fun (path, methods) => { path, methods }

end HttpPaths

end ServiceIdl
