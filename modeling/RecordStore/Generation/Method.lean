import RecordStore.Generation.Context

/-!
Methods of stores. What a method is called with is kept apart from its code, because the
repository's trait repeats it.
-/
namespace RecordStore

/-- What a method is called with, and how it passes that on. -/
structure Operation where
  name : String
  /-- The names of the inputs other than the store. -/
  arguments : List String
  signature : Code
  deriving DecidableEq, Repr

namespace Operation

def argument : RecordStore.Parameter → Option (Except Error String)
  | .receiver _ => none
  | .typed _ p _ =>
    match p.form with
    | .name n => some (.ok n)
    | _ => some (.error (.format (tokenText p.tokens)))

/-- The operation that a signature declares; its inputs have to be plain names. -/
def ofSignature (s : Signature) : Except Error Operation := do
  let arguments ← (s.inputs.filterMap argument).mapM id
  return ⟨s.name, arguments, s.tokens⟩

/-- The operation that a text declares. -/
def ofText (text : String) : Except Error Operation :=
  match Signature.read? text with
  | some s => ofSignature s
  | none => .error (.format text)

end Operation

structure StoreMethod where
  /-- The name as the record gives it. -/
  label : String
  /-- The identifier that the name is. -/
  name : String
  inputs : List (String × Code)
  output : Code
  attributes : Code
  body : Code
  deriving DecidableEq, Repr

namespace StoreMethod

def input (i : String × Code) : Code := Code.name i.1 ++ Code.ofText ":" ++ i.2

def signature (m : StoreMethod) : Code :=
  Code.ofText "fn" ++ Code.name m.name ++
    Token.parens (Code.commas (Code.ofText "&self" :: m.inputs.map input)) ++
    Code.ofText "->" ++ m.output

def operation (m : StoreMethod) : Operation := ⟨m.name, m.inputs.map Prod.fst, m.signature⟩

def code (visibility : Code) (m : StoreMethod) : Code :=
  m.attributes ++ visibility ++ m.signature ++ Token.braces m.body

end StoreMethod
end RecordStore
