import RecordStore.Generation.Code
import RecordStore.Schema.Statement

/-!
What the producers of a record share: the names they write, and pieces that occur in more than
one of them.
-/
namespace RecordStore

structure Context where
  record : Record
  /-- The path under which code finds its runtime. -/
  runtime : Code
  visibility : Code
  recordType : String
  storeType : String
  blueprintType : String

/-- Log a query and prepare a statement for it. -/
def Code.prepare : Code :=
  ofText "self.logger.log(&query); let mut statement = self.db.prepare(&query)?;"

namespace Context

/-- The context of a record. The path and all names have to be well formed. -/
def ofRecord (r : Record) (config : Config) : Except Error Context := do
  let runtime ←
    match Path.read? config.runtime with
    | some p => pure p.tokens
    | none => .error (.format config.runtime)
  let visibility := match config.access with
    | .everyone => Visibility.everyone
    | .inherited => r.visibility
  return {
    record := r
    runtime
    visibility := visibility.tokens
    recordType := ← identifierOf r.name
    storeType := ← identifierOf r.storeName
    blueprintType := ← identifierOf r.blueprintName }

variable (ctx : Context)

open Code

/-- Something of the runtime. -/
def runtimeName (rest : String) : Code := ctx.runtime ++ ofText ("::" ++ rest)

/-- A value made from an expression. -/
def valueFrom (e : Code) : Code := ctx.runtimeName "Value::from" ++ Token.parens e

/-- The type of what may fail. -/
def result (ok : Code) : Code :=
  ofText "::core::result::Result <" ++ ok ++ comma ++ ctx.runtimeName "Error" ++ ofText ">"

/-- The type of an optional blueprint. -/
def blueprintArgument : Code :=
  ofText "::core::option::Option < &" ++ name ctx.blueprintType ++ ofText ">"

/-- A missing blueprint reads as the default one. -/
def resolveBlueprint : Code :=
  ofText "let fallback; let blueprint = match blueprint" ++
    Token.braces
      (ofText "::core::option::Option::Some(blueprint) => blueprint," ++
        ofText "::core::option::Option::None =>" ++
        Token.braces
          (ofText "fallback = <" ++ name ctx.blueprintType ++
            ofText "as ::core::default::Default>::default(); &fallback")) ++
    ofText ";"

def connection : Code := ofText "D:" ++ ctx.runtimeName "Connection"

/-- Methods of the store for connections. -/
def storeImpl (methods : Code) : Code :=
  ofText "impl <" ++ ctx.connection ++ ofText ">" ++ name ctx.storeType ++ ofText "<D>" ++
    Token.braces methods

end Context
end RecordStore
