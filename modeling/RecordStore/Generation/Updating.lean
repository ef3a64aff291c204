import RecordStore.Generation.Message

/-!
Methods that write a column of the rows that a blueprint selects: one that sets it, and for
columns of bits one that adds bits and one that drops them. The new value is bound first or last,
as the dialect has it.
-/
namespace RecordStore

namespace Updating

open Code

variable (ctx : Context)

def documentation (field : String) : Assignment → String
  | .set => "Set `" ++ field ++ "` on matching rows."
  | .add => "Set bits of `" ++ field ++ "` on matching rows."
  | .drop => "Clear bits of `" ++ field ++ "` on matching rows."

/-- Append a predicate to a query unless it is empty. -/
def appendPredicate : Code :=
  ofText "if !predicate.is_empty()" ++
    Token.braces (ofText "query.push(' '); query.push_str(&predicate);")

def ifBlueprint (c : Code) : Code :=
  ofText "if let ::core::option::Option::Some(blueprint) = blueprint" ++ Token.braces c

/-- Make the query and the values that it binds. -/
def bind (c : Column) (a : Assignment) : Code :=
  let head := template [ctx.record.updateHead a c, ""]
  let value := ctx.valueFrom (ofText "value")
  if ctx.record.dialect.bindsTargetLast then
    ofText "let mut values = ::std::vec::Vec::new();" ++
      ofText "let mut predicate = ::std::string::String::new();" ++
      ifBlueprint (ofText "predicate = blueprint.predicate(1); values = blueprint.values();") ++
      stmt (ofText "let mut query =" ++
        call "::std::format!"
          [head, call "::std::format!" [template ["$", ""], ofText "values.len() + 1"]]) ++
      appendPredicate ++ stmt (ofText "values.push" ++ Token.parens value)
  else
    stmt (ofText "let mut values = ::std::vec!" ++ Token.brackets value) ++
      stmt (ofText "let mut query =" ++ call "::std::format!" [head, text "?"]) ++
      ifBlueprint
        (ofText "let predicate = blueprint.predicate(2);" ++ appendPredicate ++
          ofText "values.extend(blueprint.values());")

def method (c : Column) (a : Assignment) : Producer StoreMethod := do
  let label := ctx.record.writeMethod c a
  Producer.declare
    { label
      name := ← Producer.identifier label
      inputs := [("value", c.ty.tokens), ("blueprint", ctx.blueprintArgument)]
      output := ctx.result (ofText "i64")
      attributes := doc (documentation c.name a)
      body :=
        bind ctx c a ++ prepare ++ ofText "let outcome = statement.execute(&values)?;" ++
          ofText "::core::result::Result::Ok(outcome.rows_affected)" }

def columnMethods (c : Column) : Producer (List StoreMethod) := do
  Producer.need c.imports
  (Assignment.all c).mapM (method ctx c)

/-- Nothing is produced when no column can be written. -/
def produce : Producer Unit := do
  let methods ← (ctx.record.columns.filter Column.isWritable).mapM (columnMethods ctx)
  if methods.flatten.isEmpty then return
  Producer.send (.fragment (.methods methods.flatten))

end Updating
end RecordStore
