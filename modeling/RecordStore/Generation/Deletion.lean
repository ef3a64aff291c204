import RecordStore.Generation.Message

/-!
The method that deletes rows. It refuses a missing blueprint and one without conditions.
-/
namespace RecordStore.Deletion

open Code

variable (ctx : Context)

/-- The blueprint, if it has conditions. -/
def guarded : Code :=
  ofText "let ::core::option::Option::Some(blueprint) =" ++
    ofText "blueprint.filter(|blueprint| blueprint.has_conditions()) else" ++
    Token.braces
      (stmt (ofText "return ::core::result::Result::Err" ++
        Token.parens (ctx.runtimeName "Error::InvalidDeletionBlueprint"))) ++
    ofText ";"

def body : Code :=
  guarded ctx ++
    stmt (ofText "let query =" ++
      call "::std::format!"
        [template [ctx.record.deleteHead ++ " ", ";"], ofText "blueprint.predicate(1)"]) ++
    prepare ++ ofText "let outcome = statement.execute(&blueprint.values())?;" ++
    ofText "::core::result::Result::Ok(outcome.rows_affected)"

def produce : Producer Unit := do
  let label := ctx.record.deleteMethod
  let m ← Producer.declare
    { label
      name := ← Producer.identifier label
      inputs := [("blueprint", ctx.blueprintArgument)]
      output := ctx.result (ofText "i64")
      attributes :=
        doc ("Delete `" ++ ctx.record.name ++
          "` rows matching `blueprint`; an empty blueprint is refused.")
      body := body ctx }
  Producer.send (.fragment (.methods [m]))

end RecordStore.Deletion
