import RecordStore.Generation.Method

/-!
The store's type with its constructor, and the trait that repeats its methods and is implemented
by passing calls on to them.
-/
namespace RecordStore.Repository

open Code

variable (ctx : Context)

/-- The store; one without methods does not read its fields. -/
def storeCode (hasMethods : Bool) : Code :=
  doc ("Data-access store for `" ++ ctx.record.name ++ "` records.") ++
    (if hasMethods then [] else ofText "#[allow(dead_code)]") ++ ctx.visibility ++
    ofText "struct" ++ name ctx.storeType ++ ofText "<D>" ++
    Token.braces (ofText "db: D, logger:" ++ ctx.runtimeName "Logger") ++
    ofText "impl<D>" ++ name ctx.storeType ++ ofText "<D>" ++
    Token.braces
      (docLine " Wrap `db`; statements go to `logger`, or nowhere when `None`." ++ ctx.visibility ++
        ofText "fn new" ++
        Token.parens
          (ofText "db: D, logger: ::core::option::Option <" ++ ctx.runtimeName "Logger" ++
            ofText ">") ++
        ofText "-> Self" ++
        Token.braces
          (ofText "Self" ++ Token.braces (ofText "db, logger: logger.unwrap_or_default()")))

/-- The declaration of a method. -/
def declaration (o : Operation) : Code := o.signature ++ ofText ";"

/-- The method that passes its inputs on to the store's own. -/
def delegation (o : Operation) : Code :=
  o.signature ++
    Token.braces
      (name ctx.storeType ++ ofText "::<D>::" ++ name o.name ++
        Token.parens (ofText "self ," ++ commas (o.arguments.map name)))

/-- The trait of a store with methods; a store without has none. -/
def code? (operations : List Operation) : Except Error (Option Code) :=
  if operations.isEmpty then .ok none
  else do
    let trait ← identifierOf ctx.record.repositoryName
    return some
      (doc ("Operations of a `" ++ ctx.record.name ++ "` store.") ++ ctx.visibility ++
        ofText "trait" ++ name trait ++ Token.braces (operations.flatMap declaration) ++
        ofText "impl <" ++ ctx.connection ++ ofText ">" ++ name trait ++ ofText "for" ++
        name ctx.storeType ++ ofText "<D>" ++ Token.braces (operations.flatMap (delegation ctx)))

end RecordStore.Repository
