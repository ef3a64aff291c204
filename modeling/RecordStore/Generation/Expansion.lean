import RecordStore.Generation.RecordCode

/-!
The code of a single record that stands beside its declaration, where no imports are needed.
-/
namespace RecordStore.Expansion

/-- The tokens that a declaration expands to. -/
def expand (t : TypeItem) (config : Config) : Except Error Code := do
  let d ← Declaration.ofTypeItem t
  let r ← Record.build d .empty config
  let output ← RecordCode.ofRecord r config
  match output.body with
  | none => return []
  | some body =>
    match tokens? body with
    | some tokens => return tokens
    | none => throw (.format body)

end RecordStore.Expansion
