import RecordStore.Generation.RecordCode
import RecordStore.Text.OctetWriter

/-!
The companion module of a source: a first line, the imports that the code of its records needs,
and the code itself in its usual layout. The whole text has to be valid source text again.
-/
namespace RecordStore.Companion

/-- The first line. -/
def header (unit : String) : String :=
  "// Code generated by marlow from " ++ unit ++ ". DO NOT EDIT.\n"

/-- The imports of some records, each path once and sorted. Names that the source does not bind
need no import. -/
def uses (scope : Scope) (records : List RecordCode) : List String :=
  Ty.distinctSorted
    ((records.flatMap RecordCode.needs).filterMap fun n => (scope.resolve n).map UsePath.text)

def useLine (path : String) : String := "use " ++ path ++ ";\n"

def useBlock (paths : List String) : String :=
  if paths.isEmpty then "" else "\n" ++ String.join (paths.map useLine)

/-- The code of a record in its usual layout. -/
def recordText (r : RecordCode) : Except Error String :=
  match r.body with
  | none => .ok ("// " ++ r.name ++ ": all features disabled\n")
  | some body =>
    match SourceFile.read? body with
    | some file => .ok file.render
    | none => .error (.format body)

def assemble (unit : String) (scope : Scope) (records : List RecordCode) : Except Error String := do
  let texts ← records.mapM recordText
  let output := header unit ++ useBlock (uses scope records) ++
    String.join (texts.map fun t => "\n" ++ t)
  if (SourceFile.read? output).isSome then return output
  throw (.format output)

/-- The companion module of a source; an ignored source has an empty one. -/
def generate (unit source : String) (config : Config) : Except Error String := do
  let u ← SourceUnit.ofSource source
  if u.isIgnored then return ""
  let records ← u.records.mapM fun d => do
    let r ← Record.build d u.scope config
    RecordCode.ofRecord r config
  assemble unit u.scope records

/-- Generate into a writer. -/
def generateTo (w : OctetWriter) (unit source : String) (config : Config) :
    Except Error Unit × OctetWriter :=
  match generate unit source config with
  | .error e => (.error e, w)
  | .ok output =>
    let (fits, w) := w.write (Utf8.encode output)
    let result :=
      if !fits then .error (.emit .noRoom)
      else if w.failsFlush then .error (.emit .flush)
      else .ok ()
    (result, w)

end RecordStore.Companion
