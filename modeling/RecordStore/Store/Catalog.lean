import RecordStore.Store.Table

/-!
Four records that ask for all that declarations can ask for: both dialects, soft deletes, columns
of bits, keys made by the database, every type with values, and names of their own.
-/
namespace RecordStore.Catalog

def authorSource : String := "
pub struct Author \x7b
    #[marlow = \"tableName=authors\"]
    pub table: (),
    #[marlow = \"column=system_id&autoIncrement=true\"]
    pub id: i64,
    #[marlow = \"column=name\"]
    pub name: String,
    #[marlow = \"column=university_id\"]
    pub university_id: Option<i64>,
    #[marlow = \"column=flags&bitmask=true\"]
    pub flags: u8
\x7d
"

def multiAutoSource : String := "
#[marlow = \"tableName=multi_auto&dialect=postgres&primaryKey=id&softDelete=deleted_at\"]
pub struct MultiAuto \x7b
    #[marlow = \"column=id&autoIncrement=true\"]
    pub id: i64,
    #[marlow = \"column=name\"]
    pub name: String,
    #[marlow = \"column=status\"]
    pub status: i32,
    #[marlow = \"column=created_at\"]
    pub created_at: Option<NaiveDateTime>,
    #[marlow = \"column=deleted_at\"]
    pub deleted_at: Option<NaiveDateTime>
\x7d
"

def sampleSource : String := "
#[marlow = \"softDelete=gone&defaultLimit=7&storeName=Shelf&blueprintName=SampleFilter\"]
#[marlow = \"recordName=Item&storeFindMethodPrefix=Fetch&storeSelectMethodPrefix=Pluck\"]
#[marlow = \"blueprintRangeFieldSuffix=Between&blueprintLikeFieldSuffix=Matches\"]
pub struct Sample \x7b
    #[marlow = \"autoIncrement\"]
    pub key: u64,
    #[marlow = \"column=active\"]
    pub on: bool,
    #[marlow = \"\"]
    pub ratio: f64,
    #[marlow = \"\"]
    pub small: f32,
    #[marlow = \"column=zlevel\"]
    pub level: i8,
    #[marlow = \"\"]
    pub boxed: Box<i32>,
    #[marlow = \"\"]
    pub title: String,
    #[marlow = \"\"]
    pub note: Option<String>,
    #[marlow = \"\"]
    pub seen: Option<bool>,
    #[marlow = \"\"]
    pub rank: Option<u16>,
    #[marlow = \"\"]
    pub day: NaiveDate,
    #[marlow = \"\"]
    pub clock: NaiveTime,
    #[marlow = \"\"]
    pub at: NaiveDateTime,
    #[marlow = \"\"]
    pub zoned: DateTime<Utc>,
    #[marlow = \"\"]
    pub offset_at: Option<DateTime<FixedOffset>>,
    #[marlow = \"bitmask\"]
    pub mask: u32,
    #[marlow = \"column=gone_at\"]
    pub gone: Option<NaiveDateTime>,
    #[marlow = \"column=-\"]
    pub skipped: i64,
    pub cache: String
\x7d
"

def ledgerSource : String := "
#[marlow = \"dialect=pg&primaryKey=uid&defaultLimit=0\"]
pub struct Ledger \x7b
    #[marlow = \"column=uid\"]
    pub id: i64,
    #[marlow = \"column=total\"]
    pub amount: f64,
    #[marlow = \"bitmask=true\"]
    pub bits: u64,
    #[marlow = \"\"]
    pub memo: String,
    #[marlow = \"\"]
    pub parent: Option<i64>,
    #[marlow = \"\"]
    pub open: bool
\x7d
"

def sourceOf? : String → Option String
  | "Author" => some authorSource
  | "MultiAuto" => some multiAutoSource
  | "Sample" => some sampleSource
  | "Ledger" => some ledgerSource
  | _ => none

/-- A record with the types of its fields that have values. -/
structure Entry where
  record : Record
  typeOf : String → Option FieldType

namespace Entry

def table (e : Entry) : Table := .ofTypes e.record e.typeOf

/-- The fields that have values. -/
def valueFields (e : Entry) : List String := e.record.fieldNames.filter fun f => (e.typeOf f).isSome

def ofDeclaration (d : Declaration) (scope : Scope) : Except Error Entry := do
  let record ← Record.build d scope {}
  return ⟨record, fun field =>
    (d.fields.find? (·.name == field)).bind fun f => FieldType.ofTy? f.ty⟩

end Entry

/-- The record of a name. -/
def entry? (name : String) : Option Entry :=
  (sourceOf? name).bind fun source =>
    match SourceUnit.ofSource source with
    | .ok u => (u.records.head?.bind fun d => (Entry.ofDeclaration d u.scope).toOption)
    | .error _ => none

end RecordStore.Catalog
