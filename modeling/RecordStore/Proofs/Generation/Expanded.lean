import RecordStore.Generation.Expansion
import RecordStore.Proofs.Generation.LegibleProducers
import RecordStore.Proofs.Schema.Scopes

/-!
Records that are expanded beside their declaration. A struct declares by itself what it declares as
an item of a file. Its record does not depend on the file but by the numbers that the file names,
and the text of its code is read as tokens.
-/
namespace RecordStore

open RecordStore.Parser Parser.Extends

/-! ### What a record takes over from its struct -/

/-- A struct by itself. -/
def TypeItem.ofStruct (s : StructItem) : TypeItem := ⟨s.name, !s.generics.isEmpty, some s⟩

namespace Declaration

theorem ofStruct?_eq_ofTypeItem {s : StructItem} {fields : List FieldItem} {trailing : Bool}
    (hg : s.generics.isEmpty = true) (hf : s.fields = .named fields trailing) :
    ofStruct? s = some <$> ofTypeItem (.ofStruct s) := by
  simp [ofStruct?, ofTypeItem, TypeItem.ofStruct, hg, hf]

/-- Only structs that are not generic and whose fields have names declare records. -/
theorem exists_named_of_ofStruct? {s : StructItem} {d : Declaration}
    (h : ofStruct? s = .ok (some d)) : s.generics.isEmpty = true ∧
      ∃ fields trailing, s.fields = .named fields trailing := by
  unfold ofStruct? at h
  split at h
  · cases h
  next hg =>
    split at h
    next fields trailing hf => exact ⟨by simpa using hg, fields, trailing, hf⟩
    · cases h

/-- A declaration is legible in what code takes over from it. -/
instance : Writing FieldDeclaration := ⟨fun f => Legible f.ty⟩
instance : Writing Declaration := ⟨fun d => Legible d.visibility ∧ Legible d.fields⟩

theorem legible_build {s : StructItem} {fields : List FieldItem} {d : Declaration}
    [hs : Legible s] [hf : Legible fields] (h : build s fields = .ok d) : Legible d := by
  obtain ⟨tags, -, h⟩ := bind_eq_ok.mp h
  obtain ⟨fs, hfs, h⟩ := bind_eq_ok.mp h
  cases h
  refine ⟨hs.isLegible.2.1, ⟨fun f hm => ?_⟩⟩
  obtain ⟨item, hi, hfield⟩ := exists_of_mem_forall₂ (mapM_eq_ok.mp hfs).flip hm
  unfold field at hfield
  split at hfield
  · cases hfield
  · obtain ⟨tags, -, hfield⟩ := bind_eq_ok.mp hfield
    cases hfield
    exact (hf.isLegible item hi).2.2.2

theorem legible_ofTypeItem {s : StructItem} {d : Declaration} [hs : Legible s]
    (h : ofTypeItem (.ofStruct s) = .ok d) : Legible d := by
  unfold ofTypeItem at h
  split at h
  · cases h
  dsimp only [TypeItem.ofStruct] at h
  split at h
  next fields trailing hf =>
    have hfields : Legible (Fields.named fields trailing) := hf ▸ ⟨hs.isLegible.2.2.2.2.isLegible⟩
    have hfields : Legible fields := hfields.isLegible
    exact legible_build h
  · cases h

end Declaration

namespace Record

variable {config : Config} {scope : Scope} {d : Declaration} {r : Record}

theorem legible_columnsFrom {record : String} {parts : NameParts} {fields : List FieldDeclaration}
    {used : List String} {columns cs : List Column} (hf : Legible fields) (hc : Legible columns)
    (h : columnsFrom config scope record parts used columns fields = .ok cs) : Legible cs := by
  induction fields generalizing used columns with
  | nil =>
    cases h
    exact hc
  | cons f rest ih =>
    rcases columnsFrom_cons h with ⟨-, h⟩ | ⟨c, -, ha, -, h⟩
    · exact ih hf.of_tail hc h
    · refine ih hf.of_tail ⟨fun o ho => ?_⟩ h
      rcases mem_insertColumn ho with ho | rfl
      · exact hc.isLegible o ho
      · exact ⟨ha.ty ▸ hf.of_head.isLegible.isLegible⟩

theorem legible_of_build [hd : Legible d] (h : build d scope config = .ok r) :
    Legible r.visibility ∧ Legible r.columns := by
  obtain ⟨s, columns, -, hcolumns, rfl, -⟩ := build_eq_ok.mp h
  have hfields : Legible d.fields := hd.isLegible.2
  exact ⟨hd.isLegible.1, legible_columnsFrom hfields inferInstance hcolumns⟩

end Record

/-! ### Structs in a text -/

/-- A struct that stands in a text: among the items of a file, or by itself. -/
inductive StructItem.IsRead (s : StructItem) : Prop where
  | ofFile {source : String} {file : SourceFile} (h : SourceFile.read? source = some file)
    (hs : s ∈ Declaration.structs file.items)
  | alone {source : String} (h : TypeItem.read? source = some (.ofStruct s))

theorem TypeItem.legible_of_read? {source : String} {t : TypeItem} {s : StructItem}
    (h : TypeItem.read? source = some t) (hs : t.struct = some s) : Legible s := by
  obtain ⟨ts, hts, h⟩ := Option.bind_eq_some_iff.mp h
  unfold all? at h
  split at h
  next b ht =>
    cases h
    have hg : (Grammar.ofTokens ts).IsFaithful := Grammar.faithful_ofDepth _
    have hremains : Code.Remains ts := ⟨[], isLegible_of_tokens? hts []⟩
    obtain ⟨attrs, ts', ha, ht⟩ := run_bind_eq.mp ht
    obtain ⟨vis, ts'', hv, ht⟩ := run_bind_eq.mp ht
    have hremains' := Conveys.remains hremains ha
    have hattrs := (Conveys.convey hremains ha).1
    have hvis := (Conveys.convey hremains' hv).1
    obtain ⟨isStruct, _, ⟨⟩, ht⟩ := run_bind_eq.mp ht
    split at ht
    · obtain ⟨s', r, hs', ht⟩ := run_bind_eq.mp ht
      cases ht
      cases hs
      exact (Conveys.convey (Conveys.remains hremains' hv) hs').1
    · obtain ⟨ahead, _, -, ht⟩ := run_bind_eq.mp ht
      obtain ⟨⟨n, isGeneric⟩, _, -, ht⟩ := run_bind_eq.mp ht
      obtain ⟨_, _, -, ht⟩ := run_bind_eq.mp ht
      obtain ⟨_, _, -, ht⟩ := run_bind_eq.mp ht
      dsimp only at ht
      split at ht <;>
        · obtain ⟨_, _, -, ht⟩ := run_bind_eq.mp ht
          cases ht
          cases hs
  next => cases h

theorem StructItem.IsRead.legible {s : StructItem} (h : s.IsRead) : Legible s := by
  cases h with
  | ofFile h hs =>
    obtain ⟨i, hi, he⟩ := List.mem_filterMap.mp hs
    have hl := (SourceFile.legible_of_read? h).isLegible i hi
    split at he
    next hform =>
      cases he
      exact hl.2 _ hform
    next => cases he
  | alone h => exact TypeItem.legible_of_read? h rfl

namespace Expansion

variable {config : Config} {t : TypeItem} {d : Declaration} {r : Record} {code : RecordCode}
  {e : Error}

theorem expand_of_undeclared (h : Declaration.ofTypeItem t = .error e) :
    expand t config = .error e := by
  rw [expand, h]
  rfl

section

variable (hd : Declaration.ofTypeItem t = .ok d)
include hd

theorem expand_of_unbuilt (h : Record.build d .empty config = .error e) :
    expand t config = .error e := by
  rw [expand, hd]
  change (Record.build d .empty config >>= _) = _
  rw [h]
  rfl

/-- What becomes of the code of a record. -/
theorem expand_of_build (h : Record.build d .empty config = .ok r) : expand t config =
    RecordCode.ofRecord r config >>= fun code =>
      match code.body with
      | none => .ok []
      | some body =>
        match tokens? body with
        | some tokens => .ok tokens
        | none => .error (.format body) := by
  rw [expand, hd]
  change (Record.build d .empty config >>= _) = _
  rw [h]
  rfl

theorem expand_of_failed (hr : Record.build d .empty config = .ok r)
    (h : RecordCode.ofRecord r config = .error e) : expand t config = .error e := by
  rw [expand_of_build hd hr, h]
  rfl

theorem expand_of_code (hr : Record.build d .empty config = .ok r)
    (h : RecordCode.ofRecord r config = .ok code) :
    (code.body = none → expand t config = .ok []) ∧
    ∀ body tokens, code.body = some body → tokens? body = some tokens →
      expand t config = .ok tokens := by
  rw [expand_of_build hd hr, h]
  obtain ⟨name, body, needs⟩ := code
  constructor
  · rintro ⟨⟩
    rfl
  · rintro body tokens ⟨⟩ ht
    change (match tokens? body with
      | some tokens => Except.ok tokens
      | none => .error (Error.format body)) = _
    rw [ht]

end

/-- The text of a record whose declaration is legible is read as tokens. -/
theorem exists_tokens_of_body {scope : Scope} {body : String} [Legible d]
    (hr : Record.build d scope config = .ok r) (hc : RecordCode.ofRecord r config = .ok code)
    (hb : code.body = some body) : ∃ tokens, tokens? body = some tokens := by
  obtain ⟨hvisibility, hcolumns⟩ := Record.legible_of_build hr
  rcases RecordCode.ofRecord_eq_ok hc with ⟨-, rfl⟩ | ⟨-, ctx, is, hctx, his, rfl⟩
  · cases hb
  · cases hb
    have hlegible := Context.isLegible_of_ofRecord hctx
    have hordered := RecordCode.legible_ordered hctx hc
    have hitems := RecordCode.legible_items his
    exact RecordCode.exists_tokens? hitems.isLegible

theorem body_eq_none_iff (h : RecordCode.ofRecord r config = .ok code) :
    code.body = none ↔ r.capabilities.isEmpty = true := by
  rcases RecordCode.ofRecord_eq_ok h with ⟨hc, rfl⟩ | ⟨hc, ctx, is, -, -, rfl⟩ <;> simp [hc]

/-- A struct declares by itself what it declares in a file, or is rejected for the same reason, and
then not expanded. Where the struct stands in a text, and the file has no number that one of its
column types names, the expansion fails exactly as the record or its code does; else it gives the
tokens of the record's code, and none where no code is asked for. -/
theorem expand_agrees {s : StructItem} (hg : s.generics.isEmpty = true) {fields : List FieldItem}
    {trailing : Bool} (hf : s.fields = .named fields trailing) (config : Config) :
    Declaration.ofStruct? s = some <$> Declaration.ofTypeItem (.ofStruct s) ∧
    (∀ e, Declaration.ofStruct? s = .error e → expand (.ofStruct s) config = .error e) ∧
    (s.IsRead → ∀ d, Declaration.ofStruct? s = .ok (some d) → ∀ scope : Scope,
      (∀ f ∈ d.fields, f.isKept = true → ∀ n, f.ty.Names n → scope.number n = none) →
      (∀ e, expand (.ofStruct s) config = .error e ↔ Record.build d scope config = .error e ∨
        ∃ r, Record.build d scope config = .ok r ∧ RecordCode.ofRecord r config = .error e) ∧
      ∀ r code, Record.build d scope config = .ok r → RecordCode.ofRecord r config = .ok code →
        (code.body = none ↔ r.capabilities.isEmpty = true) ∧
        (code.body = none → expand (.ofStruct s) config = .ok []) ∧
        ∀ body, code.body = some body → ∃ tokens, tokens? body = some tokens ∧
          expand (.ofStruct s) config = .ok tokens) := by
  have hdeclared := Declaration.ofStruct?_eq_ofTypeItem hg hf
  refine ⟨hdeclared, fun e he => ?_, fun hs d hd scope hscope => ?_⟩
  · rw [hdeclared] at he
    exact expand_of_undeclared (map_eq_error.mp he)
  have hd : Declaration.ofTypeItem (.ofStruct s) = .ok d := by
    rw [hdeclared] at hd
    obtain ⟨d', hd, ⟨⟩⟩ := map_eq_ok.mp hd
    exact hd
  have hstruct := hs.legible
  have hlegible := Declaration.legible_ofTypeItem hd
  have hbuild : Record.build d scope config = Record.build d .empty config :=
    Record.build_congr hscope
  rw [hbuild]
  have hcode {r : Record} {code : RecordCode} (hr : Record.build d .empty config = .ok r)
      (hc : RecordCode.ofRecord r config = .ok code) :
      (code.body = none → expand (.ofStruct s) config = .ok []) ∧
      ∀ body, code.body = some body → ∃ tokens, tokens? body = some tokens ∧
        expand (.ofStruct s) config = .ok tokens := by
    obtain ⟨hnone, hsome⟩ := expand_of_code hd hr hc
    refine ⟨hnone, fun body hb => ?_⟩
    obtain ⟨tokens, ht⟩ := exists_tokens_of_body hr hc hb
    exact ⟨tokens, ht, hsome body tokens hb ht⟩
  refine ⟨fun e => ⟨fun he => ?_, ?_⟩, fun r code hr hc => ⟨body_eq_none_iff hc, hcode hr hc⟩⟩
  · cases hr : Record.build d .empty config with
    | error e' =>
      cases (expand_of_unbuilt hd hr).symm.trans he
      exact .inl rfl
    | ok r =>
      refine .inr ⟨r, rfl, ?_⟩
      cases hc : RecordCode.ofRecord r config with
      | error e' =>
        cases (expand_of_failed hd hr hc).symm.trans he
        rfl
      | ok code =>
        obtain ⟨hnone, hsome⟩ := hcode hr hc
        cases hb : code.body with
        | none => cases (hnone hb).symm.trans he
        | some body =>
          obtain ⟨tokens, -, ht⟩ := hsome body hb
          cases ht.symm.trans he
  · rintro (he | ⟨r, hr, hc⟩)
    · exact expand_of_unbuilt hd he
    · exact expand_of_failed hd hr hc

/-! ### Prices -/

/-- A name for numbers that no column has. -/
def priceSource : String :=
  "type Cents = i64;\nstruct Price \x7b\n #[marlow = \"\"]\n label: String,\n #[marlow = \"\"]\n" ++
    " worth: u32\n\x7d"

/-- Whether a type is one name alone, and which. -/
def loneName? : Ty → Option String
  | .path _ [.mk n _] => some n
  | _ => none

theorem eq_of_names {ty : Ty} {n m : String} (h : loneName? ty = some n)
    (hn : n ≠ "Box" ∧ n ≠ "Option") (hm : ty.Names m) : m = n := by
  unfold loneName? at h
  split at h
  next rooted n' arguments =>
    cases h
    have hlast {name : String} {t : Ty} (ha : Ty.Applies name (.path rooted [.mk n arguments]) t) :
        name = n := by
      obtain ⟨s, hs, hname, -⟩ := ha
      cases hs
      exact hname.symm
    obtain ⟨rooted', arguments', hc⟩ := hm
    cases hc with
    | refl => rfl
    | wrapped hw _ =>
      cases hw with
      | box ha => exact absurd (hlast ha).symm hn.1
    | optional ha _ => exact absurd (hlast ha).symm hn.2
  next => cases h

theorem expand_agrees_price : ∃ file s fields trailing d r code tokens,
    SourceFile.read? priceSource = some file ∧ s ∈ Declaration.structs file.items ∧
    s.generics.isEmpty = true ∧ s.fields = .named fields trailing ∧
    Declaration.ofStruct? s = .ok (some d) ∧
    (Scope.ofItems file.items).number "Cents" = some "i64" ∧
    (∀ f ∈ d.fields, f.isKept = true → ∀ n, f.ty.Names n →
      (Scope.ofItems file.items).number n = none) ∧
    Record.build d (.ofItems file.items) {} = .ok r ∧ r.capabilities.isEmpty = false ∧
    RecordCode.ofRecord r {} = .ok code ∧ code.body.bind tokens? = some tokens ∧
    expand (.ofStruct s) {} = .ok tokens := by
  have hcheck : ((SourceFile.read? priceSource).any fun file =>
      (Scope.ofItems file.items).number "Cents" == some "i64" &&
      (Declaration.structs file.items).any fun s =>
        (Declaration.ofStruct? s).toOption.join.any fun d =>
          (d.fields.all fun f => (loneName? f.ty).any fun n => n != "Box" && n != "Option" &&
            ((Scope.ofItems file.items).number n).isNone) &&
          (Record.build d (.ofItems file.items) {}).toOption.any fun r =>
            (r.name :: r.fieldNames).all Naming.isIdentifier &&
              !r.capabilities.isEmpty) = true := by
    decide +kernel
  obtain ⟨file, hfile, hcheck⟩ := (Option.any_eq_true _ _).mp hcheck
  obtain ⟨hnumber, hcheck⟩ := Bool.and_eq_true_iff.mp hcheck
  obtain ⟨s, hs, hcheck⟩ := List.any_eq_true.mp hcheck
  obtain ⟨d, hd, hcheck⟩ := (Option.any_eq_true _ _).mp hcheck
  obtain ⟨hn, hcheck⟩ := Bool.and_eq_true_iff.mp hcheck
  obtain ⟨r, hr, hcheck⟩ := (Option.any_eq_true _ _).mp hcheck
  obtain ⟨hi, hc⟩ := Bool.and_eq_true_iff.mp hcheck
  have hr := Companion.toOption_eq_some hr
  have hd : Declaration.ofStruct? s = .ok (some d) :=
    Companion.toOption_eq_some (Option.join_eq_some_iff.mp hd)
  have hscope : ∀ f ∈ d.fields, f.isKept = true → ∀ n, f.ty.Names n →
      (Scope.ofItems file.items).number n = none := by
    intro f hm _ m hnames
    obtain ⟨n, he, hn⟩ := (Option.any_eq_true _ _).mp (List.all_eq_true.mp hn f hm)
    simp only [Bool.and_eq_true, bne_iff_ne, Option.isNone_iff_eq_none] at hn
    obtain rfl := eq_of_names he hn.1 hnames
    exact hn.2
  rw [List.all_cons, Bool.and_eq_true_iff, List.all_eq_true] at hi
  obtain ⟨code, hcode⟩ : ∃ code, RecordCode.ofRecord r {} = .ok code :=
    RecordCode.exists_ofRecord (Record.built_of_build hr) hi.1 (fun _ => hi.2) (by decide +kernel)
  obtain ⟨hg, fields, trailing, hfields⟩ := Declaration.exists_named_of_ofStruct? hd
  obtain ⟨-, -, hagrees⟩ := expand_agrees hg hfields {}
  obtain ⟨-, hagrees⟩ := hagrees (.ofFile hfile hs) d hd _ hscope
  obtain ⟨hnone, -, hsome⟩ := hagrees r code hr hcode
  have hc : r.capabilities.isEmpty = false := by simpa using hc
  cases hb : code.body with
  | none => exact absurd (hnone.mp hb) (by simp [hc])
  | some body =>
    obtain ⟨tokens, ht, he⟩ := hsome body hb
    exact ⟨file, s, fields, trailing, d, r, code, tokens, hfile, hs, hg, hfields, hd,
      eq_of_beq hnumber, hscope, hr, hc, hcode, by rw [hb]; exact ht, he⟩

end Expansion

end RecordStore
