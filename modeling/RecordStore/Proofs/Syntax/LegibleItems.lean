import RecordStore.Proofs.Syntax.LegiblePhrases

/-!
Legible items. An item that is a struct is legible in the parts of the struct, too, since its fields
are taken over into other code.
-/
namespace RecordStore

namespace Legible

set_option synthInstance.maxSize 100000

/-! ### Items -/

instance : Writing Visibility := ⟨fun v => Code.IsLegible v.tokens⟩

/-- A field is legible in its parts, for its type and its visibility may be used by themselves. -/
instance : Writing FieldItem := ⟨fun f =>
  Legible f.attributes ∧ Legible f.visibility ∧ Legible f.name ∧ Legible f.ty⟩

instance : Writing Fields := ⟨fun
  | .named fields _ => Legible fields
  | .unnamed fields _ => Legible fields
  | .unit => True⟩

instance : Writing StructItem := ⟨fun s =>
  Legible s.attributes ∧ Legible s.visibility ∧ Legible s.name ∧ Legible s.generics ∧
    Legible s.fields⟩

instance : Writing UseTree := ⟨fun t => Code.IsLegible t.tokens⟩

instance : Writing Item.Variant := ⟨fun v => Code.IsLegible v.tokens⟩

/-- An item that is a struct is legible in the parts of the struct, too. -/
instance : Writing Item := ⟨fun i =>
  Code.IsLegible i.tokens ∧ ∀ s, i.form = .struct s → Legible s⟩

section Items

variable {v : Visibility} {p : Path} {b : Bool} {attrs : List Attribute} {n : String} {ty : Ty}
  {g : Generics} {f : Fields} {fs : List FieldItem} {i : Item} {s : StructItem} {c : Code}
  {before : Snippet} {bs : List Bound} {form : ItemForm} {is : List Item}

instance [h : Legible v] : Legible v.tokens := ⟨h.isLegible⟩
instance [h : Legible v] : Legible v.snippet := ⟨h.isLegible⟩
instance : Legible Visibility.inherited := ⟨.nil⟩
instance : Legible Visibility.everyone :=
  ⟨(inferInstance : Legible ([.ident "pub"] : Code)).isLegible⟩

instance [Legible p] : Legible (Visibility.restricted b p) := by
  have ht : Legible (Visibility.restricted b p).tokens := by
    unfold Visibility.tokens
    infer_instance
  exact ⟨ht.isLegible⟩

instance {name : Option String} [ha : Legible attrs] [hv : Legible v] [hn : Legible name]
    [ht : Legible ty] : Legible (FieldItem.mk attrs v name ty) := ⟨ha, hv, hn, ht⟩

instance {f : FieldItem} [h : Legible f] : Legible f.tokens := by
  obtain ⟨attrs, v, name, ty⟩ := f
  obtain ⟨ha, hv, hn, ht⟩ : Legible attrs ∧ Legible v ∧ Legible name ∧ Legible ty := h.isLegible
  unfold FieldItem.tokens
  cases name with
  | none => infer_instance
  | some n =>
    have hn := of_some hn
    infer_instance

instance [h : Legible fs] : Legible (Fields.named fs b) := ⟨h⟩
instance [h : Legible fs] : Legible (Fields.unnamed fs b) := ⟨h⟩
instance : Legible Fields.unit := ⟨trivial⟩

instance [h : Legible f] : Legible f.tokens := by
  unfold Fields.tokens
  cases f with
  | named fs trailing =>
    have hfs : Legible fs := h.isLegible
    infer_instance
  | unnamed fs trailing =>
    have hfs : Legible fs := h.isLegible
    infer_instance
  | unit => infer_instance

instance [Legible g] [Legible f] : Legible (f.structTokens g) := by
  unfold Fields.structTokens
  cases f <;> infer_instance

instance [ha : Legible attrs] [hv : Legible v] [hn : Legible n] [hg : Legible g] [hf : Legible f] :
    Legible (StructItem.mk attrs v n g f) := ⟨ha, hv, hn, hg, hf⟩

instance [h : Legible i] : Legible i.tokens := ⟨h.isLegible.1⟩

/-- What a form says of a struct. -/
class IsPlainForm (form : ItemForm) : Prop where
  not_struct : ∀ s, form ≠ .struct s

instance : IsPlainForm .other := ⟨nofun⟩
instance : IsPlainForm (.enum n) := ⟨nofun⟩
instance : IsPlainForm (.typeName n ty) := ⟨nofun⟩
instance {tree : UseTree} : IsPlainForm (.use b tree) := ⟨nofun⟩
instance : IsPlainForm (.module n) := ⟨nofun⟩

theorem of_parts {layout : Layout} (ha : Legible attrs) (hc : Legible c)
    (hs : ∀ s, form = .struct s → Legible s) : Legible (Item.ofParts form attrs c layout) :=
  ⟨(inferInstance : Legible (Attribute.allTokens attrs ++ c)).isLegible, hs⟩

instance {layout : Layout} [Legible attrs] [Legible c] [hf : IsPlainForm form] :
    Legible (Item.ofParts form attrs c layout) :=
  of_parts inferInstance inferInstance fun s hs => absurd hs (hf.not_struct s)

instance [Legible v] [Legible n] [Legible g] (keyword : String) [Legible keyword] :
    Legible (Item.head v keyword n g) := by
  unfold Item.head
  infer_instance

instance [h : Legible s] : Legible (Item.ofStruct s) := by
  obtain ⟨attrs, v, n, g, f⟩ := s
  obtain ⟨ha, hv, hn, hg, hf⟩ :
    Legible attrs ∧ Legible v ∧ Legible n ∧ Legible g ∧ Legible f := h.isLegible
  unfold Item.ofStruct
  refine of_parts ha ?_ fun s hs => ?_
  · infer_instance
  · cases hs
    exact h

instance [Legible attrs] [Legible v] [Legible n] [Legible g] [Legible f] :
    Legible (Item.ofUnion attrs v n g f) := by
  unfold Item.ofUnion
  infer_instance

instance {o : Option Expr} [Legible attrs] [Legible n] [Legible f] [h : Legible o] :
    Legible (Item.Variant.mk attrs n f o) := by
  have ht : Legible (Item.Variant.mk attrs n f o).tokens := by
    unfold Item.Variant.tokens
    cases o with
    | none => infer_instance
    | some e =>
      have he := of_some h
      infer_instance
  exact ⟨ht.isLegible⟩

instance {v : Item.Variant} [h : Legible v] : Legible v.tokens := ⟨h.isLegible⟩

instance {vs : List Item.Variant} [Legible attrs] [Legible v] [Legible n] [Legible g]
    [Legible vs] : Legible (Item.ofEnum attrs v n g vs b) := by
  unfold Item.ofEnum
  infer_instance

instance [Legible attrs] [Legible v] [Legible n] [Legible g] [Legible ty] :
    Legible (Item.ofAlias attrs v n g ty) := by
  unfold Item.ofAlias
  infer_instance

instance [Legible bs] : Legible (Item.boundTokens bs b) := by
  unfold Item.boundTokens
  infer_instance

instance {o : Option Ty} [Legible attrs] [Legible before] [Legible n] [Legible g] [Legible bs]
    [h : Legible o] : Legible (Item.ofMemberType attrs before n g bs b o) := by
  unfold Item.ofMemberType
  cases o with
  | none => infer_instance
  | some ty =>
    have ht := of_some h
    infer_instance

instance [Legible attrs] [Legible v] [Legible n] [Legible g] :
    Legible (Item.ofForeignType attrs v n g) := by
  unfold Item.ofForeignType
  infer_instance

instance {tree : UseTree} [h : Legible tree] : Legible tree.tokens := ⟨h.isLegible⟩

instance {tree : UseTree} [Legible attrs] [Legible v] [Legible tree] :
    Legible (Item.ofUse attrs v b tree) := by
  unfold Item.ofUse
  infer_instance

instance {o : Option Expr} [Legible attrs] [Legible before] [Legible ty] [h : Legible o] :
    Legible (Item.ofConstant attrs before ty o) := by
  unfold Item.ofConstant
  cases o with
  | none => infer_instance
  | some e =>
    have he := of_some h
    infer_instance

instance {sig : Signature} {o : Option Block} [Legible attrs] [Legible before] [Legible sig]
    [h : Legible o] : Legible (Item.ofFunction attrs before sig o) := by
  unfold Item.ofFunction
  cases o with
  | none => infer_instance
  | some b =>
    have hb := of_some h
    infer_instance

instance {inner : List Attribute} [Legible attrs] [Legible before] [Legible inner]
    [Legible is] [IsPlainForm form] : Legible (Item.ofItems form attrs before inner is) := by
  unfold Item.ofItems
  infer_instance

instance {content : Option (List Attribute × List Item)} [Legible attrs] [Legible before]
    [Legible n] [h : Legible content] : Legible (Item.ofModule attrs before n content) := by
  unfold Item.ofModule
  cases content with
  | none => infer_instance
  | some x =>
    obtain ⟨inner, is⟩ := x
    have hi := (of_some h).fst
    have his := (of_some h).snd
    infer_instance

instance {other : Option String} [Legible attrs] [Legible v] [Legible n] [h : Legible other] :
    Legible (Item.ofCrate attrs v n other) := by
  unfold Item.ofCrate
  cases other with
  | none => infer_instance
  | some m =>
    have hm := of_some h
    infer_instance

instance {trait : Option (Bool × Path)} {inner : List Attribute} [Legible attrs] [Legible before]
    [Legible g] [h : Legible trait] [Legible ty] [Legible inner] [Legible is] :
    Legible (Item.ofImpl attrs before g trait ty inner is) := by
  unfold Item.ofImpl
  cases trait with
  | none => infer_instance
  | some x =>
    obtain ⟨negative, p⟩ := x
    have hp := (of_some h).snd
    infer_instance

instance {inner : List Attribute} [Legible attrs] [Legible before] [Legible n] [Legible g]
    [Legible bs] [Legible inner] [Legible is] :
    Legible (Item.ofTrait attrs before n g bs b inner is) := by
  unfold Item.ofTrait
  infer_instance

instance [Legible attrs] [Legible v] [Legible n] [Legible g] [Legible bs] :
    Legible (Item.ofTraitAlias attrs v n g bs b) := by
  unfold Item.ofTraitAlias
  infer_instance

instance {name : Option String} {d : Delimiter} {rules : Option (List Item.MacroRule)}
    [Legible attrs] [Legible p] [h : Legible name] [Legible c] :
    Legible (Item.ofMacro attrs p name d c rules) := by
  have hend : Legible (Token.operator (if d == .brace then "" else ";")) := by
    split
    · exact inferInstanceAs (Legible ([] : Code))
    · infer_instance
  unfold Item.ofMacro
  cases name with
  | none => infer_instance
  | some n =>
    have hn := of_some h
    infer_instance

instance [h : Legible c] : Legible (Item.verbatim c) := ⟨h.isLegible, nofun⟩

instance [Legible i] : Legible (Stmt.ofItem i) := by
  unfold Stmt.ofItem
  infer_instance

end Items
/-! ### Imports -/

section Trees

variable {n m : String} {t : UseTree} {trees : List UseTree} {b : Bool}

instance [Legible trees] : Legible (UseTree.listTokens trees) := by
  rw [eq_map_of_cons (f := UseTree.listTokens) (g := UseTree.tokens) rfl fun _ _ => rfl]
  infer_instance

instance [Legible n] [Legible t] : Legible (UseTree.path n t) :=
  ⟨(inferInstance : Legible (Token.ident n :: pathMark ++ t.tokens : Code)).isLegible⟩

instance [Legible n] : Legible (UseTree.name n) :=
  ⟨(inferInstance : Legible ([.ident n] : Code)).isLegible⟩

instance [Legible n] [Legible m] : Legible (UseTree.rename n m) :=
  ⟨(inferInstance : Legible ([.ident n, .ident "as", .ident m] : Code)).isLegible⟩

instance : Legible UseTree.glob := ⟨(inferInstance : Legible (Token.operator "*")).isLegible⟩

instance [Legible trees] : Legible (UseTree.group trees b) := by
  have ht : Legible (UseTree.group trees b).tokens := by
    unfold UseTree.tokens
    infer_instance
  exact ⟨ht.isLegible⟩

theorem legible_mapM_id {α : Type} [Writing α] {os : List (Option α)} (h : Legible os) :
    Legible (os.mapM id) := by
  induction os with
  | nil => exact inferInstanceAs (Legible (some ([] : List α)))
  | cons o os ih =>
    have ho := Legible.of_head h
    have hos := ih (Legible.of_tail h)
    rw [List.mapM_cons]
    cases o with
    | none => exact inferInstanceAs (Legible (none : Option (List α)))
    | some a =>
      have ha := Legible.of_some ho
      cases hm : os.mapM id with
      | none => exact inferInstanceAs (Legible (none : Option (List α)))
      | some as =>
        rw [hm] at hos
        have has := Legible.of_some hos
        exact inferInstanceAs (Legible (some (a :: as)))

instance {os : List (Option UseTree)} [h : Legible os] : Legible (os.mapM id) := legible_mapM_id h

end Trees

end Legible
end RecordStore
