import RecordStore.Proofs.Schema.Identifiers
import RecordStore.Proofs.Syntax.ItemExtension
import RecordStore.Proofs.Syntax.Lexemes
import RecordStore.Source.Declaration

/-!
The names that a source declares stand in it: the names of the items of a file, those of the fields
of its structs, and the words of its imports are identifiers of the text. So nothing that may stand
around a name is in one.
-/
namespace RecordStore

open RecordStore.Parser RecordStore.Parser.Extends

/-! ### What parsers ensure -/

namespace Parser

variable {α β : Type} {ok : Token → Prop} {p : Parser α} {P Q : α → Prop}

/-- A word of a path: an identifier, or one of the words that lead paths. -/
structure IsPathWord (ok : Token → Prop) (n : String) : Prop where
  ok : ok (.ident n)
  allowed : (!keywords.contains n || (n == "super" || n == "self" || n == "crate") || n == "try") =
    true

/-- A word that stands for a name; an underscore stands for none. -/
structure IsNewName (ok : Token → Prop) (n : String) : Prop where
  ok : ok (.ident n)
  allowed : n = "_" ∨ keywords.contains n = false

theorem IsPathWord.of_name {n : String} (h : ok (.ident n)) (hk : keywords.contains n = false) :
    IsPathWord ok n := ⟨h, by rw [hk]; rfl⟩

/-- Off tokens that are all of one kind the parser reads something with a property, and it leaves
tokens of that kind. -/
structure Ensures (ok : Token → Prop) (p : Parser α) (P : α → Prop) : Prop where
  reads : ∀ {ts a r}, (∀ t ∈ ts, ok t) → p.run ts = some (a, r) → P a ∧ ∀ t ∈ r, ok t

namespace Ensures

theorem of_extends (p : Parser α) [hp : Extends p p] : Ensures ok p fun _ => True :=
  ⟨fun hs h => ⟨trivial, fun t ht => hs t ((hp.suffix h).mem ht)⟩⟩

theorem bind {f : α → Parser β} {R : β → Prop} (hp : Ensures ok p P)
    (hf : ∀ a, P a → Ensures ok (f a) R) : Ensures ok (p >>= f) R where
  reads hs h := by
    obtain ⟨a, m, ha, hb⟩ := run_bind_eq.mp h
    obtain ⟨hP, hm⟩ := hp.reads hs ha
    exact (hf a hP).reads hm hb

/-- What is read before may be anything. -/
theorem after [Extends p p] {f : α → Parser β} {R : β → Prop} (hf : ∀ a, Ensures ok (f a) R) :
    Ensures ok (p >>= f) R := (of_extends p).bind fun a _ => hf a

theorem pure {a : α} (h : P a) : Ensures ok (pure a : Parser α) P where
  reads hs hr := by
    cases hr
    exact ⟨h, hs⟩

theorem ite {c : Prop} [Decidable c] {q : Parser α} (hp : Ensures ok p P) (hq : Ensures ok q P) :
    Ensures ok (if c then p else q) P := by
  split
  · exact hp
  · exact hq

theorem mono (hp : Ensures ok p P) (h : ∀ a, P a → Q a) : Ensures ok p Q :=
  ⟨fun hs hr => (hp.reads hs hr).imp_left (h _)⟩

theorem fail : Ensures ok (fail : Parser α) P := ⟨fun _ h => by cases h⟩

theorem take : Ensures ok take ok where
  reads {ts a r} hs h := by
    cases ts with
    | nil => cases h
    | cons t ts =>
      cases h
      exact List.forall_mem_cons.mp hs

theorem anyWord : Ensures ok anyWord fun n => ok (.ident n) := by
  unfold Parser.anyWord
  refine take.bind fun t ht => ?_
  cases t with
  | ident n => exact pure ht
  | _ => exact fail

/-- What is found out in front of the parser holds of what it is run on. -/
theorem require (b : Bool) : Ensures ok (require b) fun _ => b = true where
  reads hs h := by
    unfold Parser.require at h
    split at h
    next hb =>
      cases h
      exact ⟨hb, hs⟩
    next => cases h

theorem name : Ensures ok name fun n => ok (.ident n) ∧ keywords.contains n = false := by
  unfold Parser.name
  exact anyWord.bind fun n hn => (require _).bind fun _ hk => pure ⟨hn, by simpa using hk⟩

/-- A name, or one of the words that are none. -/
theorem wordOrName (w : String) : Ensures ok (do if ← sees w then Parser.anyWord else Parser.name)
    fun n => ok (.ident n) ∧ (n = w ∨ keywords.contains n = false) where
  reads {ts n r} hs h := by
    obtain ⟨b, m, hb, h⟩ := run_bind_eq.mp h
    cases hb
    split at h
    next hw =>
      have hr := anyWord.reads hs h
      cases ts with
      | nil => cases h
      | cons t ts =>
        cases t with
        | ident m =>
          cases h
          exact ⟨⟨hr.1, .inl (eq_of_beq hw)⟩, hr.2⟩
        | _ => cases h
    next =>
      obtain ⟨⟨hn, hk⟩, hr⟩ := name.reads hs h
      exact ⟨⟨hn, .inr hk⟩, hr⟩

theorem wordOrName_bind {f : String → Parser β} {R : β → Prop} (w : String)
    (hf : ∀ n, ok (.ident n) → n = w ∨ keywords.contains n = false → Ensures ok (f n) R) :
    Ensures ok (do if ← sees w then Parser.anyWord >>= f else Parser.name >>= f) R := by
  have hr := (wordOrName w).bind fun n hn => hf n hn.1 hn.2
  rw [bind_assoc] at hr
  refine cast (congrArg (Ensures ok · R) (congrArg _ (funext fun b => ?_))) hr
  split <;> rfl

/-- A parser that reads a word of a path first, or something else. -/
theorem pathWord {f : String → Parser β} {q : Parser β} {R : β → Prop}
    (hf : ∀ n, IsPathWord ok n → Ensures ok (f n) R) (hq : Ensures ok q R) :
    Ensures ok (do
      if (← seesName) || (← Grammar.seesRoot) || (← sees "try") then
        let n ← Parser.anyWord
        f n
      else q) R where
  reads {ts a r} hs h := by
    obtain ⟨b₁, m₁, h₁, h⟩ := run_bind_eq.mp h
    cases h₁
    obtain ⟨b₂, m₂, h₂, h⟩ := run_bind_eq.mp h
    cases h₂
    obtain ⟨b₃, m₃, h₃, h⟩ := run_bind_eq.mp h
    cases h₃
    split at h
    next hw =>
      obtain ⟨n, m, hn, h⟩ := run_bind_eq.mp h
      obtain ⟨hok, hm⟩ := anyWord.reads hs hn
      cases ts with
      | nil => cases hn
      | cons t ts =>
        cases t with
        | ident k =>
          cases hn
          exact (hf n ⟨hok, hw⟩).reads hm h
        | _ => cases hn
    next => exact hq.reads hs h

theorem delimited (hp : Ensures ok p P) (d : Delimiter) : Ensures ok (delimited d p) P := by
  unfold Parser.delimited
  exact after fun _ => after fun _ => hp.bind fun _ ha => after fun _ => after fun _ => pure ha

theorem rounds {f : List Token → Parser α} (h : ∀ n, Ensures ok (f n) P) :
    Ensures ok (rounds >>= f) P :=
  ⟨fun {ts _ _} hs hr => (h (.punct ';' false :: ts)).reads hs hr⟩

theorem separatedUntil {stop : Parser Bool} [Extends stop stop] (hp : Ensures ok p P)
    (mark : String) : Ensures ok (separatedUntil stop mark p) fun as => ∀ a ∈ as.1, P a := by
  have hgo (n : List Token) :
      Ensures ok (separatedUntil.go stop mark p n) fun as => ∀ a ∈ as.1, P a := by
    induction n with
    | nil => exact fail
    | cons t n ih =>
      unfold separatedUntil.go
      refine after fun _ => ite (pure (List.forall_mem_nil _)) ?_
      refine hp.bind fun a ha => after fun _ => ite (pure ?_) ?_
      · exact List.forall_mem_singleton.mpr ha
      · refine after fun _ => ih.bind fun as has => ?_
        exact pure (List.forall_mem_cons.mpr ⟨ha, has⟩)
  unfold Parser.separatedUntil
  exact rounds fun n => (hgo n).bind fun _ has => pure has

theorem commaList (hp : Ensures ok p P) : Ensures ok (commaList p) fun as => ∀ a ∈ as.1, P a :=
  hp.separatedUntil ","

theorem whileSees {c : Parser Bool} [Extends c c] (hp : Ensures ok p P) :
    Ensures ok (whileSees c p) fun as => ∀ a ∈ as, P a := by
  have hgo (n : List Token) : Ensures ok (whileSees.go c p n) fun as => ∀ a ∈ as, P a := by
    induction n with
    | nil => exact fail
    | cons t n ih =>
      unfold whileSees.go
      refine after fun _ => ite ?_ (pure (List.forall_mem_nil _))
      refine hp.bind fun a ha => ih.bind fun as has => ?_
      exact pure (List.forall_mem_cons.mpr ⟨ha, has⟩)
  exact rounds hgo

end Ensures
end Parser

/-! ### Items without names -/

/-- Things that may be items. -/
class HasForm (α : Type) where
  form? : α → Option ItemForm

instance : HasForm Item := ⟨fun i => some i.form⟩

instance : HasForm (Option Item) := ⟨fun o => o.map Item.form⟩

/-- A thing whose form tells no names. -/
class Nameless {α : Type} [HasForm α] (a : α) : Prop where
  form : ∀ i, HasForm.form? a = some i → i = .other

namespace Nameless

instance : Nameless (none : Option Item) := ⟨nofun⟩

instance (i : Item) [h : Nameless i] : Nameless (some i) := ⟨h.form⟩

instance {α : Type} [HasForm α] {c : Prop} [Decidable c] {a b : α} [ha : Nameless a]
    [hb : Nameless b] : Nameless (if c then a else b) := by
  split
  · exact ha
  · exact hb

instance {α : Type} {f : α → Item} [h : ∀ a, Nameless (f a)] (o : Option α) :
    Nameless (o.map f) := by
  cases o with
  | none => exact ⟨nofun⟩
  | some a => exact ⟨(h a).form⟩

theorem of_form {i : Item} (h : i.form = .other) : Nameless i where
  form _ hi := (Option.some.inj hi).symm.trans h

section

open Item

variable (attrs : List Attribute) (vis : Visibility) (name : String) (generics : Generics)

instance (tokens : List Token) : Nameless (verbatim tokens) := of_form rfl

instance (fields : Fields) : Nameless (ofUnion attrs vis name generics fields) := of_form rfl

instance (head : Snippet) (ty : Ty) (value : Option Expr) :
    Nameless (ofConstant attrs head ty value) := of_form rfl

instance (before : Snippet) (sig : Signature) (b : Option Block) :
    Nameless (ofFunction attrs before sig b) := of_form rfl

instance (head : Snippet) (inner : List Attribute) (items : List Item) :
    Nameless (ofItems .other attrs head inner items) := of_form rfl

instance (other : Option String) : Nameless (ofCrate attrs vis name other) := of_form rfl

instance (before : Snippet) (trait : Option (Bool × Path)) (ty : Ty) (inner : List Attribute)
    (items : List Item) : Nameless (ofImpl attrs before generics trait ty inner items) := of_form rfl

instance (before : Snippet) (bounds : List Bound) (trailing : Bool) (inner : List Attribute)
    (items : List Item) :
    Nameless (ofTrait attrs before name generics bounds trailing inner items) := of_form rfl

instance (bounds : List Bound) (trailing : Bool) :
    Nameless (ofTraitAlias attrs vis name generics bounds trailing) := of_form rfl

instance (p : Path) (n : Option String) (d : Delimiter) (tokens : List Token)
    (rules : Option (List MacroRule)) : Nameless (ofMacro attrs p n d tokens rules) := of_form rfl

end

end Nameless

/-- A parser that reads nothing with a name. -/
class ReadsNameless {α : Type} [HasForm α] (p : Parser α) : Prop where
  nameless : ∀ {ts a r}, p.run ts = some (a, r) → Nameless a

namespace ReadsNameless

variable {α β γ : Type} [HasForm α]

instance (a : α) [h : Nameless a] : ReadsNameless (pure a : Parser α) where
  nameless hr := by
    cases hr
    exact h

instance instBind {p : Parser β} {f : β → Parser α} [hf : ∀ b, ReadsNameless (f b)] :
    ReadsNameless (p >>= f) where
  nameless h := by
    obtain ⟨b, m, -, hb⟩ := run_bind_eq.mp h
    exact (hf b).nameless hb

instance {p : Parser (β × γ)} {f : β × γ → Parser α} [hf : ∀ b c, ReadsNameless (f (b, c))] :
    ReadsNameless (p >>= f) := @instBind _ _ _ p f fun ⟨b, c⟩ => hf b c

instance {c : Prop} [Decidable c] {p q : Parser α} [hp : ReadsNameless p] [hq : ReadsNameless q] :
    ReadsNameless (if c then p else q) := by
  split
  · exact hp
  · exact hq

instance {p : Parser Item} [hp : ReadsNameless p] : ReadsNameless (some <$> p) where
  nameless h := by
    rw [← bind_pure_comp] at h
    obtain ⟨i, m, hi, hr⟩ := run_bind_eq.mp h
    cases hr
    have hn := hp.nameless hi
    infer_instance

end ReadsNameless

namespace Grammar

set_option synthInstance.maxSize 100000

variable {g : Grammar} (attrs : List Attribute) (vis : Visibility)

instance (valueless : Bool) (before : Snippet) :
    ReadsNameless (constantItem g valueless attrs before) := by
  unfold constantItem
  dsimp only
  infer_instance

instance : ReadsNameless (unionItem g attrs vis) := by
  unfold unionItem
  infer_instance

instance (named : Bool) : ReadsNameless (macroItem named attrs) := by
  unfold macroItem
  infer_instance

instance : ReadsNameless (implItem g attrs vis) := by
  unfold implItem
  dsimp only
  infer_instance

instance : ReadsNameless (traitItem g attrs vis) := by
  unfold traitItem
  infer_instance

instance : ReadsNameless (externCrate attrs vis) := by
  unfold externCrate
  infer_instance

instance : ReadsNameless (foreignItems g attrs) := by
  unfold foreignItems
  infer_instance

end Grammar

/-! ### Structs -/

/-- The names of a field, of a struct, of an import and of an item, where it has any, are such
identifiers. -/
def FieldItem.NameIs (ok : Token → Prop) (f : FieldItem) : Prop :=
  ∀ n, f.name = some n → ok (.ident n)

structure StructItem.NamesAre (ok : Token → Prop) (s : StructItem) : Prop where
  name : IsPathWord ok s.name
  fields : ∀ fields trailing, s.fields = .named fields trailing → ∀ f ∈ fields, f.NameIs ok

namespace UseTree

mutual

def NamesAre (ok : Token → Prop) : UseTree → Prop
  | path n t => IsPathWord ok n ∧ NamesAre ok t
  | name n => IsPathWord ok n
  | rename n a => IsPathWord ok n ∧ IsNewName ok a
  | glob => True
  | group ts _ => ListNamesAre ok ts

def ListNamesAre (ok : Token → Prop) : List UseTree → Prop
  | [] => True
  | t :: ts => NamesAre ok t ∧ ListNamesAre ok ts

end

theorem listNamesAre {ok : Token → Prop} {ts : List UseTree} (h : ∀ t ∈ ts, t.NamesAre ok) :
    ListNamesAre ok ts := by
  induction ts with
  | nil => trivial
  | cons t ts ih =>
    obtain ⟨ht, hts⟩ := List.forall_mem_cons.mp h
    exact ⟨ht, ih hts⟩

end UseTree

def ItemForm.NamesAre (ok : Token → Prop) : ItemForm → Prop
  | struct s => s.NamesAre ok
  | enum n => IsPathWord ok n
  | typeName n _ => IsPathWord ok n
  | use _ tree => tree.NamesAre ok
  | module n => IsPathWord ok n
  | other => True

def Item.NamesAre (ok : Token → Prop) (i : Item) : Prop := i.form.NamesAre ok

namespace Grammar

open Ensures

set_option synthInstance.maxSize 100000

variable {g : Grammar} [Deepens g g] {ok : Token → Prop}

theorem namedField_ensures (fields : Parser (List FieldItem)) [Extends fields fields] :
    Ensures ok (namedField g fields) (FieldItem.NameIs ok) := by
  have hn {n : String} (h : ok (.ident n)) (attrs : List Attribute) (vis : Visibility) (ty : Ty) :
      FieldItem.NameIs ok ⟨attrs, vis, some n, ty⟩ := by
    rintro _ ⟨⟩
    exact h
  unfold namedField
  refine after fun attrs => after fun vis => after fun _ => ite ?_ ?_
  · exact anyWord.bind fun n h => after fun _ => after fun _ => after fun _ => after fun _ =>
      ite (after fun _ => pure (hn h _ _ _)) (after fun _ => pure (hn h _ _ _))
  · exact name.bind fun n h => after fun _ => after fun _ => after fun _ => after fun _ =>
      ite (after fun _ => pure (hn h.1 _ _ _)) (after fun _ => pure (hn h.1 _ _ _))

theorem namedFields_ensures : Ensures ok (namedFields g) fun fs =>
    ∀ fields trailing, fs = .named fields trailing → ∀ f ∈ fields, f.NameIs ok := by
  have hgo (n : List Token) :
      Ensures ok (namedFields.go g n) fun fs => ∀ f ∈ fs.1, f.NameIs ok := by
    cases n with
    | nil => exact fail
    | cons t n =>
      have hp : Extends (namedFields.go g n) (namedFields.go g n) := by
        simpa using @namedFields_go g g _ n []
      unfold namedFields.go
      exact ((namedField_ensures _).commaList).delimited _
  unfold namedFields
  refine Ensures.rounds fun n => (hgo n).bind fun fs hfs => pure fun fields trailing h => ?_
  cases h
  exact hfs

theorem structItem_ensures (attrs : List Attribute) (vis : Visibility) :
    Ensures ok (structItem g attrs vis) (StructItem.NamesAre ok) := by
  unfold structItem
  refine after fun _ => name.bind fun n ⟨hok, hk⟩ => after fun _ => after fun _ => after fun _ =>
    after fun _ => ite ?_ (after fun _ => ite ?_ ?_)
  · refine bind (P := fun fs => ∃ fields trailing, fs = .unnamed fields trailing) ?_ fun fs hfs =>
      after fun _ => after fun _ => pure ⟨.of_name hok hk, ?_⟩
    · unfold unnamedFields
      exact after fun fs => pure ⟨_, _, rfl⟩
    · obtain ⟨_, _, rfl⟩ := hfs
      exact nofun
  · exact namedFields_ensures.bind fun fields hf => pure ⟨.of_name hok hk, hf⟩
  · exact after fun _ => pure ⟨.of_name hok hk, nofun⟩

theorem orVerbatim_ensures {p : Parser (Option Item)}
    (hp : Ensures ok p fun o => ∀ i ∈ o, i.NamesAre ok) :
    Ensures ok (orVerbatim p) (Item.NamesAre ok) := by
  have ht : Ensures ok (withTokens p) fun x => ∀ i ∈ x.1, i.NamesAre ok :=
    ⟨fun hs h => hp.reads hs (run_withTokens_eq.mp h).1⟩
  unfold orVerbatim
  refine ht.bind fun x hx => pure ?_
  obtain ⟨o, tokens⟩ := x
  cases o with
  | none => trivial
  | some i => exact hx i rfl

theorem ensures_of_nameless (p : Parser (Option Item)) [Extends p p] [hp : ReadsNameless p] :
    Ensures ok p fun o => ∀ i ∈ o, i.NamesAre ok where
  reads hs h := by
    refine ⟨fun i hi => ?_, ((of_extends p).reads hs h).2⟩
    have hn := hp.nameless h
    cases hi
    rw [Item.NamesAre, hn.form _ rfl]
    trivial

/-! ### Other names -/

theorem ensures_some {p : Parser Item} (hp : Ensures ok p (Item.NamesAre ok)) :
    Ensures ok (some <$> p) fun o => ∀ i ∈ o, i.NamesAre ok := by
  rw [← bind_pure_comp]
  refine hp.bind fun i hi => pure ?_
  rintro _ ⟨⟩
  exact hi

theorem enumItem_ensures (attrs : List Attribute) (vis : Visibility) :
    Ensures ok (enumItem g attrs vis) (Item.NamesAre ok) := by
  unfold enumItem
  exact after fun _ => name.bind fun n hn => after fun _ => after fun _ => after fun _ =>
    pure (IsPathWord.of_name hn.1 hn.2)

theorem typeName_ensures (whereBefore whereAfter : Bool) :
    Ensures ok (typeName g whereBefore whereAfter) fun t => IsPathWord ok t.name := by
  unfold typeName
  refine after fun _ => name.bind fun n hn => ?_
  have hp := IsPathWord.of_name hn.1 hn.2
  refine after fun _ => after fun _ => after fun _ => ite ?_ ?_
  all_goals
    exact after fun _ => after fun _ => ite (after fun _ => after fun _ => pure hp)
      (after fun _ => after fun _ => pure hp)

theorem moduleItem_ensures (attrs : List Attribute) (vis : Visibility) :
    Ensures ok (moduleItem g attrs vis) (Item.NamesAre ok) := by
  unfold moduleItem
  refine after fun _ => after fun _ => wordOrName_bind "try" fun n hn hk => ?_
  have hp : IsPathWord ok n := by
    rcases hk with rfl | hk
    · exact ⟨hn, by decide⟩
    · exact .of_name hn hk
  exact after fun _ => ite (pure hp) (after fun _ => pure hp)

theorem newName_ensures : Ensures ok newName (IsNewName ok) :=
  (wordOrName "_").mono fun _ h => ⟨h.1, h.2⟩

theorem mem_of_mapM_id {α : Type} {as : List (Option α)} {bs : List α} (h : as.mapM id = some bs)
    {b : α} (hb : b ∈ bs) : some b ∈ as := by
  induction as generalizing bs with
  | nil =>
    cases h
    cases hb
  | cons a as ih =>
    simp only [List.mapM_cons, Option.bind_eq_bind, Option.bind_eq_some_iff] at h
    obtain ⟨c, rfl, cs, hcs, h⟩ := h
    cases h
    rcases List.mem_cons.mp hb with rfl | hb
    · exact List.mem_cons_self
    · exact List.mem_cons_of_mem _ (ih hcs hb)

/-- All trees of imports have such names. -/
def TreesAre (ok : Token → Prop) (g : Grammar) : Prop :=
  ∀ b, Ensures ok (g.useTree b) fun o => ∀ t ∈ o, t.NamesAre ok

omit [Deepens g g] in
theorem useTreeBody_ensures (hg : TreesAre ok g) (anyRoot : Bool) :
    Ensures ok (useTreeBody g anyRoot) fun o => ∀ t ∈ o, t.NamesAre ok := by
  unfold useTreeBody
  refine Ensures.pathWord (fun n hn => ?_) ?_
  · refine after fun _ => ite ((hg _).bind fun t ht => ?_) (after fun _ => ite ?_ ?_)
    · cases t with
      | none => exact fail
      | some t =>
        refine pure ?_
        rintro _ ⟨⟩
        exact ⟨hn, ht t rfl⟩
    · refine newName_ensures.bind fun a ha => pure ?_
      rintro _ ⟨⟩
      exact ⟨hn, ha⟩
    · refine pure ?_
      rintro _ ⟨⟩
      exact hn
  · refine after fun _ => ite ?_ ?_
    · refine pure ?_
      rintro _ ⟨⟩
      trivial
    · have htree (rooted : Bool) : Ensures ok (do
          let t ← g.useTree (anyRoot && !rooted)
          return if rooted then none else t) fun o => ∀ t ∈ o, t.NamesAre ok := by
        refine (hg _).bind fun t ht => pure ?_
        cases rooted with
        | true => exact nofun
        | false => exact ht
      have htrees := ite (c := anyRoot = true) (p := op? "::" >>= fun rooted => do
          let t ← g.useTree (anyRoot && !rooted)
          return if rooted then none else t) (after fun _ => htree _) (htree false)
      refine (htrees.commaList.delimited _).bind fun ts hts => pure fun t ht => ?_
      obtain ⟨us, hus, rfl⟩ := Option.map_eq_some_iff.mp ht
      exact UseTree.listNamesAre fun u hu => hts _ (mem_of_mapM_id hus hu) u rfl

omit [Deepens g g] in
theorem useItem_ensures (hg : TreesAre ok g) (attrs : List Attribute) (vis : Visibility) :
    Ensures ok (useItem g attrs vis) fun o => ∀ i ∈ o, i.NamesAre ok := by
  unfold useItem
  refine after fun _ => after fun _ => (hg _).bind fun t ht => after fun _ => pure fun i hi => ?_
  obtain ⟨t, rfl, rfl⟩ := Option.map_eq_some_iff.mp hi
  exact ht t rfl

theorem itemBody_ensures (hg : TreesAre ok g) : Ensures ok (itemBody g) (Item.NamesAre ok) := by
  have hstruct (attrs : List Attribute) (vis : Visibility) :
      Ensures ok (do return some (Item.ofStruct (← structItem g attrs vis)))
        fun o => ∀ i ∈ o, i.NamesAre ok := by
    refine (structItem_ensures attrs vis).bind fun s hs => pure fun i hi => ?_
    cases hi
    exact hs
  have hmodule (attrs : List Attribute) (vis : Visibility) :
      Ensures ok (some <$> moduleItem g attrs vis) fun o => ∀ i ∈ o, i.NamesAre ok :=
    ensures_some (moduleItem_ensures attrs vis)
  unfold itemBody
  dsimp only
  refine orVerbatim_ensures (after fun attrs => after fun vis => ?_)
  -- functions, foreign items and imports
  refine after fun _ => Ensures.ite (ensures_of_nameless _) ?_
  refine after fun _ => Ensures.ite (ensures_of_nameless _) ?_
  refine after fun _ => Ensures.ite (useItem_ensures hg attrs vis) ?_
  -- statics and constants
  refine after fun _ => Ensures.ite (after fun x => ?_) ?_
  · obtain ⟨head, ty, value⟩ := x
    cases ty <;> cases value <;> exact ensures_of_nameless _
  refine after fun _ => Ensures.ite (ensures_of_nameless _) ?_
  -- what is unsafe, and modules
  refine after fun _ => Ensures.ite ?_ ?_
  · refine after fun _ => after fun _ => after fun _ => Ensures.ite (ensures_of_nameless _) ?_
    refine after fun _ => Ensures.ite (ensures_of_nameless _) ?_
    exact after fun _ => Ensures.ite (ensures_of_nameless _) (hmodule attrs vis)
  refine after fun _ => Ensures.ite (hmodule attrs vis) ?_
  -- types
  refine after fun _ => Ensures.ite ((typeName_ensures _ _).bind fun t ht => ?_) ?_
  · split
    · refine pure ?_
      rintro _ ⟨⟩
      exact ht
    · exact ensures_of_nameless _
  -- structs and enums
  refine after fun _ => Ensures.ite (hstruct attrs vis) ?_
  exact after fun _ => Ensures.ite (ensures_some (enumItem_ensures attrs vis))
    (ensures_of_nameless _)

theorem useTree_ensures (n : Nat) : TreesAre ok (ofDepth n) := by
  induction n with
  | zero => exact fun b => fail
  | succ n ih => exact fun b => ⟨(useTreeBody_ensures ih b).reads⟩

theorem item_ensures (n : Nat) : Ensures ok (ofDepth n).item (Item.NamesAre ok) := by
  cases n with
  | zero => exact fail
  | succ n =>
    have hd : Deepens (ofDepth n) (ofDepth n) := deepens_ofDepth n 0
    exact ⟨(itemBody_ensures (useTree_ensures n)).reads⟩

end Grammar

namespace Lexer

variable {cs left : Chars} {fuel : Nat} {stack : List Delimiter}

/-- What may stand around a name continues none. -/
theorem isAround_of_isIdentifierContinue {c : Char} (h : CharClass.isIdentifierContinue c = true) :
    isAround c = false := by
  refine Bool.eq_false_iff.mpr fun ha => ?_
  have hn : ∀ n ∈ LetterCase.around, CharClass.isIdentifierContinue (Char.ofNat n) = false := by
    decide +kernel
  rw [← Char.ofNat_toNat c, hn _ (LetterCase.mem_around ha)] at h
  cases h

/-- What is read as an identifier in front of something. -/
def IsIdentifier (i : Chars) : Prop := ∃ cs left, identifier? cs = some (i, left)

theorem IsIdentifier.isBare {i : Chars} (h : IsIdentifier i) : IsBare i := by
  obtain ⟨cs, left, h⟩ := h
  obtain ⟨front, name, rfl, hn, -⟩ := identifier?_isName h
  intro c hc
  rcases List.mem_append.mp hc with hc | hc
  · have hf : IsBare ['r', '#'] := by decide
    rcases hn.front with rfl | rfl
    · cases hc
    · exact hf c hc
  · exact isAround_of_isIdentifierContinue (hn.word c hc)

theorem isIdentifier_of_leaf? {n : String} (h : leaf? cs = some (.ident n, left)) :
    IsIdentifier n.toList := by
  unfold leaf? at h
  split at h
  · cases h
  split at h
  next r hp => exact absurd (hp.trans h) punct?_ne_ident
  split at h
  · cases h
  · obtain ⟨⟨i, rest⟩, hi, h⟩ := Option.map_eq_some_iff.mp h
    cases h
    rw [String.toList_ofList]
    exact ⟨cs, left, hi⟩

/-- The tokens of a text stand for comments that document something, are delimiters or are read by
themselves. -/
theorem forall_mem_tokensFrom {P : Token → Prop} (hdoc : ∀ d : DocComment, ∀ t ∈ d.tokens, P t)
    (hlost : P (.literal (String.ofList lostLiteral))) (hopen : ∀ d, P (.opening d))
    (hclose : ∀ d, P (.closing d)) (hleaf : ∀ {cs t left}, leaf? cs = some (t, left) → P t)
    {ts : List Token} (h : tokensFrom fuel stack cs = some ts) : ∀ t ∈ ts, P t := by
  induction fuel generalizing stack cs ts with
  | zero => cases h
  | succ fuel ih =>
    have hcons {t : Token} {stack : List Delimiter} {cs : Chars} (ht : P t)
        (h : (tokensFrom fuel stack cs).map (t :: ·) = some ts) : ∀ t ∈ ts, P t := by
      obtain ⟨rest, hr, rfl⟩ := Option.map_eq_some_iff.mp h
      exact List.forall_mem_cons.mpr ⟨ht, ih hr⟩
    rw [tokensFrom] at h
    dsimp only at h
    split at h
    · split at h
      · obtain ⟨rest, hr, rfl⟩ := Option.map_eq_some_iff.mp h
        exact List.forall_mem_append.mpr ⟨hdoc _, ih hr⟩
      · cases h
    · cases h
    split at h
    · split at h
      · cases h
        exact List.forall_mem_nil _
      · cases h
    split at h
    · exact hcons hlost h
    · exact hcons (hopen _) h
    · split at h
      · split at h
        · exact hcons (hclose _) h
        · cases h
      · cases h
    · obtain ⟨⟨t, left⟩, hl, h⟩ := Option.bind_eq_some_iff.mp h
      exact hcons (hleaf hl) h

end Lexer

/-- If the token is an identifier, it is read as one. -/
def Token.IsRead (t : Token) : Prop := ∀ n, t = .ident n → Lexer.IsIdentifier n.toList

theorem Lexer.isRead_of_mem {cs : Chars} {fuel : Nat} {stack : List Delimiter} {ts : List Token}
    (h : tokensFrom fuel stack cs = some ts) : ∀ t ∈ ts, t.IsRead := by
  refine forall_mem_tokensFrom ?_ nofun (fun _ => nofun) (fun _ => nofun) ?_ h
  · intro d t ht n he
    have hword : n = "doc" := by
      rcases d with ⟨_ | _, text⟩ <;>
        simpa [DocComment.tokens, Token.brackets, Token.group, he] using ht
    exact ⟨"doc".toList, [], by rw [hword]; decide⟩
  · rintro cs _ left hl n rfl
    exact isIdentifier_of_leaf? hl

/-! ### Files -/

/-- The names among the items of a file are identifiers. -/
theorem SourceFile.namesAre {source : String} {file : SourceFile}
    (h : SourceFile.read? source = some file) : ∀ i ∈ file.items, i.NamesAre Token.IsRead := by
  unfold SourceFile.read? at h
  dsimp only at h
  obtain ⟨ts, ht, hall⟩ := Option.bind_eq_some_iff.mp h
  have hd : Grammar.Deepens (.ofTokens ts) (.ofTokens ts) := Grammar.deepens_ofDepth _ 0
  unfold all? at hall
  split at hall
  next a hr =>
    cases hall
    have he : Ensures Token.IsRead (do
        let inner ← Grammar.innerAttributes (.ofTokens ts)
        return (⟨(splitShebang (Lexer.withoutByteOrderMark source.toList)).1, inner,
          ← whileSees (return !(← atEnd)) (Grammar.ofTokens ts).item⟩ : SourceFile)) fun file =>
        ∀ i ∈ file.items, i.NamesAre Token.IsRead :=
      Ensures.after fun inner =>
        (Ensures.whileSees (Grammar.item_ensures _)).bind fun items hi => Ensures.pure hi
    exact (he.reads (Lexer.isRead_of_mem ht) hr).1
  next => cases hall

end RecordStore
