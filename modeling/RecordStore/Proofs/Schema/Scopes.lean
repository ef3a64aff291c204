import RecordStore.Proofs.Schema.Accepted
import RecordStore.Proofs.Schema.Classification

/-!
Records in two scopes. Of a scope, a record depends on the numbers that its column types name, and
on nothing else.
-/
namespace RecordStore

/-! ### Classification in two scopes -/

namespace Ty

variable {config : Config} {scope scope' : Scope}

/-- Whether a type is, below wrappers and options, a path of one name alone. -/
def Names (ty : Ty) (n : String) : Prop :=
  ∃ rooted arguments, Contains ty (.path rooted [.mk n arguments])

theorem Names.of_wraps {ty t : Ty} {n : String} (h : t.Names n) (hw : Wraps ty t) : ty.Names n :=
  let ⟨rooted, arguments, hc⟩ := h
  ⟨rooted, arguments, .wrapped hw hc⟩

theorem Names.of_option {ty t : Ty} {n : String} (h : t.Names n) (hw : Applies "Option" ty t) :
    ty.Names n :=
  let ⟨rooted, arguments, hc⟩ := h
  ⟨rooted, arguments, .optional hw hc⟩

theorem sizeOf_firstType? {s : Segment} {t : Ty} (h : s.firstType? = some t) :
    sizeOf t < sizeOf s := by
  have ha {as : List Argument} (h : Argument.firstType? as = some t) : sizeOf t < sizeOf as := by
    induction as with
    | nil => cases h
    | cons a as ih =>
      cases a with
      | type u =>
        cases h
        simp
        omega
      | _ => exact Nat.lt_trans (ih h) (by rw [List.cons.sizeOf_spec]; omega)
  obtain ⟨n, arguments⟩ := s
  cases arguments with
  | angled turbofish as trailing =>
    have := ha h
    simp
    omega
  | _ => cases h

theorem sizeOf_getLast? {ss : List Segment} {s : Segment} (h : ss.getLast? = some s) :
    sizeOf s < sizeOf ss := List.sizeOf_lt_of_mem (List.mem_of_getLast? h)

theorem namedCategory_congr {alone : Bool} {name text : String} {argument : Option Ty}
    (h : alone = true → scope.number name = scope'.number name) :
    namedCategory config scope alone name text argument =
      namedCategory config scope' alone name text argument := by
  unfold namedCategory
  cases alone with
  | false => rfl
  | true => rw [h rfl]

/-- A type has its category by the numbers of the names in it. -/
theorem classify_congr {ty : Ty} (h : ∀ n, ty.Names n → scope.number n = scope'.number n) :
    ty.classify config scope = ty.classify config scope' := by
  induction hn : sizeOf ty using Nat.strongRecOn generalizing ty with
  | ind n ih =>
    subst hn
    -- A path, by its last segment.
    have hlast {ss : List Segment} {s : Segment} {alone : Bool} {text : String}
        (hs : ss.getLast? = some s) (hsize : sizeOf ss < sizeOf ty)
        (hseg : ty.segments.getLast? = some s)
        (hnumber : alone = true → scope.number s.name = scope'.number s.name) :
        classifyLast config scope alone text ss = classifyLast config scope' alone text ss := by
      have hbelow (t : Ty) (ht : s.firstType? = some t) (hw : ∀ n, t.Names n → ty.Names n) :
          t.classify config scope = t.classify config scope' :=
        ih _ (Nat.lt_trans (Nat.lt_trans (sizeOf_firstType? ht) (sizeOf_getLast? hs)) hsize)
          (fun n hn => h n (hw n hn)) rfl
      rw [classifyLast_eq hs, classifyLast_eq hs, classifyLast, classifyLast,
        classifyArgument_eq, classifyArgument_eq]
      split
      · rfl
      split
      next hbox =>
        cases ht : s.firstType? with
        | none => rfl
        | some t =>
          exact hbelow t ht fun n hn => hn.of_wraps (.box ⟨s, hseg, eq_of_beq hbox, ht⟩)
      split
      next hoption =>
        cases ht : s.firstType? with
        | none => rfl
        | some t =>
          have := hbelow t ht fun n hn => hn.of_option ⟨s, hseg, eq_of_beq hoption, ht⟩
          dsimp only [Option.map_some]
          rw [this]
      · have hargument (c : Ty → Except TypeIssue Category) :
            (s.firstType?.map fun t => (t, c t)).map Prod.fst = s.firstType? := by
          simp [Function.comp_def]
        rw [hargument, hargument, namedCategory_congr hnumber]
    cases ty with
    | slice => rw [classify, classify]
    | array => rw [classify, classify]
    | reference l m t =>
      rw [classify, classify]
      exact ih _ (by simp) (fun n hn => h n (hn.of_wraps (.reference l m t))) rfl
    | parenthesized t =>
      rw [classify, classify]
      exact ih _ (by simp) (fun n hn => h n (hn.of_wraps (.parenthesized t))) rfl
    | path rooted ss =>
      rw [classify, classify]
      cases hs : ss.getLast? with
      | none =>
        obtain rfl := List.getLast?_eq_none_iff.mp hs
        rfl
      | some s =>
        refine hlast hs (by simp) hs fun halone => ?_
        obtain ⟨t, rfl⟩ := List.length_eq_one_iff.mp (eq_of_beq halone)
        obtain ⟨n, arguments⟩ := t
        cases hs
        exact h n ⟨rooted, arguments, .refl _⟩
    | qualified owner position rooted ss =>
      rw [classify, classify]
      cases hs : ss.getLast? with
      | none =>
        obtain rfl := List.getLast?_eq_none_iff.mp hs
        rfl
      | some s => exact hlast hs (by simp) hs (by simp)
    | _ => rfl

end Ty

/-! ### Records in two scopes -/

variable {config : Config} {scope scope' : Scope}

theorem Column.ofField_congr {record : String} {parts : NameParts} {f : FieldDeclaration}
    (h : FieldDeclaration.columnOption? f.options ≠ some "-" →
      ∀ n, f.ty.Names n → scope.number n = scope'.number n) :
    ofField config scope record parts f = ofField config scope' record parts f := by
  unfold ofField
  cases hs : settings record f with
  | error e => rfl
  | ok s =>
    change (if s.isSkipped then _ else _) = if s.isSkipped then _ else _
    split
    · rfl
    next hk => rw [Ty.classify_congr (h fun hd => hk ((isSkipped_of_ofField hs).mpr hd))]

namespace Record

theorem columnsFrom_congr {record : String} {parts : NameParts} {fields : List FieldDeclaration}
    {used : List String} {columns : List Column}
    (h : ∀ f ∈ fields, f.isKept = true → ∀ n, f.ty.Names n → scope.number n = scope'.number n) :
    columnsFrom config scope record parts used columns fields =
      columnsFrom config scope' record parts used columns fields := by
  induction fields generalizing used columns with
  | nil => rfl
  | cons f fields ih =>
    have hrest (used : List String) (columns : List Column) :
        columnsFrom config scope record parts used columns fields =
          columnsFrom config scope' record parts used columns fields :=
      ih fun f hf => h f (List.mem_cons_of_mem _ hf)
    unfold columnsFrom
    split
    · exact hrest used columns
    next hk =>
      have hk : f.name ≠ tableField ∧ f.isTagged = true := by simpa using hk
      have hf : Column.ofField config scope record parts f =
          Column.ofField config scope' record parts f :=
        Column.ofField_congr fun hd =>
          h f List.mem_cons_self (by simp [FieldDeclaration.isKept, hk, hd])
      rw [hf]
      simp only [hrest]

/-- The scope of a record matters by the numbers that its column types name. -/
theorem build_congr {d : Declaration}
    (h : ∀ f ∈ d.fields, f.isKept = true → ∀ n, f.ty.Names n → scope.number n = scope'.number n) :
    build d scope config = build d scope' config := by
  unfold build
  simp only [columnsFrom_congr h]

end Record

end RecordStore
