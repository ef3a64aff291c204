import RecordStore.Proofs.Schema.Options

/-!
What declarations are rejected for. Methods are checked last, so a record whose methods have a name
in common has passed all other checks.
-/
namespace RecordStore

/-! ### Failures of a kind -/

/-- If something fails, it fails as said. -/
def FailsAs {ε α : Type} (p : ε → Prop) (x : Except ε α) : Prop := ∀ e, x = .error e → p e

namespace FailsAs

variable {ε ε' α β : Type} {p : ε → Prop} {q : ε' → Prop} {x : Except ε α}

theorem ok (a : α) : FailsAs p (.ok a : Except ε α) := nofun

theorem error {e : ε} (h : p e) : FailsAs p (.error e : Except ε α) := by
  rintro _ ⟨⟩
  exact h

theorem bind {f : α → Except ε β} (hx : FailsAs p x) (hf : ∀ a, FailsAs p (f a)) :
    FailsAs p (x >>= f) := by
  cases x with
  | error e => exact error (hx e rfl)
  | ok a => exact hf a

/-- What follows on a success may rely on it. -/
theorem bind_of_ok {f : α → Except ε β} (hx : FailsAs p x)
    (hf : ∀ a, x = .ok a → FailsAs p (f a)) : FailsAs p (x >>= f) := by
  cases x with
  | error e => exact error (hx e rfl)
  | ok a => exact hf a rfl

theorem map {f : α → β} (hx : FailsAs p x) : FailsAs p (x.map f) := by
  cases x with
  | error e => exact error (hx e rfl)
  | ok a => exact ok (f a)

theorem mapError {g : ε → ε'} (hx : FailsAs p x) (h : ∀ e, p e → q (g e)) :
    FailsAs q (x.mapError g) := by
  cases x with
  | error e => exact error (h e (hx e rfl))
  | ok a => exact ok a

theorem foldlM_mem {f : β → α → Except ε β} {as : List α}
    (h : ∀ b, ∀ a ∈ as, FailsAs p (f b a)) (b : β) : FailsAs p (as.foldlM f b) := by
  induction as generalizing b with
  | nil => exact ok b
  | cons a as ih =>
    rw [List.foldlM_cons]
    exact (h b a List.mem_cons_self).bind
      (ih fun b a ha => h b a (List.mem_cons_of_mem _ ha))

theorem foldlM {f : β → α → Except ε β} (h : ∀ b a, FailsAs p (f b a)) (as : List α) (b : β) :
    FailsAs p (as.foldlM f b) :=
  foldlM_mem (fun b a _ => h b a) b

end FailsAs

theorem FailsAs.exists_ok {ε α β : Type} {p : ε → Prop} {x : Except ε α} {f : α → Except ε β}
    {e : ε} (hx : FailsAs p x) (h : (x >>= f) = .error e) (he : ¬p e) :
    ∃ a, x = .ok a ∧ f a = .error e := by
  cases x with
  | error e' =>
    cases h
    exact absurd (hx e rfl) he
  | ok a => exact ⟨a, rfl, h⟩

/-! ### Methods that clash -/

def ConfigIssue.clash? : ConfigIssue → Option String
  | duplicateMethod method => some method
  | _ => none

/-- The name that two methods have in common, if that is what is wrong. -/
def Error.clash? : Error → Option String
  | config _ issue => issue.clash?
  | _ => none

theorem RecordSetting.ofPair_failsAs (key value : String) :
    FailsAs (ConfigIssue.clash? · = none) (RecordSetting.ofPair key value) := by
  intro e h
  rcases RecordSetting.issue_ofPair h with ⟨rfl, -⟩ | ⟨rfl, -⟩ <;> rfl

theorem FieldSetting.ofPair_failsAs (key value : String) :
    FailsAs (ConfigIssue.clash? · = none) (FieldSetting.ofPair key value) := by
  intro e h
  rcases FieldSetting.issue_ofPair h with ⟨rfl, -⟩ | ⟨rfl, -⟩ <;> rfl

theorem RecordSettings.applyTag_failsAs (s : RecordSettings) (tag : String) :
    FailsAs (ConfigIssue.clash? · = none) (s.applyTag tag) :=
  FailsAs.foldlM (fun _ _ => FailsAs.map (RecordSetting.ofPair_failsAs _ _)) _ s

theorem FieldSettings.applyTag_failsAs (s : FieldSettings) (tag : String) :
    FailsAs (ConfigIssue.clash? · = none) (s.applyTag tag) :=
  FailsAs.foldlM (fun _ _ => FailsAs.map (FieldSetting.ofPair_failsAs _ _)) _ s

namespace Record

variable {config : Config} {scope : Scope}

theorem settings_failsAs (d : Declaration) :
    FailsAs (Error.clash? · = none) (settings d) := by
  refine FailsAs.bind ?_ fun s => ?_
  · exact (FailsAs.foldlM RecordSettings.applyTag_failsAs _ _).mapError fun _ h => h
  · exact (FailsAs.foldlM RecordSettings.applyTag_failsAs _ _).mapError fun _ h => h

theorem ofField_failsAs (record : String) (parts : NameParts) (f : FieldDeclaration) :
    FailsAs (Error.clash? · = none) (Column.ofField config scope record parts f) := by
  have hs : FailsAs (Error.clash? · = none) (Column.settings record f) :=
    (FailsAs.foldlM FieldSettings.applyTag_failsAs _ _).mapError fun _ h => h
  have ht : FailsAs (Error.clash? · = none) ((f.ty.classify config scope).mapError
      (Error.unsupportedType { record, field := some f.name } f.ty.display)) :=
    FailsAs.mapError (fun _ _ => trivial) fun _ (_ : True) => rfl
  unfold Column.ofField
  refine hs.bind fun s => ?_
  dsimp only
  split
  · exact .ok none
  split
  · exact .error rfl
  refine ht.bind fun k => ?_
  split
  · exact .error rfl
  · exact .ok _

theorem columnsFrom_failsAs (record : String) (parts : NameParts) (fields : List FieldDeclaration)
    (used : List String) (columns : List Column) : FailsAs (Error.clash? · = none)
      (columnsFrom config scope record parts used columns fields) := by
  induction fields generalizing used columns with
  | nil => exact .ok columns
  | cons f rest ih =>
    unfold columnsFrom
    split
    · exact ih used columns
    refine (ofField_failsAs record parts f).bind fun found => ?_
    cases found with
    | none => exact ih used columns
    | some c =>
      dsimp only
      split
      · exact .error rfl
      · exact ih _ _

theorem check_failsAs (record : String) (b : Bool) {issue : ConfigIssue}
    (h : issue.clash? = none) : FailsAs (Error.clash? · = none) (check record b issue) := by
  cases b with
  | true => exact .ok ()
  | false => exact .error h

theorem checkSlots_failsAs (r : Record) : FailsAs (Error.clash? · = none) r.checkSlots := by
  unfold checkSlots
  dsimp only
  split
  · exact .error rfl
  · exact .ok ()

theorem checkIdentifiers_failsAs (r : Record) :
    FailsAs (Error.clash? · = none) r.checkIdentifiers := by
  unfold checkIdentifiers
  split
  · exact .error rfl
  · exact .ok ()

theorem forM_check_failsAs (record : String) (o : Option String) (b : String → Bool)
    {issue : String → ConfigIssue} (h : ∀ a, (issue a).clash? = none) :
    FailsAs (Error.clash? · = none) (o.forM fun a => check record (b a) (issue a)) := by
  cases o with
  | none => exact .ok ()
  | some a => exact check_failsAs record (b a) (h a)

/-- The record that a declaration describes, before it is checked. -/
def draft (d : Declaration) (scope : Scope) (config : Config) : Except Error Record := do
  let s ← settings d
  let columns ← columnsFrom config scope d.name s.parts [] [] d.fields
  return make d s columns

theorem draft_eq_ok {d : Declaration} {r : Record} : draft d scope config = .ok r ↔
    ∃ s columns, settings d = .ok s ∧
      columnsFrom config scope d.name s.parts [] [] d.fields = .ok columns ∧
      make d s columns = r := by
  unfold draft
  simp [bind_eq_ok, pure, Except.pure]

/-- A record that passes all other checks is checked for its methods. -/
theorem build_eq_of_checks {d : Declaration} {s : RecordSettings} {columns : List Column}
    (hs : settings d = .ok s)
    (hc : columnsFrom config scope d.name s.parts [] [] d.fields = .ok columns)
    (ht : Naming.isSqlName (make d s columns).table = true)
    (hd : ∀ f, (make d s columns).softDelete = some f → isNullableTime columns f = true)
    (hk : ∀ k, (make d s columns).primaryKey = some k → Naming.isSqlName k = true)
    (hp : (!((make d s columns).dialect == .postgres && (make d s columns).capabilities.create &&
      (make d s columns).primaryKey.isNone)) = true)
    (hl : (make d s columns).checkSlots = .ok ())
    (hi : (make d s columns).checkIdentifiers = .ok ()) :
    build d scope config =
      (make d s columns).checkMethods >>= fun _ => .ok (make d s columns) := by
  have hdc : (make d s columns).softDelete.forM (fun f =>
      check d.name (isNullableTime columns f) (.unknownSoftDeleteField f)) = .ok () :=
    forM_check_eq_ok.mpr hd
  have hkc : (make d s columns).primaryKey.forM (fun k =>
      check d.name (Naming.isSqlName k) (.invalidName k)) = .ok () :=
    forM_check_eq_ok.mpr hk
  -- each check that is passed goes away
  have hb {α β : Type} (a : α) (f : α → Except Error β) : (Except.ok a >>= f) = f a := rfl
  unfold build
  rw [hs, hb, hc, hb]
  dsimp only
  rw [(check_eq_ok (u := ())).mpr ht, hb]
  rw [hdc, hb, hkc, hb, (check_eq_ok (u := ())).mpr hp, hb, hl, hb, hi, hb]
  rfl

/-- Methods clash only where all other checks have been passed. -/
theorem build_clash {d : Declaration} {e : Error} {m : String}
    (h : build d scope config = .error e) (hm : e.clash? = some m) :
    ∃ r, draft d scope config = .ok r ∧ r.Built ∧
      repeated? [constructorName] r.storeMethods = some m := by
  have he : ¬e.clash? = none := by simp [hm]
  unfold build at h
  obtain ⟨s, hs, h⟩ := (settings_failsAs d).exists_ok h he
  obtain ⟨columns, hc, h⟩ := (columnsFrom_failsAs _ _ _ _ _).exists_ok h he
  obtain ⟨_, ht, h⟩ := (check_failsAs _ _ rfl).exists_ok h he
  obtain ⟨_, hd, h⟩ := (forM_check_failsAs _ _ _ fun _ => rfl).exists_ok h he
  obtain ⟨_, hk, h⟩ := (forM_check_failsAs _ _ _ fun _ => rfl).exists_ok h he
  obtain ⟨_, -, h⟩ := (check_failsAs _ _ rfl).exists_ok h he
  obtain ⟨_, -, h⟩ := (checkSlots_failsAs _).exists_ok h he
  obtain ⟨_, hi, h⟩ := (checkIdentifiers_failsAs _).exists_ok h he
  refine ⟨make d s columns, draft_eq_ok.mpr ⟨s, columns, hs, hc, rfl⟩, ?_, ?_⟩
  · exact built_of_checks hc (check_eq_ok.mp ht) (forM_check_eq_ok.mp hd)
      (forM_check_eq_ok.mp hk) hi
  · unfold checkMethods at h
    cases hr : repeated? [constructorName] (make d s columns).storeMethods with
    | none =>
      rw [hr] at h
      cases h
    | some n =>
      rw [hr] at h
      cases h
      exact hm

end Record
end RecordStore
