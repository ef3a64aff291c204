import RecordStore.Proofs.Schema.ColumnOrder
import RecordStore.Proofs.Schema.Identifiers
import RecordStore.Proofs.Schema.Rejected

/-!
What rejections of declarations say. Each is about the record that is declared or about one of its
fields, and says so; what else it quotes is made of the record's names and of the options in its
tags, or is the text of a type. So its message breaks off into a further line only where one of
these does.
-/
namespace RecordStore

open Lexer

/-! ### Line breaks -/

namespace Lexer

/-- Characters that end a line. -/
def isLineBreak (c : Char) : Bool :=
  (10 ≤ c.toNat && c.toNat ≤ 13) || c.toNat == 0x85 || c.toNat == 0x2028 || c.toNat == 0x2029

theorem isAround_of_isLineBreak {c : Char} (h : isLineBreak c = true) : isAround c = true := by
  have hb : CharClass.isBlank c = true := by
    simp only [isLineBreak, CharClass.isBlank, Bool.or_eq_true, Bool.and_eq_true, beq_iff_eq,
      decide_eq_true_eq] at h ⊢
    omega
  simp [isAround, isSpace, hb]

/-- Text on one line. -/
def IsLine (cs : Chars) : Prop := ∀ c ∈ cs, isLineBreak c = false

instance decidableIsLine (cs : Chars) : Decidable (IsLine cs) :=
  List.decidableBAll (isLineBreak · = false) cs

/-- The line breaks of a text come from some words. -/
def BreaksFrom (ws : List String) (t : String) : Prop :=
  ∀ c ∈ t.toList, isLineBreak c = true → ∃ w ∈ ws, c ∈ w.toList

variable {ws vs : List String} {t u : String}

theorem MadeOf.breaksFrom (h : MadeOf ws t) : BreaksFrom ws t :=
  fun c hc hb => h c hc (isAround_of_isLineBreak hb)

theorem BreaksFrom.append (ht : BreaksFrom ws t) (hu : BreaksFrom ws u) :
    BreaksFrom ws (t ++ u) := by
  intro c hc
  rw [String.toList_append, List.mem_append] at hc
  exact hc.elim (ht c) (hu c)

theorem BreaksFrom.of_line (h : IsLine t.toList) : BreaksFrom ws t := by
  intro c hc hb
  rw [h c hc] at hb
  cases hb

theorem BreaksFrom.mono (h : BreaksFrom ws t) (hv : ∀ w ∈ ws, BreaksFrom vs w) :
    BreaksFrom vs t := by
  intro c hc hb
  obtain ⟨w, hw, hm⟩ := h c hc hb
  exact hv w hw c hm hb

theorem BreaksFrom.of_mem (h : t ∈ ws) : BreaksFrom ws t := (MadeOf.of_mem h).breaksFrom

end Lexer

theorem Site.breaksFrom_text {ws : List String} {s : Site} (hr : BreaksFrom ws s.record)
    (hf : ∀ f, s.field = some f → BreaksFrom ws f) : BreaksFrom ws s.text := by
  have hq : BreaksFrom ws "`" := .of_line (by decide)
  unfold Site.text
  refine BreaksFrom.append (((BreaksFrom.of_line (by decide)).append hr).append hq) ?_
  split
  next f h => exact ((BreaksFrom.of_line (by decide)).append (hf f h)).append hq
  next => exact .of_line (by decide)

namespace ConfigIssue

/-- What a problem quotes. -/
def texts : ConfigIssue → List String
  | malformedTag reason => [reason]
  | unknownOption key => [key]
  | invalidOptionValue key value => [key, value]
  | duplicateColumn column => [column]
  | invalidName name => [name]
  | unknownSoftDeleteField field => [field]
  | blueprintFieldCollision slot => [slot]
  | duplicateMethod method => [method]
  | bitmaskNotUnsigned | missingPrimaryKey | duplicateRecord | genericRecord | unnamedFields => []

/-- Whether a problem can only be one of a field. -/
def isOfField : ConfigIssue → Bool
  | duplicateColumn _ | bitmaskNotUnsigned | blueprintFieldCollision _ => true
  | _ => false

theorem breaksFrom_message {ws : List String} {i : ConfigIssue}
    (h : ∀ t ∈ i.texts, BreaksFrom ws t) : BreaksFrom ws i.message := by
  have hq : BreaksFrom ws "`" := .of_line (by decide)
  cases i with
  | malformedTag reason =>
    exact (BreaksFrom.of_line (by decide)).append (h _ List.mem_cons_self)
  | invalidOptionValue key value =>
    have hk : BreaksFrom ws key := h _ (by simp [texts])
    have hv : BreaksFrom ws value := h _ (by simp [texts])
    exact ((((BreaksFrom.of_line (by decide)).append hk).append (.of_line (by decide))).append
      hv).append hq
  | unknownOption t | duplicateColumn t | invalidName t | unknownSoftDeleteField t
  | blueprintFieldCollision t | duplicateMethod t =>
    exact ((BreaksFrom.of_line (by decide)).append (h t List.mem_cons_self)).append hq
  | _ => exact .of_line (by decide)

end ConfigIssue

/-! ### What settings are made of -/

/-- The keys and values of a tag. -/
def Tag.words (tag : String) : List String := (Tag.pairs tag).flatMap fun p => [p.1, p.2]

theorem Tag.mem_words {tag key value : String} (h : (key, value) ∈ Tag.pairs tag) :
    key ∈ words tag ∧ value ∈ words tag :=
  ⟨List.mem_flatMap.mpr ⟨_, h, by simp⟩, List.mem_flatMap.mpr ⟨_, h, by simp⟩⟩

/-- What each of some elements keeps is kept by all in turn. -/
theorem foldlM_keeps {ε α β : Type} {p : β → Prop} {f : β → α → Except ε β} {as : List α}
    (h : ∀ b, ∀ a ∈ as, ∀ b', p b → f b a = .ok b' → p b') {b b' : β} (hb : p b)
    (hf : as.foldlM f b = .ok b') : p b' := by
  induction as generalizing b with
  | nil =>
    cases hf
    exact hb
  | cons a as ih =>
    rw [List.foldlM_cons] at hf
    obtain ⟨c, hc, hf⟩ := bind_eq_ok.mp hf
    exact ih (fun b a ha => h b a (List.mem_cons_of_mem _ ha))
      (h b a List.mem_cons_self c hb hc) hf

namespace RecordSetting

/-- The text that a setting holds, if it holds one. -/
def text? : RecordSetting → Option String
  | table t | primaryKey t | softDelete t | store t | record t | blueprint t | part _ t => some t
  | dialect _ | defaultLimit _ | capability _ _ => none

theorem text?_ofPair {key value t : String} {x : RecordSetting} (h : ofPair key value = .ok x)
    (ht : x.text? = some t) : t = value := by
  have hf {c : Capability} : (Tag.flag key value).map (capability c) ≠ .ok x := by
    intro hf
    obtain ⟨b, -, rfl⟩ := map_eq_ok.mp hf
    cases ht
  unfold ofPair at h
  dsimp only at h
  split at h
  all_goals first
    | exact absurd h hf
    | (split at h <;> cases h <;> cases ht)
    | (cases h; exact (Option.some.inj ht).symm)
    | cases h

end RecordSetting

namespace RecordSettings

variable {ws : List String} {s s' : RecordSettings}

/-- The texts among the settings of a record. -/
def texts (s : RecordSettings) : List String :=
  s.table.toList ++ s.primaryKey.toList ++ s.softDelete.toList ++ s.store.toList ++
    s.record.toList ++ s.blueprint.toList ++
    [s.parts.find, s.parts.count, s.parts.select, s.parts.update, s.parts.range, s.parts.like]

theorem mem_texts_make {x : RecordSetting} {t : String} (h : t ∈ (s.make x).texts) :
    t ∈ s.texts ∨ x.text? = some t := by
  cases x with
  | part p text =>
    cases p <;>
      (simp [texts, make, NameParts.set, RecordSetting.text?] at h ⊢; grind)
  | _ =>
    simp [texts, make, RecordSetting.text?] at h ⊢
    grind

/-- The settings are made of some words. -/
def MadeOf (ws : List String) (s : RecordSettings) : Prop := ∀ t ∈ s.texts, Lexer.MadeOf ws t

theorem madeOf_default : MadeOf ws {} := by
  have hb : ∀ t ∈ texts {}, IsBare t.toList := by decide
  exact fun t ht => .of_isBare (hb t ht)

theorem madeOf_applyTag {tag : String} (h : s.MadeOf ws) (hw : ∀ w ∈ Tag.words tag, w ∈ ws)
    (ha : s.applyTag tag = .ok s') : s'.MadeOf ws := by
  refine foldlM_keeps (p := MadeOf ws) (fun s ⟨key, value⟩ hp s' hs hx => ?_) h ha
  obtain ⟨x, hr, rfl⟩ := map_eq_ok.mp hx
  intro t ht
  rcases mem_texts_make ht with ht | ht
  · exact hs t ht
  · obtain rfl := RecordSetting.text?_ofPair hr ht
    exact .of_mem (hw _ (Tag.mem_words hp).2)

theorem madeOf_applyTags {tags : List String} (h : s.MadeOf ws)
    (hw : ∀ tag ∈ tags, ∀ w ∈ Tag.words tag, w ∈ ws) (ha : tags.foldlM applyTag s = .ok s') :
    s'.MadeOf ws :=
  foldlM_keeps (fun _ tag ht _ hs => fun ha => madeOf_applyTag hs (hw tag ht) ha) h ha

end RecordSettings

/-! ### What issues quote -/

/-- The line breaks of all that an issue quotes come from some words. -/
def ConfigIssue.QuotesFrom (ws : List String) (i : ConfigIssue) : Prop :=
  ∀ t ∈ i.texts, BreaksFrom ws t

theorem ConfigIssue.QuotesFrom.of_option {ws : List String} {tag key value : String}
    {i : ConfigIssue} (hp : (key, value) ∈ Tag.pairs tag) (hw : ∀ w ∈ Tag.words tag, w ∈ ws)
    (hi : i = .unknownOption key ∨ i = .invalidOptionValue key value) : i.QuotesFrom ws := by
  obtain ⟨hk, hv⟩ := Tag.mem_words hp
  rcases hi with rfl | rfl
  · exact List.forall_mem_singleton.mpr (.of_mem (hw _ hk))
  · exact List.forall_mem_cons.mpr
      ⟨.of_mem (hw _ hk), List.forall_mem_singleton.mpr (.of_mem (hw _ hv))⟩

theorem RecordSettings.applyTags_failsAs {ws tags : List String}
    (hw : ∀ tag ∈ tags, ∀ w ∈ Tag.words tag, w ∈ ws) (s : RecordSettings) :
    FailsAs (fun i => i.QuotesFrom ws ∧ i.isOfField = false) (tags.foldlM applyTag s) := by
  refine FailsAs.foldlM_mem (fun s tag ht => FailsAs.foldlM_mem (fun s ⟨key, value⟩ hp => ?_) s) s
  refine FailsAs.map fun e he => ?_
  have hi := (RecordSetting.issue_ofPair he).imp And.left And.left
  exact ⟨.of_option hp (hw tag ht) hi, by rcases hi with rfl | rfl <;> rfl⟩

theorem FieldSettings.applyTags_failsAs {ws tags : List String}
    (hw : ∀ tag ∈ tags, ∀ w ∈ Tag.words tag, w ∈ ws) (s : FieldSettings) :
    FailsAs (ConfigIssue.QuotesFrom ws) (tags.foldlM applyTag s) := by
  refine FailsAs.foldlM_mem (fun s tag ht => FailsAs.foldlM_mem (fun s ⟨key, value⟩ hp => ?_) s) s
  refine FailsAs.map fun e he => .of_option hp (hw tag ht) ?_
  exact (FieldSetting.issue_ofPair he).imp And.left And.left

/-! ### Rejected records -/

/-- A rejection is about a record, about one of its fields or about the type of one; a problem of a
field is not put down to the record. What is quoted breaks lines only as some words do. -/
inductive Error.About (record : String) (fields : List (String × Ty)) (ws : List String) :
    Error → Prop where
  | record {issue : ConfigIssue} (h : issue.QuotesFrom ws) (hr : issue.isOfField = false) :
      About record fields ws (.ofRecord record issue)
  | field {f : String × Ty} {issue : ConfigIssue} (hf : f ∈ fields) (h : issue.QuotesFrom ws) :
      About record fields ws (.ofField record f.1 issue)
  | type {f : String × Ty} {issue : TypeIssue} (hf : f ∈ fields) :
      About record fields ws (.unsupportedType { record, field := some f.1 } f.2.display issue)

namespace Declaration

/-- The fields with their types. -/
def typedFields (d : Declaration) : List (String × Ty) := d.fields.map fun f => (f.name, f.ty)

/-- The record's names and the options in its tags. -/
def words (d : Declaration) : List String :=
  d.name :: d.fields.map FieldDeclaration.name ++ d.tags.flatMap Tag.words ++
    d.fields.flatMap (·.tags.flatMap Tag.words)

variable {d : Declaration}

theorem mem_words_of_tag : ∀ tag ∈ d.tags, ∀ w ∈ Tag.words tag, w ∈ d.words :=
  fun tag ht _ hw =>
    List.mem_append_left _ (List.mem_append_right _ (List.mem_flatMap.mpr ⟨tag, ht, hw⟩))

theorem mem_words_of_field {f : FieldDeclaration} (hf : f ∈ d.fields) :
    ∀ tag ∈ f.tags, ∀ w ∈ Tag.words tag, w ∈ d.words :=
  fun tag ht _ hw =>
    List.mem_append_right _ (List.mem_flatMap.mpr ⟨f, hf, List.mem_flatMap.mpr ⟨tag, ht, hw⟩⟩)

theorem name_mem_words (d : Declaration) : d.name ∈ d.words := by simp [words]

theorem fieldName_mem_words {f : FieldDeclaration} (hf : f ∈ d.fields) : f.name ∈ d.words := by
  simp only [words, List.mem_cons, List.cons_append, List.mem_append, List.mem_map]
  exact .inr (.inl (.inl ⟨f, hf, rfl⟩))

/-- A rejection of a declared record. -/
abbrev Rejects (d : Declaration) (e : Error) : Prop := e.About d.name d.typedFields d.words

theorem rejects_field {f : FieldDeclaration} (hf : f ∈ d.fields) {issue : ConfigIssue}
    (h : issue.QuotesFrom d.words) : d.Rejects (.ofField d.name f.name issue) :=
  Error.About.field (List.mem_map_of_mem (f := fun f => (f.name, f.ty)) hf) h

end Declaration

theorem FieldSettings.mem_words_of_column {ws tags : List String} {s : FieldSettings} {c : String}
    (hw : ∀ tag ∈ tags, ∀ w ∈ Tag.words tag, w ∈ ws) (h : tags.foldlM applyTag {} = .ok s)
    (hc : s.column = some c) : c ∈ ws := by
  refine foldlM_keeps (p := fun s => ∀ c, s.column = some c → c ∈ ws) (fun s tag ht s' hs ha => ?_)
    (fun _ hn => by cases hn) h c hc
  refine foldlM_keeps (p := fun s => ∀ c, s.column = some c → c ∈ ws)
    (fun s ⟨key, value⟩ hp s' hs ha c hc => ?_) hs ha
  rw [column_apply ha] at hc
  split at hc
  · split at hc
    · cases hc
    · obtain rfl := Option.some.inj hc
      exact hw tag ht _ (Tag.mem_words hp).2
  · exact hs c hc

namespace Record

variable {d : Declaration} {scope : Scope} {config : Config}

theorem settings_rejects (d : Declaration) : FailsAs d.Rejects (settings d) := by
  refine FailsAs.bind ?_ fun s => ?_
  · exact (RecordSettings.applyTags_failsAs Declaration.mem_words_of_tag _).mapError
      fun _ h => .record h.1 h.2
  · cases ht : d.fields.filter (·.name == tableField) with
    | nil => exact FailsAs.ok s
    | cons f rest =>
      rw [← ht]
      obtain ⟨hf, hn⟩ := List.mem_filter.mp (ht ▸ List.mem_cons_self : f ∈ d.fields.filter _)
      have hw : ∀ tag ∈ (d.fields.filter (·.name == tableField)).flatMap FieldDeclaration.tags,
          ∀ w ∈ Tag.words tag, w ∈ d.words := by
        intro tag hm w hw
        obtain ⟨g, hg, hm⟩ := List.mem_flatMap.mp hm
        exact Declaration.mem_words_of_field (List.mem_filter.mp hg).1 tag hm w hw
      refine (RecordSettings.applyTags_failsAs hw s).mapError fun _ he => ?_
      rw [← eq_of_beq hn]
      exact Declaration.rejects_field hf he.1

theorem settings_madeOf {s : RecordSettings} (h : settings d = .ok s) : s.MadeOf d.words := by
  unfold settings at h
  obtain ⟨own, ho, h⟩ := bind_eq_ok.mp h
  have hown := RecordSettings.madeOf_applyTags RecordSettings.madeOf_default
    Declaration.mem_words_of_tag (mapError_eq_ok.mp ho)
  refine RecordSettings.madeOf_applyTags hown (fun tag hm w hw => ?_) (mapError_eq_ok.mp h)
  obtain ⟨f, hf, hm⟩ := List.mem_flatMap.mp hm
  exact Declaration.mem_words_of_field (List.mem_filter.mp hf).1 tag hm w hw

/-- The column that a field names, or the one that it has without naming it. -/
theorem breaksFrom_column {f : FieldDeclaration} {s : FieldSettings} (hf : f ∈ d.fields)
    (hs : Column.settings d.name f = .ok s) :
    BreaksFrom d.words (s.column.getD (LetterCase.lower f.name)) := by
  cases hc : s.column with
  | none =>
    have hn : Lexer.MadeOf d.words f.name := .of_mem (Declaration.fieldName_mem_words hf)
    exact (LetterCase.madeOf_lower hn).breaksFrom
  | some c =>
    exact .of_mem (FieldSettings.mem_words_of_column
      (Declaration.mem_words_of_field hf) (mapError_eq_ok.mp hs) hc)

theorem ofField_rejects (parts : NameParts) {f : FieldDeclaration} (hf : f ∈ d.fields) :
    FailsAs d.Rejects (Column.ofField config scope d.name parts f) := by
  have hs : FailsAs d.Rejects (Column.settings d.name f) :=
    (FieldSettings.applyTags_failsAs
      (Declaration.mem_words_of_field hf) _).mapError
      fun _ => Declaration.rejects_field hf
  have ht : FailsAs d.Rejects ((f.ty.classify config scope).mapError
      (Error.unsupportedType { record := d.name, field := some f.name } f.ty.display)) :=
    FailsAs.mapError (p := fun _ => True) (fun _ _ => trivial) fun _ _ =>
      Error.About.type (List.mem_map_of_mem (f := fun f => (f.name, f.ty)) hf)
  unfold Column.ofField
  refine hs.bind_of_ok fun s hk => ?_
  dsimp only
  split
  · exact .ok none
  split
  · exact .error (Declaration.rejects_field hf
      (List.forall_mem_singleton.mpr (breaksFrom_column hf hk)))
  refine ht.bind fun k => ?_
  split
  · exact .error (Declaration.rejects_field hf (List.forall_mem_nil _))
  · exact .ok _

theorem columnsFrom_rejects (parts : NameParts) {fields : List FieldDeclaration}
    (hf : ∀ f ∈ fields, f ∈ d.fields) (used : List String) (columns : List Column) :
    FailsAs d.Rejects (columnsFrom config scope d.name parts used columns fields) := by
  induction fields generalizing used columns with
  | nil => exact .ok columns
  | cons f rest ih =>
    obtain ⟨hd, hr⟩ := List.forall_mem_cons.mp hf
    unfold columnsFrom
    split
    · exact ih hr used columns
    refine (ofField_rejects parts hd).bind_of_ok fun found hfound => ?_
    cases found with
    | none => exact ih hr used columns
    | some c =>
      dsimp only
      split
      · obtain ⟨s, k, hs, -, -, -, -, rfl⟩ := Column.ofField_eq_some.mp hfound
        exact .error (Declaration.rejects_field hd
          (List.forall_mem_singleton.mpr (breaksFrom_column hd hs)))
      · exact ih hr _ _

variable {s : RecordSettings} {columns : List Column}

/-- What the names of the record's methods and slots are made of comes from its declaration. -/
theorem madeOf_words (hs : s.MadeOf d.words)
    (hc : columnsFrom config scope d.name s.parts [] [] d.fields = .ok columns) :
    ∀ w ∈ (make d s columns).words, Lexer.MadeOf d.words w := by
  have hn : Lexer.MadeOf d.words d.name := .of_mem d.name_mem_words
  have hr : Lexer.MadeOf d.words (s.record.getD d.name) := by
    cases h : s.record with
    | none => exact hn
    | some t => exact hs t (by simp [RecordSettings.texts, h])
  intro w hw
  rcases List.mem_append.mp hw with hw | hw
  · simp only [make, List.mem_cons, List.not_mem_nil, or_false] at hw
    rcases hw with rfl | rfl | hw
    · exact hn
    · exact hr
    · refine hs w (List.mem_append_right _ ?_)
      simpa using hw
  · obtain ⟨c, hcm, rfl⟩ := List.mem_map.mp hw
    obtain ⟨f, hf, ha⟩ := ((columnsFrom_apart hc .nil (List.forall_mem_nil _)).2 c hcm).resolve_left
      List.not_mem_nil
    rw [ha.name]
    exact .of_mem (Declaration.fieldName_mem_words hf)

theorem madeOf_generatedNames (hs : s.MadeOf d.words)
    (hc : columnsFrom config scope d.name s.parts [] [] d.fields = .ok columns) :
    ∀ n ∈ (make d s columns).generatedNames, Lexer.MadeOf d.words n := by
  have hw := madeOf_words hs hc
  have hn : Lexer.MadeOf d.words d.name := .of_mem d.name_mem_words
  have ho {o : Option String} {ending : String} (ht : ∀ t ∈ o.toList, t ∈ s.texts)
      (he : IsBare ending.toList) : Lexer.MadeOf d.words (o.getD (d.name ++ ending)) := by
    cases o with
    | none => exact hn.append (.of_isBare he)
    | some t => exact hs t (ht t (by simp))
  intro n hm
  rcases List.mem_append.mp hm with hm | hm
  · simp only [List.mem_cons, List.not_mem_nil, or_false] at hm
    rcases hm with rfl | rfl | rfl | hm
    · exact ho (by simp +contextual [RecordSettings.texts]) (by decide)
    · exact ho (by simp +contextual [RecordSettings.texts]) (by decide)
    · exact hn.append (.of_isBare (by decide))
    · exact madeOf_ownMethod hw n (by simpa using hm)
  · obtain ⟨c, hcm, hm⟩ := List.mem_flatMap.mp hm
    rcases List.mem_append.mp hm with hm | hm
    · exact madeOf_slotName hc hw n (List.mem_flatMap.mpr ⟨c, hcm, hm⟩)
    · exact madeOf_columnMethod hw hcm n hm

theorem check_rejects (b : Bool) {issue : ConfigIssue} (h : issue.QuotesFrom d.words)
    (hr : issue.isOfField = false) : FailsAs d.Rejects (check d.name b issue) := by
  cases b with
  | true => exact .ok ()
  | false => exact .error (.record h hr)

theorem forM_check_rejects (o : Option String) (b : String → Bool) {issue : String → ConfigIssue}
    (h : ∀ a, o = some a → (issue a).QuotesFrom d.words) (hr : ∀ a, (issue a).isOfField = false) :
    FailsAs d.Rejects (o.forM fun a => check d.name (b a) (issue a)) := by
  cases o with
  | none => exact .ok ()
  | some a => exact check_rejects (b a) (h a rfl) (hr a)

theorem mem_of_slotClash {used : List String} {slots : List (Column × String)} {p : Column × String}
    (h : slotClash used slots = some p) : p ∈ slots := by
  induction slots generalizing used with
  | nil => cases h
  | cons o rest ih =>
    obtain ⟨c, slot⟩ := o
    unfold slotClash at h
    split at h
    · cases h
      exact List.mem_cons_self
    · exact List.mem_cons_of_mem _ (ih h)

theorem mem_of_repeated? {used names : List String} {n : String}
    (h : repeated? used names = some n) : n ∈ names := by
  induction names generalizing used with
  | nil => cases h
  | cons o rest ih =>
    unfold repeated? at h
    split at h
    · cases h
      exact List.mem_cons_self
    · exact List.mem_cons_of_mem _ (ih h)

/-- A declaration is rejected with an error about itself. -/
theorem build_rejects (d : Declaration) (scope : Scope) (config : Config) :
    FailsAs d.Rejects (build d scope config) := by
  unfold build
  refine (settings_rejects d).bind_of_ok fun s hs => ?_
  refine (columnsFrom_rejects s.parts (fun _ hf => hf) [] []).bind_of_ok fun columns hc => ?_
  have hm := settings_madeOf hs
  have hw := madeOf_words hm hc
  have hg := madeOf_generatedNames hm hc
  have ht : Lexer.MadeOf d.words (make d s columns).table := by
    change Lexer.MadeOf d.words (s.table.getD (Naming.defaultTable d.name))
    cases h : s.table with
    | none =>
      exact LetterCase.madeOf_lower (Naming.madeOf_pluralize (.of_mem d.name_mem_words))
    | some t => exact hm t (by simp [RecordSettings.texts, h])
  have hone {t : String} {issue : String → ConfigIssue} (hi : (issue t).texts = [t])
      (h : Lexer.MadeOf d.words t) : (issue t).QuotesFrom d.words := by
    rw [ConfigIssue.QuotesFrom, hi]
    exact List.forall_mem_singleton.mpr h.breaksFrom
  dsimp only
  refine (check_rejects _ (hone rfl ht) rfl).bind fun _ => ?_
  refine (forM_check_rejects _ _ (fun f hf => hone rfl ?_) fun _ => rfl).bind fun _ => ?_
  · exact hm f (by simp [RecordSettings.texts, show s.softDelete = some f from hf])
  refine (forM_check_rejects _ _ (fun k hk => hone rfl ?_) fun _ => rfl).bind fun _ => ?_
  · exact hm k (by simp [RecordSettings.texts, show s.primaryKey = some k from hk])
  have hp : ConfigIssue.missingPrimaryKey.QuotesFrom d.words := List.forall_mem_nil _
  refine (check_rejects _ hp rfl).bind fun _ => ?_
  refine FailsAs.bind ?_ fun _ => FailsAs.bind ?_ fun _ => FailsAs.bind ?_ fun _ => .ok _
  · -- slots that clash
    unfold checkSlots
    dsimp only
    split
    next c slot h =>
      obtain ⟨o, hcm, hp⟩ := List.mem_flatMap.mp (mem_of_slotClash h)
      obtain ⟨n, hn, he⟩ := List.mem_map.mp hp
      obtain ⟨rfl, rfl⟩ := Prod.mk.inj he
      obtain ⟨f, hf, ha⟩ :=
        ((columnsFrom_apart hc .nil (List.forall_mem_nil _)).2 o hcm).resolve_left
          List.not_mem_nil
      change FailsAs d.Rejects (.error (.ofField d.name o.name (.blueprintFieldCollision n)))
      rw [ha.name]
      exact .error (Declaration.rejects_field hf
        (hone rfl (madeOf_slotName hc hw n (List.mem_flatMap.mpr ⟨o, hcm, hn⟩))))
    next => exact .ok ()
  · -- names that are no identifiers
    unfold checkIdentifiers
    split
    next bad h => exact .error (.record (hone rfl (hg bad (List.mem_of_find?_eq_some h))) rfl)
    next => exact .ok ()
  · -- methods that clash
    unfold checkMethods
    split
    next n h =>
      obtain ⟨a, ha, rfl⟩ := List.mem_map.mp (mem_of_repeated? h)
      exact .error (.record (hone rfl (madeOf_methodName hw ha)) rfl)
    next => exact .ok ()

end Record
end RecordStore
