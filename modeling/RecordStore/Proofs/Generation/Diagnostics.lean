import RecordStore.Proofs.Generation.Failure
import RecordStore.Proofs.Schema.Diagnostics
import RecordStore.Proofs.Source.DeclaredNames

/-!
What rejections of a source say. A rejection is due to one struct of the source; its message holds
that struct's name, and the name of one of its fields where the problem is one of a field. The
message is not always one line: it quotes options after they have been decoded, and types as they
are written.
-/
namespace RecordStore

open Lexer

/-! ### Structs and what they are tagged with -/

namespace StructItem

/-- The fields that have names, with their types. -/
def typedFields (s : StructItem) : List (String × Ty) :=
  match s.fields with
  | .named fields _ => fields.filterMap fun f => f.name.map fun n => (n, f.ty)
  | _ => []

/-- The keys and values of the options among some attributes, decoded. -/
def optionWords (attributes : List Attribute) : List String :=
  match Declaration.tagsOf attributes with
  | .ok tags => tags.flatMap Tag.words
  | .error _ => []

/-- The keys and values of the options on a struct and on its fields. -/
def words (s : StructItem) : List String :=
  optionWords s.attributes ++
    match s.fields with
    | .named fields _ => fields.flatMap fun f => optionWords f.attributes
    | _ => []

end StructItem

theorem Error.About.mono {record : String} {fields fields' : List (String × Ty)}
    {ws vs : List String} {e : Error} (h : e.About record fields ws) (hf : ∀ f ∈ fields, f ∈ fields')
    (hw : ∀ w ∈ ws, BreaksFrom vs w) : e.About record fields' vs := by
  have hq {i : ConfigIssue} (hi : i.QuotesFrom ws) : i.QuotesFrom vs :=
    fun t ht => (hi t ht).mono hw
  cases h with
  | record hi hr => exact .record (hq hi) hr
  | field hm hi => exact .field (hf _ hm) (hq hi)
  | type hm => exact .type (hf _ hm)

namespace Declaration

/-- If one of several things fails, they all do. -/
theorem mapM_failsAs {ε α β : Type} {p : ε → Prop} {f : α → Except ε β} {as : List α}
    (h : ∀ a ∈ as, FailsAs p (f a)) : FailsAs p (as.mapM f) := by
  induction as with
  | nil => exact .ok []
  | cons a as ih =>
    obtain ⟨ha, has⟩ := List.forall_mem_cons.mp h
    rw [List.mapM_cons]
    exact ha.bind fun b => (ih has).bind fun bs => .ok _

/-- A tag that is none is told about in fixed words. -/
theorem tagsOf_failsAs (ws : List String) (attributes : List Attribute) :
    FailsAs (fun i => i.QuotesFrom ws ∧ i.isOfField = false) (tagsOf attributes) := by
  refine mapM_failsAs fun a _ => ?_
  have hq {reason : String} (hr : IsLine reason.toList) :
      (ConfigIssue.malformedTag reason).QuotesFrom ws :=
    List.forall_mem_singleton.mpr (.of_line hr)
  unfold tag
  split
  · exact .ok _
  · exact .error ⟨hq (by decide), rfl⟩
  · exact .error ⟨hq (by decide), rfl⟩

theorem optionWords_eq {attributes : List Attribute} {tags : List String}
    (h : tagsOf attributes = .ok tags) :
    StructItem.optionWords attributes = tags.flatMap Tag.words := by
  rw [StructItem.optionWords, h]

variable {s : StructItem} {d : Declaration} {fields : List FieldItem} {trailing : Bool}

theorem build_rejects (ws : List String) (hf : s.fields = .named fields trailing) :
    FailsAs (Error.About s.name s.typedFields ws) (build s fields) := by
  unfold build
  refine FailsAs.bind ?_ fun tags => FailsAs.bind (mapM_failsAs fun f hm => ?_) fun _ => .ok _
  · exact (tagsOf_failsAs ws _).mapError fun _ hi => .record hi.1 hi.2
  · unfold field
    split
    · exact .error (.record (List.forall_mem_nil _) rfl)
    next name hn =>
      refine ((tagsOf_failsAs ws _).mapError fun _ hi => ?_).bind fun _ => .ok _
      have hmem : (name, f.ty) ∈ s.typedFields := by
        rw [StructItem.typedFields, hf]
        exact List.mem_filterMap.mpr ⟨f, hm, by rw [hn]; rfl⟩
      exact .field hmem hi.1

theorem ofStruct?_rejects (ws : List String) (s : StructItem) :
    FailsAs (Error.About s.name s.typedFields ws) (ofStruct? s) := by
  unfold ofStruct?
  split
  · exact .ok none
  split
  next hf => exact (build_rejects ws hf).bind fun d => .ok (some d)
  next => exact .ok none

/-- What a struct declares has its names, its types and its options. -/
theorem of_ofStruct? (h : ofStruct? s = .ok (some d)) : d.name = s.name ∧
    (∀ f ∈ d.typedFields, f ∈ s.typedFields) ∧
    ∀ w ∈ d.words, w = s.name ∨ w ∈ s.typedFields.map Prod.fst ∨ w ∈ s.words := by
  unfold ofStruct? at h
  split at h
  · cases h
  split at h
  next fields trailing hf =>
    have hb : build s fields = .ok d := by
      cases hb : build s fields with
      | error e =>
        rw [hb] at h
        cases h
      | ok d' =>
        rw [hb] at h
        cases h
        rfl
    unfold build at hb
    obtain ⟨tags, ht, hb⟩ := bind_eq_ok.mp hb
    obtain ⟨fs, hfs, hb⟩ := bind_eq_ok.mp hb
    cases hb
    -- each declared field comes of one of the struct
    have hfield : ∀ f' ∈ fs, ∃ f ∈ fields, f.name = some f'.name ∧ f'.ty = f.ty ∧
        tagsOf f.attributes = .ok f'.tags := by
      intro f' hm
      obtain ⟨f, hfm, he⟩ := exists_of_mem_forall₂ (mapM_eq_ok.mp hfs).flip hm
      refine ⟨f, hfm, ?_⟩
      unfold field at he
      split at he
      · cases he
      next name hn =>
        obtain ⟨ftags, hft, he⟩ := bind_eq_ok.mp he
        cases he
        exact ⟨hn, rfl, mapError_eq_ok.mp hft⟩
    have hmem {f' : FieldDeclaration} (hm : f' ∈ fs) : (f'.name, f'.ty) ∈ s.typedFields := by
      obtain ⟨f, hfm, hn, hty, -⟩ := hfield f' hm
      rw [StructItem.typedFields, hf]
      exact List.mem_filterMap.mpr ⟨f, hfm, by rw [hn, hty]; rfl⟩
    refine ⟨rfl, fun p hp => ?_, fun w hw => ?_⟩
    · obtain ⟨f', hm, rfl⟩ := List.mem_map.mp hp
      exact hmem hm
    · simp only [words, List.cons_append, List.mem_cons, List.mem_append, List.mem_map] at hw
      rcases hw with rfl | (⟨f', hm, rfl⟩ | hw) | hw
      · exact .inl rfl
      · exact .inr (.inl (List.mem_map.mpr ⟨_, hmem hm, rfl⟩))
      · refine .inr (.inr (List.mem_append_left _ ?_))
        rwa [optionWords_eq (mapError_eq_ok.mp ht)]
      · obtain ⟨f', hm, hw⟩ := List.mem_flatMap.mp hw
        obtain ⟨f, hfm, -, -, hft⟩ := hfield f' hm
        refine .inr (.inr (List.mem_append_right _ ?_))
        rw [hf]
        exact List.mem_flatMap.mpr ⟨f, hfm, by rwa [optionWords_eq hft]⟩
  next => cases h

end Declaration

/-! ### What a rejection is due to -/

/-- Why a struct is rejected: it declares no record although it should, or one under a name that
was taken before, or one that cannot be accepted. -/
inductive StructItem.RejectedFor (scope : Scope) (config : Config) (earlier : List StructItem)
    (s : StructItem) : Error → Prop where
  | declaring {e : Error} (h : Declaration.ofStruct? s = .error e) :
      RejectedFor scope config earlier s e
  | repeating {d d' : Declaration} {t : StructItem}
      (h : Declaration.ofStruct? s = .ok (some d)) (ht : t ∈ earlier)
      (h' : Declaration.ofStruct? t = .ok (some d')) (hn : d'.name = d.name) :
      RejectedFor scope config earlier s (.ofRecord s.name .duplicateRecord)
  | building {d : Declaration} {e : Error} (h : Declaration.ofStruct? s = .ok (some d))
      (he : Record.build d scope config = .error e) : RejectedFor scope config earlier s e

namespace Error

/-- Where a rejection is; other failures are nowhere in particular. -/
def site? : Error → Option Site
  | config site _ => some site
  | unsupportedType site _ _ => some site
  | _ => none

/-- Whether a failure can only be one of a field. -/
def isOfField : Error → Bool
  | config _ issue => issue.isOfField
  | unsupportedType _ _ _ => true
  | _ => false

/-- What a rejection says of the struct that it is due to. -/
structure Diagnoses (e : Error) (s : StructItem) (site : Site) : Prop where
  record : site.record = s.name
  field : ∀ f, site.field = some f → f ∈ s.typedFields.map Prod.fst
  ofField : e.isOfField = true → site.field.isSome = true
  shown : ∃ before after, e.message = before ++ site.text ++ after
  /-- Lines break only in decoded options and in the type of the field in question. -/
  breaks : ∀ c ∈ e.message.toList, isLineBreak c = true → (∃ w ∈ s.words, c ∈ w.toList) ∨
    ∃ f ∈ s.typedFields, ∃ issue, e = .unsupportedType site f.2.display issue ∧
      site.field = some f.1 ∧ c ∈ f.2.display.toList

/-- A rejection that is about a struct with bare names names it and breaks lines only as told. -/
theorem About.diagnoses {e : Error} {s : StructItem} {site : Site}
    (h : e.About s.name s.typedFields s.words) (hs : e.site? = some site)
    (hn : IsBare s.name.toList) (hf : ∀ f ∈ s.typedFields, IsBare f.1.toList) :
    e.Diagnoses s site := by
  have hbare {t : String} {ws : List String} (ht : IsBare t.toList) : BreaksFrom ws t :=
    (MadeOf.of_isBare ht).breaksFrom
  have hconfig {site : Site} {issue : ConfigIssue} (ht : BreaksFrom s.words site.text)
      (hi : issue.QuotesFrom s.words) : BreaksFrom s.words (config site issue).message :=
    (((BreaksFrom.of_line (by decide)).append ht).append (.of_line (by decide))).append
      (ConfigIssue.breaksFrom_message hi)
  cases h with
  | @record issue hi hr =>
    cases hs
    refine ⟨rfl, nofun, fun h => absurd h (by simp [ofRecord, isOfField, hr]), ?_, fun c hc hb => ?_⟩
    · exact ⟨"config error at ", ": " ++ _, String.append_assoc ..⟩
    · have ht : BreaksFrom s.words (Site.text { record := s.name }) :=
        Site.breaksFrom_text (hbare hn) fun f h => by cases h
      exact .inl (hconfig ht hi c hc hb)
  | @field f issue hm hi =>
    cases hs
    refine ⟨rfl, ?_, fun _ => rfl, ?_, fun c hc hb => ?_⟩
    · rintro _ ⟨⟩
      exact List.mem_map_of_mem hm
    · exact ⟨"config error at ", ": " ++ _, String.append_assoc ..⟩
    · have ht : BreaksFrom s.words (Site.text { record := s.name, field := some f.1 }) :=
        Site.breaksFrom_text (hbare hn) (by rintro _ ⟨⟩; exact hbare (hf f hm))
      exact .inl (hconfig ht hi c hc hb)
  | @type f issue hm =>
    cases hs
    refine ⟨rfl, ?_, fun _ => rfl, ?_, fun c hc hb => ?_⟩
    · rintro _ ⟨⟩
      exact List.mem_map_of_mem hm
    · have hassoc (a b c d e f g : String) :
          a ++ b ++ c ++ d ++ e ++ f ++ g = a ++ b ++ (c ++ d ++ e ++ f ++ g) := by
        simp only [String.append_assoc]
      exact ⟨_, _, hassoc ..⟩
    · have ht : BreaksFrom [f.2.display] (Site.text { record := s.name, field := some f.1 }) :=
        Site.breaksFrom_text (hbare hn) (by rintro _ ⟨⟩; exact hbare (hf f hm))
      have hi : BreaksFrom [f.2.display] issue.message := by
        cases issue <;> exact .of_line (by decide)
      have hall : BreaksFrom [f.2.display]
          (unsupportedType { record := s.name, field := some f.1 } f.2.display issue).message :=
        ((((((BreaksFrom.of_line (by decide)).append ht).append (.of_line (by decide))).append
          (.of_mem List.mem_cons_self)).append (.of_line (by decide))).append hi).append
          (.of_line (by decide))
      obtain ⟨w, hw, hcw⟩ := hall c hc hb
      obtain rfl := List.mem_singleton.mp hw
      exact .inr ⟨f, hm, issue, rfl, rfl, hcw⟩

end Error

namespace StructItem

variable {s : StructItem} {scope : Scope} {config : Config} {earlier : List StructItem} {e : Error}

/-- Whatever a struct is rejected for is about it. -/
theorem RejectedFor.about (h : s.RejectedFor scope config earlier e) (hn : IsBare s.name.toList)
    (hf : ∀ f ∈ s.typedFields, IsBare f.1.toList) : e.About s.name s.typedFields s.words := by
  cases h with
  | declaring h => exact Declaration.ofStruct?_rejects _ s e h
  | repeating => exact .record (List.forall_mem_nil _) rfl
  | building h he =>
    obtain ⟨hname, hfields, hwords⟩ := Declaration.of_ofStruct? h
    have ha := Record.build_rejects _ _ _ e he
    unfold Declaration.Rejects at ha
    rw [hname] at ha
    refine ha.mono hfields fun w hw => ?_
    rcases hwords w hw with rfl | hw | hw
    · exact (MadeOf.of_isBare hn).breaksFrom
    · obtain ⟨f, hm, rfl⟩ := List.mem_map.mp hw
      exact (MadeOf.of_isBare (hf f hm)).breaksFrom
    · exact .of_mem hw

theorem bare_of_namesAre (h : s.NamesAre Token.IsRead) :
    IsBare s.name.toList ∧ ∀ f ∈ s.typedFields, IsBare f.1.toList := by
  refine ⟨(h.name.ok _ rfl).isBare, fun p hp => ?_⟩
  unfold typedFields at hp
  split at hp
  next fields trailing hf =>
    obtain ⟨f, hm, hp⟩ := List.mem_filterMap.mp hp
    obtain ⟨n, hn, rfl⟩ := Option.map_eq_some_iff.mp hp
    exact (h.fields fields trailing hf f hm n hn n rfl).isBare
  next => cases hp

end StructItem

/-! ### Rejected sources -/

namespace Declaration

/-- The structs are looked at in order, and the first to be rejected decides. -/
theorem rejectedFor_of_collect {seen : List Declaration} {structs before : List StructItem}
    {e : Error} (scope : Scope) (config : Config) (h : collect seen structs = .error e)
    (hs : ∀ d ∈ seen, ∃ t ∈ before, ofStruct? t = .ok (some d)) :
    ∃ mid s after, structs = mid ++ s :: after ∧ s.RejectedFor scope config (before ++ mid) e := by
  induction structs generalizing seen before with
  | nil => cases h
  | cons s rest ih =>
    unfold collect at h
    cases hd : ofStruct? s with
    | error e' =>
      rw [hd] at h
      cases h
      exact ⟨[], s, rest, rfl, .declaring hd⟩
    | ok found =>
      rw [hd] at h
      -- a struct that is passed over comes before the one in question
      have hnext {seen' : List Declaration} (hr : collect seen' rest = .error e)
          (hs' : ∀ d ∈ seen', ∃ t ∈ before ++ [s], ofStruct? t = .ok (some d)) :
          ∃ mid s' after, s :: rest = mid ++ s' :: after ∧
            s'.RejectedFor scope config (before ++ mid) e := by
        obtain ⟨mid, s', after, rfl, hrej⟩ := ih hr hs'
        exact ⟨s :: mid, s', after, rfl, by rwa [List.append_assoc] at hrej⟩
      have hseen : ∀ d ∈ seen, ∃ t ∈ before ++ [s], ofStruct? t = .ok (some d) := fun d hm => by
        obtain ⟨t, ht, hd⟩ := hs d hm
        exact ⟨t, List.mem_append_left _ ht, hd⟩
      cases found with
      | none => exact hnext h hseen
      | some d =>
        change (if seen.any (·.name == d.name) then .error (.ofRecord d.name .duplicateRecord)
          else collect (seen ++ [d]) rest) = .error e at h
        split at h
        next hany =>
          cases h
          obtain ⟨d', hm, hn⟩ := List.any_eq_true.mp hany
          obtain ⟨t, ht, hd'⟩ := hs d' hm
          rw [(of_ofStruct? hd).1]
          exact ⟨[], s, rest, rfl,
            .repeating hd (by rwa [List.append_nil]) hd' (eq_of_beq hn)⟩
        next =>
          refine hnext h fun d' hm => ?_
          rcases List.mem_append.mp hm with hm | hm
          · exact hseen d' hm
          · obtain rfl := List.mem_singleton.mp hm
            exact ⟨s, List.mem_append_right _ List.mem_cons_self, hd⟩

/-- Every declaration of a source is one of its structs'. -/
theorem exists_of_mem_collect {seen ds : List Declaration} {structs : List StructItem}
    (h : collect seen structs = .ok ds) {d : Declaration} (hd : d ∈ ds) :
    d ∈ seen ∨ ∃ s ∈ structs, ofStruct? s = .ok (some d) := by
  induction structs generalizing seen with
  | nil =>
    cases h
    exact .inl hd
  | cons s rest ih =>
    unfold collect at h
    obtain ⟨found, hf, h⟩ := bind_eq_ok.mp h
    have hrest {seen' : List Declaration} (hr : collect seen' rest = .ok ds) :
        d ∈ seen' ∨ ∃ s' ∈ s :: rest, ofStruct? s' = .ok (some d) := by
      refine (ih hr).imp_right ?_
      rintro ⟨s', hm, hs'⟩
      exact ⟨s', List.mem_cons_of_mem _ hm, hs'⟩
    cases found with
    | none => exact hrest h
    | some d' =>
      dsimp only at h
      split at h
      · cases h
      · rcases hrest h with hm | hm
        · rcases List.mem_append.mp hm with hm | hm
          · exact .inl hm
          · obtain rfl := List.mem_singleton.mp hm
            exact .inr ⟨s, List.mem_cons_self, hf⟩
        · exact .inr hm

end Declaration

namespace Companion

variable {unit source : String} {config : Config} {e : Error}

theorem generate_of_read? {file : SourceFile} (hi : IgnoreMark.isIn source = false)
    (hf : SourceFile.read? source = some file) : generate unit source config =
      Declaration.collect [] (Declaration.structs file.items) >>= fun ds =>
        (ds.mapM fun d => do
          let r ← Record.build d (.ofItems file.items) config
          RecordCode.ofRecord r config) >>= assemble unit (.ofItems file.items) := by
  unfold generate SourceUnit.ofSource
  rw [hi, hf]
  dsimp only
  rw [if_neg Bool.false_ne_true]
  cases Declaration.collect [] (Declaration.structs file.items) <;> rfl

theorem site?_of_ofRecord {r : Record} {d : Declaration} {scope : Scope}
    (hr : Record.build d scope config = .ok r) (h : RecordCode.ofRecord r config = .error e) :
    e.site? = none := by
  have hb := Record.built_of_build hr
  cases hc : r.capabilities.isEmpty with
  | true => simp [RecordCode.ofRecord, hc] at h
  | false =>
    cases ho : r.obstacle? config with
    | none =>
      obtain ⟨code, hcode⟩ := RecordCode.exists_ofRecord_of_obstacle hb ho
      rw [hcode] at h
      cases h
    | some text =>
      rw [RecordCode.ofRecord_of_obstacle hb hc ho] at h
      cases h
      rfl

theorem site?_of_assemble {scope : Scope} {records : List RecordCode}
    (h : assemble unit scope records = .error e) : e.site? = none := by
  have ht : FailsAs (fun e : Error => e.site? = none) (assemble unit scope records) := by
    unfold assemble
    refine FailsAs.bind (Declaration.mapM_failsAs fun r _ => ?_) fun texts => ?_
    · unfold recordText
      split
      · exact .ok _
      · split
        · exact .ok _
        · exact .error rfl
    · dsimp only
      split
      · exact .ok _
      · exact .error rfl
  exact ht e h

/-- A rejection of a source is due to one of its structs, and it says of that struct what it should.
It is one line unless the options or the type that it quotes break one. -/
theorem generate_rejects {site : Site} (h : generate unit source config = .error e)
    (hs : e.site? = some site) : ∃ file, SourceFile.read? source = some file ∧
      ∃ before s after, Declaration.structs file.items = before ++ s :: after ∧
        s.RejectedFor (.ofItems file.items) config before e ∧ e.Diagnoses s site := by
  have hne : ¬e.site? = none := by simp [hs]
  -- what a rejected struct is told, given the source
  have htell {file : SourceFile} (hf : SourceFile.read? source = some file)
      (hr : ∃ before s after, Declaration.structs file.items = before ++ s :: after ∧
        s.RejectedFor (.ofItems file.items) config before e) :
      ∃ file, SourceFile.read? source = some file ∧
        ∃ before s after, Declaration.structs file.items = before ++ s :: after ∧
          s.RejectedFor (.ofItems file.items) config before e ∧ e.Diagnoses s site := by
    obtain ⟨before, s, after, hsplit, hrej⟩ := hr
    have hm : s ∈ Declaration.structs file.items := hsplit ▸ by simp
    obtain ⟨i, hi, hform⟩ := List.mem_filterMap.mp hm
    have hstruct : i.form = .struct s := by
      split at hform
      next s' h => exact h.trans (congrArg _ (Option.some.inj hform))
      next => cases hform
    have hnames := SourceFile.namesAre hf i hi
    rw [Item.NamesAre, hstruct] at hnames
    obtain ⟨hn, hfs⟩ := StructItem.bare_of_namesAre hnames
    exact ⟨file, hf, before, s, after, hsplit, hrej, (hrej.about hn hfs).diagnoses hs hn hfs⟩
  cases hi : IgnoreMark.isIn source with
  | true =>
    unfold generate SourceUnit.ofSource at h
    rw [hi] at h
    cases h
  | false =>
    cases hf : SourceFile.read? source with
    | none =>
      unfold generate SourceUnit.ofSource at h
      rw [hi, hf] at h
      cases h
      cases hs
    | some file =>
      refine hf ▸ htell hf ?_
      rw [generate_of_read? hi hf] at h
      cases hc : Declaration.collect [] (Declaration.structs file.items) with
      | error e' =>
        rw [hc] at h
        cases h
        exact @Declaration.rejectedFor_of_collect [] _ [] _ _ _ hc (List.forall_mem_nil _)
      | ok ds =>
        rw [hc] at h
        have hbuild : FailsAs (fun e => e.site? = none ∨ ∃ d ∈ ds,
            Record.build d (.ofItems file.items) config = .error e)
            (ds.mapM fun d => do
              let r ← Record.build d (.ofItems file.items) config
              RecordCode.ofRecord r config) :=
          Declaration.mapM_failsAs fun d hd =>
            FailsAs.bind_of_ok (fun e he => .inr ⟨d, hd, he⟩)
              fun r hr e he => .inl (site?_of_ofRecord hr he)
        have hall := hbuild.bind (f := assemble unit (.ofItems file.items)) fun records e he =>
          .inl (site?_of_assemble he)
        obtain ⟨d, hd, he⟩ := (hall e h).resolve_left hne
        obtain ⟨s, hm, hd⟩ :=
          (Declaration.exists_of_mem_collect hc hd).resolve_left List.not_mem_nil
        obtain ⟨before, after, hsplit⟩ := List.append_of_mem hm
        exact ⟨before, s, after, hsplit, .building hd he⟩

/-- A record with an option that does not exist; its key is decoded before it is quoted. -/
def oddSource (key : String) : String :=
  "#[marlow = \"" ++ key ++ "=1\"]\nstruct Post \x7b\n #[marlow = \"\"]\n title: String\n\x7d"

theorem generate_rejects_odd :
    generate "post.rs" (oddSource "odd") {} =
        .error (.config { record := "Post" } (.unknownOption "odd")) ∧
      ∃ file, SourceFile.read? (oddSource "odd") = some file ∧
        ∃ before s after, Declaration.structs file.items = before ++ s :: after ∧
          s.RejectedFor (.ofItems file.items) {} before
            (.config { record := "Post" } (.unknownOption "odd")) ∧
          (Error.config { record := "Post" } (.unknownOption "odd")).Diagnoses s
            { record := "Post" } := by
  have h : generate "post.rs" (oddSource "odd") {} =
      .error (.config { record := "Post" } (.unknownOption "odd")) := by
    decide +kernel
  exact ⟨h, generate_rejects h rfl⟩

/-- An option breaks the line that quotes it. -/
theorem generate_rejects_two_lines : ¬∀ unit source config e site,
    generate unit source config = .error e → e.site? = some site →
      (∀ c ∈ e.message.toList, isLineBreak c = false) ∧
        ∃ before after, e.message = before ++ site.text ++ after := by
  intro h
  have hg : generate "post.rs" (oddSource "a%0Ab") {} =
      .error (.config { record := "Post" } (.unknownOption "a\nb")) := by
    decide +kernel
  have hbreak := (h _ _ _ _ _ hg rfl).1 '\n' (by decide)
  revert hbreak
  decide

end Companion
end RecordStore
