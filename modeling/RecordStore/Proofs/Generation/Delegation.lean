import RecordStore.Proofs.Generation.Declared
import RecordStore.Proofs.Generation.Ledger

/-!
The repository of a record: a trait that declares the methods told about, and its implementation,
which passes every call on to the store's own method of the same signature. What is told about is
what the store's own implementations define.
-/
namespace RecordStore

open Code

/-- The functions that a message defines in the store's own implementations. -/
def Message.functions (ctx : Context) : Message → List Code
  | fragment f => f.functions ctx
  | _ => []

/-- In fragments that are read as such, a reader finds the methods that they are made of. -/
theorem Fragment.functions_eq {ctx : Context} (hc : ctx.IsBalanced) {fs : List Fragment}
    (h : ∀ f ∈ fs, f.IsRead ctx) :
    fs.flatMap (functions ctx) = (fs.flatMap defined).map StoreMethod.signature ∧
      ∀ m ∈ fs.flatMap defined, m.IsReadable := by
  constructor
  · rw [List.map_flatMap]
    exact List.flatMap_congr fun f hf => (h f hf hc).1
  · intro m hm
    obtain ⟨f, hf, hm⟩ := List.mem_flatMap.mp hm
    exact (h f hf hc).2 m hm

theorem Message.functions_eq {ctx : Context} (hc : ctx.IsBalanced) {ms : List Message}
    (h : ∀ f, .fragment f ∈ ms → f.IsRead ctx) :
    ms.flatMap (functions ctx) = (ms.flatMap defined).map StoreMethod.signature := by
  rw [List.map_flatMap]
  refine List.flatMap_congr fun m hm => ?_
  cases m with
  | fragment f => exact (h f hm hc).1
  | _ => rfl

/-! ### Signatures of methods -/

/-- The name of an input that is a plain name with a type. -/
def Parameter.name? : RecordStore.Parameter → Option String
  | .receiver _ => none
  | .typed _ p _ =>
    match p.form with
    | .name n => some n
    | _ => none

/-- A signature that takes a receiver, and besides only plain names: the arguments, in order. -/
structure Signature.IsMethod (s : Signature) (arguments : List String) : Prop where
  receiver : s.inputs.any Parameter.isReceiver = true
  arguments : (s.inputs.filter (!·.isReceiver)).map Parameter.name? = arguments.map some

/-- The operation that such a signature declares. -/
def Signature.operation (s : Signature) (arguments : List String) : Operation :=
  ⟨s.name, arguments, s.tokens⟩

theorem Operation.filterMap_argument {inputs : List RecordStore.Parameter}
    {arguments : List String}
    (h : (inputs.filter (!·.isReceiver)).map Parameter.name? = arguments.map some) :
    inputs.filterMap argument = arguments.map .ok := by
  induction inputs generalizing arguments with
  | nil =>
    obtain rfl : arguments = [] := by simpa using h.symm
    rfl
  | cons i inputs ih =>
    cases i with
    | receiver r => exact ih h
    | typed attrs p ty =>
      cases arguments with
      | nil => simp [Parameter.isReceiver] at h
      | cons n arguments =>
        simp only [List.filter_cons, Parameter.isReceiver, Bool.not_false, if_true,
          List.map_cons, List.cons.injEq] at h
        have hn : p.form = .name n := by
          have hp := h.1
          unfold Parameter.name? at hp
          dsimp only at hp
          split at hp
          next hf =>
            cases hp
            exact hf
          next => cases hp
        rw [List.filterMap_cons]
        simp only [argument, hn]
        rw [ih h.2]
        rfl

theorem Operation.ofSignature_eq {s : Signature} {arguments : List String}
    (h : s.IsMethod arguments) : ofSignature s = .ok (s.operation arguments) := by
  have hm : (arguments.map Except.ok).mapM id = (.ok arguments : Except Error (List String)) := by
    rw [mapM_eq_ok]
    exact List.forall₂_map_left_iff.mpr (List.forall₂_same.mpr fun _ _ => rfl)
  rw [ofSignature, filterMap_argument h.arguments, hm]
  rfl

/-! ### The repository -/

namespace Repository

/-- The trait for a table of methods that are given as texts. -/
def ofTable? (ctx : Context) (table : List (String × String)) : Except Error (Option Code) := do
  code? ctx (← table.mapM fun m => Operation.ofText m.2)

/-- The functions of the trait that some code starts with. -/
def declared (c : Code) : List Passage :=
  (((c.passages "trait").head?.bind Passage.body).getD []).passages "fn"

/-- The functions of the implementation that some code starts with. -/
def implemented (c : Code) : List Passage :=
  (((c.passages "impl").head?.bind Passage.body).getD []).passages "fn"

/-- A call of the store's own method. -/
def call (ctx : Context) (o : Operation) : Code :=
  name ctx.storeType ++ ofText "::<D>::" ++ name o.name ++
    Token.parens (ofText "self ," ++ commas (o.arguments.map name))

/-- Code of a trait with some operations, and of its implementation for the store. -/
structure Forwards (ctx : Context) (operations : List Operation) (c : Code) : Prop where
  /-- The trait declares each operation once and in order, and each is passed on. -/
  written : ∃ trait, identifier? ctx.record.repositoryName = some trait ∧
    c = doc ("Operations of a `" ++ ctx.record.name ++ "` store.") ++ ctx.visibility ++
      ofText "trait" ++ name trait ++
      Token.braces (operations.flatMap fun o => o.signature ++ ofText ";") ++
      ofText "impl <" ++ ctx.connection ++ ofText ">" ++ name trait ++ ofText "for" ++
      name ctx.storeType ++ ofText "<D>" ++
      Token.braces (operations.flatMap fun o => o.signature ++ Token.braces (call ctx o))
  /-- A reader finds just that. -/
  read : ctx.IsBalanced → (∀ o ∈ operations, o.signature.IsHead "fn") →
    declared c = operations.map (fun o => ⟨o.signature, none⟩) ∧
      implemented c = operations.map fun o => ⟨o.signature, some (call ctx o)⟩

variable {ctx : Context}

theorem balanced_call (o : Operation) : (call ctx o).GroupBalanced := by
  have ha : (commas (o.arguments.map name)).GroupBalanced :=
    .commas (List.forall_mem_map.mpr fun _ _ => rfl)
  rw [GroupBalanced, call]
  simp [ha]

/-- What stands before the methods of an implementation of a trait. -/
def implHead (ctx : Context) (trait : String) : Code :=
  ofText "impl <" ++ ctx.connection ++ ofText ">" ++ name trait ++ ofText "for" ++
    name ctx.storeType ++ ofText "<D>"

theorem isHead_impl (h : ctx.IsBalanced) (trait : String) :
    (implHead ctx trait).IsHead "impl" := by
  have hi : ofText "impl <" = [.ident "impl", .punct '<' false] := by decide +kernel
  have hf : (ofText "for").Leads .start .start := by decide +kernel
  have hn (n : String) : (name n).Leads .start .start := rfl
  have he : (ofText "<D>").Leads .start .start := by decide +kernel
  refine ⟨_, false, ?_, ((((h.leads_connection.append (hn trait)).append hf).append
    (hn ctx.storeType)).append he)⟩
  simp [implHead, hi]

section

variable {operations : List Operation} (ho : ∀ o ∈ operations, o.signature.IsHead "fn")
include ho

theorem reads_declarations : Reads "fn" (operations.flatMap declaration)
    (operations.map fun o => ⟨o.signature, none⟩) :=
  .flatMap fun o hm => (ho o hm).reads_semicolon

theorem reads_delegations : Reads "fn" (operations.flatMap (delegation ctx))
    (operations.map fun o => ⟨o.signature, some (call ctx o)⟩) :=
  .flatMap fun o hm => (ho o hm).reads (balanced_call o)

theorem balanced_declarations : GroupBalanced (operations.flatMap declaration) :=
  .flatMap fun o hm => by
    rw [GroupBalanced, declaration]
    simp [(ho o hm).balanced]

theorem balanced_delegations : GroupBalanced (operations.flatMap (delegation ctx)) :=
  .flatMap fun o hm => by
    have hd : delegation ctx o = o.signature ++ Token.braces (call ctx o) := rfl
    rw [GroupBalanced, hd]
    simp [(ho o hm).balanced, balanced_call o]

/-- The trait and its implementation, behind their documentation and visibility. -/
theorem read_code (h : ctx.IsBalanced) {front : Code} {trait : String} (ht : trait ≠ "impl")
    (hf : ∀ keyword, "pub" ≠ keyword → front.Reads keyword []) :
    let c := front ++ (ofText "trait" ++ name trait ++
      Token.braces (operations.flatMap declaration)) ++
      (implHead ctx trait ++ Token.braces (operations.flatMap (delegation ctx)))
    declared c = operations.map (fun o => ⟨o.signature, none⟩) ∧
      implemented c = operations.map fun o => ⟨o.signature, some (call ctx o)⟩ := by
  intro c
  have hhead : (ofText "trait" ++ name trait).IsHead "trait" :=
    ⟨name trait, false, by rw [ofText_trait]; rfl, rfl⟩
  have htrait := (hf "trait" (by decide)).append (hhead.reads (balanced_declarations ho))
  have hnone : Reads "impl" (ofText "trait" ++ name trait ++
      Token.braces (operations.flatMap declaration)) [] := by
    have hw : (ofText "trait").Reads "impl" [] := by decide +kernel
    exact (hw.append (reads_ident ht)).append ((balanced_declarations ho).reads .brace)
  have hbody : GroupBalanced (operations.flatMap (delegation ctx)) := balanced_delegations ho
  have himpl := ((hf "impl" (by decide)).append hnone).append ((isHead_impl h trait).reads hbody)
  constructor
  · rw [declared, htrait.head?_passages]
    exact (reads_declarations ho).passages
  · rw [implemented, himpl.passages]
    exact (reads_delegations ho).passages

end

/-- The trait that is made of some operations passes them on; without operations there is none. -/
theorem exists_code? {r : Record} {config : Config} (hr : r.Built)
    (hctx : Context.ofRecord r config = .ok ctx) (operations : List Operation) :
    ∃ c, code? ctx operations = .ok c ∧ (c = none ↔ operations = []) ∧
      ∀ x ∈ c, Forwards ctx operations x := by
  have hrecord := Context.record_eq hctx
  cases operations with
  | nil => exact ⟨none, rfl, by simp, nofun⟩
  | cons o os =>
    obtain ⟨trait, hi⟩ := Option.isSome_iff_exists.mp
      (hr.identifiers r.repositoryName (by simp [Record.generatedNames]))
    have hn : trait ≠ "impl" := by
      rintro rfl
      exact notMem_keywords_of_identifier? hi (by decide)
    rw [← hrecord] at hi
    unfold code?
    rw [if_neg (by simp), identifierOf, hi]
    refine ⟨_, rfl, by simp, fun x hx => ?_⟩
    cases hx
    refine ⟨⟨trait, hi, rfl⟩, fun hb ho => ?_⟩
    have hf (keyword : String) (hk : "pub" ≠ keyword) :
        Reads keyword (doc ("Operations of a `" ++ ctx.record.name ++ "` store.") ++
          ctx.visibility) [] := by
      obtain ⟨v, hv, hvb⟩ := hb.visibility
      exact (isAttributes_doc _).reads.append (hv ▸ hvb.reads hk)
    simpa [implHead, -List.flatMap_cons, -List.map_cons] using read_code ho hb hn hf

/-- So it is for a table of texts. -/
theorem exists_ofTable? {r : Record} {config : Config} (hr : r.Built)
    (hctx : Context.ofRecord r config = .ok ctx) {table : List (String × String)}
    {signatures : List (Signature × List String)}
    (h : List.Forall₂ (fun m s => Signature.read? m.2 = some s.1 ∧ s.1.IsMethod s.2)
      table signatures) :
    ∃ c, ofTable? ctx table = .ok c ∧ (c = none ↔ table = []) ∧
      ∀ x ∈ c, Forwards ctx (signatures.map fun s => s.1.operation s.2) x := by
  have hm : table.mapM (fun m => Operation.ofText m.2) =
      .ok (signatures.map fun s => s.1.operation s.2) := by
    rw [mapM_eq_ok, List.forall₂_map_right_iff]
    refine h.imp fun m s ⟨hs, hmethod⟩ => ?_
    rw [Operation.ofText, hs]
    exact Operation.ofSignature_eq hmethod
  obtain ⟨c, hc, hnone, hforward⟩ :=
    exists_code? hr hctx (signatures.map fun s => s.1.operation s.2)
  refine ⟨c, ?_, ?_, hforward⟩
  · rw [ofTable?, hm]
    exact hc
  · rw [hnone, List.map_eq_nil_iff, ← List.length_eq_zero_iff, ← h.length_eq,
      List.length_eq_zero_iff]

end Repository

/-! ### Methods of records -/

namespace Arrivals

/-- Where no name occurs twice all entries stay. -/
theorem firstOfEach_of_nodup {α : Type} {entries : List (String × α)}
    (h : (entries.map Prod.fst).Nodup) : firstOfEach entries = entries := by
  have hk (kept : List (String × α)) (hn : ((kept ++ entries).map Prod.fst).Nodup) :
      entries.foldl (fun kept e => if kept.any (·.1 == e.1) then kept else kept ++ [e]) kept =
        kept ++ entries := by
    clear h
    induction entries generalizing kept with
    | nil => exact (List.append_nil kept).symm
    | cons e entries ih =>
      have he : kept.any (·.1 == e.1) = false := by
        rw [List.map_append, List.nodup_append] at hn
        rw [List.any_eq_false]
        intro k hm hke
        exact hn.2.2 k.1 (List.mem_map_of_mem hm) e.1 (by simp) (by simpa using hke)
      rw [List.append_cons] at hn ⊢
      rw [List.foldl_cons, he]
      exact ih _ hn
  exact hk [] h

theorem map_snd_declared (ps : Arrivals) :
    (declared ps).map Prod.snd = (ordered ps).flatMap Message.told := by
  unfold declared
  induction ordered ps with
  | nil => rfl
  | cons m ms ih => cases m <;> simpa [Message.told] using ih

theorem flatMap_fragments (ps : Arrivals) :
    (fragments ps).flatMap Fragment.defined = (ordered ps).flatMap Message.defined := by
  unfold fragments
  induction ordered ps with
  | nil => rfl
  | cons m ms ih => cases m <;> simpa [Message.defined] using ih

end Arrivals

namespace RecordCode

open Arrivals

variable {r : Record} {config : Config} {code : RecordCode}

/-- The operations of a record are all that is told about. -/
theorem operations_eq_told (hm : r.storeMethods.Nodup) (h : ofRecord r config = .ok code) :
    operations (Packet.sequence (scripts r config)) =
      (declared (Packet.sequence (scripts r config))).map Prod.snd := by
  have hd := declaredMethods_eq h
  rw [declaredMethods] at hd
  rw [operations, firstOfEach_of_nodup]
  rw [hd]
  exact hm.sublist (List.filter_sublist.map _)

/-- They are the methods in its fragments. -/
theorem operations_eq_defined (hr : r.Built) (hm : r.storeMethods.Nodup)
    (h : ofRecord r config = .ok code) : operations (Packet.sequence (scripts r config)) =
      ((fragments (Packet.sequence (scripts r config))).flatMap Fragment.defined).map
        StoreMethod.operation := by
  have hn := failure?_of_ofRecord h
  have hf (f : Feature) : (messages f (Packet.sequence (scripts r config))).flatMap Message.told =
      ((messages f (Packet.sequence (scripts r config))).flatMap Message.defined).map
        StoreMethod.operation := by
    rw [messages_sequence hn]
    split
    · exact (f.even_script hr config).1
    · rfl
  rw [operations_eq_told hm h, map_snd_declared, flatMap_fragments, ordered, List.flatMap_assoc,
    List.flatMap_assoc, List.map_flatMap]
  simp only [hf]

/-- What a reader finds in the fragments of a record. -/
theorem isRead_fragments {ctx : Context} (hr : r.Built)
    (hctx : Context.ofRecord r config = .ok ctx) (h : ofRecord r config = .ok code) :
    ∀ x ∈ fragments (Packet.sequence (scripts r config)), x.IsRead ctx := by
  intro x hx
  obtain ⟨m, hm, hmx⟩ := List.mem_filterMap.mp hx
  obtain ⟨f, -, hm⟩ := List.mem_flatMap.mp hm
  rw [messages_sequence (failure?_of_ofRecord h)] at hm
  split at hm
  · cases m with
    | fragment y =>
      cases hmx
      exact (f.even_script hr config).2 ctx hctx x hm
    | _ => cases hmx
  · cases hm

/-- What the features of an accepted record tell about are the methods that they define in the
store's own implementations, in the same order and with the same signatures, also where a feature
fails. The trait declares the methods of a table, each once and in order, and its implementation
calls the store's own method of that name with each of its arguments once and in order. This holds
for any table of signatures with a receiver and plain arguments, and for that of the record, whose
methods the store has. -/
theorem methods_delegated {d : Declaration} {scope : Scope} {built : Config}
    (h : Record.build d scope built = .ok r) (config : Config) :
    (∀ f : Feature, (f.script r config).messages.flatMap Message.told =
      ((f.script r config).messages.flatMap Message.defined).map StoreMethod.operation) ∧
    ∀ ctx, Context.ofRecord r config = .ok ctx →
      (ctx.IsBalanced → ∀ f : Feature,
        (f.script r config).messages.flatMap (Message.functions ctx) =
          ((f.script r config).messages.flatMap Message.told).map Operation.signature) ∧
      (∀ table signatures, List.Forall₂ (fun (m : String × String) (s : Signature × List String) =>
          Signature.read? m.2 = some s.1 ∧ s.1.IsMethod s.2) table signatures →
        ∃ c, Repository.ofTable? ctx table = .ok c ∧ (c = none ↔ table = []) ∧
          ∀ x ∈ c, Repository.Forwards ctx (signatures.map fun s => s.1.operation s.2) x) ∧
      ∀ code, ofRecord r config = .ok code →
        let ps := Packet.sequence (scripts r config)
        operations ps =
          ((fragments ps).flatMap Fragment.defined).map StoreMethod.operation ∧
        ∃ c, Repository.code? ctx (operations ps) = .ok c ∧ (c = none ↔ operations ps = []) ∧
          ∀ x ∈ c, Repository.Forwards ctx (operations ps) x ∧ (ctx.IsBalanced →
            (Repository.declared x).map Passage.head =
                (fragments ps).flatMap (Fragment.functions ctx) ∧
              Repository.implemented x =
                (operations ps).map fun o => ⟨o.signature, some (Repository.call ctx o)⟩) := by
  have hr := Record.built_of_build h
  refine ⟨fun f => (f.even_script hr config).1, fun ctx hctx => ⟨?fragments, ?table, ?code⟩⟩
  case fragments =>
    intro hb f
    have he := f.even_script hr config
    rw [he.1, Message.functions_eq hb (he.2 ctx hctx), List.map_map]
    rfl
  case table => exact fun table signatures => Repository.exists_ofTable? hr hctx
  case code =>
    intro code hcode ps
    have hmethods : r.storeMethods.Nodup := by
      obtain ⟨s, columns, -, -, -, -, -, -, -, -, -, hm⟩ := Record.build_eq_ok.mp h
      exact (List.nodup_cons.mp (Record.checkMethods_eq_ok.mp hm)).2
    have ho := operations_eq_defined hr hmethods hcode
    obtain ⟨c, hc, hnone, hforward⟩ := Repository.exists_code? hr hctx (operations ps)
    refine ⟨ho, c, hc, hnone, fun x hx => ⟨hforward x hx, fun hb => ?_⟩⟩
    obtain ⟨hf, hreadable⟩ := Fragment.functions_eq hb (isRead_fragments hr hctx hcode)
    have hhead : ∀ o ∈ operations ps, o.signature.IsHead "fn" := by
      rw [ho]
      exact List.forall_mem_map.mpr fun m hm => (hreadable m hm).signature
    obtain ⟨hdeclared, himplemented⟩ := (hforward x hx).read hb hhead
    refine ⟨?_, himplemented⟩
    rw [hdeclared, hf, ho, List.map_map, List.map_map]
    rfl

/-! ### Methods of notes -/

theorem note_operations (h : ofRecord (note .postgres) {} = .ok code) :
    operations (Packet.sequence (scripts (note .postgres) {})) ≠ [] := by
  intro ho
  have hm : (note .postgres).storeMethods.Nodup := by decide +kernel
  rw [operations_eq_told hm h, List.map_eq_nil_iff] at ho
  have hd := declaredMethods_eq h
  rw [declaredMethods, ho] at hd
  have ha : Action.count ∈ (note .postgres).actions := by
    simp [Record.actions_of_columns, note, noteColumns, Capabilities.all, Feature.actions]
  have hcount : (note .postgres).countMethod ∈ (note .postgres).definedMethods :=
    List.mem_map.mpr ⟨.count, List.mem_filter.mpr ⟨ha, Record.defines_of_ne (by simp)⟩, rfl⟩
  exact absurd (hd ▸ hcount) List.not_mem_nil

theorem note_isBalanced {ctx : Context} (h : Context.ofRecord (note .postgres) {} = .ok ctx) :
    ctx.IsBalanced := by
  refine Context.isBalanced_of_ofRecord h (fun p hp => ?_) nofun (by decide +kernel)
  have hc : (Path.read? ({} : Config).runtime).all (decide <| AngleBalanced ·.tokens) = true := by
    decide +kernel
  rw [hp] at hc
  simpa using hc

/-- A table with one method of notes. -/
def countTable : List (String × String) :=
  [("count_notes",
    "fn count_notes(&self, blueprint: Option<&NoteBlueprint>) -> Result<i64, Error>")]

theorem countTable_read : ∃ s : Signature, IsHead "fn" s.tokens ∧
    List.Forall₂ (fun m (s : Signature × List String) =>
      Signature.read? m.2 = some s.1 ∧ s.1.IsMethod s.2) countTable [(s, ["blueprint"])] := by
  have hc : (Signature.read? countTable[0].2).any (fun s => s.inputs.any Parameter.isReceiver &&
      (s.inputs.filter (!·.isReceiver)).map Parameter.name? = ["blueprint"].map some &&
      s.tokens = .ident "fn" :: s.tokens.tail &&
      Leads s.tokens.tail .start ⟨0, 0, false⟩) = true := by
    decide +kernel
  obtain ⟨s, hs, hp⟩ := (Option.any_eq_true _ _).mp hc
  simp only [Bool.and_eq_true, decide_eq_true_eq] at hp
  obtain ⟨⟨⟨hreceiver, harguments⟩, hfn⟩, hrest⟩ := hp
  exact ⟨s, ⟨_, false, hfn, hrest⟩, .cons ⟨hs, hreceiver, harguments⟩ .nil⟩

/-- The methods of notes are told about and read in the code, and both their own table and one that
is given as text make a trait. -/
theorem methods_delegated_note :
    ∃ ctx code own s given, Context.ofRecord (note .postgres) {} = .ok ctx ∧ ctx.IsBalanced ∧
      ofRecord (note .postgres) {} = .ok code ∧
      Repository.code? ctx (operations (Packet.sequence (scripts (note .postgres) {}))) =
        .ok (some own) ∧
      List.Forall₂ (fun m (s : Signature × List String) =>
        Signature.read? m.2 = some s.1 ∧ s.1.IsMethod s.2) countTable [(s, ["blueprint"])] ∧
      Repository.ofTable? ctx countTable = .ok (some given) ∧
      Repository.declared given = [⟨s.tokens, none⟩] := by
  have hr := Record.built_of_build (note_build .postgres)
  obtain ⟨ctx, hctx⟩ : ∃ ctx, Context.ofRecord (note .postgres) {} = .ok ctx :=
    exists_context hr (by decide +kernel) (by decide +kernel)
  obtain ⟨code, hcode⟩ : ∃ code, ofRecord (note .postgres) {} = .ok code :=
    exists_ofRecord hr (by decide +kernel) (by decide +kernel) (by decide +kernel)
  obtain ⟨s, hhead, htable⟩ := countTable_read
  obtain ⟨ht, hc⟩ := ((methods_delegated (note_build .postgres) {}).2 ctx hctx).2
  obtain ⟨own, hown, hnone, -⟩ := (hc code hcode).2
  obtain ⟨given, hgiven, hempty, hforward⟩ := ht _ _ htable
  obtain ⟨own, rfl⟩ := Option.ne_none_iff_exists'.mp (mt hnone.mp (note_operations hcode))
  obtain ⟨given, rfl⟩ := Option.ne_none_iff_exists'.mp (mt hempty.mp (List.cons_ne_nil _ _))
  have hb := note_isBalanced hctx
  have hread := (hforward given rfl).read hb (by simpa [Signature.operation] using hhead)
  exact ⟨ctx, code, own, s, given, hctx, hb, hcode, hown, htable, hgiven, hread.1⟩

end RecordCode
end RecordStore
