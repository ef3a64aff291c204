import RecordStore.Proofs.Generation.Needs
import RecordStore.Proofs.Schema.Rejected

/-!
The methods that producers tell about, compared with those that a record is checked for. Both are
the same in the same order, but for the method that inserts: it is checked although nothing is
produced when there is nothing to insert.
-/
namespace RecordStore

/-- The method that is told about, as the record names it. -/
def Message.labels : Message → List String
  | method label _ => [label]
  | _ => []

theorem Arrivals.map_fst_declared (ps : Arrivals) :
    (declared ps).map Prod.fst = (ordered ps).flatMap Message.labels := by
  unfold declared
  induction ordered ps with
  | nil => rfl
  | cons m ms ih => cases m <;> simpa [Message.labels] using ih

/-! ### Labels of producers -/

section

open Producer

variable (ctx : Context)

theorem Insertion.says_labels : (Insertion.produce ctx).Says Message.labels
    (if ctx.record.insertColumns.isEmpty then [] else [ctx.record.createMethod])
    fun _ => True := by
  unfold Insertion.produce
  dsimp only
  split
  · exact says_pure trivial
  apply (says_need_nil _ fun _ => rfl).bind
  intro _ _
  apply (says_each_nil fun c _ => (says_identifier c.name).mono fun _ _ => trivial).bind
  intro accessors _
  apply (says_identifier ctx.record.createMethod).bind
  intro n _
  exact (says_declare _).silent fun _ _ => says_send _

theorem Updating.says_label (c : Column) (a : Assignment) :
    (method ctx c a).Says Message.labels [ctx.record.writeMethod c a] fun _ => True := by
  unfold method
  apply (says_identifier _).bind
  intro n _
  exact (says_declare _).mono fun _ _ => trivial

theorem Updating.says_columnLabels (c : Column) :
    (columnMethods ctx c).Says Message.labels (ctx.record.writeMethods c) fun _ => True := by
  unfold columnMethods Record.writeMethods
  apply (says_need_nil _ fun _ => rfl).bind
  intro _ _
  rw [List.map_eq_flatMap]
  exact says_each fun a _ => says_label ctx c a

theorem Updating.says_labels : (Updating.produce ctx).Says Message.labels
    ((ctx.record.columns.filter Column.isWritable).flatMap ctx.record.writeMethods)
    fun _ => True := by
  unfold produce
  apply (says_each fun c _ => says_columnLabels ctx c).silent
  intro _ _
  split
  · exact says_pure trivial
  · exact says_send _

theorem Deletion.says_labels : (Deletion.produce ctx).Says Message.labels
    [ctx.record.deleteMethod] fun _ => True := by
  unfold produce
  apply (says_identifier _).bind
  intro n _
  exact (says_declare _).silent fun _ _ => says_send _

/-- A method that reads is told about before its code is sent. -/
theorem Reading.says_label (label : String) (output : Code) (documentation : String)
    (body : Code) : (method ctx label output documentation body >>= fun m =>
      send (.fragment (.methods [m]))).Says Message.labels [label] fun _ => True := by
  have hd : (method ctx label output documentation body).Says Message.labels [label]
      fun _ => True := by
    unfold method
    apply (says_identifier _).bind
    intro n _
    exact (says_declare _).mono fun _ _ => trivial
  exact hd.silent fun _ _ => says_send _

theorem Reading.says_labels : (Reading.produce ctx).Says Message.labels
    (ctx.record.findMethod :: ctx.record.countMethod ::
      ctx.record.columns.map ctx.record.selectMethod) fun _ => True := by
  have hfind : (find ctx).Says Message.labels [ctx.record.findMethod] fun _ => True := by
    unfold find
    apply (says_need_nil [ctx.record.name] fun _ => rfl).bind
    intro _ _
    apply (says_each_nil fun field _ => says_fieldInit ctx field).bind
    intro inits _
    exact says_label ctx _ _ _ _
  have hselect (c : Column) : (select ctx c).Says Message.labels [ctx.record.selectMethod c]
      fun _ => True := by
    unfold select
    apply (says_need_nil c.imports fun _ => rfl).bind
    intro _ _
    exact says_label ctx _ _ _ _
  unfold produce
  apply hfind.append
  intro _ _
  apply Says.append (says_label ctx _ _ _ _)
  intro _ _
  rw [List.map_eq_flatMap]
  exact says_forM fun c _ => hselect c

theorem BlueprintCode.says_labels : (BlueprintCode.produce ctx).Says Message.labels []
    fun _ => True := by
  have hc (c : Column) : (columnWithNeeds ctx c).Says Message.labels [] fun _ => True := by
    unfold columnWithNeeds
    apply (says_need_nil _ fun _ => rfl).bind
    intro _ _
    exact (says_columnSlots ctx c).mono fun _ _ => trivial
  unfold produce
  apply (says_each_nil fun c _ => hc c).bind
  intro slots _
  exact says_send _

end

/-! ### Features of a record -/

theorem Feature.says_labels (ctx : Context) (f : Feature) :
    (f.produce ctx).Says Message.labels ((f.actions ctx.record).map ctx.record.methodName)
      fun _ => True := by
  cases f with
  | createable =>
    have ha : (actions ctx.record createable).map ctx.record.methodName =
        if ctx.record.insertColumns.isEmpty then [] else [ctx.record.createMethod] := by
      rw [actions, apply_ite (List.map _)]
      rfl
    rw [ha]
    exact Insertion.says_labels ctx
  | updateable =>
    have ha : (actions ctx.record updateable).map ctx.record.methodName =
        (ctx.record.columns.filter Column.isWritable).flatMap ctx.record.writeMethods := by
      simp only [actions, List.map_flatMap, List.map_map]
      rfl
    rw [ha]
    exact Updating.says_labels ctx
  | deleteable => exact Deletion.says_labels ctx
  | queryable =>
    have ha : (actions ctx.record queryable).map ctx.record.methodName = ctx.record.findMethod ::
        ctx.record.countMethod :: ctx.record.columns.map ctx.record.selectMethod := by
      simp only [actions, List.map_cons, List.map_map]
      rfl
    rw [ha]
    exact Reading.says_labels ctx
  | blueprint => exact BlueprintCode.says_labels ctx

theorem Feature.labels_script {r : Record} {config : Config} {f : Feature}
    (h : (f.script r config).outcome = .ok ()) :
    (f.script r config).messages.flatMap Message.labels = (f.actions r).map r.methodName := by
  cases hc : Context.ofRecord r config with
  | error e => simp [Feature.script, hc] at h
  | ok ctx => rw [Feature.flatMap_script hc h (Feature.says_labels ctx f), Context.record_eq hc]

namespace Record

variable (r : Record)

/-- The names of the methods that are defined for a record, as the record has them. -/
def definedMethods : List String := (r.actions.filter r.defines).map r.methodName

variable {r}

theorem defines_of_ne {a : Action} (h : a ≠ .create) : r.defines a = true := by
  cases a <;> first | rfl | exact absurd rfl h

/-- Inserts come first, if there are any, and only once. -/
theorem exists_actions (r : Record) : ∃ rest, Action.create ∉ rest ∧
    (r.actions = rest ∨ r.actions = .create :: rest) := by
  cases hn : r.columns.isEmpty with
  | true => exact ⟨[], List.not_mem_nil, .inl (by simp [actions, hn])⟩
  | false =>
    have hi (b : Bool) {as : List Action} (h : Action.create ∉ as) :
        Action.create ∉ if b then as else [] := by
      cases b <;> simp [h]
    refine ⟨(if r.capabilities.update then Feature.updateable.actions r else []) ++
      ((if r.capabilities.delete then Feature.deleteable.actions r else []) ++
        if r.capabilities.query then Feature.queryable.actions r else []), ?_, ?_⟩
    · rw [List.mem_append, List.mem_append, not_or, not_or]
      exact ⟨hi _ (by simp [Feature.actions]), hi _ (by simp [Feature.actions]),
        hi _ (by simp [Feature.actions])⟩
    · rw [actions_of_columns hn]
      cases r.capabilities.create
      · exact .inl rfl
      · exact .inr rfl

/-- A record is checked for the methods that are defined, and for that of inserts of nothing. -/
theorem storeMethods_eq (r : Record) :
    (¬(.create ∈ r.actions ∧ r.insertColumns = []) → r.storeMethods = r.definedMethods) ∧
    (.create ∈ r.actions → r.insertColumns = [] →
      r.storeMethods = r.createMethod :: r.definedMethods) := by
  obtain ⟨rest, hr, ha⟩ := exists_actions r
  have hf : rest.filter r.defines = rest :=
    List.filter_eq_self.mpr fun a hm => defines_of_ne fun he => hr (he ▸ hm)
  rcases ha with ha | ha
  · simp [storeMethods, definedMethods, ha, hf, hr]
  · cases hi : r.insertColumns with
    | nil => simp [storeMethods, definedMethods, ha, hf, defines, hi, methodName]
    | cons c cs => simp [storeMethods, definedMethods, ha, hf, defines, hi]

/-- There is nothing to insert if the database makes the values of all columns. -/
theorem insertColumns_eq_nil : r.insertColumns = [] ↔ ∀ c ∈ r.columns, c.autoIncrement = true := by
  simp [insertColumns, sortedColumns, List.mem_mergeSort]

/-- A name that occurs again occurs twice. -/
theorem two_le_count_of_repeated? {used names : List String} {n : String}
    (h : repeated? used names = some n) : 2 ≤ (used ++ names).count n := by
  induction names generalizing used with
  | nil => cases h
  | cons o names ih =>
    unfold repeated? at h
    split at h
    next ho =>
      cases h
      have hu : 0 < used.count n := List.count_pos_iff.mpr (by simpa using ho)
      rw [List.count_append, List.count_cons_self]
      omega
    · have hn := ih h
      rw [List.cons_append, List.count_cons, List.count_append] at hn
      rw [List.count_append, List.count_cons]
      omega

end Record

namespace RecordCode

open Arrivals

/-- The names of the methods that the producers of a record tell about, in the order in which they
are kept. -/
def declaredMethods (r : Record) (config : Config) : List String :=
  (declared (Packet.sequence (scripts r config))).map Prod.fst

variable {r : Record} {config : Config}

theorem declaredMethods_eq {code : RecordCode} (h : ofRecord r config = .ok code) :
    declaredMethods r config = r.definedMethods := by
  have hn := failure?_of_ofRecord h
  have hf (f : Feature) : (messages f (Packet.sequence (scripts r config))).flatMap
      Message.labels = (if f.isEnabled r then f.actions r else []).map r.methodName := by
    rw [messages_sequence hn]
    split
    next he =>
      exact Feature.labels_script ((whole_sequence hn).2 _ (mem_scripts he)).1
    next => rfl
  rw [declaredMethods, map_fst_declared, Record.definedMethods, ← Record.actions_features, ordered,
    List.flatMap_assoc, List.map_flatMap]
  simp only [hf]

/-- The methods that a record is checked for are those that the producers tell about, in their
order, unless there is nothing to insert: then the method that inserts is checked for although it is
not produced. So a record is rejected for a method only if that is produced twice, or is the
constructor, or would insert nothing. -/
theorem storeMethods_declared (d : Declaration) (scope : Scope) (built : Config) :
    (∀ r, Record.build d scope built = .ok r →
      (∀ config code, ofRecord r config = .ok code →
        declaredMethods r config = r.definedMethods) ∧
      (¬(.create ∈ r.actions ∧ r.insertColumns = []) → r.storeMethods = r.definedMethods) ∧
      (.create ∈ r.actions → r.insertColumns = [] →
        r.storeMethods = r.createMethod :: r.definedMethods)) ∧
    ∀ e m, Record.build d scope built = .error e → e.clash? = some m →
      ∃ r, Record.draft d scope built = .ok r ∧ r.Built ∧
        (∀ config code, ofRecord r config = .ok code →
          declaredMethods r config = r.definedMethods) ∧
        (2 ≤ (Record.constructorName :: r.definedMethods).count m ∨
          .create ∈ r.actions ∧ r.insertColumns = [] ∧ m = r.createMethod) := by
  refine ⟨fun r _ => ⟨fun _ _ => declaredMethods_eq, r.storeMethods_eq⟩, fun e m h hm => ?_⟩
  obtain ⟨r, hd, hb, hr⟩ := Record.build_clash h hm
  refine ⟨r, hd, hb, fun _ _ => declaredMethods_eq, ?_⟩
  have hc : 2 ≤ (Record.constructorName :: r.storeMethods).count m :=
    Record.two_le_count_of_repeated? hr
  obtain ⟨hs, hi⟩ := r.storeMethods_eq
  by_cases hn : .create ∈ r.actions ∧ r.insertColumns = []
  · by_cases hm : m = r.createMethod
    · exact .inr ⟨hn.1, hn.2, hm⟩
    · refine .inl ?_
      rw [hi hn.1 hn.2, List.count_cons, List.count_cons_of_ne (Ne.symm hm)] at hc
      rwa [List.count_cons]
  · exact .inl (hs hn ▸ hc)

/-! ### An insert of nothing -/

/-- Tickets, which get their only column from the database. -/
def ticketDeclaration (find : String) : Declaration where
  name := "Ticket"
  visibility := .everyone
  tags := ["storeFindMethodPrefix=" ++ find]
  fields := [⟨"id", namedType "i64", ["autoIncrement"]⟩]

def ticket (find : String) : Record where
  name := "Ticket"
  recordName := "Ticket"
  table := "tickets"
  storeName := "TicketStore"
  blueprintName := "TicketBlueprint"
  repositoryName := "TicketRepository"
  defaultLimit := 100
  dialect := .default
  primaryKey := none
  softDelete := none
  parts := { find }
  capabilities := .all
  columns := [⟨"id", "id", namedType "i64", .numeric false false, true, false, none,
    some "id_range", none⟩]
  fieldNames := ["id"]
  visibility := .everyone

section

variable {find : String}
  (hs : Record.settings (ticketDeclaration find) = .ok { parts := { find } })
include hs

theorem ticket_draft : Record.draft (ticketDeclaration find) .empty {} = .ok (ticket find) := by
  have hr : Naming.slot "id" "Range" = "id_range" := by decide +kernel
  have hf : Column.ofField {} .empty "Ticket" { find } ⟨"id", namedType "i64", ["autoIncrement"]⟩ =
      .ok (some ⟨"id", "id", namedType "i64", .numeric false false, true, false, none,
        some "id_range", none⟩) :=
    Column.ofField_eq_ok (s := { autoIncrement := true }) ⟨by decide +kernel, rfl,
      by decide +kernel, by decide +kernel, by decide +kernel, rfl, congrArg some hr, rfl⟩
  have hc : Record.columnsFrom {} .empty "Ticket" { find } [] []
      [⟨"id", namedType "i64", ["autoIncrement"]⟩] = .ok (ticket find).columns := by
    simp [Record.columnsFrom, hf, Record.insertColumn, ticket, Record.tableField,
      FieldDeclaration.isTagged, bind, Except.bind]
  have hn : Naming.defaultTable "Ticket" = "tickets" := by decide +kernel
  refine Record.draft_eq_ok.mpr ⟨_, _, hs, hc, ?_⟩
  simp [Record.make, ticketDeclaration, hn, ticket]

theorem ticket_build (hl : (ticket find).checkSlots = .ok ())
    (hi : (ticket find).checkIdentifiers = .ok ()) :
    Record.build (ticketDeclaration find) .empty {} =
      (ticket find).checkMethods >>= fun _ => .ok (ticket find) := by
  obtain ⟨s, columns, h, hc, hr⟩ := Record.draft_eq_ok.mp (ticket_draft hs)
  have ht : Naming.isSqlName "tickets" = true := by decide +kernel
  rw [← hr] at hl hi ⊢
  exact Record.build_eq_of_checks h hc (hr ▸ ht) (hr ▸ nofun) (hr ▸ nofun) (hr ▸ rfl) hl hi

end

/-- Notes are checked for the methods that are produced. Tickets with two methods of one name are
rejected. -/
theorem storeMethods_declared_note :
    declaredMethods (note .postgres) {} = (note .postgres).storeMethods ∧
      2 ≤ (Record.constructorName :: (ticket "Count").definedMethods).count "count_tickets" := by
  have hs : Record.settings (ticketDeclaration "Count") = .ok { parts := { find := "Count" } } := by
    decide +kernel
  have hb : Record.build (ticketDeclaration "Count") .empty {} =
      .error (.ofRecord "Ticket" (.duplicateMethod "count_tickets")) := by
    rw [ticket_build hs (by decide +kernel) (by decide +kernel)]
    have hm : (ticket "Count").checkMethods =
        .error (.ofRecord "Ticket" (.duplicateMethod "count_tickets")) := by
      decide +kernel
    rw [hm]
    rfl
  obtain ⟨code, hc⟩ : ∃ code, ofRecord (note .postgres) {} = .ok code :=
    exists_ofRecord (Record.built_of_build (note_build .postgres)) (by decide +kernel)
      (by decide +kernel) (by decide +kernel)
  obtain ⟨hd, he, -⟩ := (storeMethods_declared (noteDeclaration .postgres) .empty {}).1 _
    (note_build .postgres)
  obtain ⟨r, hr, -, -, hm⟩ := (storeMethods_declared (ticketDeclaration "Count") .empty {}).2 _ _
    hb rfl
  rw [ticket_draft hs] at hr
  cases hr
  refine ⟨(hd {} code hc).trans (he ?_).symm, hm.resolve_right ?_⟩
  · rintro ⟨-, hi⟩
    have ha := Record.insertColumns_eq_nil.mp hi
    exact absurd (ha noteColumns[1] (List.getElem_mem _)) Bool.false_ne_true
  · rintro ⟨-, -, hn⟩
    exact absurd hn (by decide +kernel)

/-- Tickets are checked for a method that inserts, which no producer tells about. They are rejected
if their finder has its name, although no other method has. -/
theorem storeMethods_not_declared :
    (∃ code, Record.build (ticketDeclaration "Find") .empty {} = .ok (ticket "Find") ∧
      ofRecord (ticket "Find") {} = .ok code ∧
      declaredMethods (ticket "Find") {} =
        ["delete_tickets", "find_tickets", "count_tickets", "select_ids"] ∧
      (ticket "Find").storeMethods =
        ["create_tickets", "delete_tickets", "find_tickets", "count_tickets", "select_ids"]) ∧
    Record.build (ticketDeclaration "Create") .empty {} =
      .error (.ofRecord "Ticket" (.duplicateMethod "create_tickets")) ∧
    Record.draft (ticketDeclaration "Create") .empty {} = .ok (ticket "Create") ∧
    (Record.constructorName :: (ticket "Create").definedMethods).Nodup := by
  have hs : Record.settings (ticketDeclaration "Find") = .ok { parts := { find := "Find" } } := by
    decide +kernel
  have hs' : Record.settings (ticketDeclaration "Create") =
      .ok { parts := { find := "Create" } } := by
    decide +kernel
  have hm : (ticket "Find").checkMethods = .ok () := by decide +kernel
  have hm' : (ticket "Create").checkMethods =
      .error (.ofRecord "Ticket" (.duplicateMethod "create_tickets")) := by
    decide +kernel
  have hb : Record.build (ticketDeclaration "Find") .empty {} = .ok (ticket "Find") := by
    rw [ticket_build hs (by decide +kernel) (by decide +kernel), hm]
    rfl
  obtain ⟨code, hc⟩ : ∃ code, ofRecord (ticket "Find") {} = .ok code :=
    exists_ofRecord (Record.built_of_build hb) (by decide +kernel) (by decide +kernel)
      (by decide +kernel)
  refine ⟨⟨code, hb, hc, ?_, by decide +kernel⟩, ?_, ticket_draft hs', by decide +kernel⟩
  · rw [declaredMethods_eq hc]
    decide +kernel
  · rw [ticket_build hs' (by decide +kernel) (by decide +kernel), hm']
    rfl

end RecordCode
end RecordStore
