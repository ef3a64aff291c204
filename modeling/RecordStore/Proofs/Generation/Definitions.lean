import RecordStore.Proofs.Generation.Producers
import RecordStore.Proofs.Schema.Names

/-!
What producers define: methods of the store, and the type of blueprints with its fields. Each is
defined under the identifier that its name is.
-/
namespace RecordStore

/-- The identifier that a name is; a name that is none stands for itself. -/
def Naming.identifier (n : String) : String := (identifier? n).getD n

inductive Definition where
  /-- A method of the store. -/
  | method (name : String)
  /-- The type of blueprints. -/
  | blueprint (fields : List String)
  deriving DecidableEq, Repr

def Fragment.definitions : Fragment → List Definition
  | methods ms => ms.map fun m => .method m.name
  | blueprint b => [.blueprint b.fieldNames]

def Message.definitions : Message → List Definition
  | fragment f => f.definitions
  | _ => []

namespace Producer

variable {α β γ : Type}

/-- If the producer gets to its end, its messages come to this under a view of them, and its
result is as said. -/
def Says (view : Message → List γ) (p : Producer α) (said : List γ) (post : α → Prop) : Prop :=
  ∀ before a after, p.run.run before = (.ok a, after) →
    post a ∧ ∃ ms, after = before ++ ms ∧ ms.flatMap view = said

variable {view : Message → List γ} {p : Producer α} {f : α → Producer β} {ss ts : List γ}
  {post : α → Prop} {post' : β → Prop}

theorem run_bind (p : Producer α) (f : α → Producer β) (before : List Message) :
    (p >>= f).run.run before =
      (ExceptT.bindCont f (p.run.run before).1).run (p.run.run before).2 := rfl

theorem Says.append (hp : p.Says view ss post) (hf : ∀ a, post a → (f a).Says view ts post') :
    (p >>= f).Says view (ss ++ ts) post' := by
  intro before b after h
  rw [run_bind] at h
  cases hr : p.run.run before with
  | mk result middle =>
    rw [hr] at h
    cases result with
    | error e => cases h
    | ok a =>
      obtain ⟨ha, ms, rfl, hm⟩ := hp _ _ _ hr
      obtain ⟨hb, ms', rfl, hm'⟩ := hf a ha _ _ _ h
      exact ⟨hb, ms ++ ms', List.append_assoc .., by rw [List.flatMap_append, hm, hm']⟩

/-- What is said in silence only matters for its result. -/
theorem Says.bind (hp : p.Says view [] post) (hf : ∀ a, post a → (f a).Says view ts post') :
    (p >>= f).Says view ts post' := hp.append hf

/-- What is followed by silence is all that is said. -/
theorem Says.silent (hp : p.Says view ss post) (hf : ∀ a, post a → (f a).Says view [] post') :
    (p >>= f).Says view ss post' := by
  have h := hp.append hf
  rwa [List.append_nil] at h

theorem Says.mono {post' : α → Prop} (hp : p.Says view ss post) (h : ∀ a, post a → post' a) :
    p.Says view ss post' := by
  intro before a after hr
  obtain ⟨ha, hm⟩ := hp before a after hr
  exact ⟨h a ha, hm⟩

theorem says_pure {a : α} (h : post a) : Says view (pure a) [] post := by
  rintro before _ _ ⟨⟩
  exact ⟨h, [], (List.append_nil _).symm, rfl⟩

theorem says_send (m : Message) : (send m).Says view (view m) fun _ => True := by
  rintro before _ _ ⟨⟩
  exact ⟨trivial, [m], rfl, List.flatMap_singleton ..⟩

theorem says_identifier (name : String) :
    (identifier name).Says view [] fun n => n = Naming.identifier name := by
  intro before n after h
  have h : (identifierOf name, before) = (.ok n, after) := h
  unfold identifierOf at h
  cases hi : identifier? name with
  | none => simp [hi] at h
  | some i =>
    rw [hi] at h
    cases h
    exact ⟨by rw [Naming.identifier, hi, Option.getD_some], [], (List.append_nil _).symm, rfl⟩

theorem says_forM {l : List α} {f : α → Producer Unit} {g : α → List γ}
    (h : ∀ a ∈ l, (f a).Says view (g a) fun _ => True) :
    (l.forM f).Says view (l.flatMap g) fun _ => True := by
  induction l with
  | nil => exact says_pure trivial
  | cons a l ih =>
    rw [List.flatMap_cons]
    exact (h a List.mem_cons_self).append fun _ _ =>
      ih fun b hb => h b (List.mem_cons_of_mem _ hb)

/-- Values that are made one after another, seen through a function. -/
theorem says_mapM {δ : Type} {l : List α} {f : α → Producer β} {g : β → δ} {k : α → δ}
    {s : α → List γ} (h : ∀ a ∈ l, (f a).Says view (s a) fun b => g b = k a) :
    (l.mapM f).Says view (l.flatMap s) fun bs => bs.map g = l.map k := by
  induction l with
  | nil => exact says_pure rfl
  | cons a l ih =>
    rw [List.mapM_cons, List.flatMap_cons]
    have hl := ih fun b hb => h b (List.mem_cons_of_mem _ hb)
    refine (h a List.mem_cons_self).append fun b hb => ?_
    refine hl.silent fun bs hbs => says_pure ?_
    rw [List.map_cons, List.map_cons, hb, hbs]

/-- Values that are made in silence. -/
theorem says_mapM_nil {δ : Type} {l : List α} {f : α → Producer β} {g : β → δ} {k : α → δ}
    (h : ∀ a ∈ l, (f a).Says view [] fun b => g b = k a) :
    (l.mapM f).Says view [] fun bs => bs.map g = l.map k := by
  have hs := says_mapM h
  rwa [List.flatMap_eq_nil_iff.mpr fun _ _ => rfl] at hs

/-- What is said while values are made, whatever they are. -/
theorem says_each {l : List α} {f : α → Producer β} {s : α → List γ}
    (h : ∀ a ∈ l, (f a).Says view (s a) fun _ => True) :
    (l.mapM f).Says view (l.flatMap s) fun _ => True := by
  have hs := says_mapM (g := fun _ => ()) (k := fun _ => ()) fun a ha =>
    (h a ha).mono fun _ _ => rfl
  exact hs.mono fun _ _ => trivial

theorem says_each_nil {l : List α} {f : α → Producer β}
    (h : ∀ a ∈ l, (f a).Says view [] fun _ => True) : (l.mapM f).Says view [] fun _ => True := by
  have hs := says_each h
  rwa [List.flatMap_eq_nil_iff.mpr fun _ _ => rfl] at hs

theorem says_need (names : List String) :
    (need names).Says view (names.flatMap fun n => view (.needs n)) fun _ => True :=
  says_forM fun n _ => says_send (.needs n)

theorem says_need_nil (names : List String) (h : ∀ n, view (.needs n) = []) :
    (need names).Says view [] fun _ => True := by
  have hn : (need names).Says view _ fun _ => True := says_need names
  rwa [List.flatMap_eq_nil_iff.mpr fun n _ => h n] at hn

theorem says_declare (m : StoreMethod) :
    (declare m).Says view (view (.method m.label m.operation)) fun n => n = m :=
  (says_send _).silent fun _ _ => says_pure rfl

/-- What the producer defines on its way to its end. -/
abbrev Defines (p : Producer α) (ds : List Definition) (post : α → Prop) : Prop :=
  p.Says Message.definitions ds post

theorem defines_declare (m : StoreMethod) : (declare m).Defines [] fun n => n = m := says_declare m

theorem defines_need (names : List String) : (need names).Defines [] fun _ => True :=
  says_need_nil names fun _ => rfl

theorem defines_method {m : StoreMethod} {label : String} (h : m.name = Naming.identifier label) :
    (send (.fragment (.methods [m]))).Defines [.method (Naming.identifier label)] fun _ => True :=
  h ▸ says_send _

end Producer

/-! ### Features -/

section

open Producer

variable (ctx : Context)

theorem Insertion.defines : (Insertion.produce ctx).Defines
    (if ctx.record.insertColumns.isEmpty then []
      else [.method (Naming.identifier ctx.record.createMethod)]) fun _ => True := by
  unfold Insertion.produce
  dsimp only
  split
  · exact says_pure trivial
  apply (defines_need _).bind
  intro _ _
  apply (says_mapM_nil (g := id) (k := fun c => Naming.identifier c.name)
    fun c _ => says_identifier c.name).bind
  intro accessors _
  apply (says_identifier ctx.record.createMethod).bind
  intro n hn
  apply (defines_declare _).bind
  intro m hm
  exact defines_method (by rw [hm, hn])

theorem Updating.defines : (Updating.produce ctx).Defines
    ((ctx.record.columns.filter Column.isWritable).flatMap fun c =>
      (Assignment.all c).map fun a => .method (Naming.identifier (ctx.record.writeMethod c a)))
    fun _ => True := by
  have hm (c : Column) (a : Assignment) : (Updating.method ctx c a).Defines [] fun m =>
      m.name = Naming.identifier (ctx.record.writeMethod c a) := by
    unfold Updating.method
    apply (says_identifier _).bind
    intro n hn
    exact (defines_declare _).mono fun m hm => by rw [hm, hn]
  have hc (c : Column) : (Updating.columnMethods ctx c).Defines [] fun ms =>
      ms.map (·.name) = (Assignment.all c).map fun a =>
        Naming.identifier (ctx.record.writeMethod c a) := by
    unfold Updating.columnMethods
    exact (defines_need _).bind fun _ _ => says_mapM_nil fun a _ => hm c a
  unfold Updating.produce
  apply (says_mapM_nil fun c _ => hc c).bind
  intro methods hms
  have hd : (methods.flatten.map fun m => Definition.method m.name) =
      (ctx.record.columns.filter Column.isWritable).flatMap fun c =>
        (Assignment.all c).map fun a =>
          .method (Naming.identifier (ctx.record.writeMethod c a)) := by
    have hf := congrArg (fun names => names.flatten.map Definition.method) hms
    simpa [← List.flatMap_def, List.map_flatMap, List.map_flatten, Function.comp_def] using hf
  rw [← hd]
  split
  next he =>
    rw [List.isEmpty_iff.mp he]
    exact says_pure trivial
  · exact says_send _

theorem Deletion.defines : (Deletion.produce ctx).Defines
    [.method (Naming.identifier ctx.record.deleteMethod)] fun _ => True := by
  unfold Deletion.produce
  apply (says_identifier ctx.record.deleteMethod).bind
  intro n hn
  apply (defines_declare _).bind
  intro m hm
  exact defines_method (by rw [hm, hn])

theorem Reading.defines_method (label : String) (output : Code) (documentation : String)
    (body : Code) : (Reading.method ctx label output documentation body).Defines [] fun m =>
      m.name = Naming.identifier label := by
  unfold Reading.method
  apply (says_identifier _).bind
  intro n hn
  exact (defines_declare _).mono fun m hm => by rw [hm, hn]

/-- Fields are filled in silence. -/
theorem Reading.says_fieldInit {γ : Type} {view : Message → List γ} (field : String) :
    (Reading.fieldInit ctx field).Says view [] fun _ => True := by
  unfold Reading.fieldInit
  exact (says_identifier field).bind fun _ _ => says_pure trivial

theorem Reading.defines_find : (Reading.find ctx).Defines
    [.method (Naming.identifier ctx.record.findMethod)] fun _ => True := by
  unfold Reading.find
  apply (defines_need _).bind
  intro _ _
  apply (says_each_nil fun field _ => Reading.says_fieldInit ctx field).bind
  intro inits _
  apply (Reading.defines_method ctx _ _ _ _).bind
  intro m hm
  exact Producer.defines_method hm

theorem Reading.defines_count : (Reading.count ctx).Defines
    [.method (Naming.identifier ctx.record.countMethod)] fun _ => True := by
  unfold Reading.count
  apply (Reading.defines_method ctx _ _ _ _).bind
  intro m hm
  exact Producer.defines_method hm

theorem Reading.defines_select (c : Column) : (Reading.select ctx c).Defines
    [.method (Naming.identifier (ctx.record.selectMethod c))] fun _ => True := by
  unfold Reading.select
  apply (defines_need _).bind
  intro _ _
  apply (Reading.defines_method ctx _ _ _ _).bind
  intro m hm
  exact Producer.defines_method hm

theorem Reading.defines : (Reading.produce ctx).Defines
    (.method (Naming.identifier ctx.record.findMethod) ::
      .method (Naming.identifier ctx.record.countMethod) ::
      ctx.record.columns.map fun c => .method (Naming.identifier (ctx.record.selectMethod c)))
    fun _ => True := by
  unfold Reading.produce
  apply (Reading.defines_find ctx).append
  intro _ _
  apply (Reading.defines_count ctx).append
  intro _ _
  rw [List.map_eq_flatMap]
  exact says_forM fun c _ => Reading.defines_select ctx c

theorem BlueprintCode.defines_slot {slot : String} {make : String → SlotCode}
    (h : ∀ n, (make n).name = n) : (identifier slot >>= fun n => pure (make n)).Defines [] fun s =>
      s.name = Naming.identifier slot := by
  apply (says_identifier slot).bind
  intro n hn
  exact says_pure (by rw [h, hn])

theorem BlueprintCode.name_exactSlot (c : Column) (slot : String) :
    (exactSlot ctx c slot).name = slot := by
  unfold exactSlot
  dsimp only
  split <;> rfl

theorem BlueprintCode.defines_columnSlots (c : Column) :
    (BlueprintCode.columnSlots ctx c).Defines [] fun slots =>
      slots.map SlotCode.name = c.slots.map Naming.identifier := by
  unfold BlueprintCode.columnSlots
  apply (says_identifier c.name).bind
  intro n hn
  apply (says_mapM_nil (g := SlotCode.name) (k := Naming.identifier)
    fun s _ => BlueprintCode.defines_slot fun _ => rfl).bind
  intro range hr
  apply (says_mapM_nil (g := SlotCode.name) (k := Naming.identifier)
    fun s _ => BlueprintCode.defines_slot fun _ => rfl).bind
  intro like hl
  refine says_pure ?_
  simp [Column.slots, BlueprintCode.name_exactSlot, hn, hr, hl]

/-- The fields that all blueprints of a record have. -/
def Record.commonFields (r : Record) : List String :=
  ["inclusive", "limit", "offset", "order_by", "order_direction"] ++
    if r.softDelete.isSome then ["unscoped"] else []

theorem BlueprintCode.fieldNames_ofSlots (slots : List SlotCode) :
    (ofSlots ctx slots).fieldNames = slots.map SlotCode.name ++ ctx.record.commonFields := by
  unfold fieldNames commonFields Record.commonFields ofSlots
  cases ctx.record.softDelete <;> rfl

theorem BlueprintCode.defines : (BlueprintCode.produce ctx).Defines
    [.blueprint (ctx.record.slotNames.map Naming.identifier ++ ctx.record.commonFields)]
    fun _ => True := by
  have hc (c : Column) : (BlueprintCode.columnWithNeeds ctx c).Defines [] fun slots =>
      slots.map SlotCode.name = c.slots.map Naming.identifier := by
    unfold BlueprintCode.columnWithNeeds
    exact (defines_need _).bind fun _ _ => BlueprintCode.defines_columnSlots ctx c
  unfold BlueprintCode.produce
  apply (says_mapM_nil fun c _ => hc c).bind
  intro slots hs
  have hn : slots.flatten.map SlotCode.name = ctx.record.slotNames.map Naming.identifier := by
    have hf := congrArg List.flatten hs
    simpa [← List.flatMap_def, Record.slotNames, List.map_flatMap, List.map_flatten] using hf
  rw [← hn, ← BlueprintCode.fieldNames_ofSlots]
  exact says_send _

end

/-! ### Features of a record -/

/-- What a feature defines for a record. -/
def Feature.definitions (r : Record) : Feature → List Definition
  | createable =>
    if r.insertColumns.isEmpty then [] else [.method (Naming.identifier r.createMethod)]
  | updateable => (r.columns.filter Column.isWritable).flatMap fun c =>
      (Assignment.all c).map fun a => .method (Naming.identifier (r.writeMethod c a))
  | deleteable => [.method (Naming.identifier r.deleteMethod)]
  | queryable => .method (Naming.identifier r.findMethod) ::
      .method (Naming.identifier r.countMethod) ::
      r.columns.map fun c => .method (Naming.identifier (r.selectMethod c))
  | blueprint => [.blueprint (r.slotNames.map Naming.identifier ++ r.commonFields)]

theorem Feature.defines (ctx : Context) (f : Feature) :
    (f.produce ctx).Defines (f.definitions ctx.record) fun _ => True := by
  cases f with
  | createable => exact Insertion.defines ctx
  | updateable => exact Updating.defines ctx
  | deleteable => exact Deletion.defines ctx
  | queryable => exact Reading.defines ctx
  | blueprint => exact BlueprintCode.defines ctx

/-- A feature that does not fail has said all that it says. -/
theorem Feature.flatMap_script {γ : Type} {view : Message → List γ} {said : List γ} {r : Record}
    {config : Config} {ctx : Context} {f : Feature} (hc : Context.ofRecord r config = .ok ctx)
    (h : (f.script r config).outcome = .ok ())
    (hs : (f.produce ctx).Says view said fun _ => True) :
    (f.script r config).messages.flatMap view = said := by
  unfold Feature.script at h ⊢
  rw [hc] at h ⊢
  cases hr : (f.produce ctx).run.run [] with
  | mk outcome messages =>
    have ho : outcome = .ok () := by simpa [Producer.script, hr] using h
    obtain ⟨-, ms, rfl, hd⟩ := hs [] () messages (by rw [hr, ho])
    rw [← hd]
    simp [Producer.script, hr]

theorem Feature.definitions_script {r : Record} {config : Config} {f : Feature}
    (h : (f.script r config).outcome = .ok ()) :
    (f.script r config).messages.flatMap Message.definitions = f.definitions r := by
  cases hc : Context.ofRecord r config with
  | error e => simp [Feature.script, hc] at h
  | ok ctx =>
    rw [Feature.flatMap_script hc h (Feature.defines ctx f), Context.record_eq hc]

end RecordStore
