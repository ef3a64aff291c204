import RecordStore.Proofs.Generation.Definitions
import RecordStore.Proofs.Generation.Functions

/-!
Producers tell about methods apart from the code that defines them. Every producer of an accepted
record keeps even: whether it gets to its end or fails, the methods that it has told about are those
whose code it has sent, in the same order.
-/
namespace RecordStore

/-- The methods that are told about. -/
def Message.told : Message → List Operation
  | method _ o => [o]
  | _ => []

/-- The methods that a fragment is made of. -/
def Fragment.defined : Fragment → List StoreMethod
  | methods ms => ms
  | blueprint _ => []

/-- The methods whose code is sent. -/
def Message.defined : Message → List StoreMethod
  | fragment f => f.defined
  | _ => []

/-! ### Keeping even -/

namespace Producer

/-- Messages about methods and with their code. Some methods were told about before and are owed,
and some are left to be sent; fragments have a property. -/
structure Ledger (property : Fragment → Prop) (owed : List StoreMethod) (ms : List Message)
    (left : List StoreMethod) : Prop where
  fragments : ∀ f, .fragment f ∈ ms → property f
  even : owed.map StoreMethod.operation ++ ms.flatMap Message.told =
    (ms.flatMap Message.defined ++ left).map StoreMethod.operation

variable {α β : Type} {property : Fragment → Prop} {owed : List StoreMethod}

theorem ledger_nil (owed : List StoreMethod) : Ledger property owed [] owed :=
  ⟨fun _ h => absurd h List.not_mem_nil, by simp⟩

theorem Ledger.append {ms ms' : List Message} {middle left : List StoreMethod}
    (h : Ledger property owed ms middle) (h' : Ledger property middle ms' left) :
    Ledger property owed (ms ++ ms') left where
  fragments f hf := (List.mem_append.mp hf).elim (h.fragments f) (h'.fragments f)
  even := by
    have he := h.even
    have he' := h'.even
    rw [List.map_append] at he he'
    rw [List.flatMap_append, List.flatMap_append, List.map_append, List.map_append,
      ← List.append_assoc, he, List.append_assoc, he', List.append_assoc]

/-- Whatever was said before and is owed, what the producer adds is on the ledger. It owes nothing
when it fails, and its result goes with what it leaves otherwise. -/
def Settles (p : Producer α) (property : Fragment → Prop) (owed : List StoreMethod)
    (post : α → List StoreMethod → Prop) : Prop :=
  ∀ before outcome after, p.run.run before = (outcome, after) → ∃ ms left,
    after = before ++ ms ∧ Ledger property owed ms left ∧ (∀ a, outcome = .ok a → post a left) ∧
      ∀ e, outcome = .error e → left = []

variable {p : Producer α} {f : α → Producer β} {post post' : α → List StoreMethod → Prop}
  {goal : β → List StoreMethod → Prop}

theorem Settles.bind (hp : p.Settles property owed post)
    (hf : ∀ a left, post a left → (f a).Settles property left goal) :
    (p >>= f).Settles property owed goal := by
  intro before outcome after h
  rw [run_bind] at h
  cases hr : p.run.run before with
  | mk result middle =>
    rw [hr] at h
    obtain ⟨ms, left, rfl, hl, hok, herror⟩ := hp _ _ _ hr
    cases result with
    | error e =>
      cases h
      exact ⟨ms, left, rfl, hl, nofun, fun _ _ => herror e rfl⟩
    | ok a =>
      obtain ⟨ms', left', rfl, hl', hok', herror'⟩ := hf a left (hok a rfl) _ _ _ h
      exact ⟨ms ++ ms', left', List.append_assoc .., hl.append hl', hok', herror'⟩

/-- A producer that leaves the same whatever its result is. -/
theorem Settles.andThen {middle : List StoreMethod}
    (hp : p.Settles property owed fun _ left => left = middle)
    (hf : ∀ a, (f a).Settles property middle goal) : (p >>= f).Settles property owed goal := by
  refine hp.bind fun a left hl => ?_
  subst hl
  exact hf a

theorem Settles.mono (hp : p.Settles property owed post)
    (h : ∀ a left, post a left → post' a left) : p.Settles property owed post' := by
  intro before outcome after hr
  obtain ⟨ms, left, ha, hl, hok, herror⟩ := hp _ _ _ hr
  exact ⟨ms, left, ha, hl, fun a ho => h a left (hok a ho), herror⟩

theorem settles_pure {a : α} (h : post a owed) : Settles (pure a) property owed post := by
  rintro before _ _ ⟨⟩
  refine ⟨[], owed, (List.append_nil _).symm, ledger_nil owed, ?_, nofun⟩
  rintro _ ⟨⟩
  exact h

/-- A message that is no trouble to anyone. -/
theorem settles_send {m : Message} {left : List StoreMethod} (h : Ledger property owed [m] left) :
    (send m).Settles property owed fun _ l => l = left := by
  rintro before _ _ ⟨⟩
  exact ⟨[m], left, rfl, h, fun _ _ => rfl, nofun⟩

theorem settles_needs (n : String) :
    (send (.needs n)).Settles property owed fun _ left => left = owed :=
  settles_send ⟨by simp, by simp [Message.told, Message.defined]⟩

/-- Sending the code of what is owed. -/
theorem settles_methods (h : property (.methods owed)) :
    (send (.fragment (.methods owed))).Settles property owed fun _ left => left = [] :=
  settles_send ⟨by simpa using h, by simp [Message.told, Message.defined, Fragment.defined]⟩

theorem settles_blueprint {b : BlueprintCode} (h : property (.blueprint b)) :
    (send (.fragment (.blueprint b))).Settles property owed fun _ left => left = owed :=
  settles_send ⟨by simpa using h, by simp [Message.told, Message.defined, Fragment.defined]⟩

theorem settles_declare (m : StoreMethod) :
    (declare m).Settles property owed fun n left => n = m ∧ left = owed ++ [m] := by
  have hs : (send (.method m.label m.operation)).Settles property owed fun _ left =>
      left = owed ++ [m] :=
    settles_send ⟨by simp, by simp [Message.told, Message.defined]⟩
  exact hs.bind fun _ _ hl => settles_pure ⟨rfl, hl⟩

/-- A name that may not be an identifier may only be asked for when nothing is owed. -/
theorem settles_identifier {n : String} (h : owed = [] ∨ Naming.isIdentifier n = true) :
    (identifier n).Settles property owed fun _ left => left = owed := by
  intro before outcome after hr
  have hr : (identifierOf n, before) = (outcome, after) := hr
  cases hr
  refine ⟨[], owed, (List.append_nil _).symm, ledger_nil owed, fun _ _ => rfl, fun e he => ?_⟩
  refine h.resolve_right fun hi => ?_
  obtain ⟨i, hi⟩ := Option.isSome_iff_exists.mp hi
  rw [identifierOf, hi] at he
  cases he

/-- Values that are made one after another, each with the methods that it leaves. -/
theorem settles_mapM {l : List α} {f : α → Producer β} {holds : β → Prop}
    (leaves : β → List StoreMethod)
    (h : ∀ a ∈ l, ∀ bs : List β, (f a).Settles property (owed ++ bs.flatMap leaves)
      fun b left => left = owed ++ bs.flatMap leaves ++ leaves b ∧ holds b) :
    (l.mapM f).Settles property owed fun bs left =>
      left = owed ++ bs.flatMap leaves ∧ ∀ b ∈ bs, holds b := by
  -- what is owed at each step is what the values before it left
  have hall (made : List β) : (l.mapM f).Settles property (owed ++ made.flatMap leaves)
      fun bs left => left = owed ++ (made ++ bs).flatMap leaves ∧ ∀ b ∈ bs, holds b := by
    induction l generalizing made with
    | nil => exact settles_pure ⟨by simp, fun _ hb => absurd hb List.not_mem_nil⟩
    | cons a l ih =>
      rw [List.mapM_cons]
      refine (h a List.mem_cons_self made).bind fun b left ⟨hl, hb⟩ => ?_
      have hm : left = owed ++ (made ++ [b]).flatMap leaves := by
        rw [hl, List.flatMap_append, List.flatMap_singleton, List.append_assoc]
      subst hm
      refine (ih (fun c hc => h c (List.mem_cons_of_mem a hc)) (made ++ [b])).bind
        fun bs left ⟨hl, hbs⟩ => settles_pure ⟨?_, List.forall_mem_cons.mpr ⟨hb, hbs⟩⟩
      rw [hl, List.append_assoc]
      rfl
  simpa using hall []

/-- Values that are made and leave nothing. -/
theorem settles_each {l : List α} {f : α → Producer β} {holds : β → Prop}
    (h : ∀ a ∈ l, (f a).Settles property owed fun b left => left = owed ∧ holds b) :
    (l.mapM f).Settles property owed fun bs left => left = owed ∧ ∀ b ∈ bs, holds b := by
  have hn (bs : List β) : bs.flatMap (fun _ => ([] : List StoreMethod)) = [] :=
    List.flatMap_eq_nil_iff.mpr fun _ _ => rfl
  have hs : (l.mapM f).Settles property owed fun bs left =>
      left = owed ++ bs.flatMap (fun _ => []) ∧ ∀ b ∈ bs, holds b := by
    refine settles_mapM (fun _ => []) fun a ha bs => ?_
    simpa only [hn, List.append_nil] using h a ha
  simpa only [hn, List.append_nil] using hs

theorem settles_forM {l : List α} {f : α → Producer Unit}
    (h : ∀ a ∈ l, (f a).Settles property owed fun _ left => left = owed) :
    (l.forM f).Settles property owed fun _ left => left = owed := by
  induction l with
  | nil => exact settles_pure rfl
  | cons a l ih =>
    refine (h a List.mem_cons_self).andThen fun _ => ?_
    exact ih fun b hb => h b (List.mem_cons_of_mem a hb)

theorem settles_need (names : List String) :
    (need names).Settles property owed fun _ left => left = owed :=
  settles_forM fun n _ => settles_needs n

end Producer

/-! ### Methods of producers -/

section

open Code Producer

/-- In a fragment's code a reader finds the methods that the fragment is made of, if what is taken
over from sources closes what it opens. -/
def Fragment.IsRead (ctx : Context) (f : Fragment) : Prop :=
  ctx.IsBalanced → f.functions ctx = f.defined.map StoreMethod.signature ∧
    ∀ m ∈ f.defined, m.IsReadable

variable {ctx : Context}

theorem Fragment.isRead_methods {ms : List StoreMethod}
    (h : ∀ m ∈ ms, ctx.IsBalanced → m.IsReadable) : (methods ms).IsRead ctx :=
  fun hc => ⟨functions_methods hc fun m hm => h m hm hc, fun m hm => h m hm hc⟩

theorem Insertion.balanced_pushRow (count : Nat) : (pushRow ctx count).GroupBalanced := by
  have hp (row : String) : (call "::std::format!" (text row :: (List.range count).map fun i =>
      ofText "index *" ++ number count ++ ofText "+" ++ number (i + 1))).GroupBalanced := by
    refine .call (List.forall_mem_cons.mpr ⟨depth_text row, List.forall_mem_map.mpr ?_⟩) _
    intro i _
    simp [GroupBalanced]
  unfold GroupBalanced pushRow
  cases ctx.record.dialect with
  | default => simp
  | postgres => simp [-List.append_assoc, -depth_call, (hp _).depth]

theorem Insertion.balanced_body (h : ctx.IsBalanced) (columns : List Column)
    (accessors : List String) : (body ctx columns accessors).GroupBalanced := by
  have hv : GroupBalanced (accessors.flatMap fun a => stmt (ofText "values.push" ++
      Token.parens (ctx.valueFrom (ofText "record." ++ name a ++ ofText ".clone()")))) :=
    .flatMap fun a _ => by simp [GroupBalanced, Context.valueFrom, h.depth_runtimeName]
  have hr : (run ctx).GroupBalanced := by
    unfold GroupBalanced run
    split <;> simp
  unfold GroupBalanced body
  simp [-List.append_assoc, hv, hr, balanced_pushRow, statement, prepare]

/-- The method that inserts. -/
theorem Insertion.settles : (Insertion.produce ctx).Settles (Fragment.IsRead ctx) []
    fun _ left => left = [] := by
  unfold produce
  dsimp only
  split
  · exact settles_pure rfl
  refine (settles_need _).andThen fun _ => ?_
  have haccessor (c : Column) : (Producer.identifier c.name).Settles (Fragment.IsRead ctx) []
      fun _ left => left = [] ∧ True :=
    (settles_identifier (.inl rfl)).mono fun _ _ hl => ⟨hl, trivial⟩
  refine (settles_each fun c _ => haccessor c).bind fun accessors left ⟨hl, _⟩ => ?_
  subst hl
  refine (settles_identifier (.inl rfl)).andThen fun n => ?_
  refine (settles_declare _).bind fun m left ⟨hm, hl⟩ => ?_
  subst hm hl
  refine settles_methods (Fragment.isRead_methods (List.forall_mem_singleton.mpr fun hc => ?_))
  have ha : ofText "#[allow(unused_variables)]" =
      outerAttribute (ofText "allow(unused_variables)") := by decide +kernel
  exact StoreMethod.isReadable hc (ofText "i64")
    ((isAttributes_doc _).append (ha ▸ isAttributes_outer (balanced_ofText _)))
    (List.forall_mem_singleton.mpr (by simp [GroupBalanced])) (by decide +kernel) rfl
    (balanced_body hc _ _)

theorem Context.balanced_blueprintArgument : ctx.blueprintArgument.GroupBalanced := by
  simp [GroupBalanced, blueprintArgument]

theorem Deletion.balanced_body (h : ctx.IsBalanced) : (body ctx).GroupBalanced := by
  unfold GroupBalanced body guarded
  simp [h.depth_runtimeName, prepare]

theorem Deletion.settles : (Deletion.produce ctx).Settles (Fragment.IsRead ctx) []
    fun _ left => left = [] := by
  unfold produce
  refine (settles_identifier (.inl rfl)).andThen fun n => ?_
  refine (settles_declare _).bind fun m left ⟨hm, hl⟩ => ?_
  subst hm hl
  refine settles_methods (Fragment.isRead_methods (List.forall_mem_singleton.mpr fun hc => ?_))
  exact StoreMethod.isReadable hc (ofText "i64") (isAttributes_doc _)
    (List.forall_mem_singleton.mpr ctx.balanced_blueprintArgument) (by decide +kernel) rfl
    (balanced_body hc)

theorem Updating.balanced_bind (h : ctx.IsBalanced) (c : Column) (a : Assignment) :
    (bind ctx c a).GroupBalanced := by
  unfold GroupBalanced bind
  dsimp only
  split <;> simp [appendPredicate, ifBlueprint, Context.valueFrom, h.depth_runtimeName]

/-- A method that writes is told about before the others of its record are. -/
theorem Updating.settles_method {owed : List StoreMethod} {c : Column} {a : Assignment}
    (hc : c ∈ ctx.record.columns)
    (hn : Naming.isIdentifier (ctx.record.writeMethod c a) = true) :
    (method ctx c a).Settles (Fragment.IsRead ctx) owed
      fun m left => left = owed ++ [m] ∧ (ctx.IsBalanced → m.IsReadable) := by
  unfold method
  refine (settles_identifier (.inr hn)).andThen fun n => ?_
  refine (settles_declare _).mono fun m left ⟨hm, hl⟩ => ?_
  subst hm
  refine ⟨hl, fun h => ?_⟩
  have hi : ∀ i ∈ [("value", c.ty.tokens), ("blueprint", ctx.blueprintArgument)],
      GroupBalanced i.2 := by
    simp [(h.types c hc).balanced, ctx.balanced_blueprintArgument]
  have hb : GroupBalanced (bind ctx c a ++ prepare ++
      ofText "let outcome = statement.execute(&values)?;" ++
      ofText "::core::result::Result::Ok(outcome.rows_affected)") := by
    rw [GroupBalanced]
    simp [balanced_bind h, prepare]
  exact StoreMethod.isReadable h (ofText "i64") (isAttributes_doc _) hi
    (by decide +kernel) rfl hb

theorem Updating.settles (hr : ctx.record.Built) :
    (Updating.produce ctx).Settles (Fragment.IsRead ctx) [] fun _ left => left = [] := by
  have hcolumn (c : Column) (hc : c ∈ ctx.record.columns) (owed : List StoreMethod) :
      (columnMethods ctx c).Settles (Fragment.IsRead ctx) owed fun ms left =>
        left = owed ++ ms ∧ ∀ m ∈ ms, ctx.IsBalanced → m.IsReadable := by
    unfold columnMethods
    refine (settles_need _).andThen fun _ => ?_
    refine (settles_mapM (fun m => [m]) fun a ha bs =>
      settles_method hc (hr.isIdentifier_write hc ha)).mono fun ms left ⟨hl, hm⟩ => ⟨?_, hm⟩
    rw [hl, List.flatMap_singleton']
  unfold produce
  refine (settles_mapM id fun c hc bs =>
    hcolumn c (List.mem_filter.mp hc).1 _).bind fun methods left ⟨hl, hm⟩ => ?_
  rw [List.nil_append, List.flatMap_id] at hl
  subst hl
  split
  next he => exact settles_pure (List.isEmpty_iff.mp he)
  · refine settles_methods (Fragment.isRead_methods fun m hmem => ?_)
    obtain ⟨ms, hms, hmem⟩ := List.mem_flatten.mp hmem
    exact hm ms hms m hmem

/-- A method that reads is told about and sent at once. -/
theorem Reading.settles_method (label : String) {ok : Code} (documentation : String)
    {body : Code} (h : ctx.IsBalanced → ok.AngleBalanced ∧ body.GroupBalanced) :
    (method ctx label (ctx.result ok) documentation body >>= fun m =>
      send (.fragment (.methods [m]))).Settles (Fragment.IsRead ctx) []
      fun _ left => left = [] := by
  have hm : (method ctx label (ctx.result ok) documentation body).Settles (Fragment.IsRead ctx) []
      fun m left => left = [m] ∧ (ctx.IsBalanced → m.IsReadable) := by
    unfold method
    refine (settles_identifier (.inl rfl)).andThen fun n => ?_
    refine (settles_declare _).mono fun m left ⟨hm, hl⟩ => ?_
    subst hm
    exact ⟨hl, fun hc => StoreMethod.isReadable hc ok (isAttributes_doc _)
      (List.forall_mem_singleton.mpr ctx.balanced_blueprintArgument) (h hc).1 rfl (h hc).2⟩
  refine hm.bind fun m left ⟨hl, hr⟩ => ?_
  subst hl
  exact settles_methods (Fragment.isRead_methods (List.forall_mem_singleton.mpr hr))

theorem Reading.balanced_readQuery (head : String) : (readQuery ctx head).GroupBalanced := by
  unfold GroupBalanced readQuery paging Context.resolveBlueprint
  simp [prepare]

theorem Reading.balanced_rowLoop (list : String) {item : Code} (h : item.GroupBalanced) :
    (rowLoop list item).GroupBalanced := by
  unfold GroupBalanced rowLoop
  simp [h]

theorem Reading.balanced_countBody (h : ctx.IsBalanced) : (countBody ctx).GroupBalanced := by
  unfold GroupBalanced countBody Context.resolveBlueprint
  simp [prepare, h.depth_runtimeName]

/-- Fields are filled in silence. -/
theorem Reading.settles_fieldInit (field : String) : (fieldInit ctx field).Settles
    (Fragment.IsRead ctx) [] fun c left => left = [] ∧ c.GroupBalanced := by
  unfold fieldInit
  refine (settles_identifier (.inl rfl)).andThen fun member => ?_
  refine settles_pure ⟨rfl, ?_⟩
  unfold GroupBalanced
  cases ctx.record.place? field <;> simp

theorem Reading.settles : (Reading.produce ctx).Settles (Fragment.IsRead ctx) []
    fun _ left => left = [] := by
  have hfind : (find ctx).Settles (Fragment.IsRead ctx) [] fun _ left => left = [] := by
    unfold find
    refine (settles_need _).andThen fun _ => ?_
    refine (settles_each fun field _ => settles_fieldInit field).bind
      fun inits left ⟨hl, hi⟩ => ?_
    subst hl
    refine settles_method _ _ fun hc => ⟨angleBalanced_vector (angleBalanced_name _), ?_⟩
    have hitem : GroupBalanced (name ctx.recordType ++ Token.braces (terminated inits)) := by
      rw [GroupBalanced]
      simp [GroupBalanced.terminated hi]
    rw [GroupBalanced, depth_append, balanced_readQuery, Option.bind_some]
    exact balanced_rowLoop _ hitem
  have hcount : (count ctx).Settles (Fragment.IsRead ctx) [] fun _ left => left = [] :=
    settles_method _ _ fun hc => ⟨by decide +kernel, balanced_countBody hc⟩
  have hselect (c : Column) (hmem : c ∈ ctx.record.columns) :
      (select ctx c).Settles (Fragment.IsRead ctx) [] fun _ left => left = [] := by
    unfold select
    refine (settles_need _).andThen fun _ => ?_
    refine settles_method _ _ fun hc => ⟨angleBalanced_vector (hc.types c hmem), ?_⟩
    rw [GroupBalanced, depth_append, balanced_readQuery, Option.bind_some]
    exact balanced_rowLoop _ (balanced_ofText _)
  unfold produce
  exact hfind.andThen fun _ => hcount.andThen fun _ => settles_forM hselect

/-! ### Blueprints -/

namespace BlueprintCode

/-- A slot whose type and clause close what they open. -/
def SlotBalanced (s : SlotCode) : Prop := s.ty.GroupBalanced ∧ s.clauseBody.GroupBalanced

theorem balanced_inList (h : ctx.IsBalanced) {items : Code} (hi : items.GroupBalanced)
    (column : String) : (inList ctx items column).GroupBalanced := by
  unfold GroupBalanced inList placeholder
  cases ctx.record.dialect <;>
    simp [withCapacity, baseOffset, Context.valueFrom, h.depth_runtimeName, hi]

theorem slotBalanced_exact (h : ctx.IsBalanced) {c : Column} (hc : c ∈ ctx.record.columns)
    (slot : String) : SlotBalanced (exactSlot ctx c slot) := by
  have hty := (h.types c hc).balanced
  have hslot : (slotRef slot).GroupBalanced := by simp [GroupBalanced, slotRef]
  unfold exactSlot
  dsimp only
  split
  · constructor
    · unfold GroupBalanced optionalVector
      simp [hty]
    · have hname : (name "items").GroupBalanced := rfl
      have hl := balanced_inList h hname
      unfold GroupBalanced nullableBody
      simp [ifEmpty, slotRef, returnEmpty, emptyClause, returnText, hl]
  · constructor
    · unfold GroupBalanced vector
      simp [hty]
    · have hl := balanced_inList h hslot
      unfold GroupBalanced exactBody
      simp [ifEmpty, hslot, returnEmpty, emptyClause, hl]

theorem slotBalanced_range (h : ctx.IsBalanced) {c : Column} (hc : c ∈ ctx.record.columns)
    (slot : String) : SlotBalanced (rangeSlot ctx c slot) := by
  constructor
  · unfold GroupBalanced rangeSlot vector
    simp [(h.types c hc).balanced]
  · unfold GroupBalanced rangeSlot rangeBody placeholder
    cases ctx.record.dialect <;>
      simp [slotRef, returnEmpty, emptyClause, Context.valueFrom, h.depth_runtimeName]

theorem slotBalanced_like (h : ctx.IsBalanced) (c : Column) (slot : String) :
    SlotBalanced (likeSlot ctx c slot) := by
  constructor
  · unfold GroupBalanced likeSlot vector
    simp
  · unfold GroupBalanced likeSlot likeBody placeholder
    cases ctx.record.dialect <;>
      simp [ifEmpty, slotRef, withCapacity, baseOffset, returnEmpty, emptyClause,
        Context.valueFrom, h.depth_runtimeName]

theorem balanced_predicateCode : (predicateCode ctx).GroupBalanced := by
  have hs (column : String) : (scopeBody ctx column).GroupBalanced := by
    unfold GroupBalanced scopeBody
    simp
  unfold GroupBalanced predicateCode
  cases ctx.record.softDeleteColumn <;> simp [hs]

theorem balanced_orderCode : (orderCode ctx).GroupBalanced := by
  have ha : GroupBalanced (terminated (ctx.record.orderColumns.map fun column =>
      text column ++ ofText "=>" ++ text (ctx.record.qualified column))) :=
    .terminated (List.forall_mem_map.mpr fun column _ => by simp [GroupBalanced])
  unfold GroupBalanced orderCode
  simp [-List.append_assoc, ha]

theorem settles_columnSlots {c : Column} (hc : c ∈ ctx.record.columns) :
    (columnSlots ctx c).Settles (Fragment.IsRead ctx) [] fun slots left => left = [] ∧
      ∀ s ∈ slots, ctx.IsBalanced → SlotBalanced s := by
  have hslot {make : String → SlotCode} (hm : ∀ n, ctx.IsBalanced → SlotBalanced (make n))
      (slot : String) : (Producer.identifier slot >>= fun n => pure (make n)).Settles
        (Fragment.IsRead ctx) [] fun s left => left = [] ∧ (ctx.IsBalanced → SlotBalanced s) := by
    refine (settles_identifier (.inl rfl)).bind fun n left hl => ?_
    exact settles_pure ⟨hl, hm n⟩
  unfold columnSlots
  refine (settles_identifier (.inl rfl)).andThen fun n => ?_
  refine (settles_each fun s _ => hslot (fun n h => slotBalanced_range h hc n) s).bind
    fun range left ⟨hl, hr⟩ => ?_
  subst hl
  refine (settles_each fun s _ => hslot (fun n h => slotBalanced_like h c n) s).bind
    fun like left ⟨hl, hlike⟩ => settles_pure ⟨hl, ?_⟩
  refine List.forall_mem_cons.mpr ⟨fun h => slotBalanced_exact h hc n, ?_⟩
  exact List.forall_mem_append.mpr ⟨hr, hlike⟩

theorem settles (hn : ctx.blueprintType ≠ "impl") :
    (produce ctx).Settles (Fragment.IsRead ctx) [] fun _ left => left = [] := by
  have hcolumn (c : Column) (hc : c ∈ ctx.record.columns) :
      (columnWithNeeds ctx c).Settles (Fragment.IsRead ctx) [] fun slots left => left = [] ∧
        ∀ s ∈ slots, ctx.IsBalanced → SlotBalanced s := by
    unfold columnWithNeeds
    refine (settles_need _).andThen fun _ => ?_
    exact settles_columnSlots hc
  unfold produce
  refine (settles_each hcolumn).bind fun slots left ⟨hl, hs⟩ => ?_
  subst hl
  refine settles_blueprint fun h => ?_
  have hb : (ofSlots ctx slots.flatten).IsBalanced := by
    refine ⟨fun s hm => ?_, balanced_predicateCode, balanced_orderCode⟩
    obtain ⟨l, hl, hm⟩ := List.mem_flatten.mp hm
    exact hs l hl s hm h
  exact ⟨functions_eq_nil h hb hn, fun m hm => absurd hm List.not_mem_nil⟩

end BlueprintCode

/-! ### Features -/

theorem Feature.settles (hr : ctx.record.Built) (hn : ctx.blueprintType ≠ "impl") (f : Feature) :
    (f.produce ctx).Settles (Fragment.IsRead ctx) [] fun _ left => left = [] := by
  cases f with
  | createable => exact Insertion.settles
  | updateable => exact Updating.settles hr
  | deleteable => exact Deletion.settles
  | queryable => exact Reading.settles
  | blueprint => exact BlueprintCode.settles hn

end

/-- An identifier is no keyword. -/
theorem notMem_keywords_of_identifier? {n i : String} (h : identifier? n = some i) :
    i ∉ Parser.keywords := by
  obtain ⟨ts, -, hn⟩ := Option.bind_eq_some_iff.mp h
  obtain rfl := Parser.all?_name hn
  intro hk
  have hc : Parser.keywords.contains i = true := List.contains_iff_mem.mpr hk
  have hr : Parser.name.run [.ident i] =
      ((Parser.require (!Parser.keywords.contains i)).run []).bind fun r => some (i, r.2) := rfl
  rw [Parser.all?, hr, hc] at hn
  cases hn

/-- What a feature tells about is what it sends, however it ends, and what it sends is read as
such. -/
theorem Feature.even_script {r : Record} (hr : r.Built) (config : Config) (f : Feature) :
    (f.script r config).messages.flatMap Message.told =
      ((f.script r config).messages.flatMap Message.defined).map StoreMethod.operation ∧
    ∀ ctx, Context.ofRecord r config = .ok ctx →
      ∀ x, .fragment x ∈ (f.script r config).messages → x.IsRead ctx := by
  cases hc : Context.ofRecord r config with
  | error e => simp [Feature.script, hc]
  | ok ctx =>
    have hrecord := Context.record_eq hc
    have hn : ctx.blueprintType ≠ "impl" := by
      obtain ⟨n, hi⟩ := Option.isSome_iff_exists.mp
        (hr.identifiers r.blueprintName (by simp [Record.generatedNames]))
      have hk := notMem_keywords_of_identifier? hi
      rw [(Context.of_ofRecord hc).blueprintType, Naming.identifier, hi, Option.getD_some]
      rintro rfl
      exact hk (by decide)
    cases hp : (f.produce ctx).run.run [] with
    | mk outcome messages =>
      have hs : f.script r config = ⟨messages, outcome⟩ := by
        simp [Feature.script, hc, Producer.script, hp]
      obtain ⟨ms, left, rfl, hl, hok, herror⟩ := Feature.settles (hrecord ▸ hr) hn f _ _ _ hp
      have hnone : left = [] := by
        cases outcome with
        | ok a => exact hok a rfl
        | error e => exact herror e rfl
      rw [hs]
      refine ⟨by simpa [hnone] using hl.even, fun ctx' hc' x hx => ?_⟩
      cases hc'
      exact hl.fragments x hx

end RecordStore
