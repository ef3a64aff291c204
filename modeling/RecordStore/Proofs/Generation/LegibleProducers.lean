import RecordStore.Proofs.Generation.Delegation
import RecordStore.Proofs.Generation.LegibleCode

/-!
Producers tell only what is legible. So do all features of a record, and the items of its code are
legible; their texts on lines of their own are read as tokens.
-/
namespace RecordStore

open Code

set_option synthInstance.maxSize 100000

/-! ### Repositories -/

namespace Repository

variable {ctx : Context} [ctx.IsLegible] {o : Operation} {operations : List Operation}

instance {hasMethods : Bool} : Legible (storeCode ctx hasMethods) := ⟨fun groups => by
  unfold storeCode
  cases hasMethods <;>
    simp (disch := first | exact IsQuiet.of_chars rfl rfl | exact IsRawLine.of_chars rfl rfl)⟩

instance [Legible o] : Legible (declaration o) := ⟨fun groups => by
  simp (disch := exact IsQuiet.of_chars rfl rfl) [declaration]⟩

instance [Legible o] : Legible (delegation ctx o) := ⟨fun groups => by
  simp (disch := exact IsQuiet.of_chars rfl rfl) [delegation]⟩

theorem legible_code? {c : Option Code} [Legible operations]
    (h : code? ctx operations = .ok c) : Legible c := by
  unfold code? at h
  split at h
  · cases h
    infer_instance
  · obtain ⟨trait, ht, h⟩ := bind_eq_ok.mp h
    cases h
    have ht := legible_of_identifierOf ht
    have hcode : Legible (doc ("Operations of a `" ++ ctx.record.name ++ "` store.") ++
        ctx.visibility ++ ofText "trait" ++ name trait ++
        Token.braces (operations.flatMap declaration) ++ ofText "impl <" ++ ctx.connection ++
        ofText ">" ++ name trait ++ ofText "for" ++ name ctx.storeType ++ ofText "<D>" ++
        Token.braces (operations.flatMap (delegation ctx))) :=
      ⟨fun groups => by simp (disch := exact IsQuiet.of_chars rfl rfl)⟩
    infer_instance

end Repository

/-! ### Messages -/

instance : Writing Fragment := ⟨fun
  | .methods ms => Legible ms
  | .blueprint b => Legible b⟩

instance : Writing Message := ⟨fun
  | .fragment f => Legible f
  | .needs _ => True
  | .method _ o => Legible o⟩

section Messages

variable {ctx : Context} [ctx.IsLegible] {f : Fragment} {o : Operation} {n : String}

instance {ms : List StoreMethod} [h : Legible ms] : Legible (Fragment.methods ms) := ⟨h⟩
instance {b : BlueprintCode} [h : Legible b] : Legible (Fragment.blueprint b) := ⟨h⟩
instance [h : Legible f] : Legible (Message.fragment f) := ⟨h⟩
instance : Legible (Message.needs n) := ⟨trivial⟩
instance [h : Legible o] : Legible (Message.method n o) := ⟨h⟩

instance [h : Legible f] : Legible (f.code ctx) := by
  unfold Fragment.code
  cases f with
  | methods ms =>
    have hms : Legible ms := h.isLegible
    infer_instance
  | blueprint b =>
    have hb : Legible b := h.isLegible
    infer_instance

end Messages

/-! ### Producers -/

/-- A producer that only sends what is legible, and gives what is legible. -/
class Producer.Tells {α : Type} [Writing α] (p : Producer α) : Prop where
  tell : ∀ before outcome after, p.run.run before = (outcome, after) → ∃ ms : List Message,
    after = before ++ ms ∧ Legible ms ∧ ∀ a, outcome = .ok a → Legible a

namespace Producer.Tells

variable {α β : Type} [Writing α] [Writing β] {p : Producer α}

theorem bind {f : α → Producer β} (hp : p.Tells) (hf : ∀ a, Legible a → (f a).Tells) :
    (p >>= f).Tells where
  tell before outcome after h := by
    rw [run_bind] at h
    cases hr : p.run.run before with
    | mk result middle =>
      rw [hr] at h
      obtain ⟨ms, rfl, hms, hok⟩ := hp.tell _ _ _ hr
      cases result with
      | error e =>
        cases h
        exact ⟨ms, rfl, hms, nofun⟩
      | ok a =>
        obtain ⟨ms', rfl, hms', hok'⟩ := (hf a (hok a rfl)).tell _ _ _ h
        exact ⟨ms ++ ms', List.append_assoc .., inferInstance, hok'⟩

instance instBind {f : α → Producer β} [hp : p.Tells]
    [hf : ∀ a : {a : α // Legible a}, (f a.val).Tells] : (p >>= f).Tells :=
  hp.bind fun a ha => hf ⟨a, ha⟩

instance instPure {a : α} [ha : Legible a] : Tells (pure a : Producer α) where
  tell before outcome after h := by
    cases h
    exact ⟨[], (List.append_nil _).symm, inferInstance, fun _ he => by cases he; exact ha⟩

theorem ite {c : Prop} [Decidable c] {q : Producer α} (hp : p.Tells) (hq : q.Tells) :
    (if c then p else q).Tells := by
  split
  · exact hp
  · exact hq

instance instIte {c : Prop} [Decidable c] {q : Producer α} [hp : p.Tells] [hq : q.Tells] :
    (if c then p else q).Tells := ite hp hq

instance {m : Message} [hm : Legible m] : (send m).Tells where
  tell before outcome after h := by
    cases h
    exact ⟨[m], rfl, inferInstance, fun _ _ => inferInstance⟩

instance {n : String} : (identifier n).Tells where
  tell before outcome after h := by
    have h : (identifierOf n, before) = (outcome, after) := h
    cases h
    exact ⟨[], (List.append_nil _).symm, inferInstance, fun i hi => legible_of_identifierOf hi⟩

instance {m : StoreMethod} [Legible m] : (declare m).Tells := by
  unfold declare
  infer_instance

theorem forM {γ : Type} {l : List γ} {f : γ → Producer Unit} (h : ∀ a ∈ l, (f a).Tells) :
    (l.forM f).Tells := by
  induction l with
  | nil => exact inferInstanceAs (Tells (pure () : Producer Unit))
  | cons a l ih =>
    have ha := h a List.mem_cons_self
    exact ha.bind fun _ _ => ih fun b hb => h b (List.mem_cons_of_mem a hb)

instance {names : List String} : (need names).Tells := forM fun _ _ => inferInstance

instance {l : List α} {f : α → Producer Unit} [hl : Legible l]
    [hf : ∀ a : {a : α // Legible a}, (f a.val).Tells] : (l.forM f).Tells :=
  forM fun a ha => hf ⟨a, ⟨hl.isLegible a ha⟩⟩

theorem mapM {γ : Type} {l : List γ} {f : γ → Producer α} (h : ∀ a ∈ l, (f a).Tells) :
    (l.mapM f).Tells := by
  induction l with
  | nil => exact inferInstanceAs (Tells (pure [] : Producer (List α)))
  | cons a l ih =>
    rw [List.mapM_cons]
    have ha := h a List.mem_cons_self
    have hl := ih fun b hb => h b (List.mem_cons_of_mem a hb)
    infer_instance

instance {l : List α} {f : α → Producer β} [hl : Legible l]
    [hf : ∀ a : {a : α // Legible a}, (f a.val).Tells] : (l.mapM f).Tells :=
  mapM fun a ha => hf ⟨a, ⟨hl.isLegible a ha⟩⟩

end Producer.Tells

section Features

open Producer

variable {ctx : Context} [hctx : ctx.IsLegible]

instance : Legible (ofText "i64") := legible_ofText (.of_chars rfl rfl)

instance : (Deletion.produce ctx).Tells := by
  unfold Deletion.produce
  infer_instance

instance : (Insertion.produce ctx).Tells := by
  have hand := legible_ofText (.of_chars (s := "&") rfl rfl)
  have hallow := legible_ofText (.of_chars (s := "#[allow(unused_variables)]") rfl rfl)
  have haccessors : (ctx.record.insertColumns.mapM fun c => Producer.identifier c.name).Tells :=
    Tells.mapM fun c _ => inferInstance
  unfold Insertion.produce
  dsimp only
  infer_instance

instance {c : Column} {a : Assignment} [Legible c] : (Updating.method ctx c a).Tells := by
  have hrun := legible_ofText
    (.of_chars (s := "let outcome = statement.execute(&values)?;") rfl rfl)
  have hrows := legible_ofText
    (.of_chars (s := "::core::result::Result::Ok(outcome.rows_affected)") rfl rfl)
  unfold Updating.method
  infer_instance

instance {c : Column} [Legible c] : (Updating.columnMethods ctx c).Tells := by
  have hmethods : ((Assignment.all c).mapM (Updating.method ctx c)).Tells :=
    Tells.mapM fun a _ => inferInstance
  unfold Updating.columnMethods
  infer_instance

instance {α : Type} [Writing α] {l : List (List α)} [h : Legible l] : Legible l.flatten :=
  ⟨fun a ha => by
    obtain ⟨as, has, ha⟩ := List.mem_flatten.mp ha
    exact h.isLegible as has a ha⟩

instance : (Updating.produce ctx).Tells := by
  unfold Updating.produce
  infer_instance

namespace Reading

instance {label documentation : String} {output body : Code} [Legible output] [Legible body] :
    (method ctx label output documentation body).Tells := by
  unfold method
  infer_instance

instance {field : String} : (fieldInit ctx field).Tells := by
  have hvalue (m : {m : String // Legible m}) (value : Code) [Legible value] :
      Legible (name m.val ++ ofText ":" ++ value) :=
    ⟨fun groups => by simp (disch := exact IsQuiet.of_chars rfl rfl)⟩
  have hplace (i : Nat) : Legible (ofText "row.get" ++ Token.parens (number i) ++ ofText "?") :=
    ⟨fun groups => by simp (disch := exact IsQuiet.of_chars rfl rfl)⟩
  have hdefault := legible_ofText (.of_chars (s := "::core::default::Default::default()") rfl rfl)
  unfold fieldInit
  cases ctx.record.place? field <;> infer_instance

instance : (find ctx).Tells := by
  have hinits : (ctx.record.fieldNames.mapM (fieldInit ctx)).Tells :=
    Tells.mapM fun _ _ => inferInstance
  unfold find
  infer_instance

instance : (count ctx).Tells := by
  unfold count
  infer_instance

instance {c : Column} [Legible c] : (select ctx c).Tells := by
  unfold select
  infer_instance

instance : (produce ctx).Tells := by
  unfold produce
  infer_instance

end Reading

namespace BlueprintCode

instance {slots : List SlotCode} [Legible slots] : Legible (ofSlots ctx slots) :=
  ⟨(inferInstance : Legible slots), (inferInstance : Legible (predicateCode ctx)),
    (inferInstance : Legible (orderCode ctx))⟩

instance {c : Column} [Legible c] : (columnSlots ctx c).Tells := by
  have hrange : (c.rangeSlot.toList.mapM fun s => (do
      return rangeSlot ctx c (← Producer.identifier s) : Producer SlotCode)).Tells :=
    Tells.mapM fun _ _ => inferInstance
  have hlike : (c.likeSlot.toList.mapM fun s => (do
      return likeSlot ctx c (← Producer.identifier s) : Producer SlotCode)).Tells :=
    Tells.mapM fun _ _ => inferInstance
  unfold columnSlots
  infer_instance

instance {c : Column} [Legible c] : (columnWithNeeds ctx c).Tells := by
  unfold columnWithNeeds
  infer_instance

instance : (produce ctx).Tells := by
  unfold produce
  infer_instance

end BlueprintCode

theorem Feature.tells (f : Feature) : (f.produce ctx).Tells := by
  unfold Feature.produce
  cases f <;> infer_instance

end Features

/-! ### Contexts -/

namespace Context

variable {r : Record} {config : Config} {ctx : Context}

theorem isLegible_of_ofRecord (h : ofRecord r config = .ok ctx) [Legible r.visibility]
    [Legible r.columns] : ctx.IsLegible := by
  obtain ⟨rfl, ⟨p, hp, hruntime⟩, hvisibility, hrecord, hstore, hblueprint⟩ := takenFrom h
  have hpath := Path.legible_of_read? hp
  exact
    { runtime := hruntime ▸ inferInstance
      visibility := by
        rcases hvisibility with he | he <;>
          · rw [he]
            infer_instance
      recordType := legible_of_identifierOf hrecord
      storeType := legible_of_identifierOf hstore
      blueprintType := legible_of_identifierOf hblueprint
      columns := inferInstance }

end Context

/-! ### Arrivals -/

namespace Arrivals

theorem mem_of_mem_firstOfEach {α : Type} {entries : List (String × α)} {e : String × α}
    (h : e ∈ firstOfEach entries) : e ∈ entries := by
  have hk (kept : List (String × α)) (hm : e ∈ entries.foldl
      (fun kept e => if kept.any (·.1 == e.1) then kept else kept ++ [e]) kept) :
      e ∈ kept ++ entries := by
    clear h
    induction entries generalizing kept with
    | nil => exact (List.append_nil kept).symm ▸ hm
    | cons a entries ih =>
      have hm : e ∈ (if kept.any (·.1 == a.1) then kept else kept ++ [a]) ++ entries := ih _ hm
      split at hm
      · rcases List.mem_append.mp hm with hm | hm
        · exact List.mem_append_left _ hm
        · exact List.mem_append_right _ (List.mem_cons_of_mem a hm)
      · rwa [List.append_assoc, List.singleton_append] at hm
  exact hk [] h

variable {ps : Arrivals} [h : Legible (ordered ps)]

instance : Legible (fragments ps) := ⟨fun f hf => by
  obtain ⟨m, hm, he⟩ := List.mem_filterMap.mp hf
  have hl := h.isLegible m hm
  cases m with
  | fragment f' =>
    cases he
    exact hl.isLegible
  | _ => cases he⟩

instance : Legible (operations ps) := ⟨fun o ho => by
  obtain ⟨e, he, rfl⟩ := List.mem_map.mp ho
  obtain ⟨m, hm, he⟩ := List.mem_filterMap.mp (mem_of_mem_firstOfEach he)
  have hl := h.isLegible m hm
  cases m with
  | method label o =>
    cases he
    exact hl.isLegible
  | _ => cases he⟩

end Arrivals

/-! ### Bodies -/

namespace RecordCode

open Arrivals

variable {r : Record} {config : Config} {ctx : Context} {code : RecordCode} {is : List Code}

theorem legible_ordered (hctx : Context.ofRecord r config = .ok ctx) [ctx.IsLegible]
    (h : ofRecord r config = .ok code) :
    Legible (ordered (Packet.sequence (scripts r config))) := ⟨fun m hm => by
  obtain ⟨f, -, hm⟩ := List.mem_flatMap.mp hm
  rw [messages_sequence (failure?_of_ofRecord h)] at hm
  split at hm
  · have hs : f.script r config = (f.produce ctx).script := by rw [Feature.script, hctx]
    have ht : (f.produce ctx).Tells := f.tells
    obtain ⟨ms, he, hms, -⟩ := ht.tell [] _ _ rfl
    have he : (f.produce ctx).script.messages = ms := he
    rw [hs, he] at hm
    exact hms.isLegible m hm
  · cases hm⟩

theorem legible_items {ps : Arrivals} [ctx.IsLegible] [Legible (ordered ps)]
    (h : items ctx ps = .ok is) : Legible is := by
  obtain ⟨repository, hr, h⟩ := bind_eq_ok.mp h
  cases h
  have hrepository := Repository.legible_code? hr
  have hcodes : Legible ((fragments ps).map (·.code ctx)) := inferInstance
  have hlist : Legible repository.toList := by
    cases repository with
    | none => exact inferInstanceAs (Legible ([] : List Code))
    | some c =>
      have hc := Legible.of_some hrepository
      exact inferInstanceAs (Legible [c])
  infer_instance

/-- Items that are legible are read off their texts, each on lines of its own. -/
theorem exists_tokens? (h : ∀ c ∈ is, c.IsLegible) :
    ∃ ts, tokens? ("\n".intercalate (is.map tokenText)) = some ts := by
  have hlex : ∃ ts, Lexer.lex [] ("\n".intercalate (is.map tokenText)).toList = some ts := by
    induction is with
    | nil => exact ⟨[], rfl⟩
    | cons c is ih =>
      obtain ⟨ts, hts, -⟩ := exists_lex (h c List.mem_cons_self [])
      obtain ⟨us, hus⟩ := ih fun b hb => h b (List.mem_cons_of_mem c hb)
      cases is with
      | nil => exact ⟨ts, hts⟩
      | cons b is =>
        refine ⟨ts ++ us, ?_⟩
        have hj : ("\n".intercalate ((c :: b :: is).map tokenText)).toList =
            (tokenText c).toList ++
              '\n' :: ("\n".intercalate ((b :: is).map tokenText)).toList := by
          simp [String.toList_intercalate]
        rw [hj, Lexer.lex_append hts, hus]
        rfl
  obtain ⟨ts, hts⟩ := hlex
  refine ⟨ts, ?_⟩
  rw [Lexer.tokens?_eq, ← hts]
  unfold Lexer.withoutByteOrderMark
  split
  next rest he =>
    rw [he, Lexer.lex_byteOrderMark] at hts
    cases hts
  next => rfl

end RecordCode

end RecordStore
