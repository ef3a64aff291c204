import RecordStore.Proofs.Syntax.Conveyance

/-!
Legible types. Lists, snippets, attributes, types and paths are legible if their parts are. A type
that may turn out to be a bound is legible in its parts, and so is a path.
-/
namespace RecordStore

namespace Legible

set_option synthInstance.maxSize 100000

section Lists

variable {α β : Type} [Writing α] [Writing β] {as : List α} {mark : Code} {items : List Code}
  {b : Bool}

instance [h : Legible as] (n : Nat) : Legible (as.take n) :=
  ⟨fun a ha => h.isLegible a (List.mem_of_mem_take ha)⟩

instance [h : Legible as] (n : Nat) : Legible (as.drop n) :=
  ⟨fun a ha => h.isLegible a (List.mem_of_mem_drop ha)⟩

instance [h : Legible as] (p : α → Bool) : Legible (as.filter p) :=
  ⟨fun a ha => h.isLegible a (List.mem_filter.mp ha).1⟩

instance [h : Legible as] : Legible as.reverse :=
  ⟨fun a ha => h.isLegible a (List.mem_reverse.mp ha)⟩

instance [h : Legible as] {f : α → β} [hf : ∀ a : {a : α // Legible a}, Legible (f a.val)] :
    Legible (as.map f) := ⟨fun b hb => by
  obtain ⟨a, ha, rfl⟩ := List.mem_map.mp hb
  exact (hf ⟨a, ⟨h.isLegible a ha⟩⟩).isLegible⟩

instance [h : Legible as] {f : α → Option β}
    [hf : ∀ a : {a : α // Legible a}, Legible (f a.val)] : Legible (as.filterMap f) :=
  ⟨fun b hb => by
    obtain ⟨a, ha, hab⟩ := List.mem_filterMap.mp hb
    exact (hf ⟨a, ⟨h.isLegible a ha⟩⟩).isLegible b hab⟩

theorem isLegible_flatMap {γ : Type} {as : List γ} {f : γ → Code}
    (h : ∀ a ∈ as, (f a).IsLegible) : Code.IsLegible (as.flatMap f) := by
  induction as with
  | nil => exact .nil
  | cons a as ih =>
    rw [List.flatMap_cons]
    exact (h a List.mem_cons_self).append (ih fun b hb => h b (List.mem_cons_of_mem a hb))

instance [h : Legible as] {f : α → Code} [hf : ∀ a : {a : α // Legible a}, Legible (f a.val)] :
    Legible (as.flatMap f : Code) :=
  ⟨isLegible_flatMap fun a ha => (hf ⟨a, ⟨h.isLegible a ha⟩⟩).isLegible⟩

instance {words : List String} [h : Legible words] : Legible (words.map Token.ident : Code) := by
  rw [← List.flatMap_singleton' (words.map Token.ident), List.flatMap_map]
  infer_instance

instance : Legible comma := inferInstanceAs (Legible (Token.operator ","))
instance : Legible plus := inferInstanceAs (Legible (Token.operator "+"))
instance : Legible pathMark := inferInstanceAs (Legible (Token.operator "::"))

instance : Legible (mutabilityTokens b) := by
  unfold mutabilityTokens
  infer_instance

theorem isLegible_separated (hm : mark.IsLegible) (h : ∀ c ∈ items, c.IsLegible) :
    Code.IsLegible (separated mark items) := by
  induction items with
  | nil => exact .nil
  | cons c items ih =>
    have hc := h c List.mem_cons_self
    have hs := ih fun d hd => h d (List.mem_cons_of_mem c hd)
    cases items with
    | nil => exact hc
    | cons d items => exact (hc.append hm).append hs

instance [hm : Legible mark] [h : Legible items] : Legible (separated mark items) :=
  ⟨isLegible_separated hm.isLegible h.isLegible⟩

instance [Legible items] : Legible (commaTokens items b) := by
  unfold commaTokens
  infer_instance

end Lists

/-! ### Snippets and attributes -/

section Snippets

variable {s t : Snippet} {c : Code} {l : Layout} {n : String} {b : Bool}

instance : Writing Snippet := ⟨fun s => Code.IsLegible s.tokens⟩

instance [h : Legible s] : Legible s.tokens := ⟨h.isLegible⟩

instance [h : Legible c] : Legible (Snippet.mk c l) := ⟨h.isLegible⟩

instance [Legible s] [Legible t] : Legible (s ++ t) :=
  inferInstanceAs (Legible (Snippet.mk (s.tokens ++ t.tokens) (s.layout ++ t.layout)))

instance : Legible Snippet.empty := inferInstanceAs (Legible (Snippet.mk [] []))

instance [Legible n] : Legible (Snippet.name n) :=
  inferInstanceAs (Legible (Snippet.mk [.ident n] (Layout.word n)))

instance [Legible n] (text : String) : Legible (Snippet.keyword n text) :=
  inferInstanceAs (Legible (Snippet.mk [.ident n] (Layout.word text)))

instance [Legible n] : Legible (Snippet.keywordIf b n) := by
  unfold Snippet.keywordIf
  infer_instance

instance {o : Option Snippet} [h : Legible o] : Legible (Snippet.ofOption o) := by
  cases o with
  | none => exact inferInstanceAs (Legible Snippet.empty)
  | some s => exact ⟨h.isLegible s rfl⟩

instance : Writing AttributeValue := ⟨fun
  | .none => True
  | .list _ ts => Code.IsLegible ts
  | .value _ code => Code.IsLegible code.tokens⟩

instance : Legible AttributeValue.none := ⟨trivial⟩
instance {d : Delimiter} [h : Legible c] : Legible (AttributeValue.list d c) := ⟨h.isLegible⟩
instance {text : Option String} [h : Legible s] : Legible (AttributeValue.value text s) :=
  ⟨h.isLegible⟩

instance : Writing Attribute := ⟨fun a => Code.IsLegible a.tokens⟩

instance {a : Attribute} [h : Legible a] : Legible a.tokens := ⟨h.isLegible⟩

instance : Legible (Token.punct '#' false) := ⟨.of_all (by decide)⟩
instance : Legible (Token.punct '!' false) := ⟨.of_all (by decide)⟩

instance {v : AttributeValue} [Legible s] [hv : Legible v] : Legible (Attribute.mk b s v) := by
  have ht : Legible (Attribute.mk b s v).tokens := by
    unfold Attribute.tokens
    cases v with
    | none => infer_instance
    | list d ts =>
      have hts : Legible ts := ⟨hv.isLegible⟩
      infer_instance
    | value text code =>
      have hc : Legible code := ⟨hv.isLegible⟩
      infer_instance
  exact ⟨ht.isLegible⟩

instance {attrs : List Attribute} [Legible attrs] : Legible (Attribute.allTokens attrs) := by
  unfold Attribute.allTokens
  infer_instance

end Snippets

/-! ### Types -/

instance : Writing Segment := ⟨fun s => Code.IsLegible s.tokens⟩
instance : Writing Arguments := ⟨fun a => Code.IsLegible a.tokens⟩
instance : Writing Argument := ⟨fun a => Code.IsLegible a.tokens⟩
instance : Writing Input := ⟨fun i => Code.IsLegible i.tokens⟩

/-- The segments of a trait are legible by themselves, for parentheses may be put around them. -/
instance : Writing Bound := ⟨fun
  | .trait _ ls _ _ ss => Legible ls ∧ Legible ss
  | b => Code.IsLegible b.tokens⟩

/-- The parts of a type that may turn out to be a bound are legible by themselves. -/
instance : Writing Ty := ⟨fun
  | .path _ ss => Legible ss
  | .traitObject _ bs _ => Legible bs
  | t => Code.IsLegible t.tokens⟩

/-- A function that goes through a list from member to member. -/
theorem eq_map_of_cons {α β : Type} {f : List α → List β} {g : α → β} (hn : f [] = [])
    (hc : ∀ a as, f (a :: as) = g a :: f as) (as : List α) : f as = as.map g := by
  induction as with
  | nil => exact hn
  | cons a as ih => rw [hc, ih, List.map_cons]

section Types

variable {n : String} {b joined : Bool} {s u : Snippet} {seg : Segment} {args : Arguments}
  {t : Ty} {ss : List Segment} {ts : List Ty} {bs : List Bound} {as : List Argument}
  {is : List Input} {o : Option Ty}

instance [h : Legible seg] : Legible seg.tokens := ⟨h.isLegible⟩
instance [h : Legible args] : Legible args.tokens := ⟨h.isLegible⟩
instance {a : Argument} [h : Legible a] : Legible a.tokens := ⟨h.isLegible⟩
instance {i : Input} [h : Legible i] : Legible i.tokens := ⟨h.isLegible⟩

instance [Legible ss] : Legible (Segment.listTokens ss) := by
  rw [eq_map_of_cons (f := Segment.listTokens) (g := Segment.tokens) rfl fun _ _ => rfl]
  infer_instance

instance {bound : Bound} [h : Legible bound] : Legible bound.tokens := by
  cases bound with
  | trait paren ls m rooted ss =>
    have hls : Legible ls := h.isLegible.1
    have hss : Legible ss := h.isLegible.2
    unfold Bound.tokens
    cases m <;> infer_instance
  | _ => exact ⟨h.isLegible⟩

instance [Legible bs] : Legible (Bound.listTokens bs) := by
  rw [eq_map_of_cons (f := Bound.listTokens) (g := Bound.tokens) rfl fun _ _ => rfl]
  infer_instance

instance [h : Legible t] : Legible t.tokens := by
  cases t with
  | path rooted ss =>
    have hss : Legible ss := h.isLegible
    unfold Ty.tokens
    infer_instance
  | traitObject explicit bs trailing =>
    have hbs : Legible bs := h.isLegible
    unfold Ty.tokens
    infer_instance
  | _ => exact ⟨h.isLegible⟩

instance [Legible ts] : Legible (Ty.listTokens ts) := by
  rw [eq_map_of_cons (f := Ty.listTokens) (g := Ty.tokens) rfl fun _ _ => rfl]
  infer_instance

instance [Legible is] : Legible (Input.listTokens is) := by
  rw [eq_map_of_cons (f := Input.listTokens) (g := Input.tokens) rfl fun _ _ => rfl]
  infer_instance

instance [hs : Legible as] : Legible (Argument.lifetimeTokens as) := by
  have hm : Argument.lifetimeTokens as = (as.filter Argument.isLifetime).map Argument.tokens := by
    clear hs
    induction as with
    | nil => rfl
    | cons a as ih =>
      rw [Argument.lifetimeTokens, ih, List.filter_cons]
      split <;> rfl
  rw [hm]
  infer_instance

instance [hs : Legible as] : Legible (Argument.otherTokens as) := by
  have hm : Argument.otherTokens as = (as.filter (!·.isLifetime)).map Argument.tokens := by
    clear hs
    induction as with
    | nil => rfl
    | cons a as ih =>
      rw [Argument.otherTokens, ih, List.filter_cons]
      cases a.isLifetime <;> rfl
  rw [hm]
  infer_instance

instance [h : Legible o] : Legible (Ty.outputTokens o) := by
  unfold Ty.outputTokens
  cases o with
  | none => infer_instance
  | some t =>
    have ht := of_some h
    infer_instance

instance [Legible n] [Legible args] : Legible (Segment.mk n args) :=
  ⟨(inferInstance : Legible (Token.ident n :: args.tokens : Code)).isLegible⟩

instance : Legible Arguments.none := ⟨.nil⟩

instance [Legible as] : Legible (Arguments.angled b as joined) := by
  have ht : Legible (Arguments.angled b as joined).tokens := by
    unfold Arguments.tokens
    infer_instance
  exact ⟨ht.isLegible⟩

instance [Legible ts] [Legible o] : Legible (Arguments.called ts b o) := by
  have ht : Legible (Arguments.called ts b o).tokens := by
    unfold Arguments.tokens
    infer_instance
  exact ⟨ht.isLegible⟩

instance [h : Legible (Token.lifetime n)] : Legible (Argument.lifetime n) := ⟨h.isLegible⟩

instance [h : Legible t] : Legible (Argument.type t) :=
  ⟨(inferInstance : Legible t.tokens).isLegible⟩

instance [h : Legible s] : Legible (Argument.constant s) := ⟨h.isLegible⟩

instance [Legible seg] [Legible t] : Legible (Argument.assignment seg t) :=
  ⟨(inferInstance : Legible (seg.tokens ++ Token.operator "=" ++ t.tokens)).isLegible⟩

instance [Legible seg] [Legible s] : Legible (Argument.constantAssignment seg s) :=
  ⟨(inferInstance : Legible (seg.tokens ++ Token.operator "=" ++ s.tokens)).isLegible⟩

instance [Legible seg] [Legible bs] : Legible (Argument.constraint seg bs b) := by
  have ht : Legible (Argument.constraint seg bs b).tokens := by
    unfold Argument.tokens
    infer_instance
  exact ⟨ht.isLegible⟩

instance {attrs : List Attribute} {label : Option String} [Legible attrs] [h : Legible label]
    [Legible t] : Legible (Input.mk attrs label t) := by
  have ht : Legible (Input.mk attrs label t).tokens := by
    unfold Input.tokens
    cases label with
    | none => infer_instance
    | some n =>
      have hn := of_some h
      infer_instance
  exact ⟨ht.isLegible⟩

instance {m : BoundModifier} [hs : Legible s] [hss : Legible ss] :
    Legible (Bound.trait b s m joined ss) := ⟨hs, hss⟩

instance [h : Legible (Token.lifetime n)] : Legible (Bound.lifetime n) := ⟨h.isLegible⟩

instance [h : Legible s] : Legible (Bound.other s) := ⟨h.isLegible⟩

instance [Legible t] : Legible (Ty.slice t) :=
  ⟨(inferInstance : Legible (Token.brackets t.tokens)).isLegible⟩

instance [Legible t] [Legible s] : Legible (Ty.array t s) := by
  have ht : Legible (Ty.array t s).tokens := by
    unfold Ty.tokens
    infer_instance
  exact ⟨ht.isLegible⟩

instance [Legible t] : Legible (Ty.pointer b t) := by
  have ht : Legible (Ty.pointer b t).tokens := by
    unfold Ty.tokens
    cases b <;> infer_instance
  exact ⟨ht.isLegible⟩

instance [Legible t] : Legible (Ty.parenthesized t) :=
  ⟨(inferInstance : Legible (Token.parens t.tokens)).isLegible⟩

instance [Legible ts] : Legible (Ty.tuple ts b) := by
  have ht : Legible (Ty.tuple ts b).tokens := by
    unfold Ty.tokens
    infer_instance
  exact ⟨ht.isLegible⟩

instance [h : Legible ss] : Legible (Ty.path b ss) := ⟨h⟩

instance {k : Nat} [Legible t] [Legible ss] : Legible (Ty.qualified t k b ss) := by
  have ht : Legible (Ty.qualified t k b ss).tokens := by
    unfold Ty.tokens
    dsimp only
    infer_instance
  exact ⟨ht.isLegible⟩

instance {more : Option Snippet} [Legible s] [Legible is] [h : Legible more] [Legible o] :
    Legible (Ty.function s is b more o) := by
  have ht : Legible (Ty.function s is b more o).tokens := by
    unfold Ty.tokens
    cases more with
    | none => infer_instance
    | some m =>
      have hm := of_some h
      infer_instance
  exact ⟨ht.isLegible⟩

instance [h : Legible bs] : Legible (Ty.traitObject b bs joined) := ⟨h⟩

instance [Legible bs] : Legible (Ty.implementer bs b) := by
  have ht : Legible (Ty.implementer bs b).tokens := by
    unfold Ty.tokens
    infer_instance
  exact ⟨ht.isLegible⟩

instance : Legible Ty.inferred := ⟨(inferInstance : Legible ([.ident "_"] : Code)).isLegible⟩
instance : Legible Ty.never := ⟨(inferInstance : Legible (Token.operator "!")).isLegible⟩
instance [h : Legible s] : Legible (Ty.code s) := ⟨h.isLegible⟩

/-! ### Paths -/

instance : Writing Path := ⟨fun p => Legible p.owner ∧ Legible p.segments⟩

variable {p : Path}

instance {owner : Option (Ty × Nat)} [ho : Legible owner] [hs : Legible ss] :
    Legible (Path.mk owner b ss) := ⟨ho, hs⟩

instance [h : Legible p] : Legible p.segments := h.isLegible.2

instance [h : Legible p] : Legible p.toTy := by
  obtain ⟨owner, rooted, ss⟩ := p
  have ho : Legible owner := h.isLegible.1
  have hss : Legible ss := h.isLegible.2
  unfold Path.toTy
  cases owner with
  | none => infer_instance
  | some x =>
    obtain ⟨t, k⟩ := x
    have ht := (of_some ho).fst
    infer_instance

instance [Legible p] : Legible p.tokens := inferInstanceAs (Legible p.toTy.tokens)

instance {style : PathStyle} [Legible p] : Legible (p.snippet style) :=
  inferInstanceAs (Legible (Snippet.mk p.tokens (p.layout style)))

end Types
end Legible

end RecordStore
