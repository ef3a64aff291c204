import RecordStore.Proofs.Schema.Names
import RecordStore.Proofs.Syntax.Rules

/-!
Names as identifiers. Blanks, comments and a byte order mark may stand around an identifier. A text
that is one and has no such characters is written as it is, and names have them only if the words
do that they are made of.
-/
namespace RecordStore

/-! ### Reading identifiers -/

namespace Lexer

/-- Whether a character starts something that may stand around an identifier. -/
def isAround (c : Char) : Bool := isSpace c || c == '/' || c == '\uFEFF'

/-- Text with nothing that may stand around an identifier. -/
def IsBare (cs : Chars) : Prop := ∀ c ∈ cs, isAround c = false

instance decidableIsBare (cs : Chars) : Decidable (IsBare cs) :=
  List.decidableBAll (isAround · = false) cs

variable {cs left : Chars} {fuel : Nat} {stack : List Delimiter}

theorem comment?_of_isBare (h : IsBare cs) : comment? cs = none := by
  unfold comment?
  split
  · exact absurd (h '/' List.mem_cons_self) (by decide)
  · exact absurd (h '/' List.mem_cons_self) (by decide)
  · rfl

theorem skip_of_isBare (h : IsBare cs) : skip cs = cs := by
  cases cs with
  | nil => rfl
  | cons c rest =>
    have hc : isSpace c = false := by
      have ha := h c List.mem_cons_self
      simp only [isAround, Bool.or_eq_false_iff] at ha
      exact ha.1.1
    rw [skip, skipBlank, comment?_of_isBare h]
    simp [hc]

theorem withoutByteOrderMark_of_isBare (h : IsBare cs) : withoutByteOrderMark cs = cs := by
  unfold withoutByteOrderMark
  split
  · exact absurd (h '\uFEFF' List.mem_cons_self) (by decide)
  · rfl

theorem punct?_ne_ident {n : String} : punct? cs ≠ some (.ident n, left) := by
  intro h
  unfold punct? at h
  split at h
  · cases h
  · obtain ⟨⟨name, rest⟩, -, h⟩ := Option.bind_eq_some_iff.mp h
    dsimp only at h
    split at h
    · cases h
    · split at h <;> cases h
  · split at h <;> cases h

theorem leaf?_ident {n : String} (h : leaf? cs = some (.ident n, left)) :
    n.toList ++ left = cs := by
  unfold leaf? at h
  split at h
  · cases h
  split at h
  next r hp => exact absurd (hp.trans h) punct?_ne_ident
  split at h
  · cases h
  · obtain ⟨⟨name, rest⟩, hi, h⟩ := Option.map_eq_some_iff.mp h
    cases h
    rw [String.toList_ofList]
    exact identifier?_append hi

/-- Text without comments gives a token; if that is a word, the text starts with it. -/
theorem tokensFrom_cons {c : Char} {ts : List Token} (hb : IsBare (c :: cs))
    (h : tokensFrom (fuel + 1) stack (c :: cs) = some ts) : ∃ t rest, ts = t :: rest ∧
      ∀ n, t = .ident n → ∃ left, n.toList ++ left = c :: cs ∧
        tokensFrom fuel stack left = some rest := by
  rw [tokensFrom, skip_of_isBare hb] at h
  dsimp only at h
  rw [comment?_of_isBare hb] at h
  dsimp only at h
  split at h
  · obtain ⟨rest, -, rfl⟩ := Option.map_eq_some_iff.mp h
    exact ⟨_, rest, rfl, fun n hn => by cases hn⟩
  · obtain ⟨rest, -, rfl⟩ := Option.map_eq_some_iff.mp h
    exact ⟨_, rest, rfl, fun n hn => by cases hn⟩
  · split at h
    · split at h
      · obtain ⟨rest, -, rfl⟩ := Option.map_eq_some_iff.mp h
        exact ⟨_, rest, rfl, fun n hn => by cases hn⟩
      · cases h
    · cases h
  · obtain ⟨⟨t, left⟩, hl, h⟩ := Option.bind_eq_some_iff.mp h
    obtain ⟨rest, hr, rfl⟩ := Option.map_eq_some_iff.mp h
    refine ⟨t, rest, rfl, fun n hn => ⟨left, ?_, hr⟩⟩
    subst hn
    exact leaf?_ident hl

/-- Text without comments that is one word is that word. -/
theorem tokensFrom_eq_ident {n : String} (hb : IsBare cs)
    (h : tokensFrom fuel stack cs = some [.ident n]) : n.toList = cs := by
  cases fuel with
  | zero => cases h
  | succ fuel =>
    cases cs with
    | nil =>
      have hs : tokensFrom (fuel + 1) stack [] = if stack.isEmpty then some [] else none := rfl
      rw [hs] at h
      split at h <;> cases h
    | cons c cs =>
      obtain ⟨t, rest, ht, hw⟩ := tokensFrom_cons hb h
      cases ht
      obtain ⟨left, ha, hl⟩ := hw n rfl
      cases left with
      | nil => rw [← ha, List.append_nil]
      | cons d left =>
        cases fuel with
        | zero => cases hl
        | succ fuel =>
          have hb' : IsBare (d :: left) := fun x hx =>
            hb x (ha ▸ List.mem_append_right _ hx)
          obtain ⟨u, more, hu, -⟩ := tokensFrom_cons hb' hl
          cases hu

end Lexer

theorem Parser.all?_name {ts : List Token} {n : String} (h : all? name ts = some n) :
    ts = [.ident n] := by
  cases ts with
  | nil => cases h
  | cons t ts =>
    cases t with
    | ident m =>
      have hr : name.run (.ident m :: ts) =
          ((require (!keywords.contains m)).run ts).bind fun r => some (m, r.2) := rfl
      rw [all?, hr] at h
      cases hk : keywords.contains m with
      | true =>
        rw [hk] at h
        cases h
      | false =>
        rw [hk] at h
        cases ts with
        | nil =>
          cases h
          rfl
        | cons u ts => cases h
    | _ => cases h

/-- A text that has nothing around its identifier is its identifier. -/
theorem identifier?_of_isBare {n i : String} (hb : Lexer.IsBare n.toList)
    (h : identifier? n = some i) : i = n := by
  obtain ⟨ts, ht, hn⟩ := Option.bind_eq_some_iff.mp h
  rw [Parser.all?_name hn, tokens?, Lexer.withoutByteOrderMark_of_isBare hb] at ht
  exact String.toList_injective (Lexer.tokensFrom_eq_ident hb ht)

/-! ### Making names -/

open Lexer

theorem Lexer.IsBare.append {cs ds : Chars} (hc : IsBare cs) (hd : IsBare ds) : IsBare (cs ++ ds) :=
  List.forall_mem_append.mpr ⟨hc, hd⟩

/-- Whatever of a text may stand around an identifier comes from some words. -/
def Lexer.MadeOf (ws : List String) (t : String) : Prop :=
  ∀ c ∈ t.toList, isAround c = true → ∃ w ∈ ws, c ∈ w.toList

namespace Lexer.MadeOf

variable {ws vs : List String} {t u : String}

theorem of_mem (h : t ∈ ws) : MadeOf ws t := fun _ hc _ => ⟨t, h, hc⟩

theorem of_isBare (h : IsBare t.toList) : MadeOf ws t := by
  intro c hc ha
  rw [h c hc] at ha
  cases ha

theorem append (ht : MadeOf ws t) (hu : MadeOf ws u) : MadeOf ws (t ++ u) := by
  intro c hc
  rw [String.toList_append, List.mem_append] at hc
  exact hc.elim (ht c) (hu c)

/-- A text that is made of another one is made of the same words. -/
theorem of_subset (ht : MadeOf ws t)
    (h : ∀ c ∈ u.toList, isAround c = true → c ∈ t.toList) : MadeOf ws u :=
  fun c hc ha => ht c (h c hc ha) ha

theorem mono (ht : MadeOf ws t) (h : ∀ w ∈ ws, MadeOf vs w) : MadeOf vs t := by
  intro c hc ha
  obtain ⟨w, hw, hm⟩ := ht c hc ha
  exact h w hw c hm ha

theorem isBare (ht : MadeOf ws t) (h : ∀ w ∈ ws, IsBare w.toList) : IsBare t.toList := by
  intro c hc
  refine Bool.eq_false_iff.mpr fun ha => ?_
  obtain ⟨w, hw, hm⟩ := ht c hc ha
  rw [h w hw c hm] at ha
  cases ha

end Lexer.MadeOf

namespace LetterCase

/-- The code points of what may stand around an identifier. -/
def around : List Nat :=
  [9, 10, 11, 12, 13, 0x20, 0x2F, 0x85, 0xA0, 0x1680] ++ List.range' 0x2000 11 ++
    [0x200E, 0x200F, 0x2028, 0x2029, 0x202F, 0x205F, 0x3000, 0xFEFF]

theorem mem_around {c : Char} (h : isAround c = true) : c.toNat ∈ around := by
  simp only [isAround, isSpace, CharClass.isBlank, Bool.or_eq_true, beq_iff_eq, Bool.and_eq_true,
    decide_eq_true_eq] at h
  rcases h with (((h | rfl) | rfl) | rfl) | rfl
  · simp only [around, List.mem_append, List.mem_cons, List.not_mem_nil, List.mem_range'_1,
      or_false]
    omega
  all_goals decide

/-- The table of small letters leads to none of them. -/
theorem lowercase_around : ∀ e ∈ CharRun.lowercase, ∀ n ∈ around,
    ¬((e.1.first : Int) ≤ n - e.2 ∧ n - e.2 ≤ e.1.last) := by
  decide +kernel

theorem eq_of_isAround_toLower : ∀ n < 128, isAround (Char.ofNat n).toLower = true →
    (Char.ofNat n).toLower = Char.ofNat n := by
  decide +kernel

theorem isAround_lowercase {run : CharRun} {distance : Int} {c : Char}
    (hr : (run, distance) ∈ CharRun.lowercase) (hc : run.contains c = true) :
    isAround (Char.ofNat ((c.toNat : Int) + distance).toNat) = false := by
  refine Bool.eq_false_iff.mpr fun hd => ?_
  have hm := mem_around hd
  have hn := lowercase_around _ hr _ hm
  simp only [CharRun.contains, Bool.and_eq_true, decide_eq_true_eq] at hc
  by_cases hv : ((c.toNat : Int) + distance).toNat.isValidChar
  · have ho : (Char.ofNat ((c.toNat : Int) + distance).toNat).toNat =
        ((c.toNat : Int) + distance).toNat := by
      rw [Char.ofNat, dif_pos hv]
      rfl
    rw [ho] at hm hn
    dsimp only at hn
    have hp : ((c.toNat : Int) + distance).toNat ≠ 0 := fun hz => by
      rw [hz] at hm
      revert hm
      decide
    omega
  · -- What is no character becomes NUL.
    rw [Char.ofNat, dif_neg hv] at hm
    revert hm
    decide

/-- Only what has no small letter is around after letters have become small. -/
theorem eq_of_mem_lowerChar {c d : Char} (hd : d ∈ lowerChar c) (ha : isAround d = true) :
    d = c := by
  unfold lowerChar at hd
  split at hd
  next hc =>
    obtain rfl := List.mem_singleton.mp hd
    have hl := eq_of_isAround_toLower c.toNat hc
    rw [Char.ofNat_toNat] at hl
    exact hl ha
  split at hd
  next =>
    have hn : IsBare ['i', '\u0307'] := by decide
    rw [hn d hd] at ha
    cases ha
  split at hd
  next run distance hf =>
    obtain rfl := List.mem_singleton.mp hd
    have hr := List.find?_some hf
    rw [isAround_lowercase (List.mem_of_find?_eq_some hf) hr] at ha
    cases ha
  next => exact List.mem_singleton.mp hd

theorem mem_of_mem_lowerAfter {before cs : List Char} {d : Char} (hd : d ∈ lowerAfter before cs)
    (ha : isAround d = true) : d ∈ cs := by
  induction cs generalizing before with
  | nil => cases hd
  | cons c rest ih =>
    rw [lowerAfter] at hd
    split at hd
    next =>
      rcases List.mem_cons.mp hd with rfl | hd
      · -- Neither small sigma is around.
        exact absurd ha (by split <;> decide)
      · exact List.mem_cons_of_mem _ (ih hd)
    next =>
      rcases List.mem_append.mp hd with hd | hd
      · exact List.mem_cons.mpr (.inl (eq_of_mem_lowerChar hd ha))
      · exact List.mem_cons_of_mem _ (ih hd)

theorem madeOf_lower {ws : List String} {s : String} (h : MadeOf ws s) : MadeOf ws (lower s) := by
  refine h.of_subset fun c hc ha => ?_
  rw [lower, String.toList_ofList] at hc
  exact mem_of_mem_lowerAfter hc ha

end LetterCase

theorem Cluster.flatten_split (cs : List Char) : (split cs).flatten = cs := by
  induction cs with
  | nil => rfl
  | cons c rest ih =>
    unfold split
    split
    next d ds more hs =>
      rw [hs] at ih
      split <;> simp [← ih]
    next => simp [ih]

namespace SnakeCase

theorem flatten_extendFirst (g : Glyph) (ws : List (List Char)) :
    (extendFirst g ws).flatten = g ++ ws.flatten := by
  cases ws with
  | nil => simp [extendFirst]
  | cons w ws => simp [extendFirst]

/-- Words are made of what they are cut out of. -/
theorem mem_flatten_words {gs : List Glyph} {c : Char} (h : c ∈ (words gs).flatten) :
    c ∈ gs.flatten := by
  fun_induction words gs with
  | case1 => exact h
  | case2 g => simp at h
  | case3 g => exact h
  | case4 a b rest _ ih => exact List.mem_append_right _ (ih h)
  | case5 a b rest _ _ ih =>
    rw [List.flatten_cons, List.mem_append] at h ⊢
    exact h.imp_right ih
  | case6 a b rest _ _ ih =>
    rw [flatten_extendFirst, List.mem_append] at h
    rw [List.flatten_cons, List.mem_append]
    exact h.imp_right ih

theorem mem_of_mem_intercalate {sep : List Char} {ws : List (List Char)} {c : Char}
    (h : c ∈ sep.intercalate ws) : c ∈ sep ∨ ∃ w ∈ ws, c ∈ w := by
  induction ws with
  | nil => simp at h
  | cons w ws ih =>
    cases ws with
    | nil => exact .inr ⟨w, List.mem_cons_self, by simpa using h⟩
    | cons v ws =>
      rw [List.intercalate_cons_cons, List.mem_append, List.mem_append] at h
      rcases h with (h | h) | h
      · exact .inr ⟨w, List.mem_cons_self, h⟩
      · exact .inl h
      · exact (ih h).imp_right fun ⟨u, hu, hc⟩ => ⟨u, List.mem_cons_of_mem _ hu, hc⟩

theorem madeOf_snakeCase {ws : List String} {s : String} (h : MadeOf ws s) :
    MadeOf ws (snakeCase s) := by
  refine h.of_subset fun c hc ha => ?_
  rw [snakeCase, String.toList_intercalate] at hc
  rcases mem_of_mem_intercalate hc with hc | ⟨w, hw, hc⟩
  · -- The mark between words is not around.
    obtain rfl : c = '_' := by simpa using hc
    exact absurd ha (by decide)
  · simp only [List.map_map, List.mem_map, Function.comp_apply] at hw
    obtain ⟨v, hv, rfl⟩ := hw
    rw [LetterCase.lower, String.toList_ofList, String.toList_ofList] at hc
    have hm := mem_flatten_words
      (List.mem_flatten.mpr ⟨v, hv, LetterCase.mem_of_mem_lowerAfter hc ha⟩)
    rwa [Cluster.flatten_split] at hm

end SnakeCase

namespace Naming

variable {ws : List String}

theorem madeOf_pluralize {noun : String} (h : MadeOf ws noun) : MadeOf ws (pluralize noun) := by
  unfold pluralize
  dsimp only
  split
  · exact h.append (.of_isBare (by decide))
  split
  · refine MadeOf.append (h.of_subset fun c hc _ => ?_) (.of_isBare (by decide))
    rw [String.toList_ofList] at hc
    exact (List.dropLast_sublist _).subset hc
  · exact h.append (.of_isBare (by decide))

theorem madeOf_method {verb noun : String} (hv : MadeOf ws verb) (hn : MadeOf ws noun) :
    MadeOf ws (method verb noun) := by
  have hs := SnakeCase.madeOf_snakeCase hn
  unfold method
  dsimp only
  split
  · exact hs
  · exact ((SnakeCase.madeOf_snakeCase hv).append (.of_isBare (by decide))).append hs

theorem madeOf_slot {field suffix : String} (hf : MadeOf ws field) (hs : MadeOf ws suffix) :
    MadeOf ws (slot field suffix) :=
  (hf.append (.of_isBare (by decide))).append (SnakeCase.madeOf_snakeCase hs)

end Naming

/-! ### Names of records -/

theorem Column.mem_slots_of_ofField {config : Config} {scope : Scope} {record : String}
    {parts : NameParts} {f : FieldDeclaration} {c : Column}
    (h : ofField config scope record parts f = .ok (some c)) : ∀ s ∈ c.slots,
      s = c.name ∨ s = Naming.slot c.name parts.range ∨ s = Naming.slot c.name parts.like := by
  obtain ⟨t, k, -, -, -, -, -, rfl⟩ := ofField_eq_some.mp h
  intro s hs
  simp only [slots, List.cons_append, List.mem_cons, List.mem_append, Option.mem_toList] at hs
  rcases hs with rfl | hs | hs
  · exact .inl rfl
  · split at hs
    · exact .inr (.inl (Option.some.inj hs).symm)
    · cases hs
  · split at hs
    · exact .inr (.inr (Option.some.inj hs).symm)
    · cases hs

namespace Record

variable {d : Declaration} {scope : Scope} {config : Config} {r : Record}

theorem methodName_mem {a : Action} (h : a ∈ r.actions) :
    r.methodName a ∈ [r.findMethod, r.countMethod, r.createMethod, r.deleteMethod] ∨
      ∃ c ∈ r.columns, r.methodName a ∈ r.selectMethod c :: r.writeMethods c := by
  rcases action_cases h with rfl | rfl | rfl | rfl | ⟨c, hc, rfl | ⟨k, hk, rfl⟩⟩
  · exact .inl (by simp [methodName])
  · exact .inl (by simp [methodName])
  · exact .inl (by simp [methodName])
  · exact .inl (by simp [methodName])
  · exact .inr ⟨c, hc, List.mem_cons_self⟩
  · exact .inr ⟨c, hc, List.mem_cons_of_mem _ (List.mem_map_of_mem hk)⟩

/-- Methods and slots are among the names that are checked to be identifiers. -/
theorem Built.isIdentifier (h : r.Built) :
    ∀ n ∈ r.storeMethods ++ r.slotNames, Naming.isIdentifier n = true := by
  intro n hn
  refine h.identifiers n ?_
  rcases List.mem_append.mp hn with hn | hn
  · obtain ⟨a, ha, rfl⟩ := List.mem_map.mp hn
    rcases methodName_mem ha with hm | ⟨c, hc, hm⟩
    · exact List.mem_append_left _ (List.mem_append_right [_, _, _] hm)
    · exact List.mem_append_right _ (List.mem_flatMap.mpr ⟨c, hc, List.mem_append_right _ hm⟩)
  · obtain ⟨c, hc, hs⟩ := List.mem_flatMap.mp hn
    exact List.mem_append_right _ (List.mem_flatMap.mpr ⟨c, hc, List.mem_append_left _ hs⟩)

/-- What the names of methods and slots are made of. -/
def words (r : Record) : List String :=
  [r.name, r.recordName, r.parts.find, r.parts.count, r.parts.select, r.parts.update,
    r.parts.range, r.parts.like] ++ r.columns.map Column.name

theorem madeOf_fieldMethod {ws : List String} (hw : ∀ w ∈ r.words, MadeOf ws w) {c : Column}
    (hc : c ∈ r.columns) {verb : String} (hv : MadeOf ws verb) :
    MadeOf ws (r.fieldMethod verb c) := by
  have hr : MadeOf ws r.recordName := hw _ (by simp [words])
  have hn : MadeOf ws c.name := hw _ (List.mem_append_right _ (List.mem_map_of_mem hc))
  exact Naming.madeOf_method hv ((hr.append (.of_isBare (by decide))).append hn)

theorem madeOf_columnMethod {ws : List String} (hw : ∀ w ∈ r.words, MadeOf ws w) {c : Column}
    (hc : c ∈ r.columns) : ∀ m ∈ r.selectMethod c :: r.writeMethods c, MadeOf ws m := by
  intro m hm
  rcases List.mem_cons.mp hm with rfl | hm
  · exact Naming.madeOf_method (hw _ (by simp [words]))
      (Naming.madeOf_pluralize (hw _ (List.mem_append_right _ (List.mem_map_of_mem hc))))
  · obtain ⟨k, -, rfl⟩ := List.mem_map.mp hm
    cases k with
    | set =>
      rw [writeMethod, updateMethod]
      exact madeOf_fieldMethod hw hc (hw _ (by simp [words]))
    | add =>
      rw [writeMethod, addMethod]
      exact madeOf_fieldMethod hw hc (.of_isBare (by decide))
    | drop =>
      rw [writeMethod, dropMethod]
      exact madeOf_fieldMethod hw hc (.of_isBare (by decide))

theorem madeOf_ownMethod {ws : List String} (hw : ∀ w ∈ r.words, MadeOf ws w) :
    ∀ m ∈ [r.findMethod, r.countMethod, r.createMethod, r.deleteMethod], MadeOf ws m := by
  have hp : MadeOf ws (Naming.pluralize r.name) := Naming.madeOf_pluralize (hw _ (by simp [words]))
  intro m hm
  simp only [List.mem_cons, List.not_mem_nil, or_false] at hm
  rcases hm with rfl | rfl | rfl | rfl
  · exact Naming.madeOf_method (hw _ (by simp [words])) hp
  · exact Naming.madeOf_method (hw _ (by simp [words])) hp
  · exact Naming.madeOf_method (.of_isBare (by decide)) hp
  · exact Naming.madeOf_method (.of_isBare (by decide)) hp

theorem madeOf_methodName {ws : List String} (hw : ∀ w ∈ r.words, MadeOf ws w) {a : Action}
    (ha : a ∈ r.actions) : MadeOf ws (r.methodName a) := by
  rcases methodName_mem ha with hm | ⟨c, hc, hm⟩
  · exact madeOf_ownMethod hw _ hm
  · exact madeOf_columnMethod hw hc _ hm

/-- Slots of columns as they are read from the fields. -/
theorem madeOf_slotName {ws : List String} {s : RecordSettings} {columns : List Column}
    (hc : columnsFrom config scope d.name s.parts [] [] d.fields = .ok columns)
    (hw : ∀ w ∈ (make d s columns).words, MadeOf ws w) :
    ∀ n ∈ (make d s columns).slotNames, MadeOf ws n := by
  have hs : ∀ c ∈ columns, ∀ n ∈ c.slots, n = c.name ∨
      n = Naming.slot c.name s.parts.range ∨ n = Naming.slot c.name s.parts.like :=
    columnsFrom_forall (fun f c => Column.mem_slots_of_ofField) hc (List.forall_mem_nil _)
  intro n hm
  obtain ⟨c, hc, hm⟩ := List.mem_flatMap.mp hm
  have hn : MadeOf ws c.name := hw _ (List.mem_append_right _ (List.mem_map_of_mem hc))
  rcases hs c hc n hm with rfl | rfl | rfl
  · exact hn
  · exact Naming.madeOf_slot hn (hw _ (by simp [words, make]))
  · exact Naming.madeOf_slot hn (hw _ (by simp [words, make]))

/-- Names that are made of words with nothing around them are the identifiers that they are. -/
theorem identifier?_of_words (h : build d scope config = .ok r)
    (hw : ∀ w ∈ r.words, IsBare w.toList) :
    ∀ n ∈ r.storeMethods ++ r.slotNames, identifier? n = some n := by
  intro n hn
  have hw' : ∀ w ∈ r.words, MadeOf r.words w := fun w => .of_mem
  have hm : MadeOf r.words n := by
    rcases List.mem_append.mp hn with hn | hn
    · obtain ⟨a, ha, rfl⟩ := List.mem_map.mp hn
      exact madeOf_methodName hw' ha
    · obtain ⟨s, columns, -, hc, rfl, -⟩ := build_eq_ok.mp h
      exact madeOf_slotName hc hw' n hn
  obtain ⟨i, hi⟩ := Option.isSome_iff_exists.mp ((built_of_build h).isIdentifier n hn)
  rw [hi, identifier?_of_isBare (hm.isBare hw) hi]

end Record
end RecordStore
