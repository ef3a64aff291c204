import RecordStore.Proofs.Generation.Balance
import RecordStore.Proofs.Syntax.Completion
import RecordStore.Proofs.Syntax.Joining

/-!
Files of several parts. A file is read as attributes of its own and then items. Where a part of it is
a file by itself, its items are those of the part and those of what follows, as nothing of a part
goes on behind its end.
-/
namespace RecordStore

open RecordStore.Lexer RecordStore.Parser RecordStore.Parser.Extends

variable {α : Type} {ts us r : List Token}

/-! ### Rounds -/

namespace Parser

/-- A parser that is run as long as something is seen. -/
inductive Rounds (seen : List Token → Bool) (p : Parser α) :
    List Token → List α → List Token → Prop
  | stop {ts : List Token} (h : seen ts = false) : Rounds seen p ts [] ts
  | step {ts m r : List Token} {a : α} {as : List α} (h : seen ts = true)
      (ha : p.run ts = some (a, m)) (has : Rounds seen p m as r) : Rounds seen p ts (a :: as) r

namespace Rounds

variable {seen : List Token → Bool} {c : Parser Bool} {p q : Parser α} {as bs : List α}
  {m : List Token}

theorem of_go (hc : ∀ ts, c.run ts = some (seen ts, ts)) {n : List Token}
    (h : (whileSees.go c p n).run ts = some (as, r)) : Rounds seen p ts as r := by
  induction n generalizing ts as with
  | nil => cases h
  | cons t n ih =>
    unfold whileSees.go at h
    rw [StateT.run_bind, hc] at h
    cases hs : seen ts with
    | false =>
      rw [hs] at h
      cases h
      exact .stop hs
    | true =>
      rw [hs] at h
      change (p >>= fun a => whileSees.go c p n >>= fun as => pure (a :: as)).run ts = _ at h
      obtain ⟨a, m, ha, hm⟩ := run_bind_eq.mp h
      obtain ⟨as', m', has, hpure⟩ := run_bind_eq.mp hm
      cases hpure
      exact .step hs ha (ih has)

theorem of_whileSees (hc : ∀ ts, c.run ts = some (seen ts, ts))
    (h : (whileSees c p).run ts = some (as, r)) : Rounds seen p ts as r :=
  of_go hc (n := .punct ';' false :: ts) h

theorem suffix (hp : ∀ {ts a r}, p.run ts = some (a, r) → r <:+ ts) (h : Rounds seen p ts as r) :
    r <:+ ts := by
  induction h with
  | stop => exact List.suffix_rfl
  | step _ ha _ ih => exact ih.trans (hp ha)

theorem seen_eq (h : Rounds seen p ts as r) : seen r = false := by
  induction h with
  | stop h => exact h
  | step _ _ _ ih => exact ih

theorem eq_of_seen (h : Rounds seen p ts as r) (hs : seen ts = false) : as = [] ∧ ts = r := by
  cases h with
  | stop => exact ⟨rfl, rfl⟩
  | step ht => cases hs.symm.trans ht

/-- Where nothing is left, the last round left nothing. -/
theorem exists_last (hp : ∀ {ts a r}, p.run ts = some (a, r) → r <:+ ts)
    (h : Rounds seen p ts as []) (hne : ts ≠ []) :
    ∃ us a, us <:+ ts ∧ p.run us = some (a, []) := by
  generalize hr : [] = r at h
  induction h with
  | stop => exact absurd hr.symm hne
  | @step ts m r a as _ ha has ih =>
    subst hr
    by_cases hm : m = []
    · exact ⟨ts, a, List.suffix_rfl, hm ▸ ha⟩
    · obtain ⟨us, b, hs, hb⟩ := ih hm rfl
      exact ⟨us, b, hs.trans (hp ha), hb⟩

/-- What is read of a text is read first where more tokens follow. -/
theorem append (hseen : ∀ {ts}, Settled ts → seen (ts ++ us) = seen ts) (hnil : seen [] = false)
    (hp : ∀ {ts a r}, p.run ts = some (a, r) → r <:+ ts)
    (hq : ∀ {ts a r}, Settled ts → p.run ts = some (a, r) → q.run (ts ++ us) = some (a, r ++ us))
    (hs : ts ≠ [] → Settled ts) (h : Rounds seen p ts as r)
    (hb : Rounds seen q (ts ++ us) bs m) :
    ∃ cs, bs = as ++ cs ∧ Rounds seen q (r ++ us) cs m := by
  induction h generalizing bs with
  | stop => exact ⟨bs, rfl, hb⟩
  | @step ts m' r a as ht ha _ ih =>
    have hs : Settled ts := hs fun he => by
      rw [he, hnil] at ht
      cases ht
    cases hb with
    | stop hf =>
      rw [hseen hs, ht] at hf
      cases hf
    | step _ hb hbs =>
      rw [hq hs ha] at hb
      cases hb
      obtain ⟨cs, rfl, hcs⟩ := ih (fun hm => hs.of_suffix (hp ha) hm) hbs
      exact ⟨cs, rfl, hcs⟩

end Rounds

end Parser

/-! ### Attributes and items -/

namespace Grammar

variable {g g' : Grammar} {n k : Nat}

/-- Whether an attribute of the file itself comes next. -/
def innerAhead (ts : List Token) : Bool :=
  (afterOperator "#".toList (within 0 ts)).isSome &&
    (afterOperator "!".toList (within 1 ts)).isSome && opens .bracket (within 2 ts).head?

/-- Whether an item comes next. -/
def itemAhead (ts : List Token) : Bool := !ts.head?.all isClosing

/-- An attribute of the file itself. -/
def innerAttribute (g : Grammar) : Parser Attribute := do
  op "#"
  op "!"
  delimited .bracket (attributeBody g true)

theorem innerAhead_append (hs : Settled ts) : innerAhead (ts ++ us) = innerAhead ts := by
  unfold innerAhead
  rw [isSome_afterOperator_within 0 _ hs, isSome_afterOperator_within 1 _ hs, head?_within 2 hs]

theorem itemAhead_append (hs : Settled ts) : itemAhead (ts ++ us) = itemAhead ts := by
  unfold itemAhead
  rw [List.head?_append, List.head?_eq_some_head hs.ne_nil, Option.some_or]

/-- Tokens that are read as attributes of a file and items. -/
def Reads (g : Grammar) (ts : List Token) (inner : List Attribute) (items : List Item) : Prop :=
  ∃ m, Rounds innerAhead (innerAttribute g) ts inner m ∧ Rounds itemAhead g.item m items []

/-- No item starts like an attribute of the file. -/
theorem run_item_of_bang (n : Nat) (j j' : Bool) (rest : List Token) :
    (ofDepth n).item.run (.punct '#' j :: .punct '!' j' :: rest) = none := by
  cases n with
  | zero => rfl
  | succ n =>
    change (itemBody (ofDepth n)).run _ = none
    cases j <;> cases j' <;> rfl

theorem exists_of_innerAhead (h : innerAhead ts = true) :
    ∃ j j' rest, ts = .punct '#' j :: .punct '!' j' :: rest := by
  simp only [innerAhead, Bool.and_eq_true] at h
  obtain ⟨⟨ho, hb⟩, -⟩ := h
  cases ts with
  | nil => cases ho
  | cons t ts =>
    cases t with
    | punct c j =>
      change (if '#' == c then some ts else none).isSome at ho
      split at ho
      next hc =>
        obtain rfl := eq_of_beq hc
        change (afterOperator "!".toList ts).isSome at hb
        cases ts with
        | nil => cases hb
        | cons u ts =>
          cases u with
          | punct c j' =>
            change (if '!' == c then some ts else none).isSome at hb
            split at hb
            next hc =>
              obtain rfl := eq_of_beq hc
              exact ⟨j, j', ts, rfl⟩
            next => cases hb
          | _ => cases hb
      next => cases ho
    | _ => cases ho

theorem suffix_innerAttribute (g : Grammar) [Deepens g g] {a : Attribute}
    (h : (innerAttribute g).run ts = some (a, r)) : .closing .bracket :: r <:+ ts := by
  obtain ⟨_, m, hm, h⟩ := run_bind_eq.mp h
  obtain ⟨_, n, hn, h⟩ := run_bind_eq.mp h
  exact (suffix_of_delimited (q := attributeBody g true) h).trans
    ((suffix (op "!") hn).trans (suffix (op "#") hm))

theorem run_innerAttribute_append [Deepens g g'] {a : Attribute} (us : List Token)
    (hs : Settled ts) (h : (innerAttribute g).run ts = some (a, r)) :
    (innerAttribute g').run (ts ++ us) = some (a, r ++ us) := by
  obtain ⟨_, m, hm, h⟩ := run_bind_eq.mp h
  obtain ⟨_, n, hn, h⟩ := run_bind_eq.mp h
  have hn' : n ≠ [] := by
    rintro rfl
    cases List.suffix_nil.mp (suffix_of_delimited (q := attributeBody g' true) h)
  have hsn := hs.of_suffix ((suffix (op "!") hn).trans (suffix (op "#") hm)) hn'
  have hm' : m ≠ [] := by
    rintro rfl
    exact hn' (List.suffix_nil.mp (suffix (op "!") hn))
  have hsm := hs.of_suffix (suffix (op "#") hm) hm'
  exact run_bind_eq.mpr ⟨(), m ++ us, extend us hs hm hm', run_bind_eq.mpr ⟨(), n ++ us,
    extend us hsm hn hn', Completes.run_delimited_append us hsn h⟩⟩

/-- An item is read alike where more text follows, whether it takes all of the text or not. -/
theorem run_item_append {i : Item} (us : List Token) (hs : Settled ts)
    (h : (ofDepth n).item.run ts = some (i, r)) :
    (ofDepth (n + k)).item.run (ts ++ us) = some (i, r ++ us) := by
  by_cases hr : r = []
  · subst hr
    exact Completes.complete (p := (ofDepth n).item) us hs h
  · exact Extends.extend (p := (ofDepth n).item) us hs h hr

/-- Where a part is a file by itself, its items are read first, and what follows is a file too. -/
theorem Reads.append {inner inner' : List Attribute} {items items' : List Item}
    (hs : ts ≠ [] → Settled ts) (h : Reads (ofDepth n) ts inner items)
    (h' : Reads (ofDepth (n + k)) (ts ++ us) inner' items') :
    ∃ inner'' items'', items' = items ++ items'' ∧ Reads (ofDepth (n + k)) us inner'' items'' := by
  obtain ⟨m, hm, hi⟩ := h
  obtain ⟨m', hm', hi'⟩ := h'
  have hd : Deepens (ofDepth n) (ofDepth n) := deepens_ofDepth n 0
  have hsuffix {ts r : List Token} {a : Attribute}
      (h : (innerAttribute (ofDepth n)).run ts = some (a, r)) : r <:+ ts :=
    (List.suffix_cons _ _).trans (suffix_innerAttribute (ofDepth n) h)
  obtain ⟨inner'', rfl, hinner⟩ := hm.append innerAhead_append rfl hsuffix
    (run_innerAttribute_append us) hs hm'
  by_cases hnil : m = []
  · subst hnil
    obtain ⟨rfl, -⟩ := hi.eq_of_seen rfl
    exact ⟨inner'', items', rfl, m', hinner, hi'⟩
  have hsm : Settled m := (hs fun h => hnil (List.suffix_nil.mp (h ▸ hm.suffix hsuffix))).of_suffix
    (hm.suffix hsuffix) hnil
  obtain ⟨rfl, rfl⟩ := hinner.eq_of_seen ((innerAhead_append hsm).trans hm.seen_eq)
  obtain ⟨items'', rfl, hitems⟩ := hi.append itemAhead_append rfl
    (Extends.suffix (ofDepth (n + k)).item) (run_item_append us) (fun _ => hsm) hi'
  rw [List.nil_append] at hitems
  refine ⟨[], items'', rfl, us, .stop ?_, hitems⟩
  refine Bool.eq_false_iff.mpr fun ha => ?_
  obtain ⟨j, j', rest, rfl⟩ := exists_of_innerAhead ha
  cases hitems with
  | step _ hi _ =>
    rw [run_item_of_bang] at hi
    cases hi

end Grammar

/-! ### Tokens of a text -/

namespace Lexer

variable {cs left : Chars} {stack : List Delimiter}

/-- A group that is opened is closed. -/
theorem exists_of_groupTokens {d k n : Nat} (h : Code.depth (d + 1 + k) ts = some n) (hn : n ≤ k) :
    ∃ body e rest, groupTokens d ts = some (body, .closing e :: rest) := by
  induction ts generalizing d with
  | nil =>
    cases h
    omega
  | cons t ts ih =>
    rw [Code.depth_cons] at h
    obtain ⟨m, ht, h⟩ := Option.bind_eq_some_iff.mp h
    have hmore (d' : Nat) (h' : Code.depth (d' + 1 + k) ts = some n)
        (he : groupTokens d (t :: ts) = (groupTokens d' ts).map fun x => (t :: x.1, x.2)) :
        ∃ body e rest, groupTokens d (t :: ts) = some (body, .closing e :: rest) := by
      obtain ⟨body, e, rest, hg⟩ := ih h'
      exact ⟨t :: body, e, rest, by rw [he, hg]; rfl⟩
    cases t with
    | opening e =>
      cases ht
      refine hmore (d + 1) ?_ rfl
      rwa [Nat.add_right_comm (d + 1)]
    | closing e =>
      cases d with
      | zero => exact ⟨[], e, ts, rfl⟩
      | succ d =>
        rw [Token.nest, if_neg (by omega)] at ht
        cases ht
        refine hmore d ?_ rfl
        rwa [show d + 1 + k = d + 1 + 1 + k - 1 by omega]
    | _ =>
      cases ht
      exact hmore d h rfl

theorem isSpace_of_isMark {c : Char} (h : isMark c = true) : isSpace c = false := by
  have hall : ∀ d ∈ "~!@#$%^&*-=+|;:,<.>/?'".toList, isSpace d = false :=
    List.all_iff_forall_prop.mp (by decide)
  exact hall c (List.contains_iff_mem.mp h)

theorem comment?_of_markAhead (h : markAhead cs = true) : comment? cs = none := by
  rw [comment?_eq_none_iff]
  intro rest
  constructor <;>
    · rintro rfl
      cases h

/-- A byte order mark stands only in front. -/
theorem lex_byteOrderMark (stack : List Delimiter) (rest : Chars) :
    lex stack ('\uFEFF' :: rest) = none := by
  have hl : literal? ('\uFEFF' :: rest) = none := by
    obtain ⟨hf, hi⟩ := number_eq_none (c := '\uFEFF') (by decide) rest
    rw [literal?_of_head (by decide), hf, hi]
    rfl
  have hn : name? ('\uFEFF' :: rest) = none := by
    have hs : CharClass.isIdentifierStart '\uFEFF' = false := by decide +kernel
    rw [name?, hs]
    rfl
  have hi : identifier? ('\uFEFF' :: rest) = none := hn
  have ht : leaf? ('\uFEFF' :: rest) = none := by
    unfold leaf?
    rw [hl, punct?_of_ne (by decide), hi]
    rfl
  have ht : token? ('\uFEFF' :: rest) = none := ht
  rw [lex_token rfl rfl, ht]
  rfl

/-- Where no token follows, nothing follows that could join a mark. -/
theorem markAhead_of_lex (h : lex stack cs = some []) : markAhead cs = false := by
  cases cs with
  | nil => rfl
  | cons c rest =>
    refine Bool.eq_false_iff.mpr fun hm => ?_
    rw [lex_token (comment?_of_markAhead hm) (isSpace_of_isMark (isMark_of_markAhead hm))] at h
    obtain ⟨x, -, h⟩ := Option.bind_eq_some_iff.mp h
    obtain ⟨s, -, h⟩ := Option.bind_eq_some_iff.mp h
    obtain ⟨us, -, h⟩ := Option.map_eq_some_iff.mp h
    cases h

theorem joint_of_token? {c : Char} {j : Bool} (hc : c ≠ '\'')
    (h : token? cs = some (.punct c j, left)) : j = markAhead left := by
  unfold token? at h
  split at h
  · cases h
  split at h
  · cases h
  · cases h
  · cases h
  unfold leaf? at h
  split at h
  · cases h
  split at h
  next hp =>
    cases h
    unfold punct? at hp
    split at hp
    · cases hp
    · obtain ⟨x, -, hx⟩ := Option.bind_eq_some_iff.mp hp
      dsimp only at hx
      split at hx
      · cases hx
      · split at hx <;> cases hx
        exact absurd rfl hc
    · split at hp <;> cases hp
      rfl
  split at h
  · cases h
  · obtain ⟨x, -, hx⟩ := Option.map_eq_some_iff.mp h
    cases hx

/-- The last mark of a text joins nothing. -/
theorem joint_of_lex {c : Char} {j : Bool} (hc : c ≠ '\'') (h : lex stack cs = some ts)
    (hl : ts.getLast? = some (.punct c j)) : j = false := by
  induction hn : cs.length using Nat.strongRecOn generalizing cs stack ts with
  | ind n ih =>
    subst hn
    cases cs with
    | nil =>
      rw [lex_nil] at h
      split at h <;> cases h
      cases hl
    | cons d rest =>
      cases hd : comment? (d :: rest) with
      | some cm =>
        cases cm with
        | ordinary left =>
          rw [lex_ordinary hd] at h
          exact ih _ (length_of_comment? hd rfl) h hl rfl
        | documentation doc left =>
          rw [lex_documentation hd] at h
          split at h
          next =>
            obtain ⟨us, hus, rfl⟩ := Option.map_eq_some_iff.mp h
            rw [List.getLast?_append] at hl
            cases hu : us.getLast? with
            | none =>
              rw [hu, Option.none_or] at hl
              rcases doc with ⟨_ | _, text⟩ <;> cases hl
            | some t =>
              rw [hu, Option.some_or] at hl
              exact ih _ (length_of_comment? hd rfl) hus (hu.trans hl) rfl
          next => cases h
        | unclosed =>
          rw [lex_unclosed hd] at h
          cases h
      | none =>
        cases hs : isSpace d with
        | true =>
          rw [lex_space hd hs] at h
          exact ih _ (Nat.lt_succ_self _) h hl rfl
        | false =>
          rw [lex_token hd hs] at h
          obtain ⟨⟨t, left⟩, hx, h⟩ := Option.bind_eq_some_iff.mp h
          obtain ⟨s, -, h⟩ := Option.bind_eq_some_iff.mp h
          obtain ⟨us, hus, rfl⟩ := Option.map_eq_some_iff.mp h
          cases us with
          | nil =>
            cases hl
            rw [joint_of_token? hc hx, markAhead_of_lex hus]
          | cons u us => exact ih _ (length_of_token? hx) hus (by rwa [List.getLast?_cons_cons] at hl) rfl

/-- The tokens of a file by itself are settled. -/
theorem settled_of_reads {n : Nat} {inner : List Attribute} {items : List Item}
    (h : lex [] cs = some ts) (hr : (Grammar.ofDepth n).Reads ts inner items) (hne : ts ≠ []) :
    Settled ts := by
  refine ⟨?_, fun d s ⟨before, ho⟩ => ?_⟩
  · have hd : (Grammar.ofDepth n).Deepens (.ofDepth n) := Grammar.deepens_ofDepth n 0
    have hattr {ts r : List Token} {a : Attribute}
        (h : (Grammar.innerAttribute (.ofDepth n)).run ts = some (a, r)) :=
      Grammar.suffix_innerAttribute (.ofDepth n) h
    obtain ⟨m, hm, hi⟩ := hr
    have hmts := hm.suffix fun h => (List.suffix_cons _ _).trans (hattr h)
    by_cases hnil : m = []
    · subst hnil
      obtain ⟨us, a, hs, ha⟩ := hm.exists_last (fun h => (List.suffix_cons _ _).trans (hattr h)) hne
      rw [Completes.getLast?_of_suffix ((hattr ha).trans hs) (List.cons_ne_nil _ _)]
      rfl
    · obtain ⟨us, a, hs, ha⟩ := hi.exists_last (Extends.suffix (Grammar.ofDepth n).item) hnil
      have hc : Completes (Grammar.ofDepth n).item (Grammar.ofDepth n).item :=
        Grammar.completes_item n 0
      have hlast := hc.last ha
      rw [← Completes.getLast?_of_suffix (hs.trans hmts) (hc.ne_nil ha)] at hlast
      obtain ⟨t, ht, hcomp⟩ := (Option.any_eq_true _ _).mp hlast
      rw [ht]
      unfold Token.completes at hcomp
      split at hcomp
      · rfl
      next j =>
        rw [joint_of_lex (by decide) h ht]
        rfl
      · cases hcomp
  · subst ho
    have hdepth : Code.depth 0 (before ++ .opening d :: s) = some 0 := depth_tokensFrom h
    rw [Code.depth_append] at hdepth
    obtain ⟨k, -, hk⟩ := Option.bind_eq_some_iff.mp hdepth
    refine exists_of_groupTokens (d := 0) (k := k) (n := 0) ?_ (Nat.zero_le _)
    rwa [Nat.zero_add, Nat.add_comm]

end Lexer

/-! ### Parts of a file -/

/-- The items that a line or more of a file stand for, whatever else the file holds. -/
def Lexer.Gives (cs : Lexer.Chars) (items : List Item) : Prop :=
  ∀ b ts inner all n, Lexer.lex [] (cs ++ '\n' :: b) = some ts →
    (Grammar.ofDepth n).Reads ts inner all → 8 * ts.length + 16 ≤ n →
    ∃ us inner' rest, Lexer.lex [] b = some us ∧ us.length ≤ ts.length ∧ all = items ++ rest ∧
      (Grammar.ofDepth n).Reads us inner' rest

namespace Lexer

variable {cs : Chars} {items : List Item}

/-- What is a file by itself gives its items. -/
theorem gives_of_reads {n : Nat} {inner : List Attribute} (h : lex [] cs = some ts)
    (hr : (Grammar.ofDepth n).Reads ts inner items) (hn : n ≤ 8 * ts.length + 16) :
    Gives cs items := by
  intro b ts' inner' all m hl ha hm
  rw [lex_append h] at hl
  obtain ⟨us, hus, rfl⟩ := Option.map_eq_some_iff.mp hl
  rw [List.length_append] at hm
  obtain ⟨k, rfl⟩ := Nat.exists_eq_add_of_le (show n ≤ m by omega)
  obtain ⟨inner'', rest, he, hrest⟩ := hr.append (settled_of_reads h hr) ha
  exact ⟨us, inner'', rest, hus, by simp, he, hrest⟩

/-- What holds no tokens gives nothing. -/
theorem gives_nil (h : ∀ b, lex [] (cs ++ '\n' :: b) = lex [] b) : Gives cs [] := by
  intro b ts inner all n hl ha _
  rw [h] at hl
  exact ⟨ts, inner, all, hl, Nat.le_refl _, rfl, ha⟩

/-- What no file can hold gives whatever there is. -/
theorem gives_of_none (h : ∀ b, lex [] (cs ++ '\n' :: b) = none) : Gives cs items := by
  intro b ts inner all n hl
  rw [h] at hl
  cases hl

theorem items_of_gives {n : Nat} {inner : List Attribute} {parts : List (Chars × List Item)}
    (hp : ∀ p ∈ parts, Gives p.1 p.2)
    (h : lex [] (parts.flatMap fun p => p.1 ++ ['\n']) = some ts)
    (hr : (Grammar.ofDepth n).Reads ts inner items) (hn : 8 * ts.length + 16 ≤ n) :
    items = parts.flatMap Prod.snd := by
  induction parts generalizing ts inner items with
  | nil =>
    cases h
    obtain ⟨m, hm, hi⟩ := hr
    obtain ⟨-, rfl⟩ := hm.eq_of_seen rfl
    exact (hi.eq_of_seen rfl).1
  | cons p parts ih =>
    obtain ⟨hp, hps⟩ := List.forall_mem_cons.mp hp
    rw [List.flatMap_cons, List.append_assoc, List.singleton_append] at h
    obtain ⟨us, inner', rest, hus, hl, rfl, hrest⟩ := hp _ _ _ _ _ h hr hn
    rw [List.flatMap_cons, ih hps hus hrest (by omega)]

end Lexer

namespace SourceFile

variable {source : String} {file : SourceFile}

/-- What is read of a file's text. -/
theorem exists_of_read? (h : read? source = some file) : ∃ ts,
    lex [] (withoutByteOrderMark (splitShebang (withoutByteOrderMark source.toList)).2) = some ts ∧
      file.shebang = (splitShebang (withoutByteOrderMark source.toList)).1 ∧
      (Grammar.ofTokens ts).Reads ts file.inner file.items := by
  unfold read? at h
  dsimp only at h
  obtain ⟨ts, ht, hall⟩ := Option.bind_eq_some_iff.mp h
  rw [tokens?_eq, String.toList_ofList] at ht
  refine ⟨ts, ht, ?_⟩
  unfold all? at hall
  split at hall
  next a hr =>
    cases hall
    obtain ⟨inner, m, hm, hr⟩ := run_bind_eq.mp hr
    obtain ⟨items, r, hi, hr⟩ := run_bind_eq.mp hr
    cases hr
    exact ⟨rfl, m, .of_whileSees (fun _ => rfl) hm, .of_whileSees (fun _ => rfl) hi⟩
  next => cases hall

theorem splitShebang_of_none {cs : Chars} (h : (splitShebang cs).1 = none) :
    (splitShebang cs).2 = cs := by
  unfold splitShebang at h ⊢
  split at h
  next rest =>
    dsimp only at h ⊢
    split at h
    next hs => rw [if_pos hs]
    next => cases h
  next => rfl

/-- A file gives its items, unless a line for the system leads it. -/
theorem gives (h : read? source = some file) (hs : file.shebang = none) :
    Gives source.toList file.items := by
  obtain ⟨ts, ht, hshebang, hr⟩ := exists_of_read? h
  rw [hs] at hshebang
  rw [splitShebang_of_none hshebang.symm] at ht
  by_cases hb : ∃ rest, source.toList = '\uFEFF' :: rest
  · obtain ⟨rest, hb⟩ := hb
    exact gives_of_none fun b => by rw [hb, List.cons_append, lex_byteOrderMark]
  · have hw : withoutByteOrderMark source.toList = source.toList := by
      unfold withoutByteOrderMark
      split
      next rest he => exact absurd ⟨rest, he⟩ hb
      next => rfl
    rw [hw, hw] at ht
    exact gives_of_reads ht hr (Nat.le_refl _)

end SourceFile
end RecordStore
