import RecordStore.Proofs.Source.DeclaredNames
import RecordStore.Proofs.Syntax.Files
import RecordStore.Generation.Companion

/-!
Lines that import a path. The line is made of the words of the path, and it is read as a single
item that imports this path.
-/
namespace RecordStore

open RecordStore.Lexer RecordStore.Parser RecordStore.Parser.Extends CharClass

/-! ### Words and marks of a text -/

namespace Lexer

variable {cs left i : Chars} {stack : List Delimiter} {s c : Char} {b : Chars}

theorem IsIdentifier.start (h : IsIdentifier i) :
    ∃ c rest, i = c :: rest ∧ isIdentifierStart c = true := by
  obtain ⟨cs, left, h⟩ := h
  obtain ⟨front, name, rfl, hn, -⟩ := identifier?_isName h
  obtain ⟨c, rest, rfl, hc⟩ := hn.start
  rcases hn.front with rfl | rfl
  · exact ⟨c, rest, rfl, hc⟩
  · exact ⟨'r', _, rfl, isIdentifierStart_r⟩

theorem IsIdentifier.ne_nil (h : IsIdentifier i) : i ≠ [] := by
  obtain ⟨c, rest, rfl, -⟩ := h.start
  exact List.cons_ne_nil _ _

theorem name?_before {name : Chars} (h : name? cs = some (name, left))
    (hs : isIdentifierContinue s = false) : name? (name ++ s :: b) = some (name, s :: b) := by
  obtain ⟨⟨c, rest, rfl, hc⟩, hw, -, -⟩ := name?_eq_some h
  have hr : ∀ d ∈ rest, isIdentifierContinue d = true :=
    fun d hd => hw d (List.mem_cons_of_mem _ hd)
  rw [List.cons_append, name?, if_pos hc, List.takeWhile_append_of_pos hr,
    List.dropWhile_append_of_pos hr]
  simp [hs]

/-- An identifier is read wherever what follows does not go on with it. -/
theorem IsIdentifier.before (h : IsIdentifier i) (hs : isIdentifierContinue s = false)
    (hh : s ≠ '#') : identifier? (i ++ s :: b) = some (i, s :: b) := by
  obtain ⟨cs, left, h⟩ := h
  unfold identifier? at h
  split at h
  next hraw =>
    have hafter : after? ['r', '#'] (i ++ s :: b) = none := by
      obtain ⟨⟨c, rest, rfl, -⟩, hw, -, -⟩ := name?_eq_some h
      by_cases hc : c = 'r'
      · subst hc
        cases rest with
        | nil => simp [after?, Ne.symm hh]
        | cons d rest =>
          have hd : isIdentifierContinue d = true := hw d (by simp)
          have hne : '#' ≠ d := by
            rintro rfl
            exact absurd hd (by decide)
          simp [after?, hne]
      · simp [after?, Ne.symm hc]
    rw [identifier?, hafter]
    exact name?_before h hs
  next rest hraw =>
    obtain ⟨⟨n, l⟩, hn, h⟩ := Option.bind_eq_some_iff.mp h
    dsimp only at h
    split at h
    · cases h
    next hword =>
      cases h
      have hafter : after? ['r', '#'] ('r' :: '#' :: n ++ s :: b) = some (n ++ s :: b) := rfl
      rw [identifier?, hafter]
      dsimp only
      rw [name?_before hn hs]
      exact if_neg hword

/-- Where a word ends, a longer start of the text goes on with the character there. -/
theorem head?_of_isPrefixOf {w : Chars} (hi : IsWord i) (hs : isIdentifierContinue s = false)
    (hw : w.dropWhile isIdentifierContinue ≠ []) (h : w.isPrefixOf (i ++ s :: b) = true) :
    (w.dropWhile isIdentifierContinue).head? = some s := by
  obtain ⟨tail, ht⟩ := List.isPrefixOf_iff_prefix.mp h
  have hd := congrArg (List.dropWhile isIdentifierContinue) ht
  rw [List.dropWhile_append_of_pos hi, List.dropWhile_cons_of_neg (by simp [hs]),
    List.dropWhile_append] at hd
  rw [if_neg (by simpa using hw)] at hd
  have hh := congrArg List.head? hd
  rwa [List.head?_append, List.head?_eq_some_head hw, Option.some_or, List.head?_cons,
    ← List.head?_eq_some_head hw] at hh

/-- Behind an identifier, a literal could only start with a quote or a hash. -/
theorem IsIdentifier.literalStart (h : IsIdentifier i) (hs : isIdentifierContinue s = false)
    (hq : s ∉ ['"', '\'', '#']) : literalStart (i ++ s :: b) = false := by
  obtain ⟨cs, left, h⟩ := h
  obtain ⟨front, name, rfl, hn, -⟩ := identifier?_isName h
  rcases hn.front with rfl | rfl
  · have hall : ∀ w ∈ ["r\"", "r#\"", "r##", "b\"", "b'", "br\"", "br#", "c\"", "cr\"", "cr#"],
        (w.toList.dropWhile isIdentifierContinue).head?.any (['"', '\'', '#'].contains ·) =
          true := by
      decide
    refine Bool.eq_false_iff.mpr fun ha => ?_
    obtain ⟨w, hw, hp⟩ := List.any_eq_true.mp ha
    obtain ⟨m, hhead, hm⟩ := (Option.any_eq_true _ _).mp (hall w hw)
    have hne : w.toList.dropWhile isIdentifierContinue ≠ [] := by
      intro he
      rw [he] at hhead
      cases hhead
    rw [head?_of_isPrefixOf hn.word hs hne hp] at hhead
    exact hq (Option.some.inj hhead ▸ List.contains_iff_mem.mp hm)
  · obtain ⟨c, rest, rfl, hc⟩ := hn.start
    have hne {d : Char} (hd : isIdentifierStart d = false) : d ≠ c := by
      rintro rfl
      rw [hd] at hc
      cases hc
    have h₁ : '"' ≠ c := hne (by decide)
    have h₂ : '#' ≠ c := hne (by decide)
    simp [Lexer.literalStart, startsWith, List.isPrefixOf, h₁, h₂]

theorem token?_eq_leaf? (h : c ∉ "()[]\x7b\x7d".toList) : token? (c :: b) = leaf? (c :: b) := by
  have hn : c ≠ '(' ∧ c ≠ ')' ∧ c ≠ '[' ∧ c ≠ ']' ∧ c ≠ '\x7b' ∧ c ≠ '\x7d' := by
    simpa using h
  obtain ⟨h₁, h₂, h₃, h₄, h₅, h₆⟩ := hn
  have hl : lostLiteral = '(' :: "/*ERROR*/)".toList := by decide
  have hlost : after? lostLiteral (c :: b) = none := by
    rw [hl, after?, if_neg (by simpa using Ne.symm h₁)]
  have ho : opening? c = none := by simp [opening?]
  have hcl : closing? c = none := by simp [closing?]
  unfold token?
  simp only [hlost, ho, hcl]

/-- A word at the start of a text. -/
theorem lex_word (h : IsIdentifier i) (hs : isIdentifierContinue s = false)
    (hq : s ∉ ['"', '\'', '#']) : lex stack (i ++ s :: b) =
      (lex stack (s :: b)).map (.ident (String.ofList i) :: ·) := by
  have hid := h.before (b := b) hs (fun he => hq (by simp [he]))
  have hstart := h.literalStart (b := b) hs hq
  obtain ⟨c, rest, rfl, hc⟩ := h.start
  rw [List.cons_append] at hid hstart ⊢
  have hne {d : Char} (hd : isIdentifierStart d = false) : c ≠ d := by
    rintro rfl
    rw [hd] at hc
    cases hc
  have hcomment : comment? (c :: (rest ++ s :: b)) = none := by
    rw [comment?_eq_none_iff]
    have hslash : c ≠ '/' := hne (by decide)
    simp [hslash]
  have hspace : isSpace c = false := by
    have ha := isAround_of_isIdentifierContinue (isIdentifierContinue_of_start hc)
    simp only [isAround, Bool.or_eq_false_iff] at ha
    exact ha.1.1
  have hleaf : leaf? (c :: (rest ++ s :: b)) =
      some (.ident (String.ofList (c :: rest)), s :: b) := by
    unfold leaf?
    rw [literal?_eq_none_of_name hc hstart, punct?_of_start hc, hid]
    simp [hstart]
  have htoken : token? (c :: (rest ++ s :: b)) = leaf? (c :: (rest ++ s :: b)) := by
    refine token?_eq_leaf? fun hm => ?_
    have hall : ∀ d ∈ "()[]\x7b\x7d".toList, isIdentifierStart d = false :=
      List.all_iff_forall_prop.mp (by decide)
    rw [hall c hm] at hc
    cases hc
  rw [lex_token hcomment hspace, htoken, hleaf, Option.bind_some]
  cases stack <;> rfl

/-- A mark at the start of a text. -/
theorem lex_mark (h : markAhead (c :: b) = true) (hc : c ≠ '\'') :
    lex stack (c :: b) = (lex stack b).map (.punct c (markAhead b) :: ·) := by
  have hm := isMark_of_markAhead h
  have hleaf : leaf? (c :: b) = some (.punct c (markAhead b), b) := by
    unfold leaf?
    rw [literal?_eq_none_of_isMark hm hc, punct?_of_ne hc, if_pos h]
  have htoken : token? (c :: b) = leaf? (c :: b) := by
    refine token?_eq_leaf? fun hd => ?_
    have hall : ∀ d ∈ "()[]\x7b\x7d".toList, isMark d = false :=
      List.all_iff_forall_prop.mp (by decide)
    rw [hall c hd] at hm
    cases hm
  rw [lex_token (comment?_of_markAhead h) (isSpace_of_isMark hm), htoken, hleaf, Option.bind_some]
  cases stack <;> rfl

end Lexer

/-! ### Words of imports -/

/-- A word of a path is an identifier, so it is not empty. -/
theorem Parser.IsPathWord.identifier {n : String} (h : IsPathWord Token.IsRead n) :
    IsIdentifier n.toList := h.ok n rfl

theorem Parser.IsPathWord.ne_empty {n : String} (h : IsPathWord Token.IsRead n) : n ≠ "" := by
  rintro rfl
  exact h.identifier.ne_nil rfl

theorem Parser.IsNewName.identifier {n : String} (h : IsNewName Token.IsRead n) :
    IsIdentifier n.toList := h.ok n rfl

namespace UsePath

/-- The words of a path behind its first one, with the new name, as the tree of an import. -/
def branch (newName : Option String) : String → List String → UseTree
  | n, [] => match newName with | some a => .rename n a | none => .name n
  | n, m :: rest => .path n (branch newName m rest)

/-- The item that imports a path. -/
def item (p : UsePath) : Item :=
  match p.segments with
  | "" :: n :: rest => .ofUse [] .inherited true (branch p.newName n rest)
  | n :: rest => .ofUse [] .inherited false (branch p.newName n rest)
  | [] => .ofUse [] .inherited false (branch p.newName "" [])

/-- A path of words, which may start at the root of all names. -/
structure IsWritten (p : UsePath) : Prop where
  segments : ∃ n rest, (p.segments = n :: rest ∨ p.segments = "" :: n :: rest) ∧
    ∀ m ∈ n :: rest, IsPathWord Token.IsRead m
  newName : ∀ a ∈ p.newName, IsNewName Token.IsRead a

theorem item_eq {p : UsePath} {n : String} {rest : List String} (h : p.segments = n :: rest)
    (hn : n ≠ "") : p.item = .ofUse [] .inherited false (branch p.newName n rest) := by
  unfold item
  rw [h]
  cases rest <;> simp [hn]

theorem item_eq_rooted {p : UsePath} {n : String} {rest : List String}
    (h : p.segments = "" :: n :: rest) :
    p.item = .ofUse [] .inherited true (branch p.newName n rest) := by
  simp [item, h]

/-- What stands behind the words of a path. -/
def newNameText (newName : Option String) : Chars :=
  match newName with
  | some a => " as ".toList ++ a.toList
  | none => []

end UsePath

namespace Lexer

open UsePath

variable {stack : List Delimiter} {n : String} {rest : List String} {newName : Option String}

theorem lex_blank (b : Chars) : lex stack (' ' :: b) = lex stack b := lex_space rfl rfl

theorem markAhead_word {i : Chars} (h : IsIdentifier i) (b : Chars) : markAhead (i ++ b) = false := by
  obtain ⟨c, rest, rfl, hc⟩ := h.start
  refine Bool.eq_false_iff.mpr fun hm => ?_
  have hword := isIdentifierContinue_of_start hc
  rw [(isMark_eq (isMark_of_markAhead hm)).2] at hword
  cases hword

/-- A name and its semicolon. -/
theorem lex_last (hn : IsIdentifier n.toList) : lex [] (n.toList ++ [';']) =
    some (.ident n :: Token.operator ";") := by
  rw [lex_word hn (by decide) (by decide), lex_mark rfl (by decide), lex_nil, String.ofList_toList]
  rfl

theorem lex_branch (hw : ∀ m ∈ n :: rest, IsPathWord Token.IsRead m)
    (ha : ∀ a ∈ newName, IsNewName Token.IsRead a) :
    lex [] ("::".toList.intercalate ((n :: rest).map String.toList) ++ newNameText newName ++
      [';']) = some ((branch newName n rest).tokens ++ Token.operator ";") := by
  induction rest generalizing n with
  | nil =>
    have hn := (hw n List.mem_cons_self).identifier
    rw [List.map_singleton, List.intercalate_singleton]
    cases newName with
    | none =>
      rw [newNameText, List.append_nil]
      exact lex_last hn
    | some a =>
      have has : IsIdentifier "as".toList := ⟨"as".toList, [], by decide⟩
      have ht : n.toList ++ newNameText (some a) ++ [';'] =
          n.toList ++ ' ' :: ("as".toList ++ ' ' :: (a.toList ++ [';'])) := by
        simp [newNameText]
      rw [ht, lex_word hn (by decide) (by decide), lex_blank, lex_word has (by decide) (by decide),
        lex_blank, lex_last (ha a rfl).identifier, String.ofList_toList, String.ofList_toList]
      rfl
  | cons m rest ih =>
    obtain ⟨hn, hrest⟩ := List.forall_mem_cons.mp hw
    have ht : "::".toList.intercalate ((n :: m :: rest).map String.toList) ++ newNameText newName ++
        [';'] = n.toList ++ ':' :: ':' :: ("::".toList.intercalate ((m :: rest).map String.toList) ++
          newNameText newName ++ [';']) := by
      simp
    have hnext : markAhead ("::".toList.intercalate ((m :: rest).map String.toList) ++
        newNameText newName ++ [';']) = false := by
      have hm := (hrest m List.mem_cons_self).identifier
      cases rest <;> simpa using markAhead_word hm _
    rw [ht, lex_word hn.identifier (by decide) (by decide), lex_mark rfl (by decide),
      lex_mark rfl (by decide), ih hrest, hnext, String.ofList_toList]
    rfl

/-- The line that imports a path has the tokens of the item. -/
theorem lex_useLine {p : UsePath} (h : p.IsWritten) :
    lex [] ("use ".toList ++ p.text.toList ++ [';']) = some p.item.tokens := by
  obtain ⟨⟨n, rest, hp, hw⟩, ha⟩ := h
  have huse : IsIdentifier "use".toList := ⟨"use".toList, [], by decide⟩
  have hword (b : Chars) : lex [] ("use ".toList ++ b) = (lex [] b).map (.ident "use" :: ·) := by
    have ht : "use ".toList ++ b = "use".toList ++ ' ' :: b := rfl
    rw [ht, lex_word huse (by decide) (by decide), lex_blank]
    rfl
  have htext : p.text.toList = "::".toList.intercalate (p.segments.map String.toList) ++
      newNameText p.newName := by
    unfold UsePath.text newNameText
    cases p.newName <;> simp [String.toList_intercalate]
  rw [htext, List.append_assoc, hword]
  rcases hp with hp | hp
  · have hn : n ≠ "" := (hw n List.mem_cons_self).ne_empty
    rw [hp, lex_branch hw ha, item_eq hp hn]
    rfl
  · have hn := (hw n List.mem_cons_self).identifier
    have ht : "::".toList.intercalate (("" :: n :: rest).map String.toList) ++
        newNameText p.newName ++ [';'] =
          ':' :: ':' :: ("::".toList.intercalate ((n :: rest).map String.toList) ++
            newNameText p.newName ++ [';']) := by
      simp
    have hnext : markAhead ("::".toList.intercalate ((n :: rest).map String.toList) ++
        newNameText p.newName ++ [';']) = false := by
      cases rest <;> simpa using markAhead_word hn _
    rw [hp, ht, lex_mark rfl (by decide), lex_mark rfl (by decide), lex_branch hw ha, hnext,
      item_eq_rooted hp]
    rfl

end Lexer
namespace Grammar

open UsePath

variable {g : Grammar} {ts r : List Token} {n : String} {rest : List String}
  {newName : Option String}

/-- What follows the first word of an import's tree. -/
def treeAfter (g : Grammar) (n : String) : Parser (Option UseTree) := do
  if ← op? "::" then
    match ← g.useTree false with
    | some t => return some (.path n t)
    | none => Parser.fail
  else if ← word? "as" then return some (.rename n (← Grammar.newName))
  else return some (.name n)

theorem run_useTreeBody (h : IsPathWord Token.IsRead n) {b : Bool} {t : Option UseTree}
    (ht : (treeAfter g n).run ts = some (t, r)) :
    (useTreeBody g b).run (.ident n :: ts) = some (t, r) := by
  unfold useTreeBody
  refine run_bind_eq.mpr ⟨_, _, rfl, ?_⟩
  refine run_bind_eq.mpr ⟨_, _, rfl, ?_⟩
  refine run_bind_eq.mpr ⟨_, _, rfl, ?_⟩
  exact (congrArg (StateT.run · _) (if_pos h.allowed)).trans (run_bind_eq.mpr ⟨n, ts, rfl, ht⟩)

theorem run_newName (h : IsNewName Token.IsRead n) :
    Grammar.newName.run (.ident n :: ts) = some (n, ts) := by
  unfold Grammar.newName
  refine run_bind_eq.mpr ⟨n == "_", _, rfl, ?_⟩
  rcases h.allowed with rfl | hk
  · rfl
  · cases hw : n == "_" with
    | true => rfl
    | false =>
      refine run_bind_eq.mpr ⟨n, ts, rfl, ?_⟩
      rw [hk]
      rfl

/-- The tree of an import is read from its tokens. -/
theorem run_branch (hw : ∀ m ∈ n :: rest, IsPathWord Token.IsRead m)
    (ha : ∀ a ∈ newName, IsNewName Token.IsRead a) {k : Nat} (hk : rest.length ≤ k) (b : Bool) :
    ((ofDepth (k + 1)).useTree b).run ((branch newName n rest).tokens ++ Token.operator ";") =
      some (some (branch newName n rest), Token.operator ";") := by
  induction rest generalizing n k b with
  | nil =>
    have hn := hw n List.mem_cons_self
    cases newName with
    | none => exact run_useTreeBody hn rfl
    | some a =>
      refine run_useTreeBody hn ?_
      refine run_bind_eq.mpr ⟨false, _, rfl, run_bind_eq.mpr ⟨true, _, rfl, ?_⟩⟩
      exact run_bind_eq.mpr ⟨a, Token.operator ";", run_newName (ha a rfl), rfl⟩
  | cons m rest ih =>
    obtain ⟨hn, hrest⟩ := List.forall_mem_cons.mp hw
    obtain ⟨k, rfl⟩ := Nat.exists_eq_add_one_of_ne_zero (Nat.ne_zero_of_lt hk)
    refine run_useTreeBody hn (run_bind_eq.mpr ⟨true, _, rfl, ?_⟩)
    exact run_bind_eq.mpr ⟨_, _, ih hrest (Nat.le_of_succ_le_succ hk) false, rfl⟩

theorem run_item_use {rooted : Bool} {tree : UseTree} {k : Nat}
    (h : ((ofDepth k).useTree !rooted).run (tree.tokens ++ Token.operator ";") =
      some (some tree, Token.operator ";"))
    (hr : rooted = false → afterOperator "::".toList (tree.tokens ++ Token.operator ";") = none) :
    (ofDepth (k + 1)).item.run (Item.ofUse [] .inherited rooted tree).tokens =
      some (.ofUse [] .inherited rooted tree, []) := by
  have ht : (Item.ofUse [] .inherited rooted tree).tokens =
      .ident "use" :: (rootTokens rooted ++ tree.tokens ++ Token.operator ";") := rfl
  have hroot : (op? "::").run (rootTokens rooted ++ tree.tokens ++ Token.operator ";") =
      some (rooted, tree.tokens ++ Token.operator ";") := by
    cases rooted with
    | true => rfl
    | false =>
      rw [run_op?_eq, rootTokens, if_neg Bool.false_ne_true, List.nil_append, hr rfl]
  have hitem : (useItem (ofDepth k) [] .inherited).run (Item.ofUse [] .inherited rooted tree).tokens =
      some (some (.ofUse [] .inherited rooted tree), []) :=
    run_bind_eq.mpr ⟨(), _, rfl, run_bind_eq.mpr ⟨rooted, _, hroot, run_bind_eq.mpr
      ⟨_, _, h, rfl⟩⟩⟩
  have hbody : (ofDepth (k + 1)).item.run (Item.ofUse [] .inherited rooted tree).tokens =
      (orVerbatim (useItem (ofDepth k) [] .inherited)).run
        (Item.ofUse [] .inherited rooted tree).tokens := by
    rw [ht]
    rfl
  rw [hbody]
  have htokens : (withTokens (useItem (ofDepth k) [] .inherited)).run
      (Item.ofUse [] .inherited rooted tree).tokens = some ((some (.ofUse [] .inherited rooted tree),
        tokensBetween (Item.ofUse [] .inherited rooted tree).tokens []), []) :=
    run_withTokens_eq.mpr ⟨hitem, rfl⟩
  exact run_bind_eq.mpr ⟨_, [], htokens, rfl⟩

theorem afterOperator_branch : afterOperator "::".toList
    ((branch newName n rest).tokens ++ Token.operator ";") = none := by
  cases rest with
  | nil => cases newName <;> rfl
  | cons m rest => rfl

end Grammar

namespace UsePath

variable {p : UsePath}

/-- The line that imports a path is read as the item that does. -/
theorem run_item (h : p.IsWritten) {k : Nat} (hk : p.segments.length ≤ k) :
    (Grammar.ofDepth (k + 2)).item.run p.item.tokens = some (p.item, []) := by
  obtain ⟨⟨n, rest, hp, hw⟩, ha⟩ := h
  rcases hp with hp | hp
  · rw [item_eq hp (hw n List.mem_cons_self).ne_empty]
    refine Grammar.run_item_use (Grammar.run_branch hw ha ?_ _) fun _ =>
      Grammar.afterOperator_branch
    rw [hp, List.length_cons] at hk
    omega
  · rw [item_eq_rooted hp]
    refine Grammar.run_item_use (Grammar.run_branch hw ha ?_ _) nofun
    rw [hp, List.length_cons, List.length_cons] at hk
    omega

theorem branch_inj {a b : Option String} {n m : String} {rest rest' : List String}
    (h : branch a n rest = branch b m rest') : n = m ∧ rest = rest' ∧ a = b := by
  induction rest generalizing n m rest' with
  | nil => cases rest' <;> cases a <;> cases b <;> simp_all [branch]
  | cons o rest ih =>
    cases rest' with
    | nil => cases b <;> simp [branch] at h
    | cons o' rest' =>
      simp only [branch, UseTree.path.injEq] at h
      obtain ⟨rfl, h⟩ := h
      obtain ⟨rfl, rfl, rfl⟩ := ih h
      exact ⟨rfl, rfl, rfl⟩

/-- The item that imports a path tells its words, its new name and where it starts. -/
theorem exists_item (h : p.IsWritten) : ∃ rooted n rest,
    p.segments = (if rooted then [""] else []) ++ n :: rest ∧
      p.item = .ofUse [] .inherited rooted (branch p.newName n rest) := by
  obtain ⟨⟨n, rest, hp, hw⟩, -⟩ := h
  rcases hp with hp | hp
  · exact ⟨false, n, rest, hp, item_eq hp (hw n List.mem_cons_self).ne_empty⟩
  · exact ⟨true, n, rest, hp, item_eq_rooted hp⟩

/-- Different paths are imported by different items. -/
theorem eq_of_item {q : UsePath} (hp : p.IsWritten) (hq : q.IsWritten) (h : p.item = q.item) :
    p = q := by
  obtain ⟨rooted, n, rest, hps, hpi⟩ := exists_item hp
  obtain ⟨rooted', m, rest', hqs, hqi⟩ := exists_item hq
  have hform : (Item.ofUse [] .inherited rooted (branch p.newName n rest)).form =
      (Item.ofUse [] .inherited rooted' (branch q.newName m rest')).form := by
    rw [← hpi, ← hqi, h]
  obtain ⟨rfl, hb⟩ := ItemForm.use.inj hform
  obtain ⟨rfl, rfl, hnew⟩ := branch_inj hb
  cases p
  cases q
  exact congrArg₂ UsePath.mk (hps.trans hqs.symm) hnew

/-- Different paths have different texts. -/
theorem eq_of_text {q : UsePath} (hp : p.IsWritten) (hq : q.IsWritten) (h : p.text = q.text) :
    p = q := by
  have ht : p.item.tokens = q.item.tokens := by
    have hl := lex_useLine hp
    rw [h, lex_useLine hq] at hl
    exact (Option.some.inj hl).symm
  have hrp := run_item hp (Nat.le_max_left p.segments.length q.segments.length)
  rw [ht, run_item hq (Nat.le_max_right _ _)] at hrp
  exact eq_of_item hp hq (congrArg Prod.fst (Option.some.inj hrp)).symm

/-- An import names something. -/
theorem run_item_unnamed (n : Nat) (j : Bool) (ts : List Token) :
    (Grammar.ofDepth n).item.run (.ident "use" :: .punct ';' j :: ts) = none := by
  cases n with
  | zero => rfl
  | succ n => cases n <;> cases j <;> rfl

/-- No file holds a line that imports the root of all names itself. -/
theorem gives_root (items : List Item) : Gives "use ;".toList items := by
  intro b ts inner all n hl hr _
  have huse : IsIdentifier "use".toList := ⟨"use".toList, [], by decide⟩
  have ht : "use ;".toList ++ '\n' :: b = "use".toList ++ ' ' :: ';' :: '\n' :: b := rfl
  rw [ht, lex_word huse (by decide) (by decide), lex_blank, lex_mark rfl (by decide)] at hl
  obtain ⟨us, hus, rfl⟩ := Option.map_eq_some_iff.mp hl
  obtain ⟨vs, -, rfl⟩ := Option.map_eq_some_iff.mp hus
  obtain ⟨m, hm, hi⟩ := hr
  obtain ⟨-, rfl⟩ := hm.eq_of_seen rfl
  cases hi with
  | step _ hi _ =>
    have hnone := run_item_unnamed n (markAhead ('\n' :: b)) vs
    rw [String.ofList_toList, hnone] at hi
    cases hi

theorem exists_tokens (p : UsePath) : ∃ ts, p.item.tokens = .ident "use" :: ts := by
  unfold item
  split <;> exact ⟨_, rfl⟩

theorem length_le_tokens (h : p.IsWritten) : p.segments.length ≤ p.item.tokens.length := by
  have hbranch (newName : Option String) (n : String) (rest : List String) :
      rest.length ≤ (branch newName n rest).tokens.length := by
    induction rest generalizing n with
    | nil => exact Nat.zero_le _
    | cons m rest ih =>
      have := ih m
      simp only [branch, UseTree.tokens, List.length_cons, List.length_append]
      omega
  obtain ⟨⟨n, rest, hp, hw⟩, -⟩ := h
  have hlen := hbranch p.newName n rest
  rcases hp with hp | hp
  · rw [item_eq hp (hw n List.mem_cons_self).ne_empty, hp]
    simp only [Item.ofUse, Item.ofParts, List.length_append, List.length_cons]
    omega
  · have hroot : (rootTokens true).length = 2 := rfl
    rw [item_eq_rooted hp, hp]
    simp only [Item.ofUse, Item.ofParts, List.length_append, List.length_cons]
    omega

/-- The line that imports a path gives the item that does, and nothing else. -/
theorem gives (h : p.IsWritten) : Gives ("use ".toList ++ p.text.toList ++ [';']) [p.item] := by
  have hlen := length_le_tokens h
  obtain ⟨ts, ht⟩ := exists_tokens p
  have hinner : Grammar.innerAhead p.item.tokens = false := by
    rw [ht]
    rfl
  have hitem : Grammar.itemAhead p.item.tokens = true := by
    rw [ht]
    rfl
  have hr : (Grammar.ofDepth (p.segments.length + 2)).Reads p.item.tokens [] [p.item] :=
    ⟨p.item.tokens, .stop hinner, .step hitem (run_item h (Nat.le_refl _)) (.stop rfl)⟩
  exact gives_of_reads (lex_useLine h) hr (by omega)

end UsePath
end RecordStore
