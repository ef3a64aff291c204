import RecordStore.Proofs.Generation.Assembly
import RecordStore.Proofs.Source.ImportedWords

/-!
The items of a companion as it is read again: an import for each path that its records need, and
then the items of their code. The text is put together line by line and only read as a whole in the
end. It holds nothing else as long as no name in it ends the comment that it stands in.
-/
namespace RecordStore

open RecordStore.Lexer RecordStore.Parser

/-! ### Comments -/

namespace Lexer

variable {stack : List Delimiter} {line : Chars}

/-- A comment holds no tokens, up to the end of its line. -/
theorem lex_remark (h : '\n' ∉ line) (b : Chars) :
    lex stack ("// ".toList ++ line ++ '\n' :: b) = lex stack b := by
  have hl : ∀ c ∈ "// ".toList ++ line, (c != '\n') = true := by
    refine List.forall_mem_append.mpr ⟨List.all_eq_true.mp (by decide), fun c hc => ?_⟩
    rw [bne_iff_ne]
    rintro rfl
    exact h hc
  have hleft : (restOfLine ("// ".toList ++ line ++ '\n' :: b)).2 = '\n' :: b := by
    rw [restOfLine_eq, List.dropWhile_append_of_pos hl]
    rfl
  have hc : comment? ("// ".toList ++ line ++ '\n' :: b) =
      some (.ordinary (restOfLine ("// ".toList ++ line ++ '\n' :: b)).2) :=
    congrArg some (lineComment_plain (c := ' ') (by decide) (by decide) _)
  rw [hleft] at hc
  rw [lex_ordinary hc, lex_space rfl rfl]

theorem gives_remark (h : '\n' ∉ line) : Gives ("// ".toList ++ line) [] :=
  gives_nil fun b => lex_remark h b

/-- A comment and an empty line. -/
theorem gives_remark_blank (h : '\n' ∉ line) : Gives ("// ".toList ++ line ++ ['\n']) [] := by
  refine gives_nil fun b => ?_
  rw [List.append_assoc, List.singleton_append, lex_remark h, lex_space rfl rfl]

theorem gives_blank : Gives [] [] := gives_nil fun _ => lex_space rfl rfl

/-- What would give any items is not a part of a file. -/
theorem false_of_gives {n : Nat} {ts : List Token} {inner : List Attribute} {items : List Item}
    {parts : List (Chars × List Item)} (hp : ∀ p ∈ parts, Gives p.1 p.2)
    (h : lex [] (parts.flatMap fun p => p.1 ++ ['\n']) = some ts)
    (hr : (Grammar.ofDepth n).Reads ts inner items) (hn : 8 * ts.length + 16 ≤ n)
    {part : Chars × List Item} (hm : part ∈ parts) (hany : ∀ items, Gives part.1 items) :
    False := by
  obtain ⟨before, after, rfl⟩ := List.append_of_mem hm
  have hp' : ∀ p ∈ before ++ (part.1, UsePath.root.item :: part.2) :: after, Gives p.1 p.2 := by
    simp only [List.forall_mem_append, List.forall_mem_cons] at hp ⊢
    exact ⟨hp.1, hany _, hp.2.2⟩
  have hi := items_of_gives hp h hr hn
  rw [items_of_gives hp' (by simpa using h) hr hn] at hi
  simpa using congrArg List.length hi

end Lexer

namespace Companion

variable {unit text : String} {scope : Scope} {records : List RecordCode}

/-! ### The lines of a companion -/

/-- A text is assembled if it can be read again. -/
theorem assemble_eq_ok : assemble unit scope records = .ok text ↔
    ∃ texts, records.mapM recordText = .ok texts ∧
      text = header unit ++ (useBlock (uses scope records) ++
        String.join (texts.map fun t => "\n" ++ t)) ∧ (SourceFile.read? text).isSome := by
  unfold assemble
  rw [bind_eq_ok]
  refine exists_congr fun texts => and_congr_right fun _ => ?_
  dsimp only
  rw [String.append_assoc]
  split
  next hs =>
    refine ⟨fun h => ?_, fun h => congrArg _ h.1.symm⟩
    cases h
    exact ⟨rfl, hs⟩
  next hs =>
    refine ⟨nofun, fun h => absurd h.2 ?_⟩
    rwa [h.1]

theorem toList_append₃ (a b c : String) :
    (a ++ b ++ c).toList = a.toList ++ b.toList ++ c.toList := by
  rw [String.toList_append, String.toList_append]

/-- The first line, without its end. -/
def headerLine (unit : String) : Chars :=
  "// ".toList ++ ("Code generated by marlow from ".toList ++ (unit.toList ++
    ". DO NOT EDIT.".toList))

def useLineChars (path : String) : Chars := "use ".toList ++ path.toList ++ [';']

theorem toList_header (unit : String) : (header unit).toList = headerLine unit ++ ['\n'] := by
  have hs : "// Code generated by marlow from ".toList =
      "// ".toList ++ "Code generated by marlow from ".toList := by decide
  have he : ". DO NOT EDIT.\n".toList = ". DO NOT EDIT.".toList ++ ['\n'] := by decide
  refine (toList_append₃ _ _ _).trans ?_
  rw [hs, he, headerLine]
  simp only [List.append_assoc]

theorem not_mem_headerLine (h : '\n' ∉ unit.toList) :
    '\n' ∉ "Code generated by marlow from ".toList ++ (unit.toList ++ ". DO NOT EDIT.".toList) := by
  have hs : '\n' ∉ "Code generated by marlow from ".toList := by decide
  have he : '\n' ∉ ". DO NOT EDIT.".toList := by decide
  simp only [List.mem_append, not_or]
  exact ⟨hs, h, he⟩

theorem toList_useBlock (paths : List String) : (useBlock paths).toList =
    (if paths.isEmpty then [] else [] :: paths.map useLineChars).flatMap (· ++ ['\n']) := by
  have hj : (String.join (paths.map useLine)).toList =
      (paths.map useLineChars).flatMap (· ++ ['\n']) := by
    simp [String.toList_join, List.flatMap_map, useLine, useLineChars]
  cases paths with
  | nil => rfl
  | cons p paths =>
    rw [useBlock, List.isEmpty_cons, if_neg Bool.false_ne_true, String.toList_append, hj]
    rfl

theorem toList_join (texts : List String) :
    (String.join (texts.map fun t => "\n" ++ t)).toList ++ ['\n'] =
      ([] :: texts.map String.toList).flatMap (· ++ ['\n']) := by
  induction texts with
  | nil => rfl
  | cons t texts ih => simp_all [String.toList_join]

/-! ### What the lines hold -/

/-- How the rest of a companion is read does not depend on the name in its first line. -/
theorem read?_header {unit' rest : String} (h : '\n' ∉ unit.toList) (h' : '\n' ∉ unit'.toList) :
    SourceFile.read? (header unit ++ rest) = SourceFile.read? (header unit' ++ rest) := by
  have hr {unit : String} (h : '\n' ∉ unit.toList) : SourceFile.read? (header unit ++ rest) =
      (lex [] rest.toList).bind fun ts => all? (do
        let inner ← Grammar.innerAttributes (.ofTokens ts)
        return (⟨none, inner, ← whileSees (return !(← atEnd)) (Grammar.ofTokens ts).item⟩ :
          SourceFile)) ts := by
    have ht : (header unit ++ rest).toList = headerLine unit ++ '\n' :: rest.toList := by
      rw [String.toList_append, toList_header, List.append_assoc, List.singleton_append]
    have hb : withoutByteOrderMark (headerLine unit ++ '\n' :: rest.toList) =
        headerLine unit ++ '\n' :: rest.toList := rfl
    have hs : SourceFile.splitShebang (headerLine unit ++ '\n' :: rest.toList) =
        (none, headerLine unit ++ '\n' :: rest.toList) := rfl
    have hl : tokens? (String.ofList (headerLine unit ++ '\n' :: rest.toList)) =
        lex [] rest.toList := by
      rw [tokens?_eq, String.toList_ofList, hb, headerLine, lex_remark (not_mem_headerLine h)]
    unfold SourceFile.read? RecordStore.read?
    rw [ht, hb, hs]
    dsimp only
    rw [hl]
    rfl
  rw [hr h, hr h']

/-- The items of a record's code by itself. -/
def ownItems (r : RecordCode) : List Item := (r.body.bind SourceFile.read?).elim [] SourceFile.items

/-- A record whose name fits in a comment, or whose code has no line for the system in front and
keeps its items in the usual layout, as far as it matters. -/
structure IsPlain (same : Item → Item → Prop) (r : RecordCode) : Prop where
  name : r.body = none → '\n' ∉ r.name.toList
  shebang : ∀ body ∈ r.body, ∀ file, SourceFile.read? body = some file → file.shebang = none
  layout : ∀ body ∈ r.body, ∀ file, SourceFile.read? body = some file →
    ∃ file', SourceFile.read? file.render = some file' ∧ file'.shebang = file.shebang ∧
      List.Forall₂ same file'.items file.items

variable {same : Item → Item → Prop}

/-- The text of a record's code gives its items. -/
theorem gives_recordText {r : RecordCode} {t : String} (hr : IsPlain same r)
    (h : recordText r = .ok t) :
    ∃ items, Gives t.toList items ∧ List.Forall₂ same items (ownItems r) := by
  unfold recordText at h
  unfold ownItems
  split at h
  next hb =>
    cases h
    have hd : ": all features disabled\n".toList = ": all features disabled".toList ++ ['\n'] := by
      decide
    have hname : '\n' ∉ r.name.toList ++ ": all features disabled".toList := by
      have hd : '\n' ∉ ": all features disabled".toList := by decide
      rw [List.mem_append, not_or]
      exact ⟨hr.name hb, hd⟩
    have ht : ("// " ++ r.name ++ ": all features disabled\n").toList =
        "// ".toList ++ (r.name.toList ++ ": all features disabled".toList) ++ ['\n'] := by
      refine (toList_append₃ _ _ _).trans ?_
      rw [hd]
      simp only [List.append_assoc]
    rw [hb, ht]
    exact ⟨[], gives_remark_blank hname, .nil⟩
  next body hb =>
    split at h
    next file hf =>
      cases h
      obtain ⟨file', hf', hs, hi⟩ := hr.layout body hb file hf
      rw [hr.shebang body hb file hf] at hs
      rw [hb, Option.bind_some, hf, Option.elim_some]
      exact ⟨file'.items, SourceFile.gives hf' hs, hi⟩
    next => cases h

theorem exists_bodyParts {texts : List String} (hr : ∀ r ∈ records, IsPlain same r)
    (h : records.mapM recordText = .ok texts) : ∃ parts : List (Chars × List Item),
      (∀ p ∈ parts, Gives p.1 p.2) ∧ parts.map Prod.fst = texts.map String.toList ∧
        List.Forall₂ same (parts.flatMap Prod.snd) (records.flatMap ownItems) := by
  replace h := mapM_eq_ok.mp h
  induction h with
  | nil => exact ⟨[], List.forall_mem_nil _, rfl, .nil⟩
  | @cons r t rs ts ht _ ih =>
    obtain ⟨hr, hrs⟩ := List.forall_mem_cons.mp hr
    obtain ⟨parts, hp, hf, hs⟩ := ih hrs
    obtain ⟨items, hg, hi⟩ := gives_recordText hr ht
    refine ⟨(t.toList, items) :: parts, List.forall_mem_cons.mpr ⟨hg, hp⟩, ?_, ?_⟩
    · rw [List.map_cons, List.map_cons, hf]
    · rw [List.flatMap_cons, List.flatMap_cons]
      exact List.rel_append hi hs

/-! ### Imports -/

/-- A path that a name stands for which the code of some record needs. -/
def IsNeeded (scope : Scope) (records : List RecordCode) (p : UsePath) : Prop :=
  ∃ r ∈ records, ∃ n ∈ r.needs, scope.resolve n = some p

theorem mem_uses_iff {line : String} :
    line ∈ uses scope records ↔ ∃ p, IsNeeded scope records p ∧ p.text = line := by
  rw [mem_uses]
  constructor
  · rintro ⟨n, p, hm, hl⟩
    obtain ⟨⟨r, hr, hn⟩, hp⟩ := mem_imports.mp hm
    exact ⟨p, ⟨r, hr, n, hn, hp⟩, hl⟩
  · rintro ⟨p, ⟨r, hr, n, hn, hp⟩, hl⟩
    exact ⟨n, p, mem_imports.mpr ⟨⟨r, hr, hn⟩, hp⟩, hl⟩

/-- The lines that import something are the texts of paths. -/
theorem exists_paths {lines : List String}
    (h : ∀ line ∈ lines, ∃ p, IsNeeded scope records p ∧ p.text = line) :
    ∃ paths : List UsePath, (∀ p ∈ paths, IsNeeded scope records p) ∧
      paths.map UsePath.text = lines := by
  induction lines with
  | nil => exact ⟨[], List.forall_mem_nil _, rfl⟩
  | cons line lines ih =>
    obtain ⟨⟨p, hp, rfl⟩, hrest⟩ := List.forall_mem_cons.mp h
    obtain ⟨paths, hps, rfl⟩ := ih hrest
    exact ⟨p :: paths, List.forall_mem_cons.mpr ⟨hp, hps⟩, rfl⟩

/-- The lines that import some paths, with an empty one in front. -/
def useParts (paths : List UsePath) : List (Chars × List Item) :=
  if paths.isEmpty then [] else ([], []) :: paths.map fun p => (useLineChars p.text, [p.item])

theorem gives_useParts {paths : List UsePath} (h : ∀ p ∈ paths, p.IsWritten ∨ p = .root) :
    ∀ part ∈ useParts paths, Gives part.1 part.2 := by
  unfold useParts
  split
  · exact List.forall_mem_nil _
  · refine List.forall_mem_cons.mpr ⟨gives_blank, List.forall_mem_map.mpr fun p hp => ?_⟩
    rcases h p hp with hw | rfl
    · exact UsePath.gives hw
    · exact UsePath.gives_root _

theorem snd_useParts (paths : List UsePath) :
    (useParts paths).flatMap Prod.snd = paths.map UsePath.item := by
  cases paths with
  | nil => rfl
  | cons p paths =>
    rw [List.map_eq_flatMap]
    simp [useParts, List.flatMap_map]

/-- The parts of a companion's text, line by line or more. -/
def fileParts (unit : String) (paths : List UsePath) (bodyParts : List (Chars × List Item)) :
    List (Chars × List Item) :=
  (headerLine unit, []) :: (useParts paths ++ ([], []) :: bodyParts)

theorem mem_fileParts {paths : List UsePath} {bodyParts : List (Chars × List Item)} {p : UsePath}
    (h : p ∈ paths) : (useLineChars p.text, [p.item]) ∈ fileParts unit paths bodyParts := by
  have hne : paths.isEmpty = false := by
    cases paths with
    | nil => cases h
    | cons => rfl
  have hm : (useLineChars p.text, [p.item]) ∈ useParts paths := by
    rw [useParts, hne, if_neg Bool.false_ne_true]
    exact List.mem_cons_of_mem _ (List.mem_map_of_mem h)
  exact List.mem_cons_of_mem _ (List.mem_append_left _ hm)

theorem toList_fileParts {paths : List UsePath} {bodyParts : List (Chars × List Item)}
    {texts : List String} (hp : paths.map UsePath.text = uses scope records)
    (hb : bodyParts.map Prod.fst = texts.map String.toList) :
    (header unit ++ (useBlock (uses scope records) ++
      String.join (texts.map fun t => "\n" ++ t))).toList ++ ['\n'] =
        (fileParts unit paths bodyParts).flatMap fun p => p.1 ++ ['\n'] := by
  have hu : (useBlock (uses scope records)).toList =
      (useParts paths).flatMap fun p => p.1 ++ ['\n'] := by
    rw [toList_useBlock, ← hp]
    cases paths with
    | nil => rfl
    | cons p paths => simp [useParts, List.flatMap_map]
  have ht : (String.join (texts.map fun t => "\n" ++ t)).toList ++ ['\n'] =
      (([], []) :: bodyParts).flatMap fun p => p.1 ++ ['\n'] := by
    rw [toList_join, ← hb]
    simp [List.flatMap_map]
  rw [fileParts, List.flatMap_cons, List.flatMap_append, ← ht, ← hu]
  simp only [String.toList_append, toList_header, List.append_assoc]

/-- What is read of a companion are the tokens of its parts. -/
theorem tokens_of_assembled {paths : List UsePath} {bodyParts : List (Chars × List Item)}
    {texts : List String} {out : SourceFile} (ho : SourceFile.read? (header unit ++
      (useBlock (uses scope records) ++ String.join (texts.map fun t => "\n" ++ t))) = some out)
    (hp : paths.map UsePath.text = uses scope records)
    (hb : bodyParts.map Prod.fst = texts.map String.toList) :
    ∃ ts, lex [] ((fileParts unit paths bodyParts).flatMap fun p => p.1 ++ ['\n']) = some ts ∧
      (Grammar.ofTokens ts).Reads ts out.inner out.items := by
  have hparts : _ = (fileParts unit paths bodyParts).flatMap fun p => p.1 ++ ['\n'] :=
    toList_fileParts hp hb
  obtain ⟨ts, hts, -, hr⟩ := SourceFile.exists_of_read? ho
  refine ⟨ts, ?_, hr⟩
  have hl : lex [] (header unit ++ (useBlock (uses scope records) ++
      String.join (texts.map fun t => "\n" ++ t))).toList = some ts := by
    rw [← hts, String.toList_append, toList_header]
    rfl
  rw [← hparts, lex_append hl, lex_nil]
  exact congrArg some (List.append_nil ts)

/-! ### Companions -/

/-- A companion holds an import for each path that its records need, in the order of their texts,
and then the items of their code, which are the same as far as the layout keeps them. The name of
the unit stands in the first line, and nothing else depends on it. -/
theorem items_of_assemble {source : String} {file : SourceFile}
    (hf : SourceFile.read? source = some file) (hu : '\n' ∉ unit.toList)
    (hr : ∀ r ∈ records, IsPlain same r)
    (h : assemble unit (.ofItems file.items) records = .ok text) :
    ∃ (out : SourceFile) (paths : List UsePath) (own : List Item) (rest : String),
      SourceFile.read? text = some out ∧
      (∀ p, p ∈ paths ↔ IsNeeded (.ofItems file.items) records p) ∧
      (paths.map UsePath.text).Pairwise (· < ·) ∧
      out.items = paths.map UsePath.item ++ own ∧
      List.Forall₂ same own (records.flatMap ownItems) ∧
      text = header unit ++ rest ∧ ∀ unit', '\n' ∉ unit'.toList →
        assemble unit' (.ofItems file.items) records = .ok (header unit' ++ rest) := by
  obtain ⟨texts, ht, htext, hread⟩ := assemble_eq_ok.mp h
  obtain ⟨out, hout⟩ := Option.isSome_iff_exists.mp hread
  obtain ⟨bodyParts, hbg, hbf, hbs⟩ := exists_bodyParts hr ht
  obtain ⟨paths, hneeded, hpaths⟩ : ∃ paths : List UsePath,
      (∀ p ∈ paths, IsNeeded (.ofItems file.items) records p) ∧
        paths.map UsePath.text = uses (.ofItems file.items) records :=
    exists_paths fun _ => mem_uses_iff.mp
  have hword {p : UsePath} (hp : IsNeeded (.ofItems file.items) records p) :
      p.IsWritten ∨ p = .root := by
    obtain ⟨_, _, _, _, hp⟩ := hp
    exact Scope.isWritten_of_resolve hf hp
  have hparts : ∀ part ∈ fileParts unit paths bodyParts, Gives part.1 part.2 := by
    refine List.forall_mem_cons.mpr ⟨gives_remark (not_mem_headerLine hu), ?_⟩
    refine List.forall_mem_append.mpr ⟨gives_useParts fun p hp => hword (hneeded p hp), ?_⟩
    exact List.forall_mem_cons.mpr ⟨gives_blank, hbg⟩
  obtain ⟨ts, hts, hreads⟩ := tokens_of_assembled (by rw [← htext]; exact hout) hpaths hbf
  -- no file holds a line that imports the root of all names
  have hroot : ∀ p ∈ paths, p.text ≠ UsePath.root.text := by
    intro p hp he
    refine false_of_gives hparts hts hreads (Nat.le_refl _) (mem_fileParts hp) fun items => ?_
    rw [he]
    exact UsePath.gives_root items
  have htexts {p : UsePath} (hp : IsNeeded (.ofItems file.items) records p) :
      ∃ q ∈ paths, q.text = p.text :=
    List.mem_map.mp (hpaths ▸ mem_uses_iff.mpr ⟨p, hp, rfl⟩)
  have hwritten {p : UsePath} (hp : IsNeeded (.ofItems file.items) records p) : p.IsWritten := by
    rcases hword hp with hw | rfl
    · exact hw
    · obtain ⟨q, hq, he⟩ := htexts hp
      exact absurd he (hroot q hq)
  have hmem {p : UsePath} (hp : IsNeeded (.ofItems file.items) records p) : p ∈ paths := by
    obtain ⟨q, hq, he⟩ := htexts hp
    rwa [← UsePath.eq_of_text (hwritten (hneeded q hq)) (hwritten hp) he]
  refine ⟨out, paths, bodyParts.flatMap Prod.snd, _, hout, fun p => ⟨hneeded p, hmem⟩, ?_, ?_,
    hbs, htext, fun unit' hu' => ?_⟩
  · rw [hpaths]
    exact Ty.pairwise_distinctSorted _
  · rw [items_of_gives hparts hts hreads (Nat.le_refl _)]
    simp [fileParts, snd_useParts]
  · refine assemble_eq_ok.mpr ⟨texts, ht, rfl, ?_⟩
    rw [read?_header hu' hu, ← htext]
    exact hread

/-- A type from elsewhere, and one of the file. -/
def authorSource : String := "use chrono::NaiveDateTime; pub struct Author;"

/-- Code for two records, and a record without code. -/
def authorRecords : List RecordCode :=
  [⟨"Author", some "struct A;", ["NaiveDateTime"]⟩, ⟨"Quiet", none, []⟩,
    ⟨"Other", some "struct B;", ["Unknown"]⟩]

def SameTokens (i j : Item) : Prop := i.tokens = j.tokens

theorem forall₂_sameTokens {is js : List Item} :
    List.Forall₂ SameTokens is js ↔ is.map Item.tokens = js.map Item.tokens := by
  rw [← List.forall₂_eq_eq_eq, List.forall₂_map_left_iff, List.forall₂_map_right_iff]
  rfl

theorem isPlain_of_body {r : RecordCode} {body : String} (hb : r.body = some body)
    (h : (SourceFile.read? body).all (fun file => file.shebang.isNone &&
      (SourceFile.read? file.render).any fun file' => file'.shebang.isNone &&
        file'.items.map Item.tokens == file.items.map Item.tokens) = true) :
    IsPlain SameTokens r := by
  have hfile {file : SourceFile} (hf : SourceFile.read? body = some file) :
      file.shebang = none ∧ ∃ file', SourceFile.read? file.render = some file' ∧
        file'.shebang = none ∧ List.Forall₂ SameTokens file'.items file.items := by
    rw [hf, Option.all_some, Bool.and_eq_true, Option.isNone_iff_eq_none] at h
    obtain ⟨file', hf', h'⟩ := (Option.any_eq_true _ _).mp h.2
    rw [Bool.and_eq_true, Option.isNone_iff_eq_none, beq_iff_eq] at h'
    exact ⟨h.1, file', hf', h'.1, forall₂_sameTokens.mpr h'.2⟩
  refine ⟨fun hn => ?_, fun c hc file hf => ?_, fun c hc file hf => ?_⟩
  · rw [hb] at hn
    cases hn
  · obtain rfl : body = c := Option.some.inj (hb.symm.trans hc)
    exact (hfile hf).1
  · obtain rfl : body = c := Option.some.inj (hb.symm.trans hc)
    obtain ⟨hs, file', hf', hs', hi⟩ := hfile hf
    exact ⟨file', hf', hs'.trans hs.symm, hi⟩

theorem items_of_assemble_author : ∃ (file : SourceFile) (text : String) (out : SourceFile)
    (own : List Item), SourceFile.read? authorSource = some file ∧
    assemble "author.rs" (.ofItems file.items) authorRecords = .ok text ∧
    SourceFile.read? text = some out ∧
    out.items = UsePath.item ⟨["chrono", "NaiveDateTime"], none⟩ :: own ∧
    own.map Item.tokens = (authorRecords.flatMap ownItems).map Item.tokens := by
  have hread : (SourceFile.read? authorSource).any (fun file =>
      (assemble "author.rs" (.ofItems file.items) authorRecords).toOption.isSome &&
        (Scope.ofItems file.items).resolve "NaiveDateTime" ==
          some ⟨["chrono", "NaiveDateTime"], none⟩ &&
        (Scope.ofItems file.items).resolve "Unknown" == none) = true := by
    decide +kernel
  obtain ⟨file, hf, h⟩ := (Option.any_eq_true _ _).mp hread
  simp only [Bool.and_eq_true, beq_iff_eq] at h
  obtain ⟨⟨ha, hn⟩, hs⟩ := h
  obtain ⟨text, ht⟩ := Option.isSome_iff_exists.mp ha
  have hr : ∀ r ∈ authorRecords, IsPlain SameTokens r := by
    simp only [authorRecords, List.forall_mem_cons]
    exact ⟨isPlain_of_body rfl (by decide +kernel), ⟨fun _ => by decide, nofun, nofun⟩,
      isPlain_of_body rfl (by decide +kernel), List.forall_mem_nil _⟩
  obtain ⟨out, paths, own, -, ho, hp, hsorted, hi, hown, -⟩ :=
    items_of_assemble hf (by decide) hr (toOption_eq_some ht)
  have hpaths : paths = [⟨["chrono", "NaiveDateTime"], none⟩] := by
    have hnodup : paths.Nodup := hsorted.of_map _ fun p q h hpq =>
      String.ne_of_lt h (congrArg UsePath.text hpq)
    refine List.perm_singleton.mp ((List.perm_ext_iff_of_nodup hnodup
      (List.pairwise_singleton _ _)).mpr fun p => (hp p).trans ?_)
    simp [IsNeeded, authorRecords, hn, hs, eq_comm]
  rw [hpaths] at hi
  exact ⟨file, text, out, own, hf, toOption_eq_some ht, ho, hi, forall₂_sameTokens.mp hown⟩

/-- A name of two lines. -/
def evilUnit : String := "a\nstruct Evil; //"

theorem assemble_reads_unit : ∃ text out, assemble evilUnit (.ofItems []) [] = .ok text ∧
    SourceFile.read? text = some out ∧ out.items.flatMap Item.bindings = [.declared "Evil"] ∧
    ¬∃ paths : List UsePath, (∀ p, p ∈ paths ↔ IsNeeded (.ofItems []) [] p) ∧
      out.items = paths.map UsePath.item ++ ([] : List RecordCode).flatMap ownItems := by
  have hread : (assemble evilUnit (.ofItems []) []).toOption.any (fun text =>
      (SourceFile.read? text).any fun out =>
        out.items.flatMap Item.bindings == [.declared "Evil"]) = true := by
    decide +kernel
  obtain ⟨text, ht, h⟩ := (Option.any_eq_true _ _).mp hread
  obtain ⟨out, ho, h⟩ := (Option.any_eq_true _ _).mp h
  rw [beq_iff_eq] at h
  refine ⟨text, out, toOption_eq_some ht, ho, h, ?_⟩
  rintro ⟨paths, hp, hi⟩
  have hnil : paths = [] := List.eq_nil_iff_forall_not_mem.mpr fun p hm => by
    obtain ⟨_, hr, _⟩ := (hp p).mp hm
    cases hr
  rw [hi, hnil] at h
  cases h

end Companion
end RecordStore
