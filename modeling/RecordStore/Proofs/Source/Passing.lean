import RecordStore.Proofs.Source.Scanning
import RecordStore.Proofs.Syntax.Lexemes

/-!
How the search for the mark goes over the pieces of a source. It takes a comment for one, and it
passes over a token without finding any, unless it takes the token's ends for others: those of raw
literals behind a letter, of characters that are no single octet, and of words whose last `r`
looks like the start of a raw literal.
-/
namespace RecordStore.IgnoreMark

open Utf8 Lexer

variable {before : Option UInt8} {c : Char} {cs left text front w : Chars}

/-! ### Octets of characters -/

/-- Octets of ASCII letters, digits and the underscore. -/
def isNameOctet (o : UInt8) : Bool := (Char.ofNat o.toNat).isAlphanum || o == 0x5F

/-- The characters of these octets. -/
def isNameChar (c : Char) : Bool := c.isAlphanum || c == '_'

theorem isNameOctet_octet (h : IsAscii c) : isNameOctet (octet c) = isNameChar c := by
  have hc : (octet c == 0x5F) = (c == '_') := by
    rw [Bool.eq_iff_iff, beq_iff_eq, beq_iff_eq]
    exact ⟨fun he => octet_inj h (b := '_') (by decide) he, fun he => by rw [he]; rfl⟩
  rw [isNameOctet, isNameChar, hc, toNat_octet h, Char.ofNat_toNat]

theorem isAscii_of_isNameChar (h : isNameChar c = true) : IsAscii c := by
  delta isNameChar Char.isAlphanum Char.isAlpha Char.isUpper Char.isLower Char.isDigit at h
  simp only [Bool.or_eq_true, Bool.and_eq_true, decide_eq_true_eq, beq_iff_eq] at h
  unfold IsAscii Char.toNat
  rcases h with ((h | h) | h) | rfl
  · have := UInt32.le_iff_toNat_le.mp h.2
    exact Nat.lt_of_le_of_lt this (by decide)
  · have := UInt32.le_iff_toNat_le.mp h.2
    exact Nat.lt_of_le_of_lt this (by decide)
  · have := UInt32.le_iff_toNat_le.mp h.2
    exact Nat.lt_of_le_of_lt this (by decide)
  · decide

theorem isNameOctet_of_le {o : UInt8} (h : 128 ≤ o.toNat) : isNameOctet o = false := by
  have hall : ∀ n < 256, 128 ≤ n → isNameOctet (UInt8.ofNat n) = false := by decide +kernel
  have := hall o.toNat o.toNat_lt h
  rwa [UInt8.ofNat_toNat] at this

/-- The last octet of a text is that of a name if the last character is. -/
theorem any_getLast?_octets (cs : Chars) (c : Char) :
    (octets (cs ++ [c])).getLast?.any isNameOctet = isNameChar c := by
  rw [octets_append, List.getLast?_append, octets_cons, octets_nil, List.append_nil]
  by_cases h : IsAscii c
  · rw [utf8EncodeChar_of_isAscii h]
    exact isNameOctet_octet h
  · have hl := List.getLast?_eq_some_getLast (utf8EncodeChar_ne_nil c)
    have ho := isNameOctet_of_le
      (le_of_mem_utf8EncodeChar h (List.getLast_mem (utf8EncodeChar_ne_nil c)))
    rw [hl, Option.some_or, Option.any_some, ho]
    exact (Bool.eq_false_iff.mpr (mt isAscii_of_isNameChar h)).symm

/-- A character and what follows it start with another octet than that of a character which is
not there. -/
theorem head?_octets {a : Char} (ha : IsAscii a) (h : cs.head? ≠ some a) :
    (octets cs).head? ≠ some (octet a) := by
  intro ho
  cases hc : octets cs with
  | nil =>
    rw [hc] at ho
    cases ho
  | cons o os =>
    rw [hc] at ho
    obtain rfl := Option.some.inj ho
    obtain ⟨ds, rfl, -⟩ := octets_eq_cons ha hc
    exact h rfl

/-! ### Words -/

theorem hashCount_cons (xs : Octets) : hashCount (octet '#' :: xs) = hashCount xs + 1 := rfl

theorem hashCount_of_head {xs : Octets} (h : xs.head? ≠ some (octet '#')) : hashCount xs = 0 := by
  cases xs with
  | nil => rfl
  | cons o xs =>
    have ho : ¬(o == 0x23) = true := fun he => h (by rw [eq_of_beq he]; rfl)
    rw [hashCount, List.takeWhile_cons_of_neg (p := (· == 0x23)) ho, List.length_nil]

/-- Behind the hashes at the start of a text is what follows them. -/
theorem drop_hashCount_octets :
    (octets cs).drop (hashCount (octets cs)) = octets (cs.dropWhile (· == '#')) := by
  induction cs with
  | nil => rfl
  | cons c cs ih =>
    by_cases hc : c = '#'
    · subst hc
      rw [octets_cons_of_isAscii (by decide), hashCount_cons, List.drop_succ_cons, ih,
        List.dropWhile_cons_of_pos (by decide)]
    · rw [hashCount_of_head (head?_octets (by decide) (by simpa using hc)), List.drop_zero,
        List.dropWhile_cons_of_neg (by simpa using hc)]

theorem startsRaw_octets : startsRaw before (0x72 :: octets cs) =
    (!before.any isNameOctet && rawAhead cs) := by
  unfold startsRaw
  dsimp only
  rw [List.drop_one, List.tail_cons, drop_hashCount_octets, rawAhead]
  refine congrArg₂ (· && ·) rfl ?_
  cases cs.dropWhile (· == '#') with
  | nil => rfl
  | cons d ds =>
    by_cases hquote : d = '"'
    · subst hquote
      rw [octets_cons_of_isAscii (by decide)]
      rfl
    · have ho : (octets (d :: ds)).head? ≠ some (octet '"') :=
        head?_octets (by decide) (by simpa using hquote)
      have hr : ((d :: ds).head? == some '"') = false := by simpa using hquote
      rw [hr]
      split
      next he =>
        rw [he] at ho
        exact absurd rfl ho
      next => rfl

theorem notMem_startOctets (h : c ∉ ['/', 'r', '"', '\'']) :
    ∀ o ∈ String.utf8EncodeChar c, o ∉ startOctets := by
  intro o ho hs
  have hall : ∀ s ∈ startOctets, ∃ a ∈ ['/', 'r', '"', '\''], IsAscii a ∧ s = octet a := by
    simp only [startOctets, List.forall_mem_cons]
    exact ⟨⟨'/', by decide⟩, ⟨'r', by decide⟩, ⟨'"', by decide⟩, ⟨'\'', by decide⟩, by simp⟩
  obtain ⟨a, ha, hascii, rfl⟩ := hall o hs
  obtain rfl := (octet_mem_utf8EncodeChar hascii).mp ho
  exact h ha

/-- Text in which no comment and no literal can start is passed over. -/
theorem passes_octets {rest : Octets} (h : ∀ c ∈ cs, c ∉ ['/', 'r', '"', '\'']) :
    Passes before (octets cs) rest := by
  refine passes_of_notMem fun o ho => ?_
  obtain ⟨c, hc, hoc⟩ := List.mem_flatMap.mp ho
  exact notMem_startOctets (h c hc) o hoc

theorem rawAhead_of_isQuiet (h : IsQuiet c) : rawAhead (c :: cs) = false := by
  simp only [IsQuiet, List.mem_cons, List.not_mem_nil, or_false, not_or] at h
  have hc : ¬(c == '#') = true := by simpa using h.2.2.2
  rw [rawAhead, List.dropWhile_cons_of_neg (p := (· == '#')) hc]
  simpa using h.2.1

/-- Words are passed over, unless a last `r` looks like the start of a raw literal. -/
theorem passes_word (hq : ∀ c ∈ w, IsQuiet c) (hr : ∀ v, w = v ++ ['r'] → rawAhead left = true →
      ((octets v).getLast?.or before).any isNameOctet = true) :
    Passes before (octets w) (octets left) := by
  induction w generalizing before with
  | nil => exact .nil
  | cons c w ih =>
    obtain ⟨hc, hw⟩ := List.forall_mem_cons.mp hq
    have hrest : Passes ((String.utf8EncodeChar c).getLast?.or before) (octets w) (octets left) :=
      ih hw fun v hv hraw => by
        have := hr (c :: v) (by rw [hv]; rfl) hraw
        rwa [octets_cons, List.getLast?_append, Option.or_assoc] at this
    refine Passes.append ?_ hrest
    by_cases hcr : c = 'r'
    · subst hcr
      have hraw : startsRaw before (0x72 :: (octets w ++ octets left)) = false := by
        rw [← octets_append, startsRaw_octets, Bool.and_eq_false_iff, Bool.not_eq_false']
        cases w with
        | nil =>
          cases hl : rawAhead left with
          | true => exact .inl (hr [] rfl hl)
          | false => exact .inr hl
        | cons d w => exact .inr (rawAhead_of_isQuiet (hw d List.mem_cons_self))
      exact .of_extent (extent_r hraw) (List.cons_ne_nil _ _)
    · refine passes_of_notMem (notMem_startOctets ?_)
      simp only [IsQuiet, List.mem_cons, List.not_mem_nil, or_false, not_or] at hc ⊢
      exact ⟨hc.1, hcr, hc.2.1, hc.2.2.1⟩

/-! ### Plain pieces -/

/-- Whether a text ends in an `r` that is the end of no ASCII word, in front of what makes it look
like the start of a raw literal. -/
def endsRaw (text left : Chars) : Bool :=
  match text.reverse with
  | 'r' :: c :: _ => !isNameChar c && rawAhead left
  | _ => false

/-- Behind the part of a piece that ends it, a word is passed over. -/
theorem Passes.word (hf : Passes before (octets front) (octets (w ++ left))) (hne : front ≠ [])
    (hq : ∀ c ∈ w, IsQuiet c) (he : endsRaw (front ++ w) left = false) :
    Passes before (octets (front ++ w)) (octets left) := by
  rw [octets_append]
  refine Passes.append (by rwa [← octets_append]) (passes_word hq fun v hv hraw => ?_)
  subst hv
  obtain ⟨u, c, hu⟩ : ∃ u c, front ++ v = u ++ [c] :=
    ⟨_, _, (List.dropLast_append_getLast (by simp [hne])).symm⟩
  rw [← Option.or_assoc, ← List.getLast?_append, ← octets_append, hu]
  rw [← List.append_assoc, hu] at he
  simp only [endsRaw, List.reverse_append, List.reverse_cons, List.reverse_nil, List.nil_append,
    List.cons_append, hraw, Bool.and_true, Bool.not_eq_false'] at he
  have hsome : (octets (u ++ [c])).getLast?.isSome = true := by
    cases hl : (octets (u ++ [c])).getLast? with
    | some o => rfl
    | none =>
      have hc := any_getLast?_octets u c
      rw [hl, he] at hc
      cases hc
  rw [Option.or_of_isSome hsome, any_getLast?_octets, he]

/-! ### Strings -/

theorem ne_of_mem_utf8EncodeChar {a : Char} {o : UInt8} (ha : IsAscii a) (hc : c ≠ a)
    (ho : o ∈ String.utf8EncodeChar c) : o ≠ octet a := by
  rintro rfl
  exact hc ((octet_mem_utf8EncodeChar ha).mp ho)

theorem stringTail_inside {inside : Chars} (h : Inside inside) (rest : Octets) :
    stringTail (octets inside ++ 0x22 :: rest) = (octets inside).length + 1 := by
  induction h with
  | nil => rfl
  | @char c cs hq hb _ ih =>
    rw [octets_cons, List.append_assoc, stringTail_append, ih, List.length_append]
    · omega
    · exact fun o ho => ⟨ne_of_mem_utf8EncodeChar (a := '"') (by decide) hq ho,
        ne_of_mem_utf8EncodeChar (a := '\\') (by decide) hb ho⟩
  | @escape c cs _ ih =>
    obtain ⟨o, os, hos⟩ := List.exists_cons_of_ne_nil (utf8EncodeChar_ne_nil c)
    have hpass : stringTail (os ++ (octets cs ++ 0x22 :: rest)) =
        stringTail (octets cs ++ 0x22 :: rest) + os.length := by
      refine stringTail_append fun p hp => ?_
      by_cases hc : IsAscii c
      · rw [utf8EncodeChar_of_isAscii hc] at hos
        cases hos
        cases hp
      · have hl := le_of_mem_utf8EncodeChar hc (hos ▸ List.mem_cons_of_mem o hp)
        constructor <;>
        · rintro rfl
          exact absurd hl (by decide)
    have hs : octets ('\\' :: c :: cs) = 0x5C :: o :: (os ++ octets cs) := by
      rw [octets_cons_of_isAscii (by decide), octets_cons, hos]
      rfl
    rw [hs]
    simp only [List.cons_append, List.append_assoc, stringTail, hpass, ih, List.length_cons,
      List.length_append]
    omega

/-- A string is passed over from its first quote to its last. -/
theorem passes_string {inside : Chars} (h : Inside inside) :
    Passes before (octets ('"' :: (inside ++ ['"']))) (octets left) := by
  have ho : octets ('"' :: (inside ++ ['"'])) = 0x22 :: (octets inside ++ [0x22]) := by
    rw [octets_cons_of_isAscii (by decide), octets_append]
    rfl
  rw [ho]
  refine .of_extent ?_ (List.cons_ne_nil _ _)
  have ht : stringLength (0x22 :: (octets inside ++ 0x22 :: octets left)) =
      (octets inside).length + 2 := by
    rw [stringLength, List.drop_one, List.tail_cons, stringTail_inside h]
  simp only [List.cons_append, List.append_assoc, List.nil_append, extent, ht, List.length_cons,
    List.length_append, List.length_nil]

/-! ### Raw strings -/

theorem eq_replicate_of_hashes {hashes : Chars} (h : ∀ c ∈ hashes, c = '#') :
    hashes = List.replicate hashes.length '#' :=
  List.eq_replicate_iff.mpr ⟨rfl, h⟩

theorem octets_replicate (n : Nat) : octets (List.replicate n '#') = List.replicate n 0x23 := by
  induction n with
  | zero => rfl
  | succ n ih =>
    rw [List.replicate_succ, octets_cons_of_isAscii (by decide), ih]
    rfl

/-- As many octets of hashes follow as there are hashes exactly if the hashes follow. -/
theorem countP_take_octets {n : Nat} :
    ((octets cs).take n).countP (· == 0x23) = n ↔ List.replicate n '#' <+: cs := by
  rw [← octets_prefix_octets (by simp [IsAscii]), octets_replicate]
  constructor
  · intro h
    have hle := (List.countP_le_length (p := (· == 0x23)) (l := (octets cs).take n))
    have hlen : ((octets cs).take n).length = n :=
      Nat.le_antisymm (List.length_take_le n _) (by rwa [h] at hle)
    have hall : ∀ o ∈ (octets cs).take n, o = 0x23 := fun o ho =>
      eq_of_beq (List.countP_eq_length.mp (h.trans hlen.symm) o ho)
    have hrep := List.eq_replicate_iff.mpr ⟨hlen, hall⟩
    rw [← hrep]
    exact List.take_prefix n _
  · rintro ⟨rest, hr⟩
    rw [← hr, List.take_left' (List.length_replicate ..), List.countP_replicate, beq_self_eq_true,
      if_pos rfl]

theorem rawTail_unclosed {hashes inside after : Chars} (hh : ∀ c ∈ hashes, c = '#')
    (hu : Unclosed hashes inside ('"' :: (hashes ++ after))) :
    rawTail hashes.length (octets (inside ++ '"' :: (hashes ++ after))) =
      (octets inside).length + 1 + hashes.length := by
  have hcount (ds : Chars) : ((octets ds).take hashes.length).countP (· == 0x23) =
      hashes.length ↔ hashes <+: ds := by
    rw [countP_take_octets, ← eq_replicate_of_hashes hh]
  induction inside with
  | nil =>
    rw [List.nil_append, octets_cons_of_isAscii (by decide), rawTail]
    have hc := (hcount (hashes ++ after)).mpr (List.prefix_append _ _)
    rw [hc]
    simp [octet]
  | cons c inside ih =>
    have hrest : Unclosed hashes inside ('"' :: (hashes ++ after)) := fun a b he =>
      hu (c :: a) b (by rw [he]; rfl)
    by_cases hc : c = '"'
    · subst hc
      have hno : (((octets (inside ++ '"' :: (hashes ++ after))).take hashes.length).countP
          (· == 0x23) == hashes.length) = false :=
        beq_eq_false_iff_ne.mpr (mt (hcount _).mp (hu [] inside rfl))
      rw [List.cons_append, octets_cons_of_isAscii (by decide), rawTail, hno, Bool.and_false,
        if_neg Bool.false_ne_true, ih hrest, octets_cons_of_isAscii (by decide), List.length_cons]
      omega
    · have hq : (0x22 : UInt8) ∉ String.utf8EncodeChar c := fun ho =>
        hc ((octet_mem_utf8EncodeChar (a := '"') (by decide)).mp ho)
      rw [List.cons_append, octets_cons, rawTail_append hq, ih hrest, octets_cons,
        List.length_append]
      omega

theorem passes_hashes {hashes : Chars} {rest : Octets} (hh : ∀ c ∈ hashes, c = '#') :
    Passes before (octets hashes) rest := by
  refine passes_octets fun c hc => ?_
  obtain rfl := hh c hc
  decide

theorem length_octets_hashes {hashes : Chars} (hh : ∀ c ∈ hashes, c = '#') :
    (octets hashes).length = hashes.length := by
  rw [eq_replicate_of_hashes hh, octets_replicate, List.length_replicate, List.length_replicate]

theorem dropWhile_hashes {hashes : Chars} (hh : ∀ c ∈ hashes, c = '#') (h : cs.head? ≠ some '#') :
    (hashes ++ cs).dropWhile (· == '#') = cs := by
  rw [List.dropWhile_append_of_pos (by simpa using hh)]
  cases cs with
  | nil => rfl
  | cons c cs => exact List.dropWhile_cons_of_neg (p := (· == '#')) (by simpa using h)

theorem hashCount_hashes {hashes : Chars} (hh : ∀ c ∈ hashes, c = '#')
    (h : cs.head? ≠ some '#') : hashCount (octets (hashes ++ cs)) = hashes.length := by
  induction hashes with
  | nil => exact hashCount_of_head (head?_octets (by decide) h)
  | cons c hashes ih =>
    obtain ⟨rfl, hrest⟩ := List.forall_mem_cons.mp hh
    rw [List.cons_append, octets_cons_of_isAscii (by decide), hashCount_cons, ih hrest,
      List.length_cons]

/-- Where the search sees a raw literal, it passes over all of it but its suffix. -/
theorem passes_raw {hashes inside : Chars} (hh : ∀ c ∈ hashes, c = '#')
    (hu : Unclosed hashes inside ('"' :: (hashes ++ left))) (hb : before.any isNameOctet = false) :
    Passes before (octets ('r' :: (hashes ++ '"' :: (inside ++ '"' :: hashes)))) (octets left) := by
  have htext : octets ('r' :: (hashes ++ '"' :: (inside ++ '"' :: hashes))) ++ octets left =
      0x72 :: octets (hashes ++ '"' :: (inside ++ '"' :: (hashes ++ left))) := by
    rw [octets_cons_of_isAscii (by decide), List.cons_append, ← octets_append]
    simp [octet]
  have hstart : startsRaw before
      (0x72 :: octets (hashes ++ '"' :: (inside ++ '"' :: (hashes ++ left)))) = true := by
    rw [startsRaw_octets, hb, rawAhead, dropWhile_hashes hh (by simp)]
    rfl
  have hdrop : (0x72 :: octets (hashes ++ '"' :: (inside ++ '"' :: (hashes ++ left)))).drop
      (hashes.length + 2) = octets (inside ++ '"' :: (hashes ++ left)) := by
    rw [octets_append, octets_cons_of_isAscii (by decide), List.drop_succ_cons,
      ← length_octets_hashes hh, List.drop_append]
    simp
  have hlength : rawLength (0x72 :: octets (hashes ++ '"' :: (inside ++ '"' :: (hashes ++ left)))) =
      (octets ('r' :: (hashes ++ '"' :: (inside ++ '"' :: hashes)))).length := by
    rw [rawLength, List.drop_one, List.tail_cons, hashCount_hashes hh (by simp), hdrop,
      rawTail_unclosed hh hu, octets_cons_of_isAscii (by decide), octets_append,
      octets_cons_of_isAscii (by decide), octets_append, octets_cons_of_isAscii (by decide)]
    simp only [List.length_cons, List.length_append, length_octets_hashes hh]
    omega
  refine .of_extent ?_ ?_
  · rw [htext, extent, if_pos hstart, hlength]
  · rw [octets_cons_of_isAscii (by decide)]
    exact List.cons_ne_nil _ _

/-- A raw literal behind a letter is passed over as a string between hashes. -/
theorem passes_prefixedRaw {m : Char} {hashes inside : Chars} (hm : m = 'b' ∨ m = 'c')
    (hh : ∀ c ∈ hashes, c = '#') (hi : Inside inside) :
    Passes before (octets (m :: 'r' :: (hashes ++ '"' :: (inside ++ '"' :: hashes))))
      (octets left) := by
  have hstart : startsRaw (some (octet m)) (0x72 ::
      (octets (hashes ++ '"' :: (inside ++ '"' :: hashes)) ++ octets left)) = false := by
    rw [← octets_append, startsRaw_octets]
    rcases hm with rfl | rfl <;> rfl
  have hascii : IsAscii m := by rcases hm with rfl | rfl <;> decide
  have hnot : octet m ∉ startOctets := by rcases hm with rfl | rfl <;> decide
  have hinner : hashes ++ '"' :: (inside ++ '"' :: hashes) =
      hashes ++ (('"' :: (inside ++ ['"'])) ++ hashes) := by simp
  rw [octets_cons_of_isAscii hascii, octets_cons_of_isAscii (by decide)]
  refine .cons (extent_of_notMem hnot) (.cons (extent_r hstart) ?_)
  rw [hinner, octets_append, octets_append]
  exact (passes_hashes hh).append (.append (by rw [← octets_append]; exact passes_string hi)
    (passes_hashes hh))

/-! ### Single quotes -/

theorem exists_two_octets (h : ¬IsAscii c) : ∃ o p os, String.utf8EncodeChar c = o :: p :: os := by
  have hc : ¬c.val.toNat ≤ 127 := fun hc => h (Nat.lt_succ_of_le hc)
  simp only [String.utf8EncodeChar, hc, if_false]
  split_ifs <;> exact ⟨_, _, _, rfl⟩

/-- Whether a quote in front of a text starts no character, as far as the search can see. -/
def closesAlone (after : Chars) : Bool :=
  match after with
  | '\\' :: _ => false
  | c :: '\'' :: _ => !decide (IsAscii c)
  | _ => true

theorem closesAlone_of (h : cs.head? ≠ some '\\') (h' : cs[1]? ≠ some '\'') :
    closesAlone cs = true := by
  unfold closesAlone
  split <;> simp_all

/-- A quote that starts no character is passed over by itself. -/
theorem passes_quote (h : closesAlone cs = true) : Passes before [0x27] (octets cs) := by
  refine .of_extent ?_ (List.cons_ne_nil _ _)
  have hlength : charLength (0x27 :: octets cs) = 1 := by
    unfold charLength
    split
    next o rest he =>
      obtain ⟨-, hcs⟩ := List.cons.inj he
      obtain ⟨ds, rfl, -⟩ := octets_eq_cons (a := '\\') (by decide) hcs
      cases h
    next o p rest _ he =>
      obtain ⟨-, hcs⟩ := List.cons.inj he
      cases cs with
      | nil => cases hcs
      | cons c cs =>
        rw [octets_cons] at hcs
        by_cases hc : IsAscii c
        · rw [utf8EncodeChar_of_isAscii hc] at hcs
          obtain ⟨ds, rfl, -⟩ := octets_eq_cons (a := '\'') (by decide) (List.cons.inj hcs).2
          unfold closesAlone at h
          split at h <;> simp_all
        · obtain ⟨a, b, os, hos⟩ := exists_two_octets hc
          have hb : 128 ≤ b.toNat := le_of_mem_utf8EncodeChar hc (by rw [hos]; simp)
          rw [hos] at hcs
          simp only [List.cons_append, List.cons.injEq] at hcs
          rw [hcs.2.1] at hb
          exact absurd hb (by decide)
    next => rfl
  rw [List.singleton_append, extent, hlength]
  rfl

/-- What stands behind a character that the search does not take as a whole: one that is no single
octet, or a quote behind a backslash. -/
def looseEnd? (text : Chars) : Option Chars :=
  match if text.head? = some 'b' then text.tail else text with
  | '\'' :: '\\' :: '\'' :: '\'' :: rest => some rest
  | '\'' :: c :: '\'' :: rest => if IsAscii c then none else some rest
  | _ => none

theorem looseEnd?_of_not_isAscii (hb : c ≠ '\\') (hc : ¬IsAscii c) :
    looseEnd? ('\'' :: ([c] ++ '\'' :: w)) = some w := by
  simp only [looseEnd?, List.head?_cons, Option.some.injEq, List.singleton_append]
  rw [if_neg (by decide)]
  split
  next he =>
    simp only [List.cons.injEq, true_and] at he
    exact absurd he.1 hb
  next he =>
    simp only [List.cons.injEq, true_and] at he
    obtain ⟨rfl, rfl⟩ := he
    exact if_neg hc
  next he => exact absurd rfl (he c w)

theorem passes_octet (hb : c ≠ '\\') (hc : IsAscii c) :
    Passes before (0x27 :: (octets [c] ++ [0x27])) (octets cs) := by
  rw [octets_cons_of_isAscii hc, octets_nil]
  have ho : octet c ≠ 0x5C := fun he => hb (octet_inj hc (b := '\\') (by decide) he)
  refine .of_extent ?_ (List.cons_ne_nil _ _)
  have hlength : charLength (0x27 :: octet c :: 0x27 :: octets cs) = 3 := by
    unfold charLength
    split <;> simp_all
  simp only [List.cons_append, List.nil_append, extent, hlength]
  rfl

/-- Of a character of more than one octet, the quotes are pieces of their own. -/
theorem passes_wide (hb : c ≠ '\\') (hc : ¬IsAscii c) (hl : closesAlone cs = true) :
    Passes before (0x27 :: (octets [c] ++ [0x27])) (octets cs) := by
  have hall : ∀ d ∈ ['/', 'r', '"', '\''], IsAscii d := List.all_iff_forall_prop.mp (by decide)
  have hrest : octets [c] ++ [0x27] ++ octets cs = octets (c :: '\'' :: cs) := by
    have hquote : octets ('\'' :: cs) = 0x27 :: octets cs := octets_cons_of_isAscii (by decide)
    rw [octets_cons c ('\'' :: cs), hquote, octets_cons c [], octets_nil, List.append_nil,
      List.append_assoc]
    rfl
  have hfirst : closesAlone (c :: '\'' :: cs) = true := by
    unfold closesAlone
    split <;> simp_all
  have hopen : Passes before [0x27] (octets [c] ++ [0x27] ++ octets cs) := by
    rw [hrest]
    exact passes_quote hfirst
  have hinner {b : Option UInt8} {rest : Octets} : Passes b (octets [c]) rest :=
    passes_octets (List.forall_mem_singleton.mpr fun hm => hc (hall c hm))
  exact hopen.append (hinner.append (passes_quote hl))

theorem passes_escape {d : Char} (hd : d ≠ '\'') (hi : ∀ c ∈ w, IsInert c) :
    Passes before (0x27 :: (octets ('\\' :: d :: w) ++ [0x27])) (octets cs) := by
  have hno : (0x27 : UInt8) ∉ octets (d :: w) := by
    refine mt (octet_mem_octets (a := '\'') (by decide)).mp fun hm => ?_
    rcases List.mem_cons.mp hm with rfl | hm
    · exact hd rfl
    · exact (hi _ hm).2.2 rfl
  have hlength : charLength (0x27 :: 0x5C :: (octets (d :: w) ++ 0x27 :: octets cs)) =
      (octets (d :: w)).length + 3 := by
    rw [charLength, quoteTail_append hno]
  rw [octets_cons_of_isAscii (by decide)]
  refine .of_extent ?_ (List.cons_ne_nil _ _)
  simp only [List.cons_append, List.append_assoc, List.nil_append]
  show (false, charLength (0x27 :: 0x5C :: (octets (d :: w) ++ 0x27 :: octets cs))) = _
  rw [hlength]
  simp

/-- A character is passed over from its first quote to its last. -/
theorem passes_single {content : Chars} (h : IsContent content)
    (hl : (looseEnd? ('\'' :: (content ++ '\'' :: w))).all
      (fun rest => closesAlone (rest ++ left)) = true) :
    Passes before (octets ('\'' :: (content ++ ['\'']))) (octets (w ++ left)) := by
  have hquotes : octets ('\'' :: (content ++ ['\''])) = 0x27 :: (octets content ++ [0x27]) := by
    rw [octets_cons_of_isAscii (by decide), octets_append]
    rfl
  rw [hquotes]
  cases h with
  | @char c hb =>
    by_cases hc : IsAscii c
    · exact passes_octet hb hc
    · rw [looseEnd?_of_not_isAscii hb hc, Option.all_some] at hl
      exact passes_wide hb hc hl
  | @escape e he =>
    obtain ⟨d, rest, rfl, hinert, hd⟩ := he
    by_cases hquote : d = '\''
    · subst hquote
      obtain rfl : rest = [] := hd.resolve_right fun hne => hne rfl
      have hloose : looseEnd? ('\'' :: ('\\' :: ['\''] ++ '\'' :: w)) = some w := rfl
      rw [hloose, Option.all_some] at hl
      have hopen : Passes before [0x27, 0x5C, 0x27] ([0x27] ++ octets (w ++ left)) :=
        .of_extent rfl (List.cons_ne_nil _ _)
      exact hopen.append (passes_quote hl)
    · exact passes_escape hquote hinert

/-! ### Comments -/

/-- A block comment ends for the search where it ends for the lexer, which counts the comments
open around the innermost one only. -/
theorem blockLength_octets {depth : Nat} {body : Chars}
    (h : blockComment depth cs = some (body, left)) :
    blockLength (depth + 1) (octets cs) = (octets body).length + 2 := by
  have hslash {ds : Chars} : octets ('/' :: ds) = 0x2F :: octets ds :=
    octets_cons_of_isAscii (by decide)
  have hstar {ds : Chars} : octets ('*' :: ds) = 0x2A :: octets ds :=
    octets_cons_of_isAscii (by decide)
  fun_induction blockComment depth cs generalizing body with
  | case1 depth rest ih =>
    obtain ⟨⟨b, l⟩, hb, he⟩ := Option.map_eq_some_iff.mp h
    cases he
    rw [hslash, hstar, hslash, hstar, blockLength, ih hb, List.length_cons, List.length_cons]
  | case2 rest =>
    cases h
    rw [hstar, hslash, blockLength]
    rfl
  | case3 depth rest ih =>
    obtain ⟨⟨b, l⟩, hb, he⟩ := Option.map_eq_some_iff.mp h
    cases he
    rw [hstar, hslash, hstar, hslash, blockLength, if_neg (by omega), Nat.add_sub_cancel, ih hb,
      List.length_cons, List.length_cons]
  | case4 depth c rest h1 h2 h3 ih =>
    obtain ⟨⟨b, l⟩, hb, he⟩ := Option.map_eq_some_iff.mp h
    cases he
    by_cases hc : IsAscii c
    · have hhead {a d : Char} (ha : IsAscii a) (hd : ∀ ds, rest = d :: ds → c = a → False)
          (hda : IsAscii d) (ho : octet c = octet a) : (octets rest).head? ≠ some (octet d) := by
        refine head?_octets hda fun hr => ?_
        cases rest with
        | nil => cases hr
        | cons e es =>
          obtain rfl := Option.some.inj hr
          exact hd es rfl (octet_inj hc ha ho)
      rw [octets_cons_of_isAscii hc, blockLength_cons, ih hb, octets_cons_of_isAscii hc,
        List.length_cons]
      · exact hhead (a := '/') (d := '*') (by decide) (fun ds hr hs => h1 ds hs hr) (by decide)
      · refine hhead (a := '*') (d := '/') (by decide) (fun ds hr hs => ?_) (by decide)
        cases depth with
        | zero => exact h2 ds rfl hs hr
        | succ depth => exact h3 depth ds rfl hs hr
    · have hother {a : Char} (ha : IsAscii a) : c ≠ a := fun he => hc (he ▸ ha)
      rw [octets_cons, blockLength_append, ih hb, octets_cons, List.length_append]
      · omega
      · intro o ho
        exact ⟨ne_of_mem_utf8EncodeChar (a := '/') (by decide) (hother (by decide)) ho,
          ne_of_mem_utf8EncodeChar (a := '*') (by decide) (hother (by decide)) ho⟩
  | case5 => cases h

theorem marks_comment (h : CommentForm left text) : marks before (octets (text ++ left)) =
    (occursIn mark (octets text) || marks (octets text).getLast? (octets left)) := by
  rw [octets_append]
  have hne : octets text ≠ [] := octets_ne_nil h.ne_nil
  suffices hext : extent before (octets text ++ octets left) = (true, (octets text).length) by
    rw [marks_append hext hne, Bool.true_and]
  cases h with
  | @line rest hn hl =>
    have htext : octets ('/' :: '/' :: rest) = 0x2F :: 0x2F :: octets rest := by
      rw [octets_cons_of_isAscii (by decide), octets_cons_of_isAscii (by decide)]
      rfl
    have hno : (0x0A : UInt8) ∉ octets ('/' :: '/' :: rest) := by
      refine mt (octet_mem_octets (a := '\n') (by decide)).mp ?_
      simpa using hn
    have hend : (octets left).head? = none ∨ (octets left).head? = some 0x0A := by
      cases left with
      | nil => exact .inl rfl
      | cons c left =>
        obtain rfl : c = '\n' := by simpa using hl
        rw [octets_cons_of_isAscii (by decide)]
        exact .inr rfl
    have hlength := lineLength_append hno hend
    rw [htext] at hlength ⊢
    show (true, lineLength _) = _
    rw [hlength]
  | @block body hb =>
    have htext : octets ('/' :: '*' :: (body ++ ['*', '/'])) ++ octets left =
        0x2F :: 0x2A :: octets (body ++ '*' :: '/' :: left) := by
      rw [octets_cons_of_isAscii (by decide), octets_cons_of_isAscii (by decide), List.cons_append,
        List.cons_append, ← octets_append]
      simp [octet]
    have hlength : blockLength 0 (0x2F :: 0x2A :: octets (body ++ '*' :: '/' :: left)) =
        (octets ('/' :: '*' :: (body ++ ['*', '/']))).length := by
      rw [blockLength, blockLength_octets hb, octets_cons_of_isAscii (by decide),
        octets_cons_of_isAscii (by decide), octets_append, List.length_cons, List.length_cons,
        List.length_append]
      rfl
    rw [htext]
    show (true, blockLength 0 _) = _
    rw [hlength]

end RecordStore.IgnoreMark
