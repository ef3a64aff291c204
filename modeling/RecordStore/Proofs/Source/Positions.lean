import RecordStore.Proofs.Source.Passing

/-!
The search for the mark by positions in a text. Whatever could go wrong with a position is a fault:
an octet or a rest that lies outside of the text, a comment closed where none is open, a part of
the text that starts or ends inside of a character, a step that leads nowhere. No text leads to a
fault, and the search finds what is found piece by piece.
-/
namespace RecordStore.IgnoreMark

open Utf8

inductive Fault where
  | outside
  | notOpen
  | splitCharacter
  | standstill
  deriving DecidableEq, Repr

/-! ### The search -/

/-- The octet at a position that has to be in the text. -/
def octetAt (text : Octets) (pos : Nat) : Except Fault UInt8 :=
  match text[pos]? with
  | some o => .ok o
  | none => .error .outside

/-- What stands from a position on, which may be the end of the text. -/
def restFrom (text : Octets) (pos : Nat) : Except Fault Octets :=
  if pos ≤ text.length then .ok (text.drop pos) else .error .outside

def lineEnd (text : Octets) (start : Nat) : Except Fault Nat := do
  let ahead ← restFrom text start
  return ((ahead.findIdx? (· == 0x0A)).map (start + ·)).getD text.length

def blockEnd (text : Octets) (depth pos : Nat) : Except Fault Nat :=
  if _h : pos + 1 < text.length then do
    let first ← octetAt text pos
    let second ← octetAt text (pos + 1)
    if first = 0x2F ∧ second = 0x2A then blockEnd text (depth + 1) (pos + 2)
    else if first = 0x2A ∧ second = 0x2F then
      if depth = 0 then throw .notOpen
      else if depth = 1 then return pos + 2
      else blockEnd text (depth - 1) (pos + 2)
    else blockEnd text depth (pos + 1)
  else return text.length
termination_by text.length - pos

/-- The end of a string, from behind its first quote on. -/
def stringEnd (text : Octets) (pos : Nat) : Except Fault Nat :=
  if _h : pos < text.length then do
    let o ← octetAt text pos
    if o = 0x5C then stringEnd text (pos + 2)
    else if o = 0x22 then return pos + 1
    else stringEnd text (pos + 1)
  else return text.length
termination_by text.length - pos

/-- The first position that holds no hash. -/
def hashEnd (text : Octets) (pos : Nat) : Nat :=
  if h : text[pos]? = some 0x23 then hashEnd text (pos + 1) else pos
termination_by text.length - pos
decreasing_by
  have := (List.getElem?_eq_some_iff.mp h).1
  omega

/-- The end of a raw string, from behind its first quote on. -/
def rawEnd (text : Octets) (hashes pos : Nat) : Except Fault Nat :=
  if _h : pos < text.length then do
    let o ← octetAt text pos
    let ahead ← restFrom text (pos + 1)
    if o = 0x22 ∧ (ahead.take hashes).countP (· == 0x23) = hashes then return pos + 1 + hashes
    else rawEnd text hashes (pos + 1)
  else return text.length
termination_by text.length - pos

/-- The position of a single quote, or the end of the text. -/
def quoteEnd (text : Octets) (pos : Nat) : Except Fault Nat :=
  if _h : pos < text.length then do
    let o ← octetAt text pos
    if o = 0x27 then return pos
    else quoteEnd text (pos + 1)
  else return pos
termination_by text.length - pos

def charEnd (text : Octets) (start : Nat) : Except Fault Nat := do
  if text[start + 1]? = some 0x5C then
    let pos ← quoteEnd text (start + 2)
    return pos + 1
  else if text[start + 2]? = some 0x27 then return start + 3
  else return start + 1

def isRawStart (text : Octets) (pos : Nat) : Except Fault Bool := do
  if 0 < pos then
    let o ← octetAt text (pos - 1)
    if isNameOctet o then return false
  return text[hashEnd text (pos + 1)]? == some 0x22

/-- Whether so many octets of a text are whole characters. -/
def isBoundary : List Char → Nat → Bool
  | _, 0 => true
  | [], _ + 1 => false
  | c :: cs, n + 1 =>
    let length := (String.utf8EncodeChar c).length
    length ≤ n + 1 && isBoundary cs (n + 1 - length)

/-- A part of a text, which has to be made of characters. -/
def part (cs : List Char) (start stop : Nat) : Except Fault Octets :=
  if start ≤ stop ∧ isBoundary cs start ∧ isBoundary cs stop then
    .ok (((octets cs).take stop).drop start)
  else .error .splitCharacter

/-- Where the search goes on behind a comment, unless the comment holds the mark. -/
def pastComment (cs : List Char) (start stop : Nat) : Except Fault (Option Nat) := do
  let comment ← part cs start stop
  return if occursIn mark comment then none else some stop

/-- Where the search goes on behind a position, unless it finds the mark there. -/
def step (cs : List Char) (pos : Nat) : Except Fault (Option Nat) := do
  let text := octets cs
  let o ← octetAt text pos
  if o = 0x2F ∧ text[pos + 1]? = some 0x2F then
    let stop ← lineEnd text pos
    pastComment cs pos stop
  else if o = 0x2F ∧ text[pos + 1]? = some 0x2A then
    let stop ← blockEnd text 0 pos
    pastComment cs pos stop
  else if o = 0x72 then
    if ← isRawStart text pos then
      let quote := hashEnd text (pos + 1)
      return some (← rawEnd text (quote - (pos + 1)) (quote + 1))
    else return some (pos + 1)
  else if o = 0x22 then return some (← stringEnd text (pos + 1))
  else if o = 0x27 then return some (← charEnd text pos)
  else return some (pos + 1)

/-- The search from a position on. -/
def walk (cs : List Char) (pos : Nat) : Except Fault Bool :=
  if _h : pos < (octets cs).length then
    match step cs pos with
    | .error fault => .error fault
    | .ok none => .ok true
    | .ok (some next) => if _h : pos < next then walk cs next else .error .standstill
  else .ok false
termination_by (octets cs).length - pos

/-- A text without the mark is not searched. -/
def find (source : String) : Except Fault Bool :=
  if occursIn mark (octets source.toList) then walk source.toList 0 else .ok false

/-! ### Positions and lengths -/

variable {text : Octets} {pos : Nat}

theorem octetAt_of_lt (h : pos < text.length) : octetAt text pos = .ok text[pos] := by
  rw [octetAt, List.getElem?_eq_getElem h]

theorem restFrom_of_le (h : pos ≤ text.length) : restFrom text pos = .ok (text.drop pos) :=
  if_pos h

theorem findIdx?_eq (ahead : Octets) :
    (ahead.findIdx? (· == 0x0A)).getD ahead.length = lineLength ahead := by
  induction ahead with
  | nil => rfl
  | cons o ahead ih =>
    rw [List.findIdx?_cons, lineLength]
    split
    · rfl
    · rw [← ih, List.length_cons]
      cases ahead.findIdx? (· == 0x0A) <;> rfl

theorem lineEnd_eq (h : pos ≤ text.length) :
    lineEnd text pos = .ok (pos + lineLength (text.drop pos)) := by
  have hl := findIdx?_eq (text.drop pos)
  rw [lineEnd, restFrom_of_le h, ← hl]
  refine congrArg Except.ok ?_
  cases (text.drop pos).findIdx? (· == 0x0A) with
  | some offset => rfl
  | none =>
    rw [Option.map_none, Option.getD_none, Option.getD_none, List.length_drop,
      Nat.add_sub_cancel' h]

/-- The octets at two positions of a text and what follows them. -/
theorem drop_eq_cons_cons (h : pos + 1 < text.length) :
    text.drop pos = text[pos] :: text[pos + 1] :: text.drop (pos + 2) := by
  rw [List.drop_eq_getElem_cons (i := pos) (by omega), List.drop_eq_getElem_cons h]

/-- No comment is closed where none is open: the first mark opens one. -/
theorem blockEnd_eq {depth : Nat} (h : pos ≤ text.length)
    (hopen : depth = 0 → [0x2F, 0x2A] <+: text.drop pos) :
    blockEnd text depth pos = .ok (pos + blockLength depth (text.drop pos)) := by
  fun_induction blockEnd text depth pos with
  | case1 depth pos hlt ih₁ ih₂ ih₃ =>
    have hnext : text.drop (pos + 1) = text[pos + 1] :: text.drop (pos + 2) :=
      List.drop_eq_getElem_cons hlt
    rw [octetAt_of_lt (Nat.lt_of_succ_lt hlt), octetAt_of_lt hlt]
    rw [drop_eq_cons_cons hlt] at hopen ⊢
    generalize text[pos] = a at hopen ⊢
    generalize text[pos + 1] = b at hopen hnext ⊢
    dsimp only [bind, Except.bind]
    by_cases hin : a = 0x2F ∧ b = 0x2A
    · obtain ⟨rfl, rfl⟩ := hin
      rw [if_pos ⟨rfl, rfl⟩, ih₁ hlt (fun h => absurd h (Nat.succ_ne_zero depth)), blockLength,
        Nat.add_assoc, Nat.add_comm 2]
    rw [if_neg hin]
    have hdepth : depth ≠ 0 := by
      intro h
      obtain ⟨ha, hb⟩ := List.cons_prefix_cons.mp (hopen h)
      exact hin ⟨ha.symm, (List.cons_prefix_cons.mp hb).1.symm⟩
    by_cases hout : a = 0x2A ∧ b = 0x2F
    · obtain ⟨rfl, rfl⟩ := hout
      rw [if_pos ⟨rfl, rfl⟩, if_neg hdepth, blockLength]
      split
      next h => rw [if_pos h.le]; rfl
      next h =>
        rw [if_neg (by omega), ih₂ hlt (by omega), Nat.add_assoc, Nat.add_comm 2]
    · have hone : blockLength depth (a :: b :: text.drop (pos + 2)) =
          blockLength depth (b :: text.drop (pos + 2)) + 1 :=
        blockLength_cons (fun ha hb => hin ⟨ha, Option.some.inj hb⟩)
          fun ha hb => hout ⟨ha, Option.some.inj hb⟩
      rw [if_neg hout, ih₃ hlt.le (fun h => absurd h hdepth), hnext, hone, Nat.add_assoc,
        Nat.add_comm 1]
  | case2 depth pos hlt =>
    have hlength : (text.drop pos).length ≤ 1 := by
      rw [List.length_drop]
      omega
    have hshort : blockLength depth (text.drop pos) = (text.drop pos).length := by
      cases hd : text.drop pos with
      | nil => rfl
      | cons o rest =>
        rw [hd] at hlength
        obtain rfl := List.length_eq_zero_iff.mp (Nat.le_zero.mp (Nat.le_of_succ_le_succ hlength))
        exact blockLength_cons (by simp) (by simp)
    rw [hshort, List.length_drop, Nat.add_sub_cancel' h]
    rfl

/-- A backslash may lead past the end of the text. -/
theorem stringEnd_eq (text : Octets) (pos : Nat) :
    stringEnd text pos = .ok (min pos text.length + stringTail (text.drop pos)) := by
  fun_induction stringEnd text pos with
  | case1 pos hlt ih₁ ih₂ =>
    rw [octetAt_of_lt hlt, Nat.min_eq_left hlt.le, List.drop_eq_getElem_cons hlt]
    generalize text[pos] = o
    dsimp only [bind, Except.bind]
    by_cases hback : o = 0x5C
    · subst hback
      rw [if_pos rfl, ih₁]
      by_cases hnext : pos + 1 < text.length
      · have hdrop : text.drop (pos + 1) = text[pos + 1] :: text.drop (pos + 2) :=
          List.drop_eq_getElem_cons hnext
        have hmin : min (pos + 2) text.length = pos + 2 := Nat.min_eq_left hnext
        rw [hdrop, stringTail, hmin, Nat.add_assoc, Nat.add_comm 2]
      · have hnil {n : Nat} (h : pos < n) : text.drop n = [] := List.drop_of_length_le (by omega)
        rw [hnil (by omega), hnil (by omega), Nat.min_eq_right (by omega),
          Nat.le_antisymm (Nat.le_of_not_lt hnext) hlt]
        rfl
    rw [if_neg hback]
    have htail : stringTail (o :: text.drop (pos + 1)) =
        if (o == 0x22) = true then 1 else stringTail (text.drop (pos + 1)) + 1 := by
      rw [stringTail]
      exact fun _ _ h => absurd h hback
    rw [htail]
    by_cases hquote : o = 0x22
    · rw [if_pos hquote, if_pos (beq_iff_eq.mpr hquote)]
      rfl
    · have hmin : min (pos + 1) text.length = pos + 1 := Nat.min_eq_left hlt
      rw [if_neg hquote, if_neg (by simpa using hquote), ih₂, hmin, Nat.add_assoc, Nat.add_comm 1]
  | case2 pos hlt =>
    rw [List.drop_of_length_le (Nat.le_of_not_lt hlt), Nat.min_eq_right (Nat.le_of_not_lt hlt)]
    rfl

/-- Hashes are passed over up to what is none. -/
theorem hashEnd_eq (text : Octets) (pos : Nat) :
    hashEnd text pos = pos + hashCount (text.drop pos) := by
  fun_induction hashEnd text pos with
  | case1 pos h ih =>
    obtain ⟨hlt, ho⟩ := List.getElem?_eq_some_iff.mp h
    rw [ih, List.drop_eq_getElem_cons hlt, ho, Nat.add_assoc, Nat.add_comm 1]
    rfl
  | case2 pos h =>
    have hhead : (text.drop pos).head? ≠ some (octet '#') := by
      rwa [List.head?_drop]
    rw [hashCount_of_head hhead, Nat.add_zero]

theorem rawEnd_eq {hashes : Nat} (h : pos ≤ text.length) :
    rawEnd text hashes pos = .ok (pos + rawTail hashes (text.drop pos)) := by
  fun_induction rawEnd text hashes pos with
  | case1 pos hlt ih =>
    rw [octetAt_of_lt hlt, restFrom_of_le hlt, List.drop_eq_getElem_cons hlt, rawTail]
    generalize text[pos] = o
    dsimp only [bind, Except.bind]
    have hcond : (o == 0x22 && ((text.drop (pos + 1)).take hashes).countP (· == 0x23) == hashes) =
        true ↔ o = 0x22 ∧ ((text.drop (pos + 1)).take hashes).countP (· == 0x23) = hashes := by
      simp
    by_cases hend : o = 0x22 ∧ ((text.drop (pos + 1)).take hashes).countP (· == 0x23) = hashes
    · rw [if_pos hend, if_pos (hcond.mpr hend), ← Nat.add_assoc]
      rfl
    · rw [if_neg hend, if_neg (mt hcond.mp hend), ih hlt, Nat.add_assoc, Nat.add_comm 1]
  | case2 pos hlt =>
    rw [List.drop_of_length_le (Nat.le_of_not_lt hlt), Nat.le_antisymm h (Nat.le_of_not_lt hlt)]
    rfl

theorem quoteEnd_eq (text : Octets) (pos : Nat) :
    quoteEnd text pos = .ok (pos + ((text.drop pos).takeWhile (· != 0x27)).length) := by
  fun_induction quoteEnd text pos with
  | case1 pos hlt ih =>
    rw [octetAt_of_lt hlt, List.drop_eq_getElem_cons hlt]
    generalize text[pos] = o
    dsimp only [bind, Except.bind]
    by_cases hquote : o = 0x27
    · rw [if_pos hquote, List.takeWhile_cons_of_neg (by simpa using hquote)]
      rfl
    · rw [if_neg hquote, ih, List.takeWhile_cons_of_pos (by simpa using hquote), List.length_cons,
        Nat.add_assoc, Nat.add_comm 1]
  | case2 pos hlt =>
    rw [List.drop_of_length_le (Nat.le_of_not_lt hlt)]
    rfl

/-- A character may be taken to end past the end of the text. -/
theorem charEnd_eq (h : pos < text.length) :
    charEnd text pos = .ok (pos + charLength (text.drop pos)) := by
  have hget (n : Nat) : text[pos + 1 + n]? = (text.drop (pos + 1))[n]? := List.getElem?_drop.symm
  have hfirst : text[pos + 1]? = (text.drop (pos + 1))[0]? := hget 0
  have hsecond : text[pos + 2]? = (text.drop (pos + 1))[1]? := hget 1
  have hdrop : text.drop (pos + 2) = (text.drop (pos + 1)).drop 1 := by rw [List.drop_drop]
  rw [charEnd, hfirst, hsecond, quoteEnd_eq, hdrop, List.drop_eq_getElem_cons h]
  generalize text[pos] = o
  cases text.drop (pos + 1) with
  | nil => rfl
  | cons c rest =>
    by_cases hback : c = 0x5C
    · subst hback
      rw [if_pos List.getElem?_cons_zero, charLength, quoteTail]
      refine congrArg Except.ok ?_
      rw [List.drop_one, List.tail_cons]
      omega
    have hother : (c :: rest)[0]? ≠ some 0x5C := mt Option.some.inj hback
    rw [if_neg hother]
    cases rest with
    | nil => simp [charLength, hback]; rfl
    | cons d rest =>
      by_cases hquote : d = 0x27
      · subst hquote
        simp [charLength]; rfl
      · simp [charLength, hback, hquote]; rfl

theorem startsRaw_eq (before : Option UInt8) (text : Octets) (pos : Nat) :
    startsRaw before (text.drop pos) =
      (!before.any isNameOctet && (text[hashEnd text (pos + 1)]? == some 0x22)) := by
  have hdrop : (text.drop pos).drop 1 = text.drop (pos + 1) := List.drop_drop
  have hahead : text[hashEnd text (pos + 1)]? =
      ((text.drop (pos + 1)).drop (hashCount (text.drop (pos + 1)))).head? := by
    rw [hashEnd_eq, List.drop_drop, List.head?_drop]
  rw [startsRaw, hdrop, hahead]
  refine congrArg₂ (· && ·) rfl ?_
  cases (text.drop (pos + 1)).drop (hashCount (text.drop (pos + 1))) with
  | nil => rfl
  | cons o rest =>
    by_cases ho : o = 0x22
    · rw [ho]; rfl
    · simp [ho]

/-- The octet in front of a position. -/
def octetBefore (text : Octets) (pos : Nat) : Option UInt8 := if pos = 0 then none else text[pos - 1]?

theorem isRawStart_eq (h : pos < text.length) :
    isRawStart text pos = .ok (startsRaw (octetBefore text pos) (text.drop pos)) := by
  rw [startsRaw_eq, isRawStart, octetBefore]
  split
  next hpos =>
    have hbefore : pos - 1 < text.length := Nat.lt_of_le_of_lt (Nat.sub_le pos 1) h
    rw [octetAt_of_lt hbefore, if_neg hpos.ne', List.getElem?_eq_getElem hbefore, Option.any_some]
    generalize text[pos - 1] = o
    dsimp only [bind, Except.bind]
    cases isNameOctet o <;> rfl
  next hpos =>
    obtain rfl : pos = 0 := Nat.eq_zero_of_not_pos hpos
    rw [if_pos rfl]
    rfl

/-- A raw string has its first quote behind its hashes. -/
theorem rawEnd_of_startsRaw {b : Option UInt8} (h : startsRaw b (text.drop pos) = true) :
    rawEnd text (hashEnd text (pos + 1) - (pos + 1)) (hashEnd text (pos + 1) + 1) =
      .ok (pos + rawLength (text.drop pos)) := by
  rw [startsRaw_eq, Bool.and_eq_true, beq_iff_eq] at h
  have hlt : hashEnd text (pos + 1) + 1 ≤ text.length := (List.getElem?_eq_some_iff.mp h.2).1
  have hdrop : (text.drop pos).drop 1 = text.drop (pos + 1) := List.drop_drop
  rw [rawEnd_eq hlt, rawLength, hdrop, List.drop_drop, hashEnd_eq, Nat.add_sub_cancel_left]
  refine congrArg Except.ok ?_
  have hplace : pos + 1 + hashCount (text.drop (pos + 1)) + 1 =
      pos + (hashCount (text.drop (pos + 1)) + 2) := by omega
  rw [hplace]
  omega

/-! ### Boundaries -/

theorem isBoundary_octets (front back : List Char) :
    isBoundary (front ++ back) (octets front).length = true := by
  induction front with
  | nil => cases back <;> rfl
  | cons c front ih =>
    obtain ⟨n, hn⟩ := Nat.exists_eq_succ_of_ne_zero
      (List.length_pos_of_ne_nil (utf8EncodeChar_ne_nil c)).ne'
    rw [octets_cons, List.length_append, List.cons_append, hn, Nat.succ_add, isBoundary, hn,
      Nat.succ_eq_add_one, Nat.add_right_comm, Nat.add_sub_cancel_left, ih, Bool.and_true]
    exact decide_eq_true (by omega)

/-- An octet of ASCII is a character, with others in front of it and behind it. -/
theorem exists_split {cs : List Char} {a : Char} (ha : IsAscii a)
    (h : (octets cs)[pos]? = some (octet a)) :
    ∃ front back, cs = front ++ a :: back ∧ (octets front).length = pos := by
  induction cs generalizing pos with
  | nil => cases h
  | cons c cs ih =>
    rw [octets_cons] at h
    by_cases hin : pos < (String.utf8EncodeChar c).length
    · rw [List.getElem?_append_left hin] at h
      obtain rfl := (octet_mem_utf8EncodeChar ha).mp (List.mem_of_getElem? h)
      rw [utf8EncodeChar_of_isAscii ha, List.length_singleton] at hin
      exact ⟨[], cs, rfl, by rw [octets_nil, List.length_nil]; omega⟩
    · have hle := Nat.le_of_not_lt hin
      rw [List.getElem?_append_right hle] at h
      obtain ⟨front, back, rfl, hl⟩ := ih h
      refine ⟨c :: front, back, rfl, ?_⟩
      rw [octets_cons, List.length_append, hl, Nat.add_sub_cancel' hle]

/-- A text may be cut in front of an octet of ASCII, behind it, and at its end. -/
theorem isBoundary_of_octet {cs : List Char} {a : Char} (ha : IsAscii a)
    (h : (octets cs)[pos]? = some (octet a)) :
    isBoundary cs pos = true ∧ isBoundary cs (pos + 1) = true := by
  obtain ⟨front, back, rfl, rfl⟩ := exists_split ha h
  refine ⟨isBoundary_octets front (a :: back), ?_⟩
  have hlength : (octets (front ++ [a])).length = (octets front).length + 1 := by
    rw [octets_append, octets_cons_of_isAscii ha, List.length_append]
    rfl
  rw [← hlength, List.append_cons]
  exact isBoundary_octets (front ++ [a]) back

theorem isBoundary_length (cs : List Char) : isBoundary cs (octets cs).length = true := by
  have h := isBoundary_octets cs []
  rwa [List.append_nil] at h

theorem lineLength_cases (t : Octets) :
    lineLength t = t.length ∨ t[lineLength t]? = some (octet '\n') := by
  induction t with
  | nil => exact .inl rfl
  | cons o t ih =>
    rw [lineLength]
    split
    next ho => exact .inr (by rw [eq_of_beq ho]; rfl)
    next => exact ih.imp (congrArg Nat.succ) (by simp)

theorem blockLength_cases (depth : Nat) (t : Octets) :
    blockLength depth t = t.length ∨
      ∃ n, blockLength depth t = n + 1 ∧ t[n]? = some (octet '/') := by
  fun_induction blockLength depth t with
  | case1 depth rest ih =>
    rcases ih with h | ⟨n, h, ho⟩
    · exact .inl (by rw [h]; rfl)
    · exact .inr ⟨n + 2, by rw [h], ho⟩
  | case2 depth rest h => exact .inr ⟨1, rfl, rfl⟩
  | case3 depth rest h ih =>
    rcases ih with h | ⟨n, h, ho⟩
    · exact .inl (by rw [h]; rfl)
    · exact .inr ⟨n + 2, by rw [h], ho⟩
  | case4 depth o rest _ _ ih =>
    rcases ih with h | ⟨n, h, ho⟩
    · exact .inl (by rw [h]; rfl)
    · exact .inr ⟨n + 1, by rw [h], ho⟩
  | case5 => exact .inl rfl

/-! ### Steps -/

variable {cs : List Char}

/-- A comment is a part of the text. -/
theorem pastComment_eq {length : Nat} (hstart : isBoundary cs pos = true)
    (hstop : isBoundary cs (pos + length) = true) :
    pastComment cs pos (pos + length) =
      .ok (if occursIn mark (((octets cs).drop pos).take length) then none
        else some (pos + length)) := by
  have hpart : ((octets cs).take (pos + length)).drop pos = ((octets cs).drop pos).take length := by
    rw [List.drop_take, Nat.add_sub_cancel_left]
  rw [pastComment, part, if_pos ⟨Nat.le_add_right _ _, hstart, hstop⟩, hpart]
  rfl

theorem isBoundary_line (h : pos ≤ (octets cs).length) :
    isBoundary cs (pos + lineLength ((octets cs).drop pos)) = true := by
  rcases lineLength_cases ((octets cs).drop pos) with hl | hl
  · rw [hl, List.length_drop, Nat.add_sub_cancel' h]
    exact isBoundary_length cs
  · rw [List.getElem?_drop] at hl
    exact (isBoundary_of_octet (by decide) hl).1

theorem isBoundary_block {depth : Nat} (h : pos ≤ (octets cs).length) :
    isBoundary cs (pos + blockLength depth ((octets cs).drop pos)) = true := by
  rcases blockLength_cases depth ((octets cs).drop pos) with hl | ⟨n, hl, ho⟩
  · rw [hl, List.length_drop, Nat.add_sub_cancel' h]
    exact isBoundary_length cs
  · rw [List.getElem?_drop] at ho
    rw [hl, ← Nat.add_assoc]
    exact (isBoundary_of_octet (by decide) ho).2

theorem extent_raw (b : Option UInt8) (rest : Octets) : extent b (0x72 :: rest) =
    (false, if startsRaw b (0x72 :: rest) then rawLength (0x72 :: rest) else 1) := rfl

/-- From every position in a text the search goes on as it does piece by piece. -/
theorem step_eq (h : pos < (octets cs).length) :
    step cs pos = .ok (if (extent (octetBefore (octets cs) pos) ((octets cs).drop pos)).1 &&
        occursIn mark (((octets cs).drop pos).take
          (extent (octetBefore (octets cs) pos) ((octets cs).drop pos)).2) then none
      else some (pos + (extent (octetBefore (octets cs) pos) ((octets cs).drop pos)).2)) := by
  have hnext : (octets cs)[pos + 1]? = ((octets cs).drop (pos + 1)).head? := List.head?_drop.symm
  have hdrop := List.drop_eq_getElem_cons h
  have hslash (ho : (octets cs)[pos] = 0x2F) : isBoundary cs pos = true :=
    (isBoundary_of_octet (a := '/') (by decide) (by rw [List.getElem?_eq_getElem h, ho]; rfl)).1
  rw [step, octetAt_of_lt h, hnext]
  dsimp only [bind, Except.bind]
  generalize (octets cs)[pos] = o at hdrop hslash ⊢
  by_cases hline : o = 0x2F ∧ ((octets cs).drop (pos + 1)).head? = some 0x2F
  · obtain ⟨rfl, hhead⟩ := hline
    obtain ⟨rest, hrest⟩ := List.head?_eq_some_iff.mp hhead
    have he : extent (octetBefore (octets cs) pos) ((octets cs).drop pos) =
        (true, lineLength ((octets cs).drop pos)) := by
      rw [hdrop, hrest]
      rfl
    rw [if_pos ⟨rfl, hhead⟩, lineEnd_eq h.le, he]
    exact pastComment_eq (hslash rfl) (isBoundary_line h.le)
  rw [if_neg hline]
  by_cases hblock : o = 0x2F ∧ ((octets cs).drop (pos + 1)).head? = some 0x2A
  · obtain ⟨rfl, hhead⟩ := hblock
    obtain ⟨rest, hrest⟩ := List.head?_eq_some_iff.mp hhead
    have he : extent (octetBefore (octets cs) pos) ((octets cs).drop pos) =
        (true, blockLength 0 ((octets cs).drop pos)) := by
      rw [hdrop, hrest]
      rfl
    have hopen : [0x2F, 0x2A] <+: (octets cs).drop pos := by
      rw [hdrop, hrest]
      exact List.prefix_append [0x2F, 0x2A] rest
    rw [if_pos ⟨rfl, hhead⟩, blockEnd_eq h.le (fun _ => hopen), he]
    exact pastComment_eq (hslash rfl) (isBoundary_block h.le)
  rw [if_neg hblock]
  by_cases hr : o = 0x72
  · subst hr
    rw [if_pos rfl, isRawStart_eq h]
    have he := extent_raw (octetBefore (octets cs) pos) ((octets cs).drop (pos + 1))
    rw [← hdrop] at he
    rw [he]
    dsimp only
    cases hs : startsRaw (octetBefore (octets cs) pos) ((octets cs).drop pos) with
    | true =>
      rw [if_pos rfl, rawEnd_of_startsRaw hs]
      rfl
    | false => rfl
  rw [if_neg hr]
  by_cases hdouble : o = 0x22
  · subst hdouble
    have hmin : min (pos + 1) (octets cs).length = pos + 1 := Nat.min_eq_left h
    rw [if_pos rfl, stringEnd_eq, hmin, Nat.add_assoc, Nat.add_comm 1, hdrop]
    rfl
  rw [if_neg hdouble]
  by_cases hsingle : o = 0x27
  · subst hsingle
    rw [if_pos rfl, charEnd_eq h, hdrop]
    rfl
  rw [if_neg hsingle]
  have he : extent (octetBefore (octets cs) pos) ((octets cs).drop pos) = (false, 1) := by
    rw [hdrop]
    by_cases ho : o = 0x2F
    · subst ho
      exact extent_slash (fun hh => hline ⟨rfl, hh⟩) (fun hh => hblock ⟨rfl, hh⟩)
    · exact extent_of_notMem (by simp [startOctets, ho, hr, hdouble, hsingle])
  rw [he]
  rfl

/-! ### The whole search -/

theorem marks_eq {b : Option UInt8} (h : text ≠ []) :
    marks b text = ((extent b text).1 && occursIn mark (text.take (extent b text).2) ||
      marks (text.take (extent b text).2).getLast? (text.drop (extent b text).2)) := by
  have hpos : 0 < (extent b text).2 := extent_pos h
  obtain ⟨o, rest, rfl⟩ := List.exists_cons_of_ne_nil h
  have hl : ((o :: rest).drop (extent b (o :: rest)).2).length ≤ rest.length := by
    rw [List.length_drop, List.length_cons]
    omega
  rw [marks, List.length_cons, piecesFrom]
  dsimp only
  rw [List.any_cons, marks, piecesFrom_of_le hl le_rfl]

/-- Behind a piece the octet in front is the last one of the piece, unless the text ends there. -/
theorem marks_past {n : Nat} (hn : 0 < n) :
    marks ((text.drop pos).take n).getLast? ((text.drop pos).drop n) =
      marks (octetBefore text (pos + n)) (text.drop (pos + n)) := by
  rw [List.drop_drop]
  by_cases hle : pos + n ≤ text.length
  · have hlength : ((text.drop pos).take n).length = n := by
      rw [List.length_take, List.length_drop]
      omega
    have hlast : pos + (n - 1) = pos + n - 1 := by omega
    rw [octetBefore, if_neg (by omega), List.getLast?_eq_getElem?, hlength, List.getElem?_take_of_lt,
      List.getElem?_drop, hlast]
    omega
  · rw [List.drop_of_length_le (Nat.le_of_not_le hle), marks_nil, marks_nil]

/-- Every step leads on. -/
theorem lt_of_step {next : Nat} (h : pos < (octets cs).length)
    (hstep : step cs pos = .ok (some next)) : pos < next := by
  rw [step_eq h] at hstep
  split at hstep
  · cases hstep
  · cases hstep
    have hne : (octets cs).drop pos ≠ [] := by simpa using h
    have hpos : 0 < (extent (octetBefore (octets cs) pos) ((octets cs).drop pos)).2 := extent_pos hne
    omega

theorem walk_eq (cs : List Char) (pos : Nat) :
    walk cs pos = .ok (marks (octetBefore (octets cs) pos) ((octets cs).drop pos)) := by
  fun_induction walk cs pos with
  | case1 pos h fault hstep =>
    rw [step_eq h] at hstep
    cases hstep
  | case2 pos h hstep =>
    rw [step_eq h] at hstep
    split at hstep
    next hfound => rw [marks_eq (by simpa using h), hfound, Bool.true_or]
    next => cases hstep
  | case3 pos h next hstep hlt ih =>
    rw [step_eq h] at hstep
    split at hstep
    next => cases hstep
    next hno =>
      cases hstep
      have hleft : (octets cs).drop pos ≠ [] := by simpa using h
      rw [ih, marks_eq hleft, Bool.eq_false_iff.mpr hno, Bool.false_or, marks_past (by omega)]
  | case4 pos h next hstep hlt => exact absurd (lt_of_step h hstep) hlt
  | case5 pos h => rw [List.drop_of_length_le (Nat.le_of_not_lt h), marks_nil]

theorem isIn_of_walk (source : String) : walk source.toList 0 = .ok (isIn source) := by
  rw [walk_eq, isIn_eq]
  rfl

/-- Where the mark is found it stands in the text. -/
theorem occursIn_of_marks {b : Option UInt8} (h : marks b text = true) :
    occursIn mark text = true := by
  induction hn : text.length using Nat.strong_induction_on generalizing b text with
  | _ n ih =>
    subst hn
    by_cases hne : text = []
    · rw [hne, marks_nil] at h
      cases h
    have hpos : 0 < (extent b text).2 := extent_pos hne
    have hlength := List.length_pos_of_ne_nil hne
    rw [marks_eq hne, Bool.or_eq_true, Bool.and_eq_true] at h
    rw [occursIn_iff]
    rcases h with ⟨-, h⟩ | h
    · exact (occursIn_iff.mp h).trans (List.take_prefix _ text).isInfix
    · have hrest := ih (text.drop (extent b text).2).length
        (by rw [List.length_drop]; omega) h rfl
      exact (occursIn_iff.mp hrest).trans (List.drop_suffix _ text).isInfix

/-- The search by positions meets with no fault, whatever the text holds, and finds the mark in the
same texts as the search by pieces. Of every position in a text, also one inside of a character,
it gets further or finds the mark. -/
theorem find_without_fault (source : String) :
    find source = .ok (isIn source) ∧ walk source.toList 0 = .ok (isIn source) ∧
      ∀ pos < (octets source.toList).length, ∃ result, step source.toList pos = .ok result ∧
        ∀ next, result = some next → pos < next := by
  refine ⟨?_, isIn_of_walk source, fun pos h => ⟨_, step_eq h, fun next hn => ?_⟩⟩
  · rw [find]
    split
    · exact isIn_of_walk source
    next h =>
      refine congrArg Except.ok (Bool.eq_false_iff.mpr fun hin => h ?_).symm
      rw [isIn_eq] at hin
      exact occursIn_of_marks hin
  · exact lt_of_step h ((step_eq h).trans (congrArg Except.ok hn))

/-- A character of two octets between quotes, and a comment without an end. -/
def wideSource : String := "'\u00e9' /* \u00e9"

/-- The search gets on from inside of the character. -/
theorem find_without_fault_wide : 2 < (octets wideSource.toList).length ∧
    isBoundary wideSource.toList 2 = false ∧
      ∃ result, step wideSource.toList 2 = .ok result ∧ ∀ next, result = some next → 2 < next := by
  have hlt : 2 < (octets wideSource.toList).length := by decide +kernel
  exact ⟨hlt, by decide +kernel, (find_without_fault wideSource).2.2 2 hlt⟩

end RecordStore.IgnoreMark
