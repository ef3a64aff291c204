import RecordStore.Proofs.Sql.Words

/-!
What a statement asks of a row. A condition is read from left to right, with a level for every open
parenthesis: conjunctions bind tighter than alternatives.
-/
namespace RecordStore

/-- Conditions without parts, on a column and on the parameters that they compare it with. -/
inductive Atom where
  | oneOf (column : String) (places : List Nat)
  | present (column : String)
  | absent (column : String)
  | above (column : String) (place : Nat)
  | below (column : String) (place : Nat)
  | matching (column : String) (place : Nat)
  deriving DecidableEq, Repr

/-- What is known inside one pair of parentheses. -/
structure Level where
  /-- Whether one of the conjunctions before holds. -/
  before : Bool
  /-- Whether the conjunction being read holds so far. -/
  conjunction : Bool

namespace Level

def start : Level := ⟨false, true⟩

def and (l : Level) (v : Bool) : Level := ⟨l.before, l.conjunction && v⟩

def value (l : Level) : Bool := l.before || l.conjunction

/-- A new conjunction begins. -/
def next (l : Level) : Level := ⟨l.value, true⟩

end Level

/-! ### Statements -/

def isEnd : List Lexeme → Bool
  | [] => true
  | [.mark ';'] => true
  | _ => false

def isNumber (w : String) : Bool := w.toList.all Char.isDigit

/-- What follows a number, which may have a sign. -/
def afterNumber : List Lexeme → Option (List Lexeme)
  | .mark '-' :: .name w :: ls => if isNumber w then some ls else none
  | .name w :: ls => if isNumber w then some ls else none
  | _ => none

def isPage : List Lexeme → Bool
  | .keyword .limit :: ls =>
    match afterNumber ls with
    | some (.keyword .offset :: ls) => (afterNumber ls).any isEnd
    | _ => false
  | ls => isEnd ls

/-- What may follow a condition: an order and a page, which drop no condition. -/
def isTail : List Lexeme → Bool
  | .keyword .order :: .keyword .by :: .name _ :: .keyword .asc :: ls => isPage ls
  | .keyword .order :: .keyword .by :: .name _ :: .keyword .desc :: ls => isPage ls
  | ls => isPage ls

section

variable (truth : Atom → Bool)

mutual

/-- Read a condition where an operand is expected; `outer` are the levels outside of `l`. -/
def operand (l : Level) (outer : List Level) : List Lexeme → Option Bool
  | .mark '(' :: ls => operand .start (l :: outer) ls
  | .name c :: .keyword .in :: .mark '(' :: ls => listed l outer c [] ls
  | .name c :: .keyword .not :: .keyword .null :: ls =>
    operator (l.and (truth (.present c))) outer ls
  | .name c :: .keyword .is :: .keyword .not :: .keyword .null :: ls =>
    operator (l.and (truth (.present c))) outer ls
  | .name c :: .keyword .is :: .keyword .null :: ls => operator (l.and (truth (.absent c))) outer ls
  | .name c :: .keyword .like :: .place n :: ls => operator (l.and (truth (.matching c n))) outer ls
  | .name c :: .mark '>' :: .place n :: ls => operator (l.and (truth (.above c n))) outer ls
  | .name c :: .mark '<' :: .place n :: ls => operator (l.and (truth (.below c n))) outer ls
  | _ => none

/-- Read the list of values that a column may have; `before` are those read so far. -/
def listed (l : Level) (outer : List Level) (c : String) (before : List Nat) :
    List Lexeme → Option Bool
  | .place n :: .mark ',' :: ls => listed l outer c (before ++ [n]) ls
  | .place n :: .mark ')' :: ls =>
    operator (l.and (truth (.oneOf c (before ++ [n])))) outer ls
  | _ => none

/-- Read a condition after an operand. -/
def operator (l : Level) (outer : List Level) : List Lexeme → Option Bool
  | .keyword .and :: ls => operand l outer ls
  | .keyword .or :: ls => operand l.next outer ls
  | .mark ')' :: ls =>
    match outer with
    | [] => none
    | o :: outer => operator (o.and l.value) outer ls
  | ls => if outer.isEmpty && isTail ls then some l.value else none

end

/-- Read what follows the table; without a condition every row will do. -/
def holds : List Lexeme → Option Bool
  | .keyword .where :: ls => operand truth .start [] ls
  | ls => if isTail ls then some true else none

/-- What follows the list of columns and the table of a read. -/
def afterColumns : List Lexeme → Option (List Lexeme)
  | c :: .mark ',' :: ls => if c.name?.isSome then afterColumns ls else none
  | c :: .keyword .from :: table :: ls =>
    if c.name?.isSome && table.name?.isSome then some ls else none
  | _ => none

/-- What follows the table of a read. -/
def afterTable : List Lexeme → Option (List Lexeme)
  | .keyword .select :: .keyword .count :: .mark '(' :: .mark '*' :: .mark ')' :: .keyword .from ::
      table :: ls => if table.name?.isSome then some ls else none
  | .keyword .select :: ls => afterColumns ls
  | _ => none

/-- Whether a read gives a row with these conditions; none if it is no read. -/
def selects (ls : List Lexeme) : Option Bool := (afterTable ls).bind (holds truth)

end

/-! ### Texts of conditions -/

section

variable {truth : Atom → Bool} {d : Dialect} {n a b : Nat} {cs ds : List Char} {v w : Bool}

/-- A text that is read as one operand of a conjunction, whatever surrounds it. -/
def Operand (truth : Atom → Bool) (d : Dialect) (n count : Nat) (cs : List Char) (v : Bool) :
    Prop :=
  ∀ l outer rest, EndsWord rest → operand truth l outer (lexemes d n (cs ++ rest)) =
    operator truth (l.and v) outer (lexemes d (n + count) rest)

/-- A text that is read as alternatives to those before it. -/
def Alternatives (truth : Atom → Bool) (d : Dialect) (n count : Nat) (cs : List Char) (v : Bool) :
    Prop :=
  ∀ before outer rest, EndsWord rest → ∃ l : Level, l.value = (before || v) ∧
    operand truth ⟨before, true⟩ outer (lexemes d n (cs ++ rest)) =
      operator truth l outer (lexemes d (n + count) rest)

/-- A text that is an operand when no alternatives are written in it. -/
def SingleOperand (truth : Atom → Bool) (d : Dialect) (n count : Nat) (cs : List Char) (v : Bool) :
    Prop :=
  ¬(joiner true).toList <:+: cs → Operand truth d n count cs v

theorem Operand.alternatives (h : Operand truth d n a cs v) : Alternatives truth d n a cs v := by
  intro before outer rest hr
  exact ⟨_, by simp [Level.and, Level.value], h _ _ _ hr⟩

theorem phrase_joiner (inclusive : Bool) :
    Phrase (joiner inclusive) [.keyword (if inclusive then .or else .and)] where
  endsWord _ := by cases inclusive <;> exact endsWord_blank
  lexemes_append d _ _ := by cases inclusive <;> cases d <;> rfl

theorem Operand.and (hc : Operand truth d n a cs v) (hd : Operand truth d (n + a) b ds w) :
    Operand truth d n (a + b) (cs ++ ((joiner false).toList ++ ds)) (v && w) := by
  intro l outer rest hr
  rw [List.append_assoc, List.append_assoc, hc _ _ _ ((phrase_joiner false).endsWord _),
    (phrase_joiner false).lexemes_append]
  simp only [Bool.false_eq_true, if_false, List.singleton_append, operator]
  rw [hd _ _ _ hr, Nat.add_assoc]
  simp [Level.and, Bool.and_assoc]

theorem Alternatives.or (hc : Alternatives truth d n a cs v)
    (hd : Alternatives truth d (n + a) b ds w) :
    Alternatives truth d n (a + b) (cs ++ ((joiner true).toList ++ ds)) (v || w) := by
  intro before outer rest hr
  obtain ⟨l, hl, hlc⟩ := hc before outer _ ((phrase_joiner true).endsWord (ds ++ rest))
  obtain ⟨k, hk, hkd⟩ := hd l.value outer rest hr
  refine ⟨k, by rw [hk, hl, Bool.or_assoc], ?_⟩
  rw [List.append_assoc, List.append_assoc, hlc, (phrase_joiner true).lexemes_append]
  simp only [if_true, List.singleton_append, operator]
  rw [Level.next, hkd, Nat.add_assoc]

/-- Parentheses make an operand of alternatives. -/
theorem Alternatives.parenthesized (h : Alternatives truth d n a cs v) :
    Operand truth d n a ('(' :: (cs ++ [')'])) v := by
  intro l outer rest hr
  have he : EndsWord (')' :: rest) := endsWord_cons.mpr ⟨by decide, by decide⟩
  obtain ⟨k, hk, hkc⟩ := h false (l :: outer) _ he
  rw [List.cons_append, lexemes_mark (by decide) (by decide) (by decide), operand]
  rw [List.append_assoc, List.singleton_append, Level.start, hkc,
    lexemes_mark (by decide) (by decide) (by decide), operator, hk, Bool.false_or]

/-! ### Operands -/

theorem phrase_in : Phrase " IN (" [.keyword .in, .mark '('] where
  endsWord _ := endsWord_blank
  lexemes_append d _ _ := by cases d <;> rfl

theorem phrase_above : Phrase " > " [.mark '>'] where
  endsWord _ := endsWord_blank
  lexemes_append d _ _ := by cases d <;> rfl

theorem phrase_below : Phrase " < " [.mark '<'] where
  endsWord _ := endsWord_blank
  lexemes_append d _ _ := by cases d <;> rfl

theorem phrase_like : Phrase " LIKE " [.keyword .like] where
  endsWord _ := endsWord_blank
  lexemes_append d _ _ := by cases d <;> rfl

theorem phrase_is : Phrase " IS " [.keyword .is] where
  endsWord _ := endsWord_blank
  lexemes_append d _ _ := by cases d <;> rfl

theorem phrase_not : Phrase " NOT " [.keyword .not] where
  endsWord _ := endsWord_blank
  lexemes_append d _ _ := by cases d <;> rfl

theorem phrase_isNot : Phrase " IS NOT " [.keyword .is, .keyword .not] where
  endsWord _ := endsWord_blank
  lexemes_append d _ _ := by cases d <;> rfl

/-- Text that is one name. -/
def IsName (q : String) : Prop :=
  ∀ d n rest, EndsWord rest → lexemes d n (q.toList ++ rest) = .name q :: lexemes d n rest

/-- A column that is compared with a parameter. -/
theorem IsName.operand_placeholder {q p : String} {k : Lexeme} (h : IsName q) (hp : Phrase p [k])
    (ho : ∀ l outer ls, operand truth l outer (.name q :: k :: .place n :: ls) =
      operator truth (l.and v) outer ls) :
    Operand truth d n 1 (q ++ p ++ d.placeholder n).toList v := by
  intro l outer rest hr
  rw [String.toList_append, String.toList_append, List.append_assoc, List.append_assoc,
    h _ _ _ (hp.endsWord _), hp.lexemes_append, lexemes_placeholder hr, List.singleton_append, ho]

/-- A column that is compared with nothing. -/
theorem IsName.operand_null {q p : String} {ks : List Lexeme} (h : IsName q) (hp : Phrase p ks)
    (ho : ∀ l outer ls, operand truth l outer (.name q :: (ks ++ .keyword .null :: ls)) =
      operator truth (l.and v) outer ls) :
    Operand truth d n 0 (q ++ p ++ Keyword.null.text).toList v := by
  intro l outer rest hr
  rw [String.toList_append, String.toList_append, List.append_assoc, List.append_assoc,
    h _ _ _ (hp.endsWord _), hp.lexemes_append, lexemes_keyword .null hr, ho, Nat.add_zero]

theorem listed_placeholders {l : Level} {outer : List Level} {q : String} (before : List Nat)
    (n count : Nat) (rest : List Char) :
    listed truth l outer q before
        (lexemes d n ([','].intercalate ((d.placeholders n (count + 1)).map String.toList) ++
          ')' :: rest)) =
      operator truth (l.and (truth (.oneOf q (before ++ List.range' n (count + 1))))) outer
        (lexemes d (n + (count + 1)) rest) := by
  induction count generalizing before n with
  | zero =>
    have he : EndsWord (')' :: rest) := endsWord_cons.mpr ⟨by decide, by decide⟩
    simp only [Dialect.placeholders, List.range', List.map_cons, List.map_nil,
      List.intercalate_singleton]
    rw [lexemes_placeholder he, lexemes_mark (by decide) (by decide) (by decide), listed]
  | succ count ih =>
    have he (us : List Char) : EndsWord (',' :: us) := endsWord_cons.mpr ⟨by decide, by decide⟩
    have hi := ih (before ++ [n]) (n + 1)
    simp only [Dialect.placeholders, List.range', List.map_cons, List.intercalate_cons_cons,
      List.append_assoc] at hi ⊢
    rw [List.singleton_append, lexemes_placeholder (he _),
      lexemes_mark (by decide) (by decide) (by decide), listed, hi]
    simp [Nat.add_comm, Nat.add_left_comm]

/-- A column that has one of some values. -/
theorem IsName.operand_list {q : String} (h : IsName q) (count : Nat) :
    Operand truth d n (count + 1)
      (q ++ " IN (" ++ ",".intercalate (d.placeholders n (count + 1)) ++ ")").toList
      (truth (.oneOf q (List.range' n (count + 1)))) := by
  intro l outer rest hr
  have hl : listed truth l outer q [] _ = _ := listed_placeholders (d := d) [] n count rest
  simp only [String.toList_append, String.toList_intercalate, List.append_assoc]
  rw [h _ _ _ (phrase_in.endsWord _), phrase_in.lexemes_append]
  simpa [operand] using hl

/-- Texts one after another with their values, each from the parameter after those before it. -/
inductive InTurn (p : Nat → Nat → List Char → Bool → Prop) :
    Nat → Nat → List (List Char) → List Bool → Prop where
  | nil {n : Nat} : InTurn p n 0 [] []
  | cons {n a b : Nat} {cs : List Char} {v : Bool} {rest : List (List Char)} {vs : List Bool} :
      p n a cs v → InTurn p (n + a) b rest vs → InTurn p n (a + b) (cs :: rest) (v :: vs)

variable {parts : List (List Char)} {vs : List Bool}

theorem InTurn.mono {p q : Nat → Nat → List Char → Bool → Prop} (h : InTurn p n a parts vs)
    (hpq : ∀ n a cs v, p n a cs v → q n a cs v) : InTurn q n a parts vs := by
  induction h with
  | nil => exact .nil
  | cons hc _ ih => exact .cons (hpq _ _ _ _ hc) ih

theorem InTurn.conjunction (h : InTurn (Operand truth d) n a parts vs) (hn : parts ≠ []) :
    Operand truth d n a ((joiner false).toList.intercalate parts) (vs.all id) := by
  induction h with
  | nil => exact absurd rfl hn
  | @cons n a b cs v rest vs hc hr ih =>
    cases hr with
    | nil => simpa using hc
    | cons hd hr =>
      have hi := hc.and (ih (List.cons_ne_nil _ _))
      rw [List.intercalate_cons_cons]
      simpa using hi

theorem InTurn.alternatives (h : InTurn (Alternatives truth d) n a parts vs) (hn : parts ≠ []) :
    Alternatives truth d n a ((joiner true).toList.intercalate parts) (vs.any id) := by
  induction h with
  | nil => exact absurd rfl hn
  | @cons n a b cs v rest vs hc hr ih =>
    cases hr with
    | nil => simpa using hc
    | cons hd hr =>
      have hi := hc.or (ih (List.cons_ne_nil _ _))
      rw [List.intercalate_cons_cons]
      simpa using hi

/-- Where no alternatives are written there is only one text, and none are written in it. -/
theorem InTurn.single (h : InTurn (SingleOperand truth d) n a parts vs) (hn : parts ≠ []) :
    SingleOperand truth d n a ((joiner true).toList.intercalate parts) (vs.any id) := by
  intro hs
  cases h with
  | nil => exact absurd rfl hn
  | cons hc hr =>
    cases hr with
    | nil =>
      rw [List.intercalate_singleton] at hs ⊢
      simpa using hc hs
    | @cons _ _ _ ds _ rest _ _ _ =>
      rw [List.intercalate_cons_cons] at hs
      exact absurd ⟨_, _, rfl⟩ hs

/-! ### Conditions of statements -/

theorem operator_tail {l : Level} {ls : List Lexeme} (h : isTail ls = true) :
    operator truth l [] ls = some l.value := by
  unfold operator
  split <;> simp_all [isTail, isPage, isEnd]

theorem holds_tail {ls : List Lexeme} (h : isTail ls = true) : holds truth ls = some true := by
  unfold holds
  split <;> simp_all [isTail, isPage, isEnd]

theorem lexemes_where {rest : List Char} :
    lexemes d n ("WHERE ".toList ++ rest) = .keyword .where :: lexemes d n rest := by
  cases d <;> rfl

theorem Alternatives.holds {rest : List Char} (h : Alternatives truth d n a cs v)
    (hr : EndsWord rest) (ht : isTail (lexemes d (n + a) rest) = true) :
    holds truth (lexemes d n ("WHERE ".toList ++ (cs ++ rest))) = some v := by
  obtain ⟨l, hl, hc⟩ := h false [] rest hr
  rw [lexemes_where, RecordStore.holds, Level.start, hc, operator_tail ht, hl, Bool.false_or]

end
end RecordStore
