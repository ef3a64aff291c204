import Mathlib.Data.List.Chain
import RecordStore.Proofs.Sql.Words
import RecordStore.Proofs.Store.Scope

/-!
Blanks. What is put together from words with one blank between two of them has no blank at its ends
and none next to another, so a part that is left out leaves no trace.
-/
namespace RecordStore

/-- No blank stands at either end or next to another one. -/
structure Tidy (cs : List Char) : Prop where
  spaced : cs.IsChain fun a b => a ≠ ' ' ∨ b ≠ ' '
  first : ∃ c ∈ cs.head?, c ≠ ' '
  last : ∃ c ∈ cs.getLast?, c ≠ ' '

variable {cs ds : List Char}

theorem tidy_of_notMem (hn : cs ≠ []) (hb : ' ' ∉ cs) : Tidy cs where
  spaced := (List.pairwise_of_forall_mem_list fun a ha b _ =>
    .inl fun he => hb (he ▸ ha)).isChain
  first := by
    obtain ⟨c, rest, rfl⟩ := List.exists_cons_of_ne_nil hn
    exact ⟨c, rfl, fun he => hb (he ▸ List.mem_cons_self)⟩
  last := ⟨cs.getLast hn, List.getLast?_eq_some_getLast hn,
    fun he => hb (he ▸ List.getLast_mem hn)⟩

namespace Tidy

theorem ne_nil (h : Tidy cs) : cs ≠ [] := by
  rintro rfl
  obtain ⟨c, hc, -⟩ := h.first
  cases hc

theorem append (hc : Tidy cs) (hd : Tidy ds) : Tidy (cs ++ ds) where
  spaced := by
    refine List.isChain_append.mpr ⟨hc.spaced, hd.spaced, fun a ha b _ => .inl ?_⟩
    obtain ⟨l, hl, hne⟩ := hc.last
    exact Option.mem_unique ha hl ▸ hne
  first := by
    obtain ⟨c, hf, hne⟩ := hc.first
    exact ⟨c, by rw [List.head?_append_of_ne_nil _ hc.ne_nil]; exact hf, hne⟩
  last := by
    obtain ⟨c, hl, hne⟩ := hd.last
    exact ⟨c, by rw [List.getLast?_append_of_ne_nil _ hd.ne_nil]; exact hl, hne⟩

/-- With a blank between them. -/
theorem blank (hc : Tidy cs) (hd : Tidy ds) : Tidy (cs ++ ' ' :: ds) where
  spaced := by
    obtain ⟨f, hf, hfn⟩ := hd.first
    refine List.isChain_append.mpr ⟨hc.spaced, List.isChain_cons.mpr ⟨fun b hb => .inr ?_,
      hd.spaced⟩, fun a ha b _ => .inl ?_⟩
    · exact Option.mem_unique hb hf ▸ hfn
    · obtain ⟨l, hl, hne⟩ := hc.last
      exact Option.mem_unique ha hl ▸ hne
  first := by
    obtain ⟨c, hf, hne⟩ := hc.first
    exact ⟨c, by rw [List.head?_append_of_ne_nil _ hc.ne_nil]; exact hf, hne⟩
  last := by
    obtain ⟨c, hl, hne⟩ := hd.last
    refine ⟨c, ?_, hne⟩
    rw [List.getLast?_append_of_ne_nil _ (List.cons_ne_nil _ _), List.getLast?_cons]
    rw [Option.mem_def.mp hl]
    rfl

end Tidy

/-- Tidy texts are joined to one by what keeps two of them tidy. -/
theorem tidy_intercalate {s : List Char} {parts : List (List Char)}
    (hs : ∀ cs ds, Tidy cs → Tidy ds → Tidy (cs ++ (s ++ ds))) (hn : parts ≠ [])
    (hp : ∀ p ∈ parts, Tidy p) : Tidy (s.intercalate parts) := by
  induction parts with
  | nil => exact absurd rfl hn
  | cons p parts ih =>
    have hc : Tidy p := hp p List.mem_cons_self
    cases parts with
    | nil => simpa using hc
    | cons o parts =>
      have hr := ih (List.cons_ne_nil _ _) fun q hq => hp q (List.mem_cons_of_mem _ hq)
      rw [List.intercalate_cons_cons, List.append_assoc]
      exact hs p _ hc hr

theorem IsWord.tidy (h : IsWord cs) : Tidy cs := by
  refine tidy_of_notMem h.1 fun hb => ?_
  have hw := List.all_eq_true.mp h.2 ' ' hb
  revert hw
  decide

theorem IsQualified.tidy {q : String} (h : IsQualified q) : Tidy q.toList := h.isWord.tidy

theorem notMem_toDigits (m : Nat) : ' ' ∉ Nat.toDigits 10 m := by
  intro hb
  have hd : ' '.isDigit = true := Nat.isDigit_of_mem_toDigits (by decide) (by decide) hb
  revert hd
  decide

theorem tidy_int (i : Int) : Tidy (toString i).toList := by
  cases i with
  | ofNat m =>
    have hi : (toString (Int.ofNat m)).toList = Nat.toDigits 10 m := Nat.toList_repr
    rw [hi]
    exact tidy_of_notMem Nat.toDigits_ne_nil (notMem_toDigits m)
  | negSucc m =>
    have hi : toString (Int.negSucc m) = "-" ++ (m + 1).repr := rfl
    rw [hi, String.toList_append, Nat.toList_repr]
    exact tidy_of_notMem (by simp) (by simp [notMem_toDigits])

namespace Dialect

variable (d : Dialect)

theorem tidy_placeholder (n : Nat) : Tidy (d.placeholder n).toList := by
  cases d with
  | default => exact tidy_of_notMem (by simp [placeholder]) (by simp [placeholder])
  | postgres =>
    have hp : (postgres.placeholder n).toList = '$' :: Nat.toDigits 10 n := by
      simp [placeholder]
    rw [hp]
    exact tidy_of_notMem (List.cons_ne_nil _ _) (by simp [notMem_toDigits])

theorem tidy_placeholders {p : String} {base count : Nat} (h : p ∈ d.placeholders base count) :
    Tidy p.toList := by
  obtain ⟨n, -, rfl⟩ := List.mem_map.mp h
  exact d.tidy_placeholder n

end Dialect

theorem tidy_absent {q : String} (h : Tidy q.toList) : Tidy (Dialect.absent q).toList := by
  have ha : (Dialect.absent q).toList = q.toList ++ ' ' :: "IS NULL".toList := by
    simp [Dialect.absent]
  rw [ha]
  exact h.blank ⟨by decide, ⟨'I', rfl, by decide⟩, ⟨'L', rfl, by decide⟩⟩

theorem tidy_joiner (inclusive : Bool) (hc : Tidy cs) (hd : Tidy ds) :
    Tidy (cs ++ ((joiner inclusive).toList ++ ds)) := by
  have hw {w : List Char} (h : Tidy w) : Tidy (cs ++ ' ' :: (w ++ ' ' :: ds)) := hc.blank (h.blank hd)
  cases inclusive with
  | true => exact hw (w := ['O', 'R']) (tidy_of_notMem (by decide) (by decide))
  | false => exact hw (w := ['A', 'N', 'D']) (tidy_of_notMem (by decide) (by decide))

/-- Behind a tidy text, a blank, a word, and another blank, a tidy text goes on. -/
theorem Tidy.word (hc : Tidy cs) (hd : Tidy ds) {w : String} (hw : Tidy w.toList) :
    Tidy (cs ++ ' ' :: (w.toList ++ ' ' :: ds)) := hc.blank (hw.blank hd)

theorem Tidy.parenthesized (h : Tidy cs) : Tidy ('(' :: (cs ++ [')'])) := by
  have ho : Tidy ['('] := tidy_of_notMem (by decide) (by decide)
  have hc : Tidy [')'] := tidy_of_notMem (by decide) (by decide)
  exact ho.append (h.append hc)

namespace Clause

variable {q : String} (d : Dialect) (n : Nat)

theorem tidy_list (hq : Tidy q.toList) {count : Nat} (hn : count ≠ 0) :
    Tidy (q ++ " IN (" ++ ",".intercalate (d.placeholders n count) ++ ")").toList := by
  have hl : Tidy (",".toList.intercalate ((d.placeholders n count).map String.toList)) := by
    refine tidy_intercalate (fun cs ds hc hd => ?_) ?_ fun p hp => ?_
    · exact hc.append (Tidy.append (tidy_of_notMem (by decide) (by decide)) hd)
    · simpa [Dialect.placeholders] using hn
    · obtain ⟨o, ho, rfl⟩ := List.mem_map.mp hp
      exact d.tidy_placeholders ho
  have hw := hq.word hl.parenthesized (w := "IN") (tidy_of_notMem (by decide) (by decide))
  simpa [String.toList_intercalate] using hw

theorem tidy_present (hq : Tidy q.toList) : Tidy (d.present q).toList := by
  have hn : Tidy "NULL".toList := tidy_of_notMem (by decide) (by decide)
  have hnot : Tidy "NOT".toList := tidy_of_notMem (by decide) (by decide)
  have his : Tidy "IS".toList := tidy_of_notMem (by decide) (by decide)
  cases d with
  | default => simpa [Dialect.present] using hq.word hn hnot
  | postgres => simpa [Dialect.present] using hq.word (hnot.blank hn) his

/-- A column, a word and a placeholder. -/
theorem tidy_compared (hq : Tidy q.toList) {w : String} (hw : Tidy w.toList) :
    Tidy (q ++ (" " ++ (w ++ (" " ++ d.placeholder n)))).toList := by
  simpa using hq.word (d.tidy_placeholder n) hw

theorem tidy_between (hq : Tidy q.toList) (lower upper : Value) (inclusive : Bool) :
    Tidy ((between q lower upper).text d inclusive n).toList := by
  have ha := tidy_compared d n hq (w := ">") (tidy_of_notMem (by decide) (by decide))
  have hb := tidy_compared d (n + 1) hq (w := "<") (tidy_of_notMem (by decide) (by decide))
  have hw := (ha.word hb (w := "AND") (tidy_of_notMem (by decide) (by decide))).parenthesized
  simpa [text] using hw

theorem tidy_like (hq : Tidy q.toList) {ps : List String} (hn : ps ≠ []) (inclusive : Bool) :
    Tidy ((like q ps).text d inclusive n).toList := by
  rw [like_toList]
  refine tidy_intercalate (fun cs ds hc hd => tidy_joiner inclusive hc hd) ?_ fun p hp => ?_
  · simpa [Dialect.placeholders] using hn
  · obtain ⟨o, ho, rfl⟩ := List.mem_map.mp hp
    obtain ⟨m, -, rfl⟩ := List.mem_map.mp ho
    have hw := tidy_compared d m hq (w := "LIKE") (tidy_of_notMem (by decide) (by decide))
    simpa using hw

theorem tidy_text (inclusive : Bool) {c : Clause} (h : c.Proper) :
    Tidy (c.text d inclusive n).toList := by
  obtain ⟨hq, hf⟩ := h
  have hq : Tidy c.column.toList := hq.tidy
  cases c with
  | oneOf q vs => exact tidy_list d n hq fun hn => hf (List.length_eq_zero_iff.mp hn)
  | present q => exact tidy_present d hq
  | absent q => exact tidy_absent hq
  | between q lower upper => exact tidy_between d n hq lower upper inclusive
  | like q ps => exact tidy_like d n hq hf inclusive

end Clause
end RecordStore
