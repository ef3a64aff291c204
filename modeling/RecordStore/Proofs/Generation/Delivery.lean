import RecordStore.Generation.Companion
import RecordStore.Proofs.Text.Writing

/-!
What a writer gets when a companion module is generated into it. Nothing is written unless
generation succeeds; then the writer gets the start of the module as far as there is room, and the
whole counts as done only if all of it fits and the writer can be flushed.
-/
namespace RecordStore.Companion

variable {w : OctetWriter} {unit source : String} {config : Config}

theorem generateTo_of_error {e : Error} (h : generate unit source config = .error e) :
    generateTo w unit source config = (.error e, w) := by
  simp only [generateTo, h]

/-- What comes of writing some octets and flushing the writer. -/
def delivered (w : OctetWriter) (octets : List UInt8) : Except Error Unit :=
  if !w.fits octets then .error (.emit .noRoom)
  else if w.failsFlush then .error (.emit .flush)
  else .ok ()

theorem generateTo_of_ok {output : String} (h : generate unit source config = .ok output) :
    generateTo w unit source config =
      (delivered w (Utf8.encode output), w.accept (w.taken (Utf8.encode output))) := by
  simp only [generateTo, h, OctetWriter.write_eq, delivered]
  rfl

theorem delivered_eq_ok_iff (octets : List UInt8) : delivered w octets = .ok () ↔
    (∀ n, w.room = some n → octets.length ≤ n) ∧ w.failsFlush = false := by
  have hfits : w.fits octets = true ↔ ∀ n, w.room = some n → octets.length ≤ n := by
    unfold OctetWriter.fits
    cases w.room <;> simp
  rw [← hfits]
  unfold delivered
  cases w.fits octets <;> cases w.failsFlush <;> simp

theorem delivered_eq_error {octets : List UInt8} {e : Error} (h : delivered w octets = .error e) :
    e = .emit .noRoom ∨ e = .emit .flush := by
  unfold delivered at h
  split at h
  · exact .inl (Except.error.inj h).symm
  · split at h
    · exact .inr (Except.error.inj h).symm
    · cases h

/-- A source that is to be ignored has an empty companion. -/
theorem generate_of_isIn (h : IgnoreMark.isIn source = true) :
    generate unit source config = .ok "" := by
  simp [generate, SourceUnit.ofSource, h, bind, Except.bind, pure, Except.pure]

/-- What an unlimited or limited room leaves of some octets. -/
theorem taken_eq (octets : List UInt8) :
    w.taken octets = octets.take (w.room.elim octets.length (min · octets.length)) := by
  unfold OctetWriter.taken
  cases w.room with
  | none => simp
  | some n => simp [List.take_eq_take_iff]

/-- Generating into a writer fails as generation does, and then writes nothing. Otherwise the
writer gets as many octets of the companion from its start as there is room for, however many it
takes at a time; this succeeds exactly if there is room for all of them and the writer can be
flushed, and fails for want of one or the other. The empty companion of an ignored source needs no
room. -/
theorem generateTo_delivers (w : OctetWriter) (unit source : String) (config : Config) :
    (match generate unit source config with
      | .error e => generateTo w unit source config = (.error e, w)
      | .ok output => ∃ result after, generateTo w unit source config = (result, after) ∧
          after.written = w.written ++ (Utf8.encode output).take
            (w.room.elim (Utf8.encode output).length (min · (Utf8.encode output).length)) ∧
          (result = .ok () ↔ (∀ n, w.room = some n → (Utf8.encode output).length ≤ n) ∧
            w.failsFlush = false) ∧
          ∀ e, result = .error e → e = .emit .noRoom ∨ e = .emit .flush) ∧
      (IgnoreMark.isIn source = true → w.failsFlush = false →
        generateTo w unit source config = (.ok (), w)) := by
  constructor
  · split
    next e he => exact generateTo_of_error he
    next output ho =>
      refine ⟨_, _, generateTo_of_ok ho, ?_, delivered_eq_ok_iff _, fun e => delivered_eq_error⟩
      rw [← taken_eq]
      rfl
  · intro hi hf
    have hempty : Utf8.encode "" = [] := by decide +kernel
    rw [generateTo_of_ok (generate_of_isIn hi), hempty, (delivered_eq_ok_iff []).mpr ⟨by simp, hf⟩]
    have ht : w.taken [] = [] := by unfold OctetWriter.taken; cases w.room <;> simp
    rw [ht, w.accept_nil]

/-- A writer with room for twelve octets that takes five of them at a time. -/
def narrowWriter : OctetWriter := { room := some 12, pace := some 4 }

theorem generateTo_delivers_narrow : IgnoreMark.isIn "// marlow:ignore" = true ∧
    generateTo narrowWriter "a.rs" "// marlow:ignore" {} = (.ok (), narrowWriter) ∧
    (generateTo narrowWriter "a.rs" "" {}).2.written = Utf8.encode "// Code gene" := by
  have hignored : IgnoreMark.isIn "// marlow:ignore" = true := by decide +kernel
  refine ⟨hignored, (generateTo_delivers narrowWriter _ _ {}).2 hignored rfl, ?_⟩
  have houtput : (generate "a.rs" "" {}).toOption =
      some "// Code generated by marlow from a.rs. DO NOT EDIT.\n" := by decide +kernel
  have h := (generateTo_delivers narrowWriter "a.rs" "" {}).1
  cases hg : generate "a.rs" "" {} with
  | error e => rw [hg] at houtput; cases houtput
  | ok output =>
    rw [hg] at houtput h
    obtain rfl := Option.some.inj houtput
    obtain ⟨result, after, hr, hw, -⟩ := h
    rw [hr, hw]
    decide +kernel

end RecordStore.Companion
