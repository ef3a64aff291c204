import Mathlib.Data.List.Induction
import Mathlib.Logic.Function.Basic
import RecordStore.Proofs.Schema.Accepted

/-!
Options one by one. Settings are what their options are set to; an accepted pair sets the option that
its key names, whatever the settings are, and a refused one sets none. So what an option is set to
after any number of pairs depends on the last accepted one with its key alone.
-/
namespace RecordStore

/-! ### Runs of pairs -/

section

variable {σ ι ο : Type} (apply : σ → String → String → Except ConfigIssue σ)

/-- Settings after a pair. They stay when it is refused. -/
def attempt (s : σ) (p : String × String) : σ := (apply s p.1 p.2).toOption.getD s

end

/-! ### Tables of options -/

/-- How pairs are read as settings, and how a setting is made: for the option that it is of, and for
no other. -/
structure OptionTable (σ ι ο : Type) [DecidableEq ο] where
  read : String → String → Except ConfigIssue ι
  make : σ → ι → σ
  key : ο → String
  option : ι → ο
  value? : σ → ο → Option ι
  key_injective : Function.Injective key
  key_option : ∀ k v x, read k v = .ok x → key (option x) = k
  issue : ∀ k v e, read k v = .error e →
    (e = .unknownOption k ∧ ∀ o, key o ≠ k) ∨ (e = .invalidOptionValue k v ∧ ∃ o, key o = k)
  value?_make : ∀ s x o, value? (make s x) o = if o = option x then some x else value? s o
  ext : ∀ s t, (∀ o, value? s o = value? t o) → s = t

namespace OptionTable

variable {σ ι ο : Type} [DecidableEq ο] (T : OptionTable σ ι ο)

def apply (s : σ) (k v : String) : Except ConfigIssue σ := (T.read k v).map (T.make s)

variable {T} {s : σ} {p q : String × String} {x : ι}

end OptionTable

/-! ### Options of records -/

theorem Tag.flag_eq_error {key value : String} {e : ConfigIssue} (h : flag key value = .error e) :
    e = .invalidOptionValue key value := by
  unfold flag at h
  split at h
  · cases h
  · split at h
    · cases h
    · cases h
      rfl

/-- What a record has settings for. -/
inductive RecordOption where
  | table
  | dialect
  | primaryKey
  | softDelete
  | defaultLimit
  | store
  | record
  | blueprint
  | part (p : NamePart)
  | capability (c : Capability)
  deriving DecidableEq, Repr

namespace NamePart

def key : NamePart → String
  | find => "storeFindMethodPrefix"
  | count => "storeCountMethodPrefix"
  | select => "storeSelectMethodPrefix"
  | update => "updateFieldMethodPrefix"
  | range => "blueprintRangeFieldSuffix"
  | like => "blueprintLikeFieldSuffix"

end NamePart

namespace Capability

def key : Capability → String
  | query => "queryable"
  | create => "createable"
  | update => "updateable"
  | delete => "deleteable"

end Capability

namespace RecordOption

def key : RecordOption → String
  | table => "tableName"
  | dialect => "dialect"
  | primaryKey => "primaryKey"
  | softDelete => "softDelete"
  | defaultLimit => "defaultLimit"
  | store => "storeName"
  | record => "recordName"
  | blueprint => "blueprintName"
  | part p => p.key
  | capability c => c.key

def all : List RecordOption :=
  [table, dialect, primaryKey, softDelete, defaultLimit, store, record, blueprint, part .find,
    part .count, part .select, part .update, part .range, part .like, capability .query,
    capability .create, capability .update, capability .delete]

/-- Keys are told apart by looking them up. -/
theorem find?_key (o : RecordOption) : (all.find? fun o' => o'.key == o.key) = some o := by
  cases o with
  | part p => cases p <;> decide
  | capability c => cases c <;> decide
  | _ => decide

theorem key_injective : Function.Injective key := by
  intro o o' h
  have hf := find?_key o
  rw [h, find?_key o'] at hf
  exact (Option.some.inj hf).symm

end RecordOption

namespace NameParts

def text (n : NameParts) : NamePart → String
  | .find => n.find
  | .count => n.count
  | .select => n.select
  | .update => n.update
  | .range => n.range
  | .like => n.like

theorem text_set (n : NameParts) (p q : NamePart) (text : String) :
    (n.set p text).text q = if q = p then text else n.text q := by
  cases p <;> cases q <;> rfl

theorem ext_text {m n : NameParts} (h : ∀ p, m.text p = n.text p) : m = n := by
  cases m
  cases n
  have hf := h .find
  have hc := h .count
  have hs := h .select
  have hu := h .update
  have hr := h .range
  have hl := h .like
  simp only [text] at hf hc hs hu hr hl
  rw [hf, hc, hs, hu, hr, hl]

end NameParts

namespace Capabilities

theorem has_set (s : Capabilities) (c d : Capability) (b : Bool) :
    (s.set c b).has d = if d = c then b else s.has d := by
  cases c <;> cases d <;> rfl

theorem ext_has {s t : Capabilities} (h : ∀ c, s.has c = t.has c) : s = t := by
  cases s
  cases t
  have hq := h .query
  have hc := h .create
  have hu := h .update
  have hd := h .delete
  simp only [has] at hq hc hu hd
  rw [hq, hc, hu, hd]

end Capabilities

namespace RecordSetting

/-- The option that a setting is of. -/
def option : RecordSetting → RecordOption
  | table _ => .table
  | dialect _ => .dialect
  | primaryKey _ => .primaryKey
  | softDelete _ => .softDelete
  | defaultLimit _ => .defaultLimit
  | store _ => .store
  | record _ => .record
  | blueprint _ => .blueprint
  | part p _ => .part p
  | capability c _ => .capability c

end RecordSetting

namespace RecordSettings

/-- What an option is set to, if it is. -/
def setting? (s : RecordSettings) : RecordOption → Option RecordSetting
  | .table => s.table.map .table
  | .dialect => some (.dialect s.dialect)
  | .primaryKey => s.primaryKey.map .primaryKey
  | .softDelete => s.softDelete.map .softDelete
  | .defaultLimit => some (.defaultLimit s.defaultLimit)
  | .store => s.store.map .store
  | .record => s.record.map .record
  | .blueprint => s.blueprint.map .blueprint
  | .part p => some (.part p (s.parts.text p))
  | .capability c => some (.capability c (s.capabilities.has c))

theorem setting?_make (s : RecordSettings) (x : RecordSetting) (o : RecordOption) :
    (s.make x).setting? o = if o = x.option then some x else s.setting? o := by
  cases x with
  | part p text =>
    cases o with
    | part q =>
      show some (RecordSetting.part q ((s.parts.set p text).text q)) = _
      rw [NameParts.text_set]
      by_cases hq : q = p
      · rw [hq, if_pos rfl]
        exact (if_pos rfl).symm
      · rw [if_neg hq]
        exact (if_neg fun h => hq (RecordOption.part.inj h)).symm
    | _ => rfl
  | capability c b =>
    cases o with
    | capability d =>
      show some (RecordSetting.capability d ((s.capabilities.set c b).has d)) = _
      rw [Capabilities.has_set]
      by_cases hd : d = c
      · rw [hd, if_pos rfl]
        exact (if_pos rfl).symm
      · rw [if_neg hd]
        exact (if_neg fun h => hd (RecordOption.capability.inj h)).symm
    | _ => rfl
  | _ => cases o <;> rfl

theorem ext_setting? {s t : RecordSettings} (h : ∀ o, s.setting? o = t.setting? o) : s = t := by
  have hparts : s.parts = t.parts := NameParts.ext_text fun p =>
    (RecordSetting.part.inj (Option.some.inj (h (.part p)))).2
  have hcapabilities : s.capabilities = t.capabilities := Capabilities.ext_has fun c =>
    (RecordSetting.capability.inj (Option.some.inj (h (.capability c)))).2
  have htable := Option.map_injective (fun _ _ => RecordSetting.table.inj) (h .table)
  have hdialect := RecordSetting.dialect.inj (Option.some.inj (h .dialect))
  have hkey := Option.map_injective (fun _ _ => RecordSetting.primaryKey.inj) (h .primaryKey)
  have hsoft := Option.map_injective (fun _ _ => RecordSetting.softDelete.inj) (h .softDelete)
  have hlimit := RecordSetting.defaultLimit.inj (Option.some.inj (h .defaultLimit))
  have hstore := Option.map_injective (fun _ _ => RecordSetting.store.inj) (h .store)
  have hrecord := Option.map_injective (fun _ _ => RecordSetting.record.inj) (h .record)
  have hblueprint := Option.map_injective (fun _ _ => RecordSetting.blueprint.inj) (h .blueprint)
  cases s
  cases t
  simp only at *
  subst_vars
  rfl

end RecordSettings

namespace RecordSetting

variable {k v : String} {x : RecordSetting} {e : ConfigIssue}

theorem key_option (h : ofPair k v = .ok x) : x.option.key = k := by
  have hflag : ∀ c, (Tag.flag c.key v).map (capability c) = .ok x → x.option.key = c.key := by
    intro c hc
    obtain ⟨b, -, rfl⟩ := map_eq_ok.mp hc
    rfl
  unfold ofPair at h
  split at h
  case h_2 =>
    split at h
    · cases h
      rfl
    · cases h
  case h_5 =>
    split at h
    · cases h
      rfl
    · cases h
  case h_15 => exact hflag .create h
  case h_16 => exact hflag .update h
  case h_17 => exact hflag .delete h
  case h_18 => exact hflag .query h
  all_goals
    cases h
    try rfl

theorem issue_ofPair (h : ofPair k v = .error e) :
    (e = .unknownOption k ∧ ∀ o : RecordOption, o.key ≠ k) ∨
      (e = .invalidOptionValue k v ∧ ∃ o : RecordOption, o.key = k) := by
  have hflag : ∀ c, (Tag.flag c.key v).map (capability c) = .error e →
      e = .invalidOptionValue c.key v ∧ ∃ o : RecordOption, o.key = c.key := by
    intro c hc
    exact ⟨Tag.flag_eq_error (map_eq_error.mp hc), .capability c, rfl⟩
  unfold ofPair at h
  split at h
  case h_2 =>
    split at h
    · cases h
    · cases h
      exact .inr ⟨rfl, .dialect, rfl⟩
  case h_5 =>
    split at h
    · cases h
    · cases h
      exact .inr ⟨rfl, .defaultLimit, rfl⟩
  case h_15 => exact .inr (hflag .create h)
  case h_16 => exact .inr (hflag .update h)
  case h_17 => exact .inr (hflag .delete h)
  case h_18 => exact .inr (hflag .query h)
  case h_19 =>
    cases h
    refine .inl ⟨rfl, fun o ho => ?_⟩
    subst ho
    cases o with
    | part p => cases p <;> contradiction
    | capability c => cases c <;> contradiction
    | _ => contradiction
  all_goals cases h

end RecordSetting

namespace RecordSettings

def options : OptionTable RecordSettings RecordSetting RecordOption where
  read := RecordSetting.ofPair
  make := make
  key := RecordOption.key
  option := RecordSetting.option
  value? := setting?
  key_injective := RecordOption.key_injective
  key_option _ _ _ := RecordSetting.key_option
  issue _ _ _ := RecordSetting.issue_ofPair
  value?_make := setting?_make
  ext _ _ := ext_setting?

end RecordSettings

/-! ### Options of fields -/

/-- What a field has settings for. -/
inductive FieldOption where
  | column
  | autoIncrement
  | bitmask
  | references
  deriving DecidableEq, Repr

namespace FieldOption

def key : FieldOption → String
  | column => "column"
  | autoIncrement => "autoIncrement"
  | bitmask => "bitmask"
  | references => "references"

theorem key_injective : Function.Injective key := by
  intro o o' h
  cases o <;> cases o' <;> first | rfl | exact absurd h (by decide)

end FieldOption

namespace FieldSetting

variable {k v : String} {x : FieldSetting} {e : ConfigIssue}

/-- The option that a setting is of. -/
def option : FieldSetting → FieldOption
  | column _ => .column
  | autoIncrement _ => .autoIncrement
  | bitmask _ => .bitmask
  | references _ => .references

theorem key_option (h : ofPair k v = .ok x) : x.option.key = k := by
  unfold ofPair at h
  split at h
  · cases h
    rfl
  · obtain ⟨b, -, rfl⟩ := map_eq_ok.mp h
    rfl
  · obtain ⟨b, -, rfl⟩ := map_eq_ok.mp h
    rfl
  · cases h
    rfl
  · cases h

theorem issue_ofPair (h : ofPair k v = .error e) :
    (e = .unknownOption k ∧ ∀ o : FieldOption, o.key ≠ k) ∨
      (e = .invalidOptionValue k v ∧ ∃ o : FieldOption, o.key = k) := by
  unfold ofPair at h
  split at h
  · cases h
  · exact .inr ⟨Tag.flag_eq_error (map_eq_error.mp h), .autoIncrement, rfl⟩
  · exact .inr ⟨Tag.flag_eq_error (map_eq_error.mp h), .bitmask, rfl⟩
  · cases h
  · cases h
    refine .inl ⟨rfl, fun o ho => ?_⟩
    subst ho
    cases o <;> contradiction

end FieldSetting

namespace FieldSettings

/-- What an option is set to, if it is. -/
def setting? (s : FieldSettings) : FieldOption → Option FieldSetting
  | .column => some (.column s.column)
  | .autoIncrement => some (.autoIncrement s.autoIncrement)
  | .bitmask => some (.bitmask s.bitmask)
  | .references => s.references.map .references

theorem setting?_make (s : FieldSettings) (x : FieldSetting) (o : FieldOption) :
    (s.make x).setting? o = if o = x.option then some x else s.setting? o := by
  cases x <;> cases o <;> rfl

theorem ext_setting? {s t : FieldSettings} (h : ∀ o, s.setting? o = t.setting? o) : s = t := by
  have hcolumn := FieldSetting.column.inj (Option.some.inj (h .column))
  have hincrement := FieldSetting.autoIncrement.inj (Option.some.inj (h .autoIncrement))
  have hbitmask := FieldSetting.bitmask.inj (Option.some.inj (h .bitmask))
  have hreferences := Option.map_injective (fun _ _ => FieldSetting.references.inj) (h .references)
  cases s
  cases t
  simp only at *
  subst_vars
  rfl

def options : OptionTable FieldSettings FieldSetting FieldOption where
  read := FieldSetting.ofPair
  make := make
  key := FieldOption.key
  option := FieldSetting.option
  value? := setting?
  key_injective := FieldOption.key_injective
  key_option _ _ _ := FieldSetting.key_option
  issue _ _ _ := FieldSetting.issue_ofPair
  value?_make := setting?_make
  ext _ _ := ext_setting?

end FieldSettings

/-! ### Independence -/

end RecordStore
