import RecordStore.Proofs.Generation.Needs
import RecordStore.Proofs.Source.World

/-!
What the types of columns mean in a companion, which writes them as they are declared. A path
from an imported name leads where it leads in the source. Of the paths with first names of their
own, those from the root of all names and from the outermost module stay right; one that starts
above leads one level less high.
-/
namespace RecordStore

/-! ### Paths of a type -/

namespace Ty

def rootNames (rooted : Bool) : List String := if rooted then [""] else []

mutual

/-- The paths of a type by their names: those that it is made of, and those of the types among
their arguments. -/
def paths : Ty → List (List String)
  | .reference _ _ t => paths t
  | .parenthesized t => paths t
  | .path rooted ss => (rootNames rooted ++ ss.map Segment.name) :: segmentPaths ss
  | .qualified _ position rooted ss =>
    (rootNames rooted ++ (ss.take position).map Segment.name) :: segmentPaths ss
  | _ => []

def segmentPaths : List Segment → List (List String)
  | [] => []
  | .mk _ (.angled _ as _) :: rest => argumentPaths as ++ segmentPaths rest
  | _ :: rest => segmentPaths rest

def argumentPaths : List Argument → List (List String)
  | [] => []
  | .type t :: rest => paths t ++ argumentPaths rest
  | _ :: rest => argumentPaths rest

end

variable {n : String} {rest : List String}

/-- What the first name of a path has to be for the path to need it. -/
def Needs (n : String) (rest : List String) : Prop :=
  n ∉ World.keywords ∧ ¬(rest = [] ∧ n ∈ preludeNames)

theorem mem_headName {rooted : Bool} {ss : List Segment} (after : List Segment)
    (hn : Needs n rest) (h : rootNames rooted ++ ss.map Segment.name = n :: rest) :
    n ∈ headName rooted (ss ++ after) := by
  obtain ⟨hk, hp⟩ := hn
  simp only [World.keywords, List.mem_cons, List.not_mem_nil, or_false, not_or] at hk
  cases rooted with
  | true =>
    obtain ⟨rfl, -⟩ := List.cons.inj h
    exact absurd rfl hk.1
  | false =>
    cases ss with
    | nil => cases h
    | cons s ss =>
      obtain ⟨rfl, rfl⟩ := List.cons.inj h
      cases hs : ss ++ after with
      | nil =>
        obtain ⟨rfl, rfl⟩ := List.append_eq_nil_iff.mp hs
        have hp : ¬preludeNames.contains s.name = true := by simpa using hp
        simp only [List.cons_append, List.nil_append, headName, if_neg hp, List.mem_singleton]
      | cons t ts => simp [hs, headName, hk.2.1, hk.2.2.1, hk.2.2.2]

mutual

/-- A type needs the first names of all its paths, apart from those that are known everywhere. -/
theorem mem_neededNames (hn : Needs n rest) {ty : Ty} (h : n :: rest ∈ ty.paths) :
    n ∈ ty.neededNames := by
  cases ty with
  | reference l m t =>
    rw [paths] at h
    rw [neededNames]
    exact mem_neededNames hn h
  | parenthesized t =>
    rw [paths] at h
    rw [neededNames]
    exact mem_neededNames hn h
  | path rooted ss =>
    rw [paths, List.mem_cons] at h
    rw [neededNames, List.mem_append]
    refine h.imp (fun h => ?_) (mem_segmentNames hn)
    simpa using mem_headName [] hn h.symm
  | qualified o position rooted ss =>
    rw [paths, List.mem_cons] at h
    rw [neededNames, List.mem_append]
    refine h.imp (fun h => ?_) (mem_segmentNames hn)
    simpa using mem_headName (ss.drop position) hn h.symm
  | _ => simp [paths] at h

theorem mem_segmentNames (hn : Needs n rest) {ss : List Segment}
    (h : n :: rest ∈ segmentPaths ss) : n ∈ segmentNames ss := by
  cases ss with
  | nil => simp [segmentPaths] at h
  | cons s ss =>
    obtain ⟨m, a⟩ := s
    cases a with
    | angled t as trailing =>
      rw [segmentPaths, List.mem_append] at h
      rw [segmentNames, List.mem_append]
      exact h.imp (mem_argumentNames hn) (mem_segmentNames hn)
    | none =>
      rw [segmentPaths] at h
      · rw [segmentNames]
        · exact mem_segmentNames hn h
        · simp
      · simp
    | called is trailing out =>
      rw [segmentPaths] at h
      · rw [segmentNames]
        · exact mem_segmentNames hn h
        · simp
      · simp

theorem mem_argumentNames (hn : Needs n rest) {as : List Argument}
    (h : n :: rest ∈ argumentPaths as) : n ∈ argumentNames as := by
  cases as with
  | nil => simp [argumentPaths] at h
  | cons a as =>
    cases a with
    | type t =>
      rw [argumentPaths, List.mem_append] at h
      rw [argumentNames, List.mem_append]
      exact h.imp (mem_neededNames hn) (mem_argumentNames hn)
    | _ =>
      simp only [argumentPaths] at h
      simp only [argumentNames]
      exact mem_argumentNames hn h

end

end Ty

namespace Companion

variable {u : SourceUnit} {config : Config} {rs : List (Record × RecordCode)}

theorem needs_of_path {g : Record × RecordCode} {c : Column} (hk : g.2.Keeps g.1 config c)
    {n : String} {rest : List String} (hp : n :: rest ∈ c.ty.paths) (hn : Ty.Needs n rest) :
    n ∈ g.2.needs :=
  hk.needs n (Ty.mem_distinctSorted.mpr (Ty.mem_neededNames hn hp))

/-- Types stand in a companion as they are declared, and every first name of their paths that is
not known everywhere is needed. If the source binds it to something that can be carried one level
down, an import carries it, and the path leads where it leads in the source; what the source does
not bind is not imported. A path from the root of all names or from the outermost module leads
there anyway. A path from above leads in the companion where the same path from the source itself
leads. -/
theorem paths_denote {source : String} {file : SourceFile}
    (hf : SourceFile.read? source = some file) (hu : SourceUnit.ofSource source = .ok u)
    (hi : u.isIgnored = false) (h : records u config = .ok rs) {W : World}
    {unit companion : W.Entity}
    (hw : W.Mounted file.items (imports u.scope (rs.map Prod.snd)) unit companion) :
    (∀ name output, generate name source config = .ok output →
      ∃ texts, (rs.map Prod.snd).mapM recordText = .ok texts ∧
        output = header name ++ useBlock (uses u.scope (rs.map Prod.snd)) ++
          String.join (texts.map fun t => "\n" ++ t)) ∧
    (∀ line, line ∈ uses u.scope (rs.map Prod.snd) ↔
      ∃ n p, (n, p) ∈ imports u.scope (rs.map Prod.snd) ∧ p.text = line) ∧
    (∀ g ∈ rs, g.2.body ≠ none → ∀ c ∈ g.1.columns, g.2.Keeps g.1 config c ∧
      ∀ n rest, n :: rest ∈ c.ty.paths → Ty.Needs n rest →
        ∀ b, Scope.binding? file.items n = some b →
          W.Carries (Scope.moduleNames file.items) unit companion b →
          W.lookup companion (n :: rest) = W.lookup unit (n :: rest)) ∧
    (∀ n, Scope.binding? file.items n = none →
      ∀ p, (n, p) ∉ imports u.scope (rs.map Prod.snd)) ∧
    (∀ n ∈ ["", "crate"], ∀ rest, W.lookup companion (n :: rest) = W.lookup unit (n :: rest)) ∧
    ∀ rest, W.lookup companion ("super" :: rest) = W.lookup unit ("self" :: rest) := by
  obtain rfl | ⟨file', hf', -, hs, -⟩ := SourceUnit.ofSource_eq_ok hu
  · cases hi
  obtain rfl : file' = file := Option.some.inj (hf'.symm.trans hf)
  refine ⟨?text, fun _ => mem_uses, ?columns, ?unbound, ?outer, World.lookup_super hw.above⟩
  case text =>
    intro name output hg
    rcases text_of_generate hu h hg with ⟨hi', -⟩ | ht
    · cases hi'.symm.trans hi
    · exact ht
  case columns =>
    intro g hg hb c hc
    obtain ⟨d, -, -, hcode⟩ := declaration_of_mem_records h hg
    have hk := RecordCode.keeps_of_ofRecord hcode hb hc
    refine ⟨hk, fun n rest hp hn b hbn hcarries => ?_⟩
    obtain ⟨hmem, rfl⟩ := Scope.mem_of_binding? hbn
    have himport : (b.name, b.path (Scope.moduleNames file'.items)) ∈
        imports u.scope (rs.map Prod.snd) := by
      refine mem_imports.mpr ⟨⟨g.2, List.mem_map.mpr ⟨g, hg, rfl⟩, needs_of_path hk hp hn⟩, ?_⟩
      rw [hs, Scope.resolve_ofItems, hbn, Option.map_some]
    exact World.lookup_congr (hw.member_eq hmem hn.1 himport hcarries) hn.1 rest
  case unbound =>
    intro n hn p hp
    have hr := (mem_imports.mp hp).2
    rw [hs, Scope.resolve_ofItems, hn] at hr
    cases hr
  case outer =>
    intro n hn rest
    simp only [List.mem_cons, List.not_mem_nil, or_false] at hn
    rcases hn with rfl | rfl <;> simp [World.lookup, World.follow]

/-! ### A world around two sources -/

/-- Places around a source that holds a record of days. -/
inductive DayPlace where
  | package | unit | companion | chrono | date | day
  deriving DecidableEq

/-- The module around the source has the type of dates; `names` are those of the source and of its
companion. -/
def dayWorld (names : String → Option DayPlace) : World where
  Entity := DayPlace
  member
    | .package, n => if n = "NaiveDate" then some .date else none
    | .unit, n => names n
    | .companion, n => names n
    | .chrono, n => if n = "NaiveDate" then some .date else none
    | _, _ => none
  above
    | .companion => some .unit
    | .unit => some .package
    | _ => none
  root := .package
  known n := if n = "chrono" then some .chrono else none
  crates n := if n = "chrono" then some .chrono else none

def dayBindings : List Binding :=
  [.leaf ⟨"NaiveDate", ["chrono", "NaiveDate"], none⟩, .declared "Day"]

theorem mounted_dayWorld {names : String → Option DayPlace} {items : List Item}
    {imports : List (String × UsePath)} (hm : Scope.moduleNames items = [])
    (hb : ∀ b ∈ items.flatMap Item.bindings, b ∈ dayBindings)
    (hn : .leaf ⟨"NaiveDate", ["chrono", "NaiveDate"], none⟩ ∈ items.flatMap Item.bindings →
      names "NaiveDate" = some .date)
    (hd : names "Day" = some .day)
    (hi : ∀ n p, (n, p) ∈ imports → (Scope.ofItems items).resolve n = some p)
    (hc : names "chrono" = none) :
    (dayWorld names).Mounted items imports .unit .companion where
  above := rfl
  modules n hn := by simp [hm] at hn
  declared n hmem := by
    have hmem := hb _ hmem
    simp only [dayBindings, List.mem_cons, List.not_mem_nil, or_false, reduceCtorEq, false_or,
      Binding.declared.injEq] at hmem
    subst hmem
    exact Option.isSome_iff_exists.mpr ⟨_, hd⟩
  leaves l hmem x hx := by
    have hl := hb _ hmem
    simp only [dayBindings, List.mem_cons, List.not_mem_nil, or_false, reduceCtorEq,
      Binding.leaf.injEq] at hl
    subst hl
    rw [← hx]
    refine (hn hmem).trans ?_
    simp [World.imported, World.follow, World.first, World.walk, dayWorld, hc]
  imports n p hnp x hx := by
    obtain ⟨b, hmem, rfl, rfl⟩ := Scope.binding_of_resolve (hi n p hnp)
    have hl := hb _ hmem
    simp only [dayBindings, List.mem_cons, List.not_mem_nil, or_false] at hl
    rw [← hx]
    rcases hl with rfl | rfl
    · refine (hn hmem).trans ?_
      simp [World.imported, World.follow, World.first, World.walk, dayWorld, hc, hm,
        Binding.path, Binding.name, UsePath.descend]
    · refine hd.trans ?_
      simp [World.imported, World.follow, World.climb, World.walk, dayWorld, hd, Binding.path]

/-- The paths in the types of a record's columns. -/
def columnPaths (r : Record) : List (List (List String)) := r.columns.map (·.ty.paths)

theorem body_ne_none {r : Record} {code : RecordCode} (h : RecordCode.ofRecord r config = .ok code)
    (hc : r.capabilities.isEmpty = false) : code.body ≠ none := by
  rcases RecordCode.ofRecord_eq_ok h with ⟨he, -⟩ | ⟨-, ctx, is, -, -, rfl⟩
  · cases he.symm.trans hc
  · exact Option.some_ne_none _

/-- Names in the source of days. -/
def dayNames (n : String) : Option DayPlace :=
  if n = "NaiveDate" then some .date else if n = "Day" then some .day else none

theorem paths_denote_day : ∃ file u rs, SourceFile.read? daySource = some file ∧
    SourceUnit.ofSource daySource = .ok u ∧ records u {} = .ok rs ∧
    ∃ g ∈ rs, ∃ c ∈ g.1.columns, ["NaiveDate"] ∈ c.ty.paths ∧
      (dayWorld dayNames).lookup .companion ["NaiveDate"] =
        (dayWorld dayNames).lookup .unit ["NaiveDate"] := by
  obtain ⟨file, u, rs, hf, hu, hi, hs, hrs, hp⟩ := exists_of_accepts
    (show accepts daySource (fun items rs => Scope.moduleNames items == [] &&
      items.flatMap Item.bindings == dayBindings &&
        rs.map columnPaths == [[[["NaiveDate"]]]] && rs.all (!·.capabilities.isEmpty)) = true
      by decide +kernel)
  simp only [Bool.and_eq_true, beq_iff_eq, List.map_map, List.all_map] at hp
  obtain ⟨⟨⟨hm, hb⟩, hpaths⟩, hc⟩ := hp
  obtain ⟨g, rfl, hg⟩ := List.map_eq_singleton_iff.mp hpaths
  obtain ⟨c, hcol, hcp⟩ := List.map_eq_singleton_iff.mp hg
  have hw : (dayWorld dayNames).Mounted file.items (imports u.scope [g.2]) .unit .companion := by
    refine mounted_dayWorld hm (fun b h => hb ▸ h) (fun _ => rfl) rfl (fun n p h => ?_) rfl
    rw [← hs]
    exact (mem_imports.mp h).2
  obtain ⟨-, -, hcolumns, -⟩ := paths_denote hf hu hi hrs hw
  have hmem : c ∈ g.1.columns := by simp [hcol]
  have hpath : ["NaiveDate"] ∈ c.ty.paths := by simp [hcp]
  obtain ⟨d, -, -, hcode⟩ := declaration_of_mem_records hrs List.mem_cons_self
  have hbody : g.2.body ≠ none := body_ne_none hcode (by simpa using hc)
  refine ⟨file, u, [g], hf, hu, hrs, g, List.mem_cons_self, c, hmem, hpath, ?_⟩
  refine (hcolumns g List.mem_cons_self hbody c hmem).2 "NaiveDate" [] hpath
    ⟨by decide, by decide⟩ (.leaf ⟨"NaiveDate", ["chrono", "NaiveDate"], none⟩) ?_ ⟨rfl, ?_⟩
  · rw [Scope.binding?, hb]
    decide
  · rintro n rest ⟨⟩ -
    rw [hm]
    exact .inr ⟨rfl, rfl⟩

/-- The type comes from above. -/
def aboveSource : String := "struct Day \x7b\n #[marlow = \"\"]\n on: super::NaiveDate\n\x7d"

theorem paths_denote_not_above : ∃ file u rs, SourceFile.read? aboveSource = some file ∧
    SourceUnit.ofSource aboveSource = .ok u ∧ records u {} = .ok rs ∧
    ∃ names : String → Option DayPlace,
      (dayWorld names).Mounted file.items (imports u.scope (rs.map Prod.snd)) .unit .companion ∧
      ∃ g ∈ rs, ∃ c ∈ g.1.columns, ["super", "NaiveDate"] ∈ c.ty.paths ∧ g.2.Keeps g.1 {} c ∧
        (dayWorld names).lookup .unit ["super", "NaiveDate"] = some .date ∧
        (dayWorld names).lookup .companion ["super", "NaiveDate"] = none := by
  obtain ⟨file, u, rs, hf, hu, hi, hs, hrs, hp⟩ := exists_of_accepts
    (show accepts aboveSource (fun items rs => Scope.moduleNames items == [] &&
      items.flatMap Item.bindings == [.declared "Day"] &&
        rs.map columnPaths == [[[["super", "NaiveDate"]]]] &&
          rs.all (!·.capabilities.isEmpty)) = true by decide +kernel)
  simp only [Bool.and_eq_true, beq_iff_eq, List.map_map, List.all_map] at hp
  obtain ⟨⟨⟨hm, hb⟩, hpaths⟩, hc⟩ := hp
  obtain ⟨g, rfl, hg⟩ := List.map_eq_singleton_iff.mp hpaths
  obtain ⟨c, hcol, hcp⟩ := List.map_eq_singleton_iff.mp hg
  have hmem : c ∈ g.1.columns := by simp [hcol]
  obtain ⟨d, -, -, hcode⟩ := declaration_of_mem_records hrs List.mem_cons_self
  have hbody : g.2.body ≠ none := body_ne_none hcode (by simpa using hc)
  refine ⟨file, u, [g], hf, hu, hrs, fun n => if n = "Day" then some .day else none, ?_, g,
    List.mem_cons_self, c, hmem, by simp [hcp], RecordCode.keeps_of_ofRecord hcode hbody hmem,
    rfl, rfl⟩
  refine mounted_dayWorld hm ?_ ?_ rfl (fun n p h => ?_) rfl
  · rw [hb]
    decide
  · intro h
    simp [hb] at h
  · rw [← hs]
    exact (mem_imports.mp h).2

end Companion
end RecordStore
