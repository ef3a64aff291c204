import Mathlib.Data.List.Basic
import RecordStore.Proofs.Source.World
import RecordStore.Syntax.Reading

/-!
Imports of a file, leaf by leaf as the language reads them, and the paths that a scope writes for
them. One level down a written path is an import that the language takes, it binds the name of its
leaf, and it leads where the leaf leads. Only modules under a new name are written as they stand.
-/
namespace RecordStore

/-! ### Paths that the language takes -/

namespace UsePath

/-- Names without a meaning of their own. -/
def arePlain (names : List String) : Bool := names.all fun n => !World.keywords.contains n

/-- What may follow a first step up. -/
def isAscent : List String → Bool
  | [] => true
  | n :: rest => if n = "super" then isAscent rest else arePlain (n :: rest)

/-- Names with a meaning of their own stand in front, and only steps up follow one another. -/
def isPath : List String → Bool
  | [] => false
  | n :: rest =>
    if n = "" then !rest.isEmpty && arePlain rest
    else if n = "crate" then arePlain rest
    else if n = "self" || n = "super" then isAscent rest
    else arePlain rest

/-- Whether the language takes a path as an import. What has no name of its own needs a new one. -/
def IsLegal (p : UsePath) : Prop :=
  isPath p.segments = true ∧ ∀ n, p.boundName? = some n → n ∉ World.keywords

/-- How the path of a file's import is written one level down. -/
structure Descends (modules target segments : List String) : Prop where
  itself : ∀ rest, target = "self" :: rest → segments = "super" :: rest
  inside : ∀ m ∈ modules, ∀ rest, target = m :: rest → segments = "super" :: m :: rest
  above : ∀ rest, target = "super" :: rest → segments = "super" :: "super" :: rest
  elsewhere : ∀ m rest, target = m :: rest → m ≠ "self" → m ≠ "super" → m ∉ modules →
    segments = target

variable {modules segments : List String}

theorem descend_of_ne {n : String} {rest : List String} (hself : n ≠ "self")
    (hsuper : n ≠ "super") : descend modules (n :: rest) =
      if modules.contains n then "super" :: n :: rest else n :: rest := by
  unfold descend
  split <;> simp_all

theorem descends_descend (hm : ∀ n ∈ modules, n ∉ World.keywords) (target : List String) :
    Descends modules target (descend modules target) where
  itself := by
    rintro rest rfl
    rfl
  inside := by
    rintro m hmem rest rfl
    have hk := hm m hmem
    rw [descend_of_ne (by rintro rfl; exact hk (by decide)) (by rintro rfl; exact hk (by decide)),
      if_pos (List.contains_iff_mem.mpr hmem)]
  above := by
    rintro rest rfl
    rfl
  elsewhere := by
    rintro m rest rfl hself hsuper hmem
    rw [descend_of_ne hself hsuper, if_neg (by simpa using hmem)]

/-- Written one level down, a path is one exactly if it was one. -/
theorem isPath_descend (hm : ∀ n ∈ modules, n ∉ World.keywords) (segments : List String) :
    isPath (descend modules segments) = isPath segments := by
  cases segments with
  | nil => rfl
  | cons n rest =>
    by_cases hself : n = "self"
    · subst hself
      rfl
    by_cases hsuper : n = "super"
    · subst hsuper
      rfl
    rw [descend_of_ne hself hsuper]
    split
    next hmem =>
      have hk := hm n (List.contains_iff_mem.mp hmem)
      have hr : isPath ("super" :: n :: rest) = arePlain (n :: rest) := by
        simp [isPath, isAscent, hsuper]
      rw [hr]
      simp only [World.keywords, List.mem_cons, List.not_mem_nil, or_false, not_or] at hk
      simp [isPath, arePlain, World.keywords, hk]
    next => rfl

/-- A path binds the same name one level down, unless it needs a new one. -/
theorem boundName?_descend {newName : Option String} {n : String}
    (h : (⟨segments, newName⟩ : UsePath).boundName? = some n) (hn : n ≠ "self") :
    (⟨descend modules segments, newName⟩ : UsePath).boundName? = some n := by
  cases newName with
  | some a => exact h
  | none =>
    have h : segments.getLast? = some n := h
    refine (getLast?_descend modules ?_).trans h
    rintro rfl
    exact hn (Option.some.inj h).symm

theorem IsLegal.descend {newName : Option String} (h : (⟨segments, newName⟩ : UsePath).IsLegal)
    (hm : ∀ n ∈ modules, n ∉ World.keywords) :
    (⟨UsePath.descend modules segments, newName⟩ : UsePath).IsLegal := by
  obtain ⟨hp, hk⟩ := h
  refine ⟨(isPath_descend hm segments).trans hp, fun n hn => ?_⟩
  obtain ⟨o, ho⟩ : ∃ o, (⟨segments, newName⟩ : UsePath).boundName? = some o := by
    cases newName with
    | some a => exact ⟨a, rfl⟩
    | none =>
      cases segments with
      | nil => cases hp
      | cons s rest => exact ⟨_, List.getLast?_eq_some_getLast (List.cons_ne_nil s rest)⟩
  have hself : o ≠ "self" := by
    rintro rfl
    exact hk _ ho (by decide)
  obtain rfl : o = n := Option.some.inj ((boundName?_descend ho hself).symm.trans hn)
  exact hk o ho

end UsePath

/-! ### Leaves as the language reads them -/

/-- A leaf of an import, by the names from the import's start to it. -/
structure UseLeaf where
  names : List String
  newName : Option String
  deriving DecidableEq, Repr

namespace UseLeaf

def under (n : String) (l : UseLeaf) : UseLeaf := { l with names := n :: l.names }

/-- The path to what a leaf brings in. Behind other names, `self` is what they lead to. -/
def target (l : UseLeaf) : List String :=
  if l.names.dropLast ≠ [] ∧ l.names.getLast? = some "self" then l.names.dropLast else l.names

/-- An import of its own for a leaf. -/
def path (l : UseLeaf) : UsePath := ⟨l.target, l.newName⟩

/-- A module that is brought in as `self` under a new name. -/
def RenamesSelf (l : UseLeaf) : Prop :=
  l.newName.isSome = true ∧ l.names.dropLast ≠ [] ∧ l.names.getLast? = some "self"

/-- What a scope makes of a leaf. Only one without a new name is freed from `self`. -/
def scoped? (l : UseLeaf) : Option Scope.Leaf :=
  match l.newName with
  | some a => some ⟨a, l.names, some a⟩
  | none =>
    let names := if l.names.getLast? = some "self" then l.names.dropLast else l.names
    names.getLast?.map (⟨·, names, none⟩)

theorem boundName?_path {l : UseLeaf} (h : l.newName = none) :
    l.path.boundName? = l.target.getLast? := by
  simp [UsePath.boundName?, path, h]

theorem target_of_not_renamesSelf {l : UseLeaf} (h : ¬l.RenamesSelf) {a : String}
    (ha : l.newName = some a) : l.target = l.names := by
  refine if_neg fun hs => h ⟨?_, hs⟩
  rw [ha, Option.isSome_some]

/-- A leaf that binds a name enters its path under that name. -/
theorem scoped?_eq_some {l : UseLeaf} {n : String} (h : l.path.boundName? = some n)
    (hn : n ≠ "self") (hr : ¬l.RenamesSelf) : l.scoped? = some ⟨n, l.target, l.newName⟩ := by
  cases ha : l.newName with
  | some a =>
    have hb : l.path.boundName? = some a := by simp [UsePath.boundName?, path, ha]
    obtain rfl : a = n := Option.some.inj (hb.symm.trans h)
    simp [scoped?, ha, target_of_not_renamesSelf hr ha]
  | none =>
    have hb : l.target.getLast? = some n := (boundName?_path ha).symm.trans h
    have ht : (if l.names.getLast? = some "self" then l.names.dropLast else l.names) =
        l.target := by
      unfold target
      by_cases hs : l.names.getLast? = some "self"
      · have hd : l.names.dropLast ≠ [] := by
          intro hd
          have he : l.target = l.names := if_neg fun h => h.1 hd
          rw [he, hs] at hb
          exact hn (Option.some.inj hb).symm
        rw [if_pos hs, if_pos ⟨hd, hs⟩]
      · rw [if_neg hs, if_neg fun h => hs h.2]
    simp only [scoped?, ha, ht, hb, Option.map_some]

/-- A leaf is entered under the name that it binds, and only under that. -/
theorem name_of_scoped? {l : UseLeaf} {e : Scope.Leaf} (h : l.scoped? = some e) :
    l.path.boundName? = some e.name := by
  unfold scoped? at h
  split at h
  next a ha =>
    cases h
    simp [UsePath.boundName?, path, ha]
  next ha =>
    obtain ⟨n, hn, rfl⟩ := Option.map_eq_some_iff.mp h
    rw [boundName?_path ha, target]
    split at hn
    next hs =>
      have hd : l.names.dropLast ≠ [] := by
        intro hd
        rw [hd] at hn
        cases hn
      rwa [if_pos ⟨hd, hs⟩]
    next hs => rwa [if_neg fun h => hs h.2]

end UseLeaf

mutual

/-- The leaves of an import, in order. Imports of everything have none. -/
def UseTree.leaves : UseTree → List UseLeaf
  | .path n t => t.leaves.map (UseLeaf.under n)
  | .name n => [⟨[n], none⟩]
  | .rename n a => [⟨[n], some a⟩]
  | .glob => []
  | .group ts _ => UseTree.groupLeaves ts

def UseTree.groupLeaves : List UseTree → List UseLeaf
  | [] => []
  | t :: ts => t.leaves ++ UseTree.groupLeaves ts

end

/-- What binds a name in a file: a leaf of an import, or the declaration of a type. -/
inductive Binder where
  | leaf (l : UseLeaf)
  | declared (name : String)
  deriving DecidableEq, Repr

namespace Binder

def name? : Binder → Option String
  | leaf l => l.path.boundName?
  | declared n => some n

def binding? : Binder → Option Binding
  | leaf l => l.scoped?.map .leaf
  | declared n => some (.declared n)

theorem name_of_binding? {b : Binder} {c : Binding} (h : b.binding? = some c) :
    b.name? = some c.name := by
  cases b with
  | declared n =>
    cases h
    rfl
  | leaf l =>
    obtain ⟨e, he, rfl⟩ := Option.map_eq_some_iff.mp h
    exact UseLeaf.name_of_scoped? he

end Binder

def Item.binders (i : Item) : List Binder :=
  match i.form with
  | .use rooted tree => tree.leaves.map fun l => .leaf (if rooted then l.under "" else l)
  | .struct s => [.declared s.name]
  | .enum n => [.declared n]
  | .typeName n _ => [.declared n]
  | _ => []

namespace Scope

/-! ### Leaves as scopes take them -/

/-- A leaf behind some names. -/
def scopedAfter? (before : List String) (l : UseLeaf) : Option Leaf :=
  UseLeaf.scoped? ⟨before ++ l.names, l.newName⟩

mutual

theorem leaves_eq (before : List String) (tree : UseTree) :
    leaves before tree = tree.leaves.filterMap (scopedAfter? before) := by
  cases tree with
  | path n t =>
    have hu : scopedAfter? before ∘ UseLeaf.under n = scopedAfter? (before ++ [n]) := by
      funext l
      simp [scopedAfter?, UseLeaf.under]
    rw [leaves, UseTree.leaves, List.filterMap_map, hu]
    exact leaves_eq (before ++ [n]) t
  | name n =>
    rw [leaves, UseTree.leaves]
    by_cases hn : n = "self"
    · cases hb : before.getLast? <;> simp [scopedAfter?, UseLeaf.scoped?, hn, hb]
    · simp [scopedAfter?, UseLeaf.scoped?, hn]
  | rename n a => simp [leaves, UseTree.leaves, scopedAfter?, UseLeaf.scoped?]
  | glob => rfl
  | group ts trailing =>
    rw [leaves, UseTree.leaves]
    exact groupLeaves_eq before ts

theorem groupLeaves_eq (before : List String) (trees : List UseTree) :
    groupLeaves before trees = (UseTree.groupLeaves trees).filterMap (scopedAfter? before) := by
  cases trees with
  | nil => rfl
  | cons t ts =>
    rw [groupLeaves, UseTree.groupLeaves, List.filterMap_append, leaves_eq before t,
      groupLeaves_eq before ts]

end

theorem bindings_eq (i : Item) : i.bindings = i.binders.filterMap Binder.binding? := by
  unfold Item.bindings Item.binders
  cases i.form with
  | use rooted tree =>
    dsimp only
    rw [leaves_eq, List.map_filterMap, List.filterMap_map]
    cases rooted <;> rfl
  | _ => rfl

variable {items : List Item} {n : String}

/-- Whether something binds a name, and nothing after it does. -/
def IsLast (items : List Item) (n : String) (b : Binder) : Prop :=
  b.name? = some n ∧ ∃ before after, items.flatMap Item.binders = before ++ b :: after ∧
    ∀ c ∈ after, c.name? ≠ some n

theorem flatMap_bindings (items : List Item) : items.flatMap Item.bindings =
    (items.flatMap Item.binders).filterMap Binder.binding? := by
  rw [List.filterMap_flatMap]
  exact List.flatMap_congr fun i _ => bindings_eq i

/-- The last that binds a name is what the name stands for. -/
theorem binding?_of_isLast {b : Binder} {c : Binding} (h : IsLast items n b)
    (hc : b.binding? = some c) : binding? items n = some c := by
  obtain ⟨hn, before, after, hs, ha⟩ := h
  have hname : c.name = n := Option.some.inj ((Binder.name_of_binding? hc).symm.trans hn)
  have hafter : (after.filterMap Binder.binding?).reverse.find? (·.name == n) = none := by
    refine List.find?_eq_none.mpr fun d hd hdn => ?_
    obtain ⟨e, he, hed⟩ := List.mem_filterMap.mp (List.mem_reverse.mp hd)
    exact ha e he ((Binder.name_of_binding? hed).trans (congrArg some (eq_of_beq hdn)))
  rw [binding?, flatMap_bindings, hs, List.filterMap_append, List.filterMap_cons_some hc,
    List.reverse_append, List.reverse_cons, List.append_assoc, List.find?_append, hafter,
    Option.none_or, List.singleton_append, List.find?_cons_of_pos (by simpa using hname)]

theorem resolve_eq_none (h : ∀ b ∈ items.flatMap Item.binders, b.name? ≠ some n) :
    (ofItems items).resolve n = none := by
  have hb : binding? items n = none := by
    refine List.find?_eq_none.mpr fun c hc hcn => ?_
    rw [List.mem_reverse, flatMap_bindings] at hc
    obtain ⟨b, hb, hbc⟩ := List.mem_filterMap.mp hc
    exact h b hb ((Binder.name_of_binding? hbc).trans (congrArg some (eq_of_beq hcn)))
  rw [resolve_ofItems, hb, Option.map_none]

/-- A leaf that is the last to bind its name is written one level down. -/
theorem resolve_of_isLast {l : UseLeaf} (h : IsLast items n (.leaf l)) (hn : n ≠ "self")
    (hr : ¬l.RenamesSelf) : (ofItems items).resolve n =
      some ⟨UsePath.descend (moduleNames items) l.target, l.newName⟩ := by
  have he : l.scoped? = some ⟨n, l.target, l.newName⟩ := UseLeaf.scoped?_eq_some h.1 hn hr
  have hc : (Binder.leaf l).binding? = some (.leaf ⟨n, l.target, l.newName⟩) := by
    rw [Binder.binding?, he, Option.map_some]
  rw [resolve_ofItems, binding?_of_isLast h hc]
  rfl

end Scope

/-! ### Where imports lead -/

namespace World

variable (W : World)

/-- What nothing in either of two modules is called. -/
def IsExternal (unit child : W.Entity) (n : String) : Prop :=
  W.first unit n = W.known n ∧ W.first child n = W.known n

/-- What an import under a name brings into a module in which some modules are declared. Its own
name does not count for it, unless one of these modules is called so. -/
def brings (m : W.Entity) (modules : List String) (name : String) (path : List String) :
    Option W.Entity :=
  W.follow (fun n =>
    if n ∈ modules then W.member m n else if n = name then W.known n else W.first m n) m path

variable {W} {unit child : W.Entity} {modules : List String}

theorem imported_descend {name : String} {target : List String} (ha : W.above child = some unit)
    (hk : ∀ n ∈ modules, n ∉ keywords)
    (he : ∀ n rest, target = n :: rest → n ∉ keywords → n ∉ modules → n ≠ name →
      W.IsExternal unit child n) :
    W.imported child name (UsePath.descend modules target) = W.brings unit modules name target := by
  refine follow_descend ha hk fun n rest ht hn => ?_
  split
  next => rfl
  next hmem =>
    by_cases hname : n = name
    · rw [if_pos hname, if_pos hname]
    · obtain ⟨hu, hc⟩ := he n rest ht hn hmem hname
      rw [if_neg hname, if_neg hname, hu, hc]

end World

namespace UsePath

theorem isAscent_of_self_mem {names : List String} (h : "self" ∈ names) :
    isAscent names = false := by
  induction names with
  | nil => cases h
  | cons n rest ih =>
    rw [isAscent]
    split
    next hn =>
      refine ih ((List.mem_cons.mp h).resolve_left ?_)
      rintro rfl
      exact absurd hn (by decide)
    next =>
      refine List.all_eq_false.mpr ⟨"self", h, ?_⟩
      decide

/-- Behind other names `self` makes no path. -/
theorem isPath_of_self_mem {n : String} {rest : List String} (h : "self" ∈ rest) :
    isPath (n :: rest) = false := by
  have hp : arePlain rest = false := by
    refine List.all_eq_false.mpr ⟨"self", h, ?_⟩
    decide
  simp [isPath, hp, isAscent_of_self_mem h]

end UsePath

namespace Scope

/-- Of what binds a name in a file the last counts. A leaf of an import is written as a path that
the language takes one level down, that binds the name of the leaf, and that leads from there where
the leaf leads from the file; its first name has to be a keyword, a module of the file, or
something that nothing in either module is called. Only a module that is brought in as `self` under
a new name keeps that word behind its path, which the language does not take. -/
theorem resolve_denotes (file : SourceFile)
    (hm : ∀ n ∈ moduleNames file.items, n ∉ World.keywords) (n : String) :
    (∀ l, IsLast file.items n (.leaf l) → l.path.IsLegal → ¬l.RenamesSelf →
      ∃ p, (ofItems file.items).resolve n = some p ∧ p.IsLegal ∧ p.boundName? = some n ∧
        p.newName = l.newName ∧
        UsePath.Descends (moduleNames file.items) l.target p.segments ∧
        ∀ (W : World) (unit child : W.Entity), W.above child = some unit →
          (∀ m rest, l.target = m :: rest → m ∉ World.keywords →
            m ∉ moduleNames file.items → m ≠ n → W.IsExternal unit child m) →
          W.imported child n p.segments = W.brings unit (moduleNames file.items) n l.target) ∧
    (∀ l, IsLast file.items n (.leaf l) → l.path.IsLegal → l.RenamesSelf →
      ∃ p, (ofItems file.items).resolve n = some p ∧
        p.segments = UsePath.descend (moduleNames file.items) l.names ∧ ¬p.IsLegal) ∧
    (n ∉ World.keywords → IsLast file.items n (.declared n) →
      (ofItems file.items).resolve n = some ⟨["super", n], none⟩) ∧
    ((∀ b ∈ file.items.flatMap Item.binders, b.name? ≠ some n) →
      (ofItems file.items).resolve n = none) := by
  refine ⟨?leaf, ?renamed, ?declared, resolve_eq_none⟩
  case leaf =>
    intro l hl hp hr
    have hb : l.path.boundName? = some n := hl.1
    have hself : n ≠ "self" := by
      rintro rfl
      exact hp.2 _ hb (by decide)
    exact ⟨_, resolve_of_isLast hl hself hr, hp.descend hm, UsePath.boundName?_descend hb hself,
      rfl, UsePath.descends_descend hm l.target,
      fun W unit child ha he => World.imported_descend ha hm he⟩
  case renamed =>
    intro l hl _ hr
    obtain ⟨ha, hd, hs⟩ := hr
    obtain ⟨a, ha⟩ := Option.isSome_iff_exists.mp ha
    have hn : a = n := by
      have hb : l.path.boundName? = some n := hl.1
      simpa [UsePath.boundName?, UseLeaf.path, ha] using hb
    have he : (Binder.leaf l).binding? = some (.leaf ⟨a, l.names, some a⟩) := by
      simp [Binder.binding?, UseLeaf.scoped?, ha]
    refine ⟨⟨UsePath.descend (moduleNames file.items) l.names, some a⟩, ?_, rfl, fun hp => ?_⟩
    · rw [resolve_ofItems, binding?_of_isLast hl he]
      rfl
    · have hp : UsePath.isPath (UsePath.descend (moduleNames file.items) l.names) = true := hp.1
      rw [UsePath.isPath_descend hm] at hp
      cases hnames : l.names with
      | nil => simp [hnames] at hs
      | cons m rest =>
        cases rest with
        | nil => simp [hnames] at hd
        | cons o rest =>
          rw [hnames, List.getLast?_cons_cons] at hs
          rw [hnames, UsePath.isPath_of_self_mem (List.mem_of_getLast? hs)] at hp
          cases hp
  case declared =>
    intro _ hl
    rw [resolve_ofItems, binding?_of_isLast hl rfl]
    rfl

/-! ### Three leaves -/

/-- Places around a file with a module of keys. -/
inductive KeyPlace where
  | package | unit | child | ids | id
  deriving DecidableEq

def keyWorld : World where
  Entity := KeyPlace
  member
    | .unit, n => if n = "ids" then some .ids else none
    | .ids, n => if n = "Id" then some .id else none
    | _, _ => none
  above
    | .child => some .unit
    | .unit => some .package
    | _ => none
  root := .package
  known _ := none
  crates _ := none

def keySource : String :=
  "mod ids;\nuse \x7bids::Id as Key, std::io::\x7bself, Write\x7d, super::Money\x7d;"

def keyBinders : List Binder :=
  [.leaf ⟨["ids", "Id"], some "Key"⟩, .leaf ⟨["std", "io", "self"], none⟩,
    .leaf ⟨["std", "io", "Write"], none⟩, .leaf ⟨["super", "Money"], none⟩]

theorem resolve_denotes_key : ∃ file, SourceFile.read? keySource = some file ∧
    (ofItems file.items).resolve "io" = some ⟨["std", "io"], none⟩ ∧
    (ofItems file.items).resolve "Money" = some ⟨["super", "super", "Money"], none⟩ ∧
    ∃ p, (ofItems file.items).resolve "Key" = some p ∧ p.IsLegal ∧ p.boundName? = some "Key" ∧
      keyWorld.imported .child "Key" p.segments = some .id := by
  have hread : (SourceFile.read? keySource).any (fun file =>
      moduleNames file.items == ["ids"] && file.items.flatMap Item.binders == keyBinders) = true := by
    decide +kernel
  obtain ⟨file, hf, h⟩ := (Option.any_eq_true _ _).mp hread
  simp only [Bool.and_eq_true, beq_iff_eq] at h
  obtain ⟨hmod, hb⟩ := h
  have hm : ∀ n ∈ moduleNames file.items, n ∉ World.keywords := by
    rw [hmod]
    decide
  have hlast {n : String} (before : List Binder) (l : UseLeaf) (after : List Binder)
      (hs : keyBinders = before ++ .leaf l :: after) (hn : l.path.boundName? = some n)
      (ha : ∀ c ∈ after, c.name? ≠ some n) : IsLast file.items n (.leaf l) :=
    ⟨hn, before, after, hb.trans hs, ha⟩
  refine ⟨file, hf, ?_, ?_, ?_⟩
  · have hl := hlast (n := "io") [.leaf ⟨["ids", "Id"], some "Key"⟩] ⟨["std", "io", "self"], none⟩
      [.leaf ⟨["std", "io", "Write"], none⟩, .leaf ⟨["super", "Money"], none⟩] rfl rfl (by decide)
    obtain ⟨⟨segments, newName⟩, hp, -, -, rfl, hd, -⟩ := (resolve_denotes file hm "io").1 _ hl
      ⟨by decide, by decide⟩ (by simp [UseLeaf.RenamesSelf])
    have hs : segments = ["std", "io"] :=
      hd.elsewhere "std" ["io"] rfl (by decide) (by decide) (by rw [hmod]; decide)
    rw [hp, hs]
  · have hl := hlast (n := "Money") [.leaf ⟨["ids", "Id"], some "Key"⟩,
      .leaf ⟨["std", "io", "self"], none⟩, .leaf ⟨["std", "io", "Write"], none⟩]
      ⟨["super", "Money"], none⟩ [] rfl rfl (by decide)
    obtain ⟨⟨segments, newName⟩, hp, -, -, rfl, hd, -⟩ := (resolve_denotes file hm "Money").1 _ hl
      ⟨by decide, by decide⟩ (by simp [UseLeaf.RenamesSelf])
    have hs : segments = ["super", "super", "Money"] := hd.above ["Money"] rfl
    rw [hp, hs]
  · have hl := hlast (n := "Key") [] ⟨["ids", "Id"], some "Key"⟩
      [.leaf ⟨["std", "io", "self"], none⟩, .leaf ⟨["std", "io", "Write"], none⟩,
        .leaf ⟨["super", "Money"], none⟩] rfl rfl (by decide)
    obtain ⟨p, hp, hlegal, hn, -, -, hw⟩ := (resolve_denotes file hm "Key").1 _ hl
      ⟨by decide, by decide⟩ (by simp [UseLeaf.RenamesSelf])
    refine ⟨p, hp, hlegal, hn, (hw keyWorld .unit .child rfl ?_).trans ?_⟩
    · rintro m rest ht - hmem -
      obtain ⟨rfl, -⟩ := List.cons.inj ht
      exact absurd (by rw [hmod]; decide) hmem
    · rw [hmod]
      rfl

/-- A module under a new name. -/
def stdioSource : String := "use std::io::\x7bself as stdio\x7d;"

theorem resolve_not_legal : ∃ file l p, SourceFile.read? stdioSource = some file ∧
    IsLast file.items "stdio" (.leaf l) ∧ l.path.IsLegal ∧ l.target = ["std", "io"] ∧
    (ofItems file.items).resolve "stdio" = some p ∧ p.text = "std::io::self as stdio" ∧
    ¬p.IsLegal := by
  have hread : (SourceFile.read? stdioSource).any (fun file =>
      file.items.flatMap Item.binders == [.leaf ⟨["std", "io", "self"], some "stdio"⟩] &&
        (ofItems file.items).resolve "stdio" == some ⟨["std", "io", "self"], some "stdio"⟩) =
      true := by
    decide +kernel
  obtain ⟨file, hf, h⟩ := (Option.any_eq_true _ _).mp hread
  simp only [Bool.and_eq_true, beq_iff_eq] at h
  obtain ⟨hb, hp⟩ := h
  refine ⟨file, ⟨["std", "io", "self"], some "stdio"⟩, _, hf, ⟨rfl, [], [], hb, by decide⟩,
    ⟨by decide, by decide⟩, by decide, hp, by decide +kernel, fun hl => ?_⟩
  exact absurd hl.1 (by decide)

end Scope
end RecordStore
