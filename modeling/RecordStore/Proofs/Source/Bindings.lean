import RecordStore.Source.Scope

/-!
What a file binds, item by item. Of several bindings of one name the last counts, and every path
is imported under the name that it is bound to.
-/
namespace RecordStore

namespace UsePath

/-- The name that an import brings in. -/
def boundName? (p : UsePath) : Option String := p.newName <|> p.segments.getLast?

/-- A path ends alike from one level down, unless it is the module itself. -/
theorem getLast?_descend (modules : List String) {segments : List String}
    (h : segments ≠ ["self"]) : (descend modules segments).getLast? = segments.getLast? := by
  unfold descend
  split
  next rest =>
    cases rest with
    | nil => exact absurd rfl h
    | cons s rest => simp
  next => simp
  next => split <;> simp
  next => rfl

end UsePath

/-- What a name of a file stands for: a leaf of an import, or a type that the file declares. -/
inductive Binding where
  | leaf (l : Scope.Leaf)
  | declared (name : String)
  deriving DecidableEq, Repr

namespace Binding

def name : Binding → String
  | leaf l => l.name
  | declared n => n

/-- How a module one level down imports the name. -/
def path (modules : List String) : Binding → UsePath
  | leaf l => ⟨UsePath.descend modules l.segments, l.newName⟩
  | declared n => ⟨["super", n], none⟩

end Binding

def Item.bindings (i : Item) : List Binding :=
  match i.form with
  | .use rooted tree => (Scope.leaves (if rooted then [""] else []) tree).map .leaf
  | .struct s => [.declared s.name]
  | .enum n => [.declared n]
  | .typeName n _ => [.declared n]
  | _ => []

namespace Scope

/-! ### The last binding counts -/

theorem lookup_bind {α : Type} (n name : String) (a : α) (entries : List (String × α)) :
    (bind name a entries).lookup n = if name == n then some a else entries.lookup n := by
  unfold bind
  induction entries with
  | nil =>
    rw [List.filter_nil, List.nil_append, List.lookup_cons, BEq.comm]
    cases name == n <;> rfl
  | cons e entries ih =>
    obtain ⟨m, b⟩ := e
    rw [List.filter_cons, List.lookup_cons]
    cases hm : m != name with
    | true =>
      rw [if_pos rfl, List.cons_append, List.lookup_cons, ih]
      cases hn : n == m with
      | true =>
        obtain rfl := eq_of_beq hn
        have hne : (name == n) = false := by
          rw [BEq.comm]
          simpa [bne] using hm
        simp [hne]
      | false => rfl
    | false =>
      obtain rfl : m = name := by simpa [bne] using hm
      rw [if_neg Bool.false_ne_true, ih, BEq.comm]
      cases n == m <;> rfl

/-- Add a binding to those before it. -/
def enter (modules : List String) (entries : List (String × UsePath)) (b : Binding) :
    List (String × UsePath) :=
  bind b.name (b.path modules) entries

theorem paths_addItem (modules : List String) (s : Scope) (i : Item) :
    (addItem modules s i).paths = i.bindings.foldl (enter modules) s.paths := by
  have hl (ls : List Leaf) (s : Scope) : (ls.foldl (addLeaf modules) s).paths =
      (ls.map Binding.leaf).foldl (enter modules) s.paths := by
    induction ls generalizing s with
    | nil => rfl
    | cons l ls ih => exact ih (addLeaf modules s l)
  unfold addItem Item.bindings
  cases i.form with
  | use rooted tree => exact hl _ s
  | typeName n ty =>
    dsimp only
    split <;> rfl
  | _ => rfl

theorem paths_ofItems (items : List Item) : (ofItems items).paths =
    (items.flatMap Item.bindings).foldl (enter (moduleNames items)) [] := by
  have h (is : List Item) (s : Scope) : (is.foldl (addItem (moduleNames items)) s).paths =
      (is.flatMap Item.bindings).foldl (enter (moduleNames items)) s.paths := by
    induction is generalizing s with
    | nil => rfl
    | cons i is ih =>
      rw [List.foldl_cons, ih, paths_addItem, List.flatMap_cons, List.foldl_append]
  exact h items empty

theorem lookup_enter (modules : List String) (bs : List Binding)
    (entries : List (String × UsePath)) (n : String) :
    (bs.foldl (enter modules) entries).lookup n =
      ((bs.reverse.find? (·.name == n)).map (Binding.path modules)).or (entries.lookup n) := by
  induction bs generalizing entries with
  | nil => rfl
  | cons b bs ih =>
    rw [List.foldl_cons, ih, enter, lookup_bind, List.reverse_cons, List.find?_append,
      List.find?_singleton]
    cases bs.reverse.find? (·.name == n) with
    | some c => rfl
    | none => cases b.name == n <;> rfl

/-- What a name of a file stands for. -/
def binding? (items : List Item) (n : String) : Option Binding :=
  (items.flatMap Item.bindings).reverse.find? (·.name == n)

theorem mem_of_binding? {items : List Item} {n : String} {b : Binding}
    (h : binding? items n = some b) : b ∈ items.flatMap Item.bindings ∧ b.name = n := by
  have hn := List.find?_some h
  exact ⟨List.mem_reverse.mp (List.mem_of_find?_eq_some h), eq_of_beq hn⟩

/-- What a name of a file resolves to. -/
theorem resolve_ofItems (items : List Item) (n : String) : (ofItems items).resolve n =
    (binding? items n).map (Binding.path (moduleNames items)) := by
  rw [resolve, paths_ofItems, lookup_enter]
  exact Option.or_none

theorem binding_of_resolve {items : List Item} {n : String} {p : UsePath}
    (h : (ofItems items).resolve n = some p) :
    ∃ b ∈ items.flatMap Item.bindings, b.name = n ∧ b.path (moduleNames items) = p := by
  rw [resolve_ofItems] at h
  obtain ⟨b, hb, rfl⟩ := Option.map_eq_some_iff.mp h
  exact ⟨b, (mem_of_binding? hb).1, (mem_of_binding? hb).2, rfl⟩

/-! ### Leaves have the names that they bind -/

/-- A leaf has its new name, or else that of its last segment. -/
def Leaf.IsNamed (l : Leaf) : Prop := (l.newName <|> l.segments.getLast?) = some l.name

mutual

theorem isNamed_leaves {tree : UseTree} {before : List String} {l : Leaf}
    (h : l ∈ leaves before tree) : l.IsNamed := by
  cases tree with
  | path n t =>
    have h : l ∈ leaves (before ++ [n]) t := by simpa [leaves] using h
    exact isNamed_leaves h
  | name n =>
    rw [leaves] at h
    split at h
    · split at h
      next last hl =>
        obtain rfl := List.mem_singleton.mp h
        exact hl
      next => cases h
    · obtain rfl := List.mem_singleton.mp h
      simp [Leaf.IsNamed]
  | rename n a =>
    rw [leaves] at h
    obtain rfl := List.mem_singleton.mp h
    rfl
  | glob =>
    rw [leaves] at h
    cases h
  | group ts trailing =>
    have h : l ∈ groupLeaves before ts := by simpa [leaves] using h
    exact isNamed_groupLeaves h

theorem isNamed_groupLeaves {trees : List UseTree} {before : List String} {l : Leaf}
    (h : l ∈ groupLeaves before trees) : l.IsNamed := by
  cases trees with
  | nil =>
    rw [groupLeaves] at h
    cases h
  | cons t ts =>
    rw [groupLeaves] at h
    rcases List.mem_append.mp h with h | h
    · exact isNamed_leaves h
    · exact isNamed_groupLeaves h

end

theorem isNamed_of_mem_bindings {items : List Item} {l : Leaf}
    (h : .leaf l ∈ items.flatMap Item.bindings) : l.IsNamed := by
  obtain ⟨i, -, h⟩ := List.mem_flatMap.mp h
  unfold Item.bindings at h
  split at h
  · obtain ⟨l', hl, rfl⟩ : ∃ l', l' ∈ _ ∧ l' = l := by simpa using h
    exact isNamed_leaves hl
  all_goals simp at h

/-- A path brings in the name that it is bound to, unless it leads to the file itself. -/
theorem boundName?_of_resolve {items : List Item} {n : String} {p : UsePath}
    (h : (ofItems items).resolve n = some p) (hp : p ≠ ⟨["super"], none⟩) :
    p.boundName? = some n := by
  obtain ⟨b, hb, rfl, rfl⟩ := binding_of_resolve h
  cases b with
  | declared n => rfl
  | leaf l =>
    have hl : l.IsNamed := isNamed_of_mem_bindings hb
    unfold Leaf.IsNamed at hl
    unfold Binding.path UsePath.boundName?
    dsimp only [Binding.name]
    cases hn : l.newName with
    | some a => rwa [hn] at hl
    | none =>
      rw [hn] at hl
      have hs : l.segments ≠ ["self"] := by
        intro hs
        exact hp (by rw [Binding.path, hs, hn]; rfl)
      rw [UsePath.getLast?_descend _ hs]
      exact hl

end Scope
end RecordStore
