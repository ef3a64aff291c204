import RecordStore.Proofs.Source.Bindings

/-!
What paths mean. A path of a file and the one that its scope writes for a module one level down
lead to the same thing, each from its own module, as long as the first names of imports mean the
same in both.
-/
namespace RecordStore

/-- Modules, types and whatever else paths lead to, and how they hang together. -/
structure World where
  Entity : Type
  /-- What a name means inside of a module or a type. -/
  member : Entity → String → Option Entity
  /-- The module around a module. -/
  above : Entity → Option Entity
  /-- The outermost module. -/
  root : Entity
  /-- What a name means wherever nothing else is called so. -/
  known : String → Option Entity
  /-- What a name means at the root of all names. -/
  crates : String → Option Entity

namespace World

variable (W : World)

/-- First names of paths with a meaning of their own. -/
def keywords : List String := ["", "crate", "self", "super"]

/-- Downwards from a module or a type. -/
def walk (x : W.Entity) (names : List String) : Option W.Entity := names.foldlM W.member x

/-- Upwards as long as the path leads there, then downwards. -/
def climb : W.Entity → List String → Option W.Entity
  | x, [] => some x
  | x, n :: rest =>
    if n = "super" then (W.above x).bind fun y => climb y rest else W.walk x (n :: rest)

/-- Where a path leads from a module; `start` tells what its first name means. -/
def follow (start : String → Option W.Entity) (m : W.Entity) : List String → Option W.Entity
  | [] => none
  | n :: rest =>
    if n = "" then (rest.head?.bind W.crates).bind (W.walk · rest.tail)
    else if n = "crate" then W.walk W.root rest
    else if n = "self" then W.climb m rest
    else if n = "super" then W.climb m (n :: rest)
    else (start n).bind (W.walk · rest)

/-- What a name means in a module. -/
def first (m : W.Entity) (n : String) : Option W.Entity := (W.member m n).or (W.known n)

/-- Where a path leads from a module. -/
def lookup (m : W.Entity) (path : List String) : Option W.Entity := W.follow (W.first m) m path

/-- What an import under a name brings into a module. Its own name does not count for it. -/
def imported (m : W.Entity) (name : String) (path : List String) : Option W.Entity :=
  W.follow (fun n => if n = name then W.known n else W.first m n) m path

variable {W} {unit companion : W.Entity} {modules : List String}

theorem follow_of_notMem {start : String → Option W.Entity} {m : W.Entity} {n : String}
    {rest : List String} (h : n ∉ keywords) :
    W.follow start m (n :: rest) = (start n).bind (W.walk · rest) := by
  simp only [keywords, List.mem_cons, List.not_mem_nil, or_false, not_or] at h
  rw [follow, if_neg h.1, if_neg h.2.1, if_neg h.2.2.1, if_neg h.2.2.2]

theorem follow_super {start : String → Option W.Entity} {m : W.Entity} {rest : List String} :
    W.follow start m ("super" :: rest) = (W.above m).bind (W.climb · rest) := by
  simp [follow, climb]

/-- From one level down a path leads where it leads in its file. A path from a module of the file
has to start at that module there, and the first names of others have to mean the same. -/
theorem follow_descend {start start' : String → Option W.Entity} {segments : List String}
    (ha : W.above companion = some unit) (hk : ∀ n ∈ modules, n ∉ keywords)
    (hs : ∀ n rest, segments = n :: rest → n ∉ keywords →
      if n ∈ modules then start n = W.member unit n else start' n = start n) :
    W.follow start' companion (UsePath.descend modules segments) =
      W.follow start unit segments := by
  cases segments with
  | nil => rfl
  | cons n rest =>
    have hs := hs n rest rfl
    by_cases hn : n ∈ keywords
    · have hm : n ∉ modules := fun hm => hk n hm hn
      simp only [keywords, List.mem_cons, List.not_mem_nil, or_false] at hn
      rcases hn with rfl | rfl | rfl | rfl
      · simp [UsePath.descend, hm, follow]
      · simp [UsePath.descend, hm, follow]
      · simp [UsePath.descend, follow, climb, ha]
      · simp [UsePath.descend, follow, climb, ha]
    · have hs := hs hn
      have hself : n ≠ "self" := by
        rintro rfl
        exact hn (by decide)
      have hsuper : n ≠ "super" := by
        rintro rfl
        exact hn (by decide)
      have hd : UsePath.descend modules (n :: rest) =
          if modules.contains n then "super" :: n :: rest else n :: rest := by
        unfold UsePath.descend
        split <;> simp_all
      rw [hd, follow_of_notMem hn]
      by_cases hm : n ∈ modules
      · rw [if_pos (List.contains_iff_mem.mpr hm), follow_super, ha, Option.bind_some, climb,
          if_neg hsuper]
        rw [if_pos hm] at hs
        rw [hs]
        rfl
      · rw [if_neg (by simpa using hm), follow_of_notMem hn]
        rw [if_neg hm] at hs
        rw [hs]

/-! ### A file and the module below it -/

/-- A file and a module one level below it, which holds some imports. The items of the file are
there, and so is what the imports of both bring in. -/
structure Mounted (W : World) (items : List Item) (imports : List (String × UsePath))
    (unit companion : W.Entity) : Prop where
  above : W.above companion = some unit
  modules : ∀ n ∈ Scope.moduleNames items, n ∉ keywords ∧ (W.member unit n).isSome = true
  declared : ∀ n, .declared n ∈ items.flatMap Item.bindings → (W.member unit n).isSome = true
  leaves : ∀ l, .leaf l ∈ items.flatMap Item.bindings → ∀ x,
    W.imported unit l.name l.segments = some x → W.member unit l.name = some x
  imports : ∀ n p, (n, p) ∈ imports → ∀ x,
    W.imported companion n p.segments = some x → W.member companion n = some x

/-- Whether what a binding stands for can be carried to a module one level down. An import has to
lead somewhere, and its path has to start at a keyword, at a module of the file that the import is
not named after, or else at a name that is nothing else in either module. -/
def Carries (W : World) (modules : List String) (unit companion : W.Entity) : Binding → Prop
  | .declared _ => True
  | .leaf l => (W.imported unit l.name l.segments).isSome = true ∧
    ∀ n rest, l.segments = n :: rest → n ∉ keywords →
      if n ∈ modules then n ≠ l.name
      else n = l.name ∨ W.first unit n = W.known n ∧ W.first companion n = W.known n

variable {items : List Item} {imports : List (String × UsePath)}

/-- An import leads where the name leads in the file. -/
theorem Mounted.member_eq (hm : W.Mounted items imports unit companion) {b : Binding}
    (hb : b ∈ items.flatMap Item.bindings) (hn : b.name ∉ keywords)
    (hi : (b.name, b.path (Scope.moduleNames items)) ∈ imports)
    (hc : W.Carries (Scope.moduleNames items) unit companion b) :
    W.member companion b.name = W.member unit b.name := by
  cases b with
  | declared n =>
    obtain ⟨x, hx⟩ := Option.isSome_iff_exists.mp (hm.declared n hb)
    have hsuper : n ≠ "super" := by
      rintro rfl
      exact hn (by decide)
    have hp : W.imported companion n ["super", n] = some x := by
      rw [imported, follow_super, hm.above, Option.bind_some, climb, if_neg hsuper, ← hx]
      exact List.foldlM_cons.trans (bind_pure _)
    exact (hm.imports _ _ hi x hp).trans hx.symm
  | leaf l =>
    obtain ⟨hsome, hheads⟩ := hc
    obtain ⟨x, hx⟩ := Option.isSome_iff_exists.mp hsome
    have hp : W.imported companion l.name
        (UsePath.descend (Scope.moduleNames items) l.segments) = some x := by
      rw [← hx]
      refine follow_descend hm.above (fun n hn => (hm.modules n hn).1) fun n rest hs hk => ?_
      have hh := hheads n rest hs hk
      split
      next hmod =>
        rw [if_pos hmod] at hh
        obtain ⟨y, hy⟩ := Option.isSome_iff_exists.mp (hm.modules n hmod).2
        rw [if_neg hh, first, hy, Option.some_or]
      next hmod =>
        rw [if_neg hmod] at hh
        rcases hh with rfl | ⟨hu, hc⟩
        · rw [if_pos rfl, if_pos rfl]
        · rw [hu, hc]
    exact (hm.imports _ _ hi x hp).trans (hm.leaves l hb x hx).symm

theorem lookup_congr {n : String} (h : W.member companion n = W.member unit n) (hn : n ∉ keywords)
    (rest : List String) : W.lookup companion (n :: rest) = W.lookup unit (n :: rest) := by
  rw [lookup, lookup, follow_of_notMem hn, follow_of_notMem hn, first, first, h]

/-- What a path from above means in the lower module, one from the module itself means in the
file. -/
theorem lookup_super (h : W.above companion = some unit) (rest : List String) :
    W.lookup companion ("super" :: rest) = W.lookup unit ("self" :: rest) := by
  rw [lookup, follow_super, h, Option.bind_some]
  simp [lookup, follow]

end World
end RecordStore
