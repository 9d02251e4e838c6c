import Mathlib.Data.List.Basic

/-!
# Paths in a tree of directories

A path is a list of components: stay, go up, or go down to a name. `walk` follows one by its text
alone and counts how deep it is below its start. `Tree.Names` follows one in a tree of directories
and files, where every component is looked up in a directory.

* `Tree.Names.ends_below` — a walk that never goes up above its start ends below it;
* `Tree.Names.file_below` — only the last component may go up above the start, if the path is to
  name a file.
-/

namespace Path

universe u

variable {ν : Type u}

/-- A component of a path. -/
inductive Comp (ν : Type u) : Type u where
  | stay : Comp ν
  | up : Comp ν
  | down (name : ν) : Comp ν

/-- The depth below the start at the end of a path, from depth `d` on; `none` if the path goes up
above its start. -/
def walk : List (Comp ν) → ℕ → Option ℕ
  | [], d => some d
  | .stay :: p, d => walk p d
  | .up :: _, 0 => none
  | .up :: p, d + 1 => walk p d
  | .down _ :: p, d => walk p (d + 1)

/-- A path that never goes up. -/
theorem walk_isSome {p : List (Comp ν)} (h : Comp.up ∉ p) (d : ℕ) : (walk p d).isSome = true := by
  induction p generalizing d with
  | nil => rfl
  | cons c p ih =>
    have hp : Comp.up ∉ p := fun hm => h (List.mem_cons_of_mem c hm)
    cases c with
    | stay => exact ih hp d
    | up => exact absurd List.mem_cons_self h
    | down name => exact ih hp (d + 1)

/-- A location: the names from the root down, the innermost first. -/
abbrev Loc (ν : Type u) : Type u := List ν

/-- A tree of directories and files, without links. -/
structure Tree (ν : Type u) : Type u where
  /-- is there a directory? -/
  isDir : Loc ν → Prop
  /-- is there a file? -/
  isFile : Loc ν → Prop
  /-- what is in a directory is in one -/
  parent : ∀ name loc, isDir (name :: loc) → isDir loc
  /-- a directory is no file -/
  disjoint : ∀ loc, isDir loc → ¬ isFile loc

/-- The location that a component leads to; the root is above itself. -/
def Comp.move : Comp ν → Loc ν → Loc ν
  | .stay, loc => loc
  | .up, loc => loc.tail
  | .down name, loc => name :: loc

/-- The path `p`, looked up from `loc` on, names the location `loc'`. -/
inductive Tree.Names (tree : Tree ν) : Loc ν → List (Comp ν) → Loc ν → Prop where
  | nil (loc : Loc ν) : tree.Names loc [] loc
  | cons {loc loc' : Loc ν} {c : Comp ν} {p : List (Comp ν)} (hdir : tree.isDir loc)
      (h : tree.Names (c.move loc) p loc') : tree.Names loc (c :: p) loc'

namespace Tree

variable {tree : Tree ν} {loc loc' base : Loc ν} {p q : List (Comp ν)} {c : Comp ν}

/-- The location above a directory is one. -/
theorem isDir_tail (h : tree.isDir loc) : tree.isDir loc.tail := by
  cases loc with
  | nil => exact h
  | cons name loc => exact tree.parent name loc h

namespace Names

/-- A path in two parts. -/
theorem of_append (h : tree.Names loc (p ++ q) loc') :
    ∃ mid, tree.Names loc p mid ∧ tree.Names mid q loc' := by
  induction p generalizing loc with
  | nil => exact ⟨loc, .nil loc, h⟩
  | cons c p ih =>
    cases h with
    | cons hdir h =>
      obtain ⟨mid, hp, hq⟩ := ih h
      exact ⟨mid, .cons hdir hp, hq⟩

/-- A path names one location. -/
theorem unique {loc'' : Loc ν} (h : tree.Names loc p loc') (h' : tree.Names loc p loc'') :
    loc' = loc'' := by
  induction h with
  | nil loc =>
    cases h'
    rfl
  | cons hdir h ih =>
    cases h' with
    | cons hdir' h' => exact ih h'

/-- **A walk that stays below its start** ends at the depth it counts. -/
theorem ends_below {d d' : ℕ} {names : List ν} (hlen : names.length = d)
    (h : tree.Names (names ++ base) p loc) (hw : walk p d = some d') :
    ∃ names' : List ν, names'.length = d' ∧ loc = names' ++ base := by
  induction p generalizing names d with
  | nil =>
    cases h
    exact ⟨names, hlen.trans (Option.some.inj hw), rfl⟩
  | cons c p ih =>
    obtain _ | ⟨hdir, h⟩ := h
    cases c with
    | stay => exact ih hlen h hw
    | down name =>
      have hlen' : (name :: names).length = d + 1 := congrArg (· + 1) hlen
      exact ih hlen' h hw
    | up =>
      cases names with
      | nil =>
        subst hlen
        exact absurd hw (by simp [walk])
      | cons name names =>
        subst hlen
        exact ih rfl h hw

/-- **A file** that a path names is below the start, if all components but the last one stay there:
what the last one finds by staying or by going up is a directory. -/
theorem file_below (h : tree.Names base (p ++ [c]) loc) (hw : (walk p 0).isSome = true)
    (hfile : tree.isFile loc) : ∃ name names, loc = name :: (names ++ base) := by
  obtain ⟨d, hd⟩ := Option.isSome_iff_exists.mp hw
  obtain ⟨mid, hp, hc⟩ := h.of_append
  have hnil : ([] : List ν).length = 0 := rfl
  obtain ⟨names, -, rfl⟩ := ends_below hnil hp hd
  obtain _ | ⟨hdir, hend⟩ := hc
  cases hend
  cases c with
  | stay => exact absurd hfile (tree.disjoint _ hdir)
  | up => exact absurd hfile (tree.disjoint _ (isDir_tail hdir))
  | down name => exact ⟨name, names, rfl⟩

end Names

end Tree

end Path
