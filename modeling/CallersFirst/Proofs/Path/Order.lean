import CallersFirst.Path
import Mathlib.Data.List.Lex
import Mathlib.Data.Prod.Lex
import Mathlib.Data.String.Basic

/-! Paths in order: of those with the same steps exactly one is left. -/

namespace CallersFirst

namespace Path

/-- What decides the place of a step: its kind, and then its name. -/
def Component.key (step : Component) : Nat ×ₗ String :=
  match step with
  | .name text => toLex (step.rank, text)
  | _ => toLex (step.rank, "")

/-- Different steps have different keys. -/
theorem Component.key_injective : Function.Injective Component.key := by
  intro first second same
  cases first <;> cases second <;> simp_all [Component.key, Component.rank]

/-- A step comes before another if its key is the smaller one. -/
theorem Component.precedes_iff {first second : Component} :
    first.precedes second ↔ first.key < second.key := by
  cases first <;> cases second <;>
    simp [Component.key, Component.rank, Component.precedes, Prod.Lex.toLex_lt_toLex]

/-- Lists of steps are compared by the first step in which they differ. -/
theorem noLater_iff {firsts seconds : List Component} :
    noLater firsts seconds ↔ firsts.map Component.key ≤ seconds.map Component.key := by
  rw [← not_lt]
  induction firsts generalizing seconds with
  | nil => simp [noLater]
  | cons first firsts ih =>
    cases seconds with
    | nil => simp [noLater]
    | cons second seconds =>
      rw [noLater, List.map_cons, List.map_cons, List.cons_lt_cons_iff]
      -- Equal first steps pass the question on, and different ones answer it.
      split
      · rename_i same
        simp [same, ih]
      · rename_i differ
        have apart : second.key ≠ first.key := fun same => differ (Component.key_injective same.symm)
        rw [Component.precedes_iff]
        simp [apart, lt_iff_le_and_ne, apart.symm]

/-- Steps of which neither come later than the others are the same. -/
theorem eq_of_noLater {firsts seconds : List Component} (before : noLater firsts seconds)
    (behind : noLater seconds firsts) : firsts = seconds :=
  Component.key_injective.list_map (le_antisymm (noLater_iff.1 before) (noLater_iff.1 behind))

/-- Puts a path in front of others, in the place of the first of them if that one has the same steps. -/
def leadWith (path : String) : List String → List String
  | next :: rest => if components path = components next then path :: rest else path :: next :: rest
  | [] => [path]

/-- Sorted paths with each one put in front of what is left of those behind it. -/
theorem sortDistinct_eq (paths : List String) :
    sortDistinct paths =
      (paths.mergeSort fun first second => noLater (components first) (components second)).foldr leadWith [] := by
  rw [sortDistinct]
  congr 1
  funext path later
  cases later <;> rfl

section Lead

variable {path : String} {sorted : List String}

/-- Putting a path in front of others adds no other path. -/
theorem leadWith_sublist (path : String) (later : List String) : (leadWith path later).Sublist (path :: later) := by
  cases later with
  | nil => exact .refl _
  | cons next rest =>
    rw [leadWith]
    -- The next path is dropped if it has the same steps.
    split
    · exact (List.sublist_cons_self next rest).cons_cons path
    · exact .refl _

/-- Leaving out neighbours with the same steps keeps the order of the others. -/
theorem foldr_leadWith_sublist (sorted : List String) : (sorted.foldr leadWith []).Sublist sorted := by
  induction sorted with
  | nil => exact .refl _
  | cons path rest ih => exact (leadWith_sublist path _).trans (ih.cons_cons path)

/-- Every path stands for itself or has one with the same steps left in its place. -/
theorem exists_mem_foldr_leadWith (member : path ∈ sorted) :
    ∃ kept ∈ sorted.foldr leadWith [], components kept = components path := by
  induction sorted with
  | nil => cases member
  | cons first rest ih =>
    rw [List.foldr_cons]
    rcases List.mem_cons.1 member with rfl | later
    · -- The path itself is put in front.
      refine ⟨path, ?_, rfl⟩
      cases rest.foldr leadWith [] with
      | nil => simp [leadWith]
      | cons next others =>
        rw [leadWith]
        split <;> simp
    · obtain ⟨kept, isKept, same⟩ := ih later
      cases shape : rest.foldr leadWith [] with
      | nil => simp [shape] at isKept
      | cons next others =>
        rw [leadWith]
        rw [shape] at isKept
        -- Only a path with the same steps takes the place of the one that was first.
        split
        · rename_i alike
          rcases List.mem_cons.1 isKept with rfl | other
          · exact ⟨first, by simp, alike.trans same⟩
          · exact ⟨kept, by simp [other], same⟩
        · exact ⟨kept, List.mem_cons_of_mem _ isKept, same⟩

/-- Of sorted paths, no two that are left have the same steps. -/
theorem pairwise_foldr_leadWith
    (inOrder : sorted.Pairwise fun first second => noLater (components first) (components second)) :
    (sorted.foldr leadWith []).Pairwise fun first second => components first ≠ components second := by
  induction sorted with
  | nil => exact .nil
  | cons path rest ih =>
    obtain ⟨before, restOrder⟩ := List.pairwise_cons.1 inOrder
    have apart := ih restOrder
    have left := foldr_leadWith_sublist rest
    rw [List.foldr_cons]
    cases shape : rest.foldr leadWith [] with
    | nil => exact List.pairwise_singleton _ _
    | cons next others =>
      rw [shape] at apart left
      obtain ⟨nextApart, othersApart⟩ := List.pairwise_cons.1 apart
      rw [leadWith]
      split
      -- The next path gives way to one with the same steps.
      · rename_i alike
        exact List.pairwise_cons.2 ⟨fun other member => alike ▸ nextApart other member, othersApart⟩
      · rename_i differ
        refine List.pairwise_cons.2 ⟨fun other member alike => ?_, apart⟩
        -- A later path has other steps too.
        rcases List.mem_cons.1 member with rfl | later
        · exact differ alike
        · -- What stands between two paths with the same steps would have these steps as well.
          have onward := (List.pairwise_cons.1 (restOrder.sublist left)).1 other later
          rw [← alike] at onward
          exact differ (eq_of_noLater (before next (left.subset (List.mem_cons_self ..))) onward)

end Lead

variable {path : String} {paths : List String}

/-- No two of the paths that are listed have the same steps. -/
theorem pairwise_sortDistinct (paths : List String) :
    (sortDistinct paths).Pairwise fun first second => components first ≠ components second := by
  rw [sortDistinct_eq]
  -- The order of paths is that of their keys, which is transitive and total.
  refine pairwise_foldr_leadWith (List.pairwise_mergeSort ?_ ?_ paths)
  · intro first second third before behind
    rw [noLater_iff] at before behind ⊢
    exact before.trans behind
  · intro first second
    rw [Bool.or_eq_true, noLater_iff, noLater_iff]
    exact le_total _ _

/-- Paths that are in order already only lose those with the steps of an earlier one. -/
theorem sortDistinct_of_pairwise
    (inOrder : paths.Pairwise fun first second => noLater (components first) (components second)) :
    sortDistinct paths = paths.foldr leadWith [] := by
  rw [sortDistinct_eq, List.mergeSort_of_pairwise inOrder]

/-- Every path has one with its steps listed. -/
theorem exists_mem_sortDistinct (member : path ∈ paths) :
    ∃ kept ∈ sortDistinct paths, components kept = components path := by
  rw [sortDistinct_eq]
  exact exists_mem_foldr_leadWith (List.mem_mergeSort.2 member)

end Path

end CallersFirst
