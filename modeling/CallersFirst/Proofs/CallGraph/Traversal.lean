import Mathlib.Data.List.Nodup
import Mathlib.Logic.Relation

/-! Depth-first traversal as a relation: what is visited, in which order, and from where. -/

namespace CallersFirst

/--
Following the targets in turn visits the listed vertices, in the order in which they are entered.

A target seen before is passed over.
Any other is entered, and everything it leads to is visited before the next target is looked at.
-/
inductive Traverses {α : Type} (next : α → List α) : List α → List α → List α → Prop where
  /-- Without targets nothing is visited. -/
  | done (seen : List α) : Traverses next seen [] []
  /-- A target seen before adds nothing. -/
  | skip {seen rest visited : List α} {target : α} (known : target ∈ seen)
      (onward : Traverses next seen rest visited) : Traverses next seen (target :: rest) visited
  /-- A new target comes first, then what lies below it, then what the other targets add. -/
  | enter {seen rest below visited : List α} {target : α} (new : target ∉ seen)
      (inward : Traverses next (seen ++ [target]) (next target) below)
      (onward : Traverses next (seen ++ target :: below) rest visited) :
      Traverses next seen (target :: rest) (target :: below ++ visited)

/-- A vertex leads to another along any number of edges. -/
def Reaches {α : Type} (next : α → List α) : α → α → Prop :=
  Relation.ReflTransGen fun vertex neighbour => neighbour ∈ next vertex

/-- No edge leads out of a set of vertices. -/
def IsClosed {α : Type} (next : α → List α) (vertices : List α) : Prop :=
  ∀ vertex ∈ vertices, ∀ neighbour ∈ next vertex, neighbour ∈ vertices

/-- What a vertex of a closed set reaches lies in the set. -/
theorem IsClosed.mem_of_reaches {α : Type} {next : α → List α} {vertices : List α}
    (closed : IsClosed next vertices) {vertex : α} (member : vertex ∈ vertices) {other : α}
    (reached : Reaches next vertex other) : other ∈ vertices := by
  -- Each edge of the way stays inside.
  induction reached with
  | refl => exact member
  | tail _ edge ih => exact closed _ ih _ edge

/-- Edges from a vertex to itself are not needed to get anywhere. -/
theorem reflTransGen_apart {α : Type} {edge : α → α → Prop} {vertex other : α}
    (way : Relation.ReflTransGen edge vertex other) :
    Relation.ReflTransGen (fun vertex other => edge vertex other ∧ vertex ≠ other) vertex other := by
  induction way with
  | refl => exact .refl
  | @tail middle last _ step ih =>
    -- A step that stays where it is can be left out of the way.
    by_cases same : middle = last
    · exact same ▸ ih
    · exact ih.tail ⟨step, same⟩

namespace Traverses

section Visited

variable {α : Type} {next : α → List α} {seen targets visited : List α}

/-- The vertices seen and the targets determine what is visited. -/
theorem unique (first : Traverses next seen targets visited) :
    ∀ {other}, Traverses next seen targets other → visited = other := by
  -- Whether the first target is known decides the rule, and the parts agree by induction.
  induction first with
  | done seen =>
    intro other second
    cases second
    rfl
  | skip known onward ih =>
    intro other second
    cases second with
    | skip _ onward' => exact ih onward'
    | enter new _ _ => exact absurd known new
  | enter new inward onward ihInward ihOnward =>
    intro other second
    cases second with
    | skip known _ => exact absurd known new
    | enter _ inward' onward' =>
      obtain rfl := ihInward inward'
      obtain rfl := ihOnward onward'
      rfl

/-- Two traversals after each other are one traversal of both lists of targets. -/
theorem append (first : Traverses next seen targets visited) :
    ∀ {rest later}, Traverses next (seen ++ visited) rest later →
      Traverses next seen (targets ++ rest) (visited ++ later) := by
  -- The second traversal takes the place of the empty one at the end of the first.
  induction first with
  | done seen =>
    intro rest later second
    simpa using second
  | skip known onward ih =>
    intro rest later second
    exact .skip known (ih second)
  | enter new inward onward ihInward ihOnward =>
    intro rest later second
    rw [List.append_assoc]
    refine .enter new inward (ihOnward ?_)
    simpa using second

/-- A traversal of two lists of targets is one traversal after another. -/
theorem split {first rest : List α} (whole : Traverses next seen (first ++ rest) visited) :
    ∃ earlier later, visited = earlier ++ later ∧ Traverses next seen first earlier ∧
      Traverses next (seen ++ earlier) rest later := by
  -- The rules for the first targets are taken off one by one.
  induction first generalizing seen visited with
  | nil => exact ⟨[], visited, rfl, .done seen, by simpa using whole⟩
  | cons target others ih =>
    cases whole with
    | skip known onward =>
      obtain ⟨earlier, later, rfl, leading, trailing⟩ := ih onward
      exact ⟨earlier, later, rfl, .skip known leading, trailing⟩
    | @enter _ _ below _ _ new inward onward =>
      obtain ⟨earlier, later, rfl, leading, trailing⟩ := ih onward
      exact ⟨target :: below ++ earlier, later, by simp, .enter new inward leading,
        by simpa using trailing⟩

/-- Targets seen before lead nowhere. -/
theorem of_subset (known : ∀ target ∈ targets, target ∈ seen) : Traverses next seen targets [] := by
  -- Every single target is passed over.
  induction targets with
  | nil => exact .done seen
  | cons target rest ih =>
    exact .skip (known target (by simp)) (ih fun other member => known other (by simp [member]))

/-- What is visited was not seen before. -/
theorem not_mem_seen (traversal : Traverses next seen targets visited) :
    ∀ vertex ∈ visited, vertex ∉ seen := by
  -- Below a new target even more counts as seen.
  induction traversal with
  | done seen => simp
  | skip known onward ih => exact ih
  | enter new inward onward ihInward ihOnward =>
    intro vertex member
    simp only [List.cons_append, List.mem_cons, List.mem_append] at member
    rcases member with rfl | member | member
    · exact new
    · exact fun old => ihInward vertex member (by simp [old])
    · exact fun old => ihOnward vertex member (by simp [old])

/-- No vertex is visited twice. -/
theorem nodup (traversal : Traverses next seen targets visited) : visited.Nodup := by
  -- Each part visits only what the parts before it have not seen.
  induction traversal with
  | done seen => simp
  | skip known onward ih => exact ih
  | enter new inward onward ihInward ihOnward =>
    rw [List.nodup_append]
    refine ⟨List.nodup_cons.2 ⟨?_, ihInward⟩, ihOnward, ?_⟩
    · exact fun member => inward.not_mem_seen _ member (by simp)
    · rintro vertex before _ after rfl
      exact onward.not_mem_seen vertex after (by simp [before])

/-- Every target ends up among the vertices seen. -/
theorem mem_of_mem_targets (traversal : Traverses next seen targets visited) :
    ∀ target ∈ targets, target ∈ seen ++ visited := by
  -- A target is known or entered, and later targets see at least as much.
  induction traversal with
  | done seen => simp
  | skip known onward ih =>
    intro other member
    rcases List.mem_cons.1 member with rfl | member
    · simp [known]
    · exact ih other member
  | enter new inward onward ihInward ihOnward =>
    intro other member
    rcases List.mem_cons.1 member with rfl | member
    · simp
    · simpa using ihOnward other member

/-- Every edge out of a visited vertex leads to a vertex seen in the end. -/
theorem mem_of_edge (traversal : Traverses next seen targets visited) :
    ∀ vertex ∈ visited, ∀ neighbour ∈ next vertex, neighbour ∈ seen ++ visited := by
  -- The edges out of an entered vertex are the targets of the traversal below it.
  induction traversal with
  | done seen => simp
  | skip known onward ih => exact ih
  | enter new inward onward ihInward ihOnward =>
    intro vertex member neighbour edge
    simp only [List.cons_append, List.mem_cons, List.mem_append] at member
    rcases member with rfl | member | member
    · have reached := inward.mem_of_mem_targets neighbour edge
      simp only [List.mem_append, List.cons_append, List.mem_cons] at reached ⊢
      tauto
    · have reached := ihInward vertex member neighbour edge
      simp only [List.mem_append, List.cons_append, List.mem_cons] at reached ⊢
      tauto
    · have reached := ihOnward vertex member neighbour edge
      simp only [List.mem_append, List.cons_append, List.mem_cons] at reached ⊢
      tauto

/-- A property of the targets that edges keep holds of everything visited. -/
theorem forall_visited {keeps : α → Prop}
    (step : ∀ vertex, keeps vertex → ∀ neighbour ∈ next vertex, keeps neighbour)
    (traversal : Traverses next seen targets visited) :
    (∀ target ∈ targets, keeps target) → ∀ vertex ∈ visited, keeps vertex := by
  -- What lies below an entered vertex starts from its own edges.
  induction traversal with
  | done seen => simp
  | skip known onward ih => exact fun start => ih fun target member => start target (by simp [member])
  | enter new inward onward ihInward ihOnward =>
    intro start vertex member
    have entered := start _ (List.mem_cons_self ..)
    simp only [List.cons_append, List.mem_cons, List.mem_append] at member
    rcases member with rfl | member | member
    · exact entered
    · exact ihInward (step _ entered) vertex member
    · exact ihOnward (fun target member => start target (by simp [member])) vertex member

/-- Everything visited but the targets has an edge to it from a vertex visited before. -/
theorem led (traversal : Traverses next seen targets visited) :
    ∀ before vertex after, visited = before ++ vertex :: after →
      vertex ∈ targets ∨ ∃ caller ∈ before, vertex ∈ next caller := by
  -- The vertex stands in front, below the first target, or among what the other targets add.
  induction traversal with
  | done seen => simp
  | skip known onward ih =>
    intro before vertex after parts
    exact (ih before vertex after parts).imp (by simp +contextual) id
  | @enter seen rest below visited target new inward onward ihInward ihOnward =>
    intro before vertex after whole
    rcases List.append_eq_append_iff.1 whole with ⟨more, rfl, parts⟩ | ⟨more, parts, others⟩
    -- The vertex is among what the later targets add.
    · rcases ihOnward more vertex after parts with aimed | ⟨caller, member, edge⟩
      · exact .inl (by simp [aimed])
      · exact .inr ⟨caller, by simp [member], edge⟩
    · cases before with
      | nil =>
        -- The vertex is the target itself.
        cases more with
        | nil => simp at parts
        | cons first more => simp_all
      | cons first before =>
        -- The vertex lies below the target, or it opens what the later targets add.
        obtain ⟨rfl, inside⟩ := List.cons.inj parts
        cases more with
        | nil =>
          rcases ihOnward [] vertex after (by simpa using others.symm) with aimed | ⟨caller, member, _⟩
          · exact .inl (by simp [aimed])
          · simp at member
        | cons inner more =>
          obtain ⟨rfl, _⟩ := List.cons.inj others
          rcases ihInward before vertex more inside with edge | ⟨caller, member, edge⟩
          · exact .inr ⟨target, by simp, edge⟩
          · exact .inr ⟨caller, by simp [member], edge⟩

/-- Everything visited is reached from a target. -/
theorem exists_reaches (traversal : Traverses next seen targets visited) :
    ∀ vertex ∈ visited, ∃ target ∈ targets, Reaches next target vertex := by
  -- Targets reach themselves, and an edge extends a way.
  refine traversal.forall_visited ?_ fun target member => ⟨target, member, .refl⟩
  rintro vertex ⟨target, member, reached⟩ neighbour edge
  exact ⟨target, member, reached.tail edge⟩

/-- A traversal turns a closed set into a closed set. -/
theorem isClosed (closed : IsClosed next seen) (traversal : Traverses next seen targets visited) :
    IsClosed next (seen ++ visited) := by
  -- Old vertices have old neighbours, and visited ones lead to vertices seen in the end.
  intro vertex member neighbour edge
  rcases List.mem_append.1 member with old | member
  · exact List.mem_append_left _ (closed vertex old neighbour edge)
  · exact traversal.mem_of_edge vertex member neighbour edge

/-- After a closed set, exactly the new vertices within reach of the targets are visited. -/
theorem mem_visited_iff (closed : IsClosed next seen)
    (traversal : Traverses next seen targets visited) {vertex : α} :
    vertex ∈ visited ↔ vertex ∉ seen ∧ ∃ target ∈ targets, Reaches next target vertex := by
  constructor
  · intro member
    exact ⟨traversal.not_mem_seen vertex member, traversal.exists_reaches vertex member⟩
  · rintro ⟨new, target, member, reached⟩
    -- The targets are seen in the end, and what is seen then is closed.
    have found := (traversal.isClosed closed).mem_of_reaches
      (traversal.mem_of_mem_targets target member) reached
    exact (List.mem_append.1 found).resolve_left new

/-- The vertices visited for one new target form a block: the target, then what it newly reaches. -/
theorem mem_block_iff {target : α} {below : List α} (closed : IsClosed next seen)
    (new : target ∉ seen) (inward : Traverses next (seen ++ [target]) (next target) below) {vertex : α} :
    vertex ∈ target :: below ↔ vertex ∉ seen ∧ Reaches next target vertex := by
  -- The block is what the traversal of the target alone visits.
  have alone : Traverses next seen [target] (target :: below) := by
    simpa using Traverses.enter new inward (.done _)
  simpa using alone.mem_visited_iff closed

/-- Listing what was visited, or a part of it that keeps the targets, visits the same again. -/
theorem replay (traversal : Traverses next seen targets visited) :
    ∀ {chosen}, chosen.Sublist visited → (∀ target ∈ targets, target ∈ visited → target ∈ chosen) →
      Traverses next seen chosen visited := by
  -- The first vertex of a block is entered, and the others of the block are known by then.
  induction traversal with
  | done seen =>
    intro chosen part _
    rw [List.sublist_nil.1 part]
    exact .done seen
  | skip known onward ih =>
    intro chosen part kept
    exact ih part fun other member => kept other (by simp [member])
  | @enter seen rest below visited target new inward onward ihInward ihOnward =>
    intro chosen part kept
    have distinct := (Traverses.enter new inward onward).nodup
    rw [List.nodup_append] at distinct
    obtain ⟨blockDistinct, _, apart⟩ := distinct
    obtain ⟨first, later, rfl, firstPart, laterPart⟩ := List.sublist_append_iff.1 part
    -- The target itself can only come from its own block.
    have targetFirst : target ∈ first := by
      rcases List.mem_append.1 (kept target (by simp) (by simp)) with member | member
      · exact member
      · exact absurd rfl (apart target (by simp) target (laterPart.subset member))
    obtain ⟨inner, rfl, innerPart⟩ : ∃ inner, first = target :: inner ∧ inner.Sublist below := by
      cases firstPart with
      | cons _ inside => exact absurd (inside.subset targetFirst) (List.nodup_cons.1 blockDistinct).1
      | cons_cons _ inside => exact ⟨_, rfl, inside⟩
    have passed : Traverses next (seen ++ target :: below) inner [] :=
      of_subset fun vertex member => by simp [innerPart.subset member]
    have again : Traverses next (seen ++ target :: below) later visited := by
      refine ihOnward laterPart fun other member found => ?_
      rcases List.mem_append.1 (kept other (by simp [member]) (by simp [found])) with early | late
      · exact absurd rfl (apart other (firstPart.subset early) other found)
      · exact late
    exact .enter new inward (passed.append (by simpa using again))

/-- Renaming the vertices of a closed region one to one renames what is visited. -/
theorem map {β : Type} {name : α → β} {next' : β → List β} {region : α → Prop}
    (inside : ∀ vertex, region vertex → ∀ neighbour ∈ next vertex, region neighbour)
    (distinct : ∀ vertex other, region vertex → region other → name vertex = name other → vertex = other)
    (edges : ∀ vertex, region vertex → next' (name vertex) = (next vertex).map name)
    (traversal : Traverses next seen targets visited) :
    (∀ vertex ∈ seen, region vertex) → (∀ target ∈ targets, region target) →
      Traverses next' (seen.map name) (targets.map name) (visited.map name) := by
  -- Every rule carries over, since a name is known exactly when its vertex is.
  induction traversal with
  | done seen => exact fun _ _ => .done _
  | skip known onward ih =>
    intro old start
    exact .skip (List.mem_map_of_mem known) (ih old fun other member => start other (by simp [member]))
  | @enter seen rest below visited target new inward onward ihInward ihOnward =>
    intro old start
    have entered : region target := start target (by simp)
    have belowInside : ∀ vertex ∈ below, region vertex := inward.forall_visited inside (inside _ entered)
    have newName : name target ∉ seen.map name := by
      intro member
      obtain ⟨vertex, known, same⟩ := List.mem_map.1 member
      exact new (distinct vertex target (old vertex known) entered same ▸ known)
    have oldInward : ∀ vertex ∈ seen ++ [target], region vertex := by
      intro vertex member
      rcases List.mem_append.1 member with known | member
      · exact old vertex known
      · exact (List.mem_singleton.1 member).symm ▸ entered
    have oldOnward : ∀ vertex ∈ seen ++ target :: below, region vertex := by
      intro vertex member
      simp only [List.mem_append, List.mem_cons] at member
      rcases member with known | rfl | member
      · exact old vertex known
      · exact entered
      · exact belowInside vertex member
    have inward' := ihInward oldInward (inside _ entered)
    have onward' := ihOnward oldOnward fun other member => start other (by simp [member])
    rw [← edges target entered, List.map_append] at inward'
    rw [List.map_append] at onward'
    rw [List.map_append]
    exact .enter newName inward' onward'

/-- In the block of a target, every other vertex has an edge to it from an earlier one. -/
theorem led_block {target : α} {below : List α} (inward : Traverses next (seen ++ [target]) (next target) below)
    {before after : List α} {vertex : α} (parts : target :: below = before ++ vertex :: after)
    (other : vertex ≠ target) : ∃ caller ∈ before, vertex ∈ next caller := by
  -- The target stands in front, so a vertex with an edge from it has a caller before it.
  cases before with
  | nil => exact absurd (List.cons.inj parts).1.symm other
  | cons first before =>
    obtain ⟨rfl, inside⟩ := List.cons.inj parts
    rcases inward.led before vertex after inside with edge | ⟨caller, member, edge⟩
    · exact ⟨target, by simp, edge⟩
    · exact ⟨caller, by simp [member], edge⟩

end Visited

end Traverses

/--
A list of visited vertices falls into blocks, one for each entry among the targets.

The entries are the new targets that no earlier target reaches.
The block of an entry starts with it and holds what it reaches and no earlier entry does.
-/
structure Blocks {α : Type} (next : α → List α) (seen targets visited entries : List α)
    (block : α → List α) : Prop where
  /-- The entries are targets, in the same order. -/
  entries_sublist : entries.Sublist targets
  /-- The blocks of the entries make up the list. -/
  visited_eq : visited = entries.flatMap block
  /-- A target is an entry if it is new and no earlier target reaches it. -/
  mem_entries_iff : ∀ target, target ∈ entries ↔ target ∈ targets ∧ target ∉ seen ∧
    ∀ earlier, [earlier, target].Sublist targets → ¬ Reaches next earlier target
  /-- The block of an entry starts with it. -/
  head_block : ∀ entry ∈ entries, (block entry).head? = some entry
  /-- Within a block every vertex but the first has an edge to it from an earlier one. -/
  led_block : ∀ entry ∈ entries, ∀ before vertex after, block entry = before ++ vertex :: after →
    vertex ≠ entry → ∃ caller ∈ before, vertex ∈ next caller
  /-- A block holds what its entry reaches and no earlier entry does. -/
  mem_block_iff : ∀ entry ∈ entries, ∀ vertex, vertex ∈ block entry ↔ vertex ∉ seen ∧
    Reaches next entry vertex ∧
      ∀ earlier ∈ entries, [earlier, entry].Sublist targets → ¬ Reaches next earlier vertex

namespace Blocks

variable {α : Type} {next : α → List α} {seen targets visited entries : List α}
  {block : α → List α}

/-- A later member follows the first member of a list and whatever it follows in the rest. -/
theorem pair_sublist_cons_iff {first second head : α} {rest : List α} (later : second ∈ rest) :
    [first, second].Sublist (head :: rest) ↔ first = head ∨ [first, second].Sublist rest := by
  -- The pair either starts with the first member or lies in the rest.
  rw [List.sublist_cons_iff]
  constructor
  · rintro (inside | ⟨tail, same, _⟩)
    · exact .inr inside
    · exact .inl (List.cons.inj same).1
  · rintro (rfl | inside)
    · exact .inr ⟨[second], rfl, List.singleton_sublist.2 later⟩
    · exact .inl inside

/-- Nothing stands before the first member of a list without a copy of it. -/
theorem not_pair_sublist_cons_self {first head : α} {rest : List α} (distinct : head ∉ rest) :
    ¬ [first, head].Sublist (head :: rest) := by
  intro pair
  rcases List.sublist_cons_iff.1 pair with inside | ⟨tail, same, inside⟩
  · exact distinct (inside.subset (by simp))
  · obtain ⟨rfl, rfl⟩ := List.cons.inj same
    exact distinct (List.singleton_sublist.1 inside)

/-- A known target in front changes no block. -/
theorem skip {target : α} (closed : IsClosed next seen) (known : target ∈ seen)
    (distinct : target ∉ targets) (blocks : Blocks next seen targets visited entries block) :
    Blocks next seen (target :: targets) visited entries block := by
  refine ⟨blocks.entries_sublist.cons target, blocks.visited_eq, ?_, blocks.head_block,
    blocks.led_block, ?_⟩
  · intro other
    rw [blocks.mem_entries_iff]
    constructor
    · rintro ⟨member, new, unreached⟩
      refine ⟨List.mem_cons_of_mem _ member, new, fun earlier pair reached => ?_⟩
      -- A known target reaches known vertices only.
      rcases (pair_sublist_cons_iff member).1 pair with rfl | pair
      · exact new (closed.mem_of_reaches known reached)
      · exact unreached earlier pair reached
    · rintro ⟨member, new, unreached⟩
      have member : other ∈ targets := by
        rcases List.mem_cons.1 member with rfl | member
        · exact absurd known new
        · exact member
      exact ⟨member, new, fun earlier pair => unreached earlier ((pair_sublist_cons_iff member).2 (.inr pair))⟩
  · intro entry isEntry vertex
    have entryLater := blocks.entries_sublist.subset isEntry
    rw [blocks.mem_block_iff entry isEntry vertex]
    refine and_congr_right fun _ => and_congr_right fun _ => forall₂_congr fun earlier early => ?_
    -- The known target is no entry, so it stands before none of them as an entry.
    have differs : earlier ≠ target := fun same => distinct (same ▸ blocks.entries_sublist.subset early)
    simp [pair_sublist_cons_iff entryLater, differs]

/-- A new target in front adds its own block in front. -/
theorem enter [DecidableEq α] {target : α} {below : List α} (closed : IsClosed next seen)
    (new : target ∉ seen) (inward : Traverses next (seen ++ [target]) (next target) below)
    (distinct : target ∉ targets)
    (blocks : Blocks next (seen ++ target :: below) targets visited entries block) :
    Blocks next seen (target :: targets) (target :: below ++ visited) (target :: entries)
      (Function.update block target (target :: below)) := by
  -- What is seen after the first block is what was seen before and what the target reaches.
  have unseen : ∀ vertex, vertex ∉ seen ++ target :: below ↔ vertex ∉ seen ∧ ¬ Reaches next target vertex := by
    intro vertex
    rw [List.mem_append, Traverses.mem_block_iff closed new inward]
    tauto
  have differs : ∀ entry ∈ entries, entry ≠ target := fun entry isEntry same =>
    distinct (same ▸ blocks.entries_sublist.subset isEntry)
  have kept : ∀ entry ∈ entries, Function.update block target (target :: below) entry = block entry :=
    fun entry isEntry => Function.update_of_ne (differs entry isEntry) _ _
  refine ⟨blocks.entries_sublist.cons_cons target, ?_, ?_, ?_, ?_, ?_⟩
  · rw [List.flatMap_cons, Function.update_self, blocks.visited_eq]
    exact congrArg _ (List.flatMap_congr fun entry isEntry => (kept entry isEntry).symm)
  · intro other
    rw [List.mem_cons, List.mem_cons, blocks.mem_entries_iff, unseen]
    constructor
    · rintro (rfl | ⟨member, ⟨fresh, unreached⟩, apart⟩)
      · exact ⟨.inl rfl, new, fun earlier pair => absurd pair (not_pair_sublist_cons_self distinct)⟩
      · refine ⟨.inr member, fresh, fun earlier pair => ?_⟩
        rcases (pair_sublist_cons_iff member).1 pair with rfl | pair
        · exact unreached
        · exact apart earlier pair
    · rintro ⟨rfl | member, fresh, apart⟩
      · exact .inl rfl
      · refine .inr ⟨member, ⟨fresh, apart target ((pair_sublist_cons_iff member).2 (.inl rfl))⟩, ?_⟩
        exact fun earlier pair => apart earlier ((pair_sublist_cons_iff member).2 (.inr pair))
  · intro entry isEntry
    rcases List.mem_cons.1 isEntry with rfl | isEntry
    · simp
    · rw [kept entry isEntry]
      exact blocks.head_block entry isEntry
  · intro entry isEntry before vertex after parts other
    rcases List.mem_cons.1 isEntry with rfl | isEntry
    · rw [Function.update_self] at parts
      exact inward.led_block parts other
    · rw [kept entry isEntry] at parts
      exact blocks.led_block entry isEntry before vertex after parts other
  · intro entry isEntry vertex
    rcases List.mem_cons.1 isEntry with rfl | isEntry
    · rw [Function.update_self, Traverses.mem_block_iff closed new inward]
      -- No entry stands before the first one.
      exact and_congr_right fun _ => (and_iff_left fun earlier _ pair =>
        absurd pair (not_pair_sublist_cons_self distinct)).symm
    · have later := blocks.entries_sublist.subset isEntry
      rw [kept entry isEntry, blocks.mem_block_iff entry isEntry vertex, unseen, and_assoc]
      refine and_congr_right fun _ => ?_
      constructor
      · rintro ⟨unreached, reached, apart⟩
        refine ⟨reached, fun earlier early pair => ?_⟩
        rcases (pair_sublist_cons_iff later).1 pair with rfl | pair
        · exact unreached
        · rcases List.mem_cons.1 early with rfl | early
          · exact unreached
          · exact apart earlier early pair
      · rintro ⟨reached, apart⟩
        refine ⟨apart target (by simp) ((pair_sublist_cons_iff later).2 (.inl rfl)), reached, ?_⟩
        exact fun earlier early pair =>
          apart earlier (by simp [early]) ((pair_sublist_cons_iff later).2 (.inr pair))

/-- A member of a block stands behind all earlier blocks and what precedes it in its own. -/
theorem exists_parts (blocks : Blocks next seen targets visited entries block) {entry : α}
    (isEntry : entry ∈ entries) {before after : List α} {vertex : α}
    (parts : block entry = before ++ vertex :: after) :
    ∃ earlier later, entries = earlier ++ entry :: later ∧
      visited = earlier.flatMap block ++ before ++ vertex :: (after ++ later.flatMap block) := by
  obtain ⟨earlier, later, same⟩ := List.append_of_mem isEntry
  refine ⟨earlier, later, same, ?_⟩
  rw [blocks.visited_eq, same, List.flatMap_append, List.flatMap_cons, parts]
  simp

/-- Everything visited is an entry or has an edge to it from a vertex visited before. -/
theorem exists_led (blocks : Blocks next seen targets visited entries block) {vertex : α}
    (member : vertex ∈ visited) (inner : vertex ∉ entries) :
    ∃ before after, visited = before ++ vertex :: after ∧ ∃ caller ∈ before, vertex ∈ next caller := by
  rw [blocks.visited_eq] at member
  obtain ⟨entry, isEntry, inBlock⟩ := List.mem_flatMap.1 member
  obtain ⟨before, after, parts⟩ := List.append_of_mem inBlock
  -- The caller stands in the same block, which keeps its order in the whole list.
  have other : vertex ≠ entry := fun same => inner (same ▸ isEntry)
  obtain ⟨caller, isCaller, edge⟩ := blocks.led_block entry isEntry before vertex after parts other
  obtain ⟨earlier, later, _, whole⟩ := blocks.exists_parts isEntry parts
  exact ⟨_, _, whole, caller, by simp [isCaller], edge⟩

/-- Nothing that stands before an entry leads to it. -/
theorem exists_unreached (blocks : Blocks next seen targets visited entries block) {entry : α}
    (isEntry : entry ∈ entries) :
    ∃ before after, visited = before ++ entry :: after ∧ ∀ vertex ∈ before, ¬ Reaches next vertex entry := by
  obtain ⟨rest, starts⟩ := List.head?_eq_some_iff.1 (blocks.head_block entry isEntry)
  obtain ⟨earlier, later, same, whole⟩ := blocks.exists_parts isEntry
    (show block entry = [] ++ entry :: rest from starts)
  refine ⟨_, _, whole, fun vertex member reached => ?_⟩
  -- The vertex lies in the block of an earlier entry, from which the way would go on to this one.
  rw [List.append_nil] at member
  obtain ⟨first, isFirst, inBlock⟩ := List.mem_flatMap.1 member
  have firstEntry : first ∈ entries := by simp [same, isFirst]
  have pair : [first, entry].Sublist targets := by
    have inEntries : [first, entry].Sublist entries := by
      rw [same]
      exact (List.singleton_sublist.2 isFirst).append (List.singleton_sublist.2 (List.mem_cons_self ..))
    exact inEntries.trans blocks.entries_sublist
  have onWay := ((blocks.mem_block_iff first firstEntry vertex).1 inBlock).2.1
  exact ((blocks.mem_entries_iff entry).1 isEntry).2.2 first pair (onWay.trans reached)

end Blocks

/-- A traversal from distinct targets after a closed set falls into blocks. -/
theorem Traverses.exists_blocks {α : Type} [DecidableEq α] {next : α → List α}
    {seen targets visited : List α} (traversal : Traverses next seen targets visited) :
    IsClosed next seen → targets.Nodup →
      ∃ entries block, Blocks next seen targets visited entries block := by
  -- Each rule for the first target adds a block in front or none.
  induction traversal with
  | done seen =>
    intro closed distinct
    exact ⟨[], fun _ => [], by constructor <;> simp⟩
  | skip known onward ih =>
    intro closed distinct
    obtain ⟨missing, distinct⟩ := List.nodup_cons.1 distinct
    obtain ⟨entries, block, blocks⟩ := ih closed distinct
    exact ⟨entries, block, blocks.skip closed known missing⟩
  | enter new inward onward _ ih =>
    intro closed distinct
    obtain ⟨missing, distinct⟩ := List.nodup_cons.1 distinct
    have alone : Traverses _ _ [_] _ := .enter new inward (.done _)
    obtain ⟨entries, block, blocks⟩ := ih (by simpa using alone.isClosed closed) distinct
    exact ⟨_, _, blocks.enter closed new inward missing⟩

end CallersFirst
