import CallersFirst.Proofs.SyntaxTree
import Mathlib.Data.List.Pairwise

/-! Nodes by their addresses, in the order of which a walk meets them. -/

namespace CallersFirst

namespace Node

/-- The node at an address, each number of which picks a named child of the node reached by then. -/
def nodeAt? (start : Node) : List Nat → Option Node
  | [] => some start
  | index :: address => start.namedChildren[index]?.bind fun child => child.nodeAt? address

/-- A node that an address leads to with no closed node on the way, both ends included. -/
structure Reaches (closed : Node → Bool) (start : Node) (address : List Nat) (node : Node) : Prop where
  /-- The address is that of the node. -/
  leads : start.nodeAt? address = some node
  /-- No node on the way is closed. -/
  free : ∀ above, above <+: address → ∀ passed, start.nodeAt? above = some passed → closed passed = false

/-- A node that a walk has met, with its address from where the walk started. -/
structure Station where
  /-- The address of the node. -/
  address : List Nat
  /-- The node itself. -/
  node : Node

/-- The same station as seen from a parent that has its own start as a certain named child. -/
def Station.below (index : Nat) (station : Station) : Station :=
  { station with address := index :: station.address }

mutual

/-- The stations of a walk in pre-order, leaving out what lies at or below a closed node. -/
def stations (closed : Node → Bool) : Node → List Station
  | node@⟨_, _, _, _, children⟩ =>
    if closed node then [] else ⟨[], node⟩ :: stationsBelow closed 0 children

/-- The stations in the named ones among some children, the first of which has a certain number. -/
def stationsBelow (closed : Node → Bool) (index : Nat) : List Node → List Station
  | [] => []
  | child :: rest =>
    if child.named then
      (stations closed child).map (·.below index) ++ stationsBelow closed (index + 1) rest
    else stationsBelow closed index rest

end

/-- A walk has its start as the first station, and then those in its named children. -/
theorem stations_eq (closed : Node → Bool) (node : Node) :
    node.stations closed =
      if closed node then [] else ⟨[], node⟩ :: stationsBelow closed 0 node.children := by
  cases node
  rfl

section Stations

variable {closed : Node → Bool} {start node : Node} {address : List Nat}

/-- A station below some children is one of a named child, which has its number before the address. -/
theorem mem_stationsBelow_iff {station : Station} {children : List Node} :
    ∀ {first : Nat}, station ∈ stationsBelow closed first children ↔
      ∃ (index : Nat) (child : Node), (children.filter (·.named))[index]? = some child ∧
        ∃ inner ∈ child.stations closed, station = inner.below (first + index) := by
  -- The first named child has the first number, and the others are counted from the next one on.
  induction children with
  | nil => simp [stationsBelow]
  | cons child rest ih =>
    intro first
    rw [stationsBelow]
    by_cases named : child.named
    · rw [if_pos named, List.mem_append, List.mem_map, ih, List.filter_cons_of_pos named]
      constructor
      -- The first number picks the first child, and a later one picks among the others.
      · rintro (⟨inner, member, rfl⟩ | ⟨index, other, found, inner, member, rfl⟩)
        · exact ⟨0, child, rfl, inner, member, rfl⟩
        · exact ⟨index + 1, other, found, inner, member, by rw [Nat.add_assoc, Nat.add_comm 1]⟩
      · rintro ⟨index, other, found, inner, member, rfl⟩
        cases index with
        | zero =>
          cases found
          exact .inl ⟨inner, member, rfl⟩
        | succ index =>
          exact .inr ⟨index, other, found, inner, member, by rw [Nat.add_assoc, Nat.add_comm 1]⟩
    · rw [if_neg named, ih, List.filter_cons_of_neg named]

/-- The empty address leads to where the walk starts. -/
theorem reaches_nil_iff : start.Reaches closed [] node ↔ closed start = false ∧ node = start := by
  constructor
  -- The empty address passes nothing but the start itself.
  · rintro ⟨leads, free⟩
    cases leads
    exact ⟨free [] List.prefix_rfl start rfl, rfl⟩
  · rintro ⟨free, rfl⟩
    refine ⟨rfl, fun above inside passed found => ?_⟩
    rw [List.prefix_nil.1 inside] at found
    cases found
    exact free

/-- Any other address leads through a named child of the start. -/
theorem reaches_cons_iff {index : Nat} :
    start.Reaches closed (index :: address) node ↔
      closed start = false ∧ ∃ child, start.namedChildren[index]? = some child ∧
        child.Reaches closed address node := by
  constructor
  · rintro ⟨leads, free⟩
    obtain ⟨child, found, onward⟩ := Option.bind_eq_some_iff.1 leads
    refine ⟨free [] (List.nil_prefix) start rfl, child, found, onward, fun above inside passed met => ?_⟩
    -- What is met on the way from the child is met one step later from the start.
    refine free (index :: above) ((List.cons_prefix_cons).2 ⟨rfl, inside⟩) passed ?_
    rw [nodeAt?, found]
    exact met
  · rintro ⟨startFree, child, found, leads, free⟩
    refine ⟨by rw [nodeAt?, found]; exact leads, fun above inside passed met => ?_⟩
    rcases List.prefix_cons_iff.1 inside with rfl | ⟨further, rfl, within⟩
    · cases met
      exact startFree
    · rw [nodeAt?, found] at met
      exact free further within passed met

/-- A walk has its stations exactly at the addresses that lead somewhere with no closed node on the way. -/
theorem mem_stations_iff {station : Station} :
    station ∈ start.stations closed ↔ start.Reaches closed station.address station.node := by
  obtain ⟨address, node⟩ := station
  -- An address of one number more is an address of the named child that the first number picks.
  induction start using children_induction generalizing address with
  | step start ih =>
    rw [stations_eq]
    cases address with
    | nil =>
      rw [reaches_nil_iff]
      split
      · rename_i shut
        simp [shut]
      · rename_i free
        simp only [List.mem_cons, Station.mk.injEq, true_and, mem_stationsBelow_iff]
        constructor
        -- No address below the node is empty.
        · rintro (same | ⟨_, _, _, _, _, moved⟩)
          · exact ⟨by simpa using free, same⟩
          · simp [Station.below] at moved
        · exact fun found => .inl found.2
    | cons index address =>
      rw [reaches_cons_iff]
      split
      · rename_i shut
        simp [shut]
      · rename_i free
        simp only [List.mem_cons, Station.mk.injEq, reduceCtorEq, false_and, false_or, mem_stationsBelow_iff]
        constructor
        -- The first number picks a named child, and the others lead on from there.
        · rintro ⟨place, child, found, inner, member, moved⟩
          simp only [Station.below, Station.mk.injEq, List.cons.injEq] at moved
          obtain ⟨⟨rfl, rfl⟩, rfl⟩ := moved
          have isChild := (List.mem_filter.1 (List.mem_of_getElem? found)).1
          rw [Nat.zero_add]
          exact ⟨by simpa using free, child, found, (ih child isChild _).1 member⟩
        · rintro ⟨_, child, found, onward⟩
          have isChild := (List.mem_filter.1 (List.mem_of_getElem? found)).1
          exact ⟨index, child, found, ⟨address, node⟩, (ih child isChild _).2 onward, by simp [Station.below]⟩

mutual

/-- A walk meets its stations in the order of their addresses. -/
theorem pairwise_stations (closed : Node → Bool) :
    ∀ root : Node, (root.stations closed).Pairwise fun earlier later => earlier.address < later.address
  | ⟨kind, named, span, field, children⟩ => by
    rw [stations_eq]
    split
    · exact .nil
    · refine List.pairwise_cons.2 ⟨fun station member => ?_, pairwise_stationsBelow closed 0 children⟩
      -- Every other station has an address of at least one number.
      obtain ⟨_, _, _, inner, _, rfl⟩ := mem_stationsBelow_iff.1 member
      exact List.nil_lt_cons _ _

/-- A walk through children meets its stations in the order of their addresses. -/
theorem pairwise_stationsBelow (closed : Node → Bool) (first : Nat) :
    ∀ children : List Node,
      (stationsBelow closed first children).Pairwise fun earlier later => earlier.address < later.address
  | [] => .nil
  | child :: rest => by
    rw [stationsBelow]
    split
    · refine List.pairwise_append.2 ⟨?_, pairwise_stationsBelow closed (first + 1) rest, ?_⟩
      · refine List.pairwise_map.2 ((pairwise_stations closed child).imp fun before => ?_)
        exact List.cons_lt_cons_iff.2 (.inr ⟨rfl, before⟩)
      · intro earlier inChild later inRest
        -- The addresses in the child start with its number, and those in the rest with greater ones.
        obtain ⟨_, _, rfl⟩ := List.mem_map.1 inChild
        obtain ⟨index, _, _, _, _, rfl⟩ := mem_stationsBelow_iff.1 inRest
        exact List.cons_lt_cons_iff.2 (.inl (by omega))
    · exact pairwise_stationsBelow closed first rest

end

end Stations

/-- The visit that a walk pays at an address, if its start was reached from the given node. -/
def visitAt? (above : Option Node) (start : Node) : List Nat → Option Visit
  | [] => some ⟨above, start⟩
  | index :: address => start.namedChildren[index]?.bind fun child => child.visitAt? (some start) address

mutual

/-- A walk pays its visits at the addresses of its stations. -/
theorem map_visitAt?_stations (closed : Node → Bool) (above : Option Node) :
    ∀ root : Node, (root.stations closed).map (root.visitAt? above ·.address) = (root.visits closed above).map some
  | ⟨kind, named, span, field, children⟩ => by
    rw [stations_eq, visits_eq]
    split
    · rfl
    · rw [List.map_cons, List.map_cons]
      refine congrArg _ (map_visitAt?_stationsBelow closed above _ 0 children fun index => ?_)
      rw [Nat.zero_add]
      rfl

/-- A walk through the last children of a node pays its visits at the addresses of its stations. -/
theorem map_visitAt?_stationsBelow (closed : Node → Bool) (above : Option Node) (parent : Node) (first : Nat) :
    ∀ children : List Node,
      (∀ index, (children.filter (·.named))[index]? = parent.namedChildren[first + index]?) →
      (stationsBelow closed first children).map (parent.visitAt? above ·.address) =
        (visitsBelow closed parent children).map some
  | [], _ => rfl
  | child :: rest, numbered => by
    rw [stationsBelow, visitsBelow]
    by_cases named : child.named
    · -- The child has the first number, and the others are counted from the next one on.
      rw [List.filter_cons_of_pos named] at numbered
      have picked : parent.namedChildren[first]? = some child := (numbered 0).symm
      have onward : ∀ station : Station,
          parent.visitAt? above (station.below first).address = child.visitAt? (some parent) station.address := by
        intro station
        simp [Station.below, visitAt?, picked]
      rw [if_pos named, if_pos named, List.map_append, List.map_append, List.map_map,
        ← map_visitAt?_stations closed (some parent) child]
      congr 1
      · exact List.map_congr_left fun station _ => onward station
      · refine map_visitAt?_stationsBelow closed above parent (first + 1) rest fun index => ?_
        rw [Nat.add_assoc, Nat.add_comm 1]
        exact numbered (index + 1)
    · -- A token has no number.
      rw [List.filter_cons_of_neg named] at numbered
      rw [if_neg named, if_neg named]
      exact map_visitAt?_stationsBelow closed above parent first rest numbered

end

section Visits

variable {above : Option Node} {start : Node}

/-- A visit is paid to the node at its address. -/
theorem map_node_visitAt? (above : Option Node) (start : Node) (address : List Nat) :
    (start.visitAt? above address).map (·.node) = start.nodeAt? address := by
  induction address generalizing above start with
  | nil => rfl
  | cons index address ih =>
    rw [visitAt?, nodeAt?, Option.map_bind]
    -- Both take the same step to a named child.
    exact congrArg _ (funext fun child => ih (some start) child)

/-- A visit away from the start is paid to a named child of the node at the address without its last number. -/
theorem visitAt?_concat_eq_some_iff {address : List Nat} {index : Nat} {visit : Visit} :
    start.visitAt? above (address ++ [index]) = some visit ↔
      ∃ parent, start.nodeAt? address = some parent ∧ visit.parent = some parent ∧
        parent.namedChildren[index]? = some visit.node := by
  obtain ⟨parent?, node⟩ := visit
  -- The last step is taken from the node that the other ones lead to.
  induction address generalizing above start with
  | nil =>
    rw [List.nil_append, visitAt?, Option.bind_eq_some_iff]
    constructor
    · rintro ⟨child, picked, reached⟩
      cases reached
      exact ⟨start, rfl, rfl, picked⟩
    · rintro ⟨parent, leads, rfl, picked⟩
      cases leads
      exact ⟨node, picked, rfl⟩
  | cons first address ih =>
    simp only [List.cons_append, visitAt?, nodeAt?, Option.bind_eq_some_iff, ih]
    constructor
    · rintro ⟨child, picked, parent, leads, onward⟩
      exact ⟨parent, ⟨child, picked, leads⟩, onward⟩
    · rintro ⟨parent, ⟨child, picked, leads⟩, onward⟩
      exact ⟨child, picked, parent, leads, onward⟩

/-- A walk has its stations at the nodes that it visits. -/
theorem map_node_stations (closed : Node → Bool) (parent : Option Node) (root : Node) :
    (root.stations closed).map (·.node) = (root.visits closed parent).map (·.node) := by
  refine List.map_injective_iff.2 (fun _ _ => Option.some.inj) ?_
  -- Both nodes are where the address of the station leads.
  calc ((root.stations closed).map (·.node)).map some
      = (root.stations closed).map fun station => (root.visitAt? parent station.address).map (·.node) := by
        rw [List.map_map]
        refine List.map_congr_left fun station member => ?_
        rw [map_node_visitAt?, (mem_stations_iff.1 member).leads]
        rfl
    _ = ((root.visits closed parent).map some).map (Option.map (·.node)) := by
        rw [← map_visitAt?_stations, List.map_map]
        rfl
    _ = ((root.visits closed parent).map (·.node)).map some := by
        rw [List.map_map, List.map_map]
        rfl

end Visits

end Node

end CallersFirst
