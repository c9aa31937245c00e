import CallersFirst.Proofs.CallGraph.Recursion
import CallersFirst.Proofs.Except
import CallersFirst.Proofs.Loops

/-!
The readable order by loops over flags, stacks and cursors. A loop that does not end and a position outside of
its list would each leave the whole without a result. Neither happens, and the order is the same.
-/

namespace CallersFirst

namespace Loops

open CallGraph (calleesOf getElem?_edges)

/-- For each place below a bound whether it is listed. -/
def flags (size : Nat) (places : List Nat) : List Bool :=
  (List.range size).map (· ∈ places)

/-- Changes the flag of a place. -/
def setFlag? (flags : List Bool) (place : Nat) (flag : Bool) : Option (List Bool) :=
  if place < flags.length then some (flags.set place flag) else none

/-- Flags a place and puts it up for its calls to be followed, unless it is flagged already. -/
def mark? (marks : List Bool × List Nat) (place : Nat) : Option (List Bool × List Nat) := do
  if ← marks.1[place]? then some marks
  else some (← setFlag? marks.1 place true, place :: marks.2)

/-- Follows the calls of the last one of the pending places, if there is any. -/
def spreadTurn? (edges : Array (List Nat)) :
    List Bool × List Nat → Option (List Bool ⊕ List Bool × List Nat)
  | (reached, []) => some (.inl reached)
  | (reached, place :: pending) => do
    let callees ← edges[place]?
    let marks ← callees.foldlM mark? (reached, pending)
    some (.inr marks)

/-- The flags of the places that can be reached from flagged ones. -/
noncomputable def reachableFrom? (edges : Array (List Nat)) (roots : List Bool) : Option (List Bool) :=
  loop? (spreadTurn? edges)
    (roots, ((List.range roots.length).filter fun place => roots[place]? = some true).reverse)

/-- What is kept while places are put out. -/
structure Emission where
  /-- Which places have been entered. -/
  visited : List Bool
  /-- Which places are on the stack. -/
  inProgress : List Bool
  /-- The places entered, in this order. -/
  output : List Nat

/-- Enters a place. -/
def Emission.enter? (emission : Emission) (place : Nat) : Option Emission := do
  let inProgress ← setFlag? emission.inProgress place true
  let visited ← setFlag? emission.visited place true
  some ⟨visited, inProgress, emission.output ++ [place]⟩

/--
Looks at the next call of the place on top of a stack, if there is any.

Each place comes with a cursor, the index of the call of it to be looked at next.
-/
def drainTurn? (edges : Array (List Nat)) :
    Emission × List (Nat × Nat) → Option (Emission ⊕ Emission × List (Nat × Nat))
  | (emission, []) => some (.inl emission)
  | (emission, (place, cursor) :: outer) => do
    let callees ← edges[place]?
    if callees.length ≤ cursor then
      -- All calls have been looked at.
      let inProgress ← setFlag? emission.inProgress place false
      some (.inr ({ emission with inProgress }, outer))
    else
      let callee ← callees[cursor]?
      if ← emission.inProgress[callee]? then
        -- A call back to the stack, such as that of a unit to itself.
        some (.inr (emission, (place, cursor + 1) :: outer))
      else if ← emission.visited[callee]? then
        -- An earlier call has given the callee its place.
        some (.inr (emission, (place, cursor + 1) :: outer))
      else
        let entered ← emission.enter? callee
        some (.inr (entered, (callee, 0) :: (place, cursor + 1) :: outer))

/-- Puts out a place and everything that can be reached from it, without what has been entered. -/
noncomputable def emit? (edges : Array (List Nat)) (emission : Emission) (place : Nat) : Option Emission := do
  if ← emission.visited[place]? then some emission
  else
    -- The stack starts with the place alone, in front of all of its calls.
    let entered ← emission.enter? place
    loop? (drainTurn? edges) (entered, [(place, 0)])

section Flags

variable {size place : Nat} {places : List Nat}

/-- There is one flag for each place below the bound. -/
@[simp] theorem length_flags : (flags size places).length = size := by
  simp [flags]

/-- A flag tells whether its place is listed. -/
theorem getElem?_flags (bound : place < size) :
    (flags size places)[place]? = some (decide (place ∈ places)) := by
  simp [flags, List.getElem?_range bound]

/-- Lists of the same places have the same flags. -/
theorem flags_congr {others : List Nat} (same : ∀ place < size, place ∈ places ↔ place ∈ others) :
    flags size places = flags size others := by
  -- Only places below the bound have a flag.
  refine List.map_congr_left fun place member => ?_
  simp [same place (List.mem_range.1 member)]

/-- Without a listed place no flag is set. -/
@[simp] theorem flags_nil : flags size [] = List.replicate size false := by
  simp [flags]

/-- Setting the flag of a place lists it. -/
theorem setFlag?_true (bound : place < size) :
    setFlag? (flags size places) place true = some (flags size (place :: places)) := by
  -- The flags agree place by place, and only that of the place itself has changed.
  rw [setFlag?, if_pos (by simpa using bound)]
  refine congrArg some (List.ext_getElem (by simp) fun other otherBound _ => ?_)
  simp only [flags, List.getElem_set, List.getElem_map, List.getElem_range, List.mem_cons]
  by_cases same : place = other
  · simp_all
  · simp [same, Ne.symm same]

/-- Clearing the flag of a place that is listed once takes it off the list. -/
theorem setFlag?_false (bound : place < size) (once : place ∉ places) :
    setFlag? (flags size (place :: places)) place false = some (flags size places) := by
  -- The place is on the rest of the list as little as its flag says.
  rw [setFlag?, if_pos (by simpa using bound)]
  refine congrArg some (List.ext_getElem (by simp) fun other otherBound _ => ?_)
  simp only [flags, List.getElem_set, List.getElem_map, List.getElem_range, List.mem_cons]
  by_cases same : place = other
  · simp_all
  · simp [same, Ne.symm same]

end Flags

section Spread

variable {edges : Array (List Nat)}

/-- No edge leads out of range. -/
def StaysInside (edges : Array (List Nat)) : Prop :=
  ∀ place, ∀ target ∈ calleesOf edges place, target < edges.size

/-- A place flagged before changes nothing. -/
theorem mark?_of_mem {size place : Nat} {reached pending : List Nat} (bound : place < size)
    (known : place ∈ reached) :
    mark? (flags size reached, pending) place = some (flags size reached, pending) := by
  simp [mark?, getElem?_flags bound, known]

/-- A place not flagged before is flagged and pending afterwards. -/
theorem mark?_of_not_mem {size place : Nat} {reached pending : List Nat} (bound : place < size)
    (new : place ∉ reached) :
    mark? (flags size reached, pending) place = some (flags size (place :: reached), place :: pending) := by
  simp [mark?, getElem?_flags bound, new, setFlag?_true bound]

/-- Marking the targets of some edges adds those not flagged before, each of which was fresh. -/
theorem exists_foldlM_mark? {size : Nat} (targets : List Nat) (bounded : ∀ target ∈ targets, target < size) :
    ∀ reached pending : List Nat, ∃ added,
      targets.foldlM mark? (flags size reached, pending) =
        some (flags size (added ++ reached), added ++ pending) ∧
      (∀ target ∈ targets, target ∈ added ++ reached) ∧ (∀ place ∈ added, place ∈ targets) ∧
      added.length + (Walk.fresh size (added ++ reached)).length ≤ (Walk.fresh size reached).length := by
  -- Each target is passed over or added, so that a repeated one is added once.
  induction targets with
  | nil => exact fun reached pending => ⟨[], by simp⟩
  | cons target rest ih =>
    intro reached pending
    have bound := bounded target (by simp)
    replace ih := ih fun other member => bounded other (by simp [member])
    by_cases known : target ∈ reached
    · obtain ⟨added, marked, covered, aimed, fewer⟩ := ih reached pending
      refine ⟨added, ?_, ?_, fun place member => by simp [aimed place member], fewer⟩
      · rw [List.foldlM_cons, mark?_of_mem bound known]
        exact marked
      · intro other member
        rcases List.mem_cons.1 member with rfl | member
        · simp [known]
        · exact covered other member
    · obtain ⟨added, marked, covered, aimed, fewer⟩ := ih (target :: reached) (target :: pending)
      -- The target itself is one fresh place less.
      have one := Walk.fresh_length_lt bound known
      refine ⟨added ++ [target], ?_, ?_, ?_, ?_⟩
      · rw [List.foldlM_cons, mark?_of_not_mem bound known]
        simpa using marked
      · intro other member
        rcases List.mem_cons.1 member with rfl | member
        · simp
        · simpa using covered other member
      · intro place member
        rcases List.mem_append.1 member with member | member
        · simp [aimed place member]
        · simp [List.mem_singleton.1 member]
      · simp only [List.append_assoc, List.singleton_append, List.length_append, List.length_singleton]
        omega

/-- What holds between two turns of the loop: nothing reached has calls left out, unless it is pending. -/
structure IsSpreading (edges : Array (List Nat)) (starts reached pending : List Nat) : Prop where
  /-- The starts are reached. -/
  starts_subset : ∀ start ∈ starts, start ∈ reached
  /-- Everything reached can be reached from a start. -/
  led : ∀ place ∈ reached, ∃ start ∈ starts, Reaches (calleesOf edges) start place
  /-- What is pending has been reached. -/
  pending_subset : ∀ place ∈ pending, place ∈ reached
  /-- What is pending has calls to be looked up. -/
  bounded : ∀ place ∈ pending, place < edges.size
  /-- The calls of everything else lead to what has been reached. -/
  followed : ∀ place ∈ reached, place ∉ pending → ∀ target ∈ calleesOf edges place, target ∈ reached

namespace IsSpreading

variable {starts reached pending : List Nat}

/-- Following the calls of one pending place keeps the invariant. -/
theorem turn {place : Nat} {added : List Nat} (spreading : IsSpreading edges starts reached (place :: pending))
    (inside : StaysInside edges)
    (covered : ∀ target ∈ calleesOf edges place, target ∈ added ++ reached)
    (aimed : ∀ target ∈ added, target ∈ calleesOf edges place) :
    IsSpreading edges starts (added ++ reached) (added ++ pending) := by
  -- What is added is called from the place, which was reached before.
  have isReached := spreading.pending_subset place (List.mem_cons_self ..)
  refine ⟨?_, ?_, ?_, ?_, ?_⟩
  · exact fun start member => List.mem_append_right _ (spreading.starts_subset start member)
  · intro other member
    rcases List.mem_append.1 member with new | old
    · obtain ⟨start, isStart, way⟩ := spreading.led place isReached
      exact ⟨start, isStart, way.tail (aimed other new)⟩
    · exact spreading.led other old
  · intro other member
    rcases List.mem_append.1 member with new | old
    · exact List.mem_append_left _ new
    · exact List.mem_append_right _ (spreading.pending_subset other (List.mem_cons_of_mem _ old))
  · intro other member
    rcases List.mem_append.1 member with new | old
    · exact inside place other (aimed other new)
    · exact spreading.bounded other (List.mem_cons_of_mem _ old)
  · intro other member idle target edge
    rw [List.mem_append, not_or] at idle
    have old := (List.mem_append.1 member).resolve_left idle.1
    -- The calls of the place itself have just been followed, those of the others before.
    by_cases same : other = place
    · exact covered target (same ▸ edge)
    · exact List.mem_append_right _ (spreading.followed other old (by simp [same, idle.2]) target edge)

/-- With nothing pending exactly what the starts lead to is reached. -/
theorem mem_iff (spreading : IsSpreading edges starts reached []) {place : Nat} :
    place ∈ reached ↔ ∃ start ∈ starts, Reaches (calleesOf edges) start place := by
  constructor
  · exact spreading.led place
  · rintro ⟨start, isStart, way⟩
    -- No call leads out of what has been reached.
    have closed : IsClosed (calleesOf edges) reached :=
      fun other member => spreading.followed other member List.not_mem_nil
    exact closed.mem_of_reaches (spreading.starts_subset start isStart) way

/-- The loop ends, and flags what the starts lead to. -/
theorem exists_loop? (inside : StaysInside edges) (turns : Nat) :
    ∀ {reached pending : List Nat}, IsSpreading edges starts reached pending →
      pending.length + (Walk.fresh edges.size reached).length ≤ turns →
      ∃ final, loop? (spreadTurn? edges) (flags edges.size reached, pending) = some (flags edges.size final) ∧
        ∀ place, place ∈ final ↔ ∃ start ∈ starts, Reaches (calleesOf edges) start place := by
  -- The places pending and the fresh ones together bound the number of turns.
  induction turns with
  | zero =>
    intro reached pending spreading enough
    obtain rfl : pending = [] := List.eq_nil_of_length_eq_zero (by omega)
    exact ⟨reached, loop?_of_inl rfl, fun place => spreading.mem_iff⟩
  | succ turns ih =>
    intro reached pending spreading enough
    cases pending with
    | nil => exact ⟨reached, loop?_of_inl rfl, fun place => spreading.mem_iff⟩
    | cons place rest =>
      obtain ⟨added, marked, covered, aimed, fewer⟩ := exists_foldlM_mark? _ (inside place) reached rest
      -- A place that becomes pending was fresh before, so that the turn only takes one away.
      have fewerTurns : (added ++ rest).length + (Walk.fresh edges.size (added ++ reached)).length ≤ turns := by
        simp only [List.length_append, List.length_cons] at enough ⊢
        omega
      obtain ⟨final, ended, mem_final⟩ := ih (spreading.turn inside covered aimed) fewerTurns
      have turned : spreadTurn? edges (flags edges.size reached, place :: rest) =
          some (.inr (flags edges.size (added ++ reached), added ++ rest)) := by
        simp [spreadTurn?, getElem?_edges (spreading.bounded place (List.mem_cons_self ..)), marked]
      exact ⟨final, (loop?_of_inr turned).trans ended, mem_final⟩

end IsSpreading

/-- From flagged starts the loop ends, with flags for what they lead to. -/
theorem exists_reachableFrom? (inside : StaysInside edges)
    {starts : List Nat} (within : ∀ start ∈ starts, start < edges.size) :
    ∃ final, reachableFrom? edges (flags edges.size starts) = some (flags edges.size final) ∧
      ∀ place, place ∈ final ↔ ∃ start ∈ starts, Reaches (calleesOf edges) start place := by
  -- At first just the starts are reached, and all of them are pending.
  generalize pending_eq : ((List.range (flags edges.size starts).length).filter fun place =>
    (flags edges.size starts)[place]? = some true).reverse = pending
  have mem_pending : ∀ place, place ∈ pending ↔ place ∈ starts := by
    intro place
    simp only [← pending_eq, List.mem_reverse, List.mem_filter, List.mem_range, length_flags,
      decide_eq_true_eq]
    constructor
    · rintro ⟨bound, flagged⟩
      simpa [getElem?_flags bound] using flagged
    · exact fun member => ⟨within place member, by simp [getElem?_flags (within place member), member]⟩
  have spreading : IsSpreading edges starts starts pending :=
    { starts_subset := fun _ member => member
      led := fun place member => ⟨place, member, .refl⟩
      pending_subset := fun place member => (mem_pending place).1 member
      bounded := fun place member => within place ((mem_pending place).1 member)
      followed := fun place member idle => absurd ((mem_pending place).2 member) idle }
  rw [reachableFrom?, pending_eq]
  exact spreading.exists_loop? inside _ le_rfl

end Spread

/-- What is kept after a walk: flags for the vertices entered and for those on the trail. -/
def emissionOf (size : Nat) (walk : Walk) : Emission :=
  ⟨flags size walk.entered, flags size walk.path, walk.entered.reverse⟩

/-- The frame of a walk that a place with a cursor stands for. -/
def frameOf (edges : Array (List Nat)) (top : Nat × Nat) : Frame :=
  ⟨top.1, (calleesOf edges top.1).drop top.2⟩

/-- The vertices on a trail are vertices entered before, each of them once. -/
structure IsTrail (size : Nat) (path entered : List Nat) : Prop where
  /-- No vertex is on the trail twice. -/
  nodup : path.Nodup
  /-- The vertices on the trail have been entered. -/
  subset : ∀ vertex ∈ path, vertex ∈ entered
  /-- They are within range. -/
  bounded : ∀ vertex ∈ path, vertex < size

namespace IsTrail

variable {size vertex : Nat} {path entered : List Nat}

/-- A fresh vertex can be entered. -/
theorem enter (isTrail : IsTrail size path entered) (bound : vertex < size) (fresh : vertex ∉ entered) :
    IsTrail size (vertex :: path) (vertex :: entered) := by
  refine ⟨List.nodup_cons.2 ⟨fun member => fresh (isTrail.subset vertex member), isTrail.nodup⟩, ?_, ?_⟩
  · exact List.cons_subset_cons vertex isTrail.subset
  · exact List.forall_mem_cons.2 ⟨bound, isTrail.bounded⟩

/-- The current vertex can be left. -/
theorem leave (isTrail : IsTrail size (vertex :: path) entered) : IsTrail size path entered :=
  ⟨(List.nodup_cons.1 isTrail.nodup).2, (List.forall_mem_cons.1 isTrail.subset).2,
    (List.forall_mem_cons.1 isTrail.bounded).2⟩

end IsTrail

section Drain

variable {edges : Array (List Nat)}

/-- Entering a vertex sets its flags and puts it out. -/
theorem enter?_emissionOf {size vertex : Nat} (next : Nat → List Nat) (walk : Walk) (bound : vertex < size) :
    (emissionOf size walk).enter? vertex = some (emissionOf size (walk.enter next vertex)) := by
  simp [Emission.enter?, emissionOf, setFlag?_true bound, Walk.enter, Walk.path]

section Turns

variable {emission : Emission} {place cursor callee : Nat} {rest : List Nat} {outer : List (Nat × Nat)}

/-- A cursor in front of a call finds it. -/
theorem getElem?_of_drop_eq_cons {calls : List Nat} (ahead : calls.drop cursor = callee :: rest) :
    ¬ calls.length ≤ cursor ∧ calls[cursor]? = some callee ∧ calls.drop (cursor + 1) = rest := by
  have found : calls[cursor]? = some callee := by rw [← List.head?_drop, ahead, List.head?_cons]
  refine ⟨Nat.not_le.2 (List.getElem?_eq_some_iff.1 found).1, found, ?_⟩
  rw [← List.tail_drop, ahead, List.tail_cons]

/-- A place whose calls have all been looked at is taken off the stack. -/
theorem drainTurn?_leave (bound : place < edges.size) (finished : (calleesOf edges place).drop cursor = [])
    {inProgress : List Bool} (cleared : setFlag? emission.inProgress place false = some inProgress) :
    drainTurn? edges (emission, (place, cursor) :: outer) = some (.inr ({ emission with inProgress }, outer)) := by
  simp [drainTurn?, getElem?_edges bound, List.drop_eq_nil_iff.1 finished, cleared]

/-- A call to a place entered before is passed over, whether that place is on the stack or not. -/
theorem drainTurn?_pass (bound : place < edges.size)
    (ahead : (calleesOf edges place).drop cursor = callee :: rest)
    {onStack : Bool} (flagged : emission.inProgress[callee]? = some onStack)
    (known : emission.visited[callee]? = some true) :
    drainTurn? edges (emission, (place, cursor) :: outer) =
      some (.inr (emission, (place, cursor + 1) :: outer)) := by
  obtain ⟨within, found, _⟩ := getElem?_of_drop_eq_cons ahead
  -- The first flag decides which of the two branches is taken, and they do the same.
  cases onStack <;> simp [drainTurn?, getElem?_edges bound, if_neg within, found, flagged, known]

/-- A place called for the first time is put on the stack. -/
theorem drainTurn?_enter (bound : place < edges.size)
    (ahead : (calleesOf edges place).drop cursor = callee :: rest)
    (idle : emission.inProgress[callee]? = some false) (fresh : emission.visited[callee]? = some false)
    {entered : Emission} (enters : emission.enter? callee = some entered) :
    drainTurn? edges (emission, (place, cursor) :: outer) =
      some (.inr (entered, (callee, 0) :: (place, cursor + 1) :: outer)) := by
  obtain ⟨within, found, _⟩ := getElem?_of_drop_eq_cons ahead
  simp [drainTurn?, getElem?_edges bound, if_neg within, found, idle, fresh, enters]

/-- The top of a stack stands for the current frame of the trail. -/
theorem exists_top {vertex : Nat} {pending : List Nat} {trail : List Frame} {stack : List (Nat × Nat)}
    (frames : ⟨vertex, pending⟩ :: trail = stack.map (frameOf edges)) :
    ∃ cursor below, stack = (vertex, cursor) :: below ∧
      (calleesOf edges vertex).drop cursor = pending ∧ trail = below.map (frameOf edges) := by
  obtain ⟨⟨place, cursor⟩, below, rfl, top, rfl⟩ := List.map_eq_cons_iff.1 frames.symm
  obtain ⟨rfl, ahead⟩ := Frame.mk.inj top
  exact ⟨cursor, below, rfl, ahead, rfl⟩

end Turns

/--
The loop ends, with what is kept after the walk has run to its end.

A cursor stands for the calls that it has not passed, so that every turn is a step of the walk.
-/
theorem loop?_emissionOf (inside : StaysInside edges) (walk : Walk) :
    ∀ stack, walk.trail = stack.map (frameOf edges) →
      IsTrail edges.size walk.path walk.entered →
      loop? (drainTurn? edges) (emissionOf edges.size walk, stack) =
        some (emissionOf edges.size (walk.run edges.size (calleesOf edges))) := by
  -- The induction follows the walk, whose trail lists for each place the calls behind its cursor.
  fun_induction Walk.run edges.size (calleesOf edges) walk with
  | case1 walk finished =>
    intro stack frames isTrail
    obtain rfl : stack = [] := by simpa [finished] using frames.symm
    exact loop?_of_inl rfl
  | case2 walk vertex outer shape ih =>
    intro stack frames isTrail
    obtain ⟨cursor, below, rfl, finished, rest⟩ := exists_top (shape ▸ frames)
    have path : walk.path = vertex :: outer.map (·.vertex) := by simp [Walk.path, shape]
    rw [path] at isTrail
    have bound := isTrail.bounded vertex (List.mem_cons_self ..)
    -- The vertex stands nowhere else on the trail, so that clearing its flag takes it off.
    have once := (List.nodup_cons.1 isTrail.nodup).1
    have cleared : setFlag? (emissionOf edges.size walk).inProgress vertex false =
        some (flags edges.size (outer.map (·.vertex))) := by
      rw [emissionOf, path]
      exact setFlag?_false bound once
    rw [loop?_of_inr (drainTurn?_leave bound finished cleared)]
    exact ih below rest isTrail.leave
  | case3 walk vertex target pending outer shape advanced fresh ih =>
    intro stack frames isTrail
    obtain ⟨cursor, below, rfl, ahead, rest⟩ := exists_top (shape ▸ frames)
    have path : walk.path = vertex :: outer.map (·.vertex) := by simp [Walk.path, shape]
    have bound := isTrail.bounded vertex (by simp [path])
    have idle : target ∉ walk.path := fun member => fresh.2 (isTrail.subset target member)
    -- Moving the cursor changes no flag.
    have moved : emissionOf edges.size walk = emissionOf edges.size advanced := by
      rw [emissionOf, path]
      rfl
    have entered := enter?_emissionOf (calleesOf edges) advanced fresh.1
    rw [← moved] at entered
    rw [loop?_of_inr (drainTurn?_enter bound ahead (by simp [emissionOf, getElem?_flags fresh.1, idle])
      (by simp [emissionOf, getElem?_flags fresh.1, fresh.2]) entered)]
    rw [path] at isTrail
    refine ih _ ?_ (isTrail.enter fresh.1 fresh.2)
    simp [Walk.enter, frameOf, advanced, rest, (getElem?_of_drop_eq_cons ahead).2.2]
  | case4 walk vertex target pending outer shape advanced old ih =>
    intro stack frames isTrail
    obtain ⟨cursor, below, rfl, ahead, rest⟩ := exists_top (shape ▸ frames)
    have path : walk.path = (advanced.meet target).path := by simp [Walk.path, shape, advanced]
    have bound := isTrail.bounded vertex (by simp [Walk.path, shape])
    have targetBound : target < edges.size :=
      inside vertex target (List.mem_of_mem_drop (ahead.symm ▸ List.mem_cons_self ..))
    -- A target in range that is not fresh has been entered.
    have known : target ∈ walk.entered := by
      by_contra missing
      exact old ⟨targetBound, missing⟩
    have moved : emissionOf edges.size walk = emissionOf edges.size (advanced.meet target) := by
      rw [emissionOf, emissionOf, path, Walk.entered_meet]
    rw [loop?_of_inr (drainTurn?_pass bound ahead (getElem?_flags targetBound)
      (by simp [emissionOf, getElem?_flags targetBound, known])), moved]
    rw [path] at isTrail
    refine ih _ ?_ (by rwa [Walk.entered_meet])
    simp [frameOf, advanced, rest, (getElem?_of_drop_eq_cons ahead).2.2]

/-- Putting out a place ends, with what is kept after walking from it. -/
theorem emit?_emissionOf (inside : StaysInside edges) {walk : Walk} (idle : walk.trail = []) {place : Nat}
    (bound : place < edges.size) :
    emit? edges (emissionOf edges.size walk) place =
      some (emissionOf edges.size (walk.visit edges.size (calleesOf edges) place)) := by
  have flagged : (emissionOf edges.size walk).visited[place]? = some (decide (place ∈ walk.entered)) :=
    getElem?_flags bound
  by_cases known : place ∈ walk.entered
  · simp [emit?, Walk.visit, flagged, known]
  · have noPath : walk.path = [] := by simp [Walk.path, idle]
    have isTrail : IsTrail edges.size walk.path walk.entered := by
      rw [noPath]
      exact ⟨List.nodup_nil, by simp, by simp⟩
    -- The walk that enters the place has just this one frame.
    have drained := loop?_emissionOf inside (walk.enter (calleesOf edges) place) [(place, 0)]
      (by simp [Walk.enter, idle, frameOf]) (isTrail.enter bound known)
    simp [emit?, Walk.visit, flagged, known, enter?_emissionOf (calleesOf edges) walk bound, drained]

/-- With an empty trail nothing is in progress. -/
theorem inProgress_emissionOf {walk : Walk} (idle : walk.trail = []) (size : Nat) :
    (emissionOf size walk).inProgress = List.replicate size false := by
  simp [emissionOf, Walk.path, idle]

end Drain

end Loops

namespace CallGraph

open Loops

/-- For each place whether no other unit calls it. -/
def rootFlags (graph : CallGraph) : List Bool :=
  (List.range graph.size).map (inDegreeOf graph.edges · = 0)

/-- Puts out a place if it is flagged as a root or not flagged as reached. -/
noncomputable def emitDue? (graph : CallGraph) (reached : List Bool) (emission : Emission) (place : Nat) :
    Option Emission := do
  if (← graph.rootFlags[place]?) || !(← reached[place]?) then emit? graph.edges emission place
  else some emission

/-- Goes through the first places and puts them out where that is due. -/
noncomputable def emitFirst? (graph : CallGraph) (reached : List Bool) (count : Nat) : Option Emission :=
  (List.range count).foldlM (graph.emitDue? reached)
    ⟨List.replicate graph.size false, List.replicate graph.size false, []⟩

/-- The order that the loops give, if they end and find all that they look up. -/
noncomputable def loopOrder? (graph : CallGraph) : Option (List String) := do
  let reached ← reachableFrom? graph.edges graph.rootFlags
  let emission ← graph.emitFirst? reached graph.size
  emission.output.mapM (graph.names[·]?)

section Loops

variable (graph : CallGraph)

/-- The edges of a graph stay within it. -/
theorem staysInside_edges : StaysInside graph.edges := by
  intro place target called
  rw [size_edges]
  exact lt_size_of_mem_calleesOf called

/-- The flags of the roots are those of the root places. -/
theorem rootFlags_eq : graph.rootFlags = flags graph.size graph.rootPositions := by
  refine List.map_congr_left fun place member => ?_
  simp [rootPositions, List.mem_range.1 member]

/-- The flags of what is reached, as a walk from the roots enters it. -/
def reachedFlags : List Bool :=
  flags graph.size (graph.walkFrom graph.rootPositions).entered

/-- The loop over what is reached flags what a walk from the roots enters. -/
theorem reachableFrom?_eq :
    reachableFrom? graph.edges graph.rootFlags = some graph.reachedFlags := by
  have within : ∀ root ∈ graph.rootPositions, root < graph.edges.size := by
    intro root isRoot
    rw [size_edges]
    exact (mem_rootPositions_iff.1 isRoot).1
  obtain ⟨final, ended, mem_final⟩ := exists_reachableFrom? graph.staysInside_edges within
  rw [size_edges] at ended
  have entered := Walk.fromStarts_traverses
    (fun vertex target => @lt_size_of_mem_calleesOf graph vertex target) graph.rootPositions
  rw [rootFlags_eq, ended]
  -- Both list what the roots lead to.
  refine congrArg some (flags_congr fun place _ => ?_)
  rw [mem_final, ← List.mem_reverse, walkFrom, entered.mem_visited_iff (by simp [IsClosed])]
  simp

/-- The entries among the first places. -/
def firstEntries (count : Nat) : List Nat :=
  (List.range count).filter fun place =>
    place ∈ graph.rootPositions ∨ place ∉ (graph.walkFrom graph.rootPositions).entered

/-- One more place is one more entry, or none. -/
theorem walkFrom_firstEntries_succ (count : Nat) :
    graph.walkFrom (graph.firstEntries (count + 1)) =
      if count ∈ graph.rootPositions ∨ count ∉ (graph.walkFrom graph.rootPositions).entered then
        (graph.walkFrom (graph.firstEntries count)).visit graph.size (calleesOf graph.edges) count
      else graph.walkFrom (graph.firstEntries count) := by
  -- The last of the places passes the filter or not.
  rw [firstEntries, List.range_succ, List.filter_append]
  split
  · rename_i due
    rw [List.filter_cons_of_pos (by simpa using due)]
    simp [walkFrom, Walk.fromStarts, firstEntries]
  · rename_i passed
    rw [List.filter_cons_of_neg (by simpa using passed)]
    simp [firstEntries]

/-- Whether a place is due is read off its flags. -/
theorem emitDue?_emissionOf {walk : Walk} (idle : walk.trail = []) {place : Nat} (bound : place < graph.size) :
    graph.emitDue? graph.reachedFlags (emissionOf graph.size walk) place =
      some (emissionOf graph.size
        (if place ∈ graph.rootPositions ∨ place ∉ (graph.walkFrom graph.rootPositions).entered then
          walk.visit graph.size (calleesOf graph.edges) place
        else walk)) := by
  have flagged : graph.rootFlags[place]? = some (decide (place ∈ graph.rootPositions)) := by
    rw [rootFlags_eq, getElem?_flags bound]
  have reached : graph.reachedFlags[place]? =
      some (decide (place ∈ (graph.walkFrom graph.rootPositions).entered)) := getElem?_flags bound
  have emitted := emit?_emissionOf graph.staysInside_edges idle (by rwa [size_edges])
  rw [size_edges] at emitted
  -- The flags say whether the place is due, and only then it is emitted.
  split
  · rename_i due
    simp [emitDue?, flagged, reached, due, emitted]
  · rename_i passed
    simp [emitDue?, flagged, reached, passed]

/-- After each place the loop has ended, with nothing in progress and with what is kept after the walk. -/
theorem emitFirst?_eq {count : Nat} (within : count ≤ graph.size) :
    (graph.walkFrom (graph.firstEntries count)).trail = [] ∧
      graph.emitFirst? graph.reachedFlags count =
        some (emissionOf graph.size (graph.walkFrom (graph.firstEntries count))) := by
  -- Each place leaves an idle walk, from which the next one starts.
  induction count with
  | zero => simp [emitFirst?, firstEntries, walkFrom, Walk.fromStarts, emissionOf, Walk.path]
  | succ count ih =>
    obtain ⟨idle, ended⟩ := ih (by omega)
    rw [walkFrom_firstEntries_succ]
    constructor
    · split
      · exact (Walk.visit_traverses (fun vertex target => lt_size_of_mem_calleesOf) idle count).1
      · exact idle
    · rw [emitFirst?] at ended
      rw [emitFirst?, List.range_succ, List.foldlM_append, ended]
      simp [graph.emitDue?_emissionOf idle within]

/-- The loops end, find all that they look up, and give the readable order. -/
theorem loopOrder?_eq : graph.loopOrder? = some graph.readableOrder := by
  have emitted := (graph.emitFirst?_eq le_rfl).2
  have entries : graph.firstEntries graph.size = graph.entries := rfl
  -- Every place put out is a place of the graph, and so it has a name.
  have named : List.Forall₂ (fun place name => graph.names[place]? = some name) graph.orderPositions
      (graph.orderPositions.map graph.nameAt) := by
    rw [List.forall₂_map_right_iff, List.forall₂_same]
    intro place member
    have bound : place < graph.names.length := by
      rw [length_names]
      refine lt_size_of_mem_entered (fun start isStart => ?_) place (List.mem_reverse.1 member)
      exact List.mem_range.1 (List.mem_filter.1 isStart).1
    simp [nameAt, List.getElem?_eq_getElem bound]
  rw [loopOrder?, reachableFrom?_eq, Option.bind_eq_bind, Option.bind_some, emitted, Option.bind_eq_bind,
    Option.bind_some, entries]
  exact mapM_eq_some named

end Loops

/--
The readable order is the one that recursion gives and the one that the loops give.

Recursive calls nest no deeper than there are units.
The loops end, the first one with the units that a root leads to, and nothing is in progress after any of the
places that the second one goes through.
-/
theorem readableOrder_refines_recursion (units : List CallableUnit) :
    (∀ depth > (build units).size, (build units).recursiveOrder? depth = some (build units).readableOrder) ∧
    (build units).loopOrder? = some (build units).readableOrder ∧
    ∃ reached, reachableFrom? (build units).edges (build units).rootFlags = some reached ∧
      (∀ place < (build units).size,
        reached[place]? = some true ↔ (build units).IsRooted ((build units).nameAt place)) ∧
      ∀ count ≤ (build units).size, ∃ emission, (build units).emitFirst? reached count = some emission ∧
        emission.inProgress = List.replicate (build units).size false := by
  have consistent := isConsistent_build units
  refine ⟨fun depth => recursiveOrder?_eq consistent, loopOrder?_eq _, _, reachableFrom?_eq _, ?_, ?_⟩
  · -- The walk from the roots enters what they lead to.
    intro place bound
    rw [reachedFlags, getElem?_flags bound, ← mem_entered_roots_iff consistent bound]
    simp
  · -- An idle walk has nothing on its trail.
    intro count within
    obtain ⟨idle, ended⟩ := emitFirst?_eq (build units) within
    exact ⟨_, ended, inProgress_emissionOf idle _⟩

end CallGraph

end CallersFirst
