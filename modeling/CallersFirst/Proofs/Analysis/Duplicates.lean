import CallersFirst.Proofs.Analysis.Arrangement
import CallersFirst.Proofs.Arrangement.Layout

/-! Definitions left out because of their name: where they and the kept ones stand in the new text. -/

namespace CallersFirst

/--
Of a unit that is kept and one that is left out, the list has one before the other.

If they have the same name, the one that is kept comes first.
-/
theorem kept_before_of_same_name {precedes : CallableUnit → CallableUnit → Prop}
    {units : List CallableUnit} (ordered : units.Pairwise precedes) :
    ∀ {taken : List String}, ∀ kept ∈ firstUses taken units, ∀ other ∈ laterUses taken units,
      (precedes kept other ∨ precedes other kept) ∧ (kept.name = other.name → precedes kept other) := by
  -- Each unit is kept or left out, and stands before all that come after it.
  induction units with
  | nil => simp [firstUses]
  | cons unit rest ih =>
    intro taken kept isKept other isOther
    obtain ⟨before, restOrdered⟩ := List.pairwise_cons.1 ordered
    rw [firstUses] at isKept
    rw [laterUses] at isOther
    by_cases old : unit.name ∈ taken
    · rw [if_pos old] at isKept isOther
      rcases List.mem_cons.1 isOther with rfl | isOther
      · -- The name is taken already, so that no unit that is kept has it.
        have fresh := (nodup_firstUses taken rest).2 kept.name (List.mem_map_of_mem isKept)
        exact ⟨.inr (before kept ((firstUses_sublist taken rest).subset isKept)),
          fun same => absurd (same ▸ old) fresh⟩
      · exact ih restOrdered kept isKept other isOther
    · rw [if_neg old] at isKept isOther
      rcases List.mem_cons.1 isKept with rfl | isKept
      · have first := before other ((laterUses_sublist _ rest).subset isOther)
        exact ⟨.inl first, fun _ => first⟩
      · exact ih restOrdered kept isKept other isOther

/-- The units that a graph keeps and those it leaves out stand apart, with the first of each name kept. -/
theorem CallGraph.build_apart {units : List CallableUnit}
    (apart : units.Pairwise fun first second => first.span.stop ≤ second.fullStart) :
    (build units).rejected.Pairwise (fun first second => first.span.stop ≤ second.fullStart) ∧
      ∀ kept ∈ (build units).units, ∀ other ∈ (build units).rejected,
        (kept.span.stop ≤ other.fullStart ∨ other.span.stop ≤ kept.fullStart) ∧
          (kept.name = other.name → kept.span.stop ≤ other.fullStart) := by
  refine ⟨apart.sublist (laterUses_sublist [] units), fun kept isKept other isOther => ?_⟩
  -- The graph changes the calls of a unit only.
  obtain ⟨original, isOriginal, rfl⟩ := List.mem_map.1 isKept
  exact kept_before_of_same_name apart original isOriginal other isOther

/-- A graph keeps or leaves out every unit, and changes nothing but calls. -/
theorem CallGraph.perm_build (units : List CallableUnit) :
    (((build units).units ++ (build units).rejected).map (·.withoutCalls)).Perm
      (units.map (·.withoutCalls)) := by
  have known := (firstUses_append_laterUses_perm [] units).map (·.withoutCalls)
  rw [List.map_append] at known ⊢
  simp only [build, List.map_map]
  exact known

namespace Scope

section Rejected

variable {source : Text} {scope : Scope}

/-- The units of a well-formed scope stand apart, those left out included. -/
theorem resolvedUnits_apart (wellFormed : scope.node.IsWellFormed source) :
    (scope.resolvedUnits source).Pairwise fun earlier later => earlier.span.stop ≤ later.fullStart := by
  -- Neither the end of a unit nor its start depends on its calls.
  have apart : ((scope.extract source).map (·.unit.withoutCalls)).Pairwise fun earlier later =>
      earlier.span.stop ≤ later.fullStart := List.pairwise_map.2 (scope.extract_spec wellFormed).2
  rw [← map_withoutCalls_resolvedUnits] at apart
  exact List.pairwise_map.1 apart

/-- A unit that is left out lies in its scope as the others do. -/
theorem holds_of_mem_rejected (wellFormed : scope.node.IsWellFormed source) {unit : CallableUnit}
    (member : unit ∈ (scope.analyze source).graph.rejected) : scope.Holds source unit := by
  have resolved := forall_resolvedUnits (fun _ => holds_withoutCalls_iff) (scope.extract_spec wellFormed).1
  exact (CallGraph.forall_build (fun _ => holds_withoutCalls_iff) resolved).2 unit member

/-- A unit that is kept has its place in the new text at the index of its name in the order. -/
theorem carriesAt_kept (wellFormed : scope.node.IsWellFormed source) {unit : CallableUnit}
    (member : unit ∈ (scope.analyze source).graph.units) :
    Layout.CarriesAt ((scope.analyze source).arrangement.layout source)
      (2 * (scope.analyze source).order.idxOf unit.name + 1) unit.fullSpan := by
  obtain ⟨sound, names⟩ := arrangement_isSound wellFormed
  have isTarget : unit ∈ (scope.analyze source).arrangement.target := sound.perm.mem_iff.2 member
  have distinct : ((scope.analyze source).arrangement.target.map (·.name)).Nodup := by
    refine (sound.perm.map _).nodup_iff.2 ?_
    exact (CallGraph.isConsistent_build (scope.resolvedUnits source)).distinct
  -- The name stands in the order where the unit stands among the listed units.
  have found : (scope.analyze source).arrangement.target[(scope.analyze source).order.idxOf unit.name]? =
      some unit := by
    have listed : unit.name ∈ (scope.analyze source).order := names ▸ List.mem_map_of_mem isTarget
    have named := List.getElem?_idxOf listed
    rw [← names, List.getElem?_map, Option.map_eq_some_iff] at named
    obtain ⟨other, found, same⟩ := named
    rw [← names, found, List.inj_on_of_nodup_map distinct (List.mem_of_getElem? found) isTarget same]
  exact sound.carriesAt_unit (List.ne_nil_of_mem member) found ⟨Nat.le_refl _, Nat.le_refl _⟩

/-- A unit with ink that is left out stays in the margin behind the kept units that stand before it. -/
theorem carriesAt_rejected (wellFormed : scope.node.IsWellFormed source)
    (some_unit : (scope.analyze source).graph.units ≠ []) {unit : CallableUnit}
    (member : unit ∈ (scope.analyze source).graph.rejected) (ink : ¬ (unit.text source).isBlankText) :
    Layout.CarriesAt ((scope.analyze source).arrangement.layout source)
      (2 * (scope.analyze source).graph.units.countP (·.span.stop ≤ unit.fullStart)) unit.fullSpan := by
  have sound := (arrangement_isSound wellFormed).1
  have fits := (holds_of_mem_rejected wellFormed member).placed.fullSpan_fits
  have filled : unit.fullStart < unit.span.stop := fits.lt_of_ink ink
  -- Every kept unit lies wholly on one side of it.
  have sides : ∀ kept ∈ (scope.analyze source).graph.units,
      kept.fullStart ≤ kept.span.stop ∧
        (kept.span.stop ≤ unit.fullStart ∨ unit.span.stop ≤ kept.fullStart) := by
    intro kept isKept
    have width := ((analyze_spec wellFormed).1 kept isKept).placed.fullSpan_fits.ordered
    exact ⟨width, ((CallGraph.build_apart (resolvedUnits_apart wellFormed)).2 kept isKept unit member).1⟩
  -- So neither end of a kept unit falls into it, and it lies inside none.
  have uncut : ∀ kept ∈ (scope.analyze source).graph.units,
      unit.fullSpan.IsUncutAt kept.fullStart ∧ unit.fullSpan.IsUncutAt kept.span.stop := by
    intro kept isKept
    have known := sides kept isKept
    simp only [Span.IsUncutAt, CallableUnit.fullSpan]
    omega
  have outside : ∀ kept ∈ (scope.analyze source).graph.units, ¬ unit.fullSpan.IsInside kept.fullSpan := by
    intro kept isKept
    have known := sides kept isKept
    simp only [Span.IsInside, CallableUnit.fullSpan]
    omega
  have carried := sound.carriesAt_margin some_unit fits ink uncut outside
  rwa [show (scope.analyze source).arrangement.source = (scope.analyze source).graph.units from rfl] at carried

/-- Two units that are left out keep their order. -/
theorem before_of_rejected (wellFormed : scope.node.IsWellFormed source)
    (some_unit : (scope.analyze source).graph.units ≠ []) {first second : CallableUnit}
    (isFirst : first ∈ (scope.analyze source).graph.rejected)
    (isSecond : second ∈ (scope.analyze source).graph.rejected)
    (before : first.span.stop ≤ second.fullStart) (ink : ¬ (first.text source).isBlankText)
    (secondInk : ¬ (second.text source).isBlankText) :
    Layout.Before source ((scope.analyze source).arrangement.layout source) first.fullSpan
      second.fullSpan := by
  have sound := (arrangement_isSound wellFormed).1.isSound_layout some_unit
  have width := (holds_of_mem_rejected wellFormed isFirst).placed.fullSpan_fits.lt_of_ink ink
  have secondWidth := (holds_of_mem_rejected wellFormed isSecond).placed.fullSpan_fits.lt_of_ink secondInk
  refine Layout.before_of_carriesAt sound (carriesAt_rejected wellFormed some_unit isFirst ink)
    (carriesAt_rejected wellFormed some_unit isSecond secondInk) width secondWidth ?_
  -- No fewer units stand before the second one than before the first.
  have fewer : (scope.analyze source).graph.units.countP (·.span.stop ≤ first.fullStart) ≤
      (scope.analyze source).graph.units.countP (·.span.stop ≤ second.fullStart) := by
    refine List.countP_mono_left fun unit _ stopped => ?_
    simp only [CallableUnit.fullSpan, decide_eq_true_eq] at width stopped ⊢
    omega
  simp only [CallableUnit.fullSpan]
  omega

/-- Whether a unit that is kept comes before one that is left out shows in the readable order. -/
theorem before_of_kept (wellFormed : scope.node.IsWellFormed source) {kept other : CallableUnit}
    (isKept : kept ∈ (scope.analyze source).graph.units)
    (isOther : other ∈ (scope.analyze source).graph.rejected) (ink : ¬ (kept.text source).isBlankText)
    (otherInk : ¬ (other.text source).isBlankText) :
    if (scope.analyze source).order.idxOf kept.name <
        (scope.analyze source).graph.units.countP (·.span.stop ≤ other.fullStart)
    then Layout.Before source ((scope.analyze source).arrangement.layout source) kept.fullSpan other.fullSpan
    else Layout.Before source ((scope.analyze source).arrangement.layout source) other.fullSpan
      kept.fullSpan := by
  have some_unit := List.ne_nil_of_mem isKept
  have sound := (arrangement_isSound wellFormed).1.isSound_layout some_unit
  have width := ((analyze_spec wellFormed).1 kept isKept).placed.fullSpan_fits.lt_of_ink ink
  have otherWidth := (holds_of_mem_rejected wellFormed isOther).placed.fullSpan_fits.lt_of_ink otherInk
  have keptCarried := carriesAt_kept wellFormed isKept
  have otherCarried := carriesAt_rejected wellFormed some_unit isOther otherInk
  -- Units have the odd places of the new text and margins the even ones, so that they never share one.
  split
  · exact Layout.before_of_carriesAt sound keptCarried otherCarried width otherWidth (.inl (by omega))
  · exact Layout.before_of_carriesAt sound otherCarried keptCarried otherWidth width (.inl (by omega))

end Rejected

/--
What a splice does to definitions of the same name.

Every extracted unit is kept or left out. The first one of a name is kept and takes part in the ordering,
and the others stay among what stands between the units. So the others keep their order. The first one,
which stands before all of them in the source, stands before one of them in the new text exactly if fewer
units come before it in the readable order than units stand before that other one in the source.
Definitions of nothing but blanks have no place to speak of.
-/
theorem duplicates_placed {source : Text} {options : OrderingSettings} {tree : SyntaxTree} {scope : Scope}
    {splice : Splice} (wellFormed : tree.root.IsWellFormed source)
    (found : scope ∈ Scope.discover source options tree.root)
    (planned : (scope.analyze source).planned = .ok (some splice)) :
    let analysis := scope.analyze source
    let layout := analysis.arrangement.layout source
    ((analysis.graph.units ++ analysis.graph.rejected).map (·.withoutCalls)).Perm
      ((scope.extract source).map (·.unit.withoutCalls)) ∧
    splice.applyTo? source = some (Layout.text source layout) ∧ Layout.IsSound source layout ∧
    (∀ unit, unit ∈ analysis.graph.units ∨ unit ∈ analysis.graph.rejected →
      ¬ (unit.text source).isBlankText →
      ∃ place, Layout.place? source unit.fullSpan layout = some place ∧
        (Layout.text source layout).slice place (place + unit.fullSpan.length) = unit.text source) ∧
    analysis.graph.rejected.Pairwise (fun first second =>
      first.span.stop ≤ second.fullStart ∧
        (¬ (first.text source).isBlankText → ¬ (second.text source).isBlankText →
          Layout.Before source layout first.fullSpan second.fullSpan)) ∧
    ∀ kept ∈ analysis.graph.units, ∀ other ∈ analysis.graph.rejected, kept.name = other.name →
      kept.span.stop ≤ other.fullStart ∧
        (¬ (kept.text source).isBlankText → ¬ (other.text source).isBlankText →
          if analysis.order.idxOf kept.name < analysis.graph.units.countP (·.span.stop ≤ other.fullStart)
          then Layout.Before source layout kept.fullSpan other.fullSpan
          else Layout.Before source layout other.fullSpan kept.fullSpan) := by
  intro analysis layout
  have formed := wellFormed.of_mem (node_mem_preorder found)
  obtain ⟨some_unit, rfl⟩ := splice_eq_of_analyze formed planned
  have sound := (arrangement_isSound formed).1
  have layoutSound := sound.isSound_layout some_unit
  obtain ⟨rejectedApart, apart⟩ := CallGraph.build_apart (resolvedUnits_apart formed)
  refine ⟨?_, sound.applyTo?_splice some_unit, layoutSound, ?_, ?_, ?_⟩
  · rw [← map_withoutCalls_resolvedUnits]
    exact CallGraph.perm_build _
  · intro unit member ink
    -- Both the kept units and the others are held by some stretch.
    obtain ⟨fits, index, carried⟩ : unit.fullSpan.Fits source ∧
        ∃ index, Layout.CarriesAt layout index unit.fullSpan := by
      rcases member with isKept | isRejected
      · exact ⟨((analyze_spec formed).1 unit isKept).placed.fullSpan_fits, _, carriesAt_kept formed isKept⟩
      · exact ⟨(holds_of_mem_rejected formed isRejected).placed.fullSpan_fits, _,
          carriesAt_rejected formed some_unit isRejected ink⟩
    exact Layout.exists_place layoutSound fits (fits.lt_of_ink ink) carried
  -- Among rejected units the order of the source stays; against a kept one it is the place in the order that counts.
  · exact rejectedApart.imp_of_mem fun isFirst isSecond before =>
      ⟨before, before_of_rejected formed some_unit isFirst isSecond before⟩
  · intro kept isKept other isOther sameName
    exact ⟨(apart kept isKept other isOther).2 sameName, before_of_kept formed isKept isOther⟩

end Scope

/-! Three functions, of which the first two have the same name and the last calls it. -/

namespace Sample

/-- The text with two functions of the same name. -/
def doubleSource : Text :=
  "function b()\x7b\x7dfunction b()\x7bx()\x7dfunction a()\x7bb()\x7d\n".toList

/-- The tree of the text with two functions of the same name. -/
def doubleTree : SyntaxTree :=
  ⟨⟨"program", true, ⟨0, 49⟩, none,
    [declaration 0 14 [], declaration 14 31 [call 27], declaration 31 48 [call 44]]⟩, false⟩

/-- The only scope of that tree. -/
def doubleScope : Scope :=
  ⟨.program, doubleTree.root, none⟩

/-- The function that keeps the name. -/
def firstDouble : CallableUnit :=
  ⟨"b", .declaration, ⟨0, 14⟩, [], []⟩

/-- The function that is left out. -/
def secondDouble : CallableUnit :=
  ⟨"b", .declaration, ⟨14, 31⟩, [], []⟩

/-- The function that calls them. -/
def doubleCaller : CallableUnit :=
  ⟨"a", .declaration, ⟨31, 48⟩, [], ["b"]⟩

/-- The splice that puts the caller first. -/
def doubleSplice : Splice :=
  ⟨⟨0, 48⟩, "function a()\x7bb()\x7dfunction b()\x7bx()\x7dfunction b()\x7b\x7d".toList⟩

/-- The units of the scope are the two functions of one name and their caller. -/
theorem resolvedUnits_doubleScope :
    doubleScope.resolvedUnits doubleSource = [firstDouble, secondDouble, doubleCaller] := by
  have outside : ScopeKind.program ≠ .classBody := by decide
  -- What is extracted is computed child by child; the calls are still missing there.
  have extracted : doubleScope.extract doubleSource =
      [⟨firstDouble, [body 12 14 []]⟩, ⟨secondDouble, [body 26 31 [call 27]]⟩,
        ⟨{ doubleCaller with calls := [] }, [body 43 48 [call 44]]⟩] := by
    simp only [Scope.extract, doubleScope, doubleTree, Extraction.scan,
      definition?_declaration doubleSource outside]
    rfl
  rw [Scope.resolvedUnits, extracted]
  rfl

/-- The graph keeps the first function of the name and turns the second one down. -/
theorem graph_doubleScope : (doubleScope.analyze doubleSource).graph.units = [firstDouble, doubleCaller] ∧
    (doubleScope.analyze doubleSource).graph.rejected = [secondDouble] ∧
    (doubleScope.analyze doubleSource).order = ["a", "b"] := by
  have order : (CallGraph.build [firstDouble, secondDouble, doubleCaller]).readableOrder = ["a", "b"] := by
    cbv
  rw [Scope.analyze, resolvedUnits_doubleScope]
  exact ⟨by decide, by decide, order⟩

/-- The caller comes first in the new arrangement, and the second function has no place in it. -/
theorem arrangement_doubleScope : (doubleScope.analyze doubleSource).arrangement =
    ⟨[firstDouble, doubleCaller], [doubleCaller, firstDouble]⟩ := by
  rw [ScopeAnalysis.arrangement, graph_doubleScope.2.2, Scope.analyze, resolvedUnits_doubleScope]
  decide

/-- The tree with two functions of one name is well-formed. -/
theorem isWellFormed_doubleTree : doubleTree.root.IsWellFormed doubleSource := by
  decide +kernel

/-- The splice for the scope puts the caller first. -/
theorem planned_doubleScope : (doubleScope.analyze doubleSource).planned = .ok (some doubleSplice) := by
  rw [Scope.planned_eq isWellFormed_doubleTree, arrangement_doubleScope]
  decide +kernel

end Sample

/-- The function that keeps its name stands before its double in the source, and behind it afterwards. -/
theorem Scope.doubles_exchanged :
    Sample.doubleTree.root.IsWellFormed Sample.doubleSource ∧
    Sample.doubleScope ∈ Scope.discover Sample.doubleSource {} Sample.doubleTree.root ∧
    (Sample.doubleScope.analyze Sample.doubleSource).planned = .ok (some Sample.doubleSplice) ∧
    Sample.firstDouble ∈ (Sample.doubleScope.analyze Sample.doubleSource).graph.units ∧
    Sample.secondDouble ∈ (Sample.doubleScope.analyze Sample.doubleSource).graph.rejected ∧
    Sample.firstDouble.name = Sample.secondDouble.name ∧
    Sample.firstDouble.span.stop ≤ Sample.secondDouble.fullStart ∧
    Sample.doubleSplice.applyTo? Sample.doubleSource =
      some "function a()\x7bb()\x7dfunction b()\x7bx()\x7dfunction b()\x7b\x7d\n".toList ∧
    Layout.Before Sample.doubleSource
      ((Sample.doubleScope.analyze Sample.doubleSource).arrangement.layout Sample.doubleSource)
      Sample.secondDouble.fullSpan Sample.firstDouble.fullSpan := by
  obtain ⟨units, rejected, _⟩ := Sample.graph_doubleScope
  refine ⟨Sample.isWellFormed_doubleTree, List.mem_cons_self .., Sample.planned_doubleScope, ?_, ?_, rfl,
    by decide, by decide +kernel, 17, 34, ?_, ?_, by decide⟩
  -- The first of the two keeps the name, the second is rejected.
  · rw [units]
    exact List.mem_cons_self ..
  · rw [rejected]
    exact List.mem_cons_self ..
  -- The places of the two in the new layout are counted out.
  · rw [Sample.arrangement_doubleScope]
    decide +kernel
  · rw [Sample.arrangement_doubleScope]
    decide +kernel

/-- In the sample the function that keeps its name comes to stand behind its double. -/
theorem Scope.duplicates_placed_sample :
    Layout.Before Sample.doubleSource
      ((Sample.doubleScope.analyze Sample.doubleSource).arrangement.layout Sample.doubleSource)
      Sample.secondDouble.fullSpan Sample.firstDouble.fullSpan ∧
    ∃ place, Layout.place? Sample.doubleSource Sample.firstDouble.fullSpan
      ((Sample.doubleScope.analyze Sample.doubleSource).arrangement.layout Sample.doubleSource) = some place := by
  obtain ⟨units, rejected, order⟩ := Sample.graph_doubleScope
  have found : Sample.doubleScope ∈ Scope.discover Sample.doubleSource {} Sample.doubleTree.root :=
    List.mem_cons_self ..
  obtain ⟨_, _, _, places, _, doubles⟩ :=
    Scope.duplicates_placed Sample.isWellFormed_doubleTree found Sample.planned_doubleScope
  rw [units, rejected, order] at doubles
  have inked : ¬ (Sample.firstDouble.text Sample.doubleSource).isBlankText := by decide +kernel
  have later := (doubles Sample.firstDouble (List.mem_cons_self ..) Sample.secondDouble
    (List.mem_cons_self ..) rfl).2 inked (by decide +kernel)
  -- Its name is second in the order, and a single unit of the graph stands before the double.
  rw [if_neg (by decide)] at later
  obtain ⟨place, stands, _⟩ := places Sample.firstDouble (.inl (by rw [units]; exact List.mem_cons_self ..)) inked
  exact ⟨later, place, stands⟩

end CallersFirst
