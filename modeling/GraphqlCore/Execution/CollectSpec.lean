import GraphqlCore.Execution.Deferral

/-!
# Collecting fields without deferral

The algorithm CollectFields of the specification, which visits each fragment once
and knows no `@defer`, and operations from which these directives are removed.
Whether a node is included, whether a fragment applies, and the variables of a
fragment are the same as in `collect_fields`.
-/

set_option linter.unusedSectionVars false

namespace GraphqlCore.Execution

open Language

/-! ## The algorithm of the specification -/

/-- The grouped field set and the visited fragments. -/
structure SpecCollection where
  groupedFieldSet : Dict Text (List FieldNode) := Dict.empty
  visitedFragments : List Text := []

namespace SpecCollection

def addField (s : SpecCollection) (node : FieldNode) : SpecCollection :=
  { s with
    groupedFieldSet := s.groupedFieldSet.set (getFieldEntryKey node)
      ((s.groupedFieldSet.get (getFieldEntryKey node)).getD [] ++ [node]) }

def visitFragment (s : SpecCollection) (name : Text) : SpecCollection :=
  { s with visitedFragments := s.visitedFragments ++ [name] }

end SpecCollection

/-- How the selection set of a spread fragment is collected. -/
abbrev SpecVisit := List SelectionNode → Option FragmentVariableValues →
  SpecCollection → Except CollectFailure SpecCollection

mutual

def specCollectSelection (context : CollectFieldsContext) (visit : SpecVisit)
    (values : Option FragmentVariableValues) :
    SelectionNode → SpecCollection → Except CollectFailure SpecCollection
  | .field node, s => do
      let (included, _) ← raising (context.shouldIncludeNode values node.directives)
      if included then return s.addField node else return s
  | .inlineFragment ⟨typeCondition, directives, ⟨selections, _⟩, _⟩, s => do
      let (included, _) ← raising (context.shouldIncludeNode values directives)
      if !included then return s
      else if !context.doesFragmentConditionMatch typeCondition then return s
      else specCollectSelections context visit values selections s
  | .fragmentSpread node, s => do
      let (included, _) ← raising (context.shouldIncludeNode values node.directives)
      if !included then return s
      else if s.visitedFragments.contains node.name.value then return s
      else match context.applicable node.name.value with
        | none => return s.visitFragment node.name.value
        | some fragment => do
            let scope ← raising (context.fragmentScope values node fragment)
            visit fragment.definition.selectionSet.selections scope
              (s.visitFragment node.name.value)

def specCollectSelections (context : CollectFieldsContext) (visit : SpecVisit)
    (values : Option FragmentVariableValues) :
    List SelectionNode → SpecCollection → Except CollectFailure SpecCollection
  | [], s => return s
  | selection :: rest, s => do
      let s ← specCollectSelection context visit values selection s
      specCollectSelections context visit values rest s

end

/-- Collect the selections, following fragment spreads to the given depth. -/
def specCollectImpl (context : CollectFieldsContext) : ℕ → SpecVisit
  | 0 => fun _ _ _ => .error .tooDeep
  | depth + 1 => fun selections values s =>
      specCollectSelections context (specCollectImpl context depth) values selections s

/-- Every fragment is visited once, so spreads are never nested deeper than there
are fragments. -/
def specCollectFields (context : CollectFieldsContext) (selectionSet : SelectionSetNode) :
    Except CollectFailure SpecCollection :=
  specCollectImpl context (context.fragments.items.length + 1) selectionSet.selections
    none {}

/-! ## Operations without `@defer` -/

def withoutDeferDirectives (directives : Option (List DirectiveNode)) :
    Option (List DirectiveNode) :=
  directives.map fun directives =>
    directives.filter fun directive => directive.name.value ≠ graphQLDeferDirective.name

mutual

def selectionWithoutDefer : SelectionNode → SelectionNode
  | .field ⟨fieldAlias, name, arguments, directives, selectionSet, loc⟩ =>
      .field ⟨fieldAlias, name, arguments, withoutDeferDirectives directives,
        subselectionsWithoutDefer selectionSet, loc⟩
  | .fragmentSpread node =>
      .fragmentSpread { node with directives := withoutDeferDirectives node.directives }
  | .inlineFragment ⟨typeCondition, directives, ⟨selections, loc⟩, loc'⟩ =>
      .inlineFragment ⟨typeCondition, withoutDeferDirectives directives,
        ⟨selectionsWithoutDefer selections, loc⟩, loc'⟩

def subselectionsWithoutDefer : Option SelectionSetNode → Option SelectionSetNode
  | none => none
  | some ⟨selections, loc⟩ => some ⟨selectionsWithoutDefer selections, loc⟩

def selectionsWithoutDefer : List SelectionNode → List SelectionNode
  | [] => []
  | selection :: rest => selectionWithoutDefer selection :: selectionsWithoutDefer rest

end

def fieldWithoutDefer (node : FieldNode) : FieldNode :=
  ⟨node.fieldAlias, node.name, node.arguments, withoutDeferDirectives node.directives,
    subselectionsWithoutDefer node.selectionSet, node.loc⟩

def selectionSetWithoutDefer (selectionSet : SelectionSetNode) : SelectionSetNode :=
  ⟨selectionsWithoutDefer selectionSet.selections, selectionSet.loc⟩

def fragmentWithoutDefer (fragment : FragmentDetails) : FragmentDetails :=
  { fragment with
    definition := { fragment.definition with
      directives := withoutDeferDirectives fragment.definition.directives
      selectionSet := selectionSetWithoutDefer fragment.definition.selectionSet } }

def CollectFieldsContext.withoutDefer (context : CollectFieldsContext) :
    CollectFieldsContext :=
  { context with fragments := context.fragments.map fragmentWithoutDefer }

/-- The nodes without these directives. -/
def SpecCollection.withoutDefer (s : SpecCollection) : SpecCollection where
  groupedFieldSet := s.groupedFieldSet.map fun nodes => nodes.map fieldWithoutDefer
  visitedFragments := s.visitedFragments

/-! ## The specification knows no `@defer` -/

section WithoutDefer

variable {context : CollectFieldsContext}

theorem findDirective_withoutDefer {name : Text}
    (hname : name ≠ graphQLDeferDirective.name)
    (directives : Option (List DirectiveNode)) :
    findDirective (withoutDeferDirectives directives) name =
      findDirective directives name := by
  cases directives with
  | none => rfl
  | some directives =>
      simp only [findDirective, withoutDeferDirectives, Option.map_some, Option.getD_some,
        List.find?_filter]
      congr 1
      funext directive
      by_cases h : directive.name.value = name
      · simp [h, hname]
      · simp [h]

theorem shouldIncludeNode_withoutDefer (values : Option FragmentVariableValues)
    (directives : Option (List DirectiveNode)) :
    context.withoutDefer.shouldIncludeNode values (withoutDeferDirectives directives) =
      context.shouldIncludeNode values directives := by
  have hskip := findDirective_withoutDefer
    (show graphQLSkipDirective.name ≠ graphQLDeferDirective.name by decide) directives
  have hinclude := findDirective_withoutDefer
    (show graphQLIncludeDirective.name ≠ graphQLDeferDirective.name by decide) directives
  unfold CollectFieldsContext.shouldIncludeNode CollectFieldsContext.passesInclude
  rw [hskip, hinclude]
  rfl

theorem applicable_withoutDefer (name : Text) :
    context.withoutDefer.applicable name =
      (context.applicable name).map fragmentWithoutDefer := by
  unfold CollectFieldsContext.applicable CollectFieldsContext.withoutDefer
  simp only [Dict.get_map]
  cases context.fragments.get name with
  | none => rfl
  | some fragment =>
      have hmatch : context.withoutDefer.doesFragmentConditionMatch
          (some (fragmentWithoutDefer fragment).definition.typeCondition) =
          context.doesFragmentConditionMatch (some fragment.definition.typeCondition) :=
        rfl
      unfold CollectFieldsContext.withoutDefer at hmatch
      simp only [Option.map_some, hmatch]
      split <;> rfl

theorem getFieldEntryKey_withoutDefer (node : FieldNode) :
    getFieldEntryKey (fieldWithoutDefer node) = getFieldEntryKey node := rfl

theorem addField_withoutDefer (s : SpecCollection) (node : FieldNode) :
    s.withoutDefer.addField (fieldWithoutDefer node) = (s.addField node).withoutDefer := by
  unfold SpecCollection.addField SpecCollection.withoutDefer
  rw [getFieldEntryKey_withoutDefer, Dict.map_set, Dict.get_map]
  cases s.groupedFieldSet.get (getFieldEntryKey node) <;> simp

section Selections

variable {visit visit' : SpecVisit}
variable (hvisit : ∀ selections values s,
  visit' (selectionsWithoutDefer selections) values s.withoutDefer =
    (visit selections values s).map SpecCollection.withoutDefer)

include hvisit

mutual

theorem specCollectSelection_withoutDefer (values : Option FragmentVariableValues) :
    ∀ selection s,
    specCollectSelection context.withoutDefer visit' values
        (selectionWithoutDefer selection) s.withoutDefer =
      (specCollectSelection context visit values selection s).map
        SpecCollection.withoutDefer
  | .field ⟨fieldAlias, name, arguments, directives, selectionSet, loc⟩, s => by
      rw [selectionWithoutDefer, specCollectSelection, specCollectSelection,
        shouldIncludeNode_withoutDefer]
      cases context.shouldIncludeNode values directives with
      | error error => rfl
      | ok answer =>
          obtain ⟨included, forbidden⟩ := answer
          cases included with
          | false => rfl
          | true =>
              exact congrArg Except.ok (addField_withoutDefer s
                ⟨fieldAlias, name, arguments, directives, selectionSet, loc⟩)
  | .inlineFragment ⟨typeCondition, directives, ⟨selections, _⟩, _⟩, s => by
      rw [selectionWithoutDefer, specCollectSelection, specCollectSelection,
        shouldIncludeNode_withoutDefer]
      cases context.shouldIncludeNode values directives with
      | error error => rfl
      | ok answer =>
          obtain ⟨included, forbidden⟩ := answer
          cases included with
          | false => rfl
          | true =>
              have hmatch : context.withoutDefer.doesFragmentConditionMatch
                  typeCondition =
                context.doesFragmentConditionMatch typeCondition := rfl
              have hselections := specCollectSelections_withoutDefer values selections s
              simp only [raising, hmatch, Bool.not_true, Bool.false_eq_true, if_false,
                bind, Except.bind]
              split
              · rfl
              · exact hselections
  | .fragmentSpread node, s => by
      rw [selectionWithoutDefer, specCollectSelection, specCollectSelection,
        shouldIncludeNode_withoutDefer]
      cases context.shouldIncludeNode values node.directives with
      | error error => rfl
      | ok answer =>
          obtain ⟨included, forbidden⟩ := answer
          cases included with
          | false => rfl
          | true =>
              have hscope : ∀ fragment, context.withoutDefer.fragmentScope values
                  { node with directives := withoutDeferDirectives node.directives }
                  (fragmentWithoutDefer fragment) =
                context.fragmentScope values node fragment := fun _ => rfl
              have hvisited : s.withoutDefer.visitedFragments = s.visitedFragments := rfl
              simp only [raising, hvisited, applicable_withoutDefer, Bool.not_true,
                Bool.false_eq_true, if_false, bind, Except.bind]
              split
              · rfl
              · cases context.applicable node.name.value with
                | none => rfl
                | some fragment =>
                    simp only [Option.map_some, hscope]
                    cases context.fragmentScope values node fragment with
                    | error error => rfl
                    | ok scope =>
                        exact hvisit fragment.definition.selectionSet.selections scope
                          (s.visitFragment node.name.value)

theorem specCollectSelections_withoutDefer (values : Option FragmentVariableValues) :
    ∀ selections s,
    specCollectSelections context.withoutDefer visit' values
        (selectionsWithoutDefer selections) s.withoutDefer =
      (specCollectSelections context visit values selections s).map
        SpecCollection.withoutDefer
  | [], s => rfl
  | selection :: rest, s => by
      have hselection := specCollectSelection_withoutDefer values selection s
      rw [selectionsWithoutDefer, specCollectSelections, specCollectSelections,
        hselection]
      cases specCollectSelection context visit values selection s with
      | error failure => rfl
      | ok s' => exact specCollectSelections_withoutDefer values rest s'

end

end Selections

theorem specCollectImpl_withoutDefer (depth : ℕ) (selections : List SelectionNode)
    (values : Option FragmentVariableValues) (s : SpecCollection) :
    specCollectImpl context.withoutDefer depth (selectionsWithoutDefer selections) values
        s.withoutDefer =
      (specCollectImpl context depth selections values s).map
        SpecCollection.withoutDefer := by
  induction depth generalizing selections values s with
  | zero => rfl
  | succ depth ih => exact specCollectSelections_withoutDefer ih values selections s

/-- Removing the directives only removes them from the collected nodes. -/
theorem specCollectFields_withoutDefer (selectionSet : SelectionSetNode) :
    specCollectFields context.withoutDefer (selectionSetWithoutDefer selectionSet) =
      (specCollectFields context selectionSet).map SpecCollection.withoutDefer := by
  have hlength : context.withoutDefer.fragments.items.length =
      context.fragments.items.length := List.length_map _
  unfold specCollectFields
  rw [hlength]
  exact specCollectImpl_withoutDefer _ selectionSet.selections none {}

end WithoutDefer

end GraphqlCore.Execution
