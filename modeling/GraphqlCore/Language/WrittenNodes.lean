import GraphqlCore.Language.TreeLexemes
import GraphqlCore.Language.WritableNodes

/-!
# Printed nodes are written with their tokens

What the printer makes of a node consists of the tokens of its tree, with blanks, commas and
line feeds between them: in front of what may be left out there is a blank or a punctuator.
-/

namespace GraphqlCore.Language

/-! ## Parts that may be empty -/

/-- The text is written, and there is none without tokens. -/
def WritesPart (text : Text) (lexemes : List Lexeme) : Prop :=
  Writes text lexemes ∧ (lexemes = [] → text = [])

/-- A part that can follow a name. -/
def WritesBehind (text : Text) (lexemes : List Lexeme) : Prop :=
  WritesPart text lexemes ∧ Separates text

section Parts

variable {text text' : Text} {lexemes lexemes' : List Lexeme} {kind : TokenKind} {c : ℕ}

theorem Writes.eq_nil (h : Writes [] lexemes) : lexemes = [] := by
  by_contra hne
  exact h.ne_nil hne rfl

theorem WritesSome.part (h : WritesSome text lexemes) : WritesPart text lexemes :=
  ⟨h.1, fun hnil => absurd hnil h.2⟩

theorem WritesPart.isEmpty_iff (h : WritesPart text lexemes) : text = [] ↔ lexemes = [] := by
  constructor
  · rintro rfl
    exact h.1.eq_nil
  · exact h.2

theorem WritesPart.nil : WritesPart [] [] := ⟨.nil, fun _ => rfl⟩

theorem WritesBehind.nil : WritesBehind [] [] := ⟨.nil, separates_nil⟩

theorem WritesBehind.writes (h : WritesBehind text lexemes) : Writes text lexemes := h.1.1

theorem Writes.appendBehind (h : Writes text lexemes) (h' : WritesBehind text' lexemes') :
    Writes (text ++ text') (lexemes ++ lexemes') :=
  h.append h'.writes h'.2

theorem WritesBehind.append (h : WritesBehind text lexemes) (h' : WritesBehind text' lexemes') :
    WritesBehind (text ++ text') (lexemes ++ lexemes') := by
  refine ⟨⟨h.writes.appendBehind h', fun hnil => ?_⟩, h.2.append h'.2⟩
  obtain ⟨hfront, hback⟩ := List.append_eq_nil_iff.mp hnil
  rw [h.1.2 hfront, h'.1.2 hback, List.append_nil]

/-- A blank in front of a part that is not empty. -/
theorem WritesPart.wrap_blank (h : WritesPart text lexemes) (hblank : c = 32 ∨ c = 44 ∨ c = 10) :
    WritesBehind (wrap [c] text) lexemes := by
  unfold wrap
  split
  · next hempty =>
    rw [h.isEmpty_iff.mp (List.isEmpty_iff.mp hempty)]
    exact .nil
  · next hempty =>
    rw [List.append_nil]
    have hne : lexemes ≠ [] := fun hnil => hempty (List.isEmpty_iff.mpr (h.2 hnil))
    exact ⟨⟨.blank hblank h.1, fun hnil => absurd hnil hne⟩, separates_blank hblank _⟩

/-- A part with a line feed or a blank behind it, unless it is empty. -/
theorem WritesPart.wrap_behind (h : WritesPart text lexemes)
    (hblank : c = 32 ∨ c = 44 ∨ c = 10) (hnext : Writes text' lexemes') :
    Writes (wrap [] text [c] ++ text') (lexemes ++ lexemes') := by
  unfold wrap
  split
  · next hempty =>
    rw [h.isEmpty_iff.mp (List.isEmpty_iff.mp hempty)]
    exact hnext
  · rw [List.nil_append, List.append_assoc]
    exact h.1.append (.blank hblank hnext) (separates_blank hblank _)

end Parts

/-! ## Joined parts -/

/-- A separator that is no token. -/
def IsBlank (separator : Text) : Prop :=
  separator ≠ [] ∧ ∀ c ∈ separator, c = 32 ∨ c = 44 ∨ c = 10

theorem Writes.blanks {separator text : Text} {lexemes : List Lexeme}
    (hsep : ∀ c ∈ separator, c = 32 ∨ c = 44 ∨ c = 10) (h : Writes text lexemes) :
    Writes (separator ++ text) lexemes := by
  induction separator with
  | nil => exact h
  | cons c separator ih =>
      obtain ⟨hc, hrest⟩ := List.forall_mem_cons.mp hsep
      exact .blank hc (ih hrest)

theorem IsBlank.separates {separator : Text} (h : IsBlank separator) (text : Text) :
    Separates (separator ++ text) := by
  obtain ⟨c, rest, rfl⟩ := List.exists_cons_of_ne_nil h.1
  exact separates_blank (h.2 c List.mem_cons_self) _

/-- The parts that are not empty are written one behind the other. -/
theorem writesPart_join {separator : Text} (hsep : IsBlank separator) {texts : List Text}
    {pieces : List (List Lexeme)} (h : List.Forall₂ WritesPart texts pieces) :
    WritesPart (join texts separator) pieces.flatten := by
  rw [join]
  induction h with
  | nil => exact .nil
  | @cons text piece texts pieces hpiece _ ih =>
      rw [List.flatten_cons]
      by_cases hempty : text = []
      · rw [hempty, List.filter_cons_of_neg (by simp), hpiece.isEmpty_iff.mp hempty]
        exact ih
      · have hne : piece ≠ [] := mt hpiece.2 hempty
        rw [List.filter_cons_of_pos (by simpa using hempty)]
        refine ⟨?_, fun hnil => absurd (List.append_eq_nil_iff.mp hnil).1 hne⟩
        cases hothers : texts.filter fun text => !text.isEmpty with
        | nil =>
            rw [hothers] at ih
            rw [List.intercalate_singleton, ih.1.eq_nil, List.append_nil]
            exact hpiece.1
        | cons next others =>
            rw [hothers] at ih
            rw [List.intercalate_cons_cons, List.append_assoc]
            exact hpiece.1.append (ih.1.blanks hsep.2) (hsep.separates _)

theorem isBlank_space : IsBlank (str " ") := ⟨by decide, by decide⟩

theorem isBlank_comma : IsBlank (str ", ") := ⟨by decide, by decide⟩

theorem isBlank_line : IsBlank (str "\n") := ⟨by decide, by decide⟩

theorem isBlank_lines : IsBlank (str "\n\n") := ⟨by decide, by decide⟩

/-- Texts that are written with a token each. -/
theorem writesPart_of_some {texts : List Text} {pieces : List (List Lexeme)}
    (h : List.Forall₂ WritesSome texts pieces) : List.Forall₂ WritesPart texts pieces :=
  h.imp fun _ _ hpiece => hpiece.part

theorem forall₂_map {α β γ : Type} {R : β → γ → Prop} {f : α → β} {g : α → γ} {list : List α}
    (h : ∀ a ∈ list, R (f a) (g a)) : List.Forall₂ R (list.map f) (list.map g) := by
  induction list with
  | nil => exact .nil
  | cons a list ih =>
      obtain ⟨ha, hlist⟩ := List.forall_mem_cons.mp h
      exact .cons ha (ih hlist)

theorem flatten_eq_nil_of_some {texts : List Text} {pieces : List (List Lexeme)}
    (h : List.Forall₂ WritesSome texts pieces) : pieces.flatten = [] ↔ pieces.isEmpty := by
  cases h with
  | nil => simp
  | cons hpiece _ => simp [hpiece.2]

section Wrapped

variable {text : Text} {texts : List Text} {pieces : List (List Lexeme)}

/-- Nodes between two punctuators, with blanks behind the first and in front of the last. -/
theorem writesBehind_wrap {openKind closeKind : TokenKind} {c d : ℕ} (before after : Text)
    (hopen : kindForPunct c = some openKind) (hclose : kindForPunct d = some closeKind)
    (hbefore : ∀ e ∈ before, e = 32 ∨ e = 44 ∨ e = 10)
    (hafter : ∀ e ∈ after, e = 32 ∨ e = 44 ∨ e = 10)
    (h : WritesPart text pieces.flatten) (hpieces : pieces.flatten = [] ↔ pieces.isEmpty) :
    WritesBehind (wrap (c :: before) text (after ++ [d]))
      (optionalBlock openKind closeKind pieces) := by
  unfold wrap optionalBlock
  by_cases hempty : text = []
  · have hnil : pieces.isEmpty := hpieces.mp (h.isEmpty_iff.mp hempty)
    rw [hempty, if_pos hnil]
    exact .nil
  · have hne : ¬pieces.isEmpty := fun hnil => hempty (h.2 (hpieces.mpr hnil))
    have hend : Writes (after ++ [d]) [punct closeKind] :=
      Writes.blanks hafter (.punct hclose .nil)
    have hseparates : Separates (after ++ [d]) := by
      cases after with
      | nil => exact separates_of_kindForPunct hclose []
      | cons e after => exact separates_blank (hafter e List.mem_cons_self) _
    rw [if_neg (by simpa using hempty), if_neg hne, List.append_assoc]
    refine ⟨⟨?_, nofun⟩, separates_of_kindForPunct hopen _⟩
    rw [List.cons_append]
    exact .punct hopen (Writes.blanks hbefore (h.1.append hend hseparates))

theorem WritesPart.indent {lexemes : List Lexeme} (h : WritesPart text lexemes) :
    WritesPart (indent text) lexemes := by
  refine ⟨h.1.indent, fun hnil => ?_⟩
  rw [h.2 hnil]
  rfl

theorem kindForPunct_parenL : kindForPunct 40 = some .parenL := rfl

theorem kindForPunct_parenR : kindForPunct 41 = some .parenR := rfl

theorem kindForPunct_braceL : kindForPunct 123 = some .braceL := rfl

theorem kindForPunct_braceR : kindForPunct 125 = some .braceR := rfl

theorem kindForPunct_colon : kindForPunct 58 = some .colon := rfl

theorem kindForPunct_atSign : kindForPunct 64 = some .atSign := rfl

/-- Nodes in parentheses, in one line. -/
theorem writesBehind_parens (h : List.Forall₂ WritesSome texts pieces) :
    WritesBehind (wrap (str "(") (join texts (str ", ")) (str ")"))
      (optionalBlock .parenL .parenR pieces) :=
  writesBehind_wrap [] [] kindForPunct_parenL kindForPunct_parenR nofun nofun
    (writesPart_join isBlank_comma (writesPart_of_some h)) (flatten_eq_nil_of_some h)

end Wrapped

/-! ## Names, types and arguments -/

section Nodes

variable {text text' : Text} {lexemes lexemes' : List Lexeme} {isConst : Bool}

theorem writes_printName {node : NameNode} (h : node.Writable) :
    WritesSome (printName node) [word node.value] :=
  ⟨IsName.writes h, nofun⟩

theorem writes_printNamedType {node : NamedTypeNode} (h : node.Writable) :
    WritesSome (printNamedType node) [word node.name.value] :=
  writes_printName h

/-- A keyword is a name. -/
theorem writes_word {name : Text} (h : IsName name) : WritesSome name [word name] :=
  ⟨h.writes, nofun⟩

theorem TypeNode.Writable.inner {type : TypeNode} {loc : Option Location}
    (h : (TypeNode.nonNull type loc).Writable) : type.Writable := by
  cases type with
  | nonNull => exact h.elim
  | _ => exact h

theorem writes_printType : ∀ type : TypeNode, type.Writable →
    WritesSome (printType type) type.sourceTree.lexemes
  | .named node, h => by
      rw [TypeNode.sourceTree, lexemes_namedType]
      exact writes_printNamedType h
  | .list type loc, h => by
      have hopen : kindForPunct 91 = some .bracketL := rfl
      have hclose : kindForPunct 93 = some .bracketR := rfl
      have hinner := (writes_printType type h).1.append (.punct hclose .nil)
        (separates_of_kindForPunct hclose [])
      simp only [TypeNode.sourceTree, lexemes_node, itemLexemes_punct, itemLexemes_child,
        itemLexemes_nil]
      refine ⟨?_, nofun⟩
      rw [printType, List.append_assoc]
      exact .punct hopen hinner
  | .nonNull type loc, h => by
      have hbang : kindForPunct 33 = some .bang := rfl
      have hinner := (writes_printType type h.inner).1.append (.punct hbang .nil)
        (separates_of_kindForPunct hbang [])
      simp only [TypeNode.sourceTree, lexemes_node, itemLexemes_punct, itemLexemes_child,
        itemLexemes_nil]
      exact ⟨hinner, by simp⟩

theorem writes_printVariable {node : VariableNode} (h : node.name.Writable) :
    WritesSome (printVariable node) node.sourceTree.lexemes := by
  have hdollar : kindForPunct 36 = some .dollar := rfl
  simp only [VariableNode.sourceTree, lexemes_node, itemLexemes_punct, itemLexemes_child,
    itemLexemes_nil, lexemes_name]
  exact ⟨.punct hdollar (writes_printName h).1, nofun⟩

/-- A colon between two texts. -/
theorem writes_colon (h : WritesSome text lexemes) (h' : WritesSome text' lexemes') :
    WritesSome (text ++ str ": " ++ text') (lexemes ++ (punct .colon :: lexemes')) := by
  have hrest : Writes (58 :: 32 :: text') (punct .colon :: lexemes') :=
    .punct kindForPunct_colon (.blank (.inl rfl) h'.1)
  rw [List.append_assoc]
  exact ⟨h.1.append hrest (separates_of_kindForPunct kindForPunct_colon _), by simp⟩

theorem writes_printArgument {node : ArgumentNode} (h : node.Writable isConst) :
    WritesSome (printArgument node) node.sourceTree.lexemes := by
  simp only [ArgumentNode.sourceTree, lexemes_node, itemLexemes_punct, itemLexemes_child,
    itemLexemes_nil, lexemes_value, List.append_nil]
  rw [lexemes_name]
  exact writes_colon (writes_printName h.1) (writes_printValue node.value h.2)

theorem writes_printFragmentArgument {node : FragmentArgumentNode} (h : node.Writable) :
    WritesSome (printFragmentArgument node) node.sourceTree.lexemes := by
  simp only [FragmentArgumentNode.sourceTree, lexemes_node, itemLexemes_punct, itemLexemes_child,
    itemLexemes_nil, lexemes_value, List.append_nil]
  rw [lexemes_name]
  exact writes_colon (writes_printName h.1) (writes_printValue node.value h.2)

/-- The nodes of a list that may be missing. -/
theorem writes_nodes {α : Type} {print : α → Text} {tree : α → SourceTree} {P : α → Prop}
    {nodes : Option (List α)} (h : GivenNodes P nodes)
    (hprint : ∀ node, P node → WritesSome (print node) (tree node).lexemes) :
    List.Forall₂ WritesSome ((nodes.getD []).map print)
      ((treesOf tree nodes).map SourceTree.lexemes) := by
  rw [treesOf, List.map_map]
  cases nodes with
  | none => exact .nil
  | some list => exact forall₂_map fun node hnode => hprint node ((h list rfl).2 node hnode)

theorem writes_printDirective {node : DirectiveNode} (h : node.Writable isConst) :
    WritesSome (printDirective node) node.sourceTree.lexemes := by
  have harguments := writes_nodes h.arguments fun _ => writes_printArgument
  simp only [DirectiveNode.sourceTree, lexemes_node, itemLexemes_punct, itemLexemes_child,
    itemLexemes_blockItems, lexemes_name]
  refine ⟨?_, nofun⟩
  rw [printDirective, List.append_assoc]
  exact .punct kindForPunct_atSign
    ((writes_printName h.name).1.appendBehind (writesBehind_parens harguments))

theorem writes_printDirectives {directives : Option (List DirectiveNode)}
    (h : WritableDirectives isConst directives) :
    WritesPart (printDirectives directives) (itemLexemes (appliedDirectives directives)) := by
  rw [appliedDirectives, itemLexemes_nodeItems]
  exact writesPart_join isBlank_space
    (writesPart_of_some (writes_nodes h fun _ => writes_printDirective))

/-! ## Selections -/

/-- Nodes in braces, on a line each. -/
theorem writesBehind_block {texts : List Text} {pieces : List (List Lexeme)}
    (h : List.Forall₂ WritesSome texts pieces) :
    WritesBehind (block texts) (optionalBlock .braceL .braceR pieces) :=
  writesBehind_wrap [10] [10] kindForPunct_braceL kindForPunct_braceR (by decide) (by decide)
    (writesPart_join isBlank_line (writesPart_of_some h)).indent (flatten_eq_nil_of_some h)

theorem writes_wrappedLineAndArgs {texts : List Text} {pieces : List (List Lexeme)}
    (hline : WritesSome text lexemes) (h : List.Forall₂ WritesSome texts pieces) :
    WritesSome (wrappedLineAndArgs text texts)
      (lexemes ++ optionalBlock .parenL .parenR pieces) := by
  refine ⟨?_, fun hnil => hline.2 (List.append_eq_nil_iff.mp hnil).1⟩
  rw [wrappedLineAndArgs]
  split
  · exact hline.1.appendBehind (writesBehind_wrap [10] [10] kindForPunct_parenL
      kindForPunct_parenR (by decide) (by decide)
      (writesPart_join isBlank_line (writesPart_of_some h)).indent (flatten_eq_nil_of_some h))
  · exact hline.1.appendBehind (writesBehind_parens h)

theorem writes_spread (h : Writes text lexemes) :
    Writes (str "..." ++ text) (punct .spread :: lexemes) :=
  .token .spread (by decide) nofun h

theorem writes_printFragmentSpread {options : ParseOptions} {node : FragmentSpreadNode}
    (h : node.Writable options) :
    WritesSome (printFragmentSpread node) node.sourceTree.lexemes := by
  have hline : WritesSome (str "..." ++ printName node.name)
      [punct .spread, word node.name.value] := ⟨writes_spread (writes_printName h.name).1, nofun⟩
  have hargs := writes_wrappedLineAndArgs hline
    (writes_nodes h.arguments fun _ => writes_printFragmentArgument)
  have hdirectives := (writes_printDirectives h.directives).wrap_blank (.inl rfl)
  have hlexemes : node.sourceTree.lexemes = ([punct .spread, word node.name.value] ++
      optionalBlock .parenL .parenR
        ((treesOf FragmentArgumentNode.sourceTree node.arguments).map SourceTree.lexemes)) ++
      itemLexemes (appliedDirectives node.directives) := by
    simp [FragmentSpreadNode.sourceTree]
  rw [hlexemes]
  exact ⟨hargs.1.appendBehind hdirectives, by simp⟩

theorem join_nil (texts : List Text) : join texts = texts.flatten := by
  rw [join]
  induction texts with
  | nil => rfl
  | cons text texts ih =>
      cases text with
      | nil => exact ih
      | cons c text =>
          rw [List.filter_cons_of_pos rfl, List.flatten_cons, ← ih]
          cases texts.filter fun text => !text.isEmpty with
          | nil => simp [List.intercalate_singleton]
          | cons next texts => simp [List.intercalate_cons_cons]

/-- The alias of a field and its name. -/
theorem writes_aliasAndName {fieldAlias : Option NameNode} {name : NameNode}
    (halias : ∀ node ∈ fieldAlias, NameNode.Writable node) (hname : name.Writable) :
    WritesSome (join [wrap [] ((fieldAlias.map printName).getD []) (str ": "), printName name])
      (itemLexemes (aliasItems fieldAlias name)) := by
  rw [join_nil]
  cases fieldAlias with
  | none =>
      have htext : [wrap [] ((Option.map printName none).getD []) (str ": "),
          printName name].flatten = printName name := List.append_nil _
      rw [htext]
      simpa [aliasItems] using writes_printName hname
  | some node =>
      have hnode : node.Writable := halias node rfl
      have hne : printName node ≠ [] := (writes_printName hnode).1.ne_nil nofun
      have htext : [wrap [] ((Option.map printName (some node)).getD []) (str ": "),
          printName name].flatten = printName node ++ str ": " ++ printName name := by
        simp [wrap, hne]
      have hpair := writes_colon (writes_printName hnode) (writes_printName hname)
      rw [htext]
      simpa [aliasItems] using hpair

/-- A keyword and a blank in front of a name that may be missing. -/
theorem writesPart_typeCondition {typeCondition : Option NamedTypeNode}
    (h : ∀ node ∈ typeCondition, NamedTypeNode.Writable node) :
    WritesPart (wrap (str "on ") ((typeCondition.map printNamedType).getD []))
      (itemLexemes ((typeCondition.map typeConditionItems).getD [])) := by
  cases typeCondition with
  | none => exact ⟨.nil, fun _ => rfl⟩
  | some node =>
      have hname := writes_printNamedType (h node rfl)
      have hne : printNamedType node ≠ [] := hname.1.ne_nil hname.2
      have hon : IsName (str "on") := ⟨111, str "n", rfl, rfl, by decide⟩
      have htext : wrap (str "on ") ((Option.map printNamedType (some node)).getD []) =
          str "on" ++ (32 :: printNamedType node) := by
        simp [wrap, hne, str]
      have hwrites := (writes_word hon).1.append (.blank (.inl rfl) hname.1)
        (separates_blank (.inl rfl) _)
      rw [htext]
      refine ⟨by simpa [typeConditionItems] using hwrites, fun hnil => ?_⟩
      simp [typeConditionItems] at hnil

/-- A field without its selection set. -/
theorem writes_fieldHead {fieldAlias : Option NameNode} {name : NameNode}
    {arguments : Option (List ArgumentNode)} {directives : Option (List DirectiveNode)}
    (halias : ∀ node ∈ fieldAlias, NameNode.Writable node) (hname : name.Writable)
    (harguments : GivenNodes (ArgumentNode.Writable false) arguments)
    (hdirectives : WritableDirectives false directives) :
    WritesSome (wrappedLineAndArgs
        (join [wrap [] ((fieldAlias.map printName).getD []) (str ": "), printName name])
        (printArguments arguments) ++ wrap (str " ") (printDirectives directives))
      (itemLexemes (aliasItems fieldAlias name ++
        (blockItems .parenL .parenR (treesOf ArgumentNode.sourceTree arguments) ++
          appliedDirectives directives))) := by
  have hline := writes_wrappedLineAndArgs (writes_aliasAndName halias hname)
    (writes_nodes harguments fun _ => writes_printArgument)
  have hrest := (writes_printDirectives hdirectives).wrap_blank (.inl rfl)
  rw [itemLexemes_append, itemLexemes_append, itemLexemes_blockItems, ← List.append_assoc]
  exact ⟨hline.1.appendBehind hrest, fun hnil => hline.2 (List.append_eq_nil_iff.mp hnil).1⟩

mutual

/-- What is printed for a selection is written with its tokens. -/
theorem writes_printSelection {options : ParseOptions} : ∀ selection : SelectionNode,
    selection.Writable options → WritesSome (printSelection selection) selection.sourceTree.lexemes
  | .field ⟨fieldAlias, name, arguments, directives, none, loc⟩, h => by
      have hhead := writes_fieldHead h.1 h.2.1 h.2.2.1 h.2.2.2.1
      have htext : printSelection (.field ⟨fieldAlias, name, arguments, directives, none, loc⟩) =
          wrappedLineAndArgs
            (join [wrap [] ((fieldAlias.map printName).getD []) (str ": "), printName name])
            (printArguments arguments) ++ wrap (str " ") (printDirectives directives) := by
        rw [printSelection, printField, join_nil]
        simp [printSelectionSet?, wrap]
      rw [htext, SelectionNode.sourceTree, lexemes_node]
      exact hhead
  | .field ⟨fieldAlias, name, arguments, directives, some selectionSet, loc⟩, h => by
      have hhead := writes_fieldHead h.1 h.2.1 h.2.2.1 h.2.2.2.1
      have hset := (writes_printSelectionSet selectionSet h.2.2.2.2).part.wrap_blank (.inl rfl)
      have htext : printSelection
            (.field ⟨fieldAlias, name, arguments, directives, some selectionSet, loc⟩) =
          wrappedLineAndArgs
            (join [wrap [] ((fieldAlias.map printName).getD []) (str ": "), printName name])
            (printArguments arguments) ++ wrap (str " ") (printDirectives directives) ++
              wrap (str " ") (printSelectionSet selectionSet) := by
        rw [printSelection, printField, join_nil]
        simp [printSelectionSet?]
      have hlexemes : (SelectionNode.field
            ⟨fieldAlias, name, arguments, directives, some selectionSet, loc⟩).sourceTree.lexemes =
          itemLexemes (aliasItems fieldAlias name ++
            (blockItems .parenL .parenR (treesOf ArgumentNode.sourceTree arguments) ++
              appliedDirectives directives)) ++ selectionSet.sourceTree.lexemes := by
        simp [SelectionNode.sourceTree]
      rw [htext, hlexemes]
      exact ⟨hhead.1.appendBehind hset, fun hnil => hhead.2 (List.append_eq_nil_iff.mp hnil).1⟩
  | .fragmentSpread node, h => by
      rw [printSelection, SelectionNode.sourceTree]
      exact writes_printFragmentSpread h
  | .inlineFragment ⟨typeCondition, directives, selectionSet, loc⟩, h => by
      have hspread : WritesSome (str "...") [punct .spread] := ⟨writes_spread .nil, nofun⟩
      have hset := writes_printSelectionSet selectionSet h.2.2
      have hparts := writesPart_join isBlank_space (.cons hspread.part
        (.cons (writesPart_typeCondition h.1) (.cons (writes_printDirectives h.2.1)
          (.cons hset.part .nil))))
      have hlexemes : (SelectionNode.inlineFragment
            ⟨typeCondition, directives, selectionSet, loc⟩).sourceTree.lexemes =
          [[punct .spread], itemLexemes ((typeCondition.map typeConditionItems).getD []),
            itemLexemes (appliedDirectives directives),
            selectionSet.sourceTree.lexemes].flatten := by
        simp [SelectionNode.sourceTree]
      rw [printSelection, printInlineFragment, hlexemes]
      exact ⟨hparts.1, nofun⟩

theorem writes_printSelectionSet {options : ParseOptions} : ∀ selectionSet : SelectionSetNode,
    selectionSet.Writable options →
      WritesSome (printSelectionSet selectionSet) selectionSet.sourceTree.lexemes
  | ⟨selections, loc⟩, h => by
      have hne : ¬((selectionTrees selections).map SourceTree.lexemes).isEmpty := by
        rw [selectionTrees_eq]
        simpa using h.1
      have hblock := writesBehind_block (writes_printSelections selections h.2)
      rw [optionalBlock, if_neg hne] at hblock
      have hlexemes : (SelectionSetNode.mk selections loc).sourceTree.lexemes =
          blockLexemes .braceL .braceR ((selectionTrees selections).map SourceTree.lexemes) := by
        simp [SelectionSetNode.sourceTree, blockLexemes]
      rw [printSelectionSet, hlexemes]
      exact ⟨hblock.writes, nofun⟩

theorem writes_printSelections {options : ParseOptions} : ∀ selections : List SelectionNode,
    WritableSelections options selections →
      List.Forall₂ WritesSome (printSelections selections)
        ((selectionTrees selections).map SourceTree.lexemes)
  | [], _ => .nil
  | selection :: selections, h => by
      rw [printSelections, selectionTrees, List.map_cons]
      exact .cons (writes_printSelection selection h.1) (writes_printSelections selections h.2)

end

/-! ## Executable definitions -/

theorem writes_printStringValue {node : StringValueNode} (h : node.Writable) :
    WritesSome (printStringValue node) node.sourceTree.lexemes := by
  have hblock : ¬node.block = some true := by simp [h.1]
  rw [printStringValue, StringValueNode.sourceTree, if_neg hblock, if_neg hblock]
  simp only [lexemes_node, itemLexemes_token, itemLexemes_nil]
  exact ⟨h.2.writes, List.cons_ne_nil _ _⟩

/-- A description and what is described. -/
theorem writes_printDescription {description : Option StringValueNode}
    (h : WritableDescription description) (hnext : Writes text lexemes) :
    Writes (printDescription description ++ text)
      (itemLexemes (descriptionItems description) ++ lexemes) := by
  have hpart : WritesPart ((description.map printStringValue).getD [])
      (itemLexemes (descriptionItems description)) := by
    cases description with
    | none => exact ⟨.nil, fun _ => rfl⟩
    | some node => simpa [descriptionItems] using (writes_printStringValue (h node rfl)).part
  exact hpart.wrap_behind (.inr (.inr rfl)) hnext

theorem writesPart_printDefault {defaultValue : Option ValueNode}
    (h : WritableDefault defaultValue) :
    WritesPart (printDefault (str "= ") defaultValue)
      (itemLexemes (defaultItems defaultValue)) := by
  cases defaultValue with
  | none => exact ⟨.nil, fun _ => rfl⟩
  | some value =>
      have hequals : kindForPunct 61 = some .equals := rfl
      have hvalue := writes_printValue value (h value rfl)
      have hne : printValue value ≠ [] := hvalue.1.ne_nil hvalue.2
      have htext : printDefault (str "= ") (some value) = 61 :: 32 :: printValue value := by
        simp [printDefault, wrap, hne, str]
      rw [htext]
      simp only [defaultItems, itemLexemes_punct, itemLexemes_child, itemLexemes_nil,
        lexemes_value, List.append_nil]
      exact ⟨.punct hequals (.blank (.inl rfl) hvalue.1), by simp⟩

/-- The same with a blank in front. -/
theorem writesBehind_printDefault {defaultValue : Option ValueNode}
    (h : WritableDefault defaultValue) :
    WritesBehind (printDefault (str " = ") defaultValue)
      (itemLexemes (defaultItems defaultValue)) := by
  have htext : printDefault (str " = ") defaultValue =
      wrap [32] (printDefault (str "= ") defaultValue) := by
    unfold printDefault wrap
    split
    · rfl
    · simp [str]
  rw [htext]
  exact (writesPart_printDefault h).wrap_blank (.inl rfl)

theorem writes_printVariableDefinition {node : VariableDefinitionNode} (h : node.Writable) :
    WritesSome (printVariableDefinition node) node.sourceTree.lexemes := by
  have htype := writes_colon (writes_printVariable h.variableNode) (writes_printType _ h.type)
  have hwrites := writes_printDescription h.description
    (htype.1.appendBehind ((writesBehind_printDefault h.defaultValue).append
      ((writes_printDirectives h.directives).wrap_blank (.inl rfl))))
  have htext : printVariableDefinition node = printDescription node.description ++
      (printVariable node.variableNode ++ str ": " ++ printType node.type ++
        (printDefault (str " = ") node.defaultValue ++
          wrap [32] (printDirectives node.directives))) := by
    simp [printVariableDefinition, str]
  have hlexemes : node.sourceTree.lexemes = itemLexemes (descriptionItems node.description) ++
      (node.variableNode.sourceTree.lexemes ++ (punct .colon :: node.type.sourceTree.lexemes) ++
        (itemLexemes (defaultItems node.defaultValue) ++
          itemLexemes (appliedDirectives node.directives))) := by
    simp [VariableDefinitionNode.sourceTree]
  rw [htext, hlexemes]
  exact ⟨hwrites, by simp⟩

/-- The variable definitions, on a line each if one of them takes several lines. -/
theorem writesBehind_variableDefinitions {definitions : Option (List VariableDefinitionNode)}
    (h : GivenNodes VariableDefinitionNode.Writable definitions) :
    WritesBehind (if hasMultilineItems ((definitions.getD []).map printVariableDefinition) then
        wrap (str "(\n") (join ((definitions.getD []).map printVariableDefinition) (str "\n"))
          (str "\n)")
      else wrap (str "(") (join ((definitions.getD []).map printVariableDefinition) (str ", "))
        (str ")"))
      (optionalBlock .parenL .parenR
        ((treesOf VariableDefinitionNode.sourceTree definitions).map SourceTree.lexemes)) := by
  have hnodes := writes_nodes h fun _ => writes_printVariableDefinition
  split
  · exact writesBehind_wrap [10] [10] kindForPunct_parenL kindForPunct_parenR (by decide)
      (by decide) (writesPart_join isBlank_line (writesPart_of_some hnodes))
      (flatten_eq_nil_of_some hnodes)
  · exact writesBehind_parens hnodes

/-- A text is written with one list of tokens only. -/
theorem Writes.unique (h : Writes text lexemes) (h' : Writes text lexemes') :
    lexemes = lexemes' := by
  obtain ⟨tokens, eof, hlex, hlexemes, -⟩ := lex_of_writes h
  obtain ⟨tokens', eof', hlex', hlexemes', -⟩ := lex_of_writes h'
  obtain ⟨htokens, -⟩ := Prod.mk.inj (hlex.symm.trans hlex')
  rw [← hlexemes, ← hlexemes', (List.append_inj' htokens rfl).1]

theorem isName_keyword (operation : OperationType) : IsName operation.keyword := by
  cases operation with
  | query => exact ⟨113, str "uery", rfl, rfl, by decide⟩
  | mutation => exact ⟨109, str "utation", rfl, rfl, by decide⟩
  | subscription => exact ⟨115, str "ubscription", rfl, rfl, by decide⟩

theorem value_eq_keyword (operation : OperationType) : operation.value = operation.keyword := by
  cases operation <;> rfl

theorem GivenNodes.eq_none {α : Type} {P : α → Prop} {nodes : Option (List α)}
    (h : GivenNodes P nodes) (hnil : nodes.getD [] = []) : nodes = none := by
  cases nodes with
  | none => rfl
  | some list => exact absurd hnil (h list rfl).1

theorem optionalBlock_eq_nil {openKind closeKind : TokenKind} {pieces : List (List Lexeme)} :
    optionalBlock openKind closeKind pieces = [] ↔ pieces = [] := by
  cases pieces with
  | nil => exact ⟨fun _ => rfl, fun _ => rfl⟩
  | cons piece pieces => simp [optionalBlock, blockLexemes]

theorem appliedDirectives_eq_nil {directives : Option (List DirectiveNode)}
    (h : WritableDirectives isConst directives)
    (hnil : itemLexemes (appliedDirectives directives) = []) : directives = none := by
  cases directives with
  | none => rfl
  | some list =>
      obtain ⟨node, rest, rfl⟩ := List.exists_cons_of_ne_nil (h list rfl).1
      simp [appliedDirectives, treesOf, DirectiveNode.sourceTree] at hnil

/-- The tokens of an operation in front of its selection set, with its keyword. -/
def OperationDefinitionNode.startLexemes (node : OperationDefinitionNode) : List Lexeme :=
  itemLexemes (descriptionItems node.description) ++
    (word node.operation.keyword :: ((node.name.map fun name => [word name.value]).getD [] ++
      (optionalBlock .parenL .parenR ((treesOf VariableDefinitionNode.sourceTree
        node.variableDefinitions).map SourceTree.lexemes) ++
          itemLexemes (appliedDirectives node.directives))))

/-- The tokens of an operation, where its keyword is left out only if it stands alone. -/
theorem lexemes_operation (node : OperationDefinitionNode) :
    node.sourceTree.lexemes = if (DefinitionNode.operation node).isShorthand then
      node.selectionSet.sourceTree.lexemes
      else node.startLexemes ++ node.selectionSet.sourceTree.lexemes := by
  have hname : (node.name.map NameNode.sourceTree).map SourceTree.lexemes =
      node.name.map fun name => [word name.value] := by
    cases node.name <;> simp
  split
  · next hshort =>
    obtain ⟨operation, description, name, variableDefinitions, directives, selectionSet, loc⟩ :=
      node
    unfold DefinitionNode.isShorthand at hshort
    split at hshort
    · next heq =>
      cases heq
      simp [OperationDefinitionNode.sourceTree, OperationDefinitionNode.keywordItem,
        descriptionItems, maybeNode, nodeItems, treesOf, blockItems, appliedDirectives]
    · cases hshort
  · next hshort =>
    have hkeyword : node.keywordItem = wordItem node.operation.keyword := by
      unfold OperationDefinitionNode.keywordItem
      split
      · next hoperation hdescription hnone hdefinitions hdirectives =>
        obtain ⟨operation, description, name, variableDefinitions, directives, selectionSet,
          loc⟩ := node
        subst hoperation hdescription hnone hdefinitions hdirectives
        exact absurd rfl hshort
      · rfl
    simp [OperationDefinitionNode.sourceTree, hkeyword, OperationDefinitionNode.startLexemes,
      hname]

/-- The keyword of an operation and what follows up to its selection set. -/
theorem writes_operationStart {options : ParseOptions} {node : OperationDefinitionNode}
    (h : node.Writable options) {varDefs : Text}
    (hdefs : WritesBehind varDefs (optionalBlock .parenL .parenR
      ((treesOf VariableDefinitionNode.sourceTree node.variableDefinitions).map
        SourceTree.lexemes))) :
    Writes (printDescription node.description ++
      join [node.operation.value, join [(node.name.map printName).getD [], varDefs],
        printDirectives node.directives] (str " ")) node.startLexemes := by
  have hkeyword : WritesSome node.operation.value [word node.operation.keyword] := by
    rw [value_eq_keyword]
    exact writes_word (isName_keyword _)
  have hname : WritesPart ((node.name.map printName).getD [])
      ((node.name.map fun name => [word name.value]).getD []) := by
    cases hnode : node.name with
    | none => exact .nil
    | some name => exact (writes_printName (h.name name hnode)).part
  have hnamed : WritesPart (join [(node.name.map printName).getD [], varDefs])
      ((node.name.map fun name => [word name.value]).getD [] ++
        optionalBlock .parenL .parenR ((treesOf VariableDefinitionNode.sourceTree
          node.variableDefinitions).map SourceTree.lexemes)) := by
    rw [join_nil]
    have htext : [(node.name.map printName).getD [], varDefs].flatten =
        (node.name.map printName).getD [] ++ varDefs := by simp
    rw [htext]
    refine ⟨hname.1.appendBehind hdefs, fun hnil => ?_⟩
    obtain ⟨hfront, hback⟩ := List.append_eq_nil_iff.mp hnil
    rw [hname.2 hfront, hdefs.1.2 hback, List.append_nil]
  have hstart := writesPart_join isBlank_space (.cons hkeyword.part
    (.cons hnamed (.cons (writes_printDirectives h.directives) .nil)))
  have hlexemes : node.startLexemes = itemLexemes (descriptionItems node.description) ++
      [[word node.operation.keyword],
        (node.name.map fun name => [word name.value]).getD [] ++
          optionalBlock .parenL .parenR ((treesOf VariableDefinitionNode.sourceTree
            node.variableDefinitions).map SourceTree.lexemes),
        itemLexemes (appliedDirectives node.directives)].flatten := by
    simp [OperationDefinitionNode.startLexemes]
  rw [hlexemes]
  exact writes_printDescription h.description hstart.1

/-- The keyword stands alone in a shorthand only. -/
theorem OperationDefinitionNode.Writable.isShorthand_of_start {options : ParseOptions}
    {node : OperationDefinitionNode} (h : node.Writable options)
    (hstart : node.startLexemes = [word (str "query")]) :
    (DefinitionNode.operation node).isShorthand := by
  obtain ⟨operation, description, name, variableDefinitions, directives, selectionSet, loc⟩ := node
  have hdescription : description = none := by
    cases description with
    | none => rfl
    | some node =>
        simp [OperationDefinitionNode.startLexemes, descriptionItems,
          StringValueNode.sourceTree] at hstart
  subst hdescription
  simp only [OperationDefinitionNode.startLexemes, descriptionItems, Option.map_none, maybeNode,
    Option.toList_none, nodeItems, List.map_nil, itemLexemes_nil, List.nil_append,
    List.cons.injEq, List.append_eq_nil_iff] at hstart
  obtain ⟨hkeyword, hname, hdefinitions, hdirectives⟩ := hstart
  have hoperation : operation = .query := by
    cases operation with
    | query => rfl
    | mutation => exact absurd hkeyword (by decide)
    | subscription => exact absurd hkeyword (by decide)
  have hname : name = none := by
    cases name with
    | none => rfl
    | some name => exact absurd hname (List.cons_ne_nil _ _)
  have hdefinitions : variableDefinitions = none := by
    refine h.variableDefinitions.eq_none ?_
    simpa [treesOf] using optionalBlock_eq_nil.mp hdefinitions
  have hdirectives : directives = none := appliedDirectives_eq_nil h.directives hdirectives
  subst hoperation hname hdefinitions hdirectives
  rfl

/-- The start of an operation is left out if it is the keyword of a query alone. -/
theorem writes_startAndSelections {options : ParseOptions} {node : OperationDefinitionNode}
    (h : node.Writable options) {start : Text} (hstart : Writes start node.startLexemes)
    (hshort : (DefinitionNode.operation node).isShorthand → start = str "query") :
    WritesSome ((if start = str "query" then [] else start ++ str " ") ++
      printSelectionSet node.selectionSet) node.sourceTree.lexemes := by
  have hset := writes_printSelectionSet node.selectionSet h.selectionSet
  have hword : IsName (str "query") := isName_keyword .query
  rw [lexemes_operation]
  by_cases hquery : start = str "query"
  · rw [hquery] at hstart
    rw [if_pos hquery, if_pos (h.isShorthand_of_start (hstart.unique (writes_word hword).1))]
    exact hset
  · rw [if_neg hquery, if_neg (mt hshort hquery), List.append_assoc]
    refine ⟨hstart.append (.blank (.inl rfl) hset.1) (separates_blank (.inl rfl) _), ?_⟩
    simp [OperationDefinitionNode.startLexemes]

theorem writes_printOperationDefinition {options : ParseOptions} {node : OperationDefinitionNode}
    (h : node.Writable options) :
    WritesSome (printOperationDefinition node) node.sourceTree.lexemes := by
  refine writes_startAndSelections h
    (writes_operationStart h (writesBehind_variableDefinitions h.variableDefinitions)) ?_
  intro hshort
  unfold DefinitionNode.isShorthand at hshort
  split at hshort
  · next heq =>
    cases heq
    rfl
  · cases hshort

theorem writes_printFragmentDefinition {options : ParseOptions} {node : FragmentDefinitionNode}
    (h : node.Writable options) :
    WritesSome (printFragmentDefinition node) node.sourceTree.lexemes := by
  have hdefinitions : WritesBehind
      (wrap (str "(") (join ((node.variableDefinitions.getD []).map printVariableDefinition)
        (str ", ")) (str ")"))
      (optionalBlock .parenL .parenR ((treesOf VariableDefinitionNode.sourceTree
        node.variableDefinitions).map SourceTree.lexemes)) := by
    have hvariables := h.variableDefinitions
    split at hvariables
    · exact writesBehind_parens (writes_nodes hvariables fun _ => writes_printVariableDefinition)
    · rw [hvariables]
      exact .nil
  have hset := writes_printSelectionSet node.selectionSet h.selectionSet
  have hdirectives := (writes_printDirectives h.directives).wrap_behind (.inl rfl) hset.1
  have hfragment : IsName (str "fragment") := ⟨102, str "ragment", rfl, rfl, by decide⟩
  have hon : IsName (str "on") := ⟨111, str "n", rfl, rfl, by decide⟩
  have hcondition := (writes_printNamedType h.typeCondition).1.append
    (.blank (.inl rfl) hdirectives) (separates_blank (.inl rfl) _)
  have htype := (writes_word hon).1.append (.blank (.inl rfl) hcondition)
    (separates_blank (.inl rfl) _)
  have hrest := ((writes_printName h.name).1.appendBehind hdefinitions).append
    (.blank (.inl rfl) htype) (separates_blank (.inl rfl) _)
  have hwrites := writes_printDescription h.description ((writes_word hfragment).1.append
    (.blank (.inl rfl) hrest) (separates_blank (.inl rfl) _))
  have htext : printFragmentDefinition node = printDescription node.description ++
      (str "fragment" ++ 32 :: (printName node.name ++
        wrap (str "(") (join ((node.variableDefinitions.getD []).map printVariableDefinition)
          (str ", ")) (str ")") ++ 32 :: (str "on" ++ 32 :: (printNamedType node.typeCondition ++
            32 :: (wrap [] (printDirectives node.directives) [32] ++
              printSelectionSet node.selectionSet))))) := by
    simp [printFragmentDefinition, str]
  have hlexemes : node.sourceTree.lexemes = itemLexemes (descriptionItems node.description) ++
      ([word (str "fragment")] ++ ([word node.name.value] ++
        optionalBlock .parenL .parenR ((treesOf VariableDefinitionNode.sourceTree
          node.variableDefinitions).map SourceTree.lexemes) ++
        ([word (str "on")] ++ ([word node.typeCondition.name.value] ++
          (itemLexemes (appliedDirectives node.directives) ++
            node.selectionSet.sourceTree.lexemes))))) := by
    simp [FragmentDefinitionNode.sourceTree, typeConditionItems]
  rw [htext, hlexemes]
  exact ⟨hwrites, by simp⟩

/-! ## Documents -/

theorem writes_printDefinition {options : ParseOptions} {definition : DefinitionNode}
    (h : definition.Writable options) :
    WritesSome (printDefinition definition) definition.sourceTree.lexemes := by
  cases definition with
  | operation node => exact writes_printOperationDefinition h
  | fragment node => exact writes_printFragmentDefinition h
  | _ => cases h

/-- What is printed for a document is written with the tokens of its definitions. -/
theorem writes_printDocument {options : ParseOptions} {document : DocumentNode}
    (h : ∀ definition ∈ document.definitions, DefinitionNode.Writable options definition) :
    Writes (printDocument document)
      (document.definitions.map fun definition => definition.sourceTree.lexemes).flatten := by
  have hdefinitions : List.Forall₂ WritesSome (document.definitions.map printDefinition)
      (document.definitions.map fun definition => definition.sourceTree.lexemes) :=
    forall₂_map fun definition hdefinition => writes_printDefinition (h definition hdefinition)
  exact (writesPart_join isBlank_lines (writesPart_of_some hdefinitions)).1

end Nodes

end GraphqlCore.Language
