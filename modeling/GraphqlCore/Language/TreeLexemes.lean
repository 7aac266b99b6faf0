import GraphqlCore.Language.NodeTrees
import GraphqlCore.Language.WrittenValues

/-!
# The tokens of a tree

The tokens that a tree needs: those that may be left out are left out.  These are the tokens
that the printer writes for a node.
-/

namespace GraphqlCore.Language

mutual

def SourceTree.lexemes : SourceTree → List Lexeme
  | .node _ items => itemLexemes items

def itemLexemes : List SourceItem → List Lexeme
  | [] => []
  | .token kind value :: items => (kind, value) :: itemLexemes items
  | .optional _ _ :: items => itemLexemes items
  | .child tree :: items => tree.lexemes ++ itemLexemes items

end

/-- A name or a keyword. -/
def word (value : Text) : Lexeme := (.name, some value)

def punct (kind : TokenKind) : Lexeme := (kind, none)

section Items

variable {items items' : List SourceItem} {tree : SourceTree} {kind : TokenKind}
  {value : Option Text} {text : Text} {loc : Option Location} {trees : List SourceTree}

@[simp]
theorem lexemes_node : (SourceTree.node loc items).lexemes = itemLexemes items := by
  rw [SourceTree.lexemes]

@[simp]
theorem itemLexemes_nil : itemLexemes [] = [] := by
  rw [itemLexemes]

@[simp]
theorem itemLexemes_token :
    itemLexemes (.token kind value :: items) = (kind, value) :: itemLexemes items := by
  rw [itemLexemes]

@[simp]
theorem itemLexemes_optional :
    itemLexemes (.optional kind value :: items) = itemLexemes items := by
  rw [itemLexemes]

@[simp]
theorem itemLexemes_child :
    itemLexemes (.child tree :: items) = tree.lexemes ++ itemLexemes items := by
  rw [itemLexemes]

@[simp]
theorem itemLexemes_punct :
    itemLexemes (punctItem kind :: items) = punct kind :: itemLexemes items :=
  itemLexemes_token

@[simp]
theorem itemLexemes_word :
    itemLexemes (wordItem text :: items) = word text :: itemLexemes items :=
  itemLexemes_token

@[simp]
theorem itemLexemes_append :
    itemLexemes (items ++ items') = itemLexemes items ++ itemLexemes items' := by
  induction items with
  | nil => rw [itemLexemes_nil, List.nil_append, List.nil_append]
  | cons item items ih =>
      cases item with
      | token kind value => simp only [List.cons_append, itemLexemes_token, ih]
      | optional kind value => simp only [List.cons_append, itemLexemes_optional, ih]
      | child tree => simp only [List.cons_append, itemLexemes_child, ih, List.append_assoc]

@[simp]
theorem itemLexemes_nodeItems :
    itemLexemes (nodeItems trees) = (trees.map SourceTree.lexemes).flatten := by
  induction trees with
  | nil => exact itemLexemes_nil
  | cons tree trees ih =>
      rw [List.map_cons, List.flatten_cons, ← ih]
      exact itemLexemes_child

@[simp]
theorem itemLexemes_maybeNode {tree : Option SourceTree} :
    itemLexemes (maybeNode tree) = (tree.map SourceTree.lexemes).getD [] := by
  cases tree with
  | none => exact itemLexemes_nil
  | some tree => simp [maybeNode]

/-- The tokens of nodes between two punctuators. -/
def blockLexemes (openKind closeKind : TokenKind) (pieces : List (List Lexeme)) : List Lexeme :=
  punct openKind :: (pieces.flatten ++ [punct closeKind])

/-- The same where there are no punctuators without nodes. -/
def optionalBlock (openKind closeKind : TokenKind) (pieces : List (List Lexeme)) : List Lexeme :=
  if pieces.isEmpty then [] else blockLexemes openKind closeKind pieces

@[simp]
theorem itemLexemes_blockItems {openKind closeKind : TokenKind} :
    itemLexemes (blockItems openKind closeKind trees) =
      optionalBlock openKind closeKind (trees.map SourceTree.lexemes) := by
  cases trees with
  | nil => exact itemLexemes_nil
  | cons tree trees => simp [blockItems, optionalBlock, blockLexemes]

end Items

/-! ## Names and values -/

@[simp]
theorem lexemes_name (node : NameNode) : node.sourceTree.lexemes = [word node.value] := by
  simp [NameNode.sourceTree]

@[simp]
theorem lexemes_namedType (node : NamedTypeNode) :
    node.sourceTree.lexemes = [word node.name.value] := by
  simp [NamedTypeNode.sourceTree]

mutual

/-- The tree of a literal has the tokens of the literal. -/
theorem lexemes_value : ∀ value : ValueNode, value.sourceTree.lexemes = value.lexemes
  | .variable node => by
      simp [ValueNode.sourceTree, VariableNode.sourceTree, NameNode.sourceTree, ValueNode.lexemes,
        punct, word]
  | .int value loc => by simp [ValueNode.sourceTree, ValueNode.lexemes]
  | .float value loc => by simp [ValueNode.sourceTree, ValueNode.lexemes]
  | .string node => by
      simp [ValueNode.sourceTree, StringValueNode.sourceTree, ValueNode.lexemes]
  | .boolean value loc => by simp [ValueNode.sourceTree, ValueNode.lexemes, word]
  | .null loc => by simp [ValueNode.sourceTree, ValueNode.lexemes, word]
  | .enum value loc => by simp [ValueNode.sourceTree, ValueNode.lexemes, word]
  | .list values loc => by
      simp [ValueNode.sourceTree, ValueNode.lexemes, punct, lexemes_values values]
  | .object fields loc => by
      simp [ValueNode.sourceTree, ValueNode.lexemes, punct, lexemes_objectFields fields]

theorem lexemes_values : ∀ values : List ValueNode,
    (valueTrees values).map SourceTree.lexemes = valueLexemes values
  | [] => rfl
  | value :: values => by
      rw [valueTrees, valueLexemes, List.map_cons, lexemes_value value, lexemes_values values]

theorem lexemes_objectFields : ∀ fields : List ObjectFieldNode,
    (objectFieldTrees fields).map SourceTree.lexemes = fieldLexemes fields
  | [] => rfl
  | ⟨name, value, loc⟩ :: fields => by
      rw [objectFieldTrees, fieldLexemes, List.map_cons, lexemes_objectFields fields]
      simp [NameNode.sourceTree, punct, word, lexemes_value value]

end

end GraphqlCore.Language
