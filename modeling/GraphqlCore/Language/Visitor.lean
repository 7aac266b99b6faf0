import Mathlib.Data.List.Basic
import Mathlib.Data.Nat.Notation

/-!
# The visitor

`visit` and `ParallelVisitor` of `language/visitor.py`.  The visitor treats every AST node
alike: it reads the kind and the attributes that the map of visitor keys names, and never the
class.  Nodes are therefore records with an identity, a kind and named attributes.  They are
frozen in the source, so an edit can only make a new node.
-/

namespace GraphqlCore.Language.Visiting

/-! ## Nodes -/

/-- The special return values of the visitor methods. -/
inductive VisitorActionEnum
  | brk
  | skip
  | remove
  deriving DecidableEq

/-- What an attribute can hold and a visitor method can return.  The reference of a node
tells it from an equal node, so two nodes are the same object when they are equal here. -/
inductive AstValue
  | none
  | action (action : VisitorActionEnum)
  | bool (value : Bool)
  | ellipsis
  | other (text : String)
  | node (ref : ℕ) (kind : String) (attributes : List (String × AstValue))
  | tuple (items : List AstValue)

mutual

def AstValue.eq : AstValue → AstValue → Bool
  | .none, .none => true
  | .action action, .action action' => action = action'
  | .bool value, .bool value' => value = value'
  | .ellipsis, .ellipsis => true
  | .other text, .other text' => text = text'
  | .node ref kind attributes, .node ref' kind' attributes' =>
      ref = ref' && kind = kind' && attributesEq attributes attributes'
  | .tuple items, .tuple items' => itemsEq items items'
  | _, _ => false

def attributesEq : List (String × AstValue) → List (String × AstValue) → Bool
  | [], [] => true
  | (name, value) :: rest, (name', value') :: rest' =>
      name = name' && value.eq value' && attributesEq rest rest'
  | _, _ => false

def itemsEq : List AstValue → List AstValue → Bool
  | [], [] => true
  | value :: rest, value' :: rest' => value.eq value' && itemsEq rest rest'
  | _, _ => false

end

mutual

theorem AstValue.eq_iff : ∀ value value' : AstValue, value.eq value' ↔ value = value'
  | .none, value' => by cases value' <;> simp [AstValue.eq]
  | .action action, value' => by cases value' <;> simp [AstValue.eq]
  | .bool value, value' => by cases value' <;> simp [AstValue.eq]
  | .ellipsis, value' => by cases value' <;> simp [AstValue.eq]
  | .other text, value' => by cases value' <;> simp [AstValue.eq]
  | .node ref kind attributes, value' => by
      cases value' <;> simp [AstValue.eq, attributesEq_iff attributes, and_assoc]
  | .tuple items, value' => by
      cases value' <;> simp [AstValue.eq, itemsEq_iff items]

theorem attributesEq_iff : ∀ attributes attributes' : List (String × AstValue),
    attributesEq attributes attributes' ↔ attributes = attributes'
  | [], attributes' => by cases attributes' <;> simp [attributesEq]
  | (name, value) :: rest, attributes' => by
      cases attributes' with
      | nil => simp [attributesEq]
      | cons pair rest' =>
          obtain ⟨name', value'⟩ := pair
          simp [attributesEq, AstValue.eq_iff value, attributesEq_iff rest]

theorem itemsEq_iff : ∀ items items' : List AstValue, itemsEq items items' ↔ items = items'
  | [], items' => by cases items' <;> simp [itemsEq]
  | value :: rest, items' => by
      cases items' <;> simp [itemsEq, AstValue.eq_iff value, itemsEq_iff rest]

end

instance : DecidableEq AstValue := fun value value' =>
  decidable_of_iff _ (AstValue.eq_iff value value')

namespace AstValue

def isNode : AstValue → Bool
  | .node .. => true
  | _ => false

def isTuple : AstValue → Bool
  | .tuple _ => true
  | _ => false

/-- The truth value in a condition. -/
def truthy : AstValue → Bool
  | .none => false
  | .bool value => value
  | .other text => !text.isEmpty
  | .tuple items => !items.isEmpty
  | _ => true

/-- `edit_value is REMOVE or edit_value is Ellipsis`. -/
def isRemove : AstValue → Bool
  | .action .remove => true
  | .ellipsis => true
  | _ => false

/-- `getattr(node, name, None)`. -/
def getAttr (value : AstValue) (name : String) : AstValue :=
  match value with
  | .node _ _ attributes => (attributes.lookup name).getD .none
  | _ => .none

/-- `node[key]` of a tuple. -/
def item (value : AstValue) (idx : ℕ) : AstValue :=
  match value with
  | .tuple items => items.getD idx .none
  | _ => .none

end AstValue

/-- Which attributes of a node are visited, for each kind. -/
abbrev VisitorKeyMap := String → List String

/-- The default map of visitor keys. -/
def queryDocumentKeys : VisitorKeyMap
  | "name" => []
  | "document" => ["definitions"]
  | "operation_definition" =>
      ["description", "name", "variable_definitions", "directives", "selection_set"]
  | "variable_definition" => ["description", "variable", "type", "default_value", "directives"]
  | "variable" => ["name"]
  | "selection_set" => ["selections"]
  | "field" => ["alias", "name", "arguments", "directives", "selection_set"]
  | "argument" => ["name", "value"]
  | "fragment_argument" => ["name", "value"]
  | "fragment_spread" => ["name", "arguments", "directives"]
  | "inline_fragment" => ["type_condition", "directives", "selection_set"]
  | "fragment_definition" =>
      ["description", "name", "variable_definitions", "type_condition", "directives",
        "selection_set"]
  | "list_value" => ["values"]
  | "object_value" => ["fields"]
  | "object_field" => ["name", "value"]
  | "directive" => ["name", "arguments"]
  | "named_type" => ["name"]
  | "list_type" => ["type"]
  | "non_null_type" => ["type"]
  | "schema_definition" => ["description", "directives", "operation_types"]
  | "operation_type_definition" => ["type"]
  | "scalar_type_definition" => ["description", "name", "directives"]
  | "object_type_definition" => ["description", "name", "interfaces", "directives", "fields"]
  | "field_definition" => ["description", "name", "arguments", "type", "directives"]
  | "input_value_definition" => ["description", "name", "type", "default_value", "directives"]
  | "interface_type_definition" => ["description", "name", "interfaces", "directives", "fields"]
  | "union_type_definition" => ["description", "name", "directives", "types"]
  | "enum_type_definition" => ["description", "name", "directives", "values"]
  | "enum_value_definition" => ["description", "name", "directives"]
  | "input_object_type_definition" => ["description", "name", "directives", "fields"]
  | "directive_definition" => ["description", "name", "arguments", "directives", "locations"]
  | "schema_extension" => ["directives", "operation_types"]
  | "directive_extension" => ["name", "directives"]
  | "scalar_type_extension" => ["name", "directives"]
  | "object_type_extension" => ["name", "interfaces", "directives", "fields"]
  | "interface_type_extension" => ["name", "interfaces", "directives", "fields"]
  | "union_type_extension" => ["name", "directives", "types"]
  | "enum_type_extension" => ["name", "directives", "values"]
  | "input_object_type_extension" => ["name", "directives", "fields"]
  | "type_coordinate" => ["name"]
  | "member_coordinate" => ["name", "member_name"]
  | "argument_coordinate" => ["name", "field_name", "argument_name"]
  | "directive_coordinate" => ["name"]
  | "directive_argument_coordinate" => ["name", "argument_name"]
  | _ => []

/-! ## Visitors -/

inductive Key
  | index (idx : ℕ)
  | name (name : String)
  deriving DecidableEq

/-- The arguments of an enter or leave method.  The key and the parent of the root are
`None`. -/
structure VisitArgs where
  node : AstValue
  key : Option Key
  parent : AstValue
  path : List Key
  ancestors : List AstValue
  deriving DecidableEq

/-- A method may use and change the state of its visitor. -/
abbrev VisitMethod (σ : Type) := VisitArgs → σ → AstValue × σ

structure EnterLeaveVisitor (σ : Type) where
  enter : Option (VisitMethod σ)
  leave : Option (VisitMethod σ)

structure Visitor (σ : Type) where
  getEnterLeaveForKind : String → EnterLeaveVisitor σ

/-- The methods that a visitor class defines: those for single kinds and the generic ones. -/
structure VisitorMethods (σ : Type) where
  enterKind : String → Option (VisitMethod σ) := fun _ => none
  leaveKind : String → Option (VisitMethod σ) := fun _ => none
  enter : Option (VisitMethod σ) := none
  leave : Option (VisitMethod σ) := none

def VisitorMethods.visitor {σ : Type} (methods : VisitorMethods σ) : Visitor σ where
  getEnterLeaveForKind kind :=
    { enter := (methods.enterKind kind).or methods.enter
      leave := (methods.leaveKind kind).or methods.leave }

/-- What the returned value of a method asks for. -/
inductive Answer
  | brk
  | skip
  | idle
  | edit (value : AstValue)

def AstValue.answer : AstValue → Answer
  | .action .brk => .brk
  | .bool true => .brk
  | .action .skip => .skip
  | .bool false => .skip
  | .none => .idle
  | value => .edit value

/-! ## Edits -/

/-- An edit of a child.  Its key is `None` for the root. -/
abbrev Edit := Option Key × AstValue

/-- One edit of a list, with the number of items removed before. -/
def editItem (edited : List AstValue × ℕ) (edit : Edit) : List AstValue × ℕ :=
  match edit.1 with
  | some (.index editKey) =>
      let arrayKey := editKey - edited.2
      if edit.2.isRemove then (edited.1.eraseIdx arrayKey, edited.2 + 1)
      else (edited.1.set arrayKey edit.2, edited.2)
  | _ => edited

def editItems (items : List AstValue) (edits : List Edit) : List AstValue :=
  (edits.foldl editItem (items, 0)).1

/-- `values | dict(edits)`: the last edit of an attribute counts. -/
def editAttributes (attributes : List (String × AstValue)) (edits : List Edit) :
    List (String × AstValue) :=
  attributes.map fun (name, value) =>
    (name, (edits.reverse.lookup (some (.name name))).getD value)

/-- The next free reference and the state of the visitor. -/
structure World (σ : Type) where
  fresh : ℕ
  state : σ

variable {σ : Type}

/-- The copy of a node or tuple with the edits of its children. -/
def rebuild (node : AstValue) (edits : List Edit) (world : World σ) : AstValue × World σ :=
  match node with
  | .tuple items => (.tuple (editItems items edits), world)
  | .node _ kind attributes =>
      (.node world.fresh kind (editAttributes attributes edits),
        { world with fresh := world.fresh + 1 })
  | _ => (node, world)

/-- `edits[-1][1]` if there are edits, else the root. -/
def resultOf (root : AstValue) (edits : List Edit) : AstValue :=
  (edits.getLast?.map (·.2)).getD root

/-! ## The loop -/

inductive VisitError
  | typeError
  | indexError
  | attributeError
  deriving DecidableEq

/-- The items of an array, or the visited attributes of a node. -/
inductive Keys
  | nodes (items : List AstValue)
  | names (keys : List String)

def Keys.length : Keys → ℕ
  | .nodes items => items.length
  | .names keys => keys.length

def Keys.name? : Keys → ℕ → Option String
  | .nodes _, _ => none
  | .names keys, idx => keys[idx]?

structure Stack where
  inArray : Bool
  idx : ℕ
  keys : Keys
  edits : List Edit

/-- The variables of the loop at the head of a turn.  Here `idx` counts from zero, as it does
in the source after it was incremented. -/
structure Loop (σ : Type) where
  stack : List Stack
  inArray : Bool
  keys : Keys
  idx : ℕ
  edits : List Edit
  parent : AstValue
  path : List Key
  ancestors : List AstValue
  world : World σ

def Loop.start (root : AstValue) (world : World σ) : Loop σ where
  stack := []
  inArray := false
  keys := .nodes [root]
  idx := 0
  edits := []
  parent := .none
  path := []
  ancestors := []
  world := world

/-- A turn of the loop that has come to a node, before the visitor is called. -/
structure Turn (σ : Type) where
  loop : Loop σ
  isLeaving : Bool
  isEdited : Bool
  key : Option Key
  node : AstValue

/-- What a turn leads to: the next turn, or the end of the traversal. -/
inductive Step (σ : Type)
  | next (loop : Loop σ)
  | stop (result : Except VisitError AstValue) (world : World σ)

/-- All children were visited: the frame of the parent comes back. -/
def Loop.leaveFrame (loop : Loop σ) : Except VisitError (Turn σ) :=
  match loop.stack with
  | [] => .error .attributeError
  | frame :: stack =>
      let isEdited := !loop.edits.isEmpty
      let (node, world) :=
        if isEdited then rebuild loop.parent loop.edits loop.world
        else (loop.parent, loop.world)
      .ok {
        loop := {
          stack := stack
          inArray := frame.inArray
          keys := frame.keys
          idx := frame.idx
          edits := frame.edits
          parent := loop.ancestors.getLast?.getD .none
          path := loop.path
          ancestors := loop.ancestors.dropLast
          world := world }
        isLeaving := true
        isEdited := isEdited
        key := if loop.ancestors.isEmpty then none else loop.path.getLast?
        node := node }

/-- The child at `idx` with its key. -/
def Loop.child (loop : Loop σ) : Option (Key × AstValue) :=
  if loop.inArray then some (.index loop.idx, loop.parent.item loop.idx)
  else (loop.keys.name? loop.idx).map fun name => (.name name, loop.parent.getAttr name)

/-- The next child, or the root at the first turn; nothing for a child that is `None`. -/
def Loop.enterChild (root : AstValue) (loop : Loop σ) : Option (Turn σ) :=
  let loop' := { loop with idx := loop.idx + 1 }
  if loop.parent.truthy then
    match loop.child with
    | none => none
    | some (_, .none) => none
    | some (key, node) =>
        some {
          loop := { loop' with path := loop.path ++ [key] }
          isLeaving := false
          isEdited := false
          key := some key
          node := node }
  else
    some { loop := loop', isLeaving := false, isEdited := false, key := none, node := root }

/-- `visit_fn`: the method for a kind. -/
def Visitor.visitFn (visitor : Visitor σ) (isLeaving : Bool) (kind : String) :
    Option (VisitMethod σ) :=
  let enterLeave := visitor.getEnterLeaveForKind kind
  if isLeaving then enterLeave.leave else enterLeave.enter

/-- Call the method for a node; a tuple is passed over. -/
def callVisitor (visitor : Visitor σ) (isLeaving : Bool) (args : VisitArgs)
    (world : World σ) : Except VisitError (AstValue × World σ) :=
  match args.node with
  | .tuple _ => .ok (.none, world)
  | .node _ kind _ =>
      match visitor.visitFn isLeaving kind with
      | none => .ok (.none, world)
      | some visitFn =>
          let (result, state) := visitFn args world.state
          .ok (result, { world with state := state })
  | _ => .error .typeError

namespace Turn

/-- `edits.append((key, value))`. -/
def record (turn : Turn σ) (value : AstValue) : Turn σ :=
  { turn with loop := { turn.loop with edits := turn.loop.edits ++ [(turn.key, value)] } }

/-- `path_pop(); continue`. -/
def passOver (turn : Turn σ) : Step σ :=
  if turn.loop.path.isEmpty then .stop (.error .indexError) turn.loop.world
  else .next { turn.loop with path := turn.loop.path.dropLast }

/-- The end of a turn: a node that was entered becomes the parent of the next children. -/
def proceed (visitorKeys : VisitorKeyMap) (root : AstValue) (turn : Turn σ) : Step σ :=
  let loop := turn.loop
  if turn.isLeaving then
    if loop.stack.isEmpty then .stop (.ok (resultOf root loop.edits)) loop.world
    else .next { loop with path := loop.path.dropLast }
  else
    .next {
      stack := ⟨loop.inArray, loop.idx, loop.keys, loop.edits⟩ :: loop.stack
      inArray := turn.node.isTuple
      keys := match turn.node with
        | .tuple items => .nodes items
        | .node _ kind _ => .names (visitorKeys kind)
        | _ => .names []
      idx := 0
      edits := []
      parent := turn.node
      path := loop.path
      ancestors := if loop.parent.truthy then loop.ancestors ++ [loop.parent] else loop.ancestors
      world := loop.world }

/-- The arguments of the method that is called. -/
def args (turn : Turn σ) : VisitArgs :=
  ⟨turn.node, turn.key, turn.loop.parent, turn.loop.path, turn.loop.ancestors⟩

/-- Do what the visitor asks for. -/
def react (visitorKeys : VisitorKeyMap) (root : AstValue) (turn : Turn σ) (result : AstValue) :
    Step σ :=
  match result.answer with
  | .brk => .stop (.ok (resultOf root turn.loop.edits)) turn.loop.world
  | .skip => if turn.isLeaving then turn.proceed visitorKeys root else turn.passOver
  | .edit value =>
      let turn := turn.record value
      if turn.isLeaving then turn.proceed visitorKeys root
      else if value.isNode then { turn with node := value }.proceed visitorKeys root
      else turn.passOver
  | .idle =>
      if turn.isEdited then (turn.record turn.node).proceed visitorKeys root
      else turn.proceed visitorKeys root

def act (visitorKeys : VisitorKeyMap) (visitor : Visitor σ) (root : AstValue)
    (turn : Turn σ) : Step σ :=
  match callVisitor visitor turn.isLeaving turn.args turn.loop.world with
  | .error error => .stop (.error error) turn.loop.world
  | .ok (result, world) =>
      { turn with loop := { turn.loop with world := world } }.react visitorKeys root result

end Turn

/-- The node that a turn comes to; nothing for a child that is `None`. -/
def Loop.arrive (root : AstValue) (loop : Loop σ) : Except VisitError (Option (Turn σ)) :=
  if loop.idx = loop.keys.length then loop.leaveFrame.map some
  else .ok (loop.enterChild root)

/-- One turn of the loop of `visit`. -/
def step (visitorKeys : VisitorKeyMap) (visitor : Visitor σ) (root : AstValue)
    (loop : Loop σ) : Step σ :=
  match loop.arrive root with
  | .error error => .stop (.error error) loop.world
  | .ok none => .next { loop with idx := loop.idx + 1 }
  | .ok (some turn) => turn.act visitorKeys visitor root

def run (visitorKeys : VisitorKeyMap) (visitor : Visitor σ) (root : AstValue) :
    ℕ → Loop σ → Step σ
  | 0, loop => .next loop
  | n + 1, loop =>
      match step visitorKeys visitor root loop with
      | .next loop => run visitorKeys visitor root n loop
      | .stop result world => .stop result world

/-- `visit` with as many turns as it is given. -/
def visit (visitorKeys : VisitorKeyMap) (visitor : Visitor σ) (root : AstValue)
    (turns : ℕ) (world : World σ) : Step σ :=
  if root.isNode then run visitorKeys visitor root turns (.start root world)
  else .stop (.error .typeError) world

/-- `visit` comes to an end. -/
def Visits (visitorKeys : VisitorKeyMap) (visitor : Visitor σ) (root : AstValue)
    (world : World σ) (result : Except VisitError AstValue) (world' : World σ) : Prop :=
  ∃ turns, visit visitorKeys visitor root turns world = .stop result world'

/-! ## The parallel visitor -/

/-- The value of `skipping[i]`. -/
inductive Skipping
  | none
  | brk
  | node (node : AstValue)
  deriving DecidableEq

/-- What the parallel visitor has for each of its visitors. -/
structure Seat (σ : Type) where
  skipping : Skipping
  state : σ

/-- The loop over `enter_list`. -/
def enterAll (args : VisitArgs) : List (Option (VisitMethod σ)) → List (Seat σ) →
    AstValue × List (Seat σ)
  | fn :: enterList, seat :: seats =>
      match seat.skipping, fn with
      | .none, some fn =>
          let (result, state) := fn args seat.state
          match result.answer with
          | .skip =>
              let (value, seats) := enterAll args enterList seats
              (value, ⟨.node args.node, state⟩ :: seats)
          | .brk =>
              let (value, seats) := enterAll args enterList seats
              (value, ⟨.brk, state⟩ :: seats)
          | .edit value => (value, ⟨.none, state⟩ :: seats)
          | .idle =>
              let (value, seats) := enterAll args enterList seats
              (value, ⟨.none, state⟩ :: seats)
      | _, _ =>
          let (value, seats) := enterAll args enterList seats
          (value, seat :: seats)
  | _, seats => (.none, seats)

/-- The loop over `leave_list`. -/
def leaveAll (args : VisitArgs) : List (Option (VisitMethod σ)) → List (Seat σ) →
    AstValue × List (Seat σ)
  | fn :: leaveList, seat :: seats =>
      match seat.skipping, fn with
      | .none, some fn =>
          let (result, state) := fn args seat.state
          match result.answer with
          | .brk =>
              let (value, seats) := leaveAll args leaveList seats
              (value, ⟨.brk, state⟩ :: seats)
          | .edit value => (value, ⟨.none, state⟩ :: seats)
          | .skip | .idle =>
              let (value, seats) := leaveAll args leaveList seats
              (value, ⟨.none, state⟩ :: seats)
      | .node node, _ =>
          let (value, seats) := leaveAll args leaveList seats
          if node = args.node then (value, ⟨.none, seat.state⟩ :: seats)
          else (value, seat :: seats)
      | _, _ =>
          let (value, seats) := leaveAll args leaveList seats
          (value, seat :: seats)
  | _, seats => (.none, seats)

/-- `ParallelVisitor`: the visitors run in parallel, each with a state of its own. -/
def parallelVisitor (visitors : List (Visitor σ)) : Visitor (List (Seat σ)) where
  getEnterLeaveForKind kind :=
    let enterList := visitors.map fun visitor => (visitor.getEnterLeaveForKind kind).enter
    let leaveList := visitors.map fun visitor => (visitor.getEnterLeaveForKind kind).leave
    if enterList.any Option.isSome || leaveList.any Option.isSome then
      { enter := some fun args seats => enterAll args enterList seats
        leave := some fun args seats => leaveAll args leaveList seats }
    else { enter := none, leave := none }

/-! ## Calls -/

/-- A call of an enter or leave method and what it returned. -/
structure Event where
  isLeaving : Bool
  args : VisitArgs
  result : AstValue
  deriving DecidableEq

/-- The method that also notes its calls. -/
def VisitMethod.recording (isLeaving : Bool) (method : VisitMethod σ) :
    VisitMethod (σ × List Event) := fun args state =>
  let (result, state') := method args state.1
  (result, state', state.2 ++ [⟨isLeaving, args, result⟩])

/-- The visitor that also notes the calls of its methods. -/
def Visitor.recording (visitor : Visitor σ) : Visitor (σ × List Event) where
  getEnterLeaveForKind kind :=
    let enterLeave := visitor.getEnterLeaveForKind kind
    { enter := enterLeave.enter.map (VisitMethod.recording false)
      leave := enterLeave.leave.map (VisitMethod.recording true) }

end GraphqlCore.Language.Visiting
