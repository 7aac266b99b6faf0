import GraphqlCore.Type.Schema

/-!
# Type comparators

The functions of `utilities/type_comparators.py`.  A relation between named
types is carried over to wrapped types by `SubType`; the comparator decides it
for the relation of a schema.
-/

namespace GraphqlCore

/-- Check whether two types are equal. -/
def isEqualType (typeA typeB : GraphQLType) : Bool := typeA = typeB

/-- Check whether a type is subtype of another type in a given schema. -/
def isTypeSubTypeOf (schema : GraphQLSchema) : GraphQLType → GraphQLType → Bool
  | maybeSubtype, superType =>
      if maybeSubtype = superType then true
      else match maybeSubtype, superType with
        | .nonNull sub, .nonNull super => isTypeSubTypeOf schema sub super
        | _, .nonNull _ => false
        -- If the super type is nullable, the subtype may be either.
        | .nonNull sub, super => isTypeSubTypeOf schema sub super
        | .list sub, .list super => isTypeSubTypeOf schema sub super
        | _, .list _ => false
        | .list _, _ => false
        | .named sub, .named super =>
            match schema.getType super, schema.getType sub with
            | some superType, some subType =>
                superType.isAbstractType &&
                  (subType.isInterfaceType || subType.isObjectType) &&
                  schema.isSubType super sub
            | _, _ => false

/-- Check whether two composite types overlap in a given schema. -/
def doTypesOverlap (schema : GraphQLSchema) (typeA typeB : Text) : Bool :=
  if typeA = typeB then true
  else if schema.isAbstractType typeA then
    if schema.isAbstractType typeB then
      -- Is there any intersection between possible concrete types of each?
      (schema.getPossibleTypes typeA).any (schema.isSubType typeB)
    else schema.isSubType typeA typeB
  else if schema.isAbstractType typeB then schema.isSubType typeB typeA
  else false

/-! ## Subtypes up to wrappers -/

/-- The least relation that contains `base` on named types, is preserved by the
wrappers, and lets a non-null type stand for a nullable one. -/
inductive SubType (base : Text → Text → Prop) : GraphQLType → GraphQLType → Prop
  | named {sub super : Text} (h : base sub super) :
      SubType base (.named sub) (.named super)
  | list {sub super : GraphQLType} (h : SubType base sub super) :
      SubType base (.list sub) (.list super)
  | nonNull {sub super : GraphQLType} (h : SubType base sub super) :
      SubType base (.nonNull sub) (.nonNull super)
  | nullable {sub super : GraphQLType} (h : SubType base sub super)
      (hsuper : isNonNullType super = false) : SubType base (.nonNull sub) super

namespace SubType

variable {base : Text → Text → Prop} {a b c : GraphQLType}

theorem refl (hbase : ∀ name, base name name) : ∀ a, SubType base a a
  | .named name => .named (hbase name)
  | .list a => .list (refl hbase a)
  | .nonNull a => .nonNull (refl hbase a)

@[simp]
theorem named_iff {sub super : Text} :
    SubType base (.named sub) (.named super) ↔ base sub super := by
  constructor
  · intro h
    cases h with
    | named h => exact h
  · exact .named

@[simp]
theorem list_iff : SubType base (.list a) (.list b) ↔ SubType base a b := by
  constructor
  · intro h
    cases h with
    | list h => exact h
  · exact .list

@[simp]
theorem nonNull_iff : SubType base (.nonNull a) (.nonNull b) ↔ SubType base a b := by
  constructor
  · intro h
    cases h with
    | nonNull h => exact h
    | nullable _ hsuper => cases hsuper
  · exact .nonNull

/-- To a nullable supertype it makes no difference whether null is excluded. -/
theorem nullable_iff (hb : isNonNullType b = false) :
    SubType base (.nonNull a) b ↔ SubType base a b := by
  constructor
  · intro h
    cases h with
    | nonNull => cases hb
    | nullable h => exact h
  · intro h
    exact .nullable h hb

/-- A non-null supertype has non-null subtypes only. -/
theorem not_nonNull (ha : isNonNullType a = false) :
    ¬ SubType base a (.nonNull b) := by
  intro h
  cases h with
  | nonNull => cases ha
  | nullable => cases ha

@[simp]
theorem not_named_nonNull {name : Text} :
    ¬ SubType base (.named name) (.nonNull b) := not_nonNull rfl

@[simp]
theorem not_list_nonNull : ¬ SubType base (.list a) (.nonNull b) := not_nonNull rfl

@[simp]
theorem not_named_list {name : Text} : ¬ SubType base (.named name) (.list b) := by
  intro h
  cases h

@[simp]
theorem not_list_named {name : Text} : ¬ SubType base (.list a) (.named name) := by
  intro h
  cases h

theorem trans (hbase : ∀ {a b c}, base a b → base b c → base a c)
    (hab : SubType base a b) (hbc : SubType base b c) : SubType base a c := by
  induction hab generalizing c with
  | named hab =>
      cases hbc with
      | named hbc => exact .named (hbase hab hbc)
  | list _ ih =>
      cases hbc with
      | list hbc => exact .list (ih hbc)
  | nonNull _ ih =>
      cases hbc with
      | nonNull hbc => exact .nonNull (ih hbc)
      | nullable hbc hc => exact .nullable (ih hbc) hc
  | nullable _ hb ih =>
      cases hc : isNonNullType c with
      | false => exact .nullable (ih hbc) hc
      | true =>
          cases c with
          | nonNull c => exact absurd hbc (not_nonNull hb)
          | named name => cases hc
          | list ofType => cases hc

end SubType

/-! ## The relation of a schema -/

/-- The named types that may stand for another: the type itself, and the object
and interface types recorded below an abstract type. -/
def NamedSubType (schema : GraphQLSchema) (sub super : Text) : Prop :=
  sub = super ∨ ∃ superType subType,
    schema.getType super = some superType ∧ schema.getType sub = some subType ∧
    superType.isAbstractType ∧ (subType.isInterfaceType ∨ subType.isObjectType) ∧
    schema.isSubType super sub

theorem isTypeSubTypeOf_named_iff (schema : GraphQLSchema) (sub super : Text) :
    isTypeSubTypeOf schema (.named sub) (.named super) ↔
      NamedSubType schema sub super := by
  rw [isTypeSubTypeOf]
  by_cases h : sub = super
  · simp [h, NamedSubType]
  · cases hsuper : schema.getType super <;> cases hsub : schema.getType sub <;>
      simp [h, hsuper, hsub, NamedSubType, and_assoc]

theorem subType_refl (schema : GraphQLSchema) (a : GraphQLType) :
    SubType (NamedSubType schema) a a :=
  SubType.refl (fun _ => Or.inl rfl) a

/-- The comparator decides the relation. -/
theorem isTypeSubTypeOf_iff (schema : GraphQLSchema) (a b : GraphQLType) :
    isTypeSubTypeOf schema a b ↔ SubType (NamedSubType schema) a b := by
  induction a generalizing b with
  | named sub =>
      cases b with
      | named super =>
          rw [SubType.named_iff]
          exact isTypeSubTypeOf_named_iff schema sub super
      | list super => simp [isTypeSubTypeOf]
      | nonNull super => simp [isTypeSubTypeOf]
  | list sub ih =>
      cases b with
      | named super => simp [isTypeSubTypeOf]
      | list super =>
          by_cases h : sub = super
          · simp [isTypeSubTypeOf, h, subType_refl]
          · simpa [isTypeSubTypeOf, h] using ih super
      | nonNull super => simp [isTypeSubTypeOf]
  | nonNull sub ih =>
      cases b with
      | named super =>
          rw [SubType.nullable_iff rfl, ← ih]
          simp [isTypeSubTypeOf]
      | list super =>
          rw [SubType.nullable_iff rfl, ← ih]
          simp [isTypeSubTypeOf]
      | nonNull super =>
          by_cases h : sub = super
          · simp [isTypeSubTypeOf, h, subType_refl]
          · simpa [isTypeSubTypeOf, h] using ih super

end GraphqlCore
