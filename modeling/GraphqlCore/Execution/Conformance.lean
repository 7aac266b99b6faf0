import GraphqlCore.Execution.ResponseShape
import Mathlib.Data.Set.Lattice
import Mathlib.Order.CompletePartialOrder

/-!
# Responses conform to the schema

Completing a value at a path adds errors to those collected before.  They are found
beneath the path, where the data is null unless an exception is raised.  An exception
that is raised is located at or beneath the path, but beneath none of the positions
that were nulled.
-/

namespace GraphqlCore.Execution

open Language Attempt

namespace Executor

variable {executor : Executor}

/-! ## Where errors are located -/

theorem asList_addKey (path : Path) (key : PathKey) (typename : Option Text) :
    (path.addKey key typename).asList = path.asList ++ [key] := by
  simp [Path.addKey, Path.asList]

theorem not_prefix_of_branches {path position position' : List PathKey}
    {key key' : PathKey} (h : path ++ [key] <+: position)
    (h' : path ++ [key'] <+: position') (hne : key ≠ key') :
    ¬ position <+: position' := by
  intro hprefix
  obtain ⟨rest, rfl⟩ := h.trans hprefix
  obtain ⟨rest', hrest⟩ := h'
  simp only [List.append_assoc, List.append_cancel_left_eq] at hrest
  exact hne (List.cons.inj hrest).1.symm

theorem not_prefix_of_beneath {path position : List PathKey} {key : PathKey}
    (h : path ++ [key] <+: position) : ¬ position <+: path := by
  intro hprefix
  have hle := (h.trans hprefix).length_le
  simp at hle

/-- The error was raised and has not been located since. -/
def Raw (executor : Executor) (error : ExecutionError) : Prop :=
  error.path = none ∨ executor.Raises error

/-- What is known about an error that is raised at the path, with or without a path. -/
def RaisedWithin (executor : Executor) (path : List PathKey) (error : ExecutionError) :
    Prop :=
  executor.HasOwnPath error ∨ path <+: error.path.getD path

theorem raisedWithin_of_raw {error : ExecutionError} (path : List PathKey)
    (h : executor.Raw error) : executor.RaisedWithin path error := by
  cases hpath : error.path with
  | none => exact Or.inr (by rw [hpath]; exact List.prefix_rfl)
  | some own =>
      have hraises : executor.Raises error :=
        h.resolve_left (by rw [hpath]; exact Option.some_ne_none own)
      exact Or.inl ⟨by rw [hpath]; rfl, hraises⟩

theorem LocatedBeneath.raisedWithin {path position : List PathKey}
    {error : ExecutionError} (h : executor.LocatedBeneath position error)
    (hpath : path <+: position) : executor.RaisedWithin path error := by
  refine h.imp id fun hposition => ?_
  cases herror : error.path with
  | none => exact List.prefix_rfl
  | some own =>
      rw [herror] at hposition
      exact hpath.trans hposition

/-- An error is located where it is handled. -/
theorem locatedBeneath_locatedError {path : List PathKey} {error : ExecutionError}
    (h : executor.RaisedWithin path error) :
    executor.LocatedBeneath path (locatedError error path) := by
  cases hpath : error.path with
  | none => exact Or.inr (by simp [locatedError, hpath])
  | some own =>
      rw [locatedError, hpath]
      refine h.imp id fun hprefix => ?_
      rw [hpath] at hprefix ⊢
      exact hprefix

theorem locatedOutside_locatedError {path position : List PathKey}
    {error : ExecutionError} (h : executor.LocatedOutside position error)
    (hposition : ¬ position <+: path) :
    executor.LocatedOutside position (locatedError error path) := by
  cases hpath : error.path with
  | none => exact Or.inr (by simpa [locatedError, hpath] using hposition)
  | some own =>
      rw [locatedError, hpath]
      exact h

theorem LocatedBeneath.outside {path position : List PathKey} {key key' : PathKey}
    {error : ExecutionError} (h : executor.LocatedBeneath (path ++ [key']) error)
    (hposition : path ++ [key] <+: position) (hne : key ≠ key') :
    executor.LocatedOutside position error :=
  h.imp id fun hpath => not_prefix_of_branches hposition hpath hne

/-- Errors without a path are located at the root. -/
theorem locatedOutside_of_raw {path position : List PathKey} {key : PathKey}
    {error : ExecutionError} (h : executor.Raw error)
    (hposition : path ++ [key] <+: position) :
    executor.LocatedOutside position error := by
  cases hpath : error.path with
  | none =>
      refine Or.inr fun hprefix => ?_
      rw [hpath] at hprefix
      have hle := (hposition.trans hprefix).length_le
      simp at hle
  | some own =>
      have hraises : executor.Raises error :=
        h.resolve_left (by rw [hpath]; exact Option.some_ne_none own)
      exact Or.inl ⟨by rw [hpath]; rfl, hraises⟩

/-! ## Errors that are recorded beneath a path -/

abbrev Entry := Path × ExecutionError

/-- The errors are recorded and located beneath the keys from the path, in an order
in which none is at or beneath a position that was nulled before. -/
structure Recorded (executor : Executor) (path : List PathKey) (keys : Set PathKey)
    (new : List Entry) : Prop where
  beneath : ∀ entry ∈ new, ∃ key ∈ keys, path ++ [key] <+: entry.1.asList
  located : ∀ entry ∈ new, executor.LocatedBeneath entry.1.asList entry.2
  ordered : new.Pairwise fun entry later =>
    ¬ entry.1.asList <+: later.1.asList ∧
      executor.LocatedOutside entry.1.asList later.2

variable {path : List PathKey} {keys keys' : Set PathKey} {new new' : List Entry}

theorem recorded_nil : executor.Recorded path keys [] where
  beneath := by simp
  located := by simp
  ordered := .nil

theorem Recorded.mono (h : executor.Recorded path keys new) (hkeys : keys ⊆ keys') :
    executor.Recorded path keys' new where
  beneath entry hentry := by
    obtain ⟨key, hkey, hprefix⟩ := h.beneath entry hentry
    exact ⟨key, hkeys hkey, hprefix⟩
  located := h.located
  ordered := h.ordered

/-- Errors beneath a key are errors beneath the path. -/
theorem Recorded.ofKey {key : PathKey} (h : executor.Recorded (path ++ [key]) keys new) :
    executor.Recorded path {key} new where
  beneath entry hentry := by
    obtain ⟨key', -, hprefix⟩ := h.beneath entry hentry
    exact ⟨key, rfl, (List.prefix_append _ _).trans hprefix⟩
  located := h.located
  ordered := h.ordered

theorem Recorded.append (h : executor.Recorded path keys new)
    (h' : executor.Recorded path keys' new') (hdisjoint : Disjoint keys keys') :
    executor.Recorded path (keys ∪ keys') (new ++ new') where
  beneath entry hentry := by
    rcases List.mem_append.mp hentry with hentry | hentry
    · obtain ⟨key, hkey, hprefix⟩ := h.beneath entry hentry
      exact ⟨key, Or.inl hkey, hprefix⟩
    · obtain ⟨key, hkey, hprefix⟩ := h'.beneath entry hentry
      exact ⟨key, Or.inr hkey, hprefix⟩
  located entry hentry := by
    rcases List.mem_append.mp hentry with hentry | hentry
    · exact h.located entry hentry
    · exact h'.located entry hentry
  ordered := by
    refine List.pairwise_append.mpr ⟨h.ordered, h'.ordered, ?_⟩
    intro entry hentry later hlater
    obtain ⟨key, hkey, hprefix⟩ := h.beneath entry hentry
    obtain ⟨key', hkey', hprefix'⟩ := h'.beneath later hlater
    have hne : key ≠ key' := fun heq =>
      Set.disjoint_left.mp hdisjoint hkey (heq ▸ hkey')
    constructor
    · exact not_prefix_of_branches hprefix hprefix' hne
    · refine (h'.located later hlater).imp id fun hlocated => ?_
      exact not_prefix_of_branches hprefix (hprefix'.trans hlocated) hne

/-- The error that nulls the path itself comes after those beneath it. -/
theorem Recorded.concat {key : PathKey} {position : Path} {error : ExecutionError}
    (h : executor.Recorded (path ++ [key]) keys new)
    (hposition : position.asList = path ++ [key])
    (hlocated : executor.LocatedBeneath (path ++ [key]) error)
    (houtside : ∀ entry ∈ new, executor.LocatedOutside entry.1.asList error) :
    executor.Recorded path {key} (new ++ [(position, error)]) where
  beneath entry hentry := by
    rcases List.mem_append.mp hentry with hentry | hentry
    · exact h.ofKey.beneath entry hentry
    · obtain rfl := List.mem_singleton.mp hentry
      exact ⟨key, rfl, hposition ▸ List.prefix_rfl⟩
  located entry hentry := by
    rcases List.mem_append.mp hentry with hentry | hentry
    · exact h.located entry hentry
    · obtain rfl := List.mem_singleton.mp hentry
      rw [hposition]
      exact hlocated
  ordered := by
    refine List.pairwise_append.mpr ⟨h.ordered, List.pairwise_singleton _ _, ?_⟩
    intro entry hentry later hlater
    obtain rfl := List.mem_singleton.mp hlater
    obtain ⟨key', -, hprefix⟩ := h.beneath entry hentry
    refine ⟨?_, houtside entry hentry⟩
    rw [hposition]
    exact not_prefix_of_beneath hprefix

/-! ## What completing a value ends with -/

/-- The value is completed at the path, and the new errors null positions in it. -/
structure Completed (executor : Executor) (path : List PathKey) (keys : Set PathKey)
    (before : CollectedErrors) (fits : Data → Prop) (data : Data)
    (after : CollectedErrors) : Prop where
  fits : fits data
  errors : ∃ new, after.entries = before.entries ++ new ∧
    executor.Recorded path keys new ∧
    ∀ entry ∈ new, data.NullsAt path entry.1.asList

/-- An exception is raised at the path, or located beneath one of the keys. -/
def Failed (executor : Executor) (path : List PathKey) (keys : Set PathKey)
    (before : CollectedErrors) : Interruption → CollectedErrors → Prop
  | .tooDeep, _ => True
  | .raised error, after => ∃ new, after.entries = before.entries ++ new ∧
      executor.Recorded path keys new ∧
      (executor.Raw error ∨
        ∃ key ∈ keys, executor.LocatedBeneath (path ++ [key]) error) ∧
      ∀ entry ∈ new, executor.LocatedOutside entry.1.asList error

/-- Completing a value at the path ends well. -/
def Completes (executor : Executor) (path : List PathKey) (fits : Data → Prop)
    (x : Run Data) : Prop :=
  ∀ before, Ends x before (executor.Completed path Set.univ before fits)
    (executor.Failed path Set.univ before)

theorem failed_of_raw {before after : CollectedErrors} {error : ExecutionError}
    (hafter : after.entries = before.entries ++ new)
    (hrecorded : executor.Recorded path keys new) (h : executor.Raw error) :
    executor.Failed path keys before (.raised error) after := by
  refine ⟨new, hafter, hrecorded, Or.inl h, fun entry hentry => ?_⟩
  obtain ⟨key, -, hprefix⟩ := hrecorded.beneath entry hentry
  exact locatedOutside_of_raw h hprefix

/-- An exception comes after the errors beneath other keys. -/
theorem Failed.prepend {before middle after : CollectedErrors}
    {interruption : Interruption}
    (h : executor.Failed path keys' middle interruption after)
    (hmiddle : middle.entries = before.entries ++ new)
    (hrecorded : executor.Recorded path keys new) (hdisjoint : Disjoint keys keys') :
    executor.Failed path (keys ∪ keys') before interruption after := by
  cases interruption with
  | tooDeep => trivial
  | raised error =>
      obtain ⟨new', hafter, hrecorded', hraised, houtside⟩ := h
      refine ⟨new ++ new', ?_, hrecorded.append hrecorded' hdisjoint, ?_, ?_⟩
      · rw [hafter, hmiddle, List.append_assoc]
      · refine hraised.imp id fun hlocated => ?_
        obtain ⟨key, hkey, hbeneath⟩ := hlocated
        exact ⟨key, Or.inr hkey, hbeneath⟩
      · intro entry hentry
        rcases List.mem_append.mp hentry with hentry | hentry
        · obtain ⟨key, hkey, hprefix⟩ := hrecorded.beneath entry hentry
          rcases hraised with hraw | ⟨key', hkey', hbeneath⟩
          · exact locatedOutside_of_raw hraw hprefix
          · exact hbeneath.outside hprefix fun heq =>
              Set.disjoint_left.mp hdisjoint hkey (heq ▸ hkey')
        · exact houtside entry hentry

theorem Failed.mono {before after : CollectedErrors} {interruption : Interruption}
    (h : executor.Failed path keys before interruption after) (hkeys : keys ⊆ keys') :
    executor.Failed path keys' before interruption after := by
  cases interruption with
  | tooDeep => trivial
  | raised error =>
      obtain ⟨new, hafter, hrecorded, hraised, houtside⟩ := h
      refine ⟨new, hafter, hrecorded.mono hkeys, hraised.imp id fun hlocated => ?_,
        houtside⟩
      obtain ⟨key, hkey, hbeneath⟩ := hlocated
      exact ⟨key, hkeys hkey, hbeneath⟩

variable {fits fits' : Data → Prop} {x : Run Data}

theorem Completes.mono (h : executor.Completes path fits x)
    (hfits : ∀ data, fits data → fits' data) : executor.Completes path fits' x := by
  intro before
  refine (h before).mono ?_
  intro data after hcompleted
  exact ⟨hfits data hcompleted.fits, hcompleted.errors⟩

theorem completes_pure {data : Data} (h : fits data) :
    executor.Completes path fits (Pure.pure data) := by
  intro before
  rw [ends_pure]
  exact ⟨h, [], by simp, recorded_nil, by simp⟩

theorem completes_raise {error : ExecutionError} (h : executor.Raw error) :
    executor.Completes path fits (raise error) := by
  intro before
  rw [raise, ends_throw]
  exact failed_of_raw (by simp) recorded_nil h

theorem completes_message (message : Text) :
    executor.Completes path fits (raiseMessage message) :=
  completes_raise (Or.inl rfl)

/-- A value completes where what is called before returns. -/
theorem completes_lift {α ε : Type} {interrupt : ε → Interruption} {y : Except ε α}
    {f : α → Run Data} (hok : ∀ a, y = .ok a → executor.Completes path fits (f a))
    (herror : ∀ e error, y = .error e → interrupt e = .raised error →
      executor.Raw error) :
    executor.Completes path fits (.lift interrupt y >>= f) := by
  intro before
  rw [ends_bind, ends_lift]
  constructor
  · intro a hy
    exact hok a hy before
  · intro e hy
    cases hinterrupt : interrupt e with
    | tooDeep => trivial
    | raised error =>
        exact failed_of_raw (by simp) recorded_nil (herror e error hy hinterrupt)

theorem completes_call {α : Type} {y : Except ExecutionError α} {f : α → Run Data}
    (hok : ∀ a, y = .ok a → executor.Completes path fits (f a))
    (herror : ∀ error, y = .error error → executor.Raw error) :
    executor.Completes path fits (call y >>= f) := by
  refine completes_lift hok ?_
  intro e error hy hinterrupt
  obtain rfl := Interruption.raised.inj hinterrupt
  exact herror e hy

/-! ## Handling errors -/

theorem nullsAt_null {position : List PathKey} (h : path <+: position) :
    Data.null.NullsAt path position :=
  ⟨[], by simpa using h, rfl⟩

/-- Errors at a position are recorded there where the type is nullable, and raised
further where it is not. -/
theorem orNull_ends (hpropagation : executor.errorPropagation = true)
    {type : GraphQLType} {position : Path} {key : PathKey}
    (hposition : position.asList = path ++ [key])
    (h : executor.Completes (path ++ [key]) fits x)
    (hnull : isNonNullType type = false → fits .null) (before : CollectedErrors) :
    Ends (executor.orNull type position x) before
      (fun data after => fits data ∧ ∃ new, after.entries = before.entries ++ new ∧
        executor.Recorded path {key} new ∧
        ∀ entry ∈ new, data.NullsAt (path ++ [key]) entry.1.asList)
      (executor.Failed path {key} before) := by
  rw [orNull, ends_handle]
  refine (h before).mono ?_ ?_
  · intro data after hcompleted
    obtain ⟨new, hafter, hrecorded, hnulls⟩ := hcompleted.errors
    exact ⟨hcompleted.fits, new, hafter, hrecorded.ofKey, hnulls⟩
  · intro interruption after hfailed
    cases interruption with
    | tooDeep => exact trivial
    | raised error =>
        obtain ⟨new, hafter, hrecorded, hraised, houtside⟩ := hfailed
        have hwithin : executor.RaisedWithin (path ++ [key]) error := by
          rcases hraised with hraw | ⟨key', -, hbeneath⟩
          · exact raisedWithin_of_raw _ hraw
          · exact hbeneath.raisedWithin (List.prefix_append _ _)
        have hlocated := locatedBeneath_locatedError hwithin
        have houtside' : ∀ entry ∈ new, executor.LocatedOutside entry.1.asList
            (locatedError error (path ++ [key])) := by
          intro entry hentry
          obtain ⟨key', -, hprefix⟩ := hrecorded.beneath entry hentry
          exact locatedOutside_locatedError (houtside entry hentry)
            (not_prefix_of_beneath hprefix)
        simp only [handleFieldError, hposition, hpropagation, Bool.true_and, ends_bind]
        split
        · rw [raise, ends_throw]
          exact ⟨new, hafter, hrecorded.ofKey, Or.inr ⟨key, rfl, hlocated⟩, houtside'⟩
        · next hnonNull =>
          rw [ends_modify, ends_pure]
          refine ⟨hnull (by simpa using hnonNull), ?_⟩
          have hnulls : ∀ entry ∈ new, Data.null.NullsAt (path ++ [key])
              entry.1.asList := by
            intro entry hentry
            obtain ⟨key', -, hprefix⟩ := hrecorded.beneath entry hentry
            exact nullsAt_null ((List.prefix_append _ _).trans hprefix)
          -- the error is dropped where an outer position was nulled before
          rw [CollectedErrors.add]
          split
          · exact ⟨new, hafter, hrecorded.ofKey, hnulls⟩
          · refine ⟨new ++ [(position, _)], ?_,
              hrecorded.concat hposition hlocated houtside', ?_⟩
            · rw [hafter, List.append_assoc]
            · intro entry hentry
              rcases List.mem_append.mp hentry with hentry | hentry
              · exact hnulls entry hentry
              · obtain rfl := List.mem_singleton.mp hentry
                exact nullsAt_null (hposition ▸ List.prefix_rfl)

/-! ## Completing values -/

section Values

variable {details : List FieldDetails} {position : Path} {result : Resolved}

theorem completeLeafValue_completes {name : Text} {type : GraphQLNamedType}
    (htype : executor.schema.getType name = some type) (hleaf : type.isLeafType) :
    executor.Completes path (executor.Fits (.named name) details position result)
      (executor.completeLeafValue name position result) := by
  rw [completeLeafValue]
  refine completes_call ?_ fun error herror => Or.inr (.coerceOutputValue herror)
  intro coerced hcoerced
  cases coerced with
  | none => exact completes_message _
  | some value =>
      by_cases hvalue : value = .none
      · rw [hvalue]
        exact completes_message _
      · have hfits : executor.Fits (.named name) details position result (.leaf value) :=
          .leaf htype hleaf hcoerced hvalue
        cases value <;> first
          | exact absurd rfl hvalue
          | exact completes_pure hfits

/-- The sub-selections of objects are executed well. -/
def ExecutesObjects (executor : Executor) (executeObject : ExecuteObject) : Prop :=
  ∀ name runtimeType details (position : Path) result,
    executor.HasRuntimeType position result name runtimeType →
    executor.Completes position.asList
      (executor.Fits (.named name) details position result)
      (executeObject runtimeType details position result)

variable {executeObject : ExecuteObject}

theorem completeObjectValue_completes {name runtimeType : Text}
    (hobject : executor.ExecutesObjects executeObject)
    (htype : executor.HasRuntimeType position result name runtimeType) :
    executor.Completes position.asList
      (executor.Fits (.named name) details position result)
      (executor.completeObjectValue executeObject runtimeType details position
        result) := by
  rw [completeObjectValue]
  refine completes_call ?_ fun error herror => Or.inr (.isTypeOf herror)
  intro isTypeOf _
  split
  · exact completes_message _
  · exact hobject name runtimeType details position result htype

theorem ensureValidRuntimeType_ok {runtimeTypeName : RuntimeTypeName}
    {name runtimeType : Text} {info : Info}
    (h : executor.ensureValidRuntimeType runtimeTypeName name info result =
      .ok runtimeType) :
    runtimeTypeName = .name runtimeType ∧ ∃ type,
      executor.schema.getType runtimeType = some type ∧ type.isObjectType ∧
      executor.schema.isSubType name runtimeType := by
  unfold ensureValidRuntimeType at h
  split at h
  · cases h
  · cases h
  · split at h
    · cases h
    · next type htype =>
      split at h
      · cases h
      · next hobject =>
        split at h
        · cases h
        · next hsub =>
          cases h
          simp only [Bool.not_eq_true, Bool.not_eq_false'] at hobject hsub
          exact ⟨rfl, type, htype, hobject, hsub⟩

theorem ensureValidRuntimeType_error {runtimeTypeName : RuntimeTypeName} {name : Text}
    {info : Info} {error : ExecutionError}
    (h : executor.ensureValidRuntimeType runtimeTypeName name info result =
      .error error) : error.path = none := by
  unfold ensureValidRuntimeType at h
  repeat' split at h
  all_goals cases h
  all_goals rfl

theorem completeAbstractValue_completes {name : Text} {type : GraphQLNamedType}
    {info : Info} (hobject : executor.ExecutesObjects executeObject)
    (htype : executor.schema.getType name = some type)
    (habstract : type.isAbstractType) :
    executor.Completes position.asList
      (executor.Fits (.named name) details position result)
      (executor.completeAbstractValue executeObject name info details position
        result) := by
  rw [completeAbstractValue]
  refine completes_call ?_ fun error herror => Or.inr (.resolveType herror)
  intro runtimeTypeName hresolve
  refine completes_call ?_ fun error herror =>
    Or.inl (ensureValidRuntimeType_error herror)
  intro runtimeType hvalid
  obtain ⟨rfl, type', htype', hobject', hsub⟩ := ensureValidRuntimeType_ok hvalid
  exact completeObjectValue_completes hobject
    (.abstract htype habstract hresolve htype' hobject' hsub)

theorem completeNamedValue_completes {name : Text} {info : Info}
    (hobject : executor.ExecutesObjects executeObject) :
    executor.Completes position.asList
      (executor.Fits (.named name) details position result)
      (executor.completeNamedValue executeObject name info details position
        result) := by
  rw [completeNamedValue]
  split
  · next type htype =>
    split
    · next hleaf => exact completeLeafValue_completes htype hleaf
    · split
      · next habstract => exact completeAbstractValue_completes hobject htype habstract
      · split
        · next hisObject =>
          exact completeObjectValue_completes hobject (.object htype hisObject)
        · exact completes_message _
  · exact completes_message _

/-- The items are completed in order, from the given index on. -/
structure ItemsFit (executor : Executor) (itemType : GraphQLType)
    (details : List FieldDetails) (position : Path) (items : List Resolved)
    (start : ℕ) (completed : List Data) : Prop where
  length_eq : completed.length = items.length
  fits : ∀ index item data, items[index]? = some item →
    completed[index]? = some data → executor.Fits itemType details
      (position.addKey (.index (start + index)) none) item data

def indicesFrom (start : ℕ) : Set PathKey := {key | ∃ i, start ≤ i ∧ key = .index i}

theorem disjoint_indicesFrom (start : ℕ) :
    Disjoint {PathKey.index start} (indicesFrom (start + 1)) := by
  rw [Set.disjoint_singleton_left]
  rintro ⟨i, hle, heq⟩
  obtain rfl := PathKey.index.inj heq
  omega

theorem indicesFrom_succ (start : ℕ) :
    {PathKey.index start} ∪ indicesFrom (start + 1) ⊆ indicesFrom start := by
  rintro key (rfl | ⟨i, hle, rfl⟩)
  · exact ⟨start, le_rfl, rfl⟩
  · exact ⟨i, by omega, rfl⟩

theorem ItemsFit.cons {itemType : GraphQLType} {item : Resolved}
    {items : List Resolved} {start : ℕ} {data : Data} {completed : List Data}
    (hitem : executor.Fits itemType details (position.addKey (.index start) none)
      item data)
    (h : executor.ItemsFit itemType details position items (start + 1) completed) :
    executor.ItemsFit itemType details position (item :: items) start
      (data :: completed) where
  length_eq := congrArg Nat.succ h.length_eq
  fits index item' data' hitem' hdata' := by
    cases index with
    | zero =>
        obtain rfl := Option.some.inj hitem'
        obtain rfl := Option.some.inj hdata'
        exact hitem
    | succ index =>
        have hfits := h.fits index item' data' hitem' hdata'
        rwa [Nat.add_assoc, Nat.add_comm 1] at hfits

/-- Completing the items adds errors beneath their positions, by induction on the
items; the errors of different items do not concern each other. -/
theorem completeItems_ends (hpropagation : executor.errorPropagation = true)
    {complete : Path → Resolved → Run Data} {itemType : GraphQLType}
    {failure : Option ExecutionError}
    (hcomplete : ∀ itemPosition item, (∀ e, item.Raises e → executor.Raises e) →
      executor.Completes itemPosition.asList
        (executor.Fits itemType details itemPosition item)
        (complete itemPosition item))
    (hfailure : ∀ e, failure = some e → executor.Raises e) :
    ∀ items start before, (∀ item ∈ items, ∀ e, item.Raises e → executor.Raises e) →
      Ends (executor.completeItems complete itemType failure position items start)
        before
        (fun completed after => failure = none ∧
          executor.ItemsFit itemType details position items start completed ∧
          ∃ new, after.entries = before.entries ++ new ∧
            executor.Recorded position.asList (indicesFrom start) new ∧
            ∀ entry ∈ new, ∃ (index : ℕ) (data : Data), completed[index]? = some data ∧
              data.NullsAt (position.asList ++ [.index (start + index)])
                entry.1.asList)
        (executor.Failed position.asList (indicesFrom start) before)
  | [], start, before, _ => by
      cases failure with
      | none =>
          rw [completeItems, ends_pure]
          exact ⟨rfl, ⟨rfl, by simp⟩, [], by simp, recorded_nil, by simp⟩
      | some error =>
          rw [completeItems, raise, ends_throw]
          exact failed_of_raw (by simp) recorded_nil (Or.inr (hfailure error rfl))
  | item :: items, start, before, hraises => by
      have hitem := hcomplete (position.addKey (.index start) none) item
        (hraises item List.mem_cons_self)
      rw [asList_addKey] at hitem
      have hends := orNull_ends hpropagation (asList_addKey position (.index start) none)
        hitem .null before
      rw [completeItems]
      simp only [ends_bind, ends_pure]
      refine hends.mono ?_ ?_
      · rintro data middle ⟨hfits, new, hmiddle, hrecorded, hnulls⟩
        have hrest := completeItems_ends hpropagation hcomplete hfailure items
          (start + 1) middle fun item' hitem' =>
            hraises item' (List.mem_cons_of_mem _ hitem')
        refine hrest.mono ?_ ?_
        · rintro completed after ⟨hnone, hitems, new', hafter, hrecorded', hnulls'⟩
          refine ⟨hnone, hitems.cons hfits, new ++ new', ?_, ?_, ?_⟩
          · rw [hafter, hmiddle, List.append_assoc]
          · exact (hrecorded.append hrecorded' (disjoint_indicesFrom start)).mono
              (indicesFrom_succ start)
          · intro entry hentry
            rcases List.mem_append.mp hentry with hentry | hentry
            · exact ⟨0, data, rfl, hnulls entry hentry⟩
            · obtain ⟨index, data', hdata', hnulls'⟩ := hnulls' entry hentry
              refine ⟨index + 1, data', hdata', ?_⟩
              rwa [Nat.add_assoc, Nat.add_comm 1] at hnulls'
        · intro interruption after hfailed
          exact (hfailed.prepend hmiddle hrecorded (disjoint_indicesFrom start)).mono
            (indicesFrom_succ start)
      · intro interruption after hfailed
        exact hfailed.mono (subset_trans Set.subset_union_left (indicesFrom_succ start))

/-- Positions that are nulled in an item are nulled in the list. -/
theorem nullsAt_list {completed : List Data} {index : ℕ} {data : Data}
    {nulled : List PathKey} (hdata : completed[index]? = some data)
    (h : data.NullsAt (path ++ [.index index]) nulled) :
    (Data.list completed).NullsAt path nulled := by
  obtain ⟨suffix, hprefix, hnull⟩ := h
  refine ⟨.index index :: suffix, by simpa using hprefix, ?_⟩
  rw [Data.atPath, hdata]
  exact hnull

/-- Completing a value fits its type, by induction on the type. -/
theorem completeValue_completes (hpropagation : executor.errorPropagation = true)
    (hobject : executor.ExecutesObjects executeObject) {info : Info} :
    ∀ (type : GraphQLType) (position : Path) (result : Resolved),
      (∀ e, result.Raises e → executor.Raises e) →
      executor.Completes position.asList (executor.Fits type details position result)
        (executor.completeValue executeObject info details type position result) := by
  intro type
  induction type with
  | nonNull ofType ih =>
      intro position result hraises
      unfold completeValue
      split
      · exact completes_raise (Or.inr (hraises _ .exception))
      · intro before
        rw [ends_bind]
        refine (ih position result hraises before).mono ?_
        rintro data after ⟨hfits, new, hafter, hrecorded, hnulls⟩
        cases data with
        | null => exact failed_of_raw hafter hrecorded (Or.inl rfl)
        | leaf | list | object =>
            exact ⟨.nonNull hfits nofun, new, hafter, hrecorded, hnulls⟩
  | list itemType ih =>
      intro position result hraises
      cases result with
      | exception error => exact completes_raise (Or.inr (hraises _ .exception))
      | none | undefined => exact completes_pure (Fits.null rfl)
      | other identity => exact completes_message _
      | iterable items failure =>
          intro before
          simp only [completeValue, ends_bind, ends_pure]
          refine (completeItems_ends hpropagation ih ?_ items 0 before ?_).mono ?_ ?_
          · rintro e rfl
            exact hraises e .failure
          · intro item hitem e he
            exact hraises e (.item hitem he)
          · rintro completed after ⟨rfl, hitems, new, hafter, hrecorded, hnulls⟩
            refine ⟨.list hitems.length_eq ?_, new, hafter,
              hrecorded.mono (Set.subset_univ _), ?_⟩
            · intro index item data hitem hdata
              have hfits := hitems.fits index item data hitem hdata
              rwa [Nat.zero_add] at hfits
            · intro entry hentry
              obtain ⟨index, data, hdata, hnullsAt⟩ := hnulls entry hentry
              rw [Nat.zero_add] at hnullsAt
              exact nullsAt_list hdata hnullsAt
          · intro interruption after hfailed
            exact hfailed.mono (Set.subset_univ _)
  | named name =>
      intro position result hraises
      cases result with
      | exception error => exact completes_raise (Or.inr (hraises _ .exception))
      | none | undefined => exact completes_pure (Fits.null rfl)
      | iterable items failure => exact completeNamedValue_completes hobject
      | other identity => exact completeNamedValue_completes hobject

end Values

/-! ## Executing fields -/

section Fields

variable {executeObject : ExecuteObject} {parentType : Text} {source : Resolved}

theorem executeField_ends (hpropagation : executor.errorPropagation = true)
    (hobject : executor.ExecutesObjects executeObject) {details : List FieldDetails}
    {position : Path} {key : PathKey} (hposition : position.asList = path ++ [key])
    (before : CollectedErrors) :
    Ends (executor.executeField executeObject parentType source details position) before
      (fun result after => match result with
        | none => executor.fieldOf parentType details = none ∧ after = before
        | some data => (executor.fieldOf parentType details).isSome ∧
            executor.FieldFits parentType source details position data ∧
            ∃ new, after.entries = before.entries ++ new ∧
              executor.Recorded path {key} new ∧
              ∀ entry ∈ new, data.NullsAt (path ++ [key]) entry.1.asList)
      (executor.Failed path {key} before) := by
  rw [executeField]
  cases hfield : executor.fieldOf parentType details with
  | none => exact ⟨rfl, rfl⟩
  | some field =>
      obtain ⟨first, fieldDef⟩ := field
      simp only [ends_bind, ends_pure, Option.isSome_some, true_and]
      refine orNull_ends hpropagation hposition ?_ (FieldFits.null hfield) before
      rw [← hposition]
      refine completes_lift ?_ ?_
      · intro args _
        refine completes_call ?_ fun error herror => Or.inr (.resolve herror)
        intro result hresolve
        refine (completeValue_completes hpropagation hobject fieldDef.type position
          result ?_).mono ?_
        · intro e he
          exact .result hresolve he
        · intro data hfits
          exact .value hfield ⟨args, hresolve⟩ hfits
      · intro error raised _ hraised
        obtain rfl := Interruption.raised.inj hraised
        exact Or.inl rfl

def fieldKeys (fields : List (Text × List FieldDetails)) : Set PathKey :=
  {key | ∃ name ∈ fields.map Prod.fst, key = .field name}

variable {position : Path} {fields : List (Text × List FieldDetails)}
  {entries : List (Text × Data)} {name : Text} {details : List FieldDetails}

theorem disjoint_fieldKeys (hname : name ∉ fields.map Prod.fst) :
    Disjoint {PathKey.field name} (fieldKeys fields) := by
  rw [Set.disjoint_singleton_left]
  rintro ⟨name', hname', heq⟩
  obtain rfl := PathKey.field.inj heq
  exact hname hname'

theorem fieldKeys_cons :
    {PathKey.field name} ∪ fieldKeys fields ⊆ fieldKeys ((name, details) :: fields) := by
  rintro key (rfl | ⟨name', hname', rfl⟩)
  · exact ⟨name, List.mem_cons_self, rfl⟩
  · exact ⟨name', List.mem_cons_of_mem _ hname', rfl⟩

theorem EntriesFit.mem_keys (h : executor.EntriesFit parentType source position fields
    entries) {data : Data} (hmem : (name, data) ∈ entries) :
    name ∈ fields.map Prod.fst := by
  have hkey : name ∈ entries.map Prod.fst := List.mem_map_of_mem hmem
  rw [h.keys_eq] at hkey
  obtain ⟨field, hfield, rfl⟩ := List.mem_map.mp hkey
  exact List.mem_map_of_mem (List.mem_filter.mp hfield).1

/-- A field that does not exist on the type has no entry. -/
theorem EntriesFit.skip (hfield : executor.fieldOf parentType details = none)
    (hname : name ∉ fields.map Prod.fst)
    (h : executor.EntriesFit parentType source position fields entries) :
    executor.EntriesFit parentType source position ((name, details) :: fields)
      entries where
  keys_eq := by simpa [hfield] using h.keys_eq
  fits key details' data hmem hdata := by
    rcases List.mem_cons.mp hmem with heq | hmem
    · obtain ⟨rfl, rfl⟩ := Prod.mk.inj heq
      exact absurd (h.mem_keys hdata) hname
    · exact h.fits key details' data hmem hdata

theorem EntriesFit.cons (hfield : (executor.fieldOf parentType details).isSome)
    (hname : name ∉ fields.map Prod.fst) {data : Data}
    (hfits : executor.FieldFits parentType source details
      (position.addKey (.field name) (some parentType)) data)
    (h : executor.EntriesFit parentType source position fields entries) :
    executor.EntriesFit parentType source position ((name, details) :: fields)
      ((name, data) :: entries) where
  keys_eq := by simpa [hfield] using h.keys_eq
  fits key details' data' hmem hdata := by
    rcases List.mem_cons.mp hmem with heq | htail <;>
      rcases List.mem_cons.mp hdata with heq' | htail'
    · obtain ⟨rfl, rfl⟩ := Prod.mk.inj heq
      obtain ⟨-, rfl⟩ := Prod.mk.inj heq'
      exact hfits
    · obtain ⟨rfl, rfl⟩ := Prod.mk.inj heq
      exact absurd (h.mem_keys htail') hname
    · obtain ⟨rfl, rfl⟩ := Prod.mk.inj heq'
      exact absurd (List.mem_map_of_mem htail) hname
    · exact h.fits key details' data' htail htail'

/-- The fields of an object are executed well, by induction on the fields; the errors
of different fields do not concern each other. -/
theorem executeFields_ends (hpropagation : executor.errorPropagation = true)
    (hobject : executor.ExecutesObjects executeObject) :
    ∀ fields before, (fields.map Prod.fst).Nodup →
      Ends (executor.executeFields executeObject parentType source position fields)
        before
        (fun entries after =>
          executor.EntriesFit parentType source position fields entries ∧
          ∃ new, after.entries = before.entries ++ new ∧
            executor.Recorded position.asList (fieldKeys fields) new ∧
            ∀ entry ∈ new, ∃ (name : Text) (data : Data), (name, data) ∈ entries ∧
              data.NullsAt (position.asList ++ [.field name]) entry.1.asList)
        (executor.Failed position.asList (fieldKeys fields) before)
  | [], before, _ => by
      rw [executeFields, ends_pure]
      exact ⟨⟨rfl, by simp⟩, [], by simp, recorded_nil, by simp⟩
  | (name, details) :: fields, before, hnodup => by
      rw [List.map_cons, List.nodup_cons] at hnodup
      obtain ⟨hname, hnodup⟩ := hnodup
      have hdisjoint := disjoint_fieldKeys hname
      have hkeys : {PathKey.field name} ∪ fieldKeys fields ⊆
          fieldKeys ((name, details) :: fields) := fieldKeys_cons
      have hkey := asList_addKey position (.field name) (some parentType)
      rw [executeFields]
      simp only [ends_bind]
      refine (executeField_ends hpropagation hobject hkey before).mono ?_ ?_
      · intro result middle hresult
        have hrest := executeFields_ends hpropagation hobject fields middle hnodup
        cases result with
        | none =>
            obtain ⟨hfield, rfl⟩ := hresult
            refine hrest.mono ?_ ?_
            · rintro entries after ⟨hfits, new, hafter, hrecorded, hnulls⟩
              exact ⟨hfits.skip hfield hname, new, hafter,
                hrecorded.mono (subset_trans Set.subset_union_right hkeys), hnulls⟩
            · intro interruption after hfailed
              exact hfailed.mono (subset_trans Set.subset_union_right hkeys)
        | some data =>
            obtain ⟨hfield, hfits, new, hmiddle, hrecorded, hnulls⟩ := hresult
            refine hrest.mono ?_ ?_
            · rintro entries after ⟨hentries, new', hafter, hrecorded', hnulls'⟩
              refine ⟨hentries.cons hfield hname hfits, new ++ new', ?_, ?_, ?_⟩
              · rw [hafter, hmiddle, List.append_assoc]
              · exact (hrecorded.append hrecorded' hdisjoint).mono hkeys
              · intro entry hentry
                rcases List.mem_append.mp hentry with hentry | hentry
                · exact ⟨name, data, List.mem_cons_self, hnulls entry hentry⟩
                · obtain ⟨name', data', hmem, hnullsAt⟩ := hnulls' entry hentry
                  exact ⟨name', data', List.mem_cons_of_mem _ hmem, hnullsAt⟩
            · intro interruption after hfailed
              exact (hfailed.prepend hmiddle hrecorded hdisjoint).mono hkeys
      · intro interruption after hfailed
        exact hfailed.mono (subset_trans Set.subset_union_left hkeys)

theorem EntriesFit.nodup (h : executor.EntriesFit parentType source position fields
    entries) (hnodup : (fields.map Prod.fst).Nodup) :
    (entries.map Prod.fst).Nodup := by
  rw [h.keys_eq]
  exact hnodup.sublist (List.filter_sublist.map Prod.fst)

/-- Positions that are nulled in an entry are nulled in the object. -/
theorem nullsAt_object {data : Data} {nulled : List PathKey}
    (hnodup : (entries.map Prod.fst).Nodup) (hmem : (name, data) ∈ entries)
    (h : data.NullsAt (path ++ [.field name]) nulled) :
    (Data.object entries).NullsAt path nulled := by
  obtain ⟨suffix, hprefix, hnull⟩ := h
  refine ⟨.field name :: suffix, by simpa using hprefix, ?_⟩
  rw [Data.atPath, (Dict.mem_iff_find hnodup).mp hmem]
  exact hnull

/-- The entries of an object are completed beneath its position. -/
theorem executeFields_completes (hpropagation : executor.errorPropagation = true)
    (hobject : executor.ExecutesObjects executeObject) (c : Collection)
    {fits : Data → Prop}
    (hfits : ∀ entries, executor.EntriesFit parentType source position
      c.groupedFieldSet.items entries → fits (.object entries)) :
    executor.Completes position.asList fits (do
      let results ← executor.executeFields executeObject parentType source position
        c.groupedFieldSet.items
      return .object results) := by
  intro before
  have hnodup := c.groupedFieldSet.nodup_keys
  simp only [ends_bind, ends_pure]
  refine (executeFields_ends hpropagation hobject _ before hnodup).mono ?_ ?_
  · rintro entries after ⟨hentries, new, hafter, hrecorded, hnulls⟩
    refine ⟨hfits entries hentries, new, hafter, hrecorded.mono (Set.subset_univ _), ?_⟩
    intro entry hentry
    obtain ⟨name, data, hmem, hnullsAt⟩ := hnulls entry hentry
    exact nullsAt_object (hentries.nodup hnodup) hmem hnullsAt
  · intro interruption after hfailed
    exact hfailed.mono (Set.subset_univ _)

theorem collected_completes {y : Except CollectFailure Collection}
    {f : Collection → Run Data} {fits : Data → Prop}
    (h : ∀ c, y = .ok c → executor.Completes path fits (f c)) :
    executor.Completes path fits (executor.collected y >>= f) := by
  refine completes_lift h ?_
  intro failure error _ hraised
  cases failure with
  | raised error' =>
      obtain rfl := Interruption.raised.inj hraised
      exact Or.inl rfl
  | tooDeep => cases hraised

/-- Objects are executed well to every depth. -/
theorem collectAndExecuteSubfields_executes
    (hpropagation : executor.errorPropagation = true) (depth : ℕ) :
    executor.ExecutesObjects (executor.collectAndExecuteSubfields depth) := by
  induction depth with
  | zero =>
      intro name runtimeType details position result _ before
      rw [collectAndExecuteSubfields, ends_throw]
      trivial
  | succ depth ih =>
      intro name runtimeType details position result htype
      rw [collectAndExecuteSubfields]
      refine collected_completes fun c hcollected => ?_
      refine executeFields_completes hpropagation ih c fun entries hentries => ?_
      exact .object htype hcollected hentries.keys_eq hentries.fits

end Fields

end Executor

end GraphqlCore.Execution
