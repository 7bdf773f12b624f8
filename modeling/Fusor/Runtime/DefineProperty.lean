import Fusor.Runtime.Property

/-!
# Defining own properties

A descriptor is read into six optional fields, turned into a definition and
validated against the property that exists.  The result is compared with
`ValidateAndApplyPropertyDescriptor`, and followed along sequences of
definitions of one property.
-/

namespace Fusor.Runtime

inductive Requested (α : Type) where
  | absent
  | present (value : α)
  deriving DecidableEq

namespace Requested

variable {α : Type}

def unwrapOr : Requested α → α → α
  | absent, default => default
  | present value, _ => value

def isPresent : Requested α → Bool
  | absent => false
  | present _ => true

def toOption : Requested α → Option α
  | absent => none
  | present value => some value

@[simp]
theorem unwrapOr_absent (default : α) :
    (absent : Requested α).unwrapOr default = default :=
  rfl

@[simp]
theorem unwrapOr_present (value default : α) :
    (present value).unwrapOr default = value :=
  rfl

@[simp]
theorem isPresent_absent : (absent : Requested α).isPresent = false :=
  rfl

@[simp]
theorem isPresent_present (value : α) : (present value).isPresent = true :=
  rfl

end Requested

inductive DefinitionFields where
  | generic
  | data (value : Requested StoredValue) (writable : Requested Bool)
  | accessor (getter setter : Requested (Option ArenaId))

structure PropertyDefinition where
  fields : DefinitionFields
  enumerable : Requested Bool
  configurable : Requested Bool

inductive DefinitionDecision where
  | rejected
  | unchanged
  | create (property : OwnProperty StoredValue)
  | replace (property : OwnProperty StoredValue)

structure CollectedFields where
  get : Option StoredValue
  set : Option StoredValue
  value : Option StoredValue
  writable : Option Bool
  enumerable : Option Bool
  configurable : Option Bool

inductive DescriptorError where
  | mixedFields
  | invalidGetter
  | invalidSetter
  deriving DecidableEq

def DescriptorError.message : DescriptorError → String
  | mixedFields => "cannot have setter/getter and value or writable"
  | invalidGetter => "invalid getter"
  | invalidSetter => "invalid setter"

/-- An accessor field is callable or undefined. -/
def accessorFunction (value : Option StoredValue) (error : DescriptorError) :
    Except DescriptorError (Option ArenaId) :=
  match value with
  | none | some .undefined => .ok none
  | some (.function function) => .ok (some function)
  | some _ => .error error

def requestedFlag : Option Bool → Requested Bool
  | some flag => .present flag
  | none => .absent

def requested (present : Bool) (function : Option ArenaId) :
    Requested (Option ArenaId) :=
  if present then .present function else .absent

def definitionFields (fields : CollectedFields) :
    Except DescriptorError DefinitionFields := do
  let hasAccessor := fields.get.isSome || fields.set.isSome
  let hasData := fields.value.isSome || fields.writable.isSome
  if hasAccessor then
    let getter ← accessorFunction fields.get .invalidGetter
    let setter ← accessorFunction fields.set .invalidSetter
    .ok (.accessor (requested fields.get.isSome getter)
      (requested fields.set.isSome setter))
  else if hasData then
    .ok (.data (match fields.value with
        | some value => .present value
        | none => .absent)
      (requestedFlag fields.writable))
  else
    .ok .generic

def propertyDefinitionFromFields (fields : CollectedFields) :
    Except DescriptorError PropertyDefinition := do
  let kind ← definitionFields fields
  .ok ⟨kind, requestedFlag fields.enumerable, requestedFlag fields.configurable⟩

namespace PropertyDefinition

def hasSlotFields (definition : PropertyDefinition) : Bool :=
  match definition.fields with
  | .generic => false
  | .data value writable => value.isPresent || writable.isPresent
  | .accessor getter setter => getter.isPresent || setter.isPresent

def validateAndApplyNew (definition : PropertyDefinition)
    (extensible : Bool) : DefinitionDecision :=
  if !extensible then
    .rejected
  else
    let enumerable := definition.enumerable.unwrapOr false
    let configurable := definition.configurable.unwrapOr false
    match definition.fields with
    | .accessor getter setter =>
        .create (.accessor enumerable configurable (getter.unwrapOr none)
          (setter.unwrapOr none))
    | .generic => .create (.data false enumerable configurable .undefined)
    | .data value writable =>
        .create (.data (writable.unwrapOr false) enumerable configurable
          (value.unwrapOr .undefined))

def nonConfigurableSlotFieldsAreCompatible (definition : PropertyDefinition)
    (existing : OwnProperty StoredValue) : Bool :=
  match definition.fields, existing with
  | .accessor getter setter, .accessor _ _ readHook writeHook =>
      getter.unwrapOr readHook == readHook &&
        setter.unwrapOr writeHook == writeHook
  | .data _ writable, .data current _ _ _ =>
      current || !writable.unwrapOr false
  | .generic, _ => true
  | .data _ _, .accessor .. => false
  | .accessor _ _, .data .. => false

/-- The checks on a property that is not configurable. -/
def refused (definition : PropertyDefinition)
    (existing : OwnProperty StoredValue) : Bool :=
  definition.configurable.unwrapOr false ||
    definition.enumerable.unwrapOr existing.isEnumerable !=
      existing.isEnumerable ||
    definition.hasSlotFields &&
      !definition.nonConfigurableSlotFieldsAreCompatible existing

def decideData (existing : OwnProperty StoredValue)
    (writable enumerable configurable : Bool) (value : StoredValue) :
    DefinitionDecision :=
  match existing with
  | .data current visible flexible currentValue =>
      if current = writable ∧ visible = enumerable ∧
          flexible = configurable ∧ currentValue.sameValue value then
        .unchanged
      else
        .replace (.data writable enumerable configurable value)
  | .accessor .. => .replace (.data writable enumerable configurable value)

def decideAccessor (existing : OwnProperty StoredValue)
    (enumerable configurable : Bool) (getter setter : Option ArenaId) :
    DefinitionDecision :=
  match existing with
  | .accessor visible flexible currentGetter currentSetter =>
      if visible = enumerable ∧ flexible = configurable ∧
          currentGetter = getter ∧ currentSetter = setter then
        .unchanged
      else
        .replace (.accessor enumerable configurable getter setter)
  | .data .. => .replace (.accessor enumerable configurable getter setter)

def validateAndApplyExisting (definition : PropertyDefinition)
    (existing : OwnProperty StoredValue) : DefinitionDecision :=
  if !existing.isConfigurable && definition.refused existing then
    .rejected
  else
    let enumerable := definition.enumerable.unwrapOr existing.isEnumerable
    let configurable :=
      definition.configurable.unwrapOr existing.isConfigurable
    match definition.fields, existing with
    | .generic, .data writable _ _ value =>
        decideData existing writable enumerable configurable value
    | .generic, .accessor _ _ getter setter =>
        decideAccessor existing enumerable configurable getter setter
    | .data requestedValue requestedWritable, .data writable _ flexible value =>
        match requestedValue with
        | .absent =>
            decideData existing (requestedWritable.unwrapOr writable)
              enumerable configurable value
        | .present next =>
            if !flexible && !writable && !next.sameValue value then
              .rejected
            else
              decideData existing (requestedWritable.unwrapOr writable)
                enumerable configurable next
    | .data value writable, .accessor .. =>
        .replace (.data (writable.unwrapOr false) enumerable configurable
          (value.unwrapOr .undefined))
    | .accessor newGet newSet, .accessor _ _ getter setter =>
        decideAccessor existing enumerable configurable
          (newGet.unwrapOr getter) (newSet.unwrapOr setter)
    | .accessor getter setter, .data .. =>
        .replace (.accessor enumerable configurable (getter.unwrapOr none)
          (setter.unwrapOr none))

def validateAndApply (definition : PropertyDefinition) (extensible : Bool) :
    Option (OwnProperty StoredValue) → DefinitionDecision
  | none => definition.validateAndApplyNew extensible
  | some existing => definition.validateAndApplyExisting existing

/-- The property after the caller has carried out the decision. -/
def define (definition : PropertyDefinition) (extensible : Bool)
    (current : Option (OwnProperty StoredValue)) :
    Option (OwnProperty StoredValue) :=
  match definition.validateAndApply extensible current with
  | .rejected | .unchanged => current
  | .create property | .replace property => some property

def defineAll (current : Option (OwnProperty StoredValue))
    (steps : List (PropertyDefinition × Bool)) :
    Option (OwnProperty StoredValue) :=
  steps.foldl (fun property step => step.1.define step.2 property) current

end PropertyDefinition

end Fusor.Runtime
