import Fusor.Runtime.DefineProperty
import Fusor.Support.Result

/-!
# Property definitions against the specification

`Descriptor.validateAndApply` states ECMAScript
`ValidateAndApplyPropertyDescriptor` on a record of six optional fields.  The
decisions agree with it for every definition built from collected fields, and
the essential invariants follow along every sequence of definitions.
-/

namespace Fusor.Runtime

open Support

/-- The fields of a property descriptor. -/
structure Descriptor where
  value : Option StoredValue
  writable : Option Bool
  get : Option (Option ArenaId)
  set : Option (Option ArenaId)
  enumerable : Option Bool
  configurable : Option Bool

namespace OwnProperty

def isAccessor {V : Type} : OwnProperty V → Bool
  | data .. => false
  | accessor .. => true

/-- Equal up to `SameValue` of the value. -/
def Same : OwnProperty StoredValue → OwnProperty StoredValue → Prop
  | data writable enumerable configurable value,
    data writable' enumerable' configurable' value' =>
      writable = writable' ∧ enumerable = enumerable' ∧
        configurable = configurable' ∧ value.sameValue value'
  | accessor enumerable configurable getter setter,
    accessor enumerable' configurable' getter' setter' =>
      enumerable = enumerable' ∧ configurable = configurable' ∧
        getter = getter' ∧ setter = setter'
  | _, _ => False

instance decidableSame :
    (left right : OwnProperty StoredValue) → Decidable (left.Same right)
  | data .., data .. => inferInstanceAs (Decidable (_ ∧ _ ∧ _ ∧ _))
  | accessor .., accessor .. => inferInstanceAs (Decidable (_ ∧ _ ∧ _ ∧ _))
  | data .., accessor .. => inferInstanceAs (Decidable False)
  | accessor .., data .. => inferInstanceAs (Decidable False)

/-- What a property that is not configurable keeps. -/
def Keeps : OwnProperty StoredValue → OwnProperty StoredValue → Prop
  | data writable enumerable configurable value,
    data writable' enumerable' configurable' value' =>
      enumerable' = enumerable ∧ configurable' = configurable ∧
        (writable = false → writable' = false ∧ value'.sameValue value)
  | accessor enumerable configurable getter setter,
    accessor enumerable' configurable' getter' setter' =>
      enumerable' = enumerable ∧ configurable' = configurable ∧
        getter' = getter ∧ setter' = setter
  | _, _ => False

end OwnProperty

namespace Descriptor

def isAccessor (descriptor : Descriptor) : Bool :=
  descriptor.get.isSome || descriptor.set.isSome

def isData (descriptor : Descriptor) : Bool :=
  descriptor.value.isSome || descriptor.writable.isSome

/-- The checks of the specification on a property that is not configurable. -/
def Permitted (descriptor : Descriptor) (current : OwnProperty StoredValue) :
    Prop :=
  descriptor.configurable ≠ some true ∧
    (∀ enumerable, descriptor.enumerable = some enumerable →
      enumerable = current.isEnumerable) ∧
    ((descriptor.isAccessor = false ∧ descriptor.isData = false) ∨
      descriptor.isAccessor = current.isAccessor) ∧
    match current with
    | .accessor _ _ getter setter =>
        (∀ function, descriptor.get = some function → function = getter) ∧
          ∀ function, descriptor.set = some function → function = setter
    | .data writable _ _ value =>
        writable = false → descriptor.writable ≠ some true ∧
          ∀ next, descriptor.value = some next → next.sameValue value

/-- The property a permitted descriptor leaves behind. -/
def applied (descriptor : Descriptor) :
    OwnProperty StoredValue → OwnProperty StoredValue
  | .data writable enumerable configurable value =>
      if descriptor.isAccessor then
        .accessor (descriptor.enumerable.getD enumerable)
          (descriptor.configurable.getD configurable)
          (descriptor.get.getD none) (descriptor.set.getD none)
      else
        .data (descriptor.writable.getD writable)
          (descriptor.enumerable.getD enumerable)
          (descriptor.configurable.getD configurable)
          (descriptor.value.getD value)
  | .accessor enumerable configurable getter setter =>
      if descriptor.isData then
        .data (descriptor.writable.getD false)
          (descriptor.enumerable.getD enumerable)
          (descriptor.configurable.getD configurable)
          (descriptor.value.getD .undefined)
      else
        .accessor (descriptor.enumerable.getD enumerable)
          (descriptor.configurable.getD configurable)
          (descriptor.get.getD getter) (descriptor.set.getD setter)

open Classical in
/-- The specification: the property afterwards, or a refusal. -/
noncomputable def validateAndApply (descriptor : Descriptor)
    (extensible : Bool) :
    Option (OwnProperty StoredValue) → Option (OwnProperty StoredValue)
  | none =>
      if extensible = false then none
      else if descriptor.isAccessor then
        some (.accessor (descriptor.enumerable.getD false)
          (descriptor.configurable.getD false) (descriptor.get.getD none)
          (descriptor.set.getD none))
      else
        some (.data (descriptor.writable.getD false)
          (descriptor.enumerable.getD false)
          (descriptor.configurable.getD false)
          (descriptor.value.getD .undefined))
  | some current =>
      if current.isConfigurable = true ∨ descriptor.Permitted current then
        some (descriptor.applied current)
      else none

end Descriptor

namespace PropertyDefinition

def descriptor (definition : PropertyDefinition) : Descriptor where
  value := match definition.fields with
    | .data value _ => value.toOption
    | _ => none
  writable := match definition.fields with
    | .data _ writable => writable.toOption
    | _ => none
  get := match definition.fields with
    | .accessor getter _ => getter.toOption
    | _ => none
  set := match definition.fields with
    | .accessor _ setter => setter.toOption
    | _ => none
  enumerable := definition.enumerable.toOption
  configurable := definition.configurable.toOption

/-- The definition comes from collected fields. -/
def Built (definition : PropertyDefinition) : Prop :=
  ∃ fields, propertyDefinitionFromFields fields = .ok definition

/-- The decision takes the property where the specification takes it, and is
to change nothing exactly when nothing observable changes. -/
def Decides (current specified : Option (OwnProperty StoredValue)) :
    DefinitionDecision → Prop
  | .rejected => specified = none
  | .unchanged => ∃ property result, current = some property ∧
      specified = some result ∧ result.Same property
  | .create property => current = none ∧
      ∃ result, specified = some result ∧ property.Same result
  | .replace property => ∃ before result, current = some before ∧
      specified = some result ∧ property.Same result ∧ ¬ result.Same before

end PropertyDefinition

namespace StoredValue

theorem sameValue_refl (value : StoredValue) : value.sameValue value = true :=
  (sameValue_iff value value).mpr rfl

theorem sameValue_symm {left right : StoredValue}
    (same : left.sameValue right = true) : right.sameValue left = true :=
  (sameValue_iff right left).mpr ((sameValue_iff left right).mp same).symm

theorem sameValue_trans {first second third : StoredValue}
    (same : first.sameValue second = true)
    (next : second.sameValue third = true) : first.sameValue third = true :=
  (sameValue_iff first third).mpr
    (((sameValue_iff first second).mp same).trans
      ((sameValue_iff second third).mp next))

end StoredValue

namespace OwnProperty

theorem Same.refl (property : OwnProperty StoredValue) :
    property.Same property := by
  cases property with
  | data writable enumerable configurable value =>
      exact ⟨rfl, rfl, rfl, value.sameValue_refl⟩
  | accessor enumerable configurable getter setter =>
      exact ⟨rfl, rfl, rfl, rfl⟩

theorem Keeps.refl (property : OwnProperty StoredValue) :
    property.Keeps property := by
  cases property with
  | data writable enumerable configurable value =>
      exact ⟨rfl, rfl, fun frozen => ⟨frozen, value.sameValue_refl⟩⟩
  | accessor enumerable configurable getter setter =>
      exact ⟨rfl, rfl, rfl, rfl⟩

theorem Keeps.trans {first second third : OwnProperty StoredValue}
    (kept : first.Keeps second) (next : second.Keeps third) :
    first.Keeps third := by
  cases first with
  | data writable enumerable configurable value =>
      cases second with
      | accessor => exact kept.elim
      | data writable' enumerable' configurable' value' =>
          cases third with
          | accessor => exact next.elim
          | data writable'' enumerable'' configurable'' value'' =>
              obtain ⟨rfl, rfl, frozen⟩ := kept
              obtain ⟨rfl, rfl, frozen'⟩ := next
              refine ⟨rfl, rfl, fun unwritable => ?_⟩
              obtain ⟨unwritable', same⟩ := frozen unwritable
              obtain ⟨unwritable'', same'⟩ := frozen' unwritable'
              exact ⟨unwritable'', StoredValue.sameValue_trans same' same⟩
  | accessor enumerable configurable getter setter =>
      cases second with
      | data => exact kept.elim
      | accessor enumerable' configurable' getter' setter' =>
          cases third with
          | data => exact next.elim
          | accessor enumerable'' configurable'' getter'' setter'' =>
              obtain ⟨rfl, rfl, rfl, rfl⟩ := kept
              exact next

theorem Keeps.isConfigurable {first second : OwnProperty StoredValue}
    (kept : first.Keeps second) :
    second.isConfigurable = first.isConfigurable := by
  cases first <;> cases second
  · exact kept.2.1
  · exact kept.elim
  · exact kept.elim
  · exact kept.2.1

end OwnProperty

namespace PropertyDefinition

/-- The kind of a built definition agrees with its present fields. -/
theorem Built.fields_present {definition : PropertyDefinition}
    (built : definition.Built) :
    match definition.fields with
    | .generic => True
    | .data value writable => (value.isPresent || writable.isPresent) = true
    | .accessor getter setter =>
        (getter.isPresent || setter.isPresent) = true := by
  obtain ⟨fields, made⟩ := built
  rw [propertyDefinitionFromFields, bind_eq_ok_iff] at made
  obtain ⟨kind, read, same⟩ := made
  cases same
  simp only [definitionFields] at read
  split at read
  · rename_i hasAccessor
    rw [bind_eq_ok_iff] at read
    obtain ⟨getter, _, read⟩ := read
    rw [bind_eq_ok_iff] at read
    obtain ⟨setter, _, read⟩ := read
    cases read
    cases get : fields.get <;> cases set : fields.set <;>
      simp_all [requested, Requested.isPresent]
  · split at read
    · rename_i hasData
      cases read
      cases value : fields.value <;> cases writable : fields.writable <;>
        simp_all [requestedFlag, Requested.isPresent]
    · cases read
      trivial

@[simp]
theorem toOption_getD {α : Type} (request : Requested α) (default : α) :
    request.toOption.getD default = request.unwrapOr default := by
  cases request <;> rfl

@[simp]
theorem toOption_isSome {α : Type} (request : Requested α) :
    request.toOption.isSome = request.isPresent := by
  cases request <;> rfl

@[simp]
theorem toOption_eq_some {α : Type} (request : Requested α) (value : α) :
    request.toOption = some value ↔ request = .present value := by
  cases request <;> simp [Requested.toOption]

/-- Keeps the property when the next one is the same. -/
def settle (existing next : OwnProperty StoredValue) :
    DefinitionDecision :=
  if next.Same existing then .unchanged else .replace next

theorem decideData_eq_settle (existing : OwnProperty StoredValue)
    (writable enumerable configurable : Bool) (value : StoredValue) :
    decideData existing writable enumerable configurable value =
      settle existing (.data writable enumerable configurable value) := by
  cases existing with
  | accessor => simp [decideData, settle, OwnProperty.Same]
  | data current visible flexible currentValue =>
      have turned : currentValue.sameValue value = true ↔
          value.sameValue currentValue = true :=
        ⟨StoredValue.sameValue_symm, StoredValue.sameValue_symm⟩
      simp only [decideData, settle, OwnProperty.Same, turned, eq_comm]

theorem decideAccessor_eq_settle (existing : OwnProperty StoredValue)
    (enumerable configurable : Bool) (getter setter : Option ArenaId) :
    decideAccessor existing enumerable configurable getter setter =
      settle existing (.accessor enumerable configurable getter setter) := by
  cases existing with
  | data => simp [decideAccessor, settle, OwnProperty.Same]
  | accessor visible flexible currentGetter currentSetter =>
      by_cases same : OwnProperty.Same
          (.accessor enumerable configurable getter setter)
          (.accessor visible flexible currentGetter currentSetter)
      · rw [settle, if_pos same]
        obtain ⟨rfl, rfl, rfl, rfl⟩ := same
        simp [decideAccessor]
      · rw [settle, if_neg same, decideAccessor, if_neg]
        rintro ⟨rfl, rfl, rfl, rfl⟩
        exact same (OwnProperty.Same.refl _)

/-- The refusal of a new value of a data property. -/
def valueRefused (definition : PropertyDefinition)
    (existing : OwnProperty StoredValue) : Bool :=
  match definition.fields, existing with
  | .data (.present next) _, .data writable _ _ value =>
      !writable && !next.sameValue value
  | _, _ => false

/-- Either the definition is refused or it leaves the specified property. -/
theorem validateAndApplyExisting_eq {definition : PropertyDefinition}
    (built : definition.Built) (existing : OwnProperty StoredValue) :
    definition.validateAndApplyExisting existing =
      if !existing.isConfigurable &&
          (definition.refused existing || definition.valueRefused existing) then
        .rejected
      else settle existing (definition.descriptor.applied existing) := by
  have present := built.fields_present
  obtain ⟨fields, enumerable, configurable⟩ := definition
  unfold validateAndApplyExisting
  by_cases refused : (!existing.isConfigurable &&
      refused ⟨fields, enumerable, configurable⟩ existing) = true
  · have both := Bool.and_eq_true_iff.mp refused
    simp [both.1, both.2]
  rw [if_neg refused]
  have onlyValue : (!existing.isConfigurable &&
      (PropertyDefinition.refused ⟨fields, enumerable, configurable⟩ existing ||
        valueRefused ⟨fields, enumerable, configurable⟩ existing)) =
      (!existing.isConfigurable &&
        valueRefused ⟨fields, enumerable, configurable⟩ existing) := by
    cases flexible : existing.isConfigurable with
    | true => rfl
    | false => simp_all
  rw [onlyValue]
  cases fields with
  | generic =>
      cases existing with
      | data current visible flexible currentValue =>
          simp [valueRefused, decideData_eq_settle, descriptor,
            Descriptor.applied, Descriptor.isAccessor]
      | accessor visible flexible getter setter =>
          simp [valueRefused, decideAccessor_eq_settle, descriptor,
            Descriptor.applied, Descriptor.isData]
  | data value writable =>
      simp only at present
      cases existing with
      | data current visible flexible currentValue =>
          cases value with
          | absent =>
              simp [valueRefused, decideData_eq_settle, descriptor,
                Descriptor.applied, Descriptor.isAccessor]
          | present next =>
              simp [valueRefused, decideData_eq_settle, descriptor,
                Descriptor.applied, Descriptor.isAccessor, Bool.and_assoc]
      | accessor visible flexible getter setter =>
          simp [valueRefused, descriptor, Descriptor.applied,
            Descriptor.isData, present, settle, OwnProperty.Same]
  | accessor getter setter =>
      simp only at present
      cases existing with
      | data current visible flexible currentValue =>
          simp [valueRefused, descriptor, Descriptor.applied,
            Descriptor.isAccessor, present, settle, OwnProperty.Same]
      | accessor visible flexible currentGetter currentSetter =>
          simp [valueRefused, decideAccessor_eq_settle, descriptor,
            Descriptor.applied, Descriptor.isData]

/-- On a property that is not configurable the refusals are those of the
specification. -/
theorem permitted_iff {definition : PropertyDefinition}
    (built : definition.Built) (existing : OwnProperty StoredValue) :
    definition.descriptor.Permitted existing ↔
      (definition.refused existing || definition.valueRefused existing) =
        false := by
  have present := built.fields_present
  obtain ⟨fields, enumerable, configurable⟩ := definition
  have first : configurable ≠ .present true ↔
      configurable.unwrapOr false = false := by
    cases configurable <;> simp
  have second : ∀ visible : Bool,
      ((enumerable = .present false → visible = false) ∧
        (enumerable = .present true → visible = true)) ↔
        enumerable.unwrapOr visible = visible := by
    intro visible
    cases enumerable with
    | absent => simp
    | present flag => cases flag <;> simp [eq_comm]
  cases fields with
  | generic =>
      cases existing with
      | data current visible flexible currentValue =>
          simp [Descriptor.Permitted, descriptor, Descriptor.isAccessor,
            Descriptor.isData, refused, valueRefused, hasSlotFields, first,
            second]
      | accessor visible flexible getter setter =>
          simp [Descriptor.Permitted, descriptor, Descriptor.isAccessor,
            Descriptor.isData, refused, valueRefused, hasSlotFields, first,
            second]
  | data value writable =>
      simp only at present
      cases existing with
      | accessor visible flexible getter setter =>
          simp [Descriptor.Permitted, descriptor, Descriptor.isAccessor,
            Descriptor.isData, OwnProperty.isAccessor, refused, hasSlotFields,
            nonConfigurableSlotFieldsAreCompatible, present]
      | data current visible flexible currentValue =>
          have third : writable ≠ .present true ↔
              writable.unwrapOr false = false := by
            cases writable <;> simp
          cases value with
          | absent =>
              rw [Requested.isPresent_absent, Bool.false_or] at present
              cases current <;>
                simp [Descriptor.Permitted, descriptor, Descriptor.isAccessor,
                  Descriptor.isData, OwnProperty.isAccessor, refused,
                  valueRefused, hasSlotFields,
                  nonConfigurableSlotFieldsAreCompatible, present, first,
                  second, third, and_assoc]
          | present next =>
              cases current <;>
                simp [Descriptor.Permitted, descriptor, Descriptor.isAccessor,
                  Descriptor.isData, OwnProperty.isAccessor, refused,
                  valueRefused, hasSlotFields,
                  nonConfigurableSlotFieldsAreCompatible, first, second, third,
                  and_assoc]
  | accessor getter setter =>
      simp only at present
      cases existing with
      | data current visible flexible currentValue =>
          simp [Descriptor.Permitted, descriptor, Descriptor.isAccessor,
            Descriptor.isData, OwnProperty.isAccessor, refused, hasSlotFields,
            nonConfigurableSlotFieldsAreCompatible, present]
      | accessor visible flexible readHook writeHook =>
          have kept : ∀ (request : Requested (Option ArenaId)) hook,
              (∀ function, request = .present function → function = hook) ↔
                request.unwrapOr hook = hook := by
            intro request hook
            cases request <;> simp
          simp [Descriptor.Permitted, descriptor, Descriptor.isAccessor,
            Descriptor.isData, OwnProperty.isAccessor, refused, valueRefused,
            hasSlotFields, nonConfigurableSlotFieldsAreCompatible, present,
            first, second, kept, and_assoc]

theorem settle_decides {existing next : OwnProperty StoredValue} :
    Decides (some existing) (some next) (settle existing next) := by
  unfold settle
  split
  · rename_i same
    exact ⟨existing, next, rfl, rfl, same⟩
  · rename_i different
    exact ⟨existing, next, rfl, rfl, OwnProperty.Same.refl next, different⟩

/-- The property that the defaults of the specification describe. -/
def blank : OwnProperty StoredValue :=
  .data false false false .undefined

/-- A new property is a blank one with the fields of the descriptor. -/
theorem validateAndApplyNew_eq {definition : PropertyDefinition}
    (built : definition.Built) (extensible : Bool) :
    definition.validateAndApplyNew extensible =
      if extensible then .create (definition.descriptor.applied blank)
      else .rejected := by
  have present := built.fields_present
  obtain ⟨fields, enumerable, configurable⟩ := definition
  cases extensible with
  | false => rfl
  | true =>
      cases fields with
      | generic =>
          simp [validateAndApplyNew, blank, descriptor, Descriptor.applied,
            Descriptor.isAccessor]
      | data value writable =>
          simp [validateAndApplyNew, blank, descriptor, Descriptor.applied,
            Descriptor.isAccessor]
      | accessor getter setter =>
          simp only at present
          simp [validateAndApplyNew, blank, descriptor, Descriptor.applied,
            Descriptor.isAccessor, present]

theorem validateAndApply_decides {definition : PropertyDefinition}
    (built : definition.Built) (extensible : Bool)
    (current : Option (OwnProperty StoredValue)) :
    Decides current (definition.descriptor.validateAndApply extensible current)
      (definition.validateAndApply extensible current) := by
  cases current with
  | none =>
      rw [validateAndApply, validateAndApplyNew_eq built,
        Descriptor.validateAndApply]
      cases extensible with
      | false => rfl
      | true =>
          refine ⟨rfl, definition.descriptor.applied blank, ?_,
            OwnProperty.Same.refl _⟩
          simp only [Bool.true_eq_false, ↓reduceIte, Descriptor.applied, blank]
          split <;> rfl
  | some existing =>
      rw [validateAndApply, validateAndApplyExisting_eq built,
        Descriptor.validateAndApply, permitted_iff built]
      by_cases rejected : (!existing.isConfigurable &&
          (definition.refused existing ||
            definition.valueRefused existing)) = true
      · have both := Bool.and_eq_true_iff.mp rejected
        rw [if_pos rejected, if_neg]
        · rfl
        · rintro (flexible | unrefused)
          · rw [flexible] at both
            exact absurd both.1 (by simp)
          · rw [unrefused] at both
            exact absurd both.2 (by simp)
      · rw [if_neg rejected, if_pos]
        · exact settle_decides
        · cases flexible : existing.isConfigurable with
          | true => exact .inl rfl
          | false =>
              right
              simpa [flexible] using rejected

theorem descriptor_exclusive (definition : PropertyDefinition)
    (accessor : definition.descriptor.isAccessor = true) :
    definition.descriptor.isData = false := by
  obtain ⟨fields, enumerable, configurable⟩ := definition
  cases fields <;>
    simp_all [descriptor, Descriptor.isAccessor, Descriptor.isData]

theorem keeps_applied {definition : PropertyDefinition}
    {existing : OwnProperty StoredValue}
    (rigid : existing.isConfigurable = false)
    (permitted : definition.descriptor.Permitted existing) :
    existing.Keeps (definition.descriptor.applied existing) := by
  have exclusive := definition.descriptor_exclusive
  generalize definition.descriptor = descriptor at permitted exclusive ⊢
  obtain ⟨unconfigurable, visible, kind, slots⟩ := permitted
  have configured : descriptor.configurable.getD false = false := by
    cases flag : descriptor.configurable with
    | none => rfl
    | some flag' => cases flag' <;> simp_all
  cases existing with
  | data writable enumerable configurable value =>
      rw [OwnProperty.isConfigurable_data] at rigid
      subst rigid
      have shown : descriptor.enumerable.getD enumerable = enumerable := by
        cases flag : descriptor.enumerable with
        | none => rfl
        | some flag' => exact visible flag' flag
      have plain : descriptor.isAccessor = false := by
        rcases kind with generic | same
        · exact generic.1
        · exact same
      simp only [Descriptor.applied, plain, Bool.false_eq_true, ↓reduceIte]
      refine ⟨shown, configured, fun frozen => ?_⟩
      obtain ⟨unwritable, same⟩ := slots frozen
      subst frozen
      constructor
      · cases flag : descriptor.writable with
        | none => rfl
        | some flag' => cases flag' <;> simp_all
      · cases next : descriptor.value with
        | none => exact value.sameValue_refl
        | some next' => exact same next' next
  | accessor enumerable configurable getter setter =>
      rw [OwnProperty.isConfigurable_accessor] at rigid
      subst rigid
      have shown : descriptor.enumerable.getD enumerable = enumerable := by
        cases flag : descriptor.enumerable with
        | none => rfl
        | some flag' => exact visible flag' flag
      have plain : descriptor.isData = false := by
        rcases kind with generic | same
        · exact generic.2
        · exact exclusive same
      simp only [Descriptor.applied, plain, Bool.false_eq_true, ↓reduceIte]
      refine ⟨shown, configured, ?_, ?_⟩
      · cases function : descriptor.get with
        | none => rfl
        | some function' => exact slots.1 function' function
      · cases function : descriptor.set with
        | none => rfl
        | some function' => exact slots.2 function' function

/-- What a definition does to an existing property. -/
theorem define_cases {definition : PropertyDefinition}
    (built : definition.Built) (extensible : Bool)
    (existing : OwnProperty StoredValue) :
    (definition.validateAndApplyExisting existing = .rejected ∧
        definition.define extensible (some existing) = some existing) ∨
      ((existing.isConfigurable = true ∨
          definition.descriptor.Permitted existing) ∧
        (definition.validateAndApplyExisting existing = .unchanged ∧
            definition.define extensible (some existing) = some existing ∨
          definition.define extensible (some existing) =
            some (definition.descriptor.applied existing))) := by
  have decision := validateAndApplyExisting_eq built existing
  rw [permitted_iff built, define, validateAndApply]
  by_cases rejected : (!existing.isConfigurable &&
      (definition.refused existing || definition.valueRefused existing)) = true
  · rw [if_pos rejected] at decision
    rw [decision]
    exact .inl ⟨rfl, rfl⟩
  · rw [if_neg rejected] at decision
    right
    constructor
    · cases flexible : existing.isConfigurable with
      | true => exact .inl rfl
      | false =>
          right
          simpa [flexible] using rejected
    · by_cases same : (definition.descriptor.applied existing).Same existing
      · rw [settle, if_pos same] at decision
        rw [decision]
        exact .inl ⟨rfl, rfl⟩
      · rw [settle, if_neg same] at decision
        rw [decision]
        exact .inr rfl

/-- One definition of a property that is not configurable. -/
theorem define_keeps {definition : PropertyDefinition}
    (built : definition.Built) (extensible : Bool)
    {current : OwnProperty StoredValue}
    (rigid : current.isConfigurable = false) :
    ∃ next, definition.define extensible (some current) = some next ∧
      current.Keeps next := by
  rcases define_cases built extensible current with
    ⟨_, kept⟩ | ⟨admitted, ⟨_, kept⟩ | applied⟩
  · exact ⟨current, kept, OwnProperty.Keeps.refl current⟩
  · exact ⟨current, kept, OwnProperty.Keeps.refl current⟩
  · refine ⟨_, applied, keeps_applied rigid ?_⟩
    rcases admitted with flexible | permitted
    · rw [rigid] at flexible
      cases flexible
    · exact permitted

/-- A whole sequence of definitions. -/
theorem defineAll_keeps {steps : List (PropertyDefinition × Bool)}
    (built : ∀ step ∈ steps, step.1.Built) {current : OwnProperty StoredValue}
    (rigid : current.isConfigurable = false) :
    ∃ final, defineAll (some current) steps = some final ∧
      current.Keeps final := by
  induction steps generalizing current with
  | nil => exact ⟨current, rfl, OwnProperty.Keeps.refl current⟩
  | cons step steps induction =>
      obtain ⟨next, defined, kept⟩ :=
        define_keeps (built step (by simp)) step.2 rigid
      obtain ⟨final, reached, keptLater⟩ := induction
        (fun later member => built later (List.mem_cons_of_mem _ member))
        (kept.isConfigurable.trans rigid)
      refine ⟨final, ?_, kept.trans keptLater⟩
      rw [defineAll, List.foldl_cons, defined]
      exact reached

theorem applied_applied (definition : PropertyDefinition)
    (existing : OwnProperty StoredValue) :
    definition.descriptor.applied (definition.descriptor.applied existing) =
      definition.descriptor.applied existing := by
  have exclusive := definition.descriptor_exclusive
  generalize definition.descriptor = descriptor at exclusive ⊢
  have twice : ∀ {α : Type} (request : Option α) (default : α),
      request.getD (request.getD default) = request.getD default := by
    intro α request default
    cases request <;> rfl
  cases existing with
  | data writable enumerable configurable value =>
      cases accessor : descriptor.isAccessor with
      | true =>
          have plain := exclusive accessor
          simp [Descriptor.applied, accessor, plain, twice]
      | false => simp [Descriptor.applied, accessor, twice]
  | accessor enumerable configurable getter setter =>
      cases data : descriptor.isData with
      | true =>
          have plain : descriptor.isAccessor = false := by
            by_contra accessor
            rw [Bool.not_eq_false] at accessor
            rw [exclusive accessor] at data
            cases data
          simp [Descriptor.applied, data, plain, twice]
      | false => simp [Descriptor.applied, data, twice]

/-- A property that has every field of the descriptor permits it. -/
theorem permitted_of_applied {descriptor : Descriptor}
    {property : OwnProperty StoredValue}
    (same : descriptor.applied property = property)
    (rigid : property.isConfigurable = false) :
    descriptor.Permitted property := by
  have present : ∀ {α : Type} {request : Option α} {value : α},
      request.getD value = value → ∀ other, request = some other →
        other = value := by
    intro α request value kept other equation
    rw [equation] at kept
    exact kept
  cases property with
  | data writable enumerable configurable value =>
      cases accessor : descriptor.isAccessor with
      | true => simp [Descriptor.applied, accessor] at same
      | false =>
          simp only [Descriptor.applied, accessor, Bool.false_eq_true,
            ↓reduceIte, OwnProperty.data.injEq] at same
          obtain ⟨written, shown, configured, valued⟩ := same
          rw [OwnProperty.isConfigurable_data] at rigid
          subst rigid
          refine ⟨?_, present shown, .inr accessor, ?_⟩
          · intro flag
            exact absurd (present configured true flag) (by simp)
          · rintro rfl
            refine ⟨?_, ?_⟩
            · intro flag
              exact absurd (present written true flag) (by simp)
            · intro next equation
              rw [present valued next equation]
              exact value.sameValue_refl
  | accessor enumerable configurable getter setter =>
      cases data : descriptor.isData with
      | true => simp [Descriptor.applied, data] at same
      | false =>
          simp only [Descriptor.applied, data, Bool.false_eq_true, ↓reduceIte,
            OwnProperty.accessor.injEq] at same
          obtain ⟨shown, configured, got, put⟩ := same
          rw [OwnProperty.isConfigurable_accessor] at rigid
          subst rigid
          refine ⟨?_, present shown, ?_, present got, present put⟩
          · intro flag
            exact absurd (present configured true flag) (by simp)
          · cases accessor : descriptor.isAccessor with
            | true => exact .inr rfl
            | false => exact .inl ⟨rfl, data⟩

/-- Defining again what was just defined changes nothing. -/
theorem validateAndApplyExisting_applied {definition : PropertyDefinition}
    (built : definition.Built) (existing : OwnProperty StoredValue) :
    definition.validateAndApplyExisting
      (definition.descriptor.applied existing) = .unchanged := by
  have same := definition.applied_applied existing
  generalize definition.descriptor.applied existing = property at same ⊢
  rw [validateAndApplyExisting_eq built, same, settle,
    if_pos (OwnProperty.Same.refl property), if_neg]
  intro rejected
  have both := Bool.and_eq_true_iff.mp rejected
  have permitted := permitted_of_applied same (by simpa using both.1)
  rw [permitted_iff built] at permitted
  rw [permitted] at both
  exact absurd both.2 (by simp)

theorem define_twice {definition : PropertyDefinition}
    (built : definition.Built) (extensible later : Bool)
    (current : Option (OwnProperty StoredValue))
    (accepted : definition.validateAndApply extensible current ≠ .rejected) :
    definition.validateAndApply later (definition.define extensible current) =
      .unchanged := by
  cases current with
  | none =>
      rw [define]
      rw [validateAndApply, validateAndApplyNew_eq built] at accepted ⊢
      cases extensible with
      | false => exact absurd rfl accepted
      | true => exact validateAndApplyExisting_applied built blank
  | some existing =>
      rw [validateAndApply] at accepted
      rcases define_cases built extensible existing with
        ⟨rejected, _⟩ | ⟨_, ⟨unchanged, kept⟩ | applied⟩
      · exact absurd rejected accepted
      · rw [kept]
        exact unchanged
      · rw [applied]
        exact validateAndApplyExisting_applied built existing

/-- The decisions are those of the specification.  A property that is not
configurable stays and keeps its kind, its attributes and its accessors, may
only lose its writability, and keeps its value once it is not writable.
Repeating an accepted definition changes nothing. -/
theorem define_obeys_invariants :
    (∀ (definition : PropertyDefinition) (extensible : Bool)
        (current : Option (OwnProperty StoredValue)), definition.Built →
      Decides current
        (definition.descriptor.validateAndApply extensible current)
        (definition.validateAndApply extensible current)) ∧
    (∀ (steps : List (PropertyDefinition × Bool))
        (current : OwnProperty StoredValue),
      (∀ step ∈ steps, step.1.Built) → current.isConfigurable = false →
      ∃ final, defineAll (some current) steps = some final ∧
        current.Keeps final) ∧
    ∀ (definition : PropertyDefinition) (extensible later : Bool)
        (current : Option (OwnProperty StoredValue)), definition.Built →
      definition.validateAndApply extensible current ≠ .rejected →
      definition.validateAndApply later
          (definition.define extensible current) = .unchanged ∧
        definition.define later (definition.define extensible current) =
          definition.define extensible current := by
  refine ⟨?_, ?_, ?_⟩
  · intro definition extensible current built
    exact validateAndApply_decides built extensible current
  · intro steps current built rigid
    exact defineAll_keeps built rigid
  · intro definition extensible later current built accepted
    have unchanged := define_twice built extensible later current accepted
    refine ⟨unchanged, ?_⟩
    generalize definition.define extensible current = reached at unchanged ⊢
    rw [define, unchanged]

/-- A frozen property and an attempt to change its value. -/
theorem define_obeys_invariants_frozen :
    ∃ final, defineAll (some (.data false true false .null))
        [(⟨.data (.present .undefined) .absent, .absent, .absent⟩, true)] =
          some final ∧
      OwnProperty.Keeps (.data false true false .null) final :=
  define_obeys_invariants.2.1 _ _
    (by
      intro step member
      rw [List.mem_singleton] at member
      subst member
      exact ⟨⟨none, none, some .undefined, none, none, none⟩, rfl⟩)
    rfl

end PropertyDefinition

end Fusor.Runtime
