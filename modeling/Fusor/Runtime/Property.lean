import Fusor.Runtime.Value

/-!
# Own properties

The layout of a property says whether it is a data or an accessor property
and holds its attributes.  An own property joins a slot with a layout of the
same kind.
-/

namespace Fusor.Runtime

inductive PropertyLayout where
  | data (writable enumerable configurable : Bool)
  | accessor (enumerable configurable : Bool)
  deriving DecidableEq

namespace PropertyLayout

def isAccessor : PropertyLayout → Bool
  | data .. => false
  | accessor .. => true

def writable : PropertyLayout → Option Bool
  | data writable .. => some writable
  | accessor .. => none

def isEnumerable : PropertyLayout → Bool
  | data _ enumerable _ => enumerable
  | accessor enumerable _ => enumerable

def isConfigurable : PropertyLayout → Bool
  | data _ _ configurable => configurable
  | accessor _ configurable => configurable

end PropertyLayout

inductive OwnProperty (V : Type) where
  | data (writable enumerable configurable : Bool) (value : V)
  | accessor (enumerable configurable : Bool)
      (getter setter : Option ArenaId)
  deriving DecidableEq

namespace OwnProperty

variable {V : Type}

def layout : OwnProperty V → PropertyLayout
  | data writable enumerable configurable _ =>
      .data writable enumerable configurable
  | accessor enumerable configurable _ _ => .accessor enumerable configurable

def isConfigurable (property : OwnProperty V) : Bool :=
  property.layout.isConfigurable

def isEnumerable (property : OwnProperty V) : Bool :=
  property.layout.isEnumerable

@[simp]
theorem isConfigurable_data (writable enumerable configurable : Bool)
    (value : V) :
    (data writable enumerable configurable value).isConfigurable =
      configurable :=
  rfl

@[simp]
theorem isConfigurable_accessor (enumerable configurable : Bool)
    (getter setter : Option ArenaId) :
    (accessor enumerable configurable getter setter :
      OwnProperty V).isConfigurable = configurable :=
  rfl

@[simp]
theorem isEnumerable_data (writable enumerable configurable : Bool)
    (value : V) :
    (data writable enumerable configurable value).isEnumerable = enumerable :=
  rfl

@[simp]
theorem isEnumerable_accessor (enumerable configurable : Bool)
    (getter setter : Option ArenaId) :
    (accessor enumerable configurable getter setter :
      OwnProperty V).isEnumerable = enumerable :=
  rfl

end OwnProperty

end Fusor.Runtime
