import Mathlib.Tactic

/-!
# Little-endian words

Fixed-width little-endian byte strings over natural numbers, and the typed
word codecs derived from them.  Both directions of each round trip are stated
over the natural-number value, so that one pair of lemmas serves every width.
-/

namespace Fusor.Wire

/-- The `width` little-endian bytes of a value, reduced modulo `256 ^ width`. -/
def leBytes : Nat → Nat → List UInt8
  | 0, _ => []
  | width + 1, value => UInt8.ofNat value :: leBytes width (value / 256)

/-- The value of a little-endian byte string. -/
def leValue : List UInt8 → Nat
  | [] => 0
  | byte :: bytes => byte.toNat + 256 * leValue bytes

@[simp] theorem length_leBytes (width value : Nat) :
    (leBytes width value).length = width := by
  induction width generalizing value with
  | zero => rfl
  | succ width induction => simp [leBytes, induction]

theorem leValue_lt (bytes : List UInt8) :
    leValue bytes < 256 ^ bytes.length := by
  induction bytes with
  | nil => simp [leValue]
  | cons byte bytes induction =>
      have bound : byte.toNat < 256 := byte.toNat_lt
      simp only [leValue, List.length_cons, pow_succ]
      omega

theorem leValue_leBytes (width value : Nat) :
    leValue (leBytes width value) = value % 256 ^ width := by
  induction width generalizing value with
  | zero => simp [leBytes, leValue, Nat.mod_one]
  | succ width induction =>
      have split : value % 256 ^ (width + 1) =
          value % 256 + 256 * (value / 256 % 256 ^ width) := by
        rw [Nat.pow_succ', Nat.mod_mul]
      have low : (UInt8.ofNat value).toNat = value % 256 := by
        simp
      simp only [leBytes, leValue, induction, low, split]

theorem leBytes_leValue (bytes : List UInt8) :
    leBytes bytes.length (leValue bytes) = bytes := by
  induction bytes with
  | nil => rfl
  | cons byte bytes induction =>
      have bound : byte.toNat < 256 := byte.toNat_lt
      have low : UInt8.ofNat (byte.toNat + 256 * leValue bytes) = byte := by
        apply UInt8.toNat.inj
        rw [UInt8.toNat_ofNat']
        omega
      have high : (byte.toNat + 256 * leValue bytes) / 256 =
          leValue bytes := by
        omega
      simp only [leValue, List.length_cons, leBytes, low, high, induction]

/-- Little-endian bytes of a 16-bit word. -/
def le16 (value : UInt16) : List UInt8 := leBytes 2 value.toNat

/-- Little-endian bytes of a 32-bit word. -/
def le32 (value : UInt32) : List UInt8 := leBytes 4 value.toNat

def ofLe16 (bytes : List UInt8) : UInt16 := UInt16.ofNat (leValue bytes)

def ofLe32 (bytes : List UInt8) : UInt32 := UInt32.ofNat (leValue bytes)

@[simp] theorem length_le16 (value : UInt16) : (le16 value).length = 2 :=
  length_leBytes 2 _

@[simp] theorem length_le32 (value : UInt32) : (le32 value).length = 4 :=
  length_leBytes 4 _

@[simp] theorem ofLe16_le16 (value : UInt16) : ofLe16 (le16 value) = value := by
  apply UInt16.toNat.inj
  have bound : value.toNat < 2 ^ 16 := value.toNat_lt
  simp only [ofLe16, le16, leValue_leBytes, UInt16.toNat_ofNat']
  omega

@[simp] theorem ofLe32_le32 (value : UInt32) : ofLe32 (le32 value) = value := by
  apply UInt32.toNat.inj
  have bound : value.toNat < 2 ^ 32 := value.toNat_lt
  simp only [ofLe32, le32, leValue_leBytes, UInt32.toNat_ofNat']
  omega

theorem le16_ofLe16 {bytes : List UInt8} (width : bytes.length = 2) :
    le16 (ofLe16 bytes) = bytes := by
  have bound := leValue_lt bytes
  rw [width] at bound
  have value : (ofLe16 bytes).toNat = leValue bytes := by
    rw [ofLe16, UInt16.toNat_ofNat']
    omega
  rw [le16, value, ← width]
  exact leBytes_leValue bytes

theorem le32_ofLe32 {bytes : List UInt8} (width : bytes.length = 4) :
    le32 (ofLe32 bytes) = bytes := by
  have bound := leValue_lt bytes
  rw [width] at bound
  have value : (ofLe32 bytes).toNat = leValue bytes := by
    rw [ofLe32, UInt32.toNat_ofNat']
    omega
  rw [le32, value, ← width]
  exact leBytes_leValue bytes

end Fusor.Wire
