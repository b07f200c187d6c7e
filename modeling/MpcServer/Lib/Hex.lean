import MpcServer.Lib.Text

/-!
# Hexadecimal text

Lower case on the way out; on the way in either case, two digits a byte.
-/

namespace Hex

/-- The value of a digit of either case. -/
def nibble (c : Char) : Option Nat :=
  if '0' ≤ c ∧ c ≤ '9' then some (c.toNat - '0'.toNat)
  else if 'a' ≤ c ∧ c ≤ 'f' then some (c.toNat - 'a'.toNat + 10)
  else if 'A' ≤ c ∧ c ≤ 'F' then some (c.toNat - 'A'.toNat + 10)
  else none

/-- The two digits of a byte. -/
def digitsOf (b : UInt8) : List Char :=
  [Nat.digitChar (b.toNat / 16), Nat.digitChar (b.toNat % 16)]

/-- Pairs of digits; an odd one at the end is refused. -/
def bytesOf : List Char → Option (List UInt8)
  | [] => some []
  | [_] => none
  | hi :: lo :: cs =>
      match nibble hi, nibble lo with
      | some h, some l => (bytesOf cs).map (UInt8.ofNat (16 * h + l) :: ·)
      | _, _ => none

/-- The lower-case digits of all bytes. -/
def encode (bs : ByteArray) : String := String.ofList (bs.data.toList.flatMap digitsOf)

/-- Two digits to a byte, in either case. -/
def decode (s : String) : Option ByteArray :=
  (bytesOf s.toList).map fun bs => ⟨bs.toArray⟩

theorem nibble_digitChar : ∀ n < 16, nibble (Nat.digitChar n) = some n := by decide

theorem bytesOf_digitsOf (b : UInt8) (cs : List Char) :
    bytesOf (digitsOf b ++ cs) = (bytesOf cs).map (b :: ·) := by
  have hhi : b.toNat / 16 < 16 := by have := b.toNat_lt; omega
  have hlo : b.toNat % 16 < 16 := Nat.mod_lt _ (by decide)
  have hb : 16 * (b.toNat / 16) + b.toNat % 16 = b.toNat := Nat.div_add_mod _ 16
  show bytesOf (_ :: _ :: cs) = _
  rw [bytesOf, nibble_digitChar _ hhi, nibble_digitChar _ hlo]
  simp only [hb, UInt8.ofNat_toNat]

/-- What was written reads back. -/
theorem decode_encode (bs : ByteArray) : decode (encode bs) = some bs := by
  have hall : ∀ l : List UInt8, bytesOf (l.flatMap digitsOf) = some l := by
    intro l
    induction l with
    | nil => rfl
    | cons b l ih => rw [List.flatMap_cons, bytesOf_digitsOf, ih, Option.map_some]
  simp [decode, encode, hall]

/-- Case does not matter. -/
theorem nibble_toUpper (c : Char) : nibble c.toUpper = nibble c := by
  have hascii : ∀ n < 128, nibble (Char.ofNat n).toUpper = nibble (Char.ofNat n) := by decide
  by_cases hc : c.toNat < 128
  · rw [← Char.ofNat_toNat c]
    exact hascii _ hc
  · have hself : c.toUpper = c := by
      unfold Char.toUpper
      refine dif_neg fun h => hc ?_
      have hz : c.val ≤ 'z'.val := h.2
      have hle : c.toNat ≤ 122 := hz
      omega
    rw [hself]

theorem bytesOf_map_toUpper (cs : List Char) : bytesOf (cs.map Char.toUpper) = bytesOf cs := by
  induction cs using bytesOf.induct with
  | case1 => rfl
  | case2 => rfl
  | case3 hi lo cs h l hh hl ih => simp [bytesOf, nibble_toUpper, ih]
  | case4 hi lo cs hnot => simp [bytesOf, nibble_toUpper]

/-- A text in capitals stands for the same bytes. -/
theorem decode_toUpper (s : String) :
    decode (String.ofList (s.toList.map Char.toUpper)) = decode s := by
  simp [decode, bytesOf_map_toUpper]

theorem utf8Size_digitChar : ∀ n < 16, (Nat.digitChar n).utf8Size = 1 := by decide

/-- Two digits a byte. -/
theorem byteLength_encode (bs : ByteArray) : Rust.byteLength (encode bs) = 2 * bs.size := by
  have hall : ∀ l : List UInt8, ((l.flatMap digitsOf).map Char.utf8Size).sum = 2 * l.length := by
    intro l
    induction l with
    | nil => rfl
    | cons b l ih =>
        have hhi : b.toNat / 16 < 16 := by have := b.toNat_lt; omega
        have hlo : b.toNat % 16 < 16 := Nat.mod_lt _ (by decide)
        simp only [List.flatMap_cons, List.map_append, List.sum_append, ih, digitsOf,
          List.map_cons, List.map_nil, List.sum_cons, List.sum_nil, List.length_cons,
          utf8Size_digitChar _ hhi, utf8Size_digitChar _ hlo]
        omega
  rw [Rust.byteLength, encode, String.toList_ofList, hall, Array.length_toList]
  rfl

end Hex
