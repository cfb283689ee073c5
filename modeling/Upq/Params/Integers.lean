/-
  Params/Integers.lean --- integer parameters: width, conversion and byte order.

  Source: `include/upq/PgParams.h`, `to_be16` to `to_be64`, `set_bin_raw`,
  `set_bin_integral`, `encode_one(Integral)` and `encode_one(EnumType)`;
  `include/upq/PgTypes.h`, `enum_to_token_impl`.

  An integral type is a size and a signedness, its values are the integers of its
  range, and `static_cast` goes to the value with the same residue.  The byte order of
  the host is a parameter: what is copied into the slot does not depend on it
  (`memory_toBe`), and the three layers of conversions together give the slot
  `Leaf.slot` has (`encodeIntegral_eq`, `encodeEnum_eq`).

  The server reads int2, int4 and int8 as signed.  An unsigned value beyond the signed
  range of the width it is sent with changes its sign there; every other value is kept
  (`intParams_kept_iff`).
-/
import Upq.Foundation.Endian
import Upq.Params.Slots

set_option autoImplicit false

namespace Upq.Params

open Upq.ArrayText
open Upq.Foundation.Endian

/-! ## Integral types -/

/-- `sizeof`, in bytes -/
def sizeOf : IntSize → Nat
  | .one => 1
  | .two => 2
  | .four => 4
  | .eight => 8

/-- An integral type other than `bool`. -/
structure IntTy where
  size : IntSize
  signed : Bool
  deriving DecidableEq, Repr

/-- The least value. -/
def IntTy.least (t : IntTy) : Int := if t.signed then -(256 ^ sizeOf t.size / 2) else 0

/-- The least integer beyond the values. -/
def IntTy.bound (t : IntTy) : Int :=
  if t.signed then 256 ^ sizeOf t.size / 2 else 256 ^ sizeOf t.size

/-- The values of an integral type. -/
structure IntTy.Val (t : IntTy) where
  val : Int
  least_le : t.least ≤ val
  lt_bound : val < t.bound

theorem pow_sizeOf (size : IntSize) : (256 : Int) ^ sizeOf size = 2 * (256 ^ sizeOf size / 2) := by
  cases size <;> rfl

theorem pow_sizeOf_pos (size : IntSize) : (0 : Int) < 256 ^ sizeOf size := pow_pos (by decide) _

/-- The value with a given residue. -/
def IntTy.residue (t : IntTy) (v : Int) : Int :=
  if t.signed then v.bmod (256 ^ sizeOf t.size) else v % 256 ^ sizeOf t.size

theorem IntTy.residue_mem (t : IntTy) (v : Int) :
    t.least ≤ t.residue v ∧ t.residue v < t.bound := by
  have hpos := pow_sizeOf_pos t.size
  unfold IntTy.least IntTy.residue IntTy.bound
  cases t.signed with
  | false => exact ⟨Int.emod_nonneg v hpos.ne', Int.emod_lt_of_pos v hpos⟩
  | true =>
      have hnat : 0 < 256 ^ sizeOf t.size := Nat.pow_pos (by decide)
      have hlo := Int.le_bmod (x := v) hnat
      have hhi := Int.bmod_lt (x := v) hnat
      have heven := pow_sizeOf t.size
      push_cast at hlo hhi
      exact ⟨hlo, by simp only [if_true]; omega⟩

/-- `static_cast<T>(v)` -/
def IntTy.cast (t : IntTy) (v : Int) : t.Val :=
  ⟨t.residue v, (t.residue_mem v).1, (t.residue_mem v).2⟩

theorem IntTy.cast_emod (t : IntTy) (v : Int) :
    (t.cast v).val % 256 ^ sizeOf t.size = v % 256 ^ sizeOf t.size := by
  change t.residue v % _ = _
  unfold IntTy.residue
  split
  · exact_mod_cast Int.bmod_emod
  · exact Int.emod_emod_of_dvd v dvd_rfl

def IntTy.int16 : IntTy := ⟨.two, true⟩

def IntTy.int32 : IntTy := ⟨.four, true⟩

def IntTy.int64 : IntTy := ⟨.eight, true⟩

def IntTy.uint16 : IntTy := ⟨.two, false⟩

def IntTy.uint32 : IntTy := ⟨.four, false⟩

def IntTy.uint64 : IntTy := ⟨.eight, false⟩

/-! ## Byte order -/

/-- `std::endian::native` -/
inductive Endian where
  | little
  | big
  deriving DecidableEq, Repr

/-- The bytes of an object of `n` bytes, as `std::memcpy` copies them. -/
def memory (native : Endian) (n : Nat) (v : Int) : Bytes :=
  match native with
  | .little => leBytes n v
  | .big => (leBytes n v).reverse

/-- The `to_be` functions, for `n` bytes. -/
def toBe (n : Nat) (native : Endian) (v : Int) : Int :=
  match native with
  | .little => byteswap n v
  | .big => v

/-- `to_be16` -/
def toBe16 : Endian → Int → Int := toBe 2

/-- `to_be32` -/
def toBe32 : Endian → Int → Int := toBe 4

/-- `to_be64` -/
def toBe64 : Endian → Int → Int := toBe 8

/-- In memory the result is in network byte order, whatever the host. -/
theorem memory_toBe (native : Endian) (n : Nat) (v : Int) :
    memory native n (toBe n native v) = (leBytes n v).reverse := by
  cases native with
  | little => exact leBytes_byteswap n v
  | big => rfl

/-! ## Encoding -/

/-- `set_bin_raw` -/
def setBinRaw (data : Bytes) (oid : Nat) (ps : ParamSlices) : ParamSlices :=
  ps.put (binSlot data oid)

/-- `set_bin_integral<IntT>` -/
def setBinIntegral (native : Endian) (t : IntTy) (v : t.Val) (oid : Nat) (ps : ParamSlices) :
    ParamSlices :=
  match t.size with
  | .two => setBinRaw (memory native 2 (toBe16 native (IntTy.uint16.cast v.val).val)) oid ps
  | .four => setBinRaw (memory native 4 (toBe32 native (IntTy.uint32.cast v.val).val)) oid ps
  | _ => setBinRaw (memory native 8 (toBe64 native (IntTy.uint64.cast v.val).val)) oid ps

/-- `encode_one(Integral)` -/
def encodeIntegral (native : Endian) (t : IntTy) (v : t.Val) (ps : ParamSlices) : ParamSlices :=
  match t.size with
  | .one | .two => setBinIntegral native .int16 (IntTy.int16.cast v.val) 21 ps
  | .four => setBinIntegral native .int32 (IntTy.int32.cast v.val) 23 ps
  | .eight => setBinIntegral native .int64 (IntTy.int64.cast v.val) 20 ps

/-- An enumeration: its underlying type and `enum_meta<E>::mapping`, if there is one. -/
structure EnumTy where
  underlying : IntTy
  mapping : Option (List (underlying.Val × Bytes))

/-- `enum_to_token_impl` -/
def EnumTy.toToken (e : EnumTy) (v : e.underlying.Val) : Option Bytes :=
  match e.mapping with
  | some mapping => (mapping.find? fun p => p.1.val == v.val).map Prod.snd
  | none => none

/-- `encode_one(EnumType)` -/
def encodeEnum (native : Endian) (e : EnumTy) (v : e.underlying.Val) (ps : ParamSlices) :
    ParamSlices :=
  match e.toToken v with
  | some tok => ps.put (textSlot tok 0)
  | none =>
      match e.underlying.size with
      | .one | .two => setBinIntegral native .uint16 (IntTy.uint16.cast v.val) 21 ps
      | .four => setBinIntegral native .uint32 (IntTy.uint32.cast v.val) 23 ps
      | .eight => setBinIntegral native .uint64 (IntTy.uint64.cast v.val) 20 ps

/-! ## The slot filled -/

theorem leBytes_cast (t : IntTy) (v : Int) :
    leBytes (sizeOf t.size) (t.cast v).val = leBytes (sizeOf t.size) v :=
  leBytes_congr (t.cast_emod v)

/-- What `set_bin_integral` copies: the bytes of the value before its conversion. -/
theorem memory_toBe_cast (native : Endian) (t : IntTy) (v : Int) :
    memory native (sizeOf t.size) (toBe (sizeOf t.size) native (t.cast v).val) =
      (leBytes (sizeOf t.size) v).reverse := by
  rw [memory_toBe, leBytes_cast]

/-- Two conversions to types of the same size leave the bytes of that size alone. -/
theorem setBinIntegral_cast (native : Endian) (t : IntTy) (ht : t.size ≠ .one) (v : Int)
    (oid : Nat) (ps : ParamSlices) :
    setBinIntegral native t (t.cast v) oid ps =
      ps.put (binSlot (leBytes (sizeOf t.size) v).reverse oid) := by
  have hput : ∀ u : IntTy, u.size = t.size →
      setBinRaw (memory native (sizeOf u.size)
          (toBe (sizeOf u.size) native (u.cast (t.cast v).val).val)) oid ps =
        ps.put (binSlot (leBytes (sizeOf t.size) v).reverse oid) := by
    intro u hu
    rw [memory_toBe_cast, hu, leBytes_cast, setBinRaw]
  obtain ⟨size, signed⟩ := t
  cases size with
  | one => exact absurd rfl ht
  | two => exact hput .uint16 rfl
  | four => exact hput .uint32 rfl
  | eight => exact hput .uint64 rfl

theorem bigEndian_eq (n : Nat) (v : Int) : bigEndian n v = (leBytes n v).reverse := by
  refine List.ext_getElem (by simp [bigEndian]) fun i h₁ h₂ => ?_
  rw [List.getElem_reverse, getElem_leBytes]
  simp [bigEndian]

/-- The slot of an integer, by the size of its type. -/
def intSlot (size : IntSize) (v : Int) : Slot :=
  binSlot (leBytes (intWire size).1 v).reverse (intWire size).2

theorem slot_integral (size : IntSize) (v : Int) : (Leaf.integral size).slot v = intSlot size v :=
  congrArg (binSlot · (intWire size).2) (bigEndian_eq (intWire size).1 v)

theorem slot_enum (size : IntSize) (tok : Option Bytes) (v : Int) :
    (Leaf.enum size).slot (tok, v) = tok.elim (intSlot size v) (textSlot · 0) :=
  congrArg (fun s => tok.elim s (textSlot · 0)) (slot_integral size v)

theorem encodeIntegral_put (native : Endian) (t : IntTy) (v : t.Val) (ps : ParamSlices) :
    encodeIntegral native t v ps = ps.put (intSlot t.size v.val) := by
  rw [encodeIntegral]
  cases t.size with
  | one => exact setBinIntegral_cast native .int16 (by decide) v.val 21 ps
  | two => exact setBinIntegral_cast native .int16 (by decide) v.val 21 ps
  | four => exact setBinIntegral_cast native .int32 (by decide) v.val 23 ps
  | eight => exact setBinIntegral_cast native .int64 (by decide) v.val 20 ps

theorem encodeEnum_put (native : Endian) (e : EnumTy) (v : e.underlying.Val) (ps : ParamSlices) :
    encodeEnum native e v ps =
      ps.put ((e.toToken v).elim (intSlot e.underlying.size v.val) (textSlot · 0)) := by
  rw [encodeEnum]
  cases e.toToken v with
  | some tok => rfl
  | none =>
      cases e.underlying.size with
      | one => exact setBinIntegral_cast native .uint16 (by decide) v.val 21 ps
      | two => exact setBinIntegral_cast native .uint16 (by decide) v.val 21 ps
      | four => exact setBinIntegral_cast native .uint32 (by decide) v.val 23 ps
      | eight => exact setBinIntegral_cast native .uint64 (by decide) v.val 20 ps

/-- The conversions, the byte order and the copying of a value put the slot that the
model of arguments has for it. -/
theorem encodeIntegral_eq (native : Endian) (t : IntTy) (v : t.Val) (ps : ParamSlices) :
    encodeIntegral native t v ps = encodeOne (.leaf (.integral t.size)) v.val ps := by
  rw [encodeIntegral_put, ← slot_integral]
  rfl

/-- The same for an enumeration. -/
theorem encodeEnum_eq (native : Endian) (e : EnumTy) (v : e.underlying.Val) (ps : ParamSlices) :
    encodeEnum native e v ps =
      encodeOne (.leaf (.enum e.underlying.size)) (e.toToken v, v.val) ps := by
  rw [encodeEnum_put, ← slot_enum]
  rfl

/-! ## What the server reads -/

/-- The width of an integer type of the server, by its OID. -/
def oidWidth : Nat → Option Nat
  | 21 => some 2
  | 23 => some 4
  | 20 => some 8
  | _ => none

/-- A binary slot read as a big-endian two's-complement integer of the width its OID
implies. -/
def Slot.readInt (s : Slot) : Option Int :=
  match s.value, oidWidth s.oid with
  | some data, some n =>
      if s.format == 1 && data.length == n then some (twosValue data.reverse) else none
  | _, _ => none

/-- The server's reading of the slot that `encode` fills next. -/
def readBack (encode : ParamSlices → ParamSlices) (ps : ParamSlices) : Option Int :=
  (encode ps).slots[ps.count]?.bind Slot.readInt

/-- The integers of the server's type for an integral type of a given size, from above. -/
def wireBound (size : IntSize) : Int := 256 ^ (intWire size).1 / 2

theorem readInt_intSlot (size : IntSize) (v : Int) :
    (intSlot size v).readInt = some (twosValue (leBytes (intWire size).1 v)) := by
  have hwidth : oidWidth (intWire size).2 = some (intWire size).1 := by cases size <;> rfl
  simp [intSlot, Slot.readInt, binSlot, hwidth]

/-- An encoder that puts one slot has that slot read. -/
theorem readBack_eq {encode : ParamSlices → ParamSlices} {s : Slot} {ps : ParamSlices}
    (h : encode ps = ps.put s) : readBack encode ps = s.readInt := by
  simp [readBack, h, ParamSlices.put, ParamSlices.count]

/-- No value of an integral type is below the range it is sent with. -/
theorem least_wire_le (t : IntTy) (v : t.Val) : -wireBound t.size ≤ v.val := by
  refine le_trans ?_ v.least_le
  obtain ⟨size, signed⟩ := t
  cases size <;> cases signed <;> decide

/-- What the server reads is the value exactly when that is in the range of its type. -/
theorem readInt_eq_iff (t : IntTy) (v : t.Val) :
    (intSlot t.size v.val).readInt = some v.val ↔ v.val < wireBound t.size := by
  have hpos : 0 < (intWire t.size).1 := by cases t.size <;> decide
  rw [readInt_intSlot, Option.some.injEq, twosValue_leBytes_iff hpos]
  exact and_iff_right (least_wire_le t v)

/-- A `uint16_t` of 40000 is sent as int2 and read as -25536; so is the enumerator 40000
of an enumeration over `uint16_t`. -/
theorem intParam_changes_sign :
    readBack (encodeIntegral .little .uint16 ⟨40000, by decide, by decide⟩) ⟨1, []⟩ =
        some (-25536) ∧
      readBack (encodeEnum .little ⟨.uint16, none⟩ ⟨40000, by decide, by decide⟩) ⟨1, []⟩ =
        some (-25536) ∧
      ¬∀ (native : Endian) (t : IntTy) (v : t.Val) (e : EnumTy) (w : e.underlying.Val)
        (ps : ParamSlices), e.mapping = none →
          readBack (encodeIntegral native t v) ps = some v.val ∧
            readBack (encodeEnum native e w) ps = some w.val := by
  have hread : readBack (encodeIntegral .little .uint16 ⟨40000, by decide, by decide⟩) ⟨1, []⟩ =
      some (-25536) := by decide +kernel
  refine ⟨hread, by decide +kernel, fun h => ?_⟩
  obtain ⟨hkept, -⟩ := h .little .uint16 ⟨40000, by decide, by decide⟩ ⟨.uint16, none⟩
    ⟨40000, by decide, by decide⟩ ⟨1, []⟩ rfl
  rw [hread] at hkept
  exact absurd hkept (by decide)

/-- **Integer parameters keep their value exactly below the signed bound of their
width.**  For every integral type and every enumeration without a token for the value:
reading the slot as int2, int4 or int8 gives the value back if and only if it is at
most the greatest int2, int4 or int8.  That is every value of a signed type and of an
unsigned type of 8 bits. -/
theorem intParams_kept_iff (native : Endian) (t : IntTy) (v : t.Val) (e : EnumTy)
    (w : e.underlying.Val) (hno : e.toToken w = none) (ps : ParamSlices) :
    (readBack (encodeIntegral native t v) ps = some v.val ↔ v.val < wireBound t.size) ∧
      (readBack (encodeEnum native e w) ps = some w.val ↔
        w.val < wireBound e.underlying.size) := by
  have henum : encodeEnum native e w ps = ps.put (intSlot e.underlying.size w.val) := by
    rw [encodeEnum_put, hno, Option.elim_none]
  rw [readBack_eq (encodeIntegral_put native t v ps), readBack_eq henum]
  exact ⟨readInt_eq_iff t v, readInt_eq_iff e.underlying w⟩

/-- A negative `int64_t`, and an enumeration over `uint8_t`. -/
theorem intParams_kept_iff_in_range :
    readBack (encodeIntegral .little .int64 ⟨-5, by decide, by decide⟩) ⟨1, []⟩ = some (-5) ∧
      readBack (encodeEnum .big ⟨⟨.one, false⟩, none⟩ ⟨255, by decide, by decide⟩) ⟨1, []⟩ =
        some 255 := by
  obtain ⟨hint, -⟩ := intParams_kept_iff .little .int64 ⟨-5, by decide, by decide⟩
    ⟨⟨.one, false⟩, none⟩ ⟨255, by decide, by decide⟩ rfl ⟨1, []⟩
  obtain ⟨-, henum⟩ := intParams_kept_iff .big .int64 ⟨-5, by decide, by decide⟩
    ⟨⟨.one, false⟩, none⟩ ⟨255, by decide, by decide⟩ rfl ⟨1, []⟩
  exact ⟨hint.mpr (by decide), henum.mpr (by decide)⟩

end Upq.Params
