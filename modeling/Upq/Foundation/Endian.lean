/-
  Foundation/Endian.lean --- integers in a fixed number of bytes.

  `leBytes n v` is the two's complement of `v` in `n` bytes, least significant byte
  first.  Only the residue of `v` modulo `256 ^ n` counts (`leBytes_congr`), so that a
  conversion between integer types of at least `n` bytes never changes it.

  The bytes are read back as a natural number or as a signed integer; the signed
  reading gives `v` back exactly when `v` is in the signed range (`twosValue_leBytes_iff`).
-/
import Mathlib.Data.Int.ModEq

set_option autoImplicit false

namespace Upq.Foundation.Endian

/-! ## Writing -/

/-- The low `n` bytes of an integer, least significant first. -/
def leBytes : Nat → Int → List UInt8
  | 0, _ => []
  | n + 1, v => UInt8.ofInt v :: leBytes n (v / 256)

/-- The number whose bytes are these, least significant first. -/
def natValue : List UInt8 → Nat
  | [] => 0
  | b :: bs => b.toNat + 256 * natValue bs

/-- The signed integer whose two's complement is these bytes, least significant first. -/
def twosValue (bs : List UInt8) : Int := (natValue bs : Int).bmod (256 ^ bs.length)

/-- The number of `n` bytes whose bytes are those of `v` in reverse order. -/
def byteswap (n : Nat) (v : Int) : Int := natValue (leBytes n v).reverse

@[simp] theorem length_leBytes (n : Nat) (v : Int) : (leBytes n v).length = n := by
  induction n generalizing v with
  | zero => rfl
  | succ n ih => rw [leBytes, List.length_cons, ih]

/-- The byte of weight `256 ^ i`. -/
theorem getElem_leBytes {n i : Nat} (v : Int) (h : i < (leBytes n v).length) :
    (leBytes n v)[i] = UInt8.ofInt (v / 256 ^ i) := by
  induction n generalizing i v with
  | zero => exact absurd h (Nat.not_lt_zero i)
  | succ n ih =>
      cases i with
      | zero => simp [leBytes]
      | succ i =>
          have hdiv : v / 256 / 256 ^ i = v / 256 ^ (i + 1) := by
            rw [pow_succ', Int.ediv_ediv_of_nonneg (by decide)]
          simp only [leBytes, List.getElem_cons_succ]
          rw [ih, hdiv]

theorem toNat_ofInt (v : Int) : ((UInt8.ofInt v).toNat : Int) = v % 256 := by
  have hlt : (v % 2 ^ 8).toNat < 2 ^ 8 := by omega
  rw [UInt8.ofInt, UInt8.toNat_ofNat_of_lt' hlt]
  omega

/-! ## Reading back -/

theorem natValue_leBytes (n : Nat) (v : Int) : (natValue (leBytes n v) : Int) = v % 256 ^ n := by
  induction n generalizing v with
  | zero => simp [leBytes, natValue]
  | succ n ih =>
      have hdiv : v / (256 * 256 ^ n) = v / 256 / 256 ^ n :=
        (Int.ediv_ediv_of_nonneg (by decide)).symm
      rw [leBytes, natValue, Nat.cast_add, Nat.cast_mul, ih, toNat_ofInt, pow_succ', Int.emod_def,
        Int.emod_def (v / 256), Int.emod_def v (256 * 256 ^ n), hdiv, mul_assoc, mul_sub]
      push_cast
      omega

theorem leBytes_natValue (bs : List UInt8) : leBytes bs.length (natValue bs) = bs := by
  induction bs with
  | nil => rfl
  | cons b bs ih =>
      have hb : b.toNat < 256 := b.toNat_lt
      have hlow : UInt8.ofInt (natValue (b :: bs)) = b := by
        apply UInt8.toNat_inj.mp
        have h := toNat_ofInt (natValue (b :: bs))
        rw [natValue] at h ⊢
        omega
      have hhigh : (natValue (b :: bs) : Int) / 256 = natValue bs := by
        rw [natValue]
        omega
      rw [List.length_cons, leBytes, hlow, hhigh, ih]

/-- Integers with the same residue have the same bytes. -/
theorem leBytes_congr {n : Nat} {v w : Int} (h : v % 256 ^ n = w % 256 ^ n) :
    leBytes n v = leBytes n w := by
  have hvalue : natValue (leBytes n v) = natValue (leBytes n w) := by
    apply Int.natCast_inj.mp
    rw [natValue_leBytes, natValue_leBytes, h]
  calc leBytes n v = leBytes n (natValue (leBytes n v)) := by
        simpa using (leBytes_natValue (leBytes n v)).symm
    _ = leBytes n w := by
        rw [hvalue]
        simpa using leBytes_natValue (leBytes n w)

theorem leBytes_byteswap (n : Nat) (v : Int) :
    leBytes n (byteswap n v) = (leBytes n v).reverse := by
  simpa [byteswap] using leBytes_natValue (leBytes n v).reverse

theorem twosValue_leBytes (n : Nat) (v : Int) : twosValue (leBytes n v) = v.bmod (256 ^ n) := by
  rw [twosValue, natValue_leBytes, length_leBytes]
  exact_mod_cast Int.emod_bmod v (256 ^ n)

/-- The signed reading gives an integer back exactly when it is in the signed range. -/
theorem twosValue_leBytes_iff {n : Nat} (hn : 0 < n) (v : Int) :
    twosValue (leBytes n v) = v ↔ -(256 ^ n / 2) ≤ v ∧ v < 256 ^ n / 2 := by
  obtain ⟨k, rfl⟩ := Nat.exists_eq_succ_of_ne_zero hn.ne'
  have heven : ((256 ^ (k + 1) : Nat) : Int) + 1 = 2 * (128 * 256 ^ k) + 1 := by
    push_cast
    rw [pow_succ]
    omega
  rw [twosValue_leBytes, Int.bmod_eq_iff (Nat.pow_pos (by decide)), heven]
  have hhalf : ((256 : Int) ^ (k + 1)) = 2 * (128 * 256 ^ k) := by
    rw [pow_succ]
    omega
  push_cast
  rw [hhalf, sub_self]
  constructor
  · rintro ⟨hlo, hhi, -⟩
    omega
  · rintro ⟨hlo, hhi⟩
    exact ⟨by omega, by omega, dvd_zero _⟩

example : leBytes 2 (-2) = [0xFE, 0xFF] := by decide

end Upq.Foundation.Endian
