/-
  Foundation/Decimal.lean --- integers as decimal text.

  What `std::to_chars` writes for a signed integer in base 10, into a buffer of a
  given size, and what `std::from_chars` reads back: an optional minus sign and the
  longest run of digits, if there is one and its value is in range.  Text is a list
  of bytes, and for `std::to_string` a list of characters.

  `fromChars_print` is the round trip, `length_print_le` the size of the buffer that
  a bounded integer needs, `text_injective` that different integers have different texts.
-/
import Mathlib.Data.List.TakeWhile
import Mathlib.Data.Nat.Digits.Lemmas

set_option autoImplicit false

namespace Upq.Foundation.Decimal

/-! ## Writing -/

/-- The digit of a number below ten. -/
def digit (d : Nat) : UInt8 := UInt8.ofNat (0x30 + d)

def isDigit (b : UInt8) : Bool := decide (0x30 ≤ b.toNat) && decide (b.toNat ≤ 0x39)

def minus : UInt8 := 0x2D

def printNat (n : Nat) : List UInt8 :=
  if n = 0 then [digit 0] else (Nat.digits 10 n).reverse.map digit

/-- The shortest decimal text of an integer. -/
def print (v : Int) : List UInt8 :=
  if v < 0 then minus :: printNat v.natAbs else printNat v.natAbs

/-- The same in characters, as `std::to_string` has it. -/
def text (v : Int) : List Char := (print v).map Char.ofUInt8

/-- `std::to_chars` into a buffer of `size` bytes. -/
def toChars (size : Nat) (v : Int) : Option (List UInt8) :=
  if (print v).length ≤ size then some (print v) else none

/-! ## Reading -/

/-- The value of a run of digits. -/
def value (ds : List UInt8) : Nat := ds.foldl (fun acc b => acc * 10 + (b.toNat - 0x30)) 0

/-- `std::from_chars` for integers from `lo` up to `hi`: the integer and the rest of
the text. -/
def fromChars (lo hi : Int) (text : List UInt8) : Option (Int × List UInt8) :=
  let neg := decide (text.head? = some minus)
  let body := if neg then text.tail else text
  let ds := body.takeWhile isDigit
  let v : Int := if neg then -(value ds : Int) else value ds
  if ds ≠ [] ∧ lo ≤ v ∧ v ≤ hi then some (v, body.dropWhile isDigit) else none

/-! ## The round trip -/

theorem toNat_digit {d : Nat} (h : d < 10) : (digit d).toNat = 0x30 + d := by
  have hlt : 0x30 + d < 2 ^ 8 := by omega
  rw [digit, UInt8.toNat_ofNat_of_lt' hlt]

theorem isDigit_digit {d : Nat} (h : d < 10) : isDigit (digit d) = true := by
  simp only [isDigit, toNat_digit h, Bool.and_eq_true, decide_eq_true_eq]
  omega

theorem isDigit_of_mem_printNat {n : Nat} {b : UInt8} (h : b ∈ printNat n) : isDigit b = true := by
  unfold printNat at h
  split at h
  · rw [List.mem_singleton.mp h]
    exact isDigit_digit (by decide)
  · obtain ⟨d, hd, rfl⟩ := List.mem_map.mp h
    exact isDigit_digit (Nat.digits_lt_base (by decide) (List.mem_reverse.mp hd))

theorem printNat_ne_nil (n : Nat) : printNat n ≠ [] := by
  unfold printNat
  split
  · exact List.cons_ne_nil _ _
  · rename_i hn
    simpa using Nat.digits_ne_nil_iff_ne_zero.mpr hn

/-- The digits of a number, most significant first, have its value. -/
theorem value_map_digit {ds : List Nat} (h : ∀ d ∈ ds, d < 10) :
    value (ds.reverse.map digit) = Nat.ofDigits 10 ds := by
  have hstep : ∀ (l : List Nat), (∀ d ∈ l, d < 10) →
      l.foldr (fun d acc => acc * 10 + ((digit d).toNat - 0x30)) 0 = Nat.ofDigits 10 l := by
    intro l hl
    induction l with
    | nil => rfl
    | cons d l ih =>
        rw [List.foldr_cons, ih fun x hx => hl x (List.mem_cons_of_mem _ hx),
          toNat_digit (hl d List.mem_cons_self), Nat.ofDigits_cons]
        omega
  rw [value, List.foldl_map, List.foldl_reverse]
  exact hstep ds h

theorem value_printNat (n : Nat) : value (printNat n) = n := by
  unfold printNat
  split
  · rename_i hn
    rw [hn]
    rfl
  · rw [value_map_digit fun d hd => Nat.digits_lt_base (by decide) hd]
    exact Nat.ofDigits_digits 10 n

theorem minus_not_digit : isDigit minus = false := by decide

/-- A printed natural number does not start with a minus sign. -/
theorem head?_printNat_ne (n : Nat) : (printNat n).head? ≠ some minus := by
  intro h
  have hdigit := isDigit_of_mem_printNat (List.mem_of_head? h)
  rw [minus_not_digit] at hdigit
  cases hdigit

theorem takeWhile_printNat (n : Nat) : (printNat n).takeWhile isDigit = printNat n :=
  List.takeWhile_eq_self_iff.mpr fun _ => isDigit_of_mem_printNat

theorem dropWhile_printNat (n : Nat) : (printNat n).dropWhile isDigit = [] :=
  List.dropWhile_eq_nil_iff.mpr fun _ => isDigit_of_mem_printNat

/-- **Round trip.**  Reading what was written gives the integer back, to the end of
the text. -/
theorem fromChars_print {lo hi v : Int} (hlo : lo ≤ v) (hhi : v ≤ hi) :
    fromChars lo hi (print v) = some (v, []) := by
  unfold print fromChars
  split
  · rename_i hneg
    have hv : -(v.natAbs : Int) = v := by omega
    simp only [List.head?_cons, decide_true, if_true, List.tail_cons, takeWhile_printNat,
      dropWhile_printNat, value_printNat, hv]
    rw [if_pos ⟨printNat_ne_nil _, hlo, hhi⟩]
  · rename_i hpos
    have hv : (v.natAbs : Int) = v := by omega
    simp only [head?_printNat_ne, decide_false, Bool.false_eq_true, if_false, takeWhile_printNat,
      dropWhile_printNat, value_printNat, hv]
    rw [if_pos ⟨printNat_ne_nil _, hlo, hhi⟩]

example : print (-120) = [0x2D, 0x31, 0x32, 0x30] := by decide

/-- A number below `10 ^ k` takes at most `k` digits. -/
theorem length_printNat_le {n k : Nat} (hk : 0 < k) (h : n < 10 ^ k) :
    (printNat n).length ≤ k := by
  unfold printNat
  split
  · exact hk
  · rw [List.length_map, List.length_reverse]
    exact (Nat.digits_length_le_iff (by decide) n).mpr h

theorem length_print_le {v : Int} {k : Nat} (hk : 0 < k) (h : v.natAbs < 10 ^ k) :
    (print v).length ≤ k + 1 := by
  have hlen := length_printNat_le hk h
  unfold print
  split
  · rw [List.length_cons]
    omega
  · omega

/-- Every byte of a printed integer is a digit or the minus sign. -/
theorem mem_print {v : Int} {b : UInt8} (h : b ∈ print v) : isDigit b = true ∨ b = minus := by
  unfold print at h
  split at h
  · rcases List.mem_cons.mp h with rfl | hmem
    · exact Or.inr rfl
    · exact Or.inl (isDigit_of_mem_printNat hmem)
  · exact Or.inl (isDigit_of_mem_printNat h)

theorem mem_text {v : Int} {c : Char} (h : c ∈ text v) : c.isDigit = true ∨ c = '-' := by
  obtain ⟨b, hb, rfl⟩ := List.mem_map.mp h
  rcases mem_print hb with hdigit | rfl
  · left
    have hval : (Char.ofUInt8 b).val = b.toUInt32 := rfl
    simp only [isDigit, Bool.and_eq_true, decide_eq_true_eq] at hdigit
    simp only [Char.isDigit, hval, Bool.and_eq_true, decide_eq_true_eq, ge_iff_le,
      UInt32.le_iff_toNat_le, UInt8.toNat_toUInt32]
    exact hdigit
  · exact .inr rfl

theorem isDigit_of_mem_text {n : Nat} {c : Char} (h : c ∈ text n) : c.isDigit = true := by
  rcases mem_text h with hdigit | rfl
  · exact hdigit
  · obtain ⟨b, hb, hminus⟩ := List.mem_map.mp h
    have hdigit : isDigit b = true := by
      rw [print, if_neg (by omega)] at hb
      exact isDigit_of_mem_printNat hb
    have hval : b = minus := UInt8.toUInt32_inj.mp (congrArg Char.val hminus)
    rw [hval, minus_not_digit] at hdigit
    cases hdigit

/-- A natural number below `10 ^ k` takes at most `k` characters. -/
theorem length_text_le {n k : Nat} (hk : 0 < k) (h : n < 10 ^ k) : (text n).length ≤ k := by
  rw [text, List.length_map, print, if_neg (by omega), Int.natAbs_natCast]
  exact length_printNat_le hk h

theorem print_ne_nil (v : Int) : print v ≠ [] := by
  unfold print
  split
  · exact List.cons_ne_nil _ _
  · exact printNat_ne_nil _

theorem text_ne_nil (v : Int) : text v ≠ [] := by
  rw [text, ne_eq, List.map_eq_nil_iff]
  exact print_ne_nil v

theorem text_injective : Function.Injective text := by
  have hchar : Function.Injective Char.ofUInt8 := by
    intro a b h
    have hval : a.toUInt32 = b.toUInt32 := congrArg Char.val h
    exact UInt8.toUInt32_inj.mp hval
  intro v w h
  have hprint : print v = print w := List.map_injective_iff.mpr hchar h
  have hv := @fromChars_print (min v w) (max v w) v (min_le_left v w) (le_max_left v w)
  rw [hprint, fromChars_print (min_le_right v w) (le_max_right v w)] at hv
  exact (Prod.mk.inj (Option.some.inj hv)).1.symm

end Upq.Foundation.Decimal
