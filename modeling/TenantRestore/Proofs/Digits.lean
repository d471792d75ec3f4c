/-
# The digits of a number

Numbers are written by their decimal digits and read by collecting digits again, from bytes
in a JSON text and from characters in a point in time.  What both need is said here about the
list of the digits: each is below ten, a number above zero does not start with one that is
zero, and collecting them yields the number: `foldl_digitsOf`.
-/
import Mathlib.Data.Nat.Digits.Lemmas
import TenantRestore.Binary64.Shortest

namespace TenantRestore

/-- The digits of a number, most significant first. -/
def digitsOf (n : Nat) : List Nat := (digitChars n).map fun c => c.toNat - '0'.toNat

/-- A number without its last digit, and that digit. -/
theorem digitChars_of_le {n : Nat} (h : 10 ≤ n) :
    digitChars n = digitChars (n / 10) ++ [Nat.digitChar (n % 10)] :=
  Nat.toDigits_of_base_le (by decide) h

theorem digitsOf_of_lt {n : Nat} (h : n < 10) : digitsOf n = [n] := by
  simp [digitsOf, digitChars, Nat.toDigits_of_lt_base h, Nat.toNat_digitChar_sub_48_of_lt_ten h]

theorem digitsOf_of_le {n : Nat} (h : 10 ≤ n) : digitsOf n = digitsOf (n / 10) ++ [n % 10] := by
  have hlast : n % 10 < 10 := Nat.mod_lt n (by decide)
  simp [digitsOf, digitChars_of_le h, Nat.toNat_digitChar_sub_48_of_lt_ten hlast]

/-- A number is written by its digits. -/
theorem map_digitsOf (n : Nat) : (digitsOf n).map Nat.digitChar = digitChars n := by
  induction n using Nat.strong_induction_on with
  | _ n ih =>
    rcases Nat.lt_or_ge n 10 with h | h
    · simp [digitsOf_of_lt h, digitChars, Nat.toDigits_of_lt_base h]
    · simp [digitsOf_of_le h, digitChars_of_le h, ih (n / 10) (by omega)]

theorem lt_of_mem_digitsOf {n d : Nat} (h : d ∈ digitsOf n) : d < 10 := by
  induction n using Nat.strong_induction_on with
  | _ n ih =>
    rcases Nat.lt_or_ge n 10 with hn | hn
    · rw [digitsOf_of_lt hn, List.mem_singleton] at h
      omega
    · rw [digitsOf_of_le hn, List.mem_append, List.mem_singleton] at h
      rcases h with h | rfl
      · exact ih (n / 10) (by omega) h
      · exact Nat.mod_lt n (by decide)

theorem digitsOf_ne_nil (n : Nat) : digitsOf n ≠ [] := by
  simp [digitsOf, digitChars]

@[simp] theorem length_digitsOf (n : Nat) : (digitsOf n).length = (digitChars n).length :=
  List.length_map ..

/-- Only zero starts with a zero. -/
theorem head?_digitsOf {n : Nat} (h : n ≠ 0) : (digitsOf n).head? ≠ some 0 := by
  induction n using Nat.strong_induction_on with
  | _ n ih =>
    rcases Nat.lt_or_ge n 10 with hn | hn
    · simpa [digitsOf_of_lt hn] using h
    · rw [digitsOf_of_le hn, List.head?_append_of_ne_nil _ (digitsOf_ne_nil _)]
      exact ih (n / 10) (by omega) (by omega)

/-- No digit comes after a zero at the start. -/
theorem digitsOf_ne_zero_cons (n d : Nat) (ds : List Nat) : digitsOf n ≠ 0 :: d :: ds := by
  intro h
  rcases Nat.eq_zero_or_pos n with rfl | hn
  · simp [digitsOf_of_lt] at h
  · exact head?_digitsOf hn.ne' (by simp [h])

/-- Collecting digits never makes a number smaller. -/
theorem le_foldl_digits (ds : List Nat) (n : Nat) : n ≤ ds.foldl (fun m d => m * 10 + d) n := by
  induction ds generalizing n with
  | nil => exact Nat.le_refl n
  | cons d ds ih => exact Nat.le_trans (by omega) (ih (n * 10 + d))

/-- Collecting the digits of a number yields the number. -/
theorem foldl_digitsOf (n : Nat) : (digitsOf n).foldl (fun m d => m * 10 + d) 0 = n := by
  induction n using Nat.strong_induction_on with
  | _ n ih =>
    rcases Nat.lt_or_ge n 10 with h | h
    · simp [digitsOf_of_lt h]
    · rw [digitsOf_of_le h, List.foldl_concat, ih (n / 10) (by omega)]
      omega

end TenantRestore
