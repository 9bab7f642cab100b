import UsageBilling.Number.Power

/-!
# Decimal and hexadecimal digits

`decimal n` is `n` in decimal without leading zeros, `value` reads digits back
(`value_decimal`), and `padded w n` fills up with zeros on the left.  `hex w n` are the last `w`
hexadecimal digits of `n`, and `readHex?` reads them back (`readHex?_hex`).
-/

namespace UsageBilling.Text

/-- The ten decimal digits of ASCII; no other script counts. -/
def isDigit (c : Char) : Bool := '0' ≤ c && c ≤ '9'

/-- What a digit stands for; only asked of digits. -/
def digitValue (c : Char) : Nat := c.toNat - 48

/-- The digit of a number below ten. -/
def digitChar (n : Nat) : Char := Char.ofNat (48 + n)

/-- The number a run of digits stands for, the most significant digit first. -/
def value (cs : List Char) : Nat := cs.foldl (fun acc c => 10 * acc + digitValue c) 0

/-- A number in decimal, without leading zeros. -/
def decimal (n : Nat) : List Char :=
  if n < 10 then [digitChar n] else decimal (n / 10) ++ [digitChar (n % 10)]

/-- A number in decimal, filled up with zeros to at least `width` digits. -/
def padded (width n : Nat) : List Char :=
  List.replicate (width - (decimal n).length) '0' ++ decimal n

/-- The longest run of digits at the front, and the rest. -/
def spanDigits (cs : List Char) : List Char × List Char :=
  (cs.takeWhile isDigit, cs.dropWhile isDigit)

/-- What a hexadecimal digit of either case stands for. -/
def hexValue? (c : Char) : Option Nat :=
  if '0' ≤ c && c ≤ '9' then some (c.toNat - 48)
  else if 'a' ≤ c && c ≤ 'f' then some (c.toNat - 87)
  else if 'A' ≤ c && c ≤ 'F' then some (c.toNat - 55)
  else none

/-- The lower-case hexadecimal digit of a number below sixteen. -/
def hexChar (n : Nat) : Char := if n < 10 then Char.ofNat (48 + n) else Char.ofNat (87 + n)

/-- The last `width` hexadecimal digits of a number. -/
def hex : (width n : Nat) → List Char
  | 0, _ => []
  | width + 1, n => hex width (n / 16) ++ [hexChar (n % 16)]

/-- The number a run of hexadecimal digits stands for, if all are such digits. -/
def readHex? (cs : List Char) : Option Nat :=
  cs.foldlM (fun acc c => (hexValue? c).map (16 * acc + ·)) 0

/-- Digits in front of something else are the longest run. -/
theorem spanDigits_append {digits rest : List Char} (hdigits : ∀ c ∈ digits, isDigit c = true)
    (hrest : ∀ c ∈ rest.head?, isDigit c = false) :
    spanDigits (digits ++ rest) = (digits, rest) := by
  have hstop : rest.takeWhile isDigit = [] ∧ rest.dropWhile isDigit = rest := by
    cases rest with
    | nil => exact ⟨rfl, rfl⟩
    | cons c rest => simp [hrest c rfl]
  rw [spanDigits, List.takeWhile_append_of_pos hdigits, List.dropWhile_append_of_pos hdigits,
    hstop.1, hstop.2, List.append_nil]

/-- A text is its longest run of digits and the rest. -/
theorem spanDigits_eq {cs digits rest : List Char} (h : spanDigits cs = (digits, rest)) :
    cs = digits ++ rest ∧ ∀ c ∈ digits, isDigit c = true := by
  obtain ⟨rfl, rfl⟩ := Prod.mk.inj h
  exact ⟨List.takeWhile_append_dropWhile.symm, List.all_eq_true.1 List.all_takeWhile⟩

theorem digitValue_digitChar {n : Nat} (h : n < 10) : digitValue (digitChar n) = n := by
  have : ∀ m : Fin 10, digitValue (digitChar m) = m := by decide
  exact this ⟨n, h⟩

theorem isDigit_digitChar {n : Nat} (h : n < 10) : isDigit (digitChar n) = true := by
  have : ∀ m : Fin 10, isDigit (digitChar m) = true := by decide
  exact this ⟨n, h⟩

theorem value_append (cs ds : List Char) :
    value (cs ++ ds) = ds.foldl (fun acc c => 10 * acc + digitValue c) (value cs) := by
  simp [value, List.foldl_append]

theorem value_append_singleton (cs : List Char) (c : Char) :
    value (cs ++ [c]) = 10 * value cs + digitValue c := by
  simp [value_append]

/-- A number with more digits at its end. -/
def withDigits (n : Nat) (cs : List Char) : Nat :=
  cs.foldl (fun acc c => 10 * acc + digitValue c) n

theorem withDigits_cons (n : Nat) (c : Char) (cs : List Char) :
    withDigits n (c :: cs) = withDigits (10 * n + digitValue c) cs := by
  simp only [withDigits, List.foldl_cons]

theorem le_withDigits (n : Nat) (cs : List Char) : n ≤ withDigits n cs := by
  induction cs generalizing n with
  | nil => exact Nat.le_refl _
  | cons c cs ih =>
    rw [withDigits_cons]
    have hnext := ih (10 * n + digitValue c)
    omega

/-- Reading what was written gives the number back. -/
@[simp] theorem value_decimal (n : Nat) : value (decimal n) = n := by
  fun_induction decimal n with
  | case1 n h => simp [value, digitValue_digitChar h]
  | case2 n h ih =>
    rw [value_append_singleton, ih, digitValue_digitChar (Nat.mod_lt _ (by decide))]
    omega

/-- The codes of the digits. -/
theorem toNat_mem_of_isDigit {c : Char} (h : isDigit c = true) : 48 ≤ c.toNat ∧ c.toNat ≤ 57 := by
  simp only [isDigit, Bool.and_eq_true, decide_eq_true_eq] at h
  exact h

theorem digitValue_lt {c : Char} (h : isDigit c = true) : digitValue c < 10 := by
  have hcode := toNat_mem_of_isDigit h
  rw [digitValue]
  omega

theorem isDigit_of_mem_decimal {n : Nat} {c : Char} (h : c ∈ decimal n) : isDigit c = true := by
  fun_induction decimal n with
  | case1 n hn => simp at h; subst h; exact isDigit_digitChar hn
  | case2 n hn ih =>
    rcases List.mem_append.1 h with h | h
    · exact ih h
    · simp at h; subst h; exact isDigit_digitChar (Nat.mod_lt _ (by decide))

theorem decimal_ne_nil (n : Nat) : decimal n ≠ [] := by
  unfold decimal; split <;> simp

theorem value_replicate_zero_append (k : Nat) (cs : List Char) :
    value (List.replicate k '0' ++ cs) = value cs := by
  induction k with
  | zero => simp
  | succ k ih => simpa [value, List.replicate_succ, digitValue] using ih

@[simp] theorem value_padded (width n : Nat) : value (padded width n) = n := by
  simp [padded, value_replicate_zero_append]

theorem isDigit_of_mem_padded {width n : Nat} {c : Char} (h : c ∈ padded width n) :
    isDigit c = true := by
  rcases List.mem_append.1 h with h | h
  · rw [List.eq_of_mem_replicate h]; decide
  · exact isDigit_of_mem_decimal h

/-- A number below ten to the `width` has so many digits at most. -/
theorem length_decimal_le {width n : Nat} (hwidth : 0 < width) (h : n < tenPow width) :
    (decimal n).length ≤ width := by
  induction width generalizing n with
  | zero => cases hwidth
  | succ width ih =>
    rw [decimal]
    split
    · simp
    · next hn =>
      rw [List.length_append, List.length_singleton]
      rw [tenPow_succ] at h
      refine Nat.succ_le_succ (ih ?_ (by omega))
      cases width with
      | zero =>
        rw [tenPow_zero] at h
        omega
      | succ width => exact Nat.succ_pos _

theorem length_padded {width n : Nat} (hwidth : 0 < width) (h : n < tenPow width) :
    (padded width n).length = width := by
  have hle := length_decimal_le hwidth h
  simp only [padded, List.length_append, List.length_replicate]
  omega

theorem le_length_padded (width n : Nat) : width ≤ (padded width n).length := by
  simp only [padded, List.length_append, List.length_replicate]
  omega

/-! ### Hexadecimal digits -/

theorem hexValue?_hexChar {n : Nat} (h : n < 16) : hexValue? (hexChar n) = some n := by
  have : ∀ m : Fin 16, hexValue? (hexChar m) = some m.val := by decide
  exact this ⟨n, h⟩

@[simp] theorem length_hex (width n : Nat) : (hex width n).length = width := by
  induction width generalizing n with
  | zero => rfl
  | succ width ih => rw [hex, List.length_append, ih, List.length_singleton]

theorem exists_hexChar_of_mem_hex {width n : Nat} {c : Char} (h : c ∈ hex width n) :
    ∃ m < 16, c = hexChar m := by
  induction width generalizing n with
  | zero => cases h
  | succ width ih =>
    rcases List.mem_append.1 h with h | h
    · exact ih h
    · exact ⟨n % 16, Nat.mod_lt _ (by decide), List.mem_singleton.1 h⟩

/-- Reading what was written gives the number back, if it has no more digits. -/
theorem readHex?_hex {width n : Nat} (h : n < twoPow (4 * width)) :
    readHex? (hex width n) = some n := by
  induction width generalizing n with
  | zero =>
    obtain rfl : n = 0 := Nat.lt_one_iff.1 h
    rfl
  | succ width ih =>
    simp only [Nat.mul_succ, Nat.add_succ, Nat.add_zero, twoPow_succ] at h
    have hfront : List.foldlM (fun acc c => (hexValue? c).map (16 * acc + ·)) 0
        (hex width (n / 16)) = some (n / 16) := ih (by omega)
    rw [hex, readHex?, List.foldlM_append, hfront]
    simp [hexValue?_hexChar (Nat.mod_lt n (by decide : 0 < 16)), Nat.div_add_mod]

end UsageBilling.Text
