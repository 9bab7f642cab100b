import UsageBilling.Proofs.Number.WholeFloat
import UsageBilling.Proofs.Settings.Written

/-!
# Settings that are whole numbers

An integer can be written for a setting as the text of a variable or as a literal of the file, with
as many digits as one likes, but a setting has 64 bits or 32.  What does not fit need not fail.

* `NumberSetting` : the settings that are whole numbers, each with its bits.
* `Text.WritesInteger`, `JsonNumber.WritesInteger` : the integer that is written.
* `IntegerForm.Takes`, `IntegerForm.read` : which integers are taken, and as which number.
* `Settings.loaded_of_written` : **the number that is loaded for an integer that is written**.
* `Settings.load_beyond_bits` : it can be another.
-/

namespace UsageBilling

open Settings SettingValue

/-- The settings that are whole numbers. -/
inductive NumberSetting where
  | maxConnections
  | acquireTimeoutSecs
  | queryTimeoutSecs
  deriving DecidableEq

namespace NumberSetting

def setting : NumberSetting → Setting
  | .maxConnections => .maxConnections
  | .acquireTimeoutSecs => .acquireTimeoutSecs
  | .queryTimeoutSecs => .queryTimeoutSecs

/-- How many bits there are for the number. -/
def bits : NumberSetting → Nat
  | .maxConnections => 32
  | .acquireTimeoutSecs | .queryTimeoutSecs => 64

/-- The number among the settings, if there is one. -/
def loaded? : NumberSetting → Settings → Option Nat
  | .maxConnections, cfg => some cfg.database.maxConnections
  | .acquireTimeoutSecs, cfg => some cfg.database.acquireTimeoutSecs
  | .queryTimeoutSecs, cfg => cfg.prometheus.queryTimeoutSecs

/-- A value that is there becomes a number of 64 bits first, and is cut to those of the setting. -/
theorem exists_toUnsigned? {n : NumberSetting} {v : SettingValue} {cfg : Settings}
    (h : n.setting.read? v = some (n.setting.get cfg)) (hv : v ≠ .nil) : ∃ m, v.toUnsigned? = some m ∧
      (m < 2 ^ 64 → n.loaded? cfg = some (m % 2 ^ n.bits)) := by
  cases n with
  | maxConnections =>
    obtain ⟨m, hm, hcut⟩ := Option.map_eq_some_iff.1 h
    exact ⟨m, hm, fun _ => congrArg some hcut.symm⟩
  | acquireTimeoutSecs => exact ⟨_, h, fun hlt => congrArg some (Nat.mod_eq_of_lt hlt).symm⟩
  | queryTimeoutSecs =>
    have hread : v.toUnsigned?.map some = some cfg.prometheus.queryTimeoutSecs := by
      cases v with
      | nil => exact absurd rfl hv
      | _ => exact h
    obtain ⟨m, hm, hsome⟩ := Option.map_eq_some_iff.1 hread
    refine ⟨m, hm, fun hlt => ?_⟩
    rw [loaded?, ← hsome, bits, Nat.mod_eq_of_lt hlt]

end NumberSetting

/-! ### Integers in writing -/

/-- Digits write an integer, behind a sign or without one. -/
inductive Text.WritesInteger : List Char → Int → Prop
  | plain {digits : List Char} : digits ≠ [] → (∀ c ∈ digits, isDigit c = true) →
      WritesInteger digits (value digits)
  | plus {digits : List Char} : digits ≠ [] → (∀ c ∈ digits, isDigit c = true) →
      WritesInteger ('+' :: digits) (value digits)
  | minus {digits : List Char} : digits ≠ [] → (∀ c ∈ digits, isDigit c = true) →
      WritesInteger ('-' :: digits) (-(value digits : Int))

theorem Text.WritesInteger.exists_digit {cs : List Char} {z : Int} (h : WritesInteger cs z) :
    ∃ c ∈ cs, isDigit c = true := by
  cases h with
  | plain hne hdigits =>
    obtain ⟨c, hmem⟩ := List.exists_mem_of_ne_nil _ hne
    exact ⟨c, hmem, hdigits c hmem⟩
  | plus hne hdigits | minus hne hdigits =>
    obtain ⟨c, hmem⟩ := List.exists_mem_of_ne_nil _ hne
    exact ⟨c, List.mem_cons_of_mem _ hmem, hdigits c hmem⟩

/-- A literal without point and exponent. -/
structure JsonNumber.WritesInteger (n : JsonNumber) (z : Int) : Prop where
  fraction : n.fraction = []
  exponent : n.exponent = none
  value : z = if n.negative then -(n.whole : Int) else n.whole

/-- Where an integer is written: in a text of the environment, or in the file. -/
inductive IntegerForm where
  | text
  | literal

namespace IntegerForm

/-- The integers that are not refused. -/
def Takes : IntegerForm → Int → Prop
  | .text, z => 0 ≤ z ∧ z < 2 ^ 64
  | .literal, z => z < -2 ^ 63 ∨ 0 ≤ z

/-- The number of 64 bits that an integer is taken for.  A literal that does not fit them with a
sign becomes a floating-point number: zero if it is negative, else rounded to 53 bits, and the
largest number if it has more than 64. -/
def read : IntegerForm → Int → Nat
  | .text, z => z.toNat
  | .literal, z =>
    if z < 2 ^ 63 then z.toNat else min maxUnsigned (roundHalfEven z.toNat 2048 * 2048)

/-- The integers that are taken for themselves, as far as 64 bits go. -/
def Keeps : IntegerForm → Int → Prop
  | .text, _ => True
  | .literal, z => z < 2 ^ 63 ∨ 2048 ∣ z ∨ z = 2 ^ 64 - 1

variable {form : IntegerForm} {z : Int}

theorem read_lt (h : form.Takes z) : form.read z < 2 ^ 64 := by
  have hmax : maxUnsigned = 2 ^ 64 - 1 := rfl
  cases form with
  | text =>
    obtain ⟨hpos, hlt⟩ := h
    rw [read]
    omega
  | literal =>
    rw [read]
    split <;> omega

/-- The integers that a number of some bits is, when it is read of them and cut. -/
theorem read_mod_eq_iff (h : form.Takes z) (n : NumberSetting) :
    ((form.read z % 2 ^ n.bits : Nat) : Int) = z ↔ 0 ≤ z ∧ z < 2 ^ n.bits ∧ form.Keeps z := by
  have hbits : n.bits = 32 ∨ n.bits = 64 := by cases n <;> simp [NumberSetting.bits]
  cases form with
  | text =>
    obtain ⟨hpos, hlt⟩ := h
    simp only [read, Keeps, and_true]
    rcases hbits with hbits | hbits <;> rw [hbits] <;> omega
  | literal =>
    have hmax : maxUnsigned = 2 ^ 64 - 1 := rfl
    simp only [read, Keeps]
    split
    · rcases hbits with hbits | hbits <;> rw [hbits] <;> omega
    · have hnear := @roundHalfEven_near z.toNat 2048 (by decide)
      generalize roundHalfEven z.toNat 2048 = rounded at hnear ⊢
      rw [hmax]
      rcases hbits with hbits | hbits <;> rw [hbits] <;> omega

end IntegerForm

/-! ### Texts -/

theorem ofWord?_of_digit {s : String} {c : Char} (hmem : c ∈ s.toList)
    (hc : Text.isDigit c = true) : ofWord? s = none := by
  have hlower : c.toLower = c := by
    rw [Char.toLower, dif_neg]
    exact fun h => absurd (Nat.le_trans h.1 (Text.toNat_mem_of_isDigit hc).2) (by decide)
  have hword : ∀ word ∈ ["true", "on", "yes", "false", "off", "no"],
      String.ofList (s.toList.map Char.toLower) ≠ word := by
    rintro word hword rfl
    have hletters : ∀ word ∈ ["true", "on", "yes", "false", "off", "no"], ∀ c ∈ word.toList,
      Text.isDigit c = false := by simp [Text.isDigit]
    have hnot := hletters _ hword c.toLower
      (by rw [String.toList_ofList]; exact List.mem_map_of_mem hmem)
    rw [hlower, hc] at hnot
    cases hnot
  simp only [List.forall_mem_cons] at hword
  simp [ofWord?, hword]

/-- What is left of a text without a plus sign in front. -/
def withoutPlus : List Char → List Char
  | '+' :: rest => rest
  | cs => cs

theorem withoutPlus_of_digits {digits : List Char} (h : ∀ c ∈ digits, Text.isDigit c = true) :
    withoutPlus digits = digits := by
  unfold withoutPlus
  split
  · exact absurd (h '+' List.mem_cons_self) (by decide)
  · rfl

theorem unsignedOfText?_eq_some {s : String} {m : Nat} (h : unsignedOfText? s = some m) :
    (∀ c ∈ withoutPlus s.toList, Text.isDigit c = true) ∧ m < 2 ^ 64 ∧
      m = Text.value (withoutPlus s.toList) := by
  have hmax : maxUnsigned = 2 ^ 64 - 1 := rfl
  have hread : (if withoutPlus s.toList ≠ [] && (withoutPlus s.toList).all Text.isDigit &&
      Text.value (withoutPlus s.toList) ≤ maxUnsigned then
      some (Text.value (withoutPlus s.toList)) else none) = some m := h
  simp only [Option.ite_none_right_eq_some, Bool.and_eq_true, decide_eq_true_eq, List.all_eq_true,
    Option.some.injEq] at hread
  obtain ⟨⟨⟨-, hdigits⟩, hle⟩, rfl⟩ := hread
  exact ⟨hdigits, by omega, rfl⟩

/-- **A text that writes an integer is read as that**, or not at all. -/
theorem toUnsigned?_text {text : String} {z : Int} {m : Nat}
    (h : Text.WritesInteger text.toList z) (hm : (SettingValue.text text).toUnsigned? = some m) :
    IntegerForm.text.Takes z ∧ m = IntegerForm.text.read z := by
  have hread : unsignedOfText? text = some m := by
    obtain ⟨c, hmem, hc⟩ := h.exists_digit
    rwa [toUnsigned?, ofWord?_of_digit hmem hc] at hm
  obtain ⟨hall, hlt, rfl⟩ := unsignedOfText?_eq_some hread
  generalize text.toList = cs at h hall hlt
  cases h with
  | plain hne hdigits =>
    rw [withoutPlus_of_digits hdigits] at hlt ⊢
    exact ⟨⟨by omega, by omega⟩, rfl⟩
  | plus hne hdigits => exact ⟨⟨by omega, Int.ofNat_lt.2 hlt⟩, rfl⟩
  | minus hne hdigits => exact absurd (hall '-' List.mem_cons_self) (by decide)

/-! ### Literals -/

/-- A literal stays an integer if it fits 64 bits with a sign, and is a floating-point number
otherwise; so is the literal `-0`. -/
theorem ofNumber?_eq_some {n : JsonNumber} {z : Int} {v : SettingValue} (h : n.WritesInteger z)
    (hv : ofNumber? n = some v) : (z < 2 ^ 63 ∧ v = .int z) ∨
      ∃ x, v = .float x ∧ JsonNumber.toFloat? ⟨n.negative, n.whole, [], none⟩ = some x ∧
        (2 ^ 63 ≤ n.whole ∧ -z ≠ 2 ^ 63 ∨ n.negative = true ∧ n.whole = 0) := by
  obtain ⟨negative, whole, fraction, exponent⟩ := n
  obtain ⟨hfraction, hexponent, hz⟩ := h
  dsimp only at hfraction hexponent hz ⊢
  subst hfraction hexponent
  have hbits : (twoPow 63 : Int) = 2 ^ 63 ∧ twoPow 63 = 2 ^ 63 ∧ twoPow 64 = 2 ^ 64 :=
    ⟨rfl, rfl, rfl⟩
  have hfloat {P : Prop} (hP : P)
      (hv : (JsonNumber.toFloat? ⟨negative, whole, [], none⟩).map SettingValue.float = some v) :
      ∃ x, v = .float x ∧ JsonNumber.toFloat? ⟨negative, whole, [], none⟩ = some x ∧ P := by
    obtain ⟨x, hx, rfl⟩ := Option.map_eq_some_iff.1 hv
    exact ⟨x, rfl, hx, hP⟩
  rw [ofNumber?, JsonNumber.toInt?_digits] at hv
  cases negative with
  | true =>
    simp only [if_true, eq_self, true_and] at hv hz ⊢
    by_cases hfits : 0 < whole ∧ whole ≤ twoPow 63
    · simp only [if_pos hfits] at hv
      rw [if_pos (by omega)] at hv
      exact .inl ⟨by omega, by rw [hz]; exact (Option.some.inj hv).symm⟩
    · simp only [if_neg hfits] at hv
      exact .inr (hfloat (by omega) hv)
  | false =>
    simp only [Bool.false_eq_true, if_false, false_and, or_false] at hv hz ⊢
    by_cases hfits : whole < twoPow 64
    · simp only [if_pos hfits] at hv
      split at hv
      · exact .inl ⟨by omega, by rw [hz]; exact (Option.some.inj hv).symm⟩
      · exact .inr (hfloat (by omega) hv)
    · simp only [if_neg hfits] at hv
      exact .inr (hfloat (by omega) hv)

theorem hides_of_ofNumber? {n : JsonNumber} {z : Int} {v : SettingValue} (h : n.WritesInteger z)
    (hv : ofNumber? n = some v) : Hides v ∧ v ≠ .nil := by
  obtain ⟨-, rfl⟩ | ⟨x, rfl, -⟩ := ofNumber?_eq_some h hv
  · exact ⟨fun _ => rfl, SettingValue.noConfusion⟩
  · exact ⟨fun _ => rfl, SettingValue.noConfusion⟩

theorem unsignedOfFloat_negative_zero {x : Float}
    (h : JsonNumber.toFloat? ⟨true, 0, [], none⟩ = some x) : unsignedOfFloat x = 0 := by
  have hzero : (JsonNumber.toFloat? ⟨true, 0, [], none⟩).map unsignedOfFloat = some 0 := by
    decide +kernel
  rw [h] at hzero
  exact Option.some.inj hzero

/-- **A literal that writes an integer is read as that**, or as what is left of it in 53 bits, or
not at all. -/
theorem toUnsigned?_literal {n : JsonNumber} {z : Int} {v : SettingValue} {m : Nat}
    (h : n.WritesInteger z) (hv : ofNumber? n = some v) (hm : v.toUnsigned? = some m) :
    IntegerForm.literal.Takes z ∧ m = IntegerForm.literal.read z := by
  have hz := h.value
  obtain ⟨hlt, rfl⟩ | ⟨x, rfl, hx, hbeyond⟩ := ofNumber?_eq_some h hv
  · obtain ⟨hpos, hnat⟩ := Option.ite_none_right_eq_some.1 hm
    refine ⟨.inr hpos, ?_⟩
    rw [IntegerForm.read, if_pos hlt]
    exact (Option.some.inj hnat).symm
  · obtain rfl := Option.some.inj hm
    obtain ⟨hwhole, hne⟩ | ⟨hnegative, hzero⟩ := hbeyond
    · rw [FloatText.unsignedOfFloat_of_toFloat? hwhole hx]
      cases hnegative : n.negative with
      | true =>
        simp only [hnegative, if_true] at hz ⊢
        refine ⟨.inl (by omega), ?_⟩
        rw [IntegerForm.read, if_pos (by omega)]
        omega
      | false =>
        simp only [hnegative, Bool.false_eq_true, if_false] at hz ⊢
        refine ⟨.inr (by omega), ?_⟩
        rw [IntegerForm.read, if_neg (by omega), hz, Int.toNat_natCast]
    · rw [hnegative, hzero] at hx hz
      rw [unsignedOfFloat_negative_zero hx]
      obtain rfl : z = 0 := hz
      exact ⟨.inr (by decide), by decide⟩

/-! ### What is loaded -/

namespace Settings

variable {environment : List (String × String)} {file : SettingsFile} {cfg : Settings}
  {n : NumberSetting} {form : IntegerForm} {z : Int}

/-- The integer is what the environment has for a setting, or what the file has and the environment
has nothing. -/
inductive Written (environment : List (String × String)) (s : Setting) (z : Int) :
    SettingsFile → IntegerForm → Prop
  | inEnvironment {file : SettingsFile} {text : String} : SetByVariable environment s text →
      Text.WritesInteger text.toList z → Written environment s z file .text
  | inFile {content : Json} {number : JsonNumber} : SetByFile s (.number number) content →
      number.WritesInteger z → Untouched environment s →
      Written environment s z (.present content) .literal

/-- What is read for the setting is the number that the integer is taken for. -/
theorem exists_read_of_written (h : Written environment n.setting z file form)
    (hload : load environment file = .ok cfg) :
    ∃ v, n.setting.read? v = some (n.setting.get cfg) ∧ v ≠ .nil ∧
      ∀ m, v.toUnsigned? = some m → form.Takes z ∧ m = form.read z := by
  cases h with
  | inEnvironment hset htext =>
    exact ⟨_, read?_of_setByVariable hset hload, SettingValue.noConfusion,
      fun m hm => toUnsigned?_text htext hm⟩
  | inFile hset hnumber huntouched =>
    obtain ⟨v, hv, hread⟩ := read?_of_setByFile hset huntouched hload
    obtain ⟨hhides, hne⟩ := hides_of_ofNumber? hnumber hv
    exact ⟨v, hread hhides, hne, fun m hm => toUnsigned?_literal hnumber hv hm⟩

theorem loaded?_of_written (h : Written environment n.setting z file form)
    (hload : load environment file = .ok cfg) :
    form.Takes z ∧ n.loaded? cfg = some (form.read z % 2 ^ n.bits) := by
  obtain ⟨v, hv, hne, hvalue⟩ := exists_read_of_written h hload
  obtain ⟨m, hm, hloaded⟩ := NumberSetting.exists_toUnsigned? hv hne
  obtain ⟨htakes, rfl⟩ := hvalue m hm
  exact ⟨htakes, hloaded (IntegerForm.read_lt htakes)⟩

theorem exists_validate_eq_error_iff {c : PoolConfig} :
    (∃ e, c.validate = .error e) ↔ c.maxConnections = 0 := by
  unfold PoolConfig.validate
  constructor
  · rintro ⟨e, he⟩
    split at he
    · next h => exact h
    · cases he
  · intro h
    rw [if_pos h]
    exact ⟨_, rfl⟩

/-- **The number that is loaded for an integer that is written**, whatever else is.  If settings are
loaded at all, the integer is one that is taken, and its setting is the number that it is taken for,
cut to the bits of the setting.  So it is the integer just if that fits these bits and is taken for
itself.  The pool is refused just if no bits are left of the number of connections. -/
theorem loaded_of_written (h : Written environment n.setting z file form)
    (hload : load environment file = .ok cfg) :
    form.Takes z ∧ n.loaded? cfg = some (form.read z % 2 ^ n.bits) ∧
      ((n.loaded? cfg).map Int.ofNat = some z ↔ 0 ≤ z ∧ z < 2 ^ n.bits ∧ form.Keeps z) ∧
      (n = .maxConnections →
        ((∃ e, (poolConfig cfg).validate = .error e) ↔ 2 ^ 32 ∣ form.read z)) := by
  obtain ⟨htakes, hloaded⟩ := loaded?_of_written h hload
  refine ⟨htakes, hloaded, ?_, ?_⟩
  · rw [hloaded, Option.map_some, Option.some_inj]
    exact IntegerForm.read_mod_eq_iff htakes n
  · rintro rfl
    obtain hconnections : cfg.database.maxConnections = form.read z % 2 ^ 32 :=
      Option.some.inj hloaded
    rw [exists_validate_eq_error_iff, Nat.dvd_iff_mod_eq_zero, ← hconnections, poolConfig]

/-- A number of connections in the environment. -/
def connectionsVariable (text : String) : List (String × String) :=
  [("METERBOOK_DATABASE__MAX_CONNECTIONS", text)]

/-- A longest wait in the file. -/
def waitFile (wait : Int) : Json :=
  .object [(some "prometheus", .object [(some "query_timeout_secs", Json.int wait)])]

theorem written_connectionsVariable {text : String} {file : SettingsFile} (hne : text.toList ≠ [])
    (hdigits : text.toList.all Text.isDigit) : Written (connectionsVariable text) .maxConnections
      (Text.value text.toList) file .text := by
  have hset : SetByVariable (connectionsVariable text) .maxConnections text :=
    ⟨_, [], List.Perm.refl _, by decide, fun entry hmem => absurd hmem List.not_mem_nil⟩
  exact .inEnvironment hset (.plain hne (List.all_eq_true.1 hdigits))

theorem untouched_connectionsVariable (text : String) :
    Untouched (connectionsVariable text) .queryTimeoutSecs := by
  intro entry hmem
  obtain ⟨named, hnamed, hentry⟩ := List.mem_filterMap.1 hmem
  obtain rfl := List.mem_singleton.1 hnamed
  obtain ⟨key, hkey, rfl⟩ := Option.map_eq_some_iff.1 hentry
  have hname : keyOfVariable? "METERBOOK_DATABASE__MAX_CONNECTIONS" =
      some (Setting.key .maxConnections) := by decide
  obtain rfl := Option.some.inj (hname.symm.trans hkey)
  rw [Setting.ofKey_key]
  exact .elsewhere (by decide)

theorem writesInteger_ofInt (z : Int) : (JsonNumber.ofInt z).WritesInteger z := by
  refine ⟨rfl, rfl, ?_⟩
  simp only [JsonNumber.ofInt, decide_eq_true_eq]
  split <;> omega

theorem written_waitFile (text : String) (wait : Int) : Written (connectionsVariable text)
    .queryTimeoutSecs wait (.present (waitFile wait)) .literal := by
  refine .inFile (.nested rfl rfl ?_) (writesInteger_ofInt wait) (untouched_connectionsVariable text)
  intro name j hmem _ hne
  obtain ⟨hname, -⟩ := Prod.mk.inj (List.mem_singleton.1 hmem)
  exact absurd (Option.some.inj hname) hne

/-- One bit too many for the number of connections, and a wait that is not taken for itself. -/
theorem loaded_of_written_beyond : ∃ cfg,
    load (connectionsVariable "4294967297") (.present (waitFile (2 ^ 63 + 1))) = .ok cfg ∧
      cfg.database.maxConnections = 1 ∧ cfg.prometheus.queryTimeoutSecs = some (2 ^ 63) := by
  have hloads : (load (connectionsVariable "4294967297")
      (.present (waitFile (2 ^ 63 + 1)))).toBool = true := by decide +kernel
  cases hload : load (connectionsVariable "4294967297") (.present (waitFile (2 ^ 63 + 1))) with
  | error e =>
    rw [hload] at hloads
    cases hloads
  | ok cfg =>
    have hconnections := (@loaded_of_written _ _ _ .maxConnections _ _
      (written_connectionsVariable (by decide) (by decide)) hload).2.1
    have hwait := (@loaded_of_written _ _ _ .queryTimeoutSecs _ _
      (written_waitFile "4294967297" _) hload).2.1
    refine ⟨cfg, rfl, (Option.some.inj hconnections).trans (by decide), ?_⟩
    exact hwait.trans (by decide)

/-- **Settings can be loaded that say something else.**  If one connection more is written than 32
bits can tell apart, it is this one that is loaded, and without it there is none and the pool is
refused. -/
theorem load_beyond_bits :
    (Written (connectionsVariable "4294967297") .maxConnections 4294967297 .absent .text ∧
      (load (connectionsVariable "4294967297") .absent).toOption.map
        (fun cfg => cfg.database.maxConnections) = some 1) ∧
    Written (connectionsVariable "4294967296") .maxConnections 4294967296 .absent .text ∧
      (load (connectionsVariable "4294967296") .absent).toOption.map
        (fun cfg => (poolConfig cfg).validate.toBool) = some false := by
  refine ⟨⟨?_, by decide +kernel⟩, ?_, by decide +kernel⟩
  · have hvalue : (4294967297 : Int) = Text.value "4294967297".toList := by decide
    rw [hvalue]
    exact written_connectionsVariable (by decide) (by decide)
  · have hvalue : (4294967296 : Int) = Text.value "4294967296".toList := by decide
    rw [hvalue]
    exact written_connectionsVariable (by decide) (by decide)

end Settings

end UsageBilling
