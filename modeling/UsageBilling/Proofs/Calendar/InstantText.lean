import Mathlib.Data.List.TakeWhile
import UsageBilling.Proofs.Calendar.Civil
import UsageBilling.Calendar.Rfc3339

/-!
# The text of an instant

An instant is read back from its text, in any year of the calendar, with any fraction of a second
and also in a leap second: `Timestamp.ofRfc3339?_rfc3339`.  Only a leap second behind another second
than the last of a minute is not: its text is that of the second after it, `Timestamp.shown`.

* `takeNumber?_padded`, `takeYear?_yearText`, `takeFraction?_fractionText` : each part of the text is
  read off the front of what follows it.
* `Timestamp.ofText?_rfc3339` : the parts that are read are those that are written.
* `Timestamp.toTimestamp?_written` : they name the instant that is shown.
* `Timestamp.rfc3339_eq_iff` : two instants have one text just if they are shown alike.
-/

namespace UsageBilling

variable {rest : List Char}

/-! ### Parts of the text -/

theorem Text.isBlank_of_isDigit {c : Char} (h : Text.isDigit c = true) : Text.isBlank c = false := by
  have hcode := Text.toNat_mem_of_isDigit h
  simp only [Text.isBlank, Bool.or_eq_false_iff, Bool.and_eq_false_iff, decide_eq_false_iff_not]
  omega

theorem Text.trimStart_of_head {c : Char} {cs : List Char} (h : Text.isBlank c = false) :
    Text.trimStart (c :: cs) = c :: cs := by
  simp [Text.trimStart, h]

theorem exists_padded_eq {width : Nat} (hwidth : 0 < width) (n : Nat) :
    ∃ d ds, Text.padded width n = d :: ds ∧ Text.isDigit d = true := by
  have hlength := Text.le_length_padded width n
  obtain ⟨d, ds, heq⟩ := List.exists_cons_of_length_pos (Nat.lt_of_lt_of_le hwidth hlength)
  exact ⟨d, ds, heq, Text.isDigit_of_mem_padded (heq ▸ List.mem_cons_self)⟩

theorem trimStart_padded {width : Nat} (hwidth : 0 < width) (n : Nat) (rest : List Char) :
    Text.trimStart (Text.padded width n ++ rest) = Text.padded width n ++ rest := by
  obtain ⟨d, ds, heq, hd⟩ := exists_padded_eq hwidth n
  rw [heq]
  exact Text.trimStart_of_head (Text.isBlank_of_isDigit hd)

theorem padded_ne_nil {width : Nat} (hwidth : 0 < width) (n : Nat) : Text.padded width n ≠ [] := by
  obtain ⟨d, ds, heq, -⟩ := exists_padded_eq hwidth n
  rw [heq]
  exact List.cons_ne_nil _ _

/-- **A number of fixed width is read back**, whatever follows. -/
theorem takeNumber?_padded {width n : Nat} (hwidth : 0 < width) (h : n < tenPow width)
    (rest : List Char) : takeNumber? width (Text.padded width n ++ rest) = some (n, rest) := by
  have hlength := Text.length_padded hwidth h
  have hdigits : (Text.padded width n).takeWhile Text.isDigit = Text.padded width n :=
    List.takeWhile_eq_self_iff.2 fun _ hc => Text.isDigit_of_mem_padded hc
  have hne := padded_ne_nil hwidth n
  have htake : ((Text.padded width n ++ rest).take width).takeWhile Text.isDigit =
      Text.padded width n := by
    rw [List.take_left' hlength, hdigits]
  simp only [takeNumber?, trimStart_padded hwidth, htake, hne, if_false, Text.value_padded]
  rw [List.drop_left]

theorem takeMark?_cons {mark : Char} (h : Text.isBlank mark = false) (rest : List Char) :
    takeMark? mark (mark :: rest) = some rest := by
  simp [takeMark?, Text.trimStart_of_head h]

theorem spanDigits_padded (width n : Nat) (h : ∀ c ∈ rest.head?, Text.isDigit c = false) :
    Text.spanDigits (Text.padded width n ++ rest) = (Text.padded width n, rest) :=
  Text.spanDigits_append (fun _ hc => Text.isDigit_of_mem_padded hc) h

/-- **A year is read back**, before 0 and beyond 9999 by its sign. -/
theorem takeYear?_yearText (y : Int) (h : ∀ c ∈ rest.head?, Text.isDigit c = false) :
    takeYear? (yearText y ++ rest) = some (y, rest) := by
  have hspan := spanDigits_padded 4 y.natAbs h
  have hne := padded_ne_nil (by decide : 0 < 4) y.natAbs
  unfold yearText
  split
  · next hin =>
    have hread := takeNumber?_padded (by decide : 0 < 4) (n := y.toNat) (by
      have : tenPow 4 = 10000 := rfl
      omega) rest
    obtain ⟨d, ds, heq, hd⟩ := exists_padded_eq (by decide : 0 < 4) y.toNat
    rw [takeYear?, trimStart_padded (by decide)]
    -- no sign stands in front of a digit
    split
    · next hminus =>
      rw [heq] at hminus
      cases hminus
      cases hd
    · next hplus =>
      rw [heq] at hplus
      cases hplus
      cases hd
    · rw [hread]
      simp only [Option.map_some, Int.toNat_of_nonneg hin.1]
  · next hout =>
    by_cases hneg : y < 0
    · rw [if_pos hneg, List.cons_append, takeYear?, Text.trimStart_of_head (by decide)]
      simp only [hspan, hne, if_false, Text.value_padded]
      congr 2
      omega
    · rw [if_neg hneg, List.cons_append, takeYear?, Text.trimStart_of_head (by decide)]
      simp only [hspan, hne, if_false, Text.value_padded]
      congr 2
      omega

/-- **A fraction of a second is read back**, in whichever of its forms it is written. -/
theorem takeFraction?_fractionText {nanos : Nat} (hnanos : nanos < nanosPerSecond)
    (h : ∀ c ∈ rest.head?, Text.isDigit c = false ∧ c ≠ '.') :
    takeFraction? (fractionText nanos ++ rest) = some (nanos, rest) := by
  have hread {width n : Nat} (hwidth : 0 < width) (hle : width ≤ 9) (hn : n < tenPow width)
      (hscaled : n * tenPow (9 - width) = nanos) :
      takeFraction? ('.' :: Text.padded width n ++ rest) = some (nanos, rest) := by
    have hlength := Text.length_padded hwidth hn
    rw [List.cons_append, takeFraction?, spanDigits_padded width n fun c hc => (h c hc).1]
    simp only [padded_ne_nil hwidth, if_false, List.take_of_length_le (Nat.le_trans
      (Nat.le_of_eq hlength) hle), Text.value_padded, hlength, hscaled]
  have hpowers : tenPow 3 = 1000 ∧ tenPow 6 = 1000000 ∧ tenPow 9 = 1000000000 := ⟨rfl, rfl, rfl⟩
  have hmilli : nanos / 1000000 * tenPow (9 - 3) = nanos / 1000000 * 1000000 := rfl
  have hmicro : nanos / 1000 * tenPow (9 - 6) = nanos / 1000 * 1000 := rfl
  unfold nanosPerSecond at hnanos
  unfold fractionText
  split
  · next hzero =>
    subst hzero
    rw [List.nil_append, takeFraction?]
    rintro tail rfl
    exact (h '.' rfl).2 rfl
  split
  · exact hread (by decide) (by decide) (by omega) (by omega)
  split
  · exact hread (by decide) (by decide) (by omega) (by omega)
  · exact hread (by decide) (by decide) (by omega) (Nat.mul_one nanos)

/-! ### Instants -/

namespace Timestamp

/-- The instant that a text shows.  A clock that is not at the end of a minute has no second 60, so
a leap second there looks like the second after it. -/
def shown (t : Timestamp) : Timestamp :=
  if h : OnClock t.seconds t.nanos then t
  else
    { seconds := t.seconds + 1
      nanos := t.nanos - nanosPerSecond
      isInstant := by
        obtain ⟨hmin, hmax, hnanos⟩ := t.isInstant
        have hpos : 0 < nanosPerSecond := by decide
        unfold OnClock at h
        unfold minSeconds at hmin
        unfold maxSeconds at hmax
        refine ⟨?_, ?_, by omega⟩
        · unfold minSeconds; omega
        -- the calendar ends with the last second of a minute
        · unfold maxSeconds; omega }

@[simp] theorem shown_of_onClock {t : Timestamp} (h : OnClock t.seconds t.nanos) : t.shown = t :=
  dif_pos h

theorem shown_of_not_onClock {t : Timestamp} (h : ¬ OnClock t.seconds t.nanos) :
    t.shown.seconds = t.seconds + 1 ∧ t.shown.nanos = t.nanos - nanosPerSecond := by
  rw [shown, dif_neg h]
  exact ⟨rfl, rfl⟩

theorem onClock_shown (t : Timestamp) : OnClock t.shown.seconds t.shown.nanos := by
  by_cases h : OnClock t.seconds t.nanos
  · rwa [shown_of_onClock h]
  · have hnanos := t.isInstant.2.2
    left
    rw [(shown_of_not_onClock h).2]
    omega

/-- The parts of the text of an instant, in UTC.  A leap second is second 60. -/
def written (t : Timestamp) : DateTimeParts where
  year := t.date.1
  month := t.date.2.1
  day := t.date.2.2
  hour := t.hour
  minute := t.minute
  second := if t.nanos < nanosPerSecond then t.second else t.second + 1
  nanos := if t.nanos < nanosPerSecond then t.nanos else t.nanos - nanosPerSecond
  offset := 0

theorem inCalendar_written (t : Timestamp) :
    InCalendar t.written.year t.written.month t.written.day := by
  have hdate : t.date = (t.written.year, t.written.month, t.written.day) := rfl
  exact inCalendar_date hdate

/-- Month, day and the parts of the day have two digits, and the fraction is below a second. -/
theorem written_lt (t : Timestamp) : t.written.month < 100 ∧ t.written.day < 100 ∧
    t.written.hour < 24 ∧ t.written.minute < 60 ∧ t.written.second ≤ 60 ∧
    t.written.nanos < nanosPerSecond := by
  obtain ⟨-, -, hm, hm', hd, hd'⟩ := t.inCalendar_written
  have hlength := daysInMonth_le t.written.year t.written.month
  have hinstant := t.isInstant.2.2
  have hpos : 0 < nanosPerSecond := by decide
  refine ⟨by omega, by omega, ?_⟩
  simp only [written, hour, minute, second, secondOfDay]
  refine ⟨by omega, by omega, ?_, ?_⟩
  · split <;> omega
  · split <;> omega

/-- The text of an instant is that of its parts. -/
theorem toList_rfc3339 (t : Timestamp) : (t.rfc3339 "Z").toList =
    yearText t.written.year ++ '-' :: (Text.padded 2 t.written.month ++
      '-' :: (Text.padded 2 t.written.day ++ 'T' :: (Text.padded 2 t.written.hour ++
        ':' :: (Text.padded 2 t.written.minute ++ ':' :: (Text.padded 2 t.written.second ++
          (fractionText t.written.nanos ++ ['Z'])))))) := by
  simp [rfc3339, dateText, clockText, subsecondText, written]

/-- **The parts that are read are those that are written.** -/
theorem ofText?_rfc3339 (t : Timestamp) :
    DateTimeParts.ofText? (t.rfc3339 "Z").toList = some t.written := by
  obtain ⟨hmonth, hday, hhour, hminute, hsecond, hnanos⟩ := t.written_lt
  have htwo : tenPow 2 = 100 := rfl
  have hyear (tail : List Char) :
      takeYear? (yearText t.written.year ++ '-' :: tail) = some (t.written.year, '-' :: tail) :=
    takeYear?_yearText t.written.year (by rintro c ⟨⟩; decide)
  have hnumber {n : Nat} (hn : n < 100) (rest : List Char) :
      takeNumber? 2 (Text.padded 2 n ++ rest) = some (n, rest) :=
    takeNumber?_padded (by decide) (by omega) rest
  have hfraction : takeFraction? (fractionText t.written.nanos ++ ['Z']) =
      some (t.written.nanos, ['Z']) :=
    takeFraction?_fractionText hnanos (by rintro c ⟨⟩; exact ⟨by decide, by decide⟩)
  simp only [DateTimeParts.ofText?, toList_rfc3339, hyear, Option.bind_eq_bind, Option.bind_some,
    hfraction, takeMark?_cons (show Text.isBlank '-' = false by decide),
    takeMark?_cons (show Text.isBlank ':' = false by decide), hnumber hmonth, hnumber hday,
    hnumber (n := t.written.hour) (by omega), hnumber (n := t.written.minute) (by omega),
    hnumber (n := t.written.second) (by omega)]
  rfl

/-- The day and the time of the day make up the seconds. -/
theorem seconds_eq (t : Timestamp) : t.seconds =
    86400 * UsageBilling.dayNumber t.written.year t.written.month t.written.day + t.hour * 3600 +
      t.minute * 60 + t.second := by
  have hdate : t.date = (t.written.year, t.written.month, t.written.day) := rfl
  have hday : UsageBilling.dayNumber t.written.year t.written.month t.written.day = t.seconds / 86400 :=
    (civil_eq_iff.1 hdate).2
  rw [hday]
  simp only [hour, minute, second, secondOfDay]
  omega

/-- Second 60 is the leap second behind second 59, and no other is. -/
theorem written_second {t : Timestamp} (h : OnClock t.seconds t.nanos) :
    (if t.written.second = 60 then (59, t.written.nanos + nanosPerSecond)
      else (t.written.second, t.written.nanos)) = (t.second, t.nanos) := by
  have hinstant := t.isInstant.2.2
  by_cases hleap : t.nanos < nanosPerSecond
  · have hsecond : t.written.second = t.second := if_pos hleap
    have hnanos : t.written.nanos = t.nanos := if_pos hleap
    have hlt : t.second < 60 := Nat.mod_lt _ (by decide)
    rw [hsecond, hnanos, if_neg (by omega)]
  · have hsecond : t.written.second = t.second + 1 := if_neg hleap
    have hnanos : t.written.nanos = t.nanos - nanosPerSecond := if_neg hleap
    have hlast : t.second = 59 := by
      have hend := h.resolve_left hleap
      unfold second secondOfDay
      omega
    rw [hsecond, hnanos, hlast, if_pos rfl, Nat.sub_add_cancel (Nat.not_lt.1 hleap)]

/-- The second after a leap second that no clock shows is written like it. -/
theorem written_shown (t : Timestamp) : t.shown.written = t.written := by
  by_cases h : OnClock t.seconds t.nanos
  · rw [shown_of_onClock h]
  · obtain ⟨hseconds, hnanos⟩ := shown_of_not_onClock h
    have hinstant := t.isInstant.2.2
    unfold OnClock at h
    have hday : t.shown.dayNumber = t.dayNumber := by
      unfold dayNumber
      omega
    have hsecond : t.shown.secondOfDay = t.secondOfDay + 1 := by
      unfold secondOfDay
      omega
    have hminute : t.secondOfDay % 60 < 59 := by
      unfold secondOfDay
      omega
    simp only [written, date, hour, minute, second, hday, hsecond, hnanos, DateTimeParts.mk.injEq,
      true_and, and_true]
    refine ⟨by omega, by omega, ?_, ?_⟩
    · rw [if_pos (by omega), if_neg (by omega)]
      omega
    · rw [if_pos (by omega), if_neg (by omega)]

theorem rfc3339_shown (t : Timestamp) : t.shown.rfc3339 "Z" = t.rfc3339 "Z" :=
  String.toList_inj.1 (by rw [toList_rfc3339, toList_rfc3339, written_shown])

/-- **They name the instant** if a clock shows it. -/
theorem toTimestamp?_written_of_onClock {t : Timestamp} (h : OnClock t.seconds t.nanos) :
    t.written.toTimestamp? = some t := by
  obtain ⟨-, -, hhour, hminute, hsecond, -⟩ := t.written_lt
  have hdate : Date.ofYmd? t.written.year t.written.month t.written.day =
      some ⟨_, _, _, t.inCalendar_written⟩ := dif_pos t.inCalendar_written
  have hranges : t.written.hour ≤ 23 ∧ t.written.minute ≤ 59 ∧ t.written.second ≤ 60 ∧
      t.written.offset.natAbs < 86400 := ⟨by omega, by omega, hsecond, Nat.succ_pos _⟩
  simp only [DateTimeParts.toTimestamp?, hdate, Option.bind_eq_bind, Option.bind_some, hranges,
    and_self, if_true, Date.dayNumber, written_second h]
  have hoffset : t.written.offset = 0 := rfl
  rw [hoffset, Int.sub_zero]
  have hseconds := t.seconds_eq
  exact ofUnix?_eq_some.2 ⟨⟨hseconds, rfl⟩, hseconds ▸ h⟩

/-- **They name the instant that is shown.** -/
theorem toTimestamp?_written (t : Timestamp) : t.written.toTimestamp? = some t.shown := by
  rw [← written_shown, toTimestamp?_written_of_onClock t.onClock_shown]

/-- **An instant is read back from its text** as it is shown. -/
theorem ofRfc3339?_rfc3339 (t : Timestamp) : ofRfc3339? (t.rfc3339 "Z") = some t.shown := by
  rw [ofRfc3339?, ofText?_rfc3339, Option.bind_some, toTimestamp?_written]

/-- **Two instants have one text** just if they are shown alike. -/
theorem rfc3339_eq_iff {t u : Timestamp} : t.rfc3339 "Z" = u.rfc3339 "Z" ↔ t.shown = u.shown := by
  constructor
  · intro h
    have hread := t.ofRfc3339?_rfc3339
    rw [h, ofRfc3339?_rfc3339] at hread
    exact (Option.some.inj hread).symm
  · intro h
    rw [← rfc3339_shown t, h, rfc3339_shown]

end Timestamp

end UsageBilling
