import Rustvello.Proto.Status
import Mathlib.Data.String.Basic

/-!
# Instants written as texts

SQLite compares the instants of its tables as texts.  For years of four digits the texts of
`to_rfc3339` are ordered as the instants; before them a text starts with a sign, which sorts
before every digit.

* `TimeText` — the texts, as a parameter;
* `le_text_iff`, `text_lt_iff` — comparing with an instant that may lie before the year 0.
-/

namespace Rustvello.Backends

open Proto

/-- `to_rfc3339` -/
structure TimeText where
  rfc3339 : Timestamp → String
  fourDigitYear : Timestamp → Prop
  between : ∀ s t u, fourDigitYear s → fourDigitYear u → s ≤ t → t ≤ u → fourDigitYear t
  le_iff : ∀ s t, fourDigitYear s → fourDigitYear t → (rfc3339 s ≤ rfc3339 t ↔ s ≤ t)
  signed_lt : ∀ s t, ¬ fourDigitYear s → fourDigitYear t → s < t → rfc3339 s < rfc3339 t

namespace TimeText

variable (text : TimeText) {s t now : Timestamp}

/-- A cutoff before the year 0 lies before every stored instant. -/
theorem lt_of_signed (ht : text.fourDigitYear t) (hnow : text.fourDigitYear now) (hs : s ≤ now)
    (hyear : ¬ text.fourDigitYear s) : s < t := by
  by_contra hnot
  exact hyear (text.between t s now ht hnow (not_lt.mp hnot) hs)

/-- The cutoff of a query is compared with a stored instant. -/
theorem le_text_iff (ht : text.fourDigitYear t) (hnow : text.fourDigitYear now) (hs : s ≤ now) :
    text.rfc3339 s ≤ text.rfc3339 t ↔ s ≤ t := by
  by_cases hyear : text.fourDigitYear s
  · exact text.le_iff s t hyear ht
  · have hlt := text.lt_of_signed ht hnow hs hyear
    exact iff_of_true (text.signed_lt s t hyear ht hlt).le hlt.le

theorem text_le_iff (ht : text.fourDigitYear t) (hnow : text.fourDigitYear now) (hs : s ≤ now) :
    text.rfc3339 t ≤ text.rfc3339 s ↔ t ≤ s := by
  by_cases hyear : text.fourDigitYear s
  · exact text.le_iff t s ht hyear
  · have hlt := text.lt_of_signed ht hnow hs hyear
    exact iff_of_false (not_le.mpr (text.signed_lt s t hyear ht hlt)) (not_le.mpr hlt)

theorem text_lt_iff (ht : text.fourDigitYear t) (hnow : text.fourDigitYear now) (hs : s ≤ now) :
    text.rfc3339 t < text.rfc3339 s ↔ t < s := by
  rw [← not_le, ← not_le, text.le_text_iff ht hnow hs]

end TimeText

/-- The texts of the first nanoseconds. -/
def firstNanoseconds : TimeText where
  rfc3339 t :=
    if t ≤ 0 then "1970-01-01T00:00:00+00:00"
    else if t = 1 then "1970-01-01T00:00:00.000000001+00:00"
    else "1970-01-01T00:00:00.000000002+00:00"
  fourDigitYear t := t = 1 ∨ t = 2
  between := by
    intro (s : Int) (t : Int) (u : Int) (hs : s = 1 ∨ s = 2) (hu : u = 1 ∨ u = 2)
      (hst : s ≤ t) (htu : t ≤ u)
    show t = 1 ∨ t = 2
    omega
  le_iff := by
    rintro s t (rfl | rfl) (rfl | rfl) <;> decide
  signed_lt := by
    intro (s : Int) (t : Int) (hs : ¬ (s = 1 ∨ s = 2)) (ht : t = 1 ∨ t = 2) (hlt : s < t)
    have hearly : s ≤ 0 := by omega
    rw [if_pos hearly]
    rcases ht with rfl | rfl <;> decide

end Rustvello.Backends
