import Rustvello.Backends.Thresholds
import Rustvello.Calendar.Gregorian
import Rustvello.Text.Columns

/-!
# Stored timestamps

The SQLite backend stores instants as the texts of `to_rfc3339` and compares these texts in its
queries.  The texts have columns of a fixed width up to the second, then a fraction of 0, 3, 6
or 9 digits, whichever is the shortest exact one, then `+00:00`.

* `Reading` — what the calendar and the clock show at an instant, and its text;
* `Reading.text_lt`, `readingOf_before` — texts are ordered as readings, and readings as
  instants;
* `chronoText` — the texts of the years 0 to 9999, and how the others compare with them;
* `readBack`, `readBack_rfc3339` — the instant is read back from its text;
* `StoredYears` — the rows hold instants of these years;
* `storedTimestamps_sort` — the texts sort chronologically, and the queries select by instants;
* `recoveryQueries_exact` — what the queries of three backends list after every run.
-/

namespace Rustvello.Backends.Rfc3339

open Proto Rustvello.Core Mem Text Calendar Liveness Thresholds

/-! ## Texts -/

/-- Up to the second; a leap second is second 60. -/
structure Reading where
  year : Int
  month : Nat
  day : Nat
  hour : Nat
  minute : Nat
  second : Nat
  nanosecond : Nat
deriving DecidableEq

def layout : List (Nat × List Char) :=
  [(4, ['-']), (2, ['-']), (2, ['T']), (2, [':']), (2, [':']), (2, [])]

def zone : List Char := ['+', '0', '0', ':', '0', '0']

/-- `SecondsFormat::AutoSi` -/
def fraction (nanosecond : Nat) : List Char :=
  if nanosecond = 0 then []
  else if nanosecond % 1000000 = 0 then '.' :: fixedWidth 3 (nanosecond / 1000000)
  else if nanosecond % 1000 = 0 then '.' :: fixedWidth 6 (nanosecond / 1000)
  else '.' :: fixedWidth 9 nanosecond

namespace Reading

/-- The columns before the fraction. -/
def numbers (r : Reading) : List Nat :=
  [r.year.toNat, r.month, r.day, r.hour, r.minute, r.second]

/-- Every part fits its column. -/
structure InColumns (r : Reading) : Prop where
  year_nonneg : 0 ≤ r.year
  year_le : r.year ≤ 9999
  month_lt : r.month < 100
  day_lt : r.day < 100
  hour_lt : r.hour < 100
  minute_lt : r.minute < 100
  second_lt : r.second < 100
  nanosecond_lt : r.nanosecond < 1000000000

/-- Earlier by the first part that differs. -/
def Before (r r' : Reading) : Prop :=
  r.numbers < r'.numbers ∨ r.numbers = r'.numbers ∧ r.nanosecond < r'.nanosecond

/-- A year that needs a sign: at least four digits. -/
def signedYear (year : Int) : List Char :=
  (if year < 0 then '-' else '+') ::
    (List.replicate (4 - (Nat.toDigits 10 year.natAbs).length) '0' ++
      Nat.toDigits 10 year.natAbs)

/-- `to_rfc3339` -/
def text (r : Reading) : String :=
  if 0 ≤ r.year ∧ r.year ≤ 9999 then
    String.ofList (columns layout r.numbers ++ (fraction r.nanosecond ++ zone))
  else
    String.ofList (signedYear r.year ++
      ('-' :: columns layout.tail r.numbers.tail ++ (fraction r.nanosecond ++ zone)))

end Reading

/-! ## Their order -/

theorem plus_lt_digit (n : Nat) : '+' < digit n := by
  show ('+' : Char).toNat < (digit n).toNat
  rw [toNat_digit]
  exact Nat.lt_add_right _ (by decide)

/-- The digits of the fraction in groups of three. -/
def thousandths (nanosecond : Nat) : List Nat :=
  [nanosecond / 1000000, nanosecond / 1000 % 1000, nanosecond % 1000]

theorem fraction_eq_trimmed {nanosecond : Nat} (hpos : nanosecond ≠ 0) :
    fraction nanosecond = '.' :: trimmed 3 (thousandths nanosecond) := by
  have hmicro : fixedWidth 3 (nanosecond / 1000 % 1000) = fixedWidth 3 (nanosecond / 1000) :=
    fixedWidth_congr (Nat.mod_mod _ _)
  have hnano : fixedWidth 3 (nanosecond % 1000) = fixedWidth 3 nanosecond :=
    fixedWidth_congr (Nat.mod_mod _ _)
  have hsix : fixedWidth 3 (nanosecond / 1000000) ++ fixedWidth 3 (nanosecond / 1000) =
      fixedWidth 6 (nanosecond / 1000) := by
    have happend := fixedWidth_append 3 3 (nanosecond / 1000)
    rwa [Nat.div_div_eq_div_mul] at happend
  have hnine : fixedWidth 6 (nanosecond / 1000) ++ fixedWidth 3 nanosecond =
      fixedWidth 9 nanosecond := fixedWidth_append 6 3 nanosecond
  have hsome : ¬ (nanosecond / 1000000 = 0 ∧ nanosecond % 1000000 = 0) := by omega
  have hlast : (nanosecond / 1000 % 1000 = 0 ∧ nanosecond % 1000 = 0) ↔
      nanosecond % 1000000 = 0 := by
    omega
  unfold fraction
  simp only [thousandths, trimmed, List.forall_mem_cons, List.not_mem_nil, false_imp_iff,
    implies_true, and_true, List.append_nil, hmicro, hnano, if_neg hpos, if_neg hsome, hlast]
  split
  · rw [List.append_nil]
  · split
    · rw [List.append_nil, hsix]
    · rw [← List.append_assoc, hsix, hnine]

theorem thousandths_lt {n m : Nat} (h : n < m) : thousandths n < thousandths m := by
  unfold thousandths
  simp only [List.cons_lt_cons_iff]
  omega

theorem fraction_lt {n m : Nat} (hm : m < 1000000000) (h : n < m) :
    fraction n ++ zone < fraction m ++ zone := by
  have hgroups : ∀ n < 1000000000, ∀ g ∈ thousandths n, g < 10 ^ 3 := by
    intro n hn g hg
    simp only [thousandths, List.mem_cons, List.not_mem_nil, or_false] at hg
    omega
  rw [fraction_eq_trimmed (Nat.ne_zero_of_lt h)]
  by_cases hn : n = 0
  · subst hn
    exact List.cons_lt_cons_iff.mpr (.inl (by decide))
  · rw [fraction_eq_trimmed hn]
    exact List.cons_lt_cons_iff.mpr (.inr ⟨rfl, trimmed_lt (by decide) plus_lt_digit _ rfl
      (hgroups n (h.trans hm)) (hgroups m hm) (thousandths_lt h)⟩)

namespace Reading

variable {r r' : Reading}

theorem InColumns.fits (h : r.InColumns) : Fits layout r.numbers := by
  have hyear : r.year.toNat < 10 ^ 4 := by
    have hnonneg := h.year_nonneg
    have hle := h.year_le
    omega
  exact .cons hyear (.cons h.month_lt (.cons h.day_lt (.cons h.hour_lt (.cons h.minute_lt
    (.cons h.second_lt .nil)))))

theorem InColumns.text_eq (h : r.InColumns) :
    r.text = String.ofList (columns layout r.numbers ++ (fraction r.nanosecond ++ zone)) :=
  if_pos ⟨h.year_nonneg, h.year_le⟩

/-- **Texts are ordered as readings.** -/
theorem text_lt (h : r.InColumns) (h' : r'.InColumns) (hbefore : r.Before r') :
    r.text < r'.text := by
  rw [h.text_eq, h'.text_eq, String.lt_iff_toList_lt, String.toList_ofList, String.toList_ofList]
  rcases hbefore with hlt | ⟨heq, hlt⟩
  · exact columns_lt h.fits h'.fits hlt _ _
  · rw [heq]
    exact List.append_left_lt (fraction_lt h'.nanosecond_lt hlt)

/-- A sign comes before every digit. -/
theorem signed_text_lt (hyear : r.year < 0) (h' : r'.InColumns) : r.text < r'.text := by
  have hnot : ¬ (0 ≤ r.year ∧ r.year ≤ 9999) := fun h => absurd h.1 (not_le.mpr hyear)
  have hminus : ∀ n, '-' < digit n := by
    intro n
    show ('-' : Char).toNat < (digit n).toNat
    rw [toNat_digit]
    exact Nat.lt_add_right _ (by decide)
  have htext : r.text = String.ofList (signedYear r.year ++
      ('-' :: columns layout.tail r.numbers.tail ++ (fraction r.nanosecond ++ zone))) := if_neg hnot
  rw [h'.text_eq, htext, String.lt_iff_toList_lt, String.toList_ofList, String.toList_ofList]
  unfold signedYear
  rw [if_pos hyear]
  exact List.cons_lt_cons_iff.mpr (.inl (hminus _))

end Reading

/-! ## Instants -/

/-- Nanoseconds of a day. -/
def dayNanos : Int := 86400000000000

def readingOf (t : Timestamp) : Reading :=
  let date := dateOf (t / dayNanos)
  let ofDay := (t % dayNanos).toNat
  { year := date.year
    month := date.month
    day := date.day
    hour := ofDay / 3600000000000
    minute := ofDay / 60000000000 % 60
    second := ofDay / 1000000000 % 60
    nanosecond := ofDay % 1000000000 }

/-- `to_rfc3339` of an instant -/
def rfc3339 (t : Timestamp) : String :=
  (readingOf t).text

def FourDigitYear (t : Timestamp) : Prop :=
  0 ≤ (readingOf t).year ∧ (readingOf t).year ≤ 9999

theorem readingOf_inColumns {t : Timestamp} (h : FourDigitYear t) : (readingOf t).InColumns := by
  have hvalid := dateOf_valid (t / dayNanos)
  have hofDay : (t % dayNanos).toNat < 86400000000000 := by
    unfold dayNanos
    omega
  refine ⟨h.1, h.2, ?_, ?_, ?_, ?_, ?_, ?_⟩
  · exact Nat.lt_of_le_of_lt hvalid.month_le (by decide)
  · exact Nat.lt_of_le_of_lt (hvalid.day_le.trans (daysInMonth_le _ _)) (by decide)
  · show (t % dayNanos).toNat / 3600000000000 < 100
    omega
  · exact (Nat.mod_lt _ (by decide)).trans (by decide)
  · exact (Nat.mod_lt _ (by decide)).trans (by decide)
  · exact Nat.mod_lt _ (by decide)

/-- A clock counts hours, minutes, seconds and nanoseconds in this order. -/
theorem clock_lt {n m : Nat} (h : n < m) :
    n / 3600000000000 < m / 3600000000000 ∨ n / 3600000000000 = m / 3600000000000 ∧
      (n / 60000000000 % 60 < m / 60000000000 % 60 ∨
        n / 60000000000 % 60 = m / 60000000000 % 60 ∧
          (n / 1000000000 % 60 < m / 1000000000 % 60 ∨
            n / 1000000000 % 60 = m / 1000000000 % 60 ∧ n % 1000000000 < m % 1000000000)) := by
  have hminutes : ∀ n, n / 60000000000 = n / 1000000000 / 60 := by omega
  have hhours : ∀ n, n / 3600000000000 = n / 1000000000 / 60 / 60 := by omega
  have hsplit : ∀ {k a b : Nat}, a < b → a / k < b / k ∨ a / k = b / k ∧ a % k < b % k := by
    intro k a b hab
    rcases (Nat.div_le_div_right hab.le).lt_or_eq with hlt | heq
    · exact .inl hlt
    · have ha := Nat.div_add_mod a k
      have hb := Nat.div_add_mod b k
      rw [heq] at ha
      exact .inr ⟨heq, by omega⟩
  rw [hhours, hhours, hminutes, hminutes]
  rcases hsplit (k := 1000000000) h with hseconds | ⟨hseconds, hnanos⟩
  · rcases hsplit (k := 60) hseconds with hminute | ⟨hminute, hsecond⟩
    · rcases hsplit (k := 60) hminute with hhour | ⟨hhour, hminute⟩
      · exact .inl hhour
      · exact .inr ⟨hhour, .inl hminute⟩
    · rw [hminute]
      exact .inr ⟨rfl, .inr ⟨rfl, .inl hsecond⟩⟩
  · rw [hseconds]
    exact .inr ⟨rfl, .inr ⟨rfl, .inr ⟨rfl, hnanos⟩⟩⟩

variable {s t : Timestamp}

/-- **Readings are ordered as instants.** -/
theorem readingOf_before (hs : FourDigitYear s) (hlt : s < t) :
    (readingOf s).Before (readingOf t) := by
  have hdays : ∀ a b : Int, a < b → a / dayNanos < b / dayNanos ∨
      a / dayNanos = b / dayNanos ∧ (a % dayNanos).toNat < (b % dayNanos).toNat := by
    unfold dayNanos
    omega
  unfold Reading.Before
  rcases hdays s t hlt with hday | ⟨hday, hofDay⟩
  · left
    have hkey := Date.key_lt_iff.mp (dateOf_strictMono hday)
    have hyear : 0 ≤ (dateOf (s / dayNanos)).year := hs.1
    simp only [Reading.numbers, readingOf, List.cons_lt_cons_iff, lt_self_iff_false, and_false,
      or_false]
    generalize dateOf (s / dayNanos) = date, dateOf (t / dayNanos) = date' at hkey hyear ⊢
    omega
  · have hclock := clock_lt hofDay
    simp only [Reading.numbers, readingOf, hday, List.cons_lt_cons_iff, List.cons.injEq, true_and,
      lt_self_iff_false, false_or, and_true, and_false, or_false]
    generalize (s % dayNanos).toNat = n, (t % dayNanos).toNat = m at hclock ⊢
    omega

theorem rfc3339_lt (hs : FourDigitYear s) (ht : FourDigitYear t) (h : s < t) :
    rfc3339 s < rfc3339 t :=
  Reading.text_lt (readingOf_inColumns hs) (readingOf_inColumns ht) (readingOf_before hs h)

theorem rfc3339_lt_iff (hs : FourDigitYear s) (ht : FourDigitYear t) :
    rfc3339 s < rfc3339 t ↔ s < t := by
  constructor
  · intro h
    by_contra hnot
    rcases (not_lt.mp hnot).lt_or_eq with hlt | heq
    · exact lt_asymm h (rfc3339_lt ht hs hlt)
    · rw [heq] at h
      exact lt_irrefl _ h
  · exact rfc3339_lt hs ht

theorem year_le_year (h : s ≤ t) : (readingOf s).year ≤ (readingOf t).year := by
  have hdays : s / dayNanos ≤ t / dayNanos := Int.ediv_le_ediv (by decide) h
  rcases hdays.lt_or_eq with hlt | heq
  · rcases Date.key_lt_iff.mp (dateOf_strictMono hlt) with hyear | ⟨hyear, -⟩
    · exact hyear.le
    · exact hyear.le
  · unfold readingOf
    rw [heq]

/-- The texts of `chrono`. -/
def chronoText : TimeText where
  rfc3339 := rfc3339
  fourDigitYear := FourDigitYear
  between _ _ _ hs hu hst htu := ⟨hs.1.trans (year_le_year hst), (year_le_year htu).trans hu.2⟩
  le_iff s t hs ht := by rw [← not_lt, rfc3339_lt_iff ht hs, not_lt]
  signed_lt s t hs ht hlt := by
    have hle : (readingOf s).year ≤ 9999 := (year_le_year hlt.le).trans ht.2
    have hyear : (readingOf s).year < 0 := not_le.mp fun hnonneg => hs ⟨hnonneg, hle⟩
    exact Reading.signed_text_lt hyear (readingOf_inColumns ht)

/-! ## Reading back -/

/-- The nanoseconds of a fraction and what follows it. -/
def readFraction : List Char → Nat
  | '.' :: cs =>
      let digits := cs.takeWhile Char.isDigit
      readDigits digits * 10 ^ (9 - digits.length)
  | _ => 0

def instantOf : List Nat → Nat → Option Timestamp
  | [year, month, day, hour, minute, second], nanosecond =>
      some (dayNumber ⟨year, month, day⟩ * dayNanos + (hour * 3600000000000 +
        minute * 60000000000 + second * 1000000000 + nanosecond : Nat))
  | _, _ => none

/-- `parse_from_rfc3339` on the texts that are stored. -/
def readBack (text : String) : Option Timestamp :=
  let read := readColumns layout text.toList
  instantOf read.1 (readFraction read.2)

theorem readFraction_fraction {nanosecond : Nat} (h : nanosecond < 1000000000) :
    readFraction (fraction nanosecond ++ zone) = nanosecond := by
  have hdigits : ∀ width n, n < 10 ^ width →
      readFraction ('.' :: fixedWidth width n ++ zone) = n * 10 ^ (9 - width) := by
    intro width n hn
    have htake : (fixedWidth width n ++ zone).takeWhile Char.isDigit = fixedWidth width n := by
      rw [List.takeWhile_append_of_pos fun c hc => isDigit_of_mem_fixedWidth hc]
      exact List.append_nil _
    show readDigits ((fixedWidth width n ++ zone).takeWhile Char.isDigit) * 10 ^
      (9 - ((fixedWidth width n ++ zone).takeWhile Char.isDigit).length) = _
    rw [htake, readDigits_fixedWidth hn, length_fixedWidth]
  unfold fraction
  split
  · rename_i hzero
    rw [hzero]
    rfl
  · split
    · rw [hdigits 3 _ (by omega)]
      omega
    · split
      · rw [hdigits 6 _ (by omega)]
        omega
      · rw [hdigits 9 _ h]
        omega

theorem readBack_rfc3339 {t : Timestamp} (h : FourDigitYear t) : readBack (rfc3339 t) = some t := by
  have hcolumns := readingOf_inColumns h
  have hdate : (⟨((readingOf t).year.toNat : Int), (readingOf t).month, (readingOf t).day⟩ : Date) =
      dateOf (t / dayNanos) := by
    rw [Int.toNat_of_nonneg h.1]
    rfl
  unfold readBack rfc3339
  rw [hcolumns.text_eq, String.toList_ofList, readColumns_columns hcolumns.fits]
  dsimp only
  rw [readFraction_fraction hcolumns.nanosecond_lt]
  show some (dayNumber ⟨((readingOf t).year.toNat : Int), (readingOf t).month,
    (readingOf t).day⟩ * dayNanos + _) = some t
  rw [hdate, dayNumber_dateOf, Option.some.injEq]
  have hparts : ∀ a : Int, a / dayNanos * dayNanos + ((a % dayNanos).toNat / 3600000000000 *
      3600000000000 + (a % dayNanos).toNat / 60000000000 % 60 * 60000000000 +
      (a % dayNanos).toNat / 1000000000 % 60 * 1000000000 +
      (a % dayNanos).toNat % 1000000000 : Nat) = a := by
    unfold dayNanos
    omega
  exact hparts t

/-! ## The queries by instants -/

/-- Every row holds an instant of the years 0 to 9999. -/
structure StoredYears (s : Cluster) (db : Sqlite.Database) : Prop where
  records : ∀ id record, s.backings.sqlite.statusRecords.lookup id = some record →
    FourDigitYear record.timestamp
  heartbeats : ∀ r row, s.rows.lookup r = some row →
    ∃ t, FourDigitYear t ∧ row.lastHeartbeat = rfc3339 t
  schedule : ∀ id t, db.autoPurgeSchedule.lookup id = some t → FourDigitYear t

/-- What `chrono` prints, with a parser. -/
def chronoClock (parse : String → Option Timestamp)
    (hparse : ∀ t, FourDigitYear t → parse (rfc3339 t) = some t) : ClockText :=
  { chronoText with parse := parse, parse_rfc3339 := hparse }

section ByInstant

variable (parse : String → Option Timestamp) (s : Cluster) (db : Sqlite.Database)
  (threshold : Timestamp)

def stalePendingSince : List InvocationId :=
  select s.backings.sqlite.statusRecords fun record =>
    decide (record.status = .pending) && decide (record.timestamp < threshold)

def staleRunningSince : List InvocationId :=
  select s.backings.sqlite.statusRecords fun record =>
    decide (record.status = .running) &&
      match record.runnerId.bind s.rows.lookup with
      | none => decide (record.timestamp < threshold)
      | some row => (parse row.lastHeartbeat).any fun t => decide (t < threshold)

/-- The last heartbeat is not before the threshold. -/
def aliveSince (row : HeartbeatRow) : Bool :=
  (parse row.lastHeartbeat).any fun t => decide (threshold ≤ t)

def activeRunnerIdsSince : List RunnerId :=
  (s.rows.entries.filter fun entry => aliveSince parse threshold entry.2).map Sigma.fst

def activeRunnersSince (canRun : Option Bool) : List ActiveRunnerInfo :=
  (s.rows.entries.filter fun entry => aliveSince parse threshold entry.2 &&
    canRun.all fun filter => entry.2.canRunAtomicService == filter).filterMap fun entry => do
      let creationTime ← parse entry.2.creationTime
      let lastHeartbeat ← parse entry.2.lastHeartbeat
      pure ⟨entry.1, creationTime, lastHeartbeat, entry.2.canRunAtomicService⟩

/-- What was scheduled until the threshold leaves the schedule and is removed. -/
def purgeSince (order : List InvocationId) : List InvocationId × Sqlite.Database :=
  let expired := (arrange order db.autoPurgeSchedule.keys).filter fun id =>
    (db.autoPurgeSchedule.lookup id).any fun scheduledAt => decide (scheduledAt ≤ threshold)
  let unscheduled := { db with
    autoPurgeSchedule := expired.foldl (fun rows id => rows.erase id) db.autoPurgeSchedule }
  (expired, expired.foldl Sqlite.Database.removeInvocation unscheduled)

end ByInstant

section Queries

variable {parse : String → Option Timestamp}
  (hparse : ∀ t, FourDigitYear t → parse (rfc3339 t) = some t)
  {s : Cluster} {db : Sqlite.Database} {now threshold t : Timestamp} {seconds : Nat}

/-- The cutoff does not lie after the present. -/
theorem le_now_of_cutoff (h : threshold ∈ cutoff now seconds) : threshold ≤ now := by
  by_cases hrange : InRange now seconds
  · rw [cutoff_eq_some hrange] at h
    obtain rfl := Option.some.inj h
    exact sub_le_self _ (span_nonneg seconds)
  · rw [cutoff_eq_none hrange] at h
    cases h

theorem text_lt_threshold (ht : FourDigitYear t) (hnow : FourDigitYear now)
    (hle : threshold ≤ now) :
    decide (rfc3339 t < rfc3339 threshold) = decide (t < threshold) :=
  decide_eq_decide.mpr (chronoText.text_lt_iff ht hnow hle)

theorem threshold_le_text (ht : FourDigitYear t) (hnow : FourDigitYear now)
    (hle : threshold ≤ now) :
    decide (rfc3339 threshold ≤ rfc3339 t) = decide (threshold ≤ t) :=
  decide_eq_decide.mpr (chronoText.le_text_iff ht hnow hle)

theorem text_le_threshold (ht : FourDigitYear t) (hnow : FourDigitYear now)
    (hle : threshold ≤ now) :
    decide (rfc3339 t ≤ rfc3339 threshold) = decide (t ≤ threshold) :=
  decide_eq_decide.mpr (chronoText.text_le_iff ht hnow hle)

/-- Checks that agree on the rows select the same ones. -/
theorem select_congr {table : Table InvocationId InvocationStatusRecord}
    {p q : InvocationStatusRecord → Bool}
    (h : ∀ id record, table.lookup id = some record → p record = q record) :
    select table p = select table q := by
  unfold select
  refine congrArg _ (List.filter_congr fun entry hentry => ?_)
  exact h entry.1 entry.2 (AList.mem_lookup_iff.mpr hentry)

section Stored

variable (h : StoredYears s db) (hnow : FourDigitYear now)

include h hnow

theorem sqliteStalePending_eq :
    sqliteStalePending (chronoClock parse hparse) s now seconds =
      (cutoff now seconds).map (stalePendingSince s) := by
  refine Option.map_congr fun threshold hcutoff => ?_
  refine select_congr fun id record hrecord => congrArg _ ?_
  exact text_lt_threshold (h.records id record hrecord) hnow (le_now_of_cutoff hcutoff)

theorem sqliteStaleRunning_eq :
    sqliteStaleRunning (chronoClock parse hparse) s now seconds =
      (cutoff now seconds).map (staleRunningSince parse s) := by
  refine Option.map_congr fun threshold hcutoff => ?_
  have hle := le_now_of_cutoff hcutoff
  refine select_congr fun id record hrecord => congrArg _ ?_
  cases hrow : record.runnerId.bind s.rows.lookup with
  | none => exact text_lt_threshold (h.records id record hrecord) hnow hle
  | some row =>
      obtain ⟨r, -, hlookup⟩ := Option.bind_eq_some_iff.mp hrow
      obtain ⟨t, ht, htext⟩ := h.heartbeats r row hlookup
      dsimp only
      rw [htext, hparse t ht]
      exact text_lt_threshold ht hnow hle

include hparse in
theorem aliveSince_eq {r : RunnerId} {row : HeartbeatRow} (hlookup : s.rows.lookup r = some row)
    (hle : threshold ≤ now) :
    decide (rfc3339 threshold ≤ row.lastHeartbeat) = aliveSince parse threshold row := by
  obtain ⟨t, ht, htext⟩ := h.heartbeats r row hlookup
  unfold aliveSince
  rw [htext, hparse t ht]
  exact threshold_le_text ht hnow hle

theorem sqliteActiveRunnerIds_eq :
    sqliteActiveRunnerIds (chronoClock parse hparse) s now seconds =
      (cutoff now seconds).map (activeRunnerIdsSince parse s) := by
  refine Option.map_congr fun threshold hcutoff => ?_
  refine congrArg _ (List.filter_congr fun entry hentry => ?_)
  exact aliveSince_eq hparse h hnow (AList.mem_lookup_iff.mpr hentry) (le_now_of_cutoff hcutoff)

theorem sqliteActiveRunners_eq (canRun : Option Bool) :
    sqliteActiveRunners (chronoClock parse hparse) s now seconds canRun =
      (cutoff now seconds).map fun threshold => activeRunnersSince parse s threshold canRun := by
  refine Option.map_congr fun threshold hcutoff => ?_
  refine congrArg _ (List.filter_congr fun entry hentry => ?_)
  exact congrArg (· && _)
    (aliveSince_eq hparse h hnow (AList.mem_lookup_iff.mpr hentry) (le_now_of_cutoff hcutoff))

theorem sqliteRunAutoPurge_eq (order : List InvocationId) :
    sqliteRunAutoPurge chronoText db order now seconds =
      (cutoff now seconds).map fun threshold => purgeSince db threshold order := by
  refine Option.map_congr fun threshold hcutoff => ?_
  have hexpired : ∀ id, ((db.autoPurgeSchedule.lookup id).any fun scheduledAt =>
        decide (rfc3339 scheduledAt ≤ rfc3339 threshold)) =
      (db.autoPurgeSchedule.lookup id).any fun scheduledAt => decide (scheduledAt ≤ threshold) := by
    intro id
    cases hscheduled : db.autoPurgeSchedule.lookup id with
    | none => rfl
    | some t => exact text_le_threshold (h.schedule id t hscheduled) hnow (le_now_of_cutoff hcutoff)
  unfold purgeSince
  simp only [← hexpired]
  rfl

end Stored

end Queries

/-- **Stored timestamps sort chronologically as texts.**  Of two instants of the years 0 to 9999
the text of the earlier one comes first; and where the rows hold such instants, every query that
compares texts with its cutoff answers as it would by comparing the instants. -/
theorem storedTimestamps_sort (parse : String → Option Timestamp)
    (hparse : ∀ t, FourDigitYear t → parse (rfc3339 t) = some t) :
    (∀ a b, FourDigitYear a → FourDigitYear b →
      (rfc3339 a < rfc3339 b ↔ a < b) ∧ (rfc3339 a = rfc3339 b ↔ a = b)) ∧
    ∀ (s : Cluster) (db : Sqlite.Database) (now : Timestamp) (seconds : Nat),
      StoredYears s db → FourDigitYear now →
        sqliteStalePending (chronoClock parse hparse) s now seconds =
          (cutoff now seconds).map (stalePendingSince s) ∧
        sqliteStaleRunning (chronoClock parse hparse) s now seconds =
          (cutoff now seconds).map (staleRunningSince parse s) ∧
        sqliteActiveRunnerIds (chronoClock parse hparse) s now seconds =
          (cutoff now seconds).map (activeRunnerIdsSince parse s) ∧
        (∀ canRun, sqliteActiveRunners (chronoClock parse hparse) s now seconds canRun =
          (cutoff now seconds).map fun threshold => activeRunnersSince parse s threshold canRun) ∧
        ∀ order, sqliteRunAutoPurge chronoText db order now seconds =
          (cutoff now seconds).map fun threshold => purgeSince db threshold order := by
  constructor
  · intro a b ha hb
    refine ⟨rfc3339_lt_iff ha hb, fun heq => ?_, fun heq => congrArg rfc3339 heq⟩
    exact Option.some.inj ((hparse a ha).symm.trans ((congrArg parse heq).trans (hparse b hb)))
  · intro s db now seconds h hnow
    exact ⟨sqliteStalePending_eq hparse h hnow, sqliteStaleRunning_eq hparse h hnow,
      sqliteActiveRunnerIds_eq hparse h hnow, sqliteActiveRunners_eq hparse h hnow,
      sqliteRunAutoPurge_eq h hnow⟩

/-- A runner that was heard from 1.5 s after midnight. -/
def heardFrom : Cluster :=
  { rows := AList.insert ⟨"main"⟩
      ⟨"1970-01-01T00:00:01.500+00:00", "1970-01-01T00:00:01.500+00:00", true⟩ ∅ }

/-- Asked at 3 s for the last second it counts as dead, and for the last two seconds as alive. -/
theorem storedTimestamps_sort_heartbeat :
    sqliteActiveRunnerIds (chronoClock readBack fun _ => readBack_rfc3339) heardFrom 3000000000 1 =
        some [] ∧
      sqliteActiveRunnerIds (chronoClock readBack fun _ => readBack_rfc3339) heardFrom 3000000000 2 =
        some [⟨"main"⟩] := by
  have hyear : FourDigitYear 3000000000 := by
    unfold FourDigitYear
    decide +kernel
  have hstored : StoredYears heardFrom {} := by
    refine ⟨nofun, ?_, nofun⟩
    intro r row hrow
    unfold heardFrom at hrow
    rw [lookup_insert_eq] at hrow
    split at hrow
    · cases hrow
      refine ⟨1500000000, ?_, ?_⟩
      · unfold FourDigitYear
        decide +kernel
      · decide +kernel
    · cases hrow
  have hsort := (storedTimestamps_sort readBack fun _ => readBack_rfc3339).2 heardFrom {} 3000000000
  constructor
  · rw [(hsort 1 hstored hyear).2.2.1]
    decide +kernel
  · rw [(hsort 2 hstored hyear).2.2.1]
    decide +kernel

example : rfc3339 1709210096120000000 = "2024-02-29T12:34:56.120+00:00" := by decide +kernel

/-- What `chrono` prints and reads back. -/
def storedClock : ClockText :=
  chronoClock readBack fun _ => readBack_rfc3339

/-- **Recovery queries are exact.**  After every run of heartbeats and status calls in the years
0 to 9999, in which only invocations that do not exist are registered, each backend lists exactly
the invocations pending since before the cutoff, the running ones whose owner was last heard from
before it, and the runners heard from since; in memory a heartbeat counts for another second. -/
theorem recoveryQueries_exact (fmt : Redis.StatusCas.RecordFormat) (calls : List LivenessCall)
    {s : Cluster} (horderly : OrderlyRun storedClock ∅ calls)
    (hrun : Cluster.run storedClock fmt {} calls = some s) {now : Timestamp}
    (hnow : FourDigitYear now) (seconds : Nat) (hrange : InRange now seconds) :
    let pending := PendingLong s now seconds
    let dead := OwnerDead s now seconds fun t => t < now - span seconds
    let alive := Alive s (fun t => now - span seconds ≤ t) fun _ => True
    let recent := fun t => now - t < span seconds + 1000000000
    Liveness.Lists (memStalePending s now seconds) pending ∧
      Liveness.Lists (sqliteStalePending storedClock s now seconds) pending ∧
      Liveness.Lists (redisStalePending s now seconds) pending ∧
      Liveness.Lists (memStaleRunning s now seconds)
        (OwnerDead s now seconds fun t => ¬ recent t) ∧
      Liveness.Lists (sqliteStaleRunning storedClock s now seconds) dead ∧
      Liveness.Lists (redisStaleRunning storedClock s now seconds) dead ∧
      Liveness.Lists (memActiveRunnerIds s now seconds) (Alive s recent fun _ => True) ∧
      Liveness.Lists (sqliteActiveRunnerIds storedClock s now seconds) alive ∧
      Liveness.Lists (redisActiveRunnerIds storedClock s now seconds) alive := by
  have h : Together storedClock s := together_empty.run horderly hrun
  exact ⟨memStalePending_lists h hrange, sqliteStalePending_lists h hnow hrange,
    redisStalePending_lists h hrange, memStaleRunning_lists h hrange,
    sqliteStaleRunning_lists h hnow hrange, redisStaleRunning_lists h hrange,
    memActiveRunnerIds_lists h, sqliteActiveRunnerIds_lists h hnow hrange,
    redisActiveRunnerIds_lists h hrange⟩

/-- A runner, and an invocation that it has claimed. -/
def claimedCalls : List LivenessCall :=
  [.status (.register 1000000000 ⟨"a"⟩ (sampleCall "f") none),
    .status (.setStatus 1200000000 ⟨"a"⟩ .pending (some ⟨"main"⟩)),
    .heartbeat 1500000000 ⟨"main"⟩ true]

/-- At 3.4 s and for a timeout of two seconds the runner, heard from at 1.5 s, is listed as active,
and the invocation, pending since 1.2 s, as stale. -/
theorem recoveryQueries_exact_claimed :
    ∃ s runners pending, Cluster.run storedClock Redis.StatusCas.plainFormat {} claimedCalls =
        some s ∧
      sqliteActiveRunnerIds storedClock s 3400000000 2 = some runners ∧ ⟨"main"⟩ ∈ runners ∧
      sqliteStalePending storedClock s 3400000000 2 = some pending ∧ ⟨"a"⟩ ∈ pending := by
  have hyears : FourDigitYear 1000000000 ∧ FourDigitYear 1200000000 ∧ FourDigitYear 1500000000 ∧
      FourDigitYear 3400000000 := by
    unfold FourDigitYear
    decide +kernel
  have hrange : InRange 3400000000 2 := by
    unfold InRange
    decide
  obtain ⟨-, ⟨pending, hpending, hstale⟩, -, -, -, -, -, ⟨runners, hrunners, hactive⟩, -⟩ :=
    recoveryQueries_exact Redis.StatusCas.plainFormat claimedCalls
      ⟨⟨hyears.1, by decide⟩, hyears.2.1, hyears.2.2.1, trivial⟩ rfl hyears.2.2.2 2 hrange
  exact ⟨_, runners, pending, rfl, hrunners,
    (hactive _).mpr ⟨1500000000, true, rfl, by decide, trivial⟩, hpending, (hstale _).mpr
      ⟨_, ⟨.pending, some ⟨"main"⟩, 1200000000⟩, rfl, rfl, by decide⟩⟩

end Rustvello.Backends.Rfc3339
