import Rustvello.Proto.Trigger
import Rustvello.Text.Escaping

/-!
# The JSON text of a filter determines the filter

`python_compatible_json` quotes strings, brackets arrays and objects and separates their
parts, so a text can be read in one way only.  Numbers are the exception to
self-delimitation: what follows one must not start with a digit, and what follows a value
here is a comma or a bracket.

* `Closed` — what may follow a value;
* `valueToPythonJson_inj` — a value and what follows it are determined by the text;
* `pythonCompatibleJson_inj` — hence so is a filter.

Floats are left out: their texts are chosen by another crate.
-/

namespace Rustvello.Proto

/-! ## Values -/

namespace JsonValue

/-- Induction with a hypothesis for every item and every member. -/
theorem induction {P : JsonValue → Prop} (hnull : P null) (hbool : ∀ b, P (bool b))
    (hnumber : ∀ n, P (number n)) (hstring : ∀ s, P (string s))
    (harray : ∀ items, (∀ item ∈ items, P item) → P (array items))
    (hobject : ∀ members, (∀ member ∈ members, P member.2) → P (object members))
    (value : JsonValue) : P value := by
  refine @JsonValue.rec P (fun items => ∀ item ∈ items, P item)
    (fun members => ∀ member ∈ members, P member.2) (fun member => P member.2) hnull hbool hnumber
    hstring (fun items ih => harray items ih) (fun members ih => hobject members ih) ?_ ?_ ?_ ?_
    (fun _ _ ih => ih) value
  · simp
  · intro item rest hitem hrest x hx
    rcases List.mem_cons.mp hx with rfl | hx
    · exact hitem
    · exact hrest x hx
  · simp
  · intro member rest hmember hrest x hx
    rcases List.mem_cons.mp hx with rfl | hx
    · exact hmember
    · exact hrest x hx

mutual

/-- No number in the value is a float. -/
def floatFree : JsonValue → Bool
  | number (.float _) => false
  | array items => floatFreeItems items
  | object members => floatFreeMembers members
  | _ => true

def floatFreeItems : List JsonValue → Bool
  | [] => true
  | item :: rest => floatFree item && floatFreeItems rest

def floatFreeMembers : List (String × JsonValue) → Bool
  | [] => true
  | (_, value) :: rest => floatFree value && floatFreeMembers rest

end

end JsonValue

/-! ## Strings -/

theorem pythonEscape_cases (c : Char) :
    (c = '\\' ∧ pythonEscape c = ['\\', '\\']) ∨ (c = '"' ∧ pythonEscape c = ['\\', '"']) ∨
      (c ≠ '\\' ∧ c ≠ '"' ∧ pythonEscape c = [c]) := by
  by_cases hslash : c = '\\'
  · exact .inl ⟨hslash, by simp [pythonEscape, hslash]⟩
  · by_cases hquote : c = '"'
    · exact .inr (.inl ⟨hquote, by simp [pythonEscape, hquote]⟩)
    · exact .inr (.inr ⟨hslash, hquote, by simp [pythonEscape, hslash, hquote]⟩)

/-- No escaped character starts with a bare quote. -/
theorem pythonEscape_append_ne_quote (c : Char) (x y : List Char) :
    pythonEscape c ++ x ≠ '"' :: y := by
  obtain ⟨_, hc⟩ | ⟨_, hc⟩ | ⟨_, hquote, hc⟩ := pythonEscape_cases c
  · simp [hc]
  · simp [hc]
  · simp [hc, hquote]

/-- Escaped characters are told apart by how they start. -/
theorem pythonEscape_append_inj {c d : Char} {x y : List Char}
    (h : pythonEscape c ++ x = pythonEscape d ++ y) : c = d ∧ x = y := by
  obtain ⟨hc, hc'⟩ | ⟨hc, hc'⟩ | ⟨hslash, _, hc'⟩ := pythonEscape_cases c <;>
    obtain ⟨hd, hd'⟩ | ⟨hd, hd'⟩ | ⟨hslash', _, hd'⟩ := pythonEscape_cases d <;>
    simp only [hc', hd', List.cons_append, List.nil_append, List.cons.injEq, true_and] at h
  · exact ⟨hc.trans hd.symm, h⟩
  · exact absurd h.1 (by decide)
  · exact absurd h.1.symm hslash'
  · exact absurd h.1 (by decide)
  · exact ⟨hc.trans hd.symm, h⟩
  · exact absurd h.1.symm hslash'
  · exact absurd h.1 hslash
  · exact absurd h.1 hslash
  · exact h

/-- Inside a string a quote is escaped, so the first bare quote ends it. -/
theorem pythonEscape_readable : Text.Readable pythonEscape '"' where
  apart := pythonEscape_append_inj
  unmarked := pythonEscape_append_ne_quote

theorem pythonString_inj {s t : String} {r r' : List Char}
    (h : pythonString s ++ r = pythonString t ++ r') : s = t ∧ r = r' := by
  have hinner : s.toList.flatMap pythonEscape ++ '"' :: r =
      t.toList.flatMap pythonEscape ++ '"' :: r' := by
    simpa [pythonString] using h
  obtain ⟨hchars, hrest⟩ := pythonEscape_readable.flatMap_inj hinner
  exact ⟨String.toList_inj.mp hchars, hrest⟩

/-! ## Numbers -/

/-- What may follow a value: nothing, or a text that does not go on with a digit. -/
def Closed (r : List Char) : Prop :=
  ∀ c ∈ r.head?, c.isDigit = false

theorem closed_nil : Closed [] := by
  simp [Closed]

theorem closed_cons {c : Char} (h : c.isDigit = false) (r : List Char) : Closed (c :: r) := by
  simpa [Closed] using h

theorem digits_inj {ds es r r' : List Char} (hds : ∀ c ∈ ds, c.isDigit = true)
    (hes : ∀ c ∈ es, c.isDigit = true) (hr : Closed r) (hr' : Closed r')
    (h : ds ++ r = es ++ r') : ds = es ∧ r = r' := by
  have hstop : ∀ {x : List Char}, Closed x → x.takeWhile Char.isDigit = [] := by
    intro x hx
    cases x with
    | nil => rfl
    | cons c rest =>
        have hc : c.isDigit = false := hx c (by simp)
        simp [hc]
  have htake := congrArg (List.takeWhile Char.isDigit) h
  rw [List.takeWhile_append_of_pos hds, List.takeWhile_append_of_pos hes, hstop hr, hstop hr',
    List.append_nil, List.append_nil] at htake
  subst htake
  exact ⟨rfl, List.append_cancel_left h⟩

theorem toDigits_inj {m n : Nat} (h : Nat.toDigits 10 m = Nat.toDigits 10 n) : m = n := by
  rw [← Nat.ofDigitChars_ten_toDigits (n := m), ← Nat.ofDigitChars_ten_toDigits (n := n), h]

theorem isDigit_toDigits (n : Nat) : ∀ c ∈ Nat.toDigits 10 n, c.isDigit = true :=
  fun _ hc => Nat.isDigit_of_mem_toDigits (by omega) (by omega) hc

/-- A number that does not start with a minus sign starts with a digit. -/
theorem toDigits_append_ne_minus (n : Nat) (r r' : List Char) :
    Nat.toDigits 10 n ++ r ≠ '-' :: r' := by
  intro h
  cases hdigits : Nat.toDigits 10 n with
  | nil => exact Nat.toDigits_ne_nil hdigits
  | cons d ds =>
      rw [hdigits, List.cons_append, List.cons.injEq] at h
      have hdigit := isDigit_toDigits n d (by simp [hdigits])
      rw [h.1] at hdigit
      exact absurd hdigit (by decide)

theorem decimal_inj {m n : Int} {r r' : List Char} (hr : Closed r) (hr' : Closed r')
    (h : decimal m ++ r = decimal n ++ r') : m = n ∧ r = r' := by
  unfold decimal at h
  split at h <;> split at h
  · simp only [List.cons_append, List.cons.injEq, true_and] at h
    obtain ⟨hdigits, hrest⟩ := digits_inj (isDigit_toDigits _) (isDigit_toDigits _) hr hr' h
    have habs := toDigits_inj hdigits
    exact ⟨by omega, hrest⟩
  · exact absurd h.symm (toDigits_append_ne_minus _ _ _)
  · exact absurd h (toDigits_append_ne_minus _ _ _)
  · obtain ⟨hdigits, hrest⟩ := digits_inj (isDigit_toDigits _) (isDigit_toDigits _) hr hr' h
    have habs := toDigits_inj hdigits
    exact ⟨by omega, hrest⟩

/-! ## Arrays and objects -/

section Values

variable (codec : Codec) {r r' : List Char} {as : List (String × JsonValue)}
  {bs : List (String × JsonValue)}

/-- The items after the first, each with its separator. -/
def moreItems : List JsonValue → List Char
  | [] => []
  | item :: rest => ", ".toList ++ valueToPythonJson codec item ++ moreItems rest

/-- The members after the first, each with its separator. -/
def moreMembers : List (String × JsonValue) → List Char
  | [] => []
  | (key, value) :: rest =>
      ", ".toList ++ (pythonString key ++ ": ".toList ++ valueToPythonJson codec value) ++
        moreMembers rest

theorem itemTexts_cons (item : JsonValue) (rest : List JsonValue) :
    ", ".toList.intercalate (itemTexts codec (item :: rest)) =
      valueToPythonJson codec item ++ moreItems codec rest := by
  induction rest generalizing item with
  | nil => simp [itemTexts, moreItems]
  | cons next rest ih =>
      have hnext := ih next
      simp only [itemTexts] at hnext ⊢
      rw [List.intercalate_cons_cons, hnext]
      simp [moreItems]

theorem memberTexts_cons (key : String) (value : JsonValue) (rest : List (String × JsonValue)) :
    ", ".toList.intercalate (memberTexts codec ((key, value) :: rest)) =
      pythonString key ++ ": ".toList ++ valueToPythonJson codec value ++
        moreMembers codec rest := by
  induction rest generalizing key value with
  | nil => simp [memberTexts, moreMembers]
  | cons next rest ih =>
      obtain ⟨nextKey, nextValue⟩ := next
      have hnext := ih nextKey nextValue
      simp only [memberTexts] at hnext ⊢
      rw [List.intercalate_cons_cons, hnext]
      simp [moreMembers]

theorem closed_moreItems (items : List JsonValue) (r : List Char) :
    Closed (moreItems codec items ++ ']' :: r) := by
  cases items with
  | nil => exact closed_cons (by decide) _
  | cons item rest => simp [moreItems, Closed]

theorem closed_moreMembers (members : List (String × JsonValue)) (r : List Char) :
    Closed (moreMembers codec members ++ '}' :: r) := by
  cases members with
  | nil => exact closed_cons (by decide) _
  | cons member rest => simp [moreMembers, Closed]

/-- The text of a value determines it and what follows it. -/
def Determined (a : JsonValue) : Prop :=
  ∀ b r r', a.floatFree = true → b.floatFree = true → Closed r → Closed r' →
    valueToPythonJson codec a ++ r = valueToPythonJson codec b ++ r' → a = b ∧ r = r'

theorem moreItems_inj {as : List JsonValue} (hdet : ∀ a ∈ as, Determined codec a)
    (hfree : JsonValue.floatFreeItems as = true) {bs : List JsonValue}
    (hfree' : JsonValue.floatFreeItems bs = true)
    (h : moreItems codec as ++ ']' :: r = moreItems codec bs ++ ']' :: r') :
    as = bs ∧ r = r' := by
  induction as generalizing bs with
  | nil =>
      cases bs with
      | nil => simpa [moreItems] using h
      | cons b bs => simp [moreItems] at h
  | cons a as ih =>
      cases bs with
      | nil => simp [moreItems] at h
      | cons b bs =>
          simp only [JsonValue.floatFreeItems, Bool.and_eq_true] at hfree hfree'
          simp only [moreItems, List.append_assoc] at h
          have hvalues := List.append_cancel_left h
          obtain ⟨rfl, hrest⟩ := hdet a (by simp) b _ _ hfree.1 hfree'.1
            (closed_moreItems codec as r) (closed_moreItems codec bs r') hvalues
          obtain ⟨rfl, rfl⟩ := ih (fun x hx => hdet x (by simp [hx])) hfree.2 hfree'.2 hrest
          exact ⟨rfl, rfl⟩

theorem member_inj {k l : String} {a b : JsonValue} (hdet : Determined codec a)
    (hfree : a.floatFree = true) (hfree' : b.floatFree = true) (hr : Closed r) (hr' : Closed r')
    (h : pythonString k ++ ": ".toList ++ valueToPythonJson codec a ++ r =
      pythonString l ++ ": ".toList ++ valueToPythonJson codec b ++ r') :
    (k = l ∧ a = b) ∧ r = r' := by
  simp only [List.append_assoc] at h
  obtain ⟨rfl, hrest⟩ := pythonString_inj h
  obtain ⟨rfl, rfl⟩ := hdet b r r' hfree hfree' hr hr' (List.append_cancel_left hrest)
  exact ⟨⟨rfl, rfl⟩, rfl⟩

theorem moreMembers_inj (hdet : ∀ a ∈ as, Determined codec a.2)
    (hfree : JsonValue.floatFreeMembers as = true) (hfree' : JsonValue.floatFreeMembers bs = true)
    (h : moreMembers codec as ++ '}' :: r = moreMembers codec bs ++ '}' :: r') :
    as = bs ∧ r = r' := by
  induction as generalizing bs with
  | nil =>
      cases bs with
      | nil => simpa [moreMembers] using h
      | cons b bs => simp [moreMembers] at h
  | cons a as ih =>
      cases bs with
      | nil => simp [moreMembers] at h
      | cons b bs =>
          obtain ⟨k, a⟩ := a
          obtain ⟨l, b⟩ := b
          simp only [JsonValue.floatFreeMembers, Bool.and_eq_true] at hfree hfree'
          have hmembers : pythonString k ++ ": ".toList ++ valueToPythonJson codec a ++
              (moreMembers codec as ++ '}' :: r) = pythonString l ++ ": ".toList ++
                valueToPythonJson codec b ++ (moreMembers codec bs ++ '}' :: r') := by
            simp only [moreMembers, List.append_assoc] at h ⊢
            exact List.append_cancel_left h
          obtain ⟨⟨rfl, rfl⟩, hrest⟩ := member_inj codec (hdet (k, a) (by simp)) hfree.1 hfree'.1
            (closed_moreMembers codec as r) (closed_moreMembers codec bs r') hmembers
          obtain ⟨rfl, rfl⟩ := ih (fun x hx => hdet x (by simp [hx])) hfree.2 hfree'.2 hrest
          exact ⟨rfl, rfl⟩

/-- The kinds of value that a first character tells apart. -/
inductive Kind where
  | null | bool | number | string | array | object
deriving DecidableEq

def kindOf : JsonValue → Kind
  | .null => .null
  | .bool _ => .bool
  | .number _ => .number
  | .string _ => .string
  | .array _ => .array
  | .object _ => .object

def kindOfChar (c : Char) : Option Kind :=
  if c = 'n' then some .null
  else if c = 't' ∨ c = 'f' then some .bool
  else if c = '"' then some .string
  else if c = '[' then some .array
  else if c = '{' then some .object
  else if c = '-' ∨ c.isDigit then some .number
  else none

theorem kindOfChar_of_isDigit {c : Char} (h : c.isDigit = true) :
    kindOfChar c = some .number := by
  have hne : ∀ d : Char, d.isDigit = false → c ≠ d := by
    rintro d hd rfl
    exact absurd h (by simp [hd])
  simp [kindOfChar, hne 'n' (by decide), hne 't' (by decide), hne 'f' (by decide),
    hne '"' (by decide), hne '[' (by decide), hne '{' (by decide), h]

theorem decimal_head (n : Int) :
    ∃ c rest, decimal n = c :: rest ∧ kindOfChar c = some .number := by
  unfold decimal
  split
  · exact ⟨'-', _, rfl, by decide⟩
  · cases hdigits : Nat.toDigits 10 n.natAbs with
    | nil => exact absurd hdigits Nat.toDigits_ne_nil
    | cons d ds =>
        have hdigit := isDigit_toDigits n.natAbs d (by simp [hdigits])
        exact ⟨d, ds, rfl, kindOfChar_of_isDigit hdigit⟩

theorem value_head (a : JsonValue) (hfree : a.floatFree = true) :
    ∃ c rest, valueToPythonJson codec a = c :: rest ∧ kindOfChar c = some (kindOf a) := by
  cases a with
  | null => exact ⟨'n', _, rfl, rfl⟩
  | bool b =>
      cases b with
      | false => exact ⟨'f', _, rfl, rfl⟩
      | true => exact ⟨'t', _, rfl, rfl⟩
  | number n =>
      cases n with
      | int n => exact decimal_head n
      | float x => exact absurd hfree (by simp [JsonValue.floatFree])
  | string s => exact ⟨'"', _, rfl, rfl⟩
  | array items => exact ⟨'[', _, rfl, rfl⟩
  | object members => exact ⟨'{', _, rfl, rfl⟩

theorem kind_eq {a b : JsonValue} (hfree : a.floatFree = true) (hfree' : b.floatFree = true)
    (h : valueToPythonJson codec a ++ r = valueToPythonJson codec b ++ r') :
    kindOf a = kindOf b := by
  obtain ⟨c, rest, ha, hkind⟩ := value_head codec a hfree
  obtain ⟨d, rest', hb, hkind'⟩ := value_head codec b hfree'
  rw [ha, hb, List.cons_append, List.cons_append, List.cons.injEq] at h
  rw [h.1] at hkind
  exact Option.some.inj (hkind.symm.trans hkind')

/-- A first item is not the end of the array. -/
theorem itemTexts_cons_ne_bracket {item : JsonValue} {rest : List JsonValue}
    (hfree : JsonValue.floatFreeItems (item :: rest) = true) (r r' : List Char) :
    ", ".toList.intercalate (itemTexts codec (item :: rest)) ++ r ≠ ']' :: r' := by
  intro h
  simp only [JsonValue.floatFreeItems, Bool.and_eq_true] at hfree
  obtain ⟨c, text, hc, hkind⟩ := value_head codec item hfree.1
  rw [itemTexts_cons, hc] at h
  have hbracket : c = ']' := by
    simp only [List.cons_append, List.cons.injEq] at h
    exact h.1
  rw [hbracket] at hkind
  exact absurd hkind (by simp [kindOfChar])

theorem items_inj {as : List JsonValue} (hdet : ∀ a ∈ as, Determined codec a)
    (hfree : JsonValue.floatFreeItems as = true) {bs : List JsonValue}
    (hfree' : JsonValue.floatFreeItems bs = true)
    (h : ", ".toList.intercalate (itemTexts codec as) ++ ']' :: r =
      ", ".toList.intercalate (itemTexts codec bs) ++ ']' :: r') :
    as = bs ∧ r = r' := by
  cases as with
  | nil =>
      cases bs with
      | nil => simpa [itemTexts] using h
      | cons b bs => exact absurd h.symm (itemTexts_cons_ne_bracket codec hfree' _ _)
  | cons a as =>
      cases bs with
      | nil => exact absurd h (itemTexts_cons_ne_bracket codec hfree _ _)
      | cons b bs =>
          -- the same comparison as after a separator
          refine moreItems_inj codec hdet hfree hfree' ?_
          rw [itemTexts_cons, itemTexts_cons] at h
          simp only [moreItems, List.append_assoc] at h ⊢
          rw [h]

theorem members_inj (hdet : ∀ a ∈ as, Determined codec a.2)
    (hfree : JsonValue.floatFreeMembers as = true) (hfree' : JsonValue.floatFreeMembers bs = true)
    (h : ", ".toList.intercalate (memberTexts codec as) ++ '}' :: r =
      ", ".toList.intercalate (memberTexts codec bs) ++ '}' :: r') :
    as = bs ∧ r = r' := by
  cases as with
  | nil =>
      cases bs with
      | nil => simpa [memberTexts] using h
      | cons b bs =>
          rw [memberTexts_cons] at h
          simp [memberTexts, pythonString] at h
  | cons a as =>
      cases bs with
      | nil =>
          rw [memberTexts_cons] at h
          simp [memberTexts, pythonString] at h
      | cons b bs =>
          refine moreMembers_inj codec hdet hfree hfree' ?_
          rw [memberTexts_cons, memberTexts_cons] at h
          simp only [moreMembers, List.append_assoc] at h ⊢
          rw [h]

/-- The text of a value without floats determines the value and what follows it. -/
theorem valueToPythonJson_inj (a : JsonValue) : Determined codec a := by
  induction a using JsonValue.induction with
  | hnull =>
      intro b r r' hfree hfree' _ _ h
      have hkind := kind_eq codec hfree hfree' h
      cases b with
      | null => exact ⟨rfl, List.append_cancel_left h⟩
      | _ => simp [kindOf] at hkind
  | hbool value =>
      intro b r r' hfree hfree' _ _ h
      have hkind := kind_eq codec hfree hfree' h
      cases b with
      | bool other =>
          cases value <;> cases other <;> simp [valueToPythonJson] at h
          · exact ⟨rfl, h⟩
          · exact ⟨rfl, h⟩
      | _ => simp [kindOf] at hkind
  | hnumber n =>
      intro b r r' hfree hfree' hr hr' h
      have hkind := kind_eq codec hfree hfree' h
      cases b with
      | number m =>
          cases n with
          | float x => simp [JsonValue.floatFree] at hfree
          | int n =>
              cases m with
              | float x => simp [JsonValue.floatFree] at hfree'
              | int m =>
                  obtain ⟨rfl, hrest⟩ := decimal_inj hr hr' h
                  exact ⟨rfl, hrest⟩
      | _ => simp [kindOf] at hkind
  | hstring s =>
      intro b r r' hfree hfree' _ _ h
      have hkind := kind_eq codec hfree hfree' h
      cases b with
      | string t =>
          obtain ⟨rfl, hrest⟩ := pythonString_inj h
          exact ⟨rfl, hrest⟩
      | _ => simp [kindOf] at hkind
  | harray items ih =>
      intro b r r' hfree hfree' _ _ h
      have hkind := kind_eq codec hfree hfree' h
      cases b with
      | array others =>
          simp only [JsonValue.floatFree] at hfree hfree'
          simp only [valueToPythonJson, List.cons_append, List.append_assoc, List.cons.injEq,
            true_and, List.nil_append] at h
          obtain ⟨rfl, hrest⟩ := items_inj codec ih hfree hfree' h
          exact ⟨rfl, hrest⟩
      | _ => simp [kindOf] at hkind
  | hobject members ih =>
      intro b r r' hfree hfree' _ _ h
      have hkind := kind_eq codec hfree hfree' h
      cases b with
      | object others =>
          simp only [JsonValue.floatFree] at hfree hfree'
          simp only [valueToPythonJson, List.cons_append, List.append_assoc, List.cons.injEq,
            true_and, List.nil_append] at h
          obtain ⟨rfl, hrest⟩ := members_inj codec ih hfree hfree' h
          exact ⟨rfl, hrest⟩
      | _ => simp [kindOf] at hkind

/-- A filter is written as the object of its members. -/
theorem pythonCompatibleJson_inj {f g : Filter} (hfree : JsonValue.floatFreeMembers f = true)
    (hfree' : JsonValue.floatFreeMembers g = true)
    (h : pythonCompatibleJson codec f = pythonCompatibleJson codec g) : f = g := by
  have hobject : valueToPythonJson codec (.object f) ++ [] =
      valueToPythonJson codec (.object g) ++ [] := by
    simpa [valueToPythonJson, pythonCompatibleJson] using h
  have heq := (valueToPythonJson_inj codec (.object f) (.object g) [] []
    (by simpa [JsonValue.floatFree] using hfree) (by simpa [JsonValue.floatFree] using hfree')
    closed_nil closed_nil hobject).1
  exact JsonValue.object.inj heq

end Values

end Rustvello.Proto
