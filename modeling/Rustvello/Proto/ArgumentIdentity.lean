import Rustvello.Proto.Identifiers
import Mathlib.Data.List.AList
import Mathlib.Tactic.IntervalCases

/-!
# Arguments and the text that names them

`compute_args_id` digests every pair of the arguments as `"key"="value";`, keys and values
in JSON quotes.  A quoted text ends at its first bare quote, so the pairs can be read off the
digested text, and the digest names the arguments.

* `jsonEscapeChar_readable` — a JSON literal and what follows it are determined;
* `digestInput_inj`, `computeArgsId_inj` — different arguments, different ids;
* `CallTable` — the calls a state backend keeps, under the text of their ids;
* `arguments_identified` — what the table returns for a call has the call's arguments.

Whatever the tasks of two calls are, the text of a call id determines the arguments.
-/

namespace Rustvello.Proto

open SerializedArguments

/-! ## JSON literals -/

/-- The value of a lower-case hexadecimal digit. -/
def hexValue (c : Char) : Nat :=
  if c.toNat < 58 then c.toNat - 48 else c.toNat - 87

/-- The character a letter after a backslash stands for. -/
def unescape (c : Char) : Char :=
  if c = 'b' then Char.ofNat 8
  else if c = 't' then Char.ofNat 9
  else if c = 'n' then Char.ofNat 10
  else if c = 'f' then Char.ofNat 12
  else if c = 'r' then Char.ofNat 13
  else c

/-- Read the character a literal goes on with. -/
def readChar : List Char → Option (Char × List Char)
  | [] => none
  | c :: rest =>
      if c ≠ '\\' then some (c, rest)
      else match rest with
        | 'u' :: _ :: _ :: high :: low :: rest =>
            some (Char.ofNat (16 * hexValue high + hexValue low), rest)
        | e :: rest => some (unescape e, rest)
        | [] => none

/-- A character is written as it is, or is a quote, a backslash or a control character. -/
theorem jsonEscapeChar_cases (c : Char) :
    (c = '"' ∨ c = '\\' ∨ c.toNat < 32) ∨ (c ≠ '"' ∧ c ≠ '\\' ∧ jsonEscapeChar c = [c]) := by
  by_cases hquote : c = '"'
  · exact .inl (.inl hquote)
  by_cases hslash : c = '\\'
  · exact .inl (.inr (.inl hslash))
  by_cases hcontrol : c.toNat < 32
  · exact .inl (.inr (.inr hcontrol))
  refine .inr ⟨hquote, hslash, ?_⟩
  have hne : ∀ d : Char, d.toNat < 32 → c ≠ d := by
    rintro d hd rfl
    exact hcontrol hd
  unfold jsonEscapeChar
  rw [if_neg hquote, if_neg hslash, if_neg (hne _ (by decide)), if_neg (hne _ (by decide)),
    if_neg (hne _ (by decide)), if_neg (hne _ (by decide)), if_neg (hne _ (by decide)),
    if_neg hcontrol]

/-- The control characters, one by one. -/
theorem readChar_control (n : Nat) (hn : n < 32) (x : List Char) :
    readChar (jsonEscapeChar (Char.ofNat n) ++ x) = some (Char.ofNat n, x) := by
  interval_cases n <;> rfl

theorem readChar_escaped (c : Char) (x : List Char) :
    readChar (jsonEscapeChar c ++ x) = some (c, x) := by
  rcases jsonEscapeChar_cases c with (rfl | rfl | hcontrol) | ⟨-, hslash, hraw⟩
  · rfl
  · rfl
  · simpa using readChar_control c.toNat hcontrol x
  · rw [hraw]
    exact if_pos hslash

/-- No code starts with a bare quote. -/
theorem jsonEscapeChar_append_ne_quote (c : Char) (x y : List Char) :
    jsonEscapeChar c ++ x ≠ '"' :: y := by
  intro h
  have hread := readChar_escaped c x
  rw [h] at hread
  have hc : '"' = c := congrArg Prod.fst (Option.some.inj hread)
  subst hc
  exact absurd h (by simp [jsonEscapeChar])

/-- Inside a JSON literal codes are told apart by how they start. -/
theorem jsonEscapeChar_readable : Text.Readable jsonEscapeChar '"' where
  apart {c d x y} h := by
    have hread := readChar_escaped c x
    rw [h, readChar_escaped] at hread
    obtain ⟨rfl, rfl⟩ := Prod.mk.inj (Option.some.inj hread)
    exact ⟨rfl, rfl⟩
  unmarked := jsonEscapeChar_append_ne_quote

theorem jsonString_inj {s t : String} {r r' : List Char}
    (h : jsonString s ++ r = jsonString t ++ r') : s = t ∧ r = r' := by
  have hinner : s.toList.flatMap jsonEscapeChar ++ '"' :: r =
      t.toList.flatMap jsonEscapeChar ++ '"' :: r' := by
    simpa [jsonString] using h
  obtain ⟨hchars, hrest⟩ := jsonEscapeChar_readable.flatMap_inj hinner
  exact ⟨String.toList_inj.mp hchars, hrest⟩

/-! ## Digested texts -/

/-- One pair of the digested text. -/
def digestEntry (entry : String × String) : List Char :=
  jsonString entry.1 ++ '=' :: jsonString entry.2 ++ [';']

theorem digestEntry_inj {e f : String × String} {r r' : List Char}
    (h : digestEntry e ++ r = digestEntry f ++ r') : e = f ∧ r = r' := by
  obtain ⟨k, v⟩ := e
  obtain ⟨l, w⟩ := f
  simp only [digestEntry, List.append_assoc, List.cons_append] at h
  obtain ⟨rfl, htail⟩ := jsonString_inj h
  obtain ⟨rfl, hend⟩ := jsonString_inj (List.cons.inj htail).2
  exact ⟨rfl, (List.cons.inj hend).2⟩

theorem digestEntry_ne_nil (e : String × String) (r : List Char) : digestEntry e ++ r ≠ [] := by
  simp [digestEntry, jsonString]

/-- The pairs are read off one after the other. -/
theorem digestEntries_inj {es fs : List (String × String)}
    (h : es.flatMap digestEntry = fs.flatMap digestEntry) : es = fs := by
  induction es generalizing fs with
  | nil =>
      cases fs with
      | nil => rfl
      | cons f fs => exact absurd h.symm (digestEntry_ne_nil f _)
  | cons e es ih =>
      cases fs with
      | nil => exact absurd h (digestEntry_ne_nil e _)
      | cons f fs =>
          rw [List.flatMap_cons, List.flatMap_cons] at h
          obtain ⟨rfl, hrest⟩ := digestEntry_inj h
          rw [ih hrest]

theorem digestInput_inj {a b : SerializedArguments} (h : a.digestInput = b.digestInput) :
    a = b := by
  have hentries : a.entries = b.entries := digestEntries_inj h
  obtain ⟨_, _⟩ := a
  obtain ⟨_, _⟩ := b
  cases hentries
  rfl

/-! ## Digests -/

/-- The hexadecimal SHA-256 of a text, as a string. -/
def sha256Text (sha256 : List Char → List UInt8) (text : List Char) : String :=
  String.ofList (Packed.lowerHex (sha256 text))

theorem hexDigit_inj : ∀ m < 16, ∀ n < 16, hexDigit m = hexDigit n → m = n := by
  decide

theorem lowerHex_inj {xs ys : List UInt8} (h : Packed.lowerHex xs = Packed.lowerHex ys) :
    xs = ys := by
  induction xs generalizing ys with
  | nil =>
      cases ys with
      | nil => rfl
      | cons y ys => simp [Packed.lowerHex] at h
  | cons x xs ih =>
      cases ys with
      | nil => simp [Packed.lowerHex] at h
      | cons y ys =>
          simp only [Packed.lowerHex, List.flatMap_cons, List.cons_append, List.nil_append,
            List.cons.injEq] at h
          have hx := x.toNat_lt
          have hy := y.toNat_lt
          have hhigh := hexDigit_inj _ (by omega) _ (by omega) h.1
          have hlow := hexDigit_inj _ (by omega) _ (by omega) h.2.1
          have hbyte : x = y := UInt8.toNat_inj.mp (by omega)
          rw [hbyte, ih h.2.2]

/-- The name of the empty arguments is no digest. -/
theorem sha256Text_ne_noArgs (sha256 : List Char → List UInt8) (text : List Char) :
    sha256Text sha256 text ≠ "no_args" := by
  intro h
  have hletter : 'n' ∈ (sha256Text sha256 text).toList := by
    rw [h]
    decide
  rw [sha256Text, String.toList_ofList] at hletter
  exact Packed.notMem_lowerHex (by decide) _ hletter

section Identity

variable {sha256 : List Char → List UInt8}

theorem computeArgsId_inj (hinj : Function.Injective sha256) {a b : SerializedArguments}
    (h : a.computeArgsId (sha256Text sha256) = b.computeArgsId (sha256Text sha256)) : a = b := by
  unfold computeArgsId at h
  split at h <;> split at h
  · rename_i ha hb
    obtain ⟨_, _⟩ := a
    obtain ⟨_, _⟩ := b
    cases List.isEmpty_iff.mp ha
    cases List.isEmpty_iff.mp hb
    rfl
  · exact absurd h.symm (sha256Text_ne_noArgs _ _)
  · exact absurd h (sha256Text_ne_noArgs _ _)
  · exact digestInput_inj (hinj (lowerHex_inj (String.ofList_injective h)))

theorem colon_notMem_computeArgsId (args : SerializedArguments) :
    ':' ∉ (args.computeArgsId (sha256Text sha256)).toList := by
  unfold computeArgsId
  split
  · decide
  · rw [sha256Text, String.toList_ofList]
    exact Packed.colon_notMem_lowerHex _

/-- The last colon of a call's text is the one before its digest. -/
theorem argsId_of_toText {c d : CallId} (hc : ':' ∉ c.argsId.toList) (hd : ':' ∉ d.argsId.toList)
    (h : c.toText = d.toText) : c.argsId = d.argsId := by
  have htexts := congrArg String.toList h
  simp only [CallId.toText, String.toList_append, List.append_assoc] at htexts
  exact String.toList_inj.mp (Text.append_cons_inj_right hc hd htexts).2

end Identity

/-! ## The call table -/

/-- The calls a state backend keeps, under the text of their ids: `calls` in memory and in
SQLite, one key for each call in Redis. -/
abbrev CallTable := AList fun _ : String => CallDTO

/-- What is written to the call table; calls are made by `CallDTO::new`. -/
inductive CallWrite where
  /-- `upsert_invocation`: replaces the row. -/
  | upsert (taskId : TaskId) (args : SerializedArguments)
  /-- Publication: a row that is there stays. -/
  | publish (taskId : TaskId) (args : SerializedArguments)
  | purge

namespace CallTable

def write (sha256Hex : List Char → String) (table : CallTable) : CallWrite → CallTable
  | .upsert taskId args =>
      let call := CallDTO.new sha256Hex taskId args
      table.insert call.callId.toText call
  | .publish taskId args =>
      let call := CallDTO.new sha256Hex taskId args
      match table.lookup call.callId.toText with
      | some _ => table
      | none => table.insert call.callId.toText call
  | .purge => ∅

/-- `get_call` in memory and in Redis. -/
def getCall (table : CallTable) (callId : CallId) : Option CallDTO :=
  table.lookup callId.toText

/-- `get_call` in SQLite, which gives the row the id it was asked for. -/
def getCallRow (table : CallTable) (callId : CallId) : Option CallDTO :=
  (table.lookup callId.toText).map fun row => { row with callId := callId }

/-- Every row is a call under its own text. -/
def Rows (sha256Hex : List Char → String) (table : CallTable) : Prop :=
  ∀ text call, table.lookup text = some call →
    ∃ taskId args, call = CallDTO.new sha256Hex taskId args ∧ call.callId.toText = text

variable {sha256Hex : List Char → String} {table : CallTable}

theorem rows_empty (sha256Hex : List Char → String) : Rows sha256Hex ∅ := by
  intro text call hlookup
  simp at hlookup

theorem Rows.insert (h : Rows sha256Hex table) (taskId : TaskId) (args : SerializedArguments) :
    Rows sha256Hex (table.insert (CallDTO.new sha256Hex taskId args).callId.toText
      (CallDTO.new sha256Hex taskId args)) := by
  intro text call hlookup
  by_cases htext : text = (CallDTO.new sha256Hex taskId args).callId.toText
  · subst htext
    rw [AList.lookup_insert] at hlookup
    cases hlookup
    exact ⟨taskId, args, rfl, rfl⟩
  · rw [AList.lookup_insert_ne htext] at hlookup
    exact h text call hlookup

theorem Rows.write (h : Rows sha256Hex table) (w : CallWrite) :
    Rows sha256Hex (table.write sha256Hex w) := by
  cases w with
  | upsert taskId args => exact h.insert taskId args
  | publish taskId args =>
      simp only [CallTable.write]
      split
      · exact h
      · exact h.insert taskId args
  | purge => exact rows_empty sha256Hex

theorem Rows.writes (h : Rows sha256Hex table) (ws : List CallWrite) :
    Rows sha256Hex (ws.foldl (CallTable.write sha256Hex) table) := by
  induction ws generalizing table with
  | nil => exact h
  | cons w ws ih => exact ih (h.write w)

end CallTable

/-- **Argument identity is collision free.**  Two argument maps have one id only if they are
equal, and whatever was written to a call table, the row it returns for a call has that
call's arguments. -/
theorem arguments_identified {sha256 : List Char → List UInt8}
    (hinj : Function.Injective sha256) :
    (∀ a b : SerializedArguments,
      a.computeArgsId (sha256Text sha256) = b.computeArgsId (sha256Text sha256) ↔ a = b) ∧
    ∀ (writes : List CallWrite) (taskId : TaskId) (args : SerializedArguments) (call : CallDTO),
      let table : CallTable := writes.foldl (CallTable.write (sha256Text sha256)) ∅
      let callId := (CallDTO.new (sha256Text sha256) taskId args).callId
      table.getCall callId = some call ∨ table.getCallRow callId = some call →
        call.serializedArguments = args := by
  refine ⟨fun a b => ⟨computeArgsId_inj hinj, congrArg _⟩, ?_⟩
  intro writes taskId args call table callId hget
  have hrows : CallTable.Rows (sha256Text sha256) table :=
    (CallTable.rows_empty _).writes writes
  obtain ⟨row, hlookup, hargs⟩ : ∃ row, table.lookup callId.toText = some row ∧
      row.serializedArguments = call.serializedArguments := by
    rcases hget with hget | hget
    · exact ⟨call, hget, rfl⟩
    · obtain ⟨row, hlookup, rfl⟩ := Option.map_eq_some_iff.mp hget
      exact ⟨row, hlookup, rfl⟩
  obtain ⟨taskId', args', rfl, htext⟩ := hrows _ _ hlookup
  have hids := argsId_of_toText (colon_notMem_computeArgsId args')
    (colon_notMem_computeArgsId args) htext
  rw [← hargs]
  exact computeArgsId_inj hinj hids

/-- Three bytes a character. -/
def charBytes (c : Char) : List UInt8 :=
  [.ofNat (c.toNat / 65536), .ofNat (c.toNat / 256 % 256), .ofNat (c.toNat % 256)]

theorem charBytes_inj {c d : Char} {x y : List UInt8} (h : charBytes c ++ x = charBytes d ++ y) :
    c = d ∧ x = y := by
  simp only [charBytes, List.cons_append, List.nil_append, List.cons.injEq] at h
  obtain ⟨hhigh, hmiddle, hlow, hrest⟩ := h
  have hc : c.toNat < 1114112 := by
    have := c.valid
    simp only [UInt32.isValidChar, Nat.isValidChar] at this
    exact this.elim (fun h => lt_trans h (by decide)) And.right
  have hd : d.toNat < 1114112 := by
    have := d.valid
    simp only [UInt32.isValidChar, Nat.isValidChar] at this
    exact this.elim (fun h => lt_trans h (by decide)) And.right
  have hhigh' := congrArg UInt8.toNat hhigh
  have hmiddle' := congrArg UInt8.toNat hmiddle
  have hlow' := congrArg UInt8.toNat hlow
  simp only [UInt8.toNat_ofNat'] at hhigh' hmiddle' hlow'
  exact ⟨Char.toNat_inj.mp (by omega), hrest⟩

/-- The SHA-256 digest of the arguments `x = 1`; other texts are spelled out in bytes. -/
def spelledSha256 (text : List Char) : List UInt8 :=
  if text = "\"x\"=\"1\";".toList then
    [116, 189, 69, 50, 91, 57, 244, 65, 75, 220, 125, 189, 57, 27, 182, 219,
      204, 187, 17, 189, 141, 215, 121, 14, 250, 45, 194, 157, 46, 98, 227, 64]
  else List.replicate 33 0 ++ text.flatMap charBytes

theorem spelledSha256_injective : Function.Injective spelledSha256 := by
  have hspelled : ∀ s t : List Char, s.flatMap charBytes = t.flatMap charBytes → s = t := by
    intro s
    induction s with
    | nil =>
        intro t h
        cases t with
        | nil => rfl
        | cons d t => simp [charBytes] at h
    | cons c s ih =>
        intro t h
        cases t with
        | nil => simp [charBytes] at h
        | cons d t =>
            rw [List.flatMap_cons, List.flatMap_cons] at h
            obtain ⟨rfl, hrest⟩ := charBytes_inj h
            rw [ih t hrest]
  intro s t h
  unfold spelledSha256 at h
  split at h <;> split at h
  · rename_i hs ht
    rw [hs, ht]
  · exact absurd (congrArg List.length h) (by simp)
  · exact absurd (congrArg List.length h) (by simp)
  · exact hspelled s t (List.append_cancel_left h)

def sampleArguments : SerializedArguments :=
  SerializedArguments.empty.insert "x" "1"

def sampleTask : TaskId :=
  ⟨.rust, "m", "f"⟩

/-- The task without arguments, and with one. -/
def sampleWrites : List CallWrite :=
  [.upsert sampleTask .empty, .publish sampleTask sampleArguments]

theorem arguments_identified_sample :
    SerializedArguments.empty.computeArgsId (sha256Text spelledSha256) ≠
        sampleArguments.computeArgsId (sha256Text spelledSha256) ∧
      ∃ call, CallTable.getCall (sampleWrites.foldl (CallTable.write (sha256Text spelledSha256)) ∅)
          (CallDTO.new (sha256Text spelledSha256) sampleTask sampleArguments).callId = some call ∧
        call.serializedArguments = sampleArguments := by
  obtain ⟨hids, htable⟩ := arguments_identified spelledSha256_injective
  refine ⟨fun h => absurd ((hids _ _).mp h) (by decide), ?_⟩
  have hget : CallTable.getCall
      (sampleWrites.foldl (CallTable.write (sha256Text spelledSha256)) ∅)
      (CallDTO.new (sha256Text spelledSha256) sampleTask sampleArguments).callId =
        some (CallDTO.new (sha256Text spelledSha256) sampleTask sampleArguments) := by
    decide +kernel
  exact ⟨_, hget, htable sampleWrites sampleTask sampleArguments _ (.inl hget)⟩

end Rustvello.Proto
