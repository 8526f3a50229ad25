import MiniTree.Board.ConfigPersist
import Mathlib.Data.List.Perm.Subperm
import Mathlib.Data.List.Nodup

/-!
# Loading a flat JSON object (`board/src/config_store.c`)

`load_factory_defaults` looks for the next quote, colon or dot in all of the text that is left. A
document is a list of members; the same members can be laid out with any whitespace.

**Results.** `Setting.faithful_iff`: for every whitespace the table has exactly the members of the
document, with their types and values, exactly when no member but the last is a string, no dot stands
behind an integer and every integer is one of an `int32_t`. `faithful_fails_on_string` is a string in
front of another member: the scanner goes on inside the string and takes the comma behind it for a
key.
-/

namespace MiniTree.Config

open MiniTree.Core List Nat

/-! ## Documents -/

/-- Neither a quote nor the start of an escape nor a control character. -/
def Plain (s : Bytes) : Prop := ∀ c ∈ s, 32 ≤ c ∧ c ≠ 34 ∧ c ≠ 92

def Digits (ds : Bytes) : Prop := ds ≠ [] ∧ ∀ c ∈ ds, 48 ≤ c ∧ c ≤ 57

-- not by way of the finite type of the bytes
instance (s : Bytes) : Decidable (Plain s) := decidableBAll _ s

instance (ds : Bytes) : Decidable (Digits ds) := @instDecidableAnd _ _ _ (decidableBAll _ ds)

def natOf (ds : Bytes) : Nat := ds.foldl (fun n c => 10 * n + (c.toNat - 48)) 0

inductive JsonValue where
  | int (neg : Bool) (digits : Bytes)
  | bool (b : Bool)
  | decimal (neg : Bool) (whole frac : Bytes)
  | string (s : Bytes)
  deriving DecidableEq

namespace JsonValue

def sign (neg : Bool) : Bytes := if neg then [45] else []

def text : JsonValue → Bytes
  | int neg ds => sign neg ++ ds
  | bool b => if b then ascii "true" else ascii "false"
  | decimal neg whole frac => sign neg ++ (whole ++ 46 :: frac)
  | string s => 34 :: (s ++ [34])

/-- A string has at most 63 bytes. -/
def Ok : JsonValue → Prop
  | int _ ds => Digits ds
  | bool _ => True
  | decimal _ whole frac => Digits whole ∧ Digits frac
  | string s => Plain s ∧ s.length ≤ 63

instance : (v : JsonValue) → Decidable v.Ok
  | int _ ds => inferInstanceAs (Decidable (Digits ds))
  | bool _ => inferInstanceAs (Decidable True)
  | decimal _ whole frac => inferInstanceAs (Decidable (Digits whole ∧ Digits frac))
  | string s => inferInstanceAs (Decidable (Plain s ∧ s.length ≤ 63))

def integer (neg : Bool) (ds : Bytes) : Int := if neg then -(natOf ds : Int) else natOf ds

/-- An integer is one of an `int32_t`. -/
def Fits : JsonValue → Prop
  | int neg ds => -2 ^ 31 ≤ integer neg ds ∧ integer neg ds < 2 ^ 31
  | _ => True

/-- An entry's value has the type of a JSON value and is that value. A decimal is what the C library
makes of it. -/
def Holds (libc : Libc) : JsonValue → Value → Prop
  | int neg ds, .int w => w.toInt32.toInt = integer neg ds
  | bool b, .bool c => c = b
  | decimal neg whole frac, .float f => f = libc.atof (decimal neg whole frac).text
  | string s, .string t => t = s
  | _, _ => False

def isString : JsonValue → Bool
  | string _ => true
  | _ => false

def isInt : JsonValue → Bool
  | int _ _ => true
  | _ => false

end JsonValue

/-- Text behind a value: a comma, a brace or whitespace comes first. -/
def Delimited (rest : Bytes) : Prop :=
  ∃ c tail, rest = c :: tail ∧ (c = 44 ∨ c = 125 ∨ isBlank c = true)

/-- `atoi` and `atof` read a number up to what delimits it; `atoi` need not read one that is out of
range. -/
structure Libc.Ok (libc : Libc) : Prop where
  atoi : ∀ neg ds rest, (JsonValue.int neg ds).Ok → (JsonValue.int neg ds).Fits → Delimited rest →
    (libc.atoi ((JsonValue.int neg ds).text ++ rest)).toInt32.toInt = JsonValue.integer neg ds
  atof : ∀ neg whole frac rest, (JsonValue.decimal neg whole frac).Ok → Delimited rest →
    libc.atof ((JsonValue.decimal neg whole frac).text ++ rest) =
      libc.atof (JsonValue.decimal neg whole frac).text

structure Member where
  key : Bytes
  value : JsonValue
  key_plain : Plain key
  key_short : key.length < 32
  value_ok : value.Ok

def Member.IsEntry (libc : Libc) (m : Member) (e : Entry) : Prop :=
  e.key = m.key ∧ m.value.Holds libc e.value

/-- A C library and a flat object with distinct keys that fits the table. -/
structure Setting where
  libc : Libc
  libc_ok : libc.Ok
  members : List Member
  distinct : (members.map (·.key)).Nodup
  few : members.length ≤ maxEntries

structure Space where
  bytes : Bytes
  blank : ∀ c ∈ bytes, isBlank c = true

/-- The whitespace of a document, by the member's place, and whether the size counts the terminator. -/
structure Layout where
  head : Space
  tail : Space
  beforeKey : Nat → Space
  beforeColon : Nat → Space
  beforeValue : Nat → Space
  behindValue : Nat → Space
  terminated : Bool

namespace Layout

variable (lay : Layout)

def membersText : Nat → List Member → Bytes
  | i, [] => (lay.beforeKey i).bytes ++ 125 :: lay.tail.bytes
  | i, m :: ms =>
    (lay.beforeKey i).bytes ++ 34 :: (m.key ++ 34 :: ((lay.beforeColon i).bytes ++ 58 ::
      ((lay.beforeValue i).bytes ++ (m.value.text ++ ((lay.behindValue i).bytes ++
        if ms.isEmpty then 125 :: lay.tail.bytes else 44 :: membersText (i + 1) ms)))))

/-- What stands behind a value. -/
def restText (i : Nat) (ms : List Member) : Bytes := (lay.behindValue i).bytes ++
    if ms.isEmpty then 125 :: lay.tail.bytes else 44 :: lay.membersText (i + 1) ms

def text (ms : List Member) : Bytes := lay.head.bytes ++ 123 :: lay.membersText 0 ms

def source (ms : List Member) : Source where
  text := lay.text ms
  size := (lay.text ms).length + if lay.terminated then 1 else 0
  size_le := by split <;> omega

end Layout

namespace Setting

variable (x : Setting)

/-- Whatever the whitespace, the table has exactly the members: one entry for each, no other. -/
def Faithful : Prop :=
  ∀ lay : Layout, ∃ es, loadFactoryDefaults x.libc (lay.source x.members) = some es ∧
    es.length = x.members.length ∧ (∀ m ∈ x.members, ∃ e ∈ es, m.IsEntry x.libc e) ∧
      ∀ e ∈ es, ∃ m ∈ x.members, m.IsEntry x.libc e

end Setting

def Member.Dotless (m : Member) : Prop := 46 ∉ m.key ∧ 46 ∉ m.value.text

/-- No member but the last is a string. -/
def StringsLast : List Member → Prop
  | [] => True
  | m :: ms => (m.value.isString = true → ms = []) ∧ StringsLast ms

/-- An integer has no dot behind it and fits. -/
def IntsClear : List Member → Prop
  | [] => True
  | m :: ms => (m.value.isInt = true → ∀ n ∈ ms, n.Dotless) ∧ m.value.Fits ∧ IntsClear ms

/-! ## One pass of the loop -/

variable {c : UInt8} {front rest s ds : Bytes} {libc : Libc} {k n : Nat}

theorem forall_ne (h : c ∉ s) : ∀ a ∈ s, decide (a ≠ c) = true := fun _ ha =>
  decide_eq_true fun hac => h (hac ▸ ha)

theorem dropWhile_to (h : c ∉ front) : (front ++ c :: rest).dropWhile (· ≠ c) = c :: rest := by
  rw [dropWhile_append_of_pos (forall_ne h), dropWhile_cons_of_neg (by simp)]

theorem takeWhile_to (h : c ∉ front) : (front ++ c :: rest).takeWhile (· ≠ c) = front := by
  rw [takeWhile_append_of_pos (forall_ne h), takeWhile_cons_of_neg (by simp), append_nil]

theorem dropWhile_none (h : c ∉ s) : s.dropWhile (· ≠ c) = [] := by
  rw [← append_nil s, dropWhile_append_of_pos (forall_ne h)]
  rfl

variable {junk : Bytes}

section

/-- A key between quotes, with a colon behind it. -/
theorem factoryStep_key {key gap val : Bytes} (hj : 34 ∉ junk) (hk : 34 ∉ key)
    (hlen : key.length < 32) (hg : 58 ∉ gap) :
    factoryStep libc (junk ++ 34 :: (key ++ 34 :: (gap ++ 58 :: val))) =
      some (some (mkEntry key (factoryValue libc (val.dropWhile isBlank))),
        (val.dropWhile isBlank).drop 1) := by
  unfold factoryStep
  rw [dropWhile_to hj]
  dsimp only
  rw [dropWhile_to hk, takeWhile_to hk]
  dsimp only
  rw [if_neg (by omega), dropWhile_to hg]

theorem factoryStep_no_quote {s : Bytes} (h : 34 ∉ s) : factoryStep libc s = none := by
  unfold factoryStep
  rw [dropWhile_none h]

theorem factoryStep_one_quote {s : Bytes} (hj : 34 ∉ junk) (h : 34 ∉ s) :
    factoryStep libc (junk ++ 34 :: s) = none := by
  unfold factoryStep
  rw [dropWhile_to hj]
  dsimp only
  rw [dropWhile_none h]

theorem factoryLoop_keeps (stop fuel : Nat) (cursor : Bytes) (entries : List Entry) :
    entries <+: factoryLoop libc stop fuel cursor entries := by
  induction fuel generalizing cursor entries with
  | zero => exact prefix_rfl
  | succ fuel ih =>
    rw [factoryLoop]
    split
    · exact prefix_rfl
    split
    · exact prefix_rfl
    · exact ih _ _
    refine List.IsPrefix.trans ?_ (ih _ _)
    unfold addEntry
    split
    · exact prefix_rfl
    · exact prefix_append _ _

end

/-! ## Values -/

theorem blank_ne (h : isBlank c = true) : c ≠ 34 ∧ c ≠ 58 ∧ c ≠ 46 := by
  have hc := of_decide_eq_true h
  rcases hc with rfl | rfl | rfl | rfl <;> decide

theorem digit_ne (h : 48 ≤ c ∧ c ≤ 57) : c ≠ 34 ∧ c ≠ 116 ∧ c ≠ 102 ∧ c ≠ 46 ∧ isBlank c = false := by
  have hne : ∀ d : UInt8, ¬ (48 ≤ d ∧ d ≤ 57) → c ≠ d := fun d hd hcd => hd (hcd ▸ h)
  refine ⟨hne _ (by decide), hne _ (by decide), hne _ (by decide), hne _ (by decide),
    decide_eq_false ?_⟩
  rintro (hc | hc | hc | hc) <;> exact hne _ (by decide) hc

/-- A quote, a letter of a boolean, a dot or whitespace is no sign and no digit. -/
theorem numeric_cons (neg : Bool) (h : Digits ds) : ∃ c tail, JsonValue.sign neg ++ ds = c :: tail ∧
    ∀ d ∈ c :: tail, d ≠ 34 ∧ d ≠ 116 ∧ d ≠ 102 ∧ d ≠ 46 ∧ isBlank d = false := by
  obtain ⟨c, tail, htext⟩ := exists_cons_of_ne_nil
    (show JsonValue.sign neg ++ ds ≠ [] from append_ne_nil_of_right_ne_nil _ h.1)
  refine ⟨c, tail, htext, fun d hd => ?_⟩
  rw [← htext] at hd
  rcases mem_append.mp hd with hd | hd
  · cases neg with
    | true =>
      rw [mem_singleton.mp hd]
      decide
    | false => exact absurd hd not_mem_nil
  · exact digit_ne (h.2 d hd)

namespace JsonValue

variable {v : JsonValue} {tail : Bytes}

/-- A value starts with no whitespace, and has quotes only if it is a string. -/
theorem text_cons (h : v.Ok) : ∃ c tail, v.text = c :: tail ∧ isBlank c = false ∧
    (v.isString = false → 34 ∉ c :: tail) := by
  cases v with
  | int neg ds =>
    obtain ⟨c, tail, htext, hall⟩ := numeric_cons neg h
    exact ⟨c, tail, htext, (hall c mem_cons_self).2.2.2.2, fun _ hq => (hall 34 hq).1 rfl⟩
  | bool b => cases b <;> exact ⟨_, _, rfl, by decide, fun _ => by decide⟩
  | decimal neg whole frac =>
    obtain ⟨c, tail, htext, hall⟩ := numeric_cons neg h.1
    refine ⟨c, tail ++ 46 :: frac, ?_, (hall c mem_cons_self).2.2.2.2, fun _ hq => ?_⟩
    · rw [text, ← append_assoc, htext]
      rfl
    · rw [← cons_append] at hq
      rcases mem_append.mp hq with hq | hq
      · exact (hall 34 hq).1 rfl
      · rcases mem_cons.mp hq with hq | hq
        · exact absurd hq (by decide)
        · exact (digit_ne (h.2.2 34 hq)).1 rfl
  | string s => exact ⟨34, s ++ [34], rfl, by decide, fun hs => by cases hs⟩

/-- A value that is no string, by its first byte. -/
theorem factoryValue_cons {c : UInt8} (hc : c ≠ 34) : factoryValue libc (c :: tail) =
    if c = 116 ∨ c = 102 then .bool ((ascii "true").isPrefixOf (c :: tail))
    else if 46 ∈ c :: tail then .float (libc.atof (c :: tail)) else .int (libc.atoi (c :: tail)) := by
  unfold factoryValue
  split
  · rename_i hcons
    cases hcons
    exact absurd rfl hc
  · simp only [head?_cons, Option.some_inj, contains_iff_mem]

/-- A text without a quote at its start and with a dot is a float. -/
theorem factoryValue_dot {s : Bytes} {c : UInt8} (hs : s = c :: tail)
    (hc : c ≠ 34 ∧ c ≠ 116 ∧ c ≠ 102) (hdot : 46 ∈ s) : factoryValue libc s = .float (libc.atof s) := by
  rw [hs] at hdot ⊢
  rw [factoryValue_cons hc.1, if_neg (by simp [hc.2.1, hc.2.2]), if_pos hdot]

/-- An integer with a dot behind it is a float. -/
theorem factoryValue_int_dot (h : v.Ok) (hint : v.isInt = true) {rest : Bytes} (hdot : 46 ∈ rest) :
    factoryValue libc (v.text ++ rest) = .float (libc.atof (v.text ++ rest)) := by
  cases v with
  | int neg ds =>
    obtain ⟨c, tail, htext, hall⟩ := numeric_cons neg h
    have hc := hall c mem_cons_self
    exact factoryValue_dot (by rw [text, htext, cons_append]) ⟨hc.1, hc.2.1, hc.2.2.1⟩
      (mem_append_right _ hdot)
  | _ => cases hint

variable {w : Value}

theorem holds_stored (h : v.Ok) (hw : v.Holds libc w) : v.Holds libc w.stored := by
  cases v <;> cases w <;> try exact hw
  rename_i s t
  have ht : t = s := hw
  subst ht
  exact take_of_length_le h.2

/-- A value is read as itself, whatever stands behind it; an integer must fit and have no dot behind
it. -/
theorem holds_factoryValue (hlibc : libc.Ok) (h : v.Ok) {rest : Bytes} (hr : Delimited rest)
    (hdot : v.isInt = true → 46 ∉ rest) (hfits : v.Fits) :
    v.Holds libc (factoryValue libc (v.text ++ rest)) := by
  cases v with
  | int neg ds =>
    obtain ⟨c, tail, htext, hall⟩ := numeric_cons neg h
    have hc := hall c mem_cons_self
    have hcons : (int neg ds).text ++ rest = c :: (tail ++ rest) := by rw [text, htext, cons_append]
    have hno : 46 ∉ c :: (tail ++ rest) := by
      rw [← cons_append, mem_append]
      exact fun hd => hd.elim (fun hd => (hall 46 hd).2.2.2.1 rfl) (hdot rfl)
    have hatoi := hlibc.atoi neg ds rest h hfits hr
    rw [hcons] at hatoi ⊢
    rw [factoryValue_cons hc.1, if_neg (by simp [hc.2.1, hc.2.2.1]), if_neg hno]
    exact hatoi
  | bool b => cases b <;> rfl
  | decimal neg whole frac =>
    obtain ⟨c, tail, htext, hall⟩ := numeric_cons neg h.1
    have hc := hall c mem_cons_self
    have hcons : (decimal neg whole frac).text ++ rest = c :: (tail ++ 46 :: (frac ++ rest)) := by
      rw [text, ← append_assoc, htext, append_assoc, cons_append, cons_append]
    rw [factoryValue_dot hcons ⟨hc.1, hc.2.1, hc.2.2.1⟩ (by rw [hcons]; simp)]
    exact hlibc.atof neg whole frac rest h hr
  | string s =>
    have hs : 34 ∉ s := fun hq => (h.1 34 hq).2.1 rfl
    have hcons : (string s).text ++ rest = 34 :: (s ++ 34 :: rest) := by
      rw [text, cons_append, append_assoc]
      rfl
    rw [hcons]
    change Holds libc _ (if (s ++ 34 :: rest).contains 34 = true then _ else _)
    rw [if_pos (by simp), takeWhile_to hs]
    rfl

theorem fits_of_holds (h : v.Holds libc w) : v.Fits := by
  cases v with
  | int neg ds =>
    cases w with
    | int w =>
      have hw : w.toInt32.toInt = integer neg ds := h
      rw [Fits, ← hw]
      exact ⟨Int32.le_toInt _, Int32.toInt_lt _⟩
    | _ => exact absurd h id
  | _ => trivial

end JsonValue

/-! ## Members -/

theorem Space.no_quote (w : Space) : 34 ∉ w.bytes := fun h => (blank_ne (w.blank _ h)).1 rfl

theorem Space.no_colon (w : Space) : 58 ∉ w.bytes := fun h => (blank_ne (w.blank _ h)).2.1 rfl

theorem Space.no_dot (w : Space) : 46 ∉ w.bytes := fun h => (blank_ne (w.blank _ h)).2.2 rfl

theorem Member.key_no_quote (m : Member) : 34 ∉ m.key := fun h => (m.key_plain _ h).2.1 rfl

section

variable (lay : Layout)

section
variable (i : Nat) (m : Member) (ms : List Member)

theorem restText_delimited : Delimited (lay.restText i ms) := by
  have hblank := (lay.behindValue i).blank
  unfold Layout.restText Delimited
  cases hbytes : (lay.behindValue i).bytes with
  | nil =>
    split
    · exact ⟨125, _, rfl, .inr (.inl rfl)⟩
    · exact ⟨44, _, rfl, .inl rfl⟩
  | cons c tail =>
    rw [hbytes] at hblank
    exact ⟨c, _, rfl, .inr (.inr (hblank c mem_cons_self))⟩

theorem restText_nil : lay.restText i [] = (lay.behindValue i).bytes ++ 125 :: lay.tail.bytes := rfl

theorem restText_cons :
    lay.restText i (m :: ms) = (lay.behindValue i).bytes ++ 44 :: lay.membersText (i + 1) (m :: ms) := rfl

theorem membersText_cons :
    lay.membersText i (m :: ms) = (lay.beforeKey i).bytes ++ 34 :: (m.key ++ 34 ::
      ((lay.beforeColon i).bytes ++ 58 ::
        ((lay.beforeValue i).bytes ++ (m.value.text ++ lay.restText i ms)))) := rfl

/-- A dot behind a value is one of a later member. -/
theorem dot_mem_restText : 46 ∈ lay.restText i ms ↔ ∃ n ∈ ms, ¬ n.Dotless := by
  induction ms generalizing i with
  | nil =>
    have h1 := (lay.behindValue i).no_dot
    have h2 := lay.tail.no_dot
    rw [restText_nil]
    simp [h1, h2]
  | cons m ms ih =>
    have h1 := (lay.behindValue i).no_dot
    have h2 := (lay.beforeKey (i + 1)).no_dot
    have h3 := (lay.beforeColon (i + 1)).no_dot
    have h4 := (lay.beforeValue (i + 1)).no_dot
    rw [restText_cons, membersText_cons]
    simp only [mem_append, mem_cons, h1, h2, h3, h4, ih (i + 1), Member.Dotless]
    simp only [not_and_or, not_not]
    simp [or_assoc]

def readEntry (libc : Libc) (i : Nat) (m : Member) (ms : List Member) : Entry :=
  mkEntry m.key (factoryValue libc (m.value.text ++ lay.restText i ms))

def readAll (libc : Libc) : Nat → List Member → List Entry
  | _, [] => []
  | i, m :: ms => readEntry lay libc i m ms :: readAll libc (i + 1) ms

theorem loop_member (hj : 34 ∉ junk) (i fuel : Nat) (m : Member) (ms : List Member)
    (entries : List Entry) :
    factoryLoop libc 0 (fuel + 1) (junk ++ lay.membersText i (m :: ms)) entries =
      factoryLoop libc 0 fuel ((m.value.text ++ lay.restText i ms).drop 1)
        (addEntry entries (readEntry lay libc i m ms)) := by
  obtain ⟨c, tail, htext, hc, -⟩ := JsonValue.text_cons m.value_ok
  have hval : ((lay.beforeValue i).bytes ++ (m.value.text ++ lay.restText i ms)).dropWhile isBlank =
      m.value.text ++ lay.restText i ms := by
    rw [dropWhile_append_of_pos (lay.beforeValue i).blank, htext, cons_append,
      dropWhile_cons_of_neg (by rw [hc]; exact Bool.false_ne_true)]
  have hjunk : 34 ∉ junk ++ (lay.beforeKey i).bytes := by
    rw [mem_append]
    exact fun h => h.elim hj (lay.beforeKey i).no_quote
  rw [membersText_cons, ← append_assoc, factoryLoop, if_neg (by simp),
    factoryStep_key hjunk m.key_no_quote m.key_short (lay.beforeColon i).no_colon, hval]
  rfl

theorem loop_end {cursor : Bytes} (h : factoryStep libc cursor = none) (fuel : Nat)
    (entries : List Entry) : factoryLoop libc 0 fuel cursor entries = entries := by
  cases fuel with
  | zero => rfl
  | succ fuel =>
    rw [factoryLoop]
    split
    · rfl
    · rw [h]

theorem addEntry_room {entries : List Entry} (h : entries.length < maxEntries) (e : Entry) :
    addEntry entries e = entries ++ [e] := if_neg (not_le.mpr h)

/-- Behind a member that is no string the scanner goes on in front of the next key. -/
theorem drop_one_cons {m n : Member} (hm : m.value.isString = false) (i : Nat) (ms : List Member) :
    ∃ junk, 34 ∉ junk ∧ (m.value.text ++ lay.restText i (n :: ms)).drop 1 =
      junk ++ lay.membersText (i + 1) (n :: ms) := by
  obtain ⟨c, tail, htext, -, hq⟩ := JsonValue.text_cons m.value_ok
  have hno := hq hm
  refine ⟨tail ++ ((lay.behindValue i).bytes ++ [44]), ?_, ?_⟩
  · have h1 := (lay.behindValue i).no_quote
    rw [mem_cons, not_or] at hno
    simp [hno.2, h1]
  · rw [htext, restText_cons]
    simp

/-- A string is scanned up to its closing quote. -/
theorem drop_one_string {m : Member} (hm : m.value.isString = true) : ∃ s, 34 ∉ s ∧
    ∀ rest, (m.value.text ++ rest).drop 1 = s ++ 34 :: rest := by
  have hok := m.value_ok
  cases hv : m.value with
  | string s =>
    rw [hv] at hok
    exact ⟨s, fun hq => (hok.1 34 hq).2.1 rfl, fun rest => by simp [JsonValue.text]⟩
  | _ =>
    rw [hv] at hm
    cases hm

theorem length_membersText_lt (junk : Bytes) : ((m.value.text ++ lay.restText i ms).drop 1).length <
      (junk ++ lay.membersText i (m :: ms)).length := by
  rw [membersText_cons]
  simp only [length_drop, length_append, length_cons]
  omega

/-- Members of which only the last may be a string are read one after the other. -/
theorem loop_members (hms : StringsLast ms) (i fuel : Nat)
    (hj : 34 ∉ junk) (entries : List Entry) (hroom : entries.length + ms.length ≤ maxEntries)
    (hfuel : (junk ++ lay.membersText i ms).length < fuel) :
    factoryLoop libc 0 fuel (junk ++ lay.membersText i ms) entries =
      entries ++ readAll lay libc i ms := by
  induction ms generalizing i fuel junk entries with
  | nil =>
    have h1 := (lay.beforeKey i).no_quote
    have h2 := lay.tail.no_quote
    rw [loop_end (factoryStep_no_quote (by simp [Layout.membersText, hj, h1, h2]))]
    exact (append_nil _).symm
  | cons m ms ih =>
    obtain ⟨fuel, rfl⟩ : ∃ n, fuel = n + 1 := ⟨fuel - 1, by omega⟩
    rw [length_cons] at hroom
    have hlt := length_membersText_lt lay i m ms junk
    rw [loop_member lay hj, addEntry_room (by omega)]
    cases ms with
    | nil =>
      have h1 := (lay.behindValue i).no_quote
      have h2 := lay.tail.no_quote
      refine loop_end ?_ _ _
      cases hstr : m.value.isString with
      | false =>
        obtain ⟨c, tail, htext, -, hq⟩ := JsonValue.text_cons m.value_ok
        have hno := hq hstr
        rw [mem_cons, not_or] at hno
        refine factoryStep_no_quote ?_
        rw [htext, restText_nil]
        simp [hno.2, h1, h2]
      | true =>
        obtain ⟨s, hs, hcur⟩ := drop_one_string hstr
        rw [hcur]
        refine factoryStep_one_quote hs ?_
        rw [restText_nil]
        simp [h1, h2]
    | cons n ms =>
      have hstr : m.value.isString = false := eq_false_of_ne_true fun h => by
        cases hms.1 h
      obtain ⟨junk', hj', hcur⟩ := drop_one_cons lay hstr i ms
      rw [hcur] at hlt ⊢
      rw [ih hms.2 (i + 1) fuel hj' _ (by rw [length_append, length_singleton]; omega)
        (by omega), append_assoc]
      rfl

end

end

/-! ## Documents that are read as they are -/

theorem readEntry_key (libc : Libc) (lay : Layout) (i : Nat) (m : Member) (ms : List Member) :
    (readEntry lay libc i m ms).key = m.key :=
  take_of_length_le (le_of_lt_succ m.key_short)

theorem length_readAll (libc : Libc) (lay : Layout) (i : Nat) (ms : List Member) :
    (readAll lay libc i ms).length = ms.length := by
  induction ms generalizing i with
  | nil => rfl
  | cons m ms ih => rw [readAll, length_cons, ih, length_cons]

theorem isEntry_readAll (hlibc : libc.Ok) (lay : Layout) (i : Nat) (ms : List Member)
    (h : IntsClear ms) : (∀ m ∈ ms, ∃ e ∈ readAll lay libc i ms, m.IsEntry libc e) ∧
      ∀ e ∈ readAll lay libc i ms, ∃ m ∈ ms, m.IsEntry libc e := by
  induction ms generalizing i with
  | nil => exact ⟨fun _ hm => absurd hm not_mem_nil, fun _ he => absurd he not_mem_nil⟩
  | cons m ms ih =>
    have hm : m.IsEntry libc (readEntry lay libc i m ms) := by
      refine ⟨readEntry_key libc lay i m ms, JsonValue.holds_stored m.value_ok
        (JsonValue.holds_factoryValue hlibc m.value_ok (restText_delimited lay i ms)
          (fun hint hdot => ?_) h.2.1)⟩
      obtain ⟨n, hn, hdotless⟩ := (dot_mem_restText lay i ms).mp hdot
      exact hdotless (h.1 hint n hn)
    obtain ⟨hfound, hback⟩ := ih (i + 1) h.2.2
    refine ⟨forall_mem_cons.mpr ⟨⟨_, mem_cons_self, hm⟩, fun n hn => ?_⟩,
      forall_mem_cons.mpr ⟨⟨m, mem_cons_self, hm⟩, fun e he => ?_⟩⟩
    · obtain ⟨e, he, hne⟩ := hfound n hn
      exact ⟨e, mem_cons_of_mem _ he, hne⟩
    · obtain ⟨n, hn, hne⟩ := hback e he
      exact ⟨n, mem_cons_of_mem _ hn, hne⟩

/-- Each entry that a member becomes is its own only if integers fit and have no dot behind them. -/
theorem intsClear_of_isEntry (lay : Layout) (i : Nat) (ms : List Member)
    (h : ∀ e ∈ readAll lay libc i ms, ∀ m ∈ ms, e.key = m.key → m.IsEntry libc e) : IntsClear ms := by
  induction ms generalizing i with
  | nil => trivial
  | cons m ms ih =>
    have hm := (h _ mem_cons_self m mem_cons_self (readEntry_key libc lay i m ms)).2
    refine ⟨fun hint n hn => ?_, JsonValue.fits_of_holds hm,
      ih (i + 1) fun e he n hn => h e (mem_cons_of_mem _ he) n (mem_cons_of_mem _ hn)⟩
    by_contra hdot
    rw [readEntry, mkEntry, JsonValue.factoryValue_int_dot m.value_ok hint
      ((dot_mem_restText lay i ms).mpr ⟨n, hn, hdot⟩)] at hm
    cases hv : m.value with
    | int neg ds =>
      rw [hv] at hm
      exact hm
    | _ =>
      rw [hv] at hint
      cases hint

/-! ## A string in front of another member -/

namespace Layout

def noSpace : Space := ⟨[], fun _ h => absurd h not_mem_nil⟩

def spaces (k : Nat) : Space := ⟨replicate k 32, fun c h => by
  rw [(mem_replicate.mp h).2]
  rfl⟩

/-- A document with `k` spaces in front of each key and no other whitespace. -/
def spaced (k : Nat) : Layout :=
  ⟨noSpace, noSpace, fun _ => spaces k, fun _ => noSpace, fun _ => noSpace, fun _ => noSpace, false⟩

end Layout

def separator (k : Nat) : Bytes := 44 :: replicate k 32

theorem separator_injective : Function.Injective separator := fun j k h => by
  have hlen := congrArg length h
  simpa [separator] using hlen

/-- The scanner that goes on inside a string takes what separates it from the next key for a key. -/
theorem loop_separator (hk : k < 31) (hs : 34 ∉ s) (i fuel : Nat)
    (n : Member) (ms : List Member) (entries : List Entry) (hroom : entries.length < maxEntries) :
    ∃ e ∈ factoryLoop libc 0 (fuel + 1)
      (s ++ 34 :: (Layout.spaced k).restText i (n :: ms)) entries, e.key = separator k := by
  have hrest : (Layout.spaced k).restText i (n :: ms) = separator k ++ 34 :: (n.key ++ 34 :: 58 ::
      (n.value.text ++ (Layout.spaced k).restText (i + 1) ms)) := rfl
  -- the first colon behind the separator may be one of the next key
  obtain ⟨gap, val, hcolon, hgap⟩ := eq_append_cons_of_mem (show 58 ∈ n.key ++ 34 :: 58 ::
    (n.value.text ++ (Layout.spaced k).restText (i + 1) ms) from by simp)
  have hsep : 34 ∉ separator k := by simp [separator]
  have hlen : (separator k).length < 32 := by simp [separator]; omega
  rw [hrest, hcolon, factoryLoop, if_neg (by simp), factoryStep_key hs hsep hlen hgap]
  dsimp only
  rw [addEntry_room hroom]
  refine ⟨_, (factoryLoop_keeps _ _ _ _).subset (mem_append_right _ mem_cons_self), ?_⟩
  exact take_of_length_le (le_of_lt_succ hlen)

/-- A string that is not the last member makes the separator behind it a key. -/
theorem loop_string (hk : k < 31) (ms : List Member) (hms : ¬ StringsLast ms) (i fuel : Nat)
    (hj : 34 ∉ junk) (entries : List Entry) (hroom : entries.length + ms.length ≤ maxEntries)
    (hfuel : (junk ++ (Layout.spaced k).membersText i ms).length < fuel) :
    ∃ e ∈ factoryLoop libc 0 fuel (junk ++ (Layout.spaced k).membersText i ms) entries,
      e.key = separator k := by
  induction ms generalizing i fuel junk entries with
  | nil => exact absurd trivial hms
  | cons m ms ih =>
    obtain ⟨fuel, rfl⟩ : ∃ n, fuel = n + 1 := ⟨fuel - 1, by omega⟩
    rw [length_cons] at hroom
    have hlt := length_membersText_lt (Layout.spaced k) i m ms junk
    rw [loop_member (Layout.spaced k) hj, addEntry_room (by omega)]
    cases ms with
    | nil => exact absurd ⟨fun _ => rfl, trivial⟩ hms
    | cons n ms =>
      rw [length_cons] at hroom
      cases hstr : m.value.isString with
      | false =>
        have hrest : ¬ StringsLast (n :: ms) := fun h =>
          hms ⟨fun h' => absurd (hstr.symm.trans h') Bool.false_ne_true, h⟩
        obtain ⟨junk', hj', hcur⟩ := drop_one_cons (Layout.spaced k) hstr i ms
        rw [hcur] at hlt ⊢
        exact ih hrest (i + 1) fuel hj' _ (by simp; omega) (by omega)
      | true =>
        obtain ⟨s, hs, hcur⟩ := drop_one_string hstr
        rw [hcur] at hlt ⊢
        obtain ⟨fuel, rfl⟩ : ∃ n, fuel = n + 1 := by
          refine ⟨fuel - 1, ?_⟩
          rw [length_append, length_cons] at hlt
          omega
        exact loop_separator hk hs i fuel n ms _ (by simp; omega)

/-- Some separator is not among eight keys. -/
theorem exists_separator {ms : List Member} (h : ms.length ≤ maxEntries) :
    ∃ k < 31, separator k ∉ ms.map (·.key) := by
  by_contra hall
  have hmem : (range 9).map separator ⊆ ms.map (·.key) := by
    intro s hs
    obtain ⟨k, hk, rfl⟩ := mem_map.mp hs
    by_contra hno
    exact hall ⟨k, by have := mem_range.mp hk; omega, hno⟩
  have hle := ((nodup_range.map separator_injective).subperm hmem).length_le
  rw [length_map, length_map, length_range] at hle
  exact absurd (hle.trans h) (by decide)

/-! ## All documents -/

theorem load_source (libc : Libc) (lay : Layout) (ms : List Member) :
    ∃ fuel junk, 34 ∉ junk ∧ (junk ++ lay.membersText 0 ms).length < fuel ∧
      loadFactoryDefaults libc (lay.source ms) =
        some (factoryLoop libc 0 fuel (junk ++ lay.membersText 0 ms) []) := by
  have htext : lay.text ms = lay.head.bytes ++ [123] ++ lay.membersText 0 ms := by
    rw [append_assoc]
    rfl
  have h1 := lay.head.no_quote
  have hpos : 0 < (lay.text ms).length :=
    length_pos_of_mem (mem_append_right _ mem_cons_self)
  refine ⟨(lay.text ms).length + 1, lay.head.bytes ++ [123], by simp [h1], ?_, ?_⟩
  · rw [htext]
    exact lt_succ_self _
  · unfold loadFactoryDefaults
    have hstop : (lay.source ms).text.length - (lay.source ms).size = 0 :=
      Nat.sub_eq_zero_of_le (Nat.le_add_right _ _)
    have hsize : (lay.text ms).length ≤ (lay.source ms).size := le_add_right _ _
    rw [if_neg (by omega), hstop]
    change some (factoryLoop libc 0 ((lay.text ms).length + 1) (lay.text ms) []) = _
    rw [htext]

namespace Setting

variable (x : Setting)

theorem load_eq (h : StringsLast x.members) (lay : Layout) :
    loadFactoryDefaults x.libc (lay.source x.members) = some (readAll lay x.libc 0 x.members) := by
  obtain ⟨fuel, junk, hj, hfuel, hload⟩ := load_source x.libc lay x.members
  rw [hload, loop_members lay x.members h 0 fuel hj [] (by simpa using x.few) hfuel, nil_append]

theorem stringsLast_of_faithful (h : x.Faithful) : StringsLast x.members := by
  by_contra hstr
  obtain ⟨k, hk, hkey⟩ := exists_separator x.few
  obtain ⟨fuel, junk, hj, hfuel, hload⟩ := load_source x.libc (.spaced k) x.members
  obtain ⟨es, hes, -, -, hback⟩ := h (.spaced k)
  obtain ⟨e, he, hsep⟩ := @loop_string x.libc k junk hk x.members hstr 0 fuel hj []
    (by simpa using x.few) hfuel
  rw [hload] at hes
  rw [Option.some_inj.mp hes] at he
  obtain ⟨m, hm, hem, -⟩ := hback e he
  exact hkey (mem_map.mpr ⟨m, hm, hem.symm.trans hsep⟩)

/-- An entry is that of the one member with its key. -/
theorem isEntry_of_key {es : List Entry}
    (hback : ∀ e ∈ es, ∃ m ∈ x.members, m.IsEntry x.libc e) {e : Entry} (he : e ∈ es) {m : Member}
    (hm : m ∈ x.members) (hkey : e.key = m.key) : m.IsEntry x.libc e := by
  obtain ⟨n, hn, hen⟩ := hback e he
  have heq := inj_on_of_nodup_map x.distinct hm hn (hkey.symm.trans hen.1)
  rwa [heq]

/-- The table is the document's for every whitespace exactly when no string stands in front of another
member, no dot stands behind an integer, and every integer fits. -/
theorem faithful_iff : x.Faithful ↔ StringsLast x.members ∧ IntsClear x.members := by
  constructor
  · intro h
    have hstr := x.stringsLast_of_faithful h
    obtain ⟨es, hes, -, -, hback⟩ := h (.spaced 0)
    rw [x.load_eq hstr, Option.some_inj] at hes
    subst hes
    exact ⟨hstr, intsClear_of_isEntry _ 0 _ fun e he m hm => x.isEntry_of_key hback he hm⟩
  · rintro ⟨hstr, hint⟩ lay
    exact ⟨_, x.load_eq hstr lay, length_readAll x.libc lay 0 x.members,
      isEntry_readAll x.libc_ok lay 0 x.members hint⟩

end Setting

/-! ## An instance -/

def isDigit (c : UInt8) : Bool := 48 ≤ c ∧ c ≤ 57

/-- `atoi` without the whitespace in front. -/
def scanInt (s : Bytes) : UInt32 :=
  if s.head? = some 45 then -UInt32.ofNat (natOf ((s.drop 1).takeWhile isDigit))
  else UInt32.ofNat (natOf (s.takeWhile isDigit))

theorem takeWhile_digits (h : Digits ds) (hr : Delimited rest) :
    (ds ++ rest).takeWhile isDigit = ds := by
  obtain ⟨c, tail, rfl, hc⟩ := hr
  have hno : ¬ isDigit c = true := by
    rcases hc with rfl | rfl | hc
    · decide
    · decide
    · rcases of_decide_eq_true hc with rfl | rfl | rfl | rfl <;> decide
  have hall : ∀ d ∈ ds, isDigit d = true := fun d hd => decide_eq_true (h.2 d hd)
  rw [takeWhile_append_of_pos hall, takeWhile_cons_of_neg hno, append_nil]

theorem toInt_ofNat (h : n < 2 ^ 31) : (UInt32.ofNat n).toInt32.toInt = n := by
  change (BitVec.ofNat 32 n).toInt = n
  rw [BitVec.toInt_eq_toNat_cond, BitVec.toNat_ofNat]
  omega

theorem toInt_neg_ofNat (h : n ≤ 2 ^ 31) : (-UInt32.ofNat n).toInt32.toInt = -n := by
  change (-BitVec.ofNat 32 n).toInt = -n
  rw [BitVec.toInt_eq_toNat_cond, BitVec.toNat_neg, BitVec.toNat_ofNat]
  omega

/-- A library that reads integers, for a document without decimals. -/
def scanLibc : Libc := ⟨scanInt, fun _ => 0⟩

theorem scanLibc_ok : scanLibc.Ok where
  atof _ _ _ _ _ _ := rfl
  atoi neg ds rest h hfits hr := by
    cases neg with
    | true =>
      have hle : (natOf ds : Int) ≤ 2 ^ 31 := by
        have := hfits.1
        simp only [JsonValue.integer, if_true] at this
        omega
      change (scanInt (45 :: (ds ++ rest))).toInt32.toInt = -(natOf ds : Int)
      rw [scanInt, head?_cons, if_pos rfl, drop_one, tail_cons, takeWhile_digits h hr]
      exact toInt_neg_ofNat (by omega)
    | false =>
      have hlt : (natOf ds : Int) < 2 ^ 31 := hfits.2
      obtain ⟨c, tail, htext⟩ := exists_cons_of_ne_nil h.1
      change (scanInt (ds ++ rest)).toInt32.toInt = (natOf ds : Int)
      rw [scanInt, if_neg, takeWhile_digits h hr]
      · exact toInt_ofNat (by omega)
      · have hc := h.2 c (htext ▸ mem_cons_self)
        rw [htext]
        rintro hd
        rw [Option.some_inj.mp hd] at hc
        exact absurd hc (by decide)

/-- The members of `{"a":"x","b":1}`. -/
def stringFirst : Setting where
  libc := scanLibc
  libc_ok := scanLibc_ok
  members := [⟨ascii "a", .string (ascii "x"), by decide, by decide, by decide⟩,
    ⟨ascii "b", .int false (ascii "1"), by decide, by decide, by decide⟩]
  distinct := by decide
  few := by decide

/-- The number behind a string is stored under the comma between them. -/
theorem faithful_fails_on_string : ¬ ∀ x : Setting, x.Faithful := by
  intro h
  obtain ⟨es, hes, -, hfound, -⟩ := h stringFirst (.spaced 0)
  have hrun : (loadFactoryDefaults scanLibc ((Layout.spaced 0).source stringFirst.members)).any
      (fun es => es.all fun e => e.key ≠ ascii "b") = true := by decide +kernel
  rw [show scanLibc = stringFirst.libc from rfl, hes, Option.any_some, all_eq_true] at hrun
  obtain ⟨e, he, hkey, -⟩ := hfound _ (mem_cons_of_mem _ mem_cons_self)
  exact of_decide_eq_true (hrun e he) hkey

end MiniTree.Config
