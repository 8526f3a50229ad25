import MiniTree.Dtc.Ast
import Mathlib.Algebra.Ring.Int.Defs
import Mathlib.Data.List.TakeWhile
import Mathlib.Tactic.Tauto

/-!
# The generated property table (`tools/dtc_lite/generator.py`, `board/src/board_device.c`)

For each device the generator writes an array of (key, text) rows and a count, and the getters of
`board_device.c` search the first `prop_count` rows. The array leaves out five structural
properties, the count leaves out `direct` as well, and it is stored in a `uint8_t`. A text is the
integers of a property in hexadecimal, else its first string, else its first label. It is written
between quotes as it is, and the getters see what a C compiler makes of that literal.

**Results.** `compiledText_eq_iff`: a text is read back exactly when all its characters stand for
themselves between quotes. `safeParseInt32_hex`: a number is exactly when it is an `int32_t`.
`prop_table_complete_iff`: every non-structural property is found with its value exactly when
each one is a list of such numbers, one such string or one label, is not contradicted by an earlier
property of the same name, and has its name among the rows that are counted. `direct_hides_last` is
the node whose last property is not. `cells_round_trip_iff` and `string_round_trip_iff` are the same
for one list of cells, one token and one string of the source.
-/

namespace MiniTree.Dtc

open List Option
open Nat (toDigits mod_lt)

/-! ## String literals -/

/-- What a compiler is free in between quotes (GNU C, so without trigraphs): whether a lone carriage
return ends the line, and what it reads after a backslash. An escape sequence or a spliced line has
no more characters in its meaning than behind its backslash. -/
structure CCompiler where
  crEndsLine : Bool
  escape : List Char → Option (List Char × List Char)
  shrinks : ∀ cs out rest, escape cs = some (out, rest) → out.length + rest.length ≤ cs.length

namespace CCompiler

variable (cc : CCompiler) {text out : List Char}

/-- What is read after the opening quote, where the closing one has to be the last character. -/
def readLiteral : Nat → List Char → Option (List Char)
  | 0, _ => none
  | fuel + 1, cs =>
    match cs with
    | [] => none
    | '"' :: cs => if cs = [] then some [] else none
    | '\n' :: _ => none
    | '\\' :: cs => (cc.escape cs).bind fun (out, cs) => (readLiteral fuel cs).map (out ++ ·)
    | c :: cs => if cc.crEndsLine ∧ c = '\r' then none else (readLiteral fuel cs).map (c :: ·)

/-- The string that a row with that text holds, up to its end.
mirrors generator.py:177: the text stands between the quotes as it is -/
def compiledText (text : List Char) : Option (List Char) :=
  (cc.readLiteral (text.length + 1) (text ++ ['"'])).map (·.takeWhile (· ≠ '\x00'))

/-- The characters that do not stand for themselves between quotes. -/
def special : List Char :=
  '"' :: '\\' :: '\n' :: '\x00' :: if cc.crEndsLine then ['\r'] else []

variable {cc}

theorem readLiteral_plain (h : ∀ c ∈ text, c ∉ cc.special) :
    cc.readLiteral (text.length + 1) (text ++ ['"']) = some text := by
  induction text with
  | nil => rfl
  | cons c text ih =>
    obtain ⟨hc, ht⟩ := forall_mem_cons.mp h
    simp only [special, mem_cons, not_or] at hc
    have hcr : ¬ (cc.crEndsLine ∧ c = '\r') := fun ⟨h, hr⟩ => hc.2.2.2.2 (by simp [h, hr])
    rw [length_cons, cons_append, readLiteral, if_neg hcr, ih ht]
    · rfl
    all_goals tauto

/-- A literal has fewer characters than its text, or each character of the text stands for itself
but perhaps for the end. -/
theorem readLiteral_shorter {fuel : Nat} {cs : List Char} (h : cc.readLiteral fuel cs = some out) :
    out.length + 1 < cs.length ∨ cs = out ++ ['"'] ∧ ∀ c ∈ out, c = '\x00' ∨ c ∉ cc.special := by
  induction fuel generalizing cs out with
  | zero => cases h
  | succ fuel ih =>
    unfold readLiteral at h
    split at h
    case h_1 => cases h
    case h_2 =>
      split at h
      · cases h
        exact .inr (by simp_all)
      · cases h
    case h_3 => cases h
    case h_4 rest =>
      -- the backslash itself gives no character
      obtain ⟨⟨o, rest'⟩, he, h⟩ := bind_eq_some_iff.mp h
      obtain ⟨out', hr, rfl⟩ := map_eq_some_iff.mp h
      have hle := cc.shrinks _ _ _ he
      have hlen : out'.length + 1 ≤ rest'.length := by
        rcases ih hr with hlt | ⟨rfl, -⟩
        · exact hlt.le
        · simp
      left
      simp only [length_append, length_cons]
      omega
    case h_5 c rest hq hn hb =>
      split at h
      · cases h
      rename_i hcr
      obtain ⟨out', hr, rfl⟩ := map_eq_some_iff.mp h
      refine (ih hr).imp (by simp) ?_
      rintro ⟨rfl, hout⟩
      refine ⟨rfl, forall_mem_cons.mpr ⟨?_, hout⟩⟩
      rw [or_iff_not_imp_left]
      intro hnul
      simp only [special, mem_cons, not_or]
      refine ⟨hq, hb, hn, hnul, fun hc => hcr ?_⟩
      split at hc
      · exact ⟨‹_›, mem_singleton.mp hc⟩
      · cases hc

theorem compiledText_eq_iff : cc.compiledText text = some text ↔ ∀ c ∈ text, c ∉ cc.special := by
  unfold compiledText
  constructor
  · intro h
    obtain ⟨out, hout, htake⟩ := map_eq_some_iff.mp h
    have hle : text.length ≤ out.length := by
      rw [← htake]
      exact (takeWhile_sublist _).length_le
    rcases readLiteral_shorter hout with hlt | ⟨heq, hall⟩
    · rw [length_append, length_singleton] at hlt
      omega
    · obtain rfl := append_cancel_right heq
      intro c hc
      refine (hall c hc).resolve_left ?_
      simpa using takeWhile_eq_self_iff.mp htake c hc
  · intro h
    rw [readLiteral_plain h, map_some, takeWhile_eq_self_iff.mpr fun c hc => ?_]
    have := h c hc
    simp only [special, mem_cons, not_or] at this
    simp [this]

end CCompiler

/-! ## The generator -/

def hex (i : Int) : List Char :=
  if i < 0 then '-' :: '0' :: 'x' :: toDigits 16 i.natAbs
  else '0' :: 'x' :: toDigits 16 i.natAbs

/-- `" ".join(ts)`. -/
def joinSpace : List (List Char) → List Char
  | [] => []
  | [t] => t
  | t :: u :: ts => t ++ ' ' :: joinSpace (u :: ts)

/-- The text of a property.
mirrors generator.py:170-176 -/
def DtsProperty.text (p : DtsProperty) : List Char :=
  match p.ints, p.strings, p.phandles with
  | i :: is, _, _ => joinSpace ((i :: is).map hex)
  | [], s :: _, _ => s.toList
  | [], [], l :: _ => l.toList
  | [], [], [] => []

/-- The properties left out of the array.
mirrors generator.py:164-165 -/
def structuralProps : List String :=
  ["compatible", "depends-on", "depends_on", "status", "criticality"]

/-- The properties left out of the count.
mirrors generator.py:289 -/
def excludedProps : List String :=
  ["compatible", "depends-on", "depends_on", "status", "criticality", "direct"]

/-- The part of `struct device_node` that the getters read. -/
structure DeviceNode where
  propCount : Nat
  props : List (String × List Char)
  deriving DecidableEq

def propRows (props : List DtsProperty) : List (String × List Char) :=
  (props.filter (·.name ∉ structuralProps)).map fun p => (p.name, p.text)

def counted (props : List DtsProperty) : Nat := (props.filter (·.name ∉ excludedProps)).length

/-- mirrors generator.py:162-179, 291-294, 324-325 (`_gen_board_devtable_c`) -/
def genDeviceNode (props : List DtsProperty) : DeviceNode where
  propCount := counted props % 256
  props := if props.any (·.name ∉ excludedProps) then propRows props else []

/-! ## The getters -/

def digitValue (c : Char) : Option Nat :=
  if '0' ≤ c ∧ c ≤ '9' then some (c.toNat - '0'.toNat)
  else if 'a' ≤ c ∧ c ≤ 'f' then some (c.toNat - 'a'.toNat + 10)
  else if 'A' ≤ c ∧ c ≤ 'F' then some (c.toNat - 'A'.toNat + 10)
  else none

/-- The loop over the digits. A blank ends the number.
mirrors board_device.c:285-309 -/
def parseDigits (base limit : Nat) : Nat → List Char → Option Nat
  | val, [] => some val
  | val, c :: cs =>
    if c = ' ' then some val
    else match digitValue c with
      | none => none
      | some d =>
        if base ≤ d then none
        else if (limit - d) / base < val then none
        else parseDigits base limit (val * base + d) cs

/-- The digits after the sign: their base and the rest; `none` for a lone `0`.
mirrors board_device.c:267-279 -/
def splitBase : List Char → Option (Nat × List Char)
  | '0' :: 'x' :: cs | '0' :: 'X' :: cs => some (16, cs)
  | ['0'] => none
  | '0' :: cs => some (8, cs)
  | cs => some (10, cs)

def splitSign : List Char → Bool × List Char
  | '-' :: cs => (true, cs)
  | '+' :: cs => (false, cs)
  | cs => (false, cs)

def int32Limit (neg : Bool) : Nat := if neg then 2 ^ 31 else 2 ^ 31 - 1

/-- The number after the sign. `-(int)val` at the limit is taken to wrap.
mirrors board_device.c:266-312 -/
def parseMagnitude (neg : Bool) (cs : List Char) : Option Int :=
  match splitBase cs with
  | none => some 0
  | some (base, cs) =>
    if cs = [] then none
    else (parseDigits base (int32Limit neg) 0 cs).map fun val : Nat => if neg then -val else val

/-- mirrors board_device.c:253-313 -/
def safeParseInt32 (str : List Char) : Option Int :=
  if str = [] then none else parseMagnitude (splitSign str).1 (splitSign str).2

/-- The loop of `device_get_prop_int_array` with room for `maxLen` more numbers.
mirrors board_device.c:366-391 -/
def parseTokens : Nat → List Char → Option (List Int)
  | 0, _ => some []
  | maxLen + 1, cs =>
    match cs.dropWhile (· = ' ') with
    | [] => some []
    | c :: cs =>
      let token := (c :: cs).takeWhile (· ≠ ' ')
      if 64 ≤ token.length then none
      else match safeParseInt32 token with
        | none => none
        | some v => (parseTokens maxLen ((c :: cs).dropWhile (· ≠ ' '))).map (v :: ·)

namespace DeviceNode

section
variable (cc : CCompiler) (node : DeviceNode) (p : DtsProperty) (key : String)

/-- The search of the getters: the rows below `prop_count`. -/
def lookup : Option (List Char) :=
  ((node.props.take node.propCount).find? (·.1 = key)).bind fun row => cc.compiledText row.2

/-- mirrors board_device.c:325-338 (`device_get_prop_int`) -/
def getPropInt : Option Int := (node.lookup cc key).bind safeParseInt32

/-- mirrors board_device.c:348-392 (`device_get_prop_int_array`) -/
def getPropIntArray (maxLen : Nat) : Option (List Int) :=
  if maxLen = 0 then none else (node.lookup cc key).bind (parseTokens maxLen)

/-- mirrors board_device.c:401-413 (`device_get_prop_str`) -/
def getPropStr : Option (List Char) := node.lookup cc key

/-- The property is found with its text, and the getters give its value back: the first and all
numbers of a list of numbers, or the one string or label. -/
def Found : Prop := node.getPropStr cc p.name = some p.text ∧
    if p.ints = [] then p.strings.length + p.phandles.length ≤ 1
    else p.strings = [] ∧ p.phandles = [] ∧ node.getPropInt cc p.name = p.ints.head? ∧
      node.getPropIntArray cc p.name p.ints.length = some p.ints

end

end DeviceNode

/-- The array is C, every property outside of the structural ones is found with its value, and
nothing is exposed that the node does not have. -/
structure Complete (cc : CCompiler) (props : List DtsProperty) : Prop where
  compiles : ∀ p ∈ props, p.name ∉ structuralProps → (cc.compiledText p.text).isSome
  found : ∀ p ∈ props, p.name ∉ excludedProps → (genDeviceNode props).Found cc p
  sound : ∀ key v, (genDeviceNode props).getPropStr cc key = some v → ∃ p ∈ props, p.name = key

/-! ## Numbers -/

variable {d n base limit v : Nat} {rest : List Char} {key : String} {props : List DtsProperty}
  {p : DtsProperty} {c : Char} {i : Int} {cc : CCompiler}

theorem digitValue_digitChar (hd : d < 16) : digitValue d.digitChar = some d := by
  have h : ∀ d < 16, digitValue d.digitChar = some d := by decide
  exact h d hd

theorem digitChar_ne_space (hd : d < 16) : d.digitChar ≠ ' ' := by
  have h : ∀ d < 16, Nat.digitChar d ≠ ' ' := by decide
  exact h d hd

theorem mem_toDigits (hc : c ∈ toDigits 16 n) : ∃ d < 16, c = d.digitChar := by
  induction n using Nat.strongRecOn with
  | ind n ih =>
    rw [Nat.toDigits_eq_if (by decide)] at hc
    split at hc
    · rename_i hlt
      exact ⟨n, hlt, mem_singleton.mp hc⟩
    · rcases mem_append.mp hc with hc | hc
      · exact ih (n / 16) (by omega) hc
      · exact ⟨n % 16, mod_lt _ (by decide), mem_singleton.mp hc⟩

theorem toDigits_ne_space (hc : c ∈ toDigits 16 n) : c ≠ ' ' := by
  obtain ⟨d, hd, he⟩ := mem_toDigits hc
  rw [he]
  exact digitChar_ne_space hd

/-- The value of a run of digits after `v`. -/
def foldDigits (base : Nat) : Nat → List Char → Option Nat
  | v, [] => some v
  | v, c :: cs => (digitValue c).bind fun d =>
    if base ≤ d then none else foldDigits base (v * base + d) cs

theorem foldDigits_append (xs ys : List Char) : foldDigits base v (xs ++ ys) =
    (foldDigits base v xs).bind fun v => foldDigits base v ys := by
  induction xs generalizing v with
  | nil => rfl
  | cons c xs ih => cases hd : digitValue c <;> simp [foldDigits, hd, ih, apply_ite]; grind

/-- The digits of a number, in letters of either size. -/
theorem foldDigits_toDigits {f : Char → Char} (hf : ∀ d < 16, digitValue (f d.digitChar) = some d)
    (n : Nat) : foldDigits 16 0 ((toDigits 16 n).map f) = some n := by
  have hone : ∀ d < 16, ∀ v, foldDigits 16 v [f d.digitChar] = some (v * 16 + d) := by
    intro d hd v
    simp [foldDigits, hf d hd, hd]
  induction n using Nat.strongRecOn with
  | ind n ih =>
    rw [Nat.toDigits_eq_if (by decide)]
    split
    · rename_i hlt
      simpa using hone n hlt 0
    · rw [map_append, foldDigits_append, ih (n / 16) (by omega), bind_some]
      refine (hone _ (mod_lt _ (by decide)) _).trans (congrArg some ?_)
      omega

variable {cs : List Char}

theorem le_of_foldDigits (hb : 0 < base) (h : foldDigits base v cs = some n) : v ≤ n := by
  induction cs generalizing v with
  | nil => simp_all [foldDigits]
  | cons c cs ih =>
    simp only [foldDigits, bind_eq_some_iff] at h
    obtain ⟨d, -, h⟩ := h
    split at h
    · cases h
    · have hle := ih h
      have := Nat.le_mul_of_pos_right v hb
      omega

/-- The range check before each digit is a range check of the whole number. -/
theorem parseDigits_eq (hb : 0 < base) (hl : base ≤ limit + 1) (hv : v ≤ limit)
    (hs : ' ' ∉ cs) : parseDigits base limit v cs = (foldDigits base v cs).filter (· ≤ limit) := by
  induction cs generalizing v with
  | nil => simp [parseDigits, foldDigits, Option.filter, hv]
  | cons c cs ih =>
    obtain ⟨hc, hcs⟩ : ' ' ≠ c ∧ ' ' ∉ cs := by simpa using hs
    rw [parseDigits, if_neg hc.symm, foldDigits]
    cases digitValue c with
    | none => rfl
    | some d =>
      dsimp only [bind_some]
      by_cases hd : base ≤ d
      · rw [if_pos hd, if_pos hd]
        rfl
      have hiff : (limit - d) / base < v ↔ limit < v * base + d := by
        rw [Nat.div_lt_iff_lt_mul hb]
        omega
      rw [if_neg hd, if_neg hd]
      by_cases hover : limit < v * base + d
      · rw [if_pos (hiff.mpr hover), eq_comm, filter_eq_none_iff]
        intro r hr
        have := le_of_foldDigits hb hr
        simp
        omega
      · rw [if_neg (mt hiff.mp hover), ih (by omega) hcs]

def IsInt32 (i : Int) : Prop := -2147483648 ≤ i ∧ i ≤ 2147483647
  deriving Decidable

/-- The range is that of the whole number with its sign. -/
theorem int32_iff (neg : Bool) (v : Nat) :
    v ≤ int32Limit neg ↔ IsInt32 (if neg then -(v : Int) else v) := by
  cases neg <;> simp [int32Limit, IsInt32] <;> omega

theorem filter_int32Limit (neg : Bool) (o : Option Nat) :
    (o.filter (· ≤ int32Limit neg)).map (fun v : Nat => if neg then -(v : Int) else v) =
      (o.map fun v : Nat => if neg then -(v : Int) else v).filter (IsInt32 ·) := by
  cases o with
  | none => rfl
  | some v =>
    rw [Option.filter, Option.map_some, Option.filter, apply_ite (Option.map _)]
    simp only [decide_eq_true_eq, int32_iff]
    rfl

theorem parseDigits_blank (hr : ∀ c ∈ rest.head?, c = ' ') (xs : List Char) :
    parseDigits base limit v (xs ++ rest) = parseDigits base limit v xs := by
  induction xs generalizing v with
  | nil => cases rest <;> simp_all [parseDigits]
  | cons c xs ih => simp only [cons_append, parseDigits, ih]

theorem toDigits_ne_nil (n : Nat) : toDigits 16 n ≠ [] := by
  rw [Nat.toDigits_eq_if (by decide)]
  split <;> simp

theorem parseMagnitude_hex (neg : Bool) (n : Nat) (hr : ∀ c ∈ rest.head?, c = ' ') :
    parseMagnitude neg ('0' :: 'x' :: toDigits 16 n ++ rest) =
      (some (if neg then -(n : Int) else n)).filter (IsInt32 ·) := by
  have hl : 16 ≤ int32Limit neg + 1 := by cases neg <;> decide
  have hs : splitBase ('0' :: 'x' :: toDigits 16 n ++ rest) =
      some (16, toDigits 16 n ++ rest) := rfl
  have hne : toDigits 16 n ++ rest ≠ [] := append_ne_nil_of_left_ne_nil (toDigits_ne_nil n) _
  have hd : foldDigits 16 0 (toDigits 16 n) = some n := by
    simpa using foldDigits_toDigits (f := id) (fun d => digitValue_digitChar) n
  unfold parseMagnitude
  rw [hs]
  dsimp only
  rw [if_neg hne, parseDigits_blank hr, parseDigits_eq (by decide) hl (Nat.zero_le _)
    fun hc => toDigits_ne_space hc rfl, hd, filter_int32Limit]
  rfl

theorem safeParseInt32_hex (i : Int) (hr : ∀ c ∈ rest.head?, c = ' ') :
    safeParseInt32 (hex i ++ rest) = if IsInt32 i then some i else none := by
  have hmag : safeParseInt32 (hex i ++ rest) =
      parseMagnitude (decide (i < 0)) ('0' :: 'x' :: toDigits 16 i.natAbs ++ rest) := by
    by_cases hneg : i < 0 <;> simp [hex, hneg, safeParseInt32, splitSign]
  have hv : (if decide (i < 0) then -(i.natAbs : Int) else i.natAbs) = i := by
    split <;> grind
  rw [hmag, parseMagnitude_hex _ _ hr, hv]
  simp [Option.filter]

/-! ## Lists of numbers -/

theorem hex_ne_space (hc : c ∈ hex i) : c ≠ ' ' := by
  rintro rfl
  have hd := toDigits_ne_space (c := ' ') (n := i.natAbs)
  unfold hex at hc
  split at hc <;> simp_all

theorem hex_ne_nil (i : Int) : hex i ≠ [] := by
  unfold hex
  split <;> exact cons_ne_nil _ _

theorem length_hex (hi : IsInt32 i) : (hex i).length < 64 := by
  have hn : i.natAbs < 16 ^ 8 := by
    have := hi.1
    have := hi.2
    omega
  have hd := (Nat.length_toDigits_le_iff (by decide)
    (by decide)).mpr hn
  unfold hex
  split <;> simp only [length_cons] <;> omega

/-- A run of characters of one kind, up to the end of the text or one of another kind. -/
theorem span_append {q : Char → Bool} {t : List Char} (ht : ∀ c ∈ t, q c)
    (hr : ∀ c ∈ rest.head?, q c = false) :
    (t ++ rest).takeWhile q = t ∧ (t ++ rest).dropWhile q = rest := by
  rw [takeWhile_append_of_pos ht, dropWhile_append_of_pos ht]
  cases rest with
  | nil => exact ⟨append_nil t, rfl⟩
  | cons b rest => simp [hr b rfl]

theorem parseTokens_append {t : List Char} (ht : t ≠ []) (hs : ∀ c ∈ t, c ≠ ' ')
    (hr : ∀ c ∈ rest.head?, c = ' ') : parseTokens (n + 1) (t ++ rest) = if 64 ≤ t.length then none
      else (safeParseInt32 t).bind fun v => (parseTokens n rest).map (v :: ·) := by
  obtain ⟨htake, hdrop⟩ := span_append (q := (· ≠ ' ')) (by simpa using hs) (by simpa using hr)
  obtain ⟨c, cs, rfl⟩ := exists_cons_of_ne_nil ht
  have hskip : (c :: cs ++ rest).dropWhile (· = ' ') = c :: (cs ++ rest) := by
    rw [cons_append, dropWhile_cons_of_neg (by simpa using hs c mem_cons_self)]
  rw [parseTokens, hskip]
  simp only [← cons_append, htake, hdrop]
  cases safeParseInt32 (c :: cs) <;> rfl

theorem parseTokens_hex (hr : ∀ c ∈ rest.head?, c = ' ') :
    parseTokens (n + 1) (hex i ++ rest) =
      if IsInt32 i then (parseTokens n rest).map (i :: ·) else none := by
  have hp : safeParseInt32 (hex i) = if IsInt32 i then some i else none := by
    have h := @safeParseInt32_hex [] i (by simp)
    rwa [append_nil] at h
  rw [parseTokens_append (hex_ne_nil i) (fun c => hex_ne_space) hr, hp]
  by_cases hi : IsInt32 i
  · have hlen := length_hex hi
    rw [if_pos hi, if_pos hi, if_neg (by omega), bind_some]
  · rw [if_neg hi, if_neg hi, bind_none, ite_self]

/-- The text of a list is that of its first number and, behind a blank, that of the others. -/
theorem joinSpace_cons (i : Int) (is : List Int) : ∃ rest, (∀ c ∈ rest.head?, c = ' ') ∧
    joinSpace ((i :: is).map hex) = hex i ++ rest ∧
    ∀ n, parseTokens n rest = parseTokens n (joinSpace (is.map hex)) := by
  cases is with
  | nil => exact ⟨[], by simp, (append_nil _).symm, fun _ => rfl⟩
  | cons j js => exact ⟨' ' :: joinSpace ((j :: js).map hex), by simp, rfl, fun n => by cases n <;> rfl⟩

/-- The single number that is read from a list is its first. -/
theorem safeParseInt32_joinSpace (i : Int) (is : List Int) :
    safeParseInt32 (joinSpace ((i :: is).map hex)) = if IsInt32 i then some i else none := by
  obtain ⟨rest, hr, hj, -⟩ := joinSpace_cons i is
  rw [hj, safeParseInt32_hex i hr]

/-- The numbers that are asked for read back exactly when each of them is an `int32_t`. -/
theorem parseTokens_joinSpace (n : Nat) (is : List Int) : parseTokens n (joinSpace (is.map hex)) =
      if ∀ i ∈ is.take n, IsInt32 i then some (is.take n) else none := by
  induction n generalizing is with
  | zero => rfl
  | succ n ih =>
    cases is with
    | nil => rfl
    | cons i is =>
      obtain ⟨rest, hr, hj, hrest⟩ := joinSpace_cons i is
      rw [take_succ_cons, if_congr forall_mem_cons rfl rfl, ite_and, hj, parseTokens_hex hr, hrest, ih]
      split
      · split <;> rfl
      · rfl

theorem mem_joinSpace {ts : List (List Char)} (hc : c ∈ joinSpace ts) :
    c = ' ' ∨ ∃ t ∈ ts, c ∈ t := by
  induction ts using joinSpace.induct with
  | case1 => cases hc
  | case2 t => exact .inr ⟨t, mem_singleton_self t, hc⟩
  | case3 t u ts ih =>
    rcases mem_append.mp hc with hc | hc
    · exact .inr ⟨t, mem_cons_self, hc⟩
    rcases mem_cons.mp hc with hc | hc
    · exact .inl hc
    · exact (ih hc).imp_right fun ⟨t, ht, hc⟩ => ⟨t, mem_cons_of_mem _ ht, hc⟩

theorem special_subset : cc.special ⊆ ['"', '\\', '\n', '\x00', '\r'] := by
  unfold CCompiler.special
  split <;> simp

/-- Numbers are written in characters that stand for themselves. -/
theorem compiledText_joinSpace (is : List Int) :
    cc.compiledText (joinSpace (is.map hex)) = some (joinSpace (is.map hex)) := by
  rw [CCompiler.compiledText_eq_iff]
  intro c hc hs
  have hplain : c ∉ ['"', '\\', '\n', '\x00', '\r'] := by
    rcases mem_joinSpace hc with rfl | ⟨t, ht, hc⟩
    · decide
    obtain ⟨i, -, rfl⟩ := mem_map.mp ht
    have hcases : c ∈ ['-', '0', 'x'] ∨ c ∈ toDigits 16 i.natAbs := by
      unfold hex at hc
      split at hc <;> simp only [mem_cons] at hc ⊢ <;> tauto
    rcases hcases with hc | hc
    · simp only [mem_cons, not_mem_nil, or_false] at hc
      rcases hc with rfl | rfl | rfl <;> decide
    · obtain ⟨d, hd, rfl⟩ := mem_toDigits hc
      clear * - hd
      decide +revert
  exact hplain (special_subset hs)

/-! ## The search -/

/-- The value has a form that the table keeps: numbers of 32 bits, or one string or label of
characters that stand for themselves. -/
def DtsProperty.Writable (cc : CCompiler) (p : DtsProperty) : Prop :=
  if p.ints = [] then p.strings.length + p.phandles.length ≤ 1 ∧ ∀ c ∈ p.text, c ∉ cc.special
  else p.strings = [] ∧ p.phandles = [] ∧ ∀ i ∈ p.ints, IsInt32 i

/-- The first property of that name is written with the same text. -/
def FirstAgrees (props : List DtsProperty) (p : DtsProperty) : Prop :=
  ∀ q ∈ props.find? (·.name = p.name), q.text = p.text
  deriving Decidable

/-- The name is among as many names of the array as there are counted properties. -/
def Counted (props : List DtsProperty) (key : String) : Prop :=
  key ∈ ((props.filter (·.name ∉ structuralProps)).take (counted props % 256)).map (·.name)
  deriving Decidable

theorem structural_excluded (h : key ∈ structuralProps) : key ∈ excludedProps :=
  mem_append_left ["direct"] h

/-- What the search finds: the first row of that name, if it is counted. -/
theorem lookup_genDeviceNode (props : List DtsProperty) (key : String) :
    (genDeviceNode props).lookup cc key =
      (((props.filter (·.name ∉ structuralProps)).take (counted props % 256)).find?
        (·.name = key)).bind fun p => cc.compiledText p.text := by
  have hrows : (genDeviceNode props).props.take (genDeviceNode props).propCount =
      (propRows props).take (counted props % 256) := by
    unfold genDeviceNode
    dsimp only
    split
    · rfl
    rename_i hnone
    have hc : counted props = 0 := by
      unfold counted
      rw [List.length_eq_zero_iff, List.filter_eq_nil_iff]
      intro p hp hex
      exact hnone (List.any_eq_true.mpr ⟨p, hp, hex⟩)
    rw [hc, List.take_nil]
    rfl
  unfold DeviceNode.lookup
  rw [hrows, propRows, ← List.map_take, List.find?_map, Option.bind_map]
  rfl

theorem find_filter_structural (hk : key ∉ structuralProps) :
    (props.filter (·.name ∉ structuralProps)).find? (·.name = key) =
      props.find? (·.name = key) := by
  rw [List.find?_filter]
  congr 1
  funext p
  by_cases hp : p.name = key
  · simp [hp, hk]
  · simp [hp]

/-- A counted name is found with what its first property is compiled to. -/
theorem lookup_counted (hk : key ∉ structuralProps) (hc : Counted props key) :
    (genDeviceNode props).lookup cc key =
      (props.find? (·.name = key)).bind fun p => cc.compiledText p.text := by
  rw [lookup_genDeviceNode]
  obtain ⟨p, hp, hname⟩ := mem_map.mp hc
  have hsome : (((props.filter (·.name ∉ structuralProps)).take (counted props % 256)).find?
      (·.name = key)).isSome := by
    rw [List.find?_isSome]
    exact ⟨p, hp, decide_eq_true hname⟩
  obtain ⟨q, hq⟩ := isSome_iff_exists.mp hsome
  rw [hq, ← find_filter_structural hk, ( take_prefix _ _).find?_eq_some hq]

theorem counted_of_lookup {v : List Char} (h : (genDeviceNode props).lookup cc key = some v) :
    Counted props key := by
  rw [lookup_genDeviceNode] at h
  obtain ⟨p, hp, -⟩ := bind_eq_some_iff.mp h
  have hname := List.find?_some hp
  exact mem_map.mpr ⟨p, mem_of_find?_eq_some hp, of_decide_eq_true hname⟩

/-- A property is found with its text if the first one of its name is written so that this text is
read. -/
theorem getPropStr_iff (hn : p.name ∉ excludedProps) {q : DtsProperty}
    (hq : props.find? (·.name = p.name) = some q) :
    (genDeviceNode props).getPropStr cc p.name = some p.text ↔
      cc.compiledText q.text = some p.text ∧ Counted props p.name := by
  have hk : p.name ∉ structuralProps := fun h => hn (structural_excluded h)
  unfold DeviceNode.getPropStr
  refine ⟨fun h => ?_, fun ⟨h, hc⟩ => ?_⟩
  · have hc := counted_of_lookup h
    rw [lookup_counted hk hc, hq, bind_some] at h
    exact ⟨h, hc⟩
  · rw [lookup_counted hk hc, hq, bind_some, h]

theorem text_of_ints {is : List Int} (hi : p.ints = i :: is) :
    p.text = joinSpace ((i :: is).map hex) := by
  unfold DtsProperty.text
  rw [hi]

theorem found_iff {node : DeviceNode} (hplain : ∀ c ∈ p.text, c ∉ cc.special) :
    node.Found cc p ↔ node.getPropStr cc p.name = some p.text ∧ p.Writable cc := by
  unfold DeviceNode.Found DtsProperty.Writable
  refine and_congr_right fun hstr => ?_
  cases hi : p.ints with
  | nil => rw [if_pos rfl, if_pos rfl, and_iff_left hplain]
  | cons i is =>
    rw [if_neg (cons_ne_nil _ _), if_neg (cons_ne_nil _ _)]
    refine and_congr_right fun _ => and_congr_right fun _ => ?_
    have hlook : node.lookup cc p.name = some (joinSpace ((i :: is).map hex)) :=
      text_of_ints hi ▸ hstr
    have harr : node.getPropIntArray cc p.name (i :: is).length =
        parseTokens (i :: is).length (joinSpace ((i :: is).map hex)) := by
      unfold DeviceNode.getPropIntArray
      rw [if_neg (by simp), hlook, bind_some]
    have hint : node.getPropInt cc p.name = safeParseInt32 (joinSpace ((i :: is).map hex)) := by
      unfold DeviceNode.getPropInt
      rw [hlook, bind_some]
    rw [harr, hint, parseTokens_joinSpace, take_length, safeParseInt32_joinSpace]
    by_cases hall : ∀ j ∈ i :: is, IsInt32 j
    · rw [if_pos hall, if_pos (hall i mem_cons_self)]
      exact ⟨fun _ => hall, fun _ => ⟨rfl, rfl⟩⟩
    · rw [if_neg hall]
      exact ⟨fun h => absurd h.2 (by simp), fun h => absurd h hall⟩

theorem getPropStr_sound {v : List Char}
    (h : (genDeviceNode props).getPropStr cc key = some v) : ∃ p ∈ props, p.name = key := by
  obtain ⟨p, hp, hname⟩ := mem_map.mp (counted_of_lookup h)
  exact ⟨p, (mem_filter.mp (mem_of_mem_take hp)).1, hname⟩

theorem DtsProperty.Writable.plain (h : p.Writable cc) : ∀ c ∈ p.text, c ∉ cc.special := by
  cases hi : p.ints with
  | nil =>
    rw [Writable, if_pos hi] at h
    exact h.2
  | cons i is =>
    rw [text_of_ints hi]
    exact CCompiler.compiledText_eq_iff.mp (compiledText_joinSpace _)

/-- A `direct` device with one register: the array is `direct`, `reg` and the count is 1. -/
def directNode : List DtsProperty := [⟨"direct", [], [], []⟩, ⟨"reg", [], [0x40013800, 0x400], []⟩]

/-- Hexadecimal after `0x`, else decimal. -/
def radix : List Char → Nat × List Char
  | '0' :: 'x' :: cs | '0' :: 'X' :: cs => (16, cs)
  | cs => (10, cs)

/-- The value of an optionally signed decimal or `0x` hexadecimal number. -/
def numeral (token : List Char) : Option Int :=
  let (neg, cs) := splitSign token
  let (base, ds) := radix cs
  if ds = [] then none
  else (foldDigits base 0 ds).map fun v : Nat => if neg then -(v : Int) else v

/-- The parser accepts the token exactly when it is a number in range, with its value. -/
def ReadExactly (token : List Char) : Prop :=
  safeParseInt32 token = (numeral token).filter (IsInt32 ·)
  deriving Decidable

/-- The table of a device whose one property is that list of cells. -/
def cellNode (key : String) (cells : List Int) : DeviceNode := genDeviceNode [⟨key, [], cells, []⟩]

/-- Both getters give the cells back as 32-bit words, up to the caller's capacity. -/
def CellsSurvive (cells : List Int) : Prop :=
  ∀ (cc : CCompiler), ∀ key ∉ excludedProps, ∀ maxLen, 0 < maxLen →
    ((cellNode key cells).getPropInt cc key).map (· % 2 ^ 32) = cells.head?.map (· % 2 ^ 32) ∧
    ((cellNode key cells).getPropIntArray cc key maxLen).map (·.map (· % 2 ^ 32)) =
      some ((cells.take maxLen).map (· % 2 ^ 32))

/-- The digits are read as they are written: a number that a blank ends is refused, and digits behind
a leading zero give the same in base 8 and in base 10, or no number in range. -/
def SameInC (token : List Char) : Prop :=
  let inRange (v : Nat) := v ≤ int32Limit (splitSign token).1
  ∀ x ∈ splitBase (splitSign token).2,
    if ' ' ∈ x.2 then (foldDigits x.1 0 (x.2.takeWhile (· ≠ ' '))).filter (inRange ·) = none
    else x.1 = 8 → (foldDigits 8 0 x.2).filter (inRange ·) = (foldDigits 10 0 x.2).filter (inRange ·)

theorem lookup_single (hn : p.name ∉ excludedProps) :
    (genDeviceNode [p]).lookup cc p.name = cc.compiledText p.text := by
  have hs : p.name ∉ structuralProps := fun h => hn (structural_excluded h)
  simp [DeviceNode.lookup, genDeviceNode, counted, propRows, hn, hs]

theorem splitBase_cases (cs : List Char) : cs = ['0'] ∨ splitBase cs = some (radix cs) ∨
    ∃ ds, ds ≠ [] ∧ cs = '0' :: ds ∧ splitBase cs = some (8, ds) ∧ radix cs = (10, cs) := by
  fun_cases splitBase cs <;> simp_all [radix]

theorem foldDigits_blank (h : ' ' ∈ cs) : foldDigits base v cs = none := by
  induction cs generalizing v with
  | nil => cases h
  | cons c cs ih =>
    rw [foldDigits]
    rcases mem_cons.mp h with rfl | h
    · rfl
    · cases digitValue c with
      | none => rfl
      | some d =>
        rw [bind_some, ih h, ite_self]

theorem parseDigits_takeWhile (hb : 0 < base) (hl : base ≤ limit + 1) (cs : List Char) :
    parseDigits base limit 0 cs = (foldDigits base 0 (cs.takeWhile (· ≠ ' '))).filter (· ≤ limit) := by
  conv_lhs => rw [← takeWhile_append_dropWhile (p := (· ≠ ' ')) (l := cs)]
  rw [parseDigits_blank (fun c hc => ?_), parseDigits_eq hb hl (Nat.zero_le _) fun h => ?_]
  · simpa using mem_takeWhile_imp h
  · have := head?_dropWhile_not (· ≠ ' ') cs
    rw [hc] at this
    simpa using this

/-- The number read from digits, and the one they are in `base'`. -/
theorem read_iff {neg : Bool} {base' : Nat} {ds : List Char} (hb : 0 < base) (hl : base ≤ 16)
    (h8 : base ≠ 8 → base' = base) (h10 : base = 8 → base' = 10) :
    (parseDigits base (int32Limit neg) 0 ds).map (fun v : Nat => if neg then -(v : Int) else v) =
        ((foldDigits base' 0 ds).map fun v : Nat => if neg then -(v : Int) else v).filter (IsInt32 ·) ↔
      if ' ' ∈ ds then
        (foldDigits base 0 (ds.takeWhile (· ≠ ' '))).filter (· ≤ int32Limit neg) = none
      else base = 8 → (foldDigits 8 0 ds).filter (· ≤ int32Limit neg) =
        (foldDigits 10 0 ds).filter (· ≤ int32Limit neg) := by
  have hinj : Function.Injective fun v : Nat => if neg then -(v : Int) else v := by
    intro a b hab
    cases neg <;> simpa using hab
  have hlim : 15 ≤ int32Limit neg := by cases neg <;> decide
  rw [← filter_int32Limit, (Option.map_injective hinj).eq_iff, parseDigits_takeWhile hb (by omega)]
  split
  case isTrue hs => rw [foldDigits_blank (hs : ' ' ∈ ds)]; rfl
  case isFalse hs =>
    rw [takeWhile_eq_self_iff.mpr fun c hc => by simpa using fun h : c = ' ' => hs (h ▸ hc)]
    by_cases hbase : base = 8
    · simp [hbase, h10 hbase]
    · simp [hbase, h8 hbase]

theorem readExactly_iff (token : List Char) : ReadExactly token ↔ SameInC token := by
  have hmag : safeParseInt32 token = parseMagnitude (splitSign token).1 (splitSign token).2 := by
    cases token <;> rfl
  unfold ReadExactly SameInC numeral
  rw [hmag]
  generalize splitSign token = sc at *
  obtain ⟨neg, cs⟩ := sc
  dsimp only
  rcases splitBase_cases cs with rfl | hb | ⟨ds, hne, rfl, hb, hr⟩
  · cases neg <;> decide
  · have hr : 0 < (radix cs).1 ∧ (radix cs).1 ≤ 16 ∧ (radix cs).1 ≠ 8 := by
      fun_cases radix cs <;> simp
    rw [parseMagnitude, hb]
    dsimp only
    by_cases hds : (radix cs).2 = []
    · simp [hds, hr.2.2]
    rw [if_neg hds, if_neg hds, read_iff hr.1 hr.2.1 (fun _ => rfl) fun h => absurd h hr.2.2]
    simp
  · rw [parseMagnitude, hb, hr]
    dsimp only
    have hzero : foldDigits 10 0 ('0' :: ds) = foldDigits 10 0 ds := rfl
    rw [if_neg hne, if_neg (cons_ne_nil _ _), hzero, read_iff (by decide) (by decide)
      (fun h => absurd rfl h) fun _ => rfl]
    simp

theorem cellsSurvive_iff {cells : List Int} : CellsSurvive cells ↔ ∀ i ∈ cells, IsInt32 i := by
  have hlook : ∀ cc key, key ∉ excludedProps →
      (cellNode key cells).lookup cc key = some (joinSpace (cells.map hex)) := by
    intro cc key hkey
    have ht : (⟨key, [], cells, []⟩ : DtsProperty).text = joinSpace (cells.map hex) := by
      cases cells <;> rfl
    refine (lookup_single (p := ⟨key, [], cells, []⟩) hkey).trans ?_
    rw [ht, compiledText_joinSpace]
  constructor
  · intro h i hi
    have harr := (h ⟨false, fun _ => none, fun _ _ _ h => by cases h⟩ "reg" (by decide)
      cells.length (length_pos_of_mem hi)).2
    rw [DeviceNode.getPropIntArray, if_neg (length_pos_of_mem hi).ne', hlook _ _ (by decide),
      bind_some, parseTokens_joinSpace, take_length] at harr
    by_contra hni
    rw [if_neg fun hall => hni (hall i hi)] at harr
    cases harr
  intro h cc key hkey maxLen hpos
  have htake : ∀ i ∈ cells.take maxLen, IsInt32 i := fun i hi => h i (mem_of_mem_take hi)
  rw [DeviceNode.getPropInt, DeviceNode.getPropIntArray, if_neg (by omega), hlook _ _ hkey, bind_some,
    bind_some, parseTokens_joinSpace, if_pos htake]
  refine ⟨?_, rfl⟩
  cases cells with
  | nil => rfl
  | cons i is => rw [safeParseInt32_joinSpace, if_pos (h i mem_cons_self), head?_cons]

theorem cells_round_trip_iff (cells : List Int) (token : List Char) :
    CellsSurvive cells ∧ ReadExactly token ↔ (∀ i ∈ cells, IsInt32 i) ∧ SameInC token :=
  and_congr cellsSurvive_iff (readExactly_iff token)

/-- An address in the upper half of the 32-bit range is refused, and `010` is read as 8. -/
theorem cells_round_trip_fails : ¬ CellsSurvive [0x80000000] ∧ ¬ ReadExactly "010".toList := by
  refine ⟨fun h => ?_, by decide⟩
  have hint := cellsSurvive_iff.mp h _ mem_cons_self
  exact absurd hint (by decide)

/-! ## Strings -/

/-- What the grammar accepts between the quotes.
mirrors grammar.py:82 (`STRING`) -/
def acceptedString : List Char → Bool
  | [] => true
  | ['\\'] => false
  | '\\' :: c :: cs => c ≠ '\n' && acceptedString cs
  | c :: cs => c ≠ '"' && acceptedString cs

/-- mirrors parser.py:123-140 -/
def decodeString : List Char → List Char
  | [] => []
  | ['\\'] => []
  | '\\' :: c :: cs => (if c = 'n' then '\n' else if c = 't' then '\t' else c) :: decodeString cs
  | c :: cs => c :: decodeString cs

/-- A string literal of the source, without its quotes. -/
structure StringLiteral where
  raw : List Char
  accepted : acceptedString raw = true

/-- The literal is well formed C, and the getter gives the decoded characters back. -/
def StringSurvives (cc : CCompiler) (s : StringLiteral) : Prop :=
  ∀ key ∉ excludedProps,
    (genDeviceNode [⟨key, [String.ofList (decodeString s.raw)], [], []⟩]).getPropStr cc key =
      some (decodeString s.raw)

theorem stringSurvives_iff {s : StringLiteral} : StringSurvives cc s ↔
    cc.compiledText (decodeString s.raw) = some (decodeString s.raw) := by
  have hlook : ∀ key ∉ excludedProps,
      (genDeviceNode [⟨key, [String.ofList (decodeString s.raw)], [], []⟩]).getPropStr cc key =
        cc.compiledText (decodeString s.raw) := by
    intro key hkey
    have htext : (DtsProperty.mk key [String.ofList (decodeString s.raw)] [] []).text =
        decodeString s.raw := String.toList_ofList
    exact (lookup_single (p := ⟨key, [String.ofList (decodeString s.raw)], [], []⟩) hkey).trans
      (congrArg _ htext)
  refine ⟨fun h => (hlook "label" (by decide)).symm.trans (h "label" (by decide)), ?_⟩
  exact fun h key hkey => (hlook key hkey).trans h

theorem string_round_trip_iff (cc : CCompiler) (s : StringLiteral) :
    StringSurvives cc s ↔ ∀ c ∈ decodeString s.raw, c ∉ cc.special :=
  stringSurvives_iff.trans CCompiler.compiledText_eq_iff

/-- `"a\"b"` is written as `"a"b"`. -/
theorem string_round_trip_fails_at_quote :
    ¬ ∃ cc, StringSurvives cc ⟨['a', '\\', '"', 'b'], by decide⟩ := by
  rintro ⟨cc, h⟩
  have hread : cc.compiledText ['a', '"', 'b'] = some ['a', '"', 'b'] := stringSurvives_iff.mp h
  simp [CCompiler.compiledText, CCompiler.readLiteral] at hread

end MiniTree.Dtc
