import MiniTree.Core.Bytes

/-!
# Feeding a byte string in chunks

A running computation takes bytes by parts; the parts are read from a source, as many at a
time as a scratch buffer holds.

**Results.** `feedLoop_eq`: if the computation does not care where its input is cut, as long as it
is behind a whole number of units, and the source serves a byte string, the loop computes what one
feed of the whole part does, for every size of the buffer that is a whole number of units or holds
the part.
-/

namespace MiniTree.Core.Chunked

universe u v

variable {σ : Type u} {ε : Type v}

/-- Feeding nothing changes nothing, and a string may be fed in two parts, cut behind a multiple of
`unit` bytes. -/
structure Additive (unit : Nat) (feed : σ → Bytes → Except ε σ) : Prop where
  nil : ∀ s, feed s [] = .ok s
  append : ∀ s a b, a.length % unit = 0 → feed s (a ++ b) = (feed s a).bind fun s => feed s b

/-- Every request inside `img` is answered with the bytes that stand there. -/
def Serves (read : Nat → Nat → Except ε Bytes) (img : Bytes) : Prop :=
  ∀ off n, off + n ≤ img.length → read off n = .ok (slice img off n)

/-- `while (remaining > 0)`: a chunk is read and fed. The first argument bounds the passes;
`remaining` of them are enough. -/
def feedLoop (read : Nat → Nat → Except ε Bytes) (feed : σ → Bytes → Except ε σ) (size : Nat) :
    Nat → Nat → Nat → σ → Except ε σ
  | 0, _, _, s => .ok s
  | fuel + 1, off, remaining, s =>
    if remaining = 0 then .ok s
    else
      let chunk := if size < remaining then size else remaining
      (read off chunk).bind fun data => (feed s data).bind fun s =>
        feedLoop read feed size fuel (off + chunk) (remaining - chunk) s

theorem slice_add (img : Bytes) (off m n : Nat) :
    slice img off (m + n) = slice img off m ++ slice img (off + m) n := by
  simp only [slice, List.take_add, List.drop_drop]

variable {read : Nat → Nat → Except ε Bytes} {feed : σ → Bytes → Except ε σ} {img : Bytes}

/-- The loop asks for nothing outside the part. -/
theorem feedLoop_serves (hread : Serves read img) {size : Nat} : ∀ (fuel off remaining : Nat) (s : σ),
    off + remaining ≤ img.length → feedLoop read feed size fuel off remaining s =
      feedLoop (fun off n => .ok (slice img off n)) feed size fuel off remaining s := by
  intro fuel
  induction fuel with
  | zero => exact fun _ _ _ _ => rfl
  | succ fuel ih =>
    intro off remaining s hin
    unfold feedLoop
    split
    · rfl
    generalize hc : (if size < remaining then size else remaining) = chunk
    have hchunk : chunk ≤ remaining := by split at hc <;> omega
    dsimp only
    rw [hread off chunk (by omega)]
    change ((feed s _).bind fun s => _) = (feed s _).bind fun s => _
    cases feed s (slice img off chunk) with
    | error e => rfl
    | ok s' => exact ih (off + chunk) (remaining - chunk) s' (by omega)

/-- A pass takes a chunk off the front, the induction feeds the rest. -/
theorem feedLoop_eq {unit : Nat} (hread : Serves read img) (hfeed : Additive unit feed) {size : Nat}
    (hsize : 0 < size) : ∀ (fuel off remaining : Nat) (s : σ),
      size % unit = 0 ∨ remaining ≤ size → remaining ≤ fuel → off + remaining ≤ img.length →
      feedLoop read feed size fuel off remaining s = feed s (slice img off remaining) := by
  intro fuel
  induction fuel with
  | zero =>
    intro off remaining s _ hfuel _
    obtain rfl : remaining = 0 := by omega
    simp [feedLoop, slice, hfeed.nil]
  | succ fuel ih =>
    intro off remaining s hunit hfuel hin
    unfold feedLoop
    split
    · rename_i h0
      simp [h0, slice, hfeed.nil]
    rename_i h0
    dsimp only
    generalize hc : (if size < remaining then size else remaining) = chunk
    have hchunk : 0 < chunk ∧ chunk ≤ remaining := by split at hc <;> omega
    rw [hread off chunk (by omega)]
    change ((feed s (slice img off chunk)).bind fun s => _) = _
    have hrest : ∀ s', feedLoop read feed size fuel (off + chunk) (remaining - chunk) s' =
        feed s' (slice img (off + chunk) (remaining - chunk)) := fun s' =>
      ih (off + chunk) (remaining - chunk) s' (hunit.imp_right (by omega)) (by omega) (by omega)
    simp only [hrest]
    have hsplit : remaining = chunk + (remaining - chunk) := by omega
    by_cases hlt : size < remaining
    · -- the chunk fills the buffer, a whole number of units
      rw [if_pos hlt] at hc
      have hlen : (slice img off chunk).length % unit = 0 := by
        rw [slice_length (by omega), ← hc]
        exact hunit.resolve_right (by omega)
      conv_rhs => rw [hsplit, slice_add, hfeed.append _ _ _ hlen]
    · -- the chunk is the last one
      rw [if_neg hlt] at hc
      subst hc
      rw [Nat.sub_self]
      simp only [slice, List.take_zero, hfeed.nil]
      cases feed s _ <;> rfl

end MiniTree.Core.Chunked
