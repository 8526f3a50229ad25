import Mathlib.Algebra.Order.Ring.Nat
import Mathlib.Tactic.Ring
import Mathlib.Tactic.Linarith

/-!
# The millisecond clock of the mini-os backend

`mini_time_ms` scales the 32-bit tick counter: it multiplies by 1000 and divides by the tick
rate, both in 32 bits. Every timeout loop of the tree takes a reading before it starts and
leaves when the 32-bit difference to a later reading has reached its timeout.

The product wraps 1000 times as often as the counter. A wrap takes `2^32` off the product,
which is `2^32 / rate` milliseconds off the reading, and a subtraction in 32 bits only
repairs a loss of a multiple of `2^32`.

**Results.** `timeMs_measures_iff`: the difference of two readings is the time between them,
and the loops end when they should, exactly when the number of wraps of the product between
the two readings is a multiple of the rate.

The other way round, the backend hands the kernel a number of ticks: it multiplies the
milliseconds by the rate, in 32 bits, and divides by 1000. The kernel reads a zero as "do not
wait". `timely_iff`: a timeout is kept exactly when the product neither wraps nor stays below
one tick.
-/

namespace MiniTree.Time

open Nat

/-- `g_global_tick`, `n` ticks after boot.
mirrors lib/mini-os/src/schedule.c:38,977,1015-1019 -/
def globalTick (n : Nat) : Nat := n % 2 ^ 32

/-- mirrors lib/mini-os/inc/schedule.h:24 (`MINI_OS_TICK_TO_MS`) -/
def tickToMs (rate ticks : Nat) : Nat := ticks % 2 ^ 32 * 1000 % 2 ^ 32 / rate

/-- The reading `n` ticks after boot.
mirrors core/src/mini_time.c:50-55 (`mini_time_ms`) -/
def timeMs (rate n : Nat) : Nat := tickToMs rate (globalTick n)

/-- `now - start` in 32 bits. -/
def msSince (start now : Nat) : Nat := (now + 2 ^ 32 - start) % 2 ^ 32

/-- The exit test of the waiting loops.
mirrors board/src/dev_lifecycle.c:221-223,229-232 and
net/port/transport_glue/transport_glue.c:85,125 -/
def timedOut (start now timeout : Nat) : Bool := timeout ≤ msSince start now

/-- Milliseconds between tick `a` and tick `b` of a clock with `rate` ticks a second. -/
def elapsedMs (rate a b : Nat) : Nat := (b - a) * 1000 / rate

/-- How often `tick * 1000` has wrapped in 32 bits, `n` ticks after boot. -/
def wraps (n : Nat) : Nat := n * 1000 / 2 ^ 32

theorem wraps_mono {a b : Nat} (h : a ≤ b) : wraps a ≤ wraps b :=
  Nat.div_le_div_right (Nat.mul_le_mul_right _ h)

theorem timeMs_eq (rate n : Nat) : timeMs rate n = n * 1000 % 2 ^ 32 / rate := by
  unfold timeMs tickToMs globalTick
  rw [mod_mod, mod_mul_mod]

/-- What a reading lacks of the real time: `u` milliseconds, the wraps of the product divided
by the rate and rounded up. -/
theorem timeMs_add_lost {rate : Nat} (hr : 0 < rate) (hd : rate ∣ 1000) (n : Nat) :
    ∃ u e, e < rate ∧ 2 ^ 32 * wraps n + e = rate * u ∧ timeMs rate n + u = n * (1000 / rate) := by
  obtain ⟨q, hq⟩ := hd
  have hq' : 1000 / rate = q := by rw [hq, Nat.mul_div_cancel_left _ hr]
  rw [hq', timeMs_eq, wraps]
  -- product = wraps + rest, rest = reading + remainder
  have hprod := div_add_mod (n * 1000) (2 ^ 32)
  have hrest := div_add_mod (n * 1000 % 2 ^ 32) rate
  have hlt := mod_lt (n * 1000 % 2 ^ 32) hr
  generalize n * 1000 % 2 ^ 32 / rate = r at *
  generalize n * 1000 % 2 ^ 32 % rate = e at *
  generalize n * 1000 % 2 ^ 32 = x at *
  generalize n * 1000 / 2 ^ 32 = k at *
  have hle : r ≤ n * q := by
    refine Nat.le_of_mul_le_mul_left ?_ hr
    calc rate * r ≤ n * 1000 := by omega
      _ = rate * (n * q) := by rw [hq]; ring
  obtain ⟨u, hu⟩ := Nat.exists_eq_add_of_le hle
  refine ⟨u, e, hlt, ?_, hu.symm⟩
  have : rate * (n * q) = n * 1000 := by rw [hq]; ring
  rw [hu, mul_add] at this
  omega

/-- Two losses differ by a multiple of `2^32` exactly when the wraps differ by a multiple of
the rate: the rounding is below the rate, hence below `2^32`. -/
theorem lost_sub_dvd_iff {rate ka kb ea eb ua ub : Nat} (hr : rate ≤ 1000) (ha : ea < rate)
    (hb : eb < rate) (hua : 2 ^ 32 * ka + ea = rate * ua) (hub : 2 ^ 32 * kb + eb = rate * ub)
    (hk : ka ≤ kb) : (∃ j, ub = ua + 2 ^ 32 * j) ↔ rate ∣ kb - ka := by
  obtain ⟨d, rfl⟩ := Nat.exists_eq_add_of_le hk
  rw [Nat.add_sub_cancel_left]
  constructor
  · rintro ⟨j, rfl⟩
    refine ⟨j, ?_⟩
    have : rate * (ua + 2 ^ 32 * j) = rate * ua + 2 ^ 32 * (rate * j) := by ring
    rw [this] at hub
    generalize rate * j = x at *
    generalize rate * ua = y at *
    omega
  · rintro ⟨j, rfl⟩
    refine ⟨j, ?_⟩
    have hub' : rate * ub + ea = rate * (ua + 2 ^ 32 * j) + eb := by
      calc rate * ub + ea = 2 ^ 32 * ka + ea + 2 ^ 32 * (rate * j) + eb := by rw [← hub]; ring
        _ = rate * (ua + 2 ^ 32 * j) + eb := by rw [hua]; ring
    -- the same quotient on both sides
    have h1 := congrArg (· / rate) hub'
    simpa [mul_add_div (zero_lt_of_lt ha), div_eq_of_lt ha, div_eq_of_lt hb]
      using h1

theorem timeMs_measures_iff (rate a b : Nat) (hd : rate ∣ 1000) (hab : a ≤ b)
    (hel : elapsedMs rate a b < 2 ^ 32) :
    (msSince (timeMs rate a) (timeMs rate b) = elapsedMs rate a b ∧
      ∀ timeout, timedOut (timeMs rate a) (timeMs rate b) timeout = true ↔
        timeout ≤ elapsedMs rate a b) ↔ rate ∣ wraps b - wraps a := by
  have hr : 0 < rate := pos_of_dvd_of_pos hd (by decide)
  have hr' : rate ≤ 1000 := le_of_dvd (by decide) hd
  obtain ⟨ua, ea, hea, hua, hra⟩ := timeMs_add_lost hr hd a
  obtain ⟨ub, eb, heb, hub, hrb⟩ := timeMs_add_lost hr hd b
  rw [← lost_sub_dvd_iff hr' hea heb hua hub (wraps_mono hab)]
  have hlost : ua ≤ ub := by
    have hk := wraps_mono hab
    refine le_of_lt_succ (Nat.lt_of_mul_lt_mul_left (a := rate) ?_)
    rw [mul_succ, ← hua, ← hub]
    omega
  have hms : elapsedMs rate a b = b * (1000 / rate) - a * (1000 / rate) := by
    unfold elapsedMs
    rw [Nat.mul_div_assoc _ hd, Nat.sub_mul]
  have hmono : a * (1000 / rate) ≤ b * (1000 / rate) := Nat.mul_le_mul_right _ hab
  have ha32 : timeMs rate a < 2 ^ 32 := by
    rw [timeMs_eq]
    exact lt_of_le_of_lt (Nat.div_le_self _ _) (mod_lt _ (by decide))
  have hdiff : msSince (timeMs rate a) (timeMs rate b) = elapsedMs rate a b ↔
      ∃ j, ub = ua + 2 ^ 32 * j := by
    rw [hms] at hel ⊢
    unfold msSince
    constructor
    · intro h
      exact ⟨(ub - ua) / 2 ^ 32, by omega⟩
    · rintro ⟨j, rfl⟩
      omega
  rw [← hdiff]
  refine ⟨fun h => h.1, fun h => ⟨h, fun timeout => ?_⟩⟩
  unfold timedOut
  rw [h, decide_eq_true_iff]

/-- One second of a 100 Hz clock, long after its counter has wrapped. -/
theorem timeMs_measures_second : msSince (timeMs 100 (2 ^ 32)) (timeMs 100 (2 ^ 32 + 100)) = 1000 ∧
      ∀ timeout, timedOut (timeMs 100 (2 ^ 32)) (timeMs 100 (2 ^ 32 + 100)) timeout = true ↔
        timeout ≤ 1000 :=
  (timeMs_measures_iff 100 (2 ^ 32) (2 ^ 32 + 100) (by decide) (by decide) (by decide)).2
    (by decide)

/-- One tick of a 1 kHz clock over the first wrap of the product, 71 minutes after boot: the
reading falls from 4294967 to 0, and a loop that has just begun to wait a second ends. -/
theorem timeMs_fails_at_first_wrap :
    ¬ ∀ rate a b : Nat, rate ∣ 1000 → a ≤ b → elapsedMs rate a b < 2 ^ 32 →
      msSince (timeMs rate a) (timeMs rate b) = elapsedMs rate a b ∧
        ∀ timeout, timedOut (timeMs rate a) (timeMs rate b) timeout = true ↔
          timeout ≤ elapsedMs rate a b := by
  intro h
  have := ((h 1000 4294967 4294968 (by decide) (by decide) (by decide)).2 1000).1 (by decide)
  exact absurd this (by decide)

/-! ## Timeouts -/

/-- mirrors lib/mini-os/inc/schedule.h:32 (`MINI_OS_MS_TO_TICK`) -/
def msToTick (rate ms : Nat) : Nat := ms * rate % 2 ^ 32 / 1000

/-- `MINI_WAIT_FOREVER`, and `MINI_OS_WAIT_FOREVER` as a `mini_os_tick_t`. -/
def waitForever : Nat := 2 ^ 32 - 1

/-- The argument `mini_sem_wait`, `mini_queue_send`, `mini_queue_receive` and `mini_mutex_lock`
hand to the kernel.
mirrors core/src/mini_backend_mini_os.c:46-51 -/
def miniOsTimeout (rate ms : Nat) : Nat := if ms = waitForever then waitForever else msToTick rate ms

/-- What the kernel's waits do with their argument. -/
inductive KernelWait where
  | poll
  /-- parked on the tick wheel -/
  | park (ticks : Nat)
  | forever
  deriving DecidableEq

/-- mirrors lib/mini-os/src/queue.c:273-305; semaphores and mutexes test for the same two codes -/
def kernelWait (tick : Nat) : KernelWait :=
  if tick = 0 then .poll else if tick = waitForever then .forever else .park tick

/-- The ticks after the call at which a wait that gets nothing reports a timeout. -/
def KernelWait.reports : KernelWait → Option Nat
  | .poll => some 0
  | .park ticks => some ticks
  | .forever => none

/-- mirrors core/src/mini_time.c:66-71 (`mini_delay_ms`) and
lib/mini-os/src/thread.c:899-905 (`mini_os_thread_delay_ms`), as ticks blocked -/
def delayTicks (rate ms : Nat) : Nat := if ms = 0 then 0 else msToTick rate ms

/-- The last whole tick within `ms` milliseconds. -/
def wholeTicks (rate ms : Nat) : Nat := ms * rate / 1000

/-- The waits keep the timeout `ms`. -/
structure Timely (rate ms : Nat) : Prop where
  late : ∀ n ∈ (kernelWait (miniOsTimeout rate ms)).reports, wholeTicks rate ms ≤ n
  parks : 0 < ms → ∃ n, kernelWait (miniOsTimeout rate ms) = .park n
  delay : wholeTicks rate ms ≤ delayTicks rate ms

/-- The conversion never yields the code for an endless wait. -/
theorem kernelWait_msToTick (rate ms : Nat) :
    kernelWait (msToTick rate ms) = if msToTick rate ms = 0 then .poll else .park (msToTick rate ms) := by
  have hlt : msToTick rate ms ≠ waitForever := by unfold msToTick waitForever; omega
  rw [kernelWait, if_neg hlt]

theorem timely_iff (rate ms : Nat) (h : ms < waitForever) :
    Timely rate ms ↔ ms = 0 ∨ 1000 ≤ ms * rate ∧ ms * rate < 2 ^ 32 := by
  have hconv : miniOsTimeout rate ms = msToTick rate ms := if_neg h.ne
  constructor
  · intro ht
    by_cases h0 : ms = 0
    · exact .inl h0
    have hpark := ht.parks (Nat.pos_of_ne_zero h0)
    have hdelay := ht.delay
    rw [hconv, kernelWait_msToTick] at hpark
    rw [wholeTicks, delayTicks, if_neg h0] at hdelay
    have hpos : msToTick rate ms ≠ 0 := fun hz => by simp [hz] at hpark
    unfold msToTick at hpos hdelay
    omega
  · rintro (rfl | ⟨hmin, hmax⟩)
    · exact ⟨fun n _ => by simp [wholeTicks], nofun, by simp [wholeTicks]⟩
    · have hticks : msToTick rate ms = wholeTicks rate ms := by
        rw [msToTick, mod_eq_of_lt hmax, wholeTicks]
      have hpos : wholeTicks rate ms ≠ 0 := by unfold wholeTicks; omega
      have hwait : kernelWait (miniOsTimeout rate ms) = .park (wholeTicks rate ms) := by
        rw [hconv, kernelWait_msToTick, hticks, if_neg hpos]
      have h0 : ms ≠ 0 := by rintro rfl; simp at hmin
      refine ⟨fun n hn => ?_, fun _ => ⟨_, hwait⟩, ?_⟩
      · rw [hwait] at hn
        exact (Option.some.inj hn).le
      · rw [delayTicks, if_neg h0, hticks]

/-- A timeout of a second at the default rate. -/
theorem timely_second : Timely 1000 1000 := (timely_iff 1000 1000 (by decide)).2 (by decide)

/-- At the default rate a timeout of 72 minutes wraps to 704, which is no tick at all: the wait
does not wait. -/
theorem timeout_fails_at_wrap : ¬ ∀ rate ms : Nat, ms < waitForever → Timely rate ms := by
  intro h
  have hpoll : kernelWait (miniOsTimeout 1000 4294968) = .poll := by decide
  obtain ⟨n, hn⟩ := (h 1000 4294968 (by decide)).parks (by decide)
  exact KernelWait.noConfusion (hpoll.symm.trans hn)

end MiniTree.Time
