import Mathlib.Algebra.Group.Int.Defs
import Mathlib.Algebra.Group.Nat.Defs
import PPServer.EventLoop.TimerHeap

/-!
# How long the loop waits

`CalculateNextTimeout` subtracts the clock from the expiration at the front of the heap, in 64
bits, and gives `epoll_wait` the low 32 bits of the difference as an `int`.  A wait that ends
late, or never, keeps the earliest timer from its time.
-/

namespace PPServer.EventLoop

open Heap Transition

/-- `static_cast<int>`, which keeps the low 32 bits. -/
def castToInt (value : UInt64) : Int32 := value.toUInt32.toInt32

theorem toInt_castToInt (value : UInt64) :
    (castToInt value).toInt =
      if value.toNat % 2 ^ 32 < 2 ^ 31 then ((value.toNat % 2 ^ 32 : Nat) : Int)
      else ((value.toNat % 2 ^ 32 : Nat) : Int) - 2 ^ 32 := by
  have bits : (castToInt value).toInt = value.toUInt32.toBitVec.toInt := rfl
  have doubled : 2 * (value.toNat % 2 ^ 32) < 2 ^ 32 ↔ value.toNat % 2 ^ 32 < 2 ^ 31 := by omega
  rw [bits, BitVec.toInt_eq_toNat_cond]
  simp only [UInt64.toBitVec_toUInt32, BitVec.toNat_setWidth, UInt64.toNat_toBitVec, doubled]
  rfl

/-- The cast never gives more than the value. -/
theorem toInt_castToInt_le (value : UInt64) : (castToInt value).toInt ≤ value.toNat := by
  have lowBits : value.toNat % 2 ^ 32 ≤ value.toNat := Nat.mod_le ..
  rw [toInt_castToInt]
  split <;> omega

theorem castToInt_nonneg_iff {value : UInt64} :
    0 ≤ (castToInt value).toInt ↔ value.toNat % 2 ^ 32 < 2 ^ 31 := by
  have lowBits : value.toNat % 2 ^ 32 < 2 ^ 32 := Nat.mod_lt _ (by decide)
  rw [toInt_castToInt]
  split <;> omega

namespace TimerState

variable {loop : TimerState} {now : UInt64} {timer other front : Timer} {rest : List Timer}

/-- `CalculateNextTimeout`, in milliseconds; `epoll_wait` waits for ever if it is negative. -/
def calculateNextTimeout (now : UInt64) (loop : TimerState) : Int32 :=
  match loop.timers with
  | [] => -1
  | front :: _ =>
      if front.expiration ≤ now then 0 else castToInt (front.expiration - now)

/-- No timer expires before this one. -/
def Earliest (loop : TimerState) (timer : Timer) : Prop :=
  timer ∈ loop.timers ∧ ∀ other ∈ loop.timers, timer.expiration ≤ other.expiration

theorem Earliest.expiration_eq (first : loop.Earliest timer) (second : loop.Earliest other) :
    timer.expiration = other.expiration :=
  UInt64.le_antisymm (first.2 other second.1) (second.2 timer first.1)

theorem earliest_front (isHeap : IsHeap Timer.Ordered loop.timers)
    (timers : loop.timers = front :: rest) : loop.Earliest front := by
  rw [timers] at isHeap
  refine ⟨timers ▸ List.mem_cons_self, fun other member => ?_⟩
  exact Timer.ordered_iff.mp (isHeap.front (timers ▸ member))

/-- A wait with this timeout is for ever only if there is no timer, and otherwise over by the time
at which the earliest expires. -/
def InTime (loop : TimerState) (now : UInt64) (timeout : Int32) : Prop :=
  (timeout = -1 → loop.timers = []) ∧
    ∀ timer, loop.Earliest timer →
      0 ≤ timeout.toInt ∧
        timeout.toInt ≤ max 0 ((timer.expiration.toNat : Int) - now.toNat)

/-- The wait until a given expiration. -/
theorem inTime_front_iff {expiration : UInt64} {timeout : Int32}
    (computed : timeout = if expiration ≤ now then 0 else castToInt (expiration - now)) :
    0 ≤ timeout.toInt ∧ timeout.toInt ≤ max 0 ((expiration.toNat : Int) - now.toNat) ↔
      expiration ≤ now ∨ (expiration - now).toNat % 2 ^ 32 < 2 ^ 31 := by
  by_cases expired : expiration ≤ now
  · simp [computed, expired]
  · have later : now ≤ expiration := UInt64.le_of_lt (UInt64.not_le.mp expired)
    have difference : ((expiration - now).toNat : Int) = (expiration.toNat : Int) - now.toNat := by
      rw [UInt64.toNat_sub_of_le _ _ later, Int.ofNat_sub (UInt64.le_iff_toNat_le.mp later)]
    have atMost := toInt_castToInt_le (expiration - now)
    rw [computed, if_neg expired, or_iff_right expired, castToInt_nonneg_iff, ← difference]
    exact and_iff_left (atMost.trans (le_max_right ..))

/-- **The poll timeout.**  The loop never oversleeps exactly when its earliest timer has expired,
or the low 32 bits of the time that it still has are below `2 ^ 31`. -/
theorem calculateNextTimeout_inTime_iff (isHeap : IsHeap Timer.Ordered loop.timers)
    (now : UInt64) :
    loop.InTime now (loop.calculateNextTimeout now) ↔
      ∀ timer, loop.Earliest timer →
        timer.expiration ≤ now ∨ (timer.expiration - now).toNat % 2 ^ 32 < 2 ^ 31 := by
  cases timers : loop.timers with
  | nil => simp [InTime, Earliest, timers]
  | cons front rest =>
      have earliest := earliest_front isHeap timers
      have timeout : loop.calculateNextTimeout now =
          if front.expiration ≤ now then 0 else castToInt (front.expiration - now) := by
        simp only [calculateNextTimeout, timers]
      constructor
      · intro inTime timer isEarliest
        rw [isEarliest.expiration_eq earliest]
        exact (inTime_front_iff timeout).mp (inTime.2 front earliest)
      · intro short
        have atFront := (inTime_front_iff timeout).mpr (short front earliest)
        refine ⟨fun forever => ?_, fun timer isEarliest => ?_⟩
        · rw [forever] at atFront
          exact absurd atFront.1 (by decide)
        · rw [isEarliest.expiration_eq earliest]
          exact atFront

/-- A timer that is due in an hour. -/
theorem calculateNextTimeout_inTime_iff_hour :
    InTime ⟨[⟨1, 3600000, 0, false⟩], 2, .outside⟩ 0
        (calculateNextTimeout 0 ⟨[⟨1, 3600000, 0, false⟩], 2, .outside⟩) ↔
      ∀ timer, Earliest ⟨[⟨1, 3600000, 0, false⟩], 2, .outside⟩ timer →
        timer.expiration ≤ 0 ∨ (timer.expiration - 0).toNat % 2 ^ 32 < 2 ^ 31 :=
  calculateNextTimeout_inTime_iff
    (isHeap_of_run (show run (step (.sorting Timer.Ordered)) new [.runAfter 0 3600000 1] =
      some ⟨[⟨1, 3600000, 0, false⟩], 2, .outside⟩ by decide)) 0

/-- The only timer is due in `2 ^ 32 - 1` milliseconds, and the loop waits for ever. -/
theorem not_inTime_of_long_delay :
    ∃ loop, run (step (.sorting Timer.Ordered)) new [.runAfter 0 4294967295 1] = some loop ∧
      loop.calculateNextTimeout 0 = -1 ∧ ¬loop.InTime 0 (loop.calculateNextTimeout 0) := by
  refine ⟨⟨[⟨1, 4294967295, 0, false⟩], 2, .outside⟩, by decide, by decide, fun inTime => ?_⟩
  exact absurd (inTime.1 (by decide)) (by simp)

end TimerState

end PPServer.EventLoop
