import Mathlib.Order.Lattice
import Mathlib.Tactic.Common

/-! Delays between retries: each is twice the one before it, up to a cap. -/

namespace Backoff
variable {cap base : Nat}

def next (cap delay : Nat) : Nat := min cap (2 * delay)

def delay (cap base n : Nat) : Nat := min cap (base <<< n)

theorem delay_zero (h : base ≤ cap) : delay cap base 0 = base := Nat.min_eq_right h

theorem next_delay (n : Nat) : next cap (delay cap base n) = delay cap base (n + 1) := by
  have hsucc : base <<< (n + 1) = 2 * (base <<< n) := Nat.shiftLeft_succ ..
  rw [next, delay, delay, hsucc]
  omega

theorem next_eq_ite {half : Nat} (hcap : cap = 2 * half) (delay : Nat) :
    next cap delay = if half ≤ delay then cap else delay * 2 := by
  rw [next]
  split
  · exact Nat.min_eq_left (by omega)
  · rw [Nat.min_eq_right (by omega), Nat.mul_comm]

end Backoff
