import Mathlib.Data.Int.CardIntervalMod

/-!
# Turns

A cursor that goes round over `n` places, and how often each place is reached.
-/

namespace RoundRobin

open Finset

/-- The place after `c`. -/
def advance (n c : ℕ) : ℕ := if n ≤ c + 1 then 0 else c + 1

theorem advance_mod {n : ℕ} (hn : 0 < n) (k : ℕ) : advance n (k % n) = (k + 1) % n := by
  have hlt := Nat.mod_lt k hn
  unfold advance
  rw [Nat.add_mod]
  by_cases hwrap : n ≤ k % n + 1
  · have hlast : k % n + 1 = n := by omega
    rw [if_pos hwrap]
    rcases Nat.lt_or_ge 1 n with hone | hone
    · rw [Nat.mod_eq_of_lt hone, hlast, Nat.mod_self]
    · have hn1 : n = 1 := by omega
      rw [hn1, Nat.mod_one]
  · have hone : 1 % n = 1 := Nat.mod_eq_of_lt (by omega)
    rw [if_neg hwrap, hone, Nat.mod_eq_of_lt (not_le.mp hwrap)]

/-- The turns of a place among the first `m`. -/
theorem card_turns {n : ℕ} (hn : 0 < n) {a : ℕ} (ha : a < n) (m : ℕ) :
    ((range m).filter fun k => k % n = a).card = m / n + if a < m % n then 1 else 0 := by
  have hcount := Nat.count_modEq_card m hn a
  rw [Nat.count_eq_card_filter_range] at hcount
  have hsame : ((range m).filter fun k => k % n = a) =
      (range m).filter fun k => k ≡ a [MOD n] := by
    refine filter_congr fun k _ => ?_
    rw [Nat.ModEq, Nat.mod_eq_of_lt ha]
  rw [hsame, hcount, Nat.mod_eq_of_lt ha]

theorem card_turns_le {n : ℕ} (hn : 0 < n) {a b : ℕ} (ha : a < n) (hb : b < n) (m : ℕ) :
    ((range m).filter fun k => k % n = a).card ≤
      ((range m).filter fun k => k % n = b).card + 1 := by
  rw [card_turns hn ha, card_turns hn hb]
  split_ifs <;> omega

end RoundRobin
