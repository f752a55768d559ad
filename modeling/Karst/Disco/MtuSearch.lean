import Karst.Disco.Paths

/-!
# The MTU search

A path carries datagrams up to its MTU.  The search halves the sizes between the largest that was
acknowledged and the smallest that was lost, the ceiling first; three losses in a row count as one.
-/

namespace Karst.Disco.Bisect

open List hiding Vector

/-- One probe of the next size, acknowledged or timed out. -/
def probe (b : Bisect) (acked : Bool) : Bisect :=
  match b.nextProbe with
  | none => b
  | some size => if acked then b.onSuccess size else (b.onTimeout size).1

/-- A path answers no probe above its MTU, and any other before its losses count. -/
def answers (mtu : ℕ) (b : Bisect) (acked : Bool) : Bool :=
  b.nextProbe.all fun size =>
    if acked then decide (size ≤ mtu) else decide (mtu < size ∨ b.losses + 1 < MTU_LOSS_THRESHOLD)

/-- At most `k` sizes are left to be probed: the ceiling, and one for every halving. -/
def Left (k : ℕ) (b : Bisect) : Prop :=
  b.high ≤ MTU_CEILING ∧ b.high ≤ b.low + 2 ^ k
    ∨ b.high = MTU_CEILING + 1 ∧ (b.low = MTU_CEILING ∨ b.low = MTU_FLOOR ∧ k = 8)

/-- The MTU is between the bounds, and `n` more probes find it, three to a size. -/
structure Within (mtu n : ℕ) (b : Bisect) : Prop where
  low_le : b.low ≤ min mtu MTU_CEILING
  lt_high : min mtu MTU_CEILING < b.high
  losses_lt : b.losses < MTU_LOSS_THRESHOLD
  left : ∃ k, 3 * k ≤ n + b.losses ∧ b.Left k

variable {mtu n : ℕ} {b : Bisect} {acked : Bool} {acks : List Bool}

theorem exists_nextProbe {k : ℕ} (hopen : ¬ b.high ≤ b.low + 1) (hleft : b.Left k) :
    ∃ size j, k = j + 1 ∧ b.nextProbe = some size ∧ b.low < size ∧ size < b.high ∧ size ≤ MTU_CEILING
      ∧ Left j { b with low := size, losses := 0 } ∧ Left j { b with high := size, losses := 0 } := by
  have hceiling : MTU_CEILING = MTU_FLOOR + 104 := rfl
  rw [nextProbe, if_neg hopen]
  rcases hleft with ⟨hle, hwide⟩ | ⟨heq, hl | ⟨hl, rfl⟩⟩
  · cases k with
    | zero => omega
    | succ j =>
      rw [if_neg (by omega)]
      refine ⟨_, j, rfl, rfl, ?_⟩
      dsimp only [Left]
      omega
  · omega
  · refine ⟨_, 7, rfl, if_pos heq, ?_⟩
    dsimp only [Left]
    omega

theorem Within.probe (h : Within mtu (n + 1) b) (ha : answers mtu b acked = true) :
    Within mtu n (b.probe acked) := by
  obtain ⟨hlow, hhigh, hlosses, k, hk, hleft⟩ := h
  by_cases hdone : b.high ≤ b.low + 1
  · have hsame : b.probe acked = b := by rw [Bisect.probe, nextProbe, if_pos hdone]
    rw [hsame]
    exact ⟨hlow, hhigh, hlosses, 0, by omega, by unfold Left; omega⟩
  obtain ⟨size, j, rfl, hnext, hgt, hlt, hle, hacked, hlost⟩ := exists_nextProbe hdone hleft
  rw [answers, hnext, Option.all_some] at ha
  rw [Bisect.probe, hnext]
  unfold MTU_LOSS_THRESHOLD at hlosses
  cases acked with
  | true =>
    have hmtu : size ≤ mtu := of_decide_eq_true ha
    dsimp only [onSuccess]
    rw [if_pos rfl, if_pos hgt]
    exact ⟨le_min hmtu hle, hhigh, Nat.succ_pos 2, j, by dsimp only; omega, hacked⟩
  | false =>
    have hmtu : mtu < size ∨ b.losses + 1 < MTU_LOSS_THRESHOLD := of_decide_eq_true ha
    have hmore : 3 * (j + 1) ≤ n + (b.losses + 1) := by omega
    dsimp only [onTimeout]
    rw [if_neg Bool.false_ne_true, Nat.min_eq_left (by unfold U32_MAX; omega)]
    by_cases hfew : b.losses + 1 < MTU_LOSS_THRESHOLD
    · rw [if_pos hfew]
      exact ⟨hlow, hhigh, hfew, j + 1, hmore, hleft⟩
    · -- The last loss that was missing: the size is above the MTU.
      rw [if_neg hfew, if_pos hlt]
      exact ⟨hlow, min_lt_of_left_lt (hmtu.resolve_right hfew), Nat.succ_pos 2, j, by dsimp only; omega,
        hlost⟩

theorem Within.run (h : Within mtu (acks.length + n) b)
    (ha : Runs.Along Bisect.probe (answers mtu) b acks = true) :
    Within mtu n (Runs.run Bisect.probe b acks) := by
  induction acks generalizing b with
  | nil => rwa [length_nil, Nat.zero_add] at h
  | cons acked acks ih =>
    obtain ⟨hacked, hacks⟩ := Bool.and_eq_true_iff.mp ha
    rw [length_cons, Nat.add_right_comm] at h
    exact ih (h.probe hacked) hacks

/-- **The MTU search is exact**, whichever probes are lost, and over after 24 of them. -/
theorem search_exact (hmtu : MTU_FLOOR ≤ mtu) (ha : Runs.Along probe (answers mtu) start acks = true) :
    (∀ size, (Runs.run probe start acks).resolved = some size → size = min mtu MTU_CEILING)
      ∧ (24 ≤ acks.length → (Runs.run probe start acks).resolved = some (min mtu MTU_CEILING)) := by
  have hstart (m : ℕ) (hm : 24 ≤ m) : Within mtu m start :=
    ⟨le_min hmtu (by decide), Nat.lt_succ_of_le (min_le_right _ _), Nat.succ_pos 2, 8, hm,
      .inr ⟨rfl, .inr ⟨rfl, rfl⟩⟩⟩
  constructor
  · intro size hsize
    obtain ⟨hlow, hhigh, -⟩ := (hstart (acks.length + 24) (by omega)).run ha
    obtain ⟨hdone, hsome⟩ := Option.ite_none_right_eq_some.mp hsize
    rw [← Option.some.inj hsome]
    omega
  · intro hlen
    obtain ⟨hlow, hhigh, hlosses, k, hk, hleft⟩ := Within.run (n := 0) (hstart acks.length hlen) ha
    unfold MTU_LOSS_THRESHOLD at hlosses
    obtain rfl : k = 0 := by omega
    unfold Left at hleft
    rw [resolved, if_pos (by omega)]
    exact congrArg some (by omega)

/-- A path that carries nothing above the floor. -/
theorem search_exact_floor :
    (Runs.run probe start (replicate 24 false)).resolved = some (min MTU_FLOOR MTU_CEILING) :=
  (search_exact le_rfl (by decide)).2 (by decide)

end Karst.Disco.Bisect
