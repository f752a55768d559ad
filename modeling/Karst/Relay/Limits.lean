import Mathlib
import Karst.Foundations.Runs

/-!
# Rate limits

The token buckets of `karst-relay/src/limits.rs`.  A frame pays one bucket in bytes and one in frames,
both or neither.  A bucket is refilled in whole tokens: time that came to less than one is kept, what
a refill earned beyond them is not.  A refused frame leaves the meter as it was, its clock included.
-/

namespace Karst.Relay

open Runs

def U64_MAX : ℕ := 2 ^ 64 - 1

structure Budget where
  bytesPerSec : ℕ
  byteBurst : ℕ
  framesPerSec : ℕ
  frameBurst : ℕ

namespace Budget

def standard : Budget := ⟨25 * 1000000 / 8, 8 * 1024 * 1024, 5000, 20000⟩

def unlimited : Budget := ⟨U64_MAX, U64_MAX, U64_MAX, U64_MAX⟩

end Budget

/-- A token bucket; it never holds more than its cap. -/
structure Bucket where
  tokens : ℕ
  cap : ℕ
  ratePerSec : ℕ
  lastMs : ℕ
  tokens_le : tokens ≤ cap

namespace Bucket

def new (ratePerSec cap nowMs : ℕ) : Bucket := ⟨cap, cap, ratePerSec, nowMs, le_rfl⟩

/-- The whole tokens earned since the last refill. -/
def refill (b : Bucket) (nowMs : ℕ) : ℕ := min (b.ratePerSec * (nowMs - b.lastMs)) U64_MAX / 1000

/-- The clock moves only with a refill, which keeps the time of less than a token. -/
def refilled (b : Bucket) (nowMs : ℕ) : Bucket :=
  if 0 < b.refill nowMs then
    ⟨min (min (b.tokens + b.refill nowMs) U64_MAX) b.cap, b.cap, b.ratePerSec, nowMs, min_le_right _ _⟩
  else b

def spend (b : Bucket) (n : ℕ) : Bucket :=
  ⟨b.tokens - n, b.cap, b.ratePerSec, b.lastMs, (Nat.sub_le _ _).trans b.tokens_le⟩

def take (b : Bucket) (n nowMs : ℕ) : Bucket × Bool :=
  if n ≤ (b.refilled nowMs).tokens then ((b.refilled nowMs).spend n, true)
  else (b.refilled nowMs, false)

/-- What the bucket can pay up to a time, if it is never full. -/
def allowance (b : Bucket) (t : ℕ) : ℕ := b.tokens + b.ratePerSec * (t - b.lastMs) / 1000

section

variable {b b' : Bucket} {n nowMs t t₁ t₂ : ℕ}

theorem refill_le : b.refill nowMs ≤ b.ratePerSec * (nowMs - b.lastMs) / 1000 :=
  Nat.div_le_div_right (min_le_left _ _)

theorem refill_of_le (h : nowMs ≤ b.lastMs) : b.refill nowMs = 0 := by
  rw [refill, Nat.sub_eq_zero_of_le h, Nat.mul_zero, Nat.zero_min, Nat.zero_div]

theorem earned_lt (h : b.refill nowMs = 0) : b.ratePerSec * (nowMs - b.lastMs) < 1000 := by
  have hmin : min (b.ratePerSec * (nowMs - b.lastMs)) U64_MAX < 1000 :=
    Nat.lt_of_div_eq_zero (by decide) h
  have hmax : 1000 ≤ U64_MAX := by decide
  omega

@[simp] theorem refilled_cap : (b.refilled nowMs).cap = b.cap := by
  unfold refilled
  split <;> rfl

@[simp] theorem refilled_ratePerSec : (b.refilled nowMs).ratePerSec = b.ratePerSec := by
  unfold refilled
  split <;> rfl

theorem take_eq_true (h : b.take n nowMs = (b', true)) :
    n ≤ (b.refilled nowMs).tokens ∧ b' = (b.refilled nowMs).spend n := by
  unfold take at h
  split at h
  · rename_i hn
    exact ⟨hn, (Prod.mk.inj h).1.symm⟩
  · exact absurd (Prod.mk.inj h).2 (by decide)

theorem refilled_allowance (h : nowMs ≤ t) : (b.refilled nowMs).allowance t ≤ b.allowance t := by
  unfold refilled
  split
  · rename_i hpos
    have hlast : b.lastMs < nowMs := by
      by_contra hle
      rw [refill_of_le (Nat.not_lt.mp hle)] at hpos
      exact Nat.lt_irrefl 0 hpos
    have hsplit : b.ratePerSec * (t - b.lastMs)
        = b.ratePerSec * (nowMs - b.lastMs) + b.ratePerSec * (t - nowMs) := by
      rw [← Nat.mul_add]
      congr 1
      omega
    have hrefill : b.refill nowMs ≤ b.ratePerSec * (nowMs - b.lastMs) / 1000 := refill_le
    show min (min (b.tokens + b.refill nowMs) U64_MAX) b.cap + b.ratePerSec * (t - nowMs) / 1000
      ≤ b.tokens + b.ratePerSec * (t - b.lastMs) / 1000
    omega
  · exact le_rfl

variable (h : b.take n nowMs = (b', true))
include h

theorem take_allowance (ht : nowMs ≤ t) : n + b'.allowance t ≤ b.allowance t := by
  obtain ⟨hn, rfl⟩ := take_eq_true h
  have hrefilled := refilled_allowance (b := b) ht
  unfold allowance at hrefilled
  show n + ((b.refilled nowMs).tokens - n
    + (b.refilled nowMs).ratePerSec * (t - (b.refilled nowMs).lastMs) / 1000) ≤ _
  unfold allowance
  omega

theorem take_fresh (h₁ : t₁ ≤ nowMs) (h₂ : nowMs ≤ t₂) :
    n + b'.allowance t₂ ≤ b.cap + (b.ratePerSec * (t₂ - t₁) + 999) / 1000 := by
  obtain ⟨hn, rfl⟩ := take_eq_true h
  have hcap := (b.refilled nowMs).tokens_le
  rw [refilled_cap] at hcap
  have hearned : (b.refilled nowMs).ratePerSec * (t₂ - (b.refilled nowMs).lastMs)
      ≤ b.ratePerSec * (t₂ - t₁) + 999 := by
    rw [refilled_ratePerSec]
    by_cases hpos : 0 < b.refill nowMs
    · have hlast : (b.refilled nowMs).lastMs = nowMs := by rw [refilled, if_pos hpos]
      rw [hlast]
      have hmul := Nat.mul_le_mul_left b.ratePerSec (Nat.sub_le_sub_left h₁ t₂)
      omega
    · have hlast : (b.refilled nowMs).lastMs = b.lastMs := by rw [refilled, if_neg hpos]
      have hlt := earned_lt (Nat.eq_zero_of_not_pos hpos)
      -- Less than a token was earned up to `nowMs`, and `t₁` is no later.
      have hsplit : b.ratePerSec * (t₂ - b.lastMs)
          ≤ b.ratePerSec * (t₂ - t₁) + b.ratePerSec * (nowMs - b.lastMs) := by
        rw [← Nat.mul_add]
        exact Nat.mul_le_mul_left _ (by omega)
      rw [hlast]
      omega
  show n + ((b.refilled nowMs).tokens - n
    + (b.refilled nowMs).ratePerSec * (t₂ - (b.refilled nowMs).lastMs) / 1000) ≤ _
  omega

theorem take_cap : b'.cap = b.cap := by
  obtain ⟨-, rfl⟩ := take_eq_true h
  exact refilled_cap

theorem take_ratePerSec : b'.ratePerSec = b.ratePerSec := by
  obtain ⟨-, rfl⟩ := take_eq_true h
  exact refilled_ratePerSec

theorem take_tokens_le (hback : nowMs ≤ b.lastMs) : b'.tokens ≤ b.tokens := by
  obtain ⟨-, rfl⟩ := take_eq_true h
  have hsame : b.refilled nowMs = b := by
    exact if_neg (Nat.not_lt.mpr (refill_of_le hback).le)
  rw [hsame]
  exact Nat.sub_le _ _

end

/-! ### A bucket in a system -/

section

variable {σ ε : Type*} {step : σ → ε → σ} {view : σ → Bucket} {cost : σ → ε → ℕ} {time : ε → ℕ}

/-- Every event pays its cost to the bucket at its time, or costs nothing and leaves the bucket. -/
def Pays (step : σ → ε → σ) (view : σ → Bucket) (cost : σ → ε → ℕ) (time : ε → ℕ) : Prop :=
  ∀ s e, (cost s e = 0 ∧ view (step s e) = view s)
    ∨ (view s).take (cost s e) (time e) = (view (step s e), true)

variable (h : Pays step view cost time)
include h

theorem Pays.allowance_le {t : ℕ} (s : σ) (e : ε) (ht : time e ≤ t) :
    cost s e + (view (step s e)).allowance t ≤ (view s).allowance t := by
  rcases h s e with ⟨hcost, hview⟩ | htake
  · rw [hcost, hview, Nat.zero_add]
  · exact take_allowance htake ht

theorem Pays.tokens_le (s : σ) (e : ε)
    (hback : time e ≤ (view s).lastMs) : (view (step s e)).tokens ≤ (view s).tokens := by
  rcases h s e with ⟨-, hview⟩ | htake
  · rw [hview]
  · exact take_tokens_le htake hback

theorem Pays.config (s : σ) (evs : List ε) : (view (Runs.run step s evs)).cap = (view s).cap
      ∧ (view (Runs.run step s evs)).ratePerSec = (view s).ratePerSec := by
  induction evs generalizing s with
  | nil => exact ⟨rfl, rfl⟩
  | cons e evs ih =>
    have hstep : (view (step s e)).cap = (view s).cap
        ∧ (view (step s e)).ratePerSec = (view s).ratePerSec := by
      rcases h s e with ⟨-, hview⟩ | htake
      · rw [hview]
        exact ⟨rfl, rfl⟩
      · exact ⟨take_cap htake, take_ratePerSec htake⟩
    rw [run_cons, (ih _).1, (ih _).2]
    exact hstep

/-- **A window.**  The first payment finds at most a full bucket and less than a token in the clock;
from then on the allowance pays. -/
theorem Pays.window {t₁ t₂ : ℕ} (s : σ) {evs : List ε}
    (hevs : ∀ e ∈ evs, t₁ ≤ time e ∧ time e ≤ t₂) : charged step cost s evs
      ≤ (view s).cap + ((view s).ratePerSec * (t₂ - t₁) + 999) / 1000 := by
  induction evs generalizing s with
  | nil => exact Nat.zero_le _
  | cons e evs ih =>
    have hrest : ∀ e' ∈ evs, t₁ ≤ time e' ∧ time e' ≤ t₂ :=
      fun e' he' => hevs e' (List.mem_cons_of_mem e he')
    obtain ⟨h₁, h₂⟩ := hevs e List.mem_cons_self
    show cost s e + charged step cost (step s e) evs ≤ _
    rcases h s e with ⟨hcost, hview⟩ | htake
    · rw [hcost, Nat.zero_add, ← hview]
      exact ih (step s e) hrest
    · have hfresh := take_fresh htake h₁ h₂
      have hpaid := charged_add_le (fun s => (view s).allowance t₂)
        (fun s e (he : time e ≤ t₂) => h.allowance_le s e he) (step s e) (fun e' he' => (hrest e' he').2)
      omega

end

end Bucket

/-! ### The meter -/

structure Meter where
  bytes : Bucket
  frames : Bucket

structure Call where
  bytes : ℕ
  nowMs : ℕ

namespace Meter

def new (budget : Budget) (nowMs : ℕ) : Meter :=
  ⟨.new budget.bytesPerSec budget.byteBurst nowMs, .new budget.framesPerSec budget.frameBurst nowMs⟩

def admitFrame (m : Meter) (bytes nowMs : ℕ) : Meter × Bool :=
  let b := m.bytes.take bytes nowMs
  let f := m.frames.take 1 nowMs
  if !b.2 || !f.2 then (m, false) else (⟨b.1, f.1⟩, true)

def step (m : Meter) (c : Call) : Meter := (m.admitFrame c.bytes c.nowMs).1

def run (budget : Budget) (start : ℕ) (calls : List Call) : Meter :=
  Runs.run step (new budget start) calls

def bytesOf (m : Meter) (c : Call) : ℕ := if (m.admitFrame c.bytes c.nowMs).2 then c.bytes else 0

def framesOf (m : Meter) (c : Call) : ℕ := if (m.admitFrame c.bytes c.nowMs).2 then 1 else 0

theorem admitFrame_cases (m : Meter) (bytes nowMs : ℕ) : m.admitFrame bytes nowMs = (m, false)
      ∨ ∃ b f, m.bytes.take bytes nowMs = (b, true) ∧ m.frames.take 1 nowMs = (f, true)
        ∧ m.admitFrame bytes nowMs = (⟨b, f⟩, true) := by
  rcases hb : m.bytes.take bytes nowMs with ⟨b, okb⟩
  rcases hf : m.frames.take 1 nowMs with ⟨f, okf⟩
  cases okb with
  | false => exact Or.inl (by simp [admitFrame, hb])
  | true =>
    cases okf with
    | false => exact Or.inl (by simp [admitFrame, hf])
    | true => exact Or.inr ⟨b, f, rfl, rfl, by simp [admitFrame, hb, hf]⟩

theorem pays_bytes : Bucket.Pays step bytes bytesOf Call.nowMs := by
  intro m c
  rcases m.admitFrame_cases c.bytes c.nowMs with h | ⟨b, f, hb, -, h⟩
  · exact Or.inl ⟨by rw [bytesOf, h]; rfl, by rw [step, h]⟩
  · right
    rw [bytesOf, step, h]
    exact hb

theorem pays_frames : Bucket.Pays step frames framesOf Call.nowMs := by
  intro m c
  rcases m.admitFrame_cases c.bytes c.nowMs with h | ⟨b, f, -, hf, h⟩
  · exact Or.inl ⟨by rw [framesOf, h]; rfl, by rw [step, h]⟩
  · right
    rw [framesOf, step, h]
    exact hf

theorem step_of_refused {m : Meter} {c : Call} (h : (m.admitFrame c.bytes c.nowMs).2 = false) :
    step m c = m := by
  rcases m.admitFrame_cases c.bytes c.nowMs with hcase | ⟨b, f, -, -, hcase⟩
  · rw [step, hcase]
  · rw [hcase] at h
    cases h

/-- **Rate limits hold** in every window of calls, a refused call changes nothing, and no call
creates tokens. -/
theorem rate_limits (budget : Budget) (start : ℕ) (calls : List Call) :
    (∀ window t₁ t₂, (∀ c ∈ window, t₁ ≤ c.nowMs ∧ c.nowMs ≤ t₂) →
      charged step bytesOf (run budget start calls) window
          ≤ budget.byteBurst + (budget.bytesPerSec * (t₂ - t₁) + 999) / 1000
        ∧ charged step framesOf (run budget start calls) window
          ≤ budget.frameBurst + (budget.framesPerSec * (t₂ - t₁) + 999) / 1000)
      ∧ ∀ c, ((admitFrame (run budget start calls) c.bytes c.nowMs).2 = false →
          step (run budget start calls) c = run budget start calls) ∧ (∀ t, c.nowMs ≤ t →
          bytesOf (run budget start calls) c + (step (run budget start calls) c).bytes.allowance t
            ≤ (run budget start calls).bytes.allowance t ∧ framesOf (run budget start calls) c
              + (step (run budget start calls) c).frames.allowance t
            ≤ (run budget start calls).frames.allowance t)
        ∧ (c.nowMs ≤ (run budget start calls).bytes.lastMs →
          (step (run budget start calls) c).bytes.tokens ≤ (run budget start calls).bytes.tokens)
        ∧ (c.nowMs ≤ (run budget start calls).frames.lastMs →
          (step (run budget start calls) c).frames.tokens ≤ (run budget start calls).frames.tokens) := by
  constructor
  · intro window t₁ t₂ hwindow
    obtain ⟨hcap, hrate⟩ := pays_bytes.config (new budget start) calls
    obtain ⟨hcap', hrate'⟩ := pays_frames.config (new budget start) calls
    have hbytes := pays_bytes.window (Runs.run step (new budget start) calls) hwindow
    have hframes := pays_frames.window (Runs.run step (new budget start) calls) hwindow
    rw [hcap, hrate] at hbytes
    rw [hcap', hrate'] at hframes
    exact ⟨hbytes, hframes⟩
  · intro c
    refine ⟨step_of_refused, ?_, pays_bytes.tokens_le _ c, pays_frames.tokens_le _ c⟩
    intro t ht
    exact ⟨pays_bytes.allowance_le _ c ht, pays_frames.allowance_le _ c ht⟩

/-- A full bucket keeps the fraction of a second, and a clock that goes back passes the burst twice.
-/
theorem window_exceeds_burst : (1 + 1 * (1000 - 999) / 1000
      < charged step framesOf (new ⟨1000, 1000, 1, 1⟩ 0) [⟨0, 999⟩, ⟨0, 1000⟩])
      ∧ 1000 + 1000 * (10000 - 10000) / 1000 < charged step bytesOf (new ⟨1000, 1000, 9, 9⟩ 0)
          [⟨1001, 10000⟩, ⟨1000, 0⟩, ⟨1000, 10000⟩] := by decide

end Meter

namespace Bucket

/-! ### What a bucket credits -/

def after (b : Bucket) (c : Call) : Bucket := (b.take c.bytes c.nowMs).1

def credited (b : Bucket) (c : Call) : ℕ := (b.refilled c.nowMs).tokens - b.tokens

section

variable {b : Bucket} {c : Call}

/-- No two successive readings are so far apart that what they earn saturates. -/
def Fits (rate t t' : ℕ) : Prop := t ≤ t' ∧ rate * (t' - t) + 1000 ≤ U64_MAX

end

end Bucket

end Karst.Relay
