import Karst.Disco.Paths

/-!
# The home relay

`Selector` of `karstd/src/home.rs`: which relay a node holds a connection to, by the round trips measured
in each round.  A relay that is held gives way to one that was ahead of it in several rounds.  The rounds
are counted for each challenger, and what another challenger does leaves the count alone.
-/

namespace Karst.Node

open Disco List

variable {R : Type} [LinearOrder R]

structure Selector (R : Type) [LinearOrder R] where
  chosen : Option R
  /-- What was measured since the last round. -/
  latest : AList fun _ : R => ℕ
  /-- Rounds in which a challenger has beaten the relay that is held. -/
  streak : AList fun _ : R => ℕ

namespace Selector

def new : Selector R := ⟨none, ∅, ∅⟩

def observe (s : Selector R) (relay : R) (rttMs : ℕ) : Selector R :=
  { s with latest := s.latest.insert relay rttMs }

def present (ids : List R) (t : AList fun _ : R => ℕ) : AList fun _ : R => ℕ :=
  ⟨t.entries.filter fun e => e.1 ∈ ids, t.nodupKeys.sublist filter_sublist⟩

def retain (s : Selector R) (ids : List R) : Selector R :=
  ⟨s.chosen.filter (· ∈ ids), present ids s.latest, present ids s.streak⟩

def hold (s : Selector R) (relay : R) : Selector R := { s with chosen := some relay, streak := ∅ }

def beats (challenger incumbent : ℕ) : Bool := decide (margin incumbent ≤ incumbent - challenger)

/-- The fastest relay of a round, of the smallest id. -/
def best (round : AList fun _ : R => ℕ) : Option (Σ _ : R, ℕ) :=
  round.entries.argmin fun e => toLex (e.2, e.1)

def select (s : Selector R) : Selector R × Option R × Bool :=
  match best s.latest with
  | none => ({ s with latest := ∅ }, s.chosen, false)
  | some ⟨best, bestRtt⟩ =>
    match s.chosen with
    | none => (⟨some best, ∅, ∅⟩, some best, true)
    | some current =>
      match s.latest.lookup current with
      -- silence is not slowness
      | none => (⟨s.chosen, ∅, ∅⟩, s.chosen, false)
      | some currentRtt =>
        if best = current ∨ beats bestRtt currentRtt = false then
          (⟨s.chosen, ∅, ∅⟩, s.chosen, false)
        else
          let streak := min ((s.streak.lookup best).getD 0 + 1) U32_MAX
          if HYSTERESIS_SAMPLES ≤ streak then (⟨some best, ∅, ∅⟩, some best, true)
          else (⟨s.chosen, ∅, s.streak.insert best streak⟩, s.chosen, false)

/-! ### Rounds -/

inductive Op (R : Type) where
  | observe (relay : R) (rttMs : ℕ)
  | retain (ids : List R)
  | hold (relay : R)
  | select

def step (s : Selector R) : Op R → Selector R
  | .observe relay rttMs => s.observe relay rttMs
  | .retain ids => s.retain ids
  | .hold relay => s.hold relay
  | .select => s.select.1

def run (ops : List (Op R)) : Selector R := Runs.run step new ops

/-- The relay that is fastest in the round and beats the one that is held. -/
def leader (s : Selector R) : Option R := do
  let ⟨best, bestRtt⟩ ← best s.latest
  let current ← s.chosen
  let currentRtt ← s.latest.lookup current
  if best = current ∨ beats bestRtt currentRtt = false then none else return best

/-- One relay is held, and the other one leads if this is a round. -/
def keeps (held challenger : R) (s : Selector R) (op : Op R) : Bool :=
  decide (s.chosen = some held) && (match op with
      | .select => decide (s.leader = some challenger)
      | _ => true)

def Op.isRound : Op R → Bool
  | .select => true
  | _ => false

/-- The challenger has led in this many rounds in a row, with one relay held throughout. -/
def Sustained (held challenger : R) (rounds : ℕ) (ops : List (Op R)) : Prop :=
  ∃ before since, ops = before ++ since ∧ Runs.Along step (keeps held challenger) (run before) since = true
    ∧ rounds ≤ since.countP Op.isRound

/-- A round in which nothing was measured finds no count, and one with a leader no count but the
leader's. -/
def clean (s : Selector R) : Op R → Bool
  | .select => if s.latest.entries.isEmpty then s.streak.entries.isEmpty else
      s.leader.all fun c => s.streak.entries.all fun e => decide (e.1 = c)
  | _ => true

theorem run_concat (ops : List (Op R)) (op : Op R) : run (ops ++ [op]) = (run ops).step op :=
  Runs.run_concat step new ops op

section

variable {s : Selector R} {held challenger : R} {ops : List (Op R)} {op : Op R} {n : ℕ}

theorem Sustained.none : Sustained held challenger 0 ops :=
  ⟨ops, [], (append_nil ops).symm, rfl, Nat.zero_le _⟩

theorem Sustained.mono {m : ℕ} (h : Sustained held challenger n ops) (hle : m ≤ n) :
    Sustained held challenger m ops := by
  obtain ⟨before, since, hops, halong, hn⟩ := h
  exact ⟨before, since, hops, halong, hle.trans hn⟩

theorem Sustained.concat (h : Sustained held challenger n ops)
    (hkeeps : keeps held challenger (run ops) op = true) :
    Sustained held challenger (n + if op.isRound then 1 else 0) (ops ++ [op]) := by
  obtain ⟨before, since, rfl, halong, hn⟩ := h
  refine ⟨before, since ++ [op], by rw [append_assoc], ?_, ?_⟩
  · rw [Runs.along_append, halong]
    rw [run, Runs.run_append] at hkeeps
    simpa [Runs.Along, run] using hkeeps
  · rw [countP_append, countP_singleton]
    omega

/-- **A round.**  Nothing was measured; or a relay led and its count went up, until it was chosen; or
all counts are gone. -/
theorem select_cases (s : Selector R) :
    (s.latest.entries = [] ∧ s.select.1.chosen = s.chosen ∧ s.select.1.streak = s.streak)
      ∨ (∃ c, s.leader = some c ∧ s.select.1.chosen = s.chosen
        ∧ s.select.1.streak = s.streak.insert c (min ((s.streak.lookup c).getD 0 + 1) U32_MAX))
      ∨ (∃ c, s.leader = some c ∧ s.select.1.chosen = some c ∧ s.select.1.streak = ∅
        ∧ HYSTERESIS_SAMPLES ≤ (s.streak.lookup c).getD 0 + 1)
      ∨ (s.select.1.streak = ∅ ∧ (s.chosen.isSome → s.select.1.chosen = s.chosen)) := by
  cases hbest : best s.latest with
  | none => exact .inl ⟨argmin_eq_none.mp hbest, by simp [select, hbest], by simp [select, hbest]⟩
  | some e =>
    rcases e with ⟨best, bestRtt⟩
    right
    cases hchosen : s.chosen with
    | none => exact .inr (.inr (by simp [select, hbest, hchosen]))
    | some current =>
      cases hcurrent : s.latest.lookup current with
      | none => exact .inr (.inr (by simp [select, hbest, hchosen, hcurrent]))
      | some currentRtt =>
        by_cases hled : best = current ∨ beats bestRtt currentRtt = false
        · exact .inr (.inr (by simp [select, hbest, hchosen, hcurrent, hled]))
        · have hleader : s.leader = some best := by simp [leader, hbest, hchosen, hcurrent, hled]
          by_cases hlong : HYSTERESIS_SAMPLES ≤ min ((s.streak.lookup best).getD 0 + 1) U32_MAX
          · refine .inr (.inl ⟨best, hleader, ?_, ?_, (le_min_iff.mp hlong).1⟩)
            all_goals simp only [select, hbest, hchosen, hcurrent, if_neg hled, if_pos hlong]
          · refine .inl ⟨best, hleader, ?_, ?_⟩
            all_goals simp only [select, hbest, hchosen, hcurrent, if_neg hled, if_neg hlong]

theorem keeps_select (hheld : s.chosen = some held) (hled : s.leader = some challenger) :
    keeps held challenger s .select = true := by
  simp [keeps, hheld, hled]

/-- The count of a relay is of rounds in a row. -/
def Counted (ops : List (Op R)) : Prop :=
  ∀ held, (run ops).chosen = some held → ∀ e ∈ (run ops).streak.entries, Sustained held e.1 e.2 ops

theorem Counted.lookup (h : Counted ops) (hheld : (run ops).chosen = some held) (c : R) :
    Sustained held c (((run ops).streak.lookup c).getD 0) ops := by
  cases hlookup : (run ops).streak.lookup c with
  | none => exact .none
  | some n => exact h held hheld ⟨c, n⟩ (AList.mem_lookup_iff.mp hlookup)

/-- **One operation** keeps the counts right. -/
theorem Counted.step (h : Counted ops) (hclean : (run ops).clean op = true) : Counted (ops ++ [op]) := by
  intro held hheld e he
  rw [run_concat] at hheld he
  cases op with
  | observe relay rttMs =>
    have hbefore : (run ops).chosen = some held := hheld
    exact (h held hbefore e he).concat (by simpa [keeps] using hbefore)
  | retain ids =>
    have hbefore := (Option.filter_eq_some_iff.mp hheld).1
    exact (h held hbefore e (mem_of_mem_filter he)).concat (by simpa [keeps] using hbefore)
  | hold relay => exact absurd he (not_mem_nil)
  | select =>
    rcases (run ops).select_cases with ⟨hnone, hchosen, hstreak⟩ | ⟨c, hled, hchosen, hstreak⟩
      | ⟨c, hled, hchosen, hstreak, -⟩ | ⟨hstreak, -⟩
    · rw [clean, hnone] at hclean
      rw [show ((run ops).step .select).streak = _ from hstreak] at he
      rw [isEmpty_iff.mp hclean] at he
      exact absurd he not_mem_nil
    · rw [show ((run ops).step .select).streak = _ from hstreak, AList.entries_insert] at he
      rw [show ((run ops).step .select).chosen = _ from hchosen] at hheld
      rcases mem_cons.mp he with rfl | he
      · exact ((h.lookup hheld c).concat (keeps_select hheld hled)).mono (min_le_left _ _)
      · have hother : e.1 ≠ c := by
          rintro rfl
          exact notMem_keys_kerase _ (run ops).streak.nodupKeys (mem_keys_of_mem he)
        rw [clean] at hclean
        split at hclean
        · rw [isEmpty_iff.mp hclean] at he
          exact absurd he not_mem_nil
        · simp only [hled, Option.all_some, all_eq_true, decide_eq_true_eq] at hclean
          exact absurd (hclean e ((kerase_sublist c _).subset he)) hother
    · rw [show ((run ops).step .select).streak = _ from hstreak] at he
      exact absurd he not_mem_nil
    · rw [show ((run ops).step .select).streak = _ from hstreak] at he
      exact absurd he not_mem_nil

theorem counted_run (hclean : Runs.Along step clean new ops = true) : Counted ops := by
  induction ops using reverseRecOn with
  | nil => exact nofun
  | append_singleton ops op ih =>
    rw [Runs.along_append, Bool.and_eq_true] at hclean
    exact (ih hclean.1).step (by simpa [Runs.Along, run] using hclean.2)

end

/-- **The home relay does not flap.**  A relay gives way to one that led in so many rounds in a row, with
the old one held throughout. -/
theorem home_steady (ops : List (Op R)) (hclean : Runs.Along step clean new (ops ++ [.select]) = true)
    (held challenger : R) (hheld : (run ops).chosen = some held)
    (hnew : (run (ops ++ [.select])).chosen = some challenger) (hne : challenger ≠ held) :
    Sustained held challenger HYSTERESIS_SAMPLES (ops ++ [.select]) := by
  rw [Runs.along_append, Bool.and_eq_true] at hclean
  have hcounted := counted_run hclean.1
  rw [run_concat] at hnew
  have hstays : ¬ (run ops).select.1.chosen = (run ops).chosen := by
    rw [show (run ops).select.1.chosen = some challenger from hnew, hheld]
    exact fun hsame => hne (Option.some.inj hsame)
  rcases (run ops).select_cases with ⟨-, hchosen, -⟩ | ⟨c, -, hchosen, -⟩ | ⟨c, hled, hchosen, -, hlong⟩
    | ⟨-, hchosen⟩
  · exact absurd hchosen hstays
  · exact absurd hchosen hstays
  · cases Option.some.inj (hchosen.symm.trans hnew)
    exact ((hcounted.lookup hheld challenger).concat (keeps_select hheld hled)).mono hlong
  · exact absurd (hchosen (hheld ▸ rfl)) hstays

/-- What is measured in a round, and the round. -/
def round (measured : List (ℕ × ℕ)) : List (Op ℕ) :=
  measured.map (fun m => .observe m.1 m.2) ++ [.select]

theorem third_round_adopts : Sustained 1 2 HYSTERESIS_SAMPLES
    (.hold 1 :: round [(1, 100), (2, 10)] ++ round [(1, 100), (2, 10)]
      ++ [.observe 1 100, .observe 2 10] ++ [.select]) :=
  home_steady _ (by decide +kernel) 1 2 (by decide +kernel) (by decide +kernel) (by decide)

/-- Two challengers take turns: one of them is adopted after a round that the other one led. -/
theorem interrupted_streak :
    let first : List (Op ℕ) := .hold 1 :: round [(1, 100), (2, 10)]
    let second := first ++ [.observe 1 100, .observe 3 10]
    let third := second ++ [.select] ++ round [(1, 100), (2, 10)]
    (run second).leader = some 3 ∧ (run third).chosen = some 1
      ∧ (run (third ++ round [(1, 100), (2, 10)])).chosen = some 2 := by
  decide +kernel

end Selector

end Karst.Node
