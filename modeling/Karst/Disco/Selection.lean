import Karst.Disco.Paths

/-!
# Path selection

`PathSet::select` keeps a choice and a challenger, and returns through several branches.  On every
one of them the path it settles on is usable and of the best group among the usable paths.
-/

namespace Karst.Disco

open List hiding Vector

namespace Path

variable {p q : Path}

theorem group_le_of_score_le (h : p.score ≤ q.score) : p.group ≤ q.group := by
  rcases Prod.Lex.toLex_le_toLex.mp h with hlt | ⟨heq, -⟩
  · exact hlt.le
  · exact heq.le

end Path

namespace PathSet

variable {s : PathSet} {nowMs : ℕ} {p : Path}

def Preferred (s : PathSet) (nowMs : ℕ) (p : Path) : Prop :=
  p ∈ s.paths ∧ p.isUsable nowMs = true ∧ ∀ q ∈ s.paths, q.isUsable nowMs = true → p.group ≤ q.group

theorem best_eq_none : s.best nowMs = none ↔ ∀ p ∈ s.paths, ¬ p.isUsable nowMs = true := by
  rw [best, argmin_eq_none, filter_eq_nil_iff]

theorem preferred_of_best (h : s.best nowMs = some p) : s.Preferred nowMs p := by
  obtain ⟨hmem, husable⟩ := mem_filter.mp (argmin_mem h)
  refine ⟨hmem, husable, ?_⟩
  intro q hq hqusable
  exact Path.group_le_of_score_le (le_of_mem_argmin (mem_filter.mpr ⟨hq, hqusable⟩) h)

theorem preferred_of_find {current : Path} {x : SocketAddr} (h : s.best nowMs = some p)
    (hfind : s.paths.find? (fun p => p.addr == x && p.isUsable nowMs) = some current)
    (hgroup : ¬ p.group < current.group) : s.Preferred nowMs current ∧ current.addr = x := by
  have htest := find?_some hfind
  rw [Bool.and_eq_true, beq_iff_eq] at htest
  refine ⟨⟨mem_of_find?_eq_some hfind, htest.2, ?_⟩, htest.1⟩
  intro q hq hqusable
  exact (Nat.not_lt.mp hgroup).trans ((preferred_of_best h).2.2 q hq hqusable)

/-- **What `select` can do.**  It clears the choice when nothing is usable, and otherwise ends with
the address of a usable path of the best group. -/
theorem select_cases (s : PathSet) (nowMs : ℕ) :
    ((s.select nowMs).1.chosen = none ∧ ∀ p ∈ s.paths, ¬ p.isUsable nowMs = true)
      ∨ ∃ p, s.Preferred nowMs p ∧ (s.select nowMs).1.chosen = some p.addr := by
  fun_cases select s nowMs with
  | case1 hbest => exact .inl ⟨rfl, best_eq_none.mp hbest⟩
  | case4 best hbest x hchosen current hfind haddr =>
    have htest := find?_some hfind
    rw [Bool.and_eq_true, beq_iff_eq] at htest
    exact .inr ⟨best, preferred_of_best hbest, by rw [haddr, htest.1]; rfl⟩
  | case6 best hbest x hchosen current hfind haddr hgroup hbeats =>
    -- The incumbent is of the best group, so both ways of keeping it are right.
    obtain ⟨hcurrent, haddr⟩ := preferred_of_find hbest hfind hgroup
    exact .inr ⟨current, hcurrent, congrArg some haddr.symm⟩
  | case8 best hbest x hchosen current hfind haddr hgroup hbeats hstreak =>
    obtain ⟨hcurrent, haddr⟩ := preferred_of_find hbest hfind hgroup
    exact .inr ⟨current, hcurrent, hchosen.trans (congrArg some haddr.symm)⟩
  | case2 best hbest => exact .inr ⟨best, preferred_of_best hbest, rfl⟩
  | case3 best hbest => exact .inr ⟨best, preferred_of_best hbest, rfl⟩
  | case5 best hbest => exact .inr ⟨best, preferred_of_best hbest, rfl⟩
  | case7 best hbest => exact .inr ⟨best, preferred_of_best hbest, rfl⟩

/-- At a `select`, the best usable path is in the group of the chosen one, which is usable too, and
scores better by the margin. -/
def Outscores (s : PathSet) (nowMs : ℕ) (chosen challenger : SocketAddr) : Prop :=
  ∃ best current, s.best nowMs = some best ∧ best.addr = challenger
    ∧ s.chosen = some chosen ∧ current ∈ s.paths ∧ current.addr = chosen
    ∧ current.isUsable nowMs = true ∧ best.group = current.group
    ∧ min ((ofLex best.score).2 + margin (ofLex current.score).2) U64_MAX ≤ (ofLex current.score).2

theorem Outscores.chosen {x a : SocketAddr} (h : s.Outscores nowMs x a) : s.chosen = some x := by
  obtain ⟨_, _, _, _, hchosen, _⟩ := h
  exact hchosen

def selects (ops : List Op) : List (PathSet × ℕ) :=
  Runs.trace step (fun s op => match op with
    | .select nowMs => some (s, nowMs)
    | _ => none) new ops

theorem outscores {best current : Path} {x : SocketAddr} (hbest : s.best nowMs = some best)
    (hchosen : s.chosen = some x)
    (hfind : s.paths.find? (fun p => p.addr == x && p.isUsable nowMs) = some current)
    (hgroup : ¬ best.group < current.group) (hbeats : ¬ best.beats current = false) :
    s.Outscores nowMs x best.addr := by
  have htest := find?_some hfind
  rw [Bool.and_eq_true, beq_iff_eq] at htest
  rw [Bool.not_eq_false, Path.beats] at hbeats
  split at hbeats
  · exact absurd (of_decide_eq_true hbeats) hgroup
  · rename_i hsame
    split at hbeats
    · cases hbeats
    · exact ⟨best, current, hbest, rfl, hchosen, mem_of_find?_eq_some hfind, htest.1, htest.2,
        not_not.mp hsame, of_decide_eq_true hbeats⟩

theorem streak_cases (s : PathSet) (best : Path) : s.streak best = 1
      ∨ ∃ m, s.challenger = some (best.addr, m) ∧ s.streak best = min (m + 1) U32_MAX := by
  fun_cases streak s best with
  | case1 m heq => exact .inr ⟨m, heq, rfl⟩
  | case2 a m heq hne => exact .inl rfl
  | case3 heq => exact .inl rfl

theorem select_challenger {a : SocketAddr} {n : ℕ} (h : (s.select nowMs).1.challenger = some (a, n)) :
    ∃ x, (s.select nowMs).1.chosen = some x ∧ s.Outscores nowMs x a
      ∧ (n = 1 ∨ ∃ m, s.challenger = some (a, m) ∧ n = m + 1) := by
  revert h
  fun_cases select s nowMs with
  | case8 best hbest x hchosen current hfind haddr hgroup hbeats hstreak =>
    intro h
    obtain ⟨rfl, rfl⟩ := Prod.mk.inj (Option.some.inj h)
    refine ⟨x, hchosen, outscores hbest hchosen hfind hgroup hbeats, ?_⟩
    rcases s.streak_cases best with h1 | ⟨m, hm, hmin⟩
    · exact .inl h1
    · refine .inr ⟨m, hm, ?_⟩
      have : HYSTERESIS_SAMPLES < U32_MAX := by decide
      omega
  | _ =>
    intro h
    cases h

theorem choice_step (s : PathSet) (op : Op) (hop : ∀ nowMs, op ≠ .select nowMs) :
    (s.step op).chosen = s.chosen ∧ (s.step op).challenger = s.challenger := by
  have hquiet := s.step_quiet op
  cases op with
  | select nowMs => exact absurd rfl (hop nowMs)
  | onProbeReceived tx =>
    rw [step, onProbeReceived]
    split <;> exact ⟨rfl, rfl⟩
  | _ =>
    obtain ⟨paths, outstanding, hsame, -⟩ := hquiet rfl
    exact ⟨hsame.chosen, hsame.challenger⟩

/-- The last `n` selects of a run found the challenger ahead of the chosen path. -/
def Leads (ops : List Op) (x a : SocketAddr) (n : ℕ) : Prop :=
  ∃ earlier samples, selects ops = earlier ++ samples ∧ samples.length = n
    ∧ ∀ t ∈ samples, t.1.Outscores t.2 x a

theorem selects_concat (ops : List Op) (nowMs : ℕ) :
    selects (ops ++ [.select nowMs]) = selects ops ++ [(run ops, nowMs)] := Runs.trace_concat ..

variable {ops : List Op} {x a : SocketAddr} {n : ℕ}

theorem Leads.select (h : Leads ops x a n) (hnow : (run ops).Outscores nowMs x a) :
    Leads (ops ++ [.select nowMs]) x a (n + 1) := by
  obtain ⟨earlier, samples, heq, hlen, hall⟩ := h
  refine ⟨earlier, samples ++ [(run ops, nowMs)], ?_, ?_, ?_⟩
  · rw [selects_concat, heq, append_assoc]
  · rw [length_append, hlen]
    rfl
  · intro t ht
    rcases mem_append.mp ht with ht | ht
    · exact hall t ht
    · rw [mem_singleton.mp ht]
      exact hnow

theorem Leads.of_le {m : ℕ} (h : Leads ops x a n) (hle : m ≤ n) : Leads ops x a m := by
  obtain ⟨earlier, samples, heq, hlen, hall⟩ := h
  refine ⟨earlier ++ samples.take (n - m), samples.drop (n - m), ?_, ?_, ?_⟩
  · rw [heq, append_assoc, take_append_drop]
  · rw [length_drop, hlen]
    omega
  · intro t ht
    exact hall t (mem_of_mem_drop ht)

theorem leads_run (ops : List Op) (h : (run ops).challenger = some (a, n)) :
    ∃ x, (run ops).chosen = some x ∧ Leads ops x a n := by
  induction ops using reverseRecOn generalizing a n with
  | nil => cases h
  | append_singleton ops op ih =>
    have hrun : run (ops ++ [op]) = (run ops).step op := Runs.run_concat step new ops op
    rw [hrun] at h ⊢
    by_cases hop : ∃ nowMs, op = .select nowMs
    · obtain ⟨nowMs, rfl⟩ := hop
      obtain ⟨x, hx, hout, hcount⟩ := select_challenger h
      refine ⟨x, hx, ?_⟩
      rcases hcount with rfl | ⟨m, hm, rfl⟩
      · exact Leads.select ⟨selects ops, [], (append_nil _).symm, rfl, by simp⟩ hout
      · obtain ⟨y, hy, hleads⟩ := ih hm
        obtain rfl : x = y := Option.some.inj (hout.chosen.symm.trans hy)
        exact hleads.select hout
    · obtain ⟨hchosen, hchallenger⟩ := (run ops).choice_step op fun t ht => hop ⟨t, ht⟩
      rw [hchallenger] at h
      obtain ⟨x, hx, earlier, samples, heq, hrest⟩ := ih h
      refine ⟨x, hchosen.trans hx, earlier, samples, ?_, hrest⟩
      rw [← heq, selects, Runs.trace_concat]
      cases op with
      | select nowMs => exact absurd ⟨nowMs, rfl⟩ hop
      | _ => exact append_nil _

/-- **Selection does not flap**: a usable choice is given up within its group only after the
required number of wins. -/
theorem select_steady (ops : List Op) (nowMs : ℕ) {x : SocketAddr} {current best : Path}
    (hchosen : (run ops).chosen = some x)
    (hcurrent : (run ops).paths.find? (fun p => p.addr == x && p.isUsable nowMs) = some current)
    (hbest : (run ops).best nowMs = some best) (hgroup : best.group = current.group)
    (hswitch : ((run ops).select nowMs).1.chosen ≠ some x) :
    Leads (ops ++ [.select nowMs]) x best.addr HYSTERESIS_SAMPLES := by
  have hnot : ¬ best.group < current.group := Nat.not_lt.mpr hgroup.ge
  simp only [select, hbest, hchosen, hcurrent] at hswitch
  split_ifs at hswitch with haddr hbeats hstreak
  · exact absurd rfl hswitch
  · exact absurd rfl hswitch
  · rcases (run ops).streak_cases best with hone | ⟨m, hm, hmin⟩
    · rw [hone] at hstreak
      exact absurd hstreak (by decide)
    · obtain ⟨y, hy, hleads⟩ := leads_run ops hm
      obtain rfl : x = y := Option.some.inj (hchosen.symm.trans hy)
      have htwo : 2 ≤ m := by
        have : HYSTERESIS_SAMPLES = 3 := rfl
        omega
      exact (hleads.of_le htwo).select (outscores hbest hchosen hcurrent hnot hbeats)
  · exact absurd rfl hswitch

/-- A path of 100 ms is chosen; then one of 10 ms is found and wins twice. -/
def fasterFound : List Op :=
  [.onPingSent .asStored (Vector.replicate 12 1) (.v4 1 1) 0,
    .onPong .asStored (Vector.replicate 12 1) 100, .select 100,
    .onPingSent .asStored (Vector.replicate 12 2) (.v4 2 1) 100,
    .onPong .asStored (Vector.replicate 12 2) 110, .select 120, .select 130]

theorem fasterFound_steady : Leads (fasterFound ++ [.select 140]) (.v4 1 1) (.v4 2 1) 3 :=
  select_steady fasterFound 140 (by decide +kernel)
    (show _ = some ⟨.v4 1 1, .directV4, some 100, some 100, .unconfirmed⟩ by decide +kernel)
    (show _ = some ⟨.v4 2 1, .directV4, some 10, some 110, .unconfirmed⟩ by decide +kernel)
    (by decide) (by decide +kernel)

end PathSet

end Karst.Disco
