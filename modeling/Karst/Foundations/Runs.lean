import Mathlib.Data.List.Infix
import Mathlib.Data.Set.Basic
import Mathlib.Tactic.Common

/-!
# Runs

Deterministic systems driven by a list of events: what every event keeps, every run keeps, and what
holds at the end was brought about at some event and kept since.
-/

namespace Karst.Runs

open List

variable {σ ε ρ : Type*} (step : σ → ε → σ)

def run (s : σ) (evs : List ε) : σ := evs.foldl step s

@[simp] theorem run_nil (s : σ) : run step s [] = s := rfl

@[simp] theorem run_cons (s : σ) (e : ε) (evs : List ε) :
    run step s (e :: evs) = run step (step s e) evs := rfl

theorem run_append (s : σ) (evs evs' : List ε) :
    run step s (evs ++ evs') = run step (run step s evs) evs' := foldl_append

theorem run_concat (s : σ) (evs : List ε) (e : ε) : run step s (evs ++ [e]) = step (run step s evs) e := by
  rw [run_append]
  rfl

variable {step}

variable {Inv : σ → Prop} {s : σ}

/-- **The invariant rule.** -/
theorem run_induction (hstep : ∀ s e, Inv s → Inv (step s e)) (h : Inv s) (evs : List ε) :
    Inv (run step s evs) := by
  induction evs generalizing s with
  | nil => exact h
  | cons e evs ih => exact ih (hstep s e h)

/-- What relates every state to its successor relates the ends of a run. -/
theorem run_rel {R : σ → σ → Prop} (hrefl : ∀ s, R s s) (htrans : ∀ s t u, R s t → R t u → R s u)
    (hstep : ∀ s e, R s (step s e)) (s : σ) (evs : List ε) : R s (run step s evs) := by
  induction evs generalizing s with
  | nil => exact hrefl s
  | cons e evs ih => exact htrans _ _ _ (hstep s e) (ih _)

variable {evs : List ε}

/-- **A run that tells its events.**  Where no two steps along two runs meet unless they come from one
state by one event, and none leads back to where both began, runs that end alike are the same. -/
theorem run_inj {evs' : List ε}
    (hinj : ∀ p e p' e', p ++ [e] <+: evs → p' ++ [e'] <+: evs' →
      step (run step s p) e = step (run step s p') e' → run step s p = run step s p' ∧ e = e')
    (hevs : ∀ p e, p ++ [e] <+: evs → step (run step s p) e ≠ s)
    (hevs' : ∀ p e, p ++ [e] <+: evs' → step (run step s p) e ≠ s)
    (h : run step s evs = run step s evs') : evs = evs' := by
  induction evs using reverseRecOn generalizing evs' with
  | nil =>
    rcases eq_nil_or_concat evs' with rfl | ⟨p', e', rfl⟩
    · rfl
    · rw [concat_eq_append, run_concat] at h
      rw [concat_eq_append] at hevs'
      exact absurd h.symm (hevs' p' e' prefix_rfl)
  | append_singleton p e ih =>
    rcases eq_nil_or_concat evs' with rfl | ⟨p', e', rfl⟩
    · rw [run_concat] at h
      exact absurd h (hevs p e prefix_rfl)
    · rw [concat_eq_append] at h hevs' hinj ⊢
      rw [run_concat, run_concat] at h
      obtain ⟨hrun, rfl⟩ := hinj p e p' e' prefix_rfl prefix_rfl h
      rw [ih (fun q c q' c' hq hq' => hinj q c q' c' (hq.trans (prefix_append p [e]))
        (hq'.trans (prefix_append p' [e]))) (fun q c hq => hevs q c (hq.trans (prefix_append p [e])))
        (fun q c hq => hevs' q c (hq.trans (prefix_append p' [e]))) hrun]

/-- Every event of the run is allowed where it happens. -/
def Along (step : σ → ε → σ) (ok : σ → ε → Bool) : σ → List ε → Bool
  | _, [] => true
  | s, e :: evs => ok s e && Along step ok (step s e) evs

theorem along_append {ok : σ → ε → Bool} (s : σ) (evs evs' : List ε) :
    Along step ok s (evs ++ evs') = (Along step ok s evs && Along step ok (run step s evs) evs') := by
  induction evs generalizing s with
  | nil => rfl
  | cons e evs ih =>
    show (ok s e && Along step ok (step s e) (evs ++ evs')) = _
    rw [ih, ← Bool.and_assoc]
    rfl

/-- The invariant rule for runs of allowed events. -/
theorem along_induction {ok : σ → ε → Bool}
    (hstep : ∀ s e, ok s e = true → Inv s → Inv (step s e)) (h : Inv s)
    (hok : Along step ok s evs = true) : Inv (run step s evs) := by
  induction evs generalizing s with
  | nil => exact h
  | cons e evs ih =>
    obtain ⟨he, hevs⟩ := Bool.and_eq_true_iff.mp hok
    exact ih (hstep s e he h) hevs

/-- What is observed at the events of a run, in order. -/
def trace (step : σ → ε → σ) (obs : σ → ε → Option ρ) : σ → List ε → List ρ
  | _, [] => []
  | s, e :: evs => (obs s e).toList ++ trace step obs (step s e) evs

theorem trace_concat {obs : σ → ε → Option ρ} (s : σ) (evs : List ε) (e : ε) :
    trace step obs s (evs ++ [e]) = trace step obs s evs ++ (obs (run step s evs) e).toList := by
  induction evs generalizing s with
  | nil => simp [trace]
  | cons e' evs ih => simp [trace, ih, append_assoc]

/-- The run was in a state with property `p`, its first and last states included. -/
def Past (step : σ → ε → σ) (s : σ) (evs : List ε) (p : σ → Prop) : Prop :=
  ∃ a, a <+: evs ∧ p (run step s a)

variable {p : σ → Prop}

theorem past_last (h : p (run step s evs)) : Past step s evs p := ⟨evs, prefix_refl evs, h⟩

theorem past_concat {e : ε} :
    Past step s (evs ++ [e]) p ↔ Past step s evs p ∨ p (step (run step s evs) e) := by
  constructor
  · rintro ⟨a, ha, hp⟩
    rcases prefix_concat_iff.mp ha with rfl | ha
    · right
      rwa [run_concat] at hp
    · exact Or.inl ⟨a, ha, hp⟩
  · rintro (⟨a, ha, hp⟩ | hp)
    · exact ⟨a, ha.trans (prefix_append evs [e]), hp⟩
    · exact past_last (by rwa [run_concat])

theorem Past.mono {evs' : List ε} (h : Past step s evs p) (hle : evs <+: evs') : Past step s evs' p := by
  obtain ⟨a, ha, hp⟩ := h
  exact ⟨a, ha.trans hle, hp⟩

theorem exists_last_change {obs : σ → ρ} (h : obs (run step s evs) ≠ obs s) : ∃ a e b, evs = a ++ e :: b
      ∧ obs (run step s a) ≠ obs (run step s evs) ∧ obs (step (run step s a) e) = obs (run step s evs) := by
  induction evs using reverseRecOn with
  | nil => exact absurd rfl h
  | append_singleton evs e ih =>
    by_cases hlast : obs (run step s evs) = obs (run step s (evs ++ [e]))
    · rw [← hlast] at h
      obtain ⟨a, e', b, rfl, hbefore, hafter⟩ := ih h
      refine ⟨a, e', b ++ [e], by simp, ?_, ?_⟩
      · rwa [← hlast]
      · rwa [← hlast]
    · exact ⟨evs, e, [], rfl, hlast, by rw [run_concat]⟩

/-- **Where a fact comes from**: an event that brought it about, and only events that keep it have
followed. -/
theorem exists_origin (has : σ → Prop) {gains : σ → ε → Prop} {keeps : ε → Prop}
    (hstep : ∀ s e, has (step s e) → (has s ∧ keeps e) ∨ gains s e) (hinit : ¬ has s)
    (h : has (run step s evs)) :
    ∃ a e b, evs = a ++ e :: b ∧ gains (run step s a) e ∧ ∀ e' ∈ b, keeps e' := by
  induction evs using reverseRecOn with
  | nil => exact absurd h hinit
  | append_singleton evs e ih =>
    rw [run_concat] at h
    rcases hstep _ e h with ⟨hbefore, hkeeps⟩ | hgains
    · obtain ⟨a, e', b, rfl, hgains, hb⟩ := ih hbefore
      refine ⟨a, e', b ++ [e], by simp, hgains, ?_⟩
      intro c hc
      rcases mem_append.mp hc with hc | hc
      · exact hb c hc
      · rw [mem_singleton.mp hc]
        exact hkeeps
    · exact ⟨evs, e, [], rfl, hgains, by simp⟩

theorem exists_gain (has : σ → Prop) {gains : σ → ε → Prop}
    (hstep : ∀ s e, has (step s e) → has s ∨ gains s e) (hinit : ¬ has s)
    (h : has (run step s evs)) : ∃ a e b, evs = a ++ e :: b ∧ gains (run step s a) e := by
  have hstep' (s : σ) (e : ε) (he : has (step s e)) : (has s ∧ (fun _ : ε => True) e) ∨ gains s e :=
    (hstep s e he).imp (fun hs => ⟨hs, trivial⟩) id
  obtain ⟨a, e, b, hevs, hgains, -⟩ := exists_origin has hstep' hinit h
  exact ⟨a, e, b, hevs, hgains⟩

/-- **Fresh values are new.**  If everything observed is known and nothing known is forgotten, a
value that is not known has never been observed. -/
theorem not_past_of_fresh {obs : σ → Option ρ} (known : σ → Set ρ)
    (hInv : ∀ s e, Inv s → Inv (step s e)) (hobs : ∀ s r, Inv s → obs s = some r → r ∈ known s)
    (hknown : ∀ s e, known s ⊆ known (step s e)) (h : Inv s) {r : ρ}
    (hr : r ∉ known (run step s evs)) : ¬ Past step s evs fun t => obs t = some r := by
  rintro ⟨a, ⟨b, rfl⟩, ha⟩
  have hmem : r ∈ known (run step s a) := hobs _ r (run_induction hInv h a) ha
  have hmono : known (run step s a) ⊆ known (run step (run step s a) b) :=
    run_rel (R := fun t u => known t ⊆ known u) (fun _ => Set.Subset.refl _)
      (fun _ _ _ => Set.Subset.trans) hknown _ b
  rw [run_append] at hr
  exact hr (hmono hmem)

/-! ### Charges -/

def charged (step : σ → ε → σ) (cost : σ → ε → ℕ) : σ → List ε → ℕ
  | _, [] => 0
  | s, e :: evs => cost s e + charged step cost (step s e) evs

/-- **The potential rule.**  If every event pays its charge out of a potential, so does the run. -/
theorem charged_add_le {cost : σ → ε → ℕ} (Φ : σ → ℕ) {ok : ε → Prop}
    (hstep : ∀ s e, ok e → cost s e + Φ (step s e) ≤ Φ s) (s : σ) (hok : ∀ e ∈ evs, ok e) :
    charged step cost s evs + Φ (run step s evs) ≤ Φ s := by
  induction evs generalizing s with
  | nil => exact (Nat.zero_add _).le
  | cons e evs ih =>
    have hhead := hstep s e (hok e mem_cons_self)
    have htail := ih (step s e) fun e' he' => hok e' (mem_cons_of_mem e he')
    show cost s e + charged step cost (step s e) evs + Φ (run step (step s e) evs) ≤ Φ s
    omega

end Karst.Runs
