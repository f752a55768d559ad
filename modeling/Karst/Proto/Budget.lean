import Karst.Proto.Reassembly

/-!
# What the reassembler may hold

The reassembler's limits, over every history of pushes.  All of them are counts of entries of some
kind; `push_tally` says how a push can change such a count, for every kind a key decides.
-/

namespace Karst.Proto

open SlotTable Reassembler
open List hiding Vector

variable {r r' : Reassembler} {p : Push} {q : Entry → Bool} {i : ℕ}

theorem occupied_eq (r : Reassembler) : r.occupied = tally (fun _ => true) r.slots := by
  have hsome : (Option.isSome : Option Entry → Bool) = fun s => s.any fun _ => true := by
    funext s
    cases s <;> rfl
  rfl

theorem fromSource_eq (r : Reassembler) (source : SourceKey) :
    r.fromSource source = tally (fun e => e.source == source) r.slots := rfl

/-! ### One push -/

theorem finish_tally_le (q : Entry → Bool) (r : Reassembler) (i : ℕ) (e : Entry) :
    tally q (r.finish i e).1.slots ≤ tally q r.slots := by
  unfold finish
  split
  · exact le_refl _
  · split <;> exact tally_release_le i

theorem fill_tally_le (hq : ∀ e e', e.key = e'.key → q e = q e') {e : Entry}
    (hi : r.slots[i]? = some (some e)) : tally q (r.fill i p).1.slots ≤ tally q r.slots := by
  cases hs : e.store p.hdr p.payload with
  | error reason => rw [fill_error hi hs]
  | ok e' =>
    have hsame : tally q (r.slots.set i (some e')) = tally q r.slots :=
      tally_update hi (hq e' e (Entry.store_key hs))
    by_cases hc : e'.complete = true
    · rw [fill_finish hi hs hc, ← hsame]
      exact finish_tally_le q _ i e'
    · rw [fill_buffered hi hs (by simpa using hc)]
      exact hsame.le

/-- **How a push changes a count.**  It does not raise it, or it allocates, within the budgets, one
entry under its own key. -/
theorem push_tally (hq : ∀ e e', e.key = e'.key → q e = q e') (r : Reassembler) (p : Push) :
    tally q (r.push p).1.slots ≤ tally q r.slots ∨ (tally q (r.push p).1.slots
          ≤ tally q (r.expire p.nowMs).slots + (if q (r.freshEntry p) then 1 else 0)
        ∧ (p.addrValidated = false → (r.expire p.nowMs).occupied < r.cfg.loadThreshold)
        ∧ (r.expire p.nowMs).fromSource p.source < r.cfg.maxPerSource) := by
  have hsweep : tally q (r.expire p.nowMs).slots ≤ tally q r.slots := tally_evict_le
  rcases push_cases r p with ⟨-, h⟩ | ⟨-, -, h⟩ | ⟨reason, h⟩ | ⟨-, r', i, hl, h⟩
  · left
    rw [h]
  · left
    rw [h, completeUnfragmented_same.1]
  · left
    rw [h]
    exact hsweep
  · rw [h]
    rcases locate_cases hl with ⟨rfl, e, hi, -⟩ | ⟨-, hf, hload, hbudget, rfl⟩
    · exact Or.inl ((fill_tally_le hq hi).trans hsweep)
    · right
      have hfree := free_spec hf
      have hlt := (List.getElem?_eq_some_iff.mp hfree).1
      refine ⟨?_, hload, hbudget⟩
      rw [← tally_insert hfree]
      exact fill_tally_le hq (by rw [getElem?_store hlt, if_pos rfl])

theorem fill_slots_length (r : Reassembler) (i : ℕ) (p : Push) :
    (r.fill i p).1.slots.length = r.slots.length := by
  have hfinish : ∀ (r : Reassembler) (e : Entry), (r.finish i e).1.slots.length = r.slots.length := by
    intro r e
    unfold finish
    split
    · rfl
    · split <;> exact length_set
  unfold fill
  split
  · rfl
  · split
    · rfl
    · split
      · rw [hfinish, length_set]
      · exact length_set

theorem push_slots_length (r : Reassembler) (p : Push) : (r.push p).1.slots.length = r.slots.length := by
  have hsweep : (r.expire p.nowMs).slots.length = r.slots.length := length_map _
  rcases push_cases r p with ⟨-, h⟩ | ⟨-, -, h⟩ | ⟨reason, h⟩ | ⟨-, r', i, hl, h⟩
  · rw [h]
  · rw [h, completeUnfragmented_same.1]
  · rw [h, hsweep]
  · rw [h, fill_slots_length]
    rcases locate_cases hl with ⟨rfl, -⟩ | ⟨-, -, -, -, rfl⟩
    · exact hsweep
    · rw [length_set, hsweep]

/-! ### Whole histories -/

/-- The table is as large as configured, every source is within its budget, and no two slots hold
the same key. -/
structure Bounded (r : Reassembler) : Prop where
  length_eq : r.slots.length = r.cfg.maxEntries
  source_le : ∀ source, r.fromSource source ≤ r.cfg.maxPerSource
  distinct : Distinct Entry.key r.slots

theorem bounded_new (cfg : Config) : Bounded (new cfg) where
  length_eq := length_replicate
  source_le source := by simp [fromSource, new, countP_replicate]
  distinct := new_distinct cfg

theorem Bounded.push (h : Bounded r) (p : Push) : Bounded (r.push p).1 where
  length_eq := by rw [push_slots_length, push_cfg, h.length_eq]
  source_le source := by
    have hkey (e e' : Entry) (hk : e.key = e'.key) : (e.source == source) = (e'.source == source) := by
      rw [(Prod.mk.inj hk).1]
    have hle := h.source_le source
    rw [fromSource_eq] at hle ⊢
    rw [push_cfg]
    rcases push_tally hkey r p with hcase | ⟨hcase, -, hbudget⟩
    · omega
    · have hsweep : tally (fun e : Entry => e.source == source) (r.expire p.nowMs).slots
          ≤ tally (fun e => e.source == source) r.slots := tally_evict_le
      by_cases hs : p.source = source
      · rw [hs, fromSource_eq] at hbudget
        split at hcase <;> omega
      · have hother : ((r.freshEntry p).source == source) = false := by simpa [freshEntry] using hs
        rw [hother] at hcase
        simp only [Bool.false_eq_true, if_false] at hcase
        omega
  distinct := push_distinct h.distinct p

theorem bounded_run (cfg : Config) (ps : List Push) : Bounded ((new cfg).run ps) := by
  induction ps using reverseRecOn with
  | nil => exact bounded_new cfg
  | append_singleton ps p ih =>
    rw [run_append]
    exact ih.push p

theorem push_unvalidated (r : Reassembler) (p : Push) (hv : p.addrValidated = false)
    (hload : r.cfg.loadThreshold ≤ r.occupied) : (r.push p).1.occupied ≤ r.occupied := by
  rw [occupied_eq]
  rcases push_tally (q := fun _ => true) (fun _ _ _ => rfl) r p with hcase | ⟨hcase, hlow, -⟩
  · exact hcase
  · -- the sweep went below the threshold first, so one more entry reaches it at most
    have hlow := hlow hv
    rw [occupied_eq] at hlow
    simp only [if_true] at hcase
    omega

/-- **The reassembler's memory is bounded**, in all, for each source, and for sources that are not
validated. -/
theorem reassembler_bounded (cfg : Config) (ps : List Push) : ((new cfg).run ps).occupied ≤ cfg.maxEntries
      ∧ (∀ source, ((new cfg).run ps).fromSource source ≤ cfg.maxPerSource)
      ∧ (∀ (i j : ℕ) (a b : Entry), ((new cfg).run ps).slots[i]? = some (some a) →
        ((new cfg).run ps).slots[j]? = some (some b) →
        a.source = b.source ∧ a.reassemblyId = b.reassemblyId → i = j)
      ∧ ∀ p : Push, p.addrValidated = false → cfg.loadThreshold ≤ ((new cfg).run ps).occupied →
        (((new cfg).run ps).push p).1.occupied ≤ ((new cfg).run ps).occupied := by
  have h := bounded_run cfg ps
  have hcfg : ((new cfg).run ps).cfg = cfg := run_cfg (new cfg) ps
  refine ⟨?_, ?_, ?_, ?_⟩
  · exact (tally_le_length _ _).trans_eq (by rw [h.length_eq, hcfg])
  · intro source
    exact (h.source_le source).trans_eq (by rw [hcfg])
  · intro i j a b hi hj hk
    exact h.distinct i j a b hi hj (Prod.ext hk.1 hk.2)
  · intro p hv hload
    exact push_unvalidated _ p hv (by rwa [hcfg])

end Karst.Proto
