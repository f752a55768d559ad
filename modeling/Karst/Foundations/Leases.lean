import Karst.Foundations.Collections

/-!
# Leases

A bounded table of leases that lapse when they are not used.  A key is granted a lease at some time,
every use within the idle time renews it, and a use after that finds it lapsed and removes it.  A
full table makes room for a new key by dropping the lapsed leases and then those used least
recently; which of two equally old ones goes is up to the order the table is iterated in.
-/

namespace Karst

open AList

/-- The order in which a table is iterated. -/
abbrev IterOrder (κ : Type*) := Arrangement (Sigma fun _ : κ => ℕ)

abbrev Leases (κ : Type*) := AList fun _ : κ => ℕ

namespace Leases

variable {κ : Type*}

def size (t : Leases κ) : ℕ := t.keys.length

/-- The first of the least recently used keys. -/
def oldest (order : IterOrder κ) (t : Leases κ) : Option κ :=
  ((order.arrange t.entries).argmin Sigma.snd).map Sigma.fst

variable [DecidableEq κ]

/-- Drop the least recently used key while the table is full. -/
def dropOldest (order : IterOrder κ) (cap : ℕ) : ℕ → Leases κ → Leases κ
  | 0, t => t
  | fuel + 1, t =>
    if cap ≤ t.size then
      match t.oldest order with
      | none => t
      | some k => dropOldest order cap fuel (t.erase k)
    else t

/-- Make room: what has lapsed first, then the least recently used. -/
def evict (order : IterOrder κ) (cap idle now : ℕ) (t : Leases κ) : Leases κ :=
  let live : Leases κ := retain (fun last => decide (now - last ≤ idle)) t
  dropOldest order cap live.size live

def grant (order : IterOrder κ) (cap idle now : ℕ) (k : κ) (t : Leases κ) : Leases κ :=
  (if cap ≤ t.size ∧ t.lookup k = none then t.evict order cap idle now else t).insert k now

/-- Use a lease: whether it is still good. -/
def renew (idle now : ℕ) (k : κ) (t : Leases κ) : Leases κ × Bool :=
  match t.lookup k with
  | none => (t, false)
  | some last => if idle < now - last then (t.erase k, false) else (t.insert k now, true)

variable {order : IterOrder κ} {cap idle now v : ℕ} {k k' : κ} {t : Leases κ}

/-! ### Contents -/

theorem lookup_dropOldest {fuel : ℕ} (h : (dropOldest order cap fuel t).lookup k = some v) :
    t.lookup k = some v := by
  induction fuel generalizing t with
  | zero => exact h
  | succ fuel ih =>
    rw [dropOldest] at h
    split_ifs at h with hfull
    · cases hold : t.oldest order with
      | none => rwa [hold] at h
      | some k' =>
        rw [hold] at h
        exact (lookup_erase_eq_some (ih h)).2
    · exact h

theorem lookup_evict (h : (t.evict order cap idle now).lookup k = some v) : t.lookup k = some v := by
  have hlive := lookup_dropOldest h
  rw [lookup_retain, Option.filter_eq_some_iff] at hlive
  exact hlive.1

theorem lookup_grant_self : (t.grant order cap idle now k).lookup k = some now :=
  lookup_insert _

theorem of_lookup_grant (hk : k' ≠ k) (h : (t.grant order cap idle now k).lookup k' = some v) :
    t.lookup k' = some v := by
  rw [grant, lookup_insert_ne hk] at h
  split_ifs at h with hfull
  · exact lookup_evict h
  · exact h

theorem renew_eq_true :
    (t.renew idle now k).2 = true ↔ ∃ last, t.lookup k = some last ∧ now ≤ last + idle := by
  unfold renew
  cases hk : t.lookup k with
  | none => simp
  | some last =>
    by_cases hidle : idle < now - last
    · simp only [hidle, if_true, Bool.false_eq_true, Option.some.injEq, exists_eq_left', false_iff]
      omega
    · simp only [hidle, if_false, Option.some.injEq, exists_eq_left', true_iff]
      omega

theorem lookup_renew_self :
    (t.renew idle now k).1.lookup k = if (t.renew idle now k).2 then some now else none := by
  unfold renew
  cases hk : t.lookup k with
  | none => simpa using hk
  | some last =>
    by_cases hidle : idle < now - last
    · simp [hidle]
    · simp [hidle]

theorem of_lookup_renew (hk : k' ≠ k) (h : (t.renew idle now k).1.lookup k' = some v) :
    t.lookup k' = some v := by
  unfold renew at h
  cases hl : t.lookup k with
  | none => rwa [hl] at h
  | some last =>
    rw [hl] at h
    dsimp only at h
    split_ifs at h with hidle
    · exact (lookup_erase_eq_some h).2
    · rwa [lookup_insert_ne hk] at h

end Leases

end Karst
