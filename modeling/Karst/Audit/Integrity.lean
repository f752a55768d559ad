import Karst.Audit.Log

/-!
# When an untouched log verifies

A row is hashed with the time the clock gave and read back with the time the database kept.  The two are
the same exactly when the clock gave whole microseconds, and a walk over the untouched table finds nothing
exactly when that was so at every call that was recorded.
-/

namespace Karst.Audit

open HashChain UInt64
open List hiding Vector

theorem unixNano_eq_iff {t t' : ℤ} : unixNano t = unixNano t' ↔ t ≡ t' [ZMOD 2 ^ 64] := by
  have hlow (u : ℤ) : 0 ≤ u % 2 ^ 64 := Int.emod_nonneg u (by decide)
  have hhigh (u : ℤ) : u % 2 ^ 64 < 2 ^ 64 := Int.emod_lt_of_pos u (by decide)
  have hval (u : ℤ) : (unixNano u).toNat = (u % 2 ^ 64).toNat := by
    refine toNat_ofNat_of_lt' ?_
    show (u % 2 ^ 64).toNat < 2 ^ 64
    omega
  rw [← UInt64.toNat_inj, hval, hval, Int.ModEq]
  omega

theorem Store.Microseconds.unixNano_keep {S : Store} (hS : S.Microseconds) {t : ℤ} :
    unixNano (S.keep t) = unixNano t ↔ 1000 ∣ t := by
  constructor
  · intro h
    have hdvd := (unixNano_eq_iff.mp h).symm.dvd
    have hnear := hS.near t
    have heq : S.keep t - t = 0 := Int.eq_zero_of_abs_lt_dvd hdvd (hnear.trans (by decide))
    rw [← sub_eq_zero.mp heq]
    exact hS.dvd t
  · intro h
    rw [hS.self t h]

/-- The hash tells what was appended from what is read back, at every row. -/
def Tells (S : Store) (sha256 : Bytes → Bytes) (cs : List Call) : Prop :=
  ∀ p c, p ++ [c] <+: cs → sha256 (chainInput (headOf sha256 (contents p)) (row S sha256 p c).content)
      = sha256 (chainInput (headOf sha256 (contents p)) (c.content p.length)) →
    chainInput (headOf sha256 (contents p)) (row S sha256 p c).content
      = chainInput (headOf sha256 (contents p)) (c.content p.length)

section

variable {S : Store} {sha256 : Bytes → Bytes} {cs p : List Call} {c : Call}

theorem chainInput_row (prev : Bytes) :
    chainInput prev (row S sha256 p c).content = chainInput prev (c.content p.length)
      ↔ unixNano (S.keep c.now) = unixNano c.now := by
  constructor
  · intro h
    have h := append_cancel_left (append_cancel_left (append_cancel_left h))
    have h := (append_inj h (by simp only [length_field, beBytes_length])).1
    have h := congrArg beValue (field_injective h)
    have hlt (u : UInt64) : u.toNat < 256 ^ 8 := u.toNat_lt
    rw [beValue_beBytes (hlt _), beValue_beBytes (hlt _)] at h
    exact UInt64.toNat_inj.mp h
  · intro h
    show chainInput prev ⟨_, unixNano (S.keep c.now), _, _, _, _, _⟩ = _
    rw [h]
    rfl

theorem lastHash_table : lastHash [] (table S sha256 cs) = headOf sha256 (contents cs) := by
  rcases eq_nil_or_concat cs with rfl | ⟨p, c, rfl⟩
  · rfl
  · rw [concat_eq_append, table_concat, lastHash_concat]
    rfl

theorem check_row (hS : S.Microseconds)
    (htell : sha256 (chainInput (headOf sha256 (contents p)) (row S sha256 p c).content)
        = sha256 (chainInput (headOf sha256 (contents p)) (c.content p.length)) →
      chainInput (headOf sha256 (contents p)) (row S sha256 p c).content
        = chainInput (headOf sha256 (contents p)) (c.content p.length)) :
    check sha256 (headOf sha256 (contents p)) (1 + ofNat (table S sha256 p).length)
        (row S sha256 p c) = .ok () ↔ 1000 ∣ c.now := by
  have hseq : (row S sha256 p c).seq = 1 + ofNat (table S sha256 p).length := by
    rw [length_table, add_comm]
    exact ofNat_add p.length 1
  have hhash : (row S sha256 p c).hash
      = hashText sha256 (chainInput (headOf sha256 (contents p)) (c.content p.length)) := by
    show headOf sha256 (contents (p ++ [c])) = _
    rw [contents_concat, headOf_concat]
  rw [check_eq_ok, chainHash_eq, hhash, ← hS.unixNano_keep, ← chainInput_row]
  constructor
  · intro h
    exact htell (base64Encode_injective h.2.2)
  · intro h
    rw [h]
    exact ⟨hseq, rfl, rfl⟩

theorem verifyRows_table (hS : S.Microseconds) (htell : Tells S sha256 cs) :
    verifyRows sha256 [] 1 (table S sha256 cs) = .ok () ↔ ∀ c ∈ cs, 1000 ∣ c.now := by
  induction cs using reverseRecOn with
  | nil => exact ⟨fun _ c hc => absurd hc not_mem_nil, fun _ => rfl⟩
  | append_singleton cs c ih =>
    have hfront : Tells S sha256 cs := fun p x hp => htell p x (hp.trans (prefix_append _ _))
    rw [table_concat, verifyRows_concat, ih hfront, lastHash_table, check_row hS (htell cs c prefix_rfl)]
    simp only [mem_append, mem_singleton, or_imp, forall_and, forall_eq]

theorem find?_table (hcs : cs.length ≤ capacity) (hp : p ++ [c] <+: cs) :
    (table S sha256 cs).find? (·.seq == ofNat (p.length + 1)) = some (row S sha256 p c) := by
  obtain ⟨rest, hrest⟩ := @table_isPrefix S sha256 cs (p ++ [c]) hp
  have hlen : p.length < capacity := by
    have := hp.length_le
    rw [length_append, length_singleton] at this
    omega
  have hearlier : ∀ e ∈ table S sha256 p, ¬ (e.seq == ofNat (p.length + 1)) = true := by
    intro e he hseq
    have hlt : e.seq < (row S sha256 p c).seq := seq_lt_of_mem_table hlen he
    exact UInt64.ne_of_lt hlt (beq_iff_eq.mp hseq)
  rw [← hrest, table_concat, append_assoc, find?_append,
    find?_eq_none.mpr hearlier, Option.none_or, singleton_append, find?_cons_of_pos]
  exact beq_iff_eq.mpr rfl

end

/-- **When an untouched log verifies**: exactly when the clock gave whole microseconds at every call
that was recorded. -/
theorem untouched_log_verifies_iff (S : Store) (hS : S.Microseconds) (sha256 : Bytes → Bytes)
    (calls : List Call) (htell : Tells S sha256 (calls.take capacity)) :
    (verify sha256 (appendAll S sha256 calls) = .ok ()
      ∧ ∀ k s h, head (appendAll S sha256 (calls.take k)) = .ok (s, h) →
        verifyFrom sha256 (appendAll S sha256 calls) s h = .ok ())
    ↔ ∀ c ∈ calls.take capacity, 1000 ∣ c.now := by
  have hlen : (calls.take capacity).length ≤ capacity := length_take_le _ _
  have hsorted : orderAsc (table S sha256 (calls.take capacity)) = table S sha256 (calls.take capacity) :=
    orderAsc_eq_self (pairwise_table hlen)
  have hverify : verify sha256 (appendAll S sha256 calls) = .ok ()
      ↔ ∀ c ∈ calls.take capacity, 1000 ∣ c.now := by
    rw [verify, appendAll_eq_table, hsorted]
    exact verifyRows_table hS htell
  constructor
  · intro h
    exact hverify.mp h.1
  · intro h
    refine ⟨hverify.mpr h, ?_⟩
    intro k s h' hhead
    obtain ⟨p, c, hp, rfl, rfl⟩ := head_appendAll hhead
    have hprefix : p ++ [c] <+: calls.take capacity := by
      rw [← hp, take_take, min_comm, ← take_take]
      exact take_prefix _ _
    rw [verifyFrom, hverify.mpr h, appendAll_eq_table, hsorted, find?_table hlen hprefix]
    show (if headOf sha256 (contents (p ++ [c])) ≠ headOf sha256 (contents (p ++ [c])) then _ else _) = _
    rw [if_neg (not_not.mpr rfl)]

def wholeCall : Call := ⟨ascii "acme", ascii "system", ascii "policy.update", [], [], 5000⟩

def oddCall : Call := { wholeCall with now := 5001 }

def laterCall : Call := { wholeCall with now := 7000 }

theorem untouched_log_verifies_wholeCall :
    verify id (appendAll postgres id [wholeCall, laterCall]) = .ok ()
      ∧ verifyFrom id (appendAll postgres id [wholeCall, laterCall]) 1
        (headOf id (contents [wholeCall])) = .ok () := by
  have htell : Tells postgres id ([wholeCall, laterCall].take capacity) := fun _ _ _ h => h
  have hmicro : ∀ c ∈ [wholeCall, laterCall], 1000 ∣ c.now := by decide
  have hboth := (untouched_log_verifies_iff postgres postgres_microseconds id _ htell).mpr fun c hc =>
    hmicro c (mem_of_mem_take hc)
  exact ⟨hboth.1, hboth.2 1 1 _ (by decide +kernel)⟩

theorem untouched_log_reported_modified :
    verify id (appendAll postgres id [oddCall]) = .error (.broken (.modified 1)) := by
  decide +kernel

end Karst.Audit
