import Karst.Audit.Integrity

/-!
# What an anchor commits to

The adversary may put any rows into the table, with any hashes.  If `VerifyFrom` still accepts a head the
log once had, the rows up to that head are hashed as the original calls were.  They are then the original
rows, as far as two different times or texts are never hashed alike: times that differ by a multiple of
`2 ^ 64` nanoseconds are, and so are texts once one of them reaches 4 GiB.
-/

namespace Karst.Audit

open HashChain Entry UInt64
open List hiding Vector

/-! ### Hash inputs -/

def Content.texts (c : Content) : List Bytes := [c.accountID, c.actor, c.action, c.target, c.detail]

theorem beBytes_uint64_inj {v v' : UInt64} (h : beBytes 8 v.toNat = beBytes 8 v'.toNat) : v = v' := by
  have hlt (u : UInt64) : u.toNat < 256 ^ 8 := u.toNat_lt
  have h := congrArg beValue h
  rw [beValue_beBytes (hlt _), beValue_beBytes (hlt _)] at h
  exact UInt64.toNat_inj.mp h

theorem chainInput_eq (prev : Bytes) (c : Content) : chainInput prev c = chainLabel
    ++ (field prev ++ (field (beBytes 8 c.seq.toNat) ++ (field (beBytes 8 c.nanos.toNat)
      ++ fields c.texts))) := by
  simp [chainInput, Content.texts]

/-- **The front.**  The hash before, the number and the time come before any text and are always told
apart. -/
theorem chainInput_front {prev prev' : Bytes} {c c' : Content} (hprev : prev.length < 2 ^ 32)
    (hprev' : prev'.length < 2 ^ 32) (h : chainInput prev c = chainInput prev' c') :
    prev = prev' ∧ c.seq = c'.seq ∧ c.nanos = c'.nanos ∧ fields c.texts = fields c'.texts := by
  have hshort (v : ℕ) : (beBytes 8 v).length < 2 ^ 32 := by
    rw [beBytes_length]
    decide
  rw [chainInput_eq, chainInput_eq] at h
  obtain ⟨hp, h⟩ := field_append_inj hprev hprev' (append_cancel_left h)
  obtain ⟨hs, h⟩ := field_append_inj (hshort _) (hshort _) h
  obtain ⟨hn, h⟩ := field_append_inj (hshort _) (hshort _) h
  exact ⟨hp, beBytes_uint64_inj hs, beBytes_uint64_inj hn, h⟩

theorem chainInput_inj {prev prev' : Bytes} {c c' : Content} (hprev : prev.length < 2 ^ 32)
    (hprev' : prev'.length < 2 ^ 32) (hc : ∀ b ∈ c.texts, b.length < 2 ^ 32)
    (hc' : ∀ b ∈ c'.texts, b.length < 2 ^ 32) (h : chainInput prev c = chainInput prev' c') :
    prev = prev' ∧ c = c' := by
  obtain ⟨hp, hs, hn, htexts⟩ := chainInput_front hprev hprev' h
  have htexts := fields_inj hc hc' htexts
  cases c
  cases c'
  simp only [Content.texts, cons.injEq, and_true] at htexts
  refine ⟨hp, ?_⟩
  rw [Content.mk.injEq]
  exact ⟨hs, hn, htexts⟩

theorem field_zeros {n : ℕ} (hn : 2 ^ 32 ∣ n) :
    field (replicate n 0) ++ field [] = field [] ++ field (replicate n 0) := by
  obtain ⟨m, rfl⟩ := hn
  have hlen : beBytes 4 (2 ^ 32 * m) = replicate 4 0 := by
    have hle : leBytes 4 (2 ^ 32 * m) = leBytes 4 0 := by
      have hmod := congrArg (leBytes 4) (leValue_leBytes 4 (2 ^ 32 * m))
      have hback := leBytes_leValue (leBytes 4 (2 ^ 32 * m))
      rw [leBytes_length] at hback
      rw [← hback, hmod]
      congr 1
      exact Nat.mul_mod_right (2 ^ 32) m
    rw [beBytes, hle]
    rfl
  have hnil : field [] = replicate 4 0 := rfl
  rw [hnil, field, length_replicate, hlen]
  simp only [replicate_append_replicate]
  rw [Nat.add_comm (4 + 2 ^ 32 * m) 4]

/-! ### Rows up to an anchor -/

def Entry.facts (e : Entry) : Entry := { e with prevHash := [], hash := [] }

/-- The rows with numbers from one to `s`, in order and without their hashes. -/
def rowsTo (s : UInt64) (rows : Table) : List Entry :=
  ((orderAsc rows).filter fun e => 1 ≤ e.seq && e.seq ≤ s).map Entry.facts

def Numbered (rows : List Entry) : Prop :=
  rows.length < 2 ^ 64 ∧ ∀ i e, rows[i]? = some e → e.seq = UInt64.ofNat (i + 1)

theorem filter_numbered {rows : List Entry} (h : Numbered rows) {n : ℕ} (hn : n ≤ rows.length) :
    rows.filter (fun e => 1 ≤ e.seq && e.seq ≤ ofNat n) = rows.take n := by
  have hval {i : ℕ} (hi : i ≤ rows.length) : (ofNat i).toNat = i :=
    toNat_ofNat_of_lt' (hi.trans_lt h.1)
  have hseq {i : ℕ} {e : Entry} (hi : rows[i]? = some e) : e.seq.toNat = i + 1 := by
    have hlt : i < rows.length := (List.getElem?_eq_some_iff.mp hi).1
    rw [h.2 i e hi]
    exact hval hlt
  conv_lhs => rw [← take_append_drop n rows]
  have hfront : (rows.take n).filter (fun e => 1 ≤ e.seq && e.seq ≤ ofNat n) = rows.take n := by
    rw [filter_eq_self]
    intro e he
    obtain ⟨i, hi⟩ := mem_iff_getElem?.mp he
    have hlt : i < n := by
      have := (List.getElem?_eq_some_iff.mp hi).1
      rw [length_take] at this
      omega
    rw [getElem?_take_of_lt hlt] at hi
    simp only [Bool.and_eq_true, decide_eq_true_eq, le_iff_toNat_le, hseq hi, hval hn]
    exact ⟨Nat.le_add_left 1 i, hlt⟩
  have hback : (rows.drop n).filter (fun e => 1 ≤ e.seq && e.seq ≤ ofNat n) = [] := by
    rw [filter_eq_nil_iff]
    intro e he
    obtain ⟨i, hi⟩ := mem_iff_getElem?.mp he
    rw [getElem?_drop] at hi
    simp only [Bool.and_eq_true, decide_eq_true_eq, le_iff_toNat_le, hseq hi, hval hn]
    omega
  rw [filter_append, hfront, hback, append_nil]

section

variable {S : Store} {sha256 : Bytes → Bytes} {rows : Table} {cs : List Call}

theorem numbered_table (hcs : cs.length ≤ capacity) : Numbered (table S sha256 cs) := by
  refine ⟨by rw [length_table]; exact hcs.trans_lt (by decide), ?_⟩
  intro i e hi
  have hmap := congrArg (·[i]?) (@seq_table S sha256 cs)
  have hlt : i < cs.length := by
    rw [← @length_table S sha256 cs]
    exact (List.getElem?_eq_some_iff.mp hi).1
  simpa [hi, hlt] using hmap

theorem numbered_of_verify (h : verify sha256 rows = .ok ()) : Numbered (orderAsc rows) := by
  have hseq : ∀ i e, (orderAsc rows)[i]? = some e → e.seq = ofNat (i + 1) := by
    intro i e hi
    obtain ⟨hlt, hget⟩ := List.getElem?_eq_some_iff.mp hi
    have hprefix : (orderAsc rows).take i ++ [e] <+: orderAsc rows := by
      rw [← hget, take_concat_get' _ i hlt]
      exact take_prefix _ _
    have hlinked := (linked_of_verifyRows h).2 _ e hprefix
    rw [hlinked.seq, length_take, Nat.min_eq_left hlt.le]
  refine ⟨?_, hseq⟩
  -- The number after the last 64-bit one would be zero, and rows are in order.
  by_contra hlen
  have hlast : 2 ^ 64 - 1 < (orderAsc rows).length := by omega
  have hfirst : 0 < (orderAsc rows).length := by omega
  have hle := pairwise_iff_getElem.mp (pairwise_orderAsc rows) 0 (2 ^ 64 - 1) hfirst hlast (by omega)
  rw [hseq 0 _ (getElem?_eq_getElem hfirst), hseq (2 ^ 64 - 1) _ (getElem?_eq_getElem hlast)] at hle
  revert hle
  decide

end

/-! ### Domains -/

/-- Which times the clock gives and the column holds, and how long a text can be. -/
structure Domain where
  clock : Set ℤ
  stored : Set ℤ
  limit : ℕ

def Call.Fits (D : Domain) (c : Call) : Prop :=
  c.now ∈ D.clock ∧ ∀ b ∈ (c.content 0).texts, b.length ≤ D.limit

def Entry.Fits (D : Domain) (e : Entry) : Prop :=
  e.createdAt ∈ D.stored ∧ ∀ b ∈ e.content.texts, b.length ≤ D.limit

/-- Every change to a table below a head it had is detected, if the hash is free of collisions on what
the log and the changed table give it. -/
def Detects (S : Store) (sha256 : Bytes → Bytes) (D : Domain) : Prop :=
  ∀ calls : List Call, (∀ c ∈ calls, c.Fits D) →
    ∀ k s h, head (appendAll S sha256 (calls.take k)) = .ok (s, h) → ∀ rows : Table, (∀ e ∈ rows, e.Fits D) →
        CollisionFree chainInput (hashText sha256) (contents (calls.take capacity))
          ((orderAsc rows).map Entry.content) → verifyFrom sha256 rows s h = .ok () →
        rowsTo s rows = rowsTo s (appendAll S sha256 calls)

section

variable {S : Store} {sha256 : Bytes → Bytes} {D : Domain} {rows : Table} {p : List Call} {c : Call}

theorem length_hashText (hsha : ∀ x, (sha256 x).length = 32) (x : Bytes) :
    (hashText sha256 x).length = 44 := by
  rw [hashText, base64Encode_length, hsha]

theorem length_headOf_lt (hsha : ∀ x, (sha256 x).length = 32) (cs : List Content) :
    (headOf sha256 cs).length < 2 ^ 32 :=
  length_head_lt (by decide) (fun x => by rw [length_hashText hsha x]; decide) cs

theorem anchor_row {s : UInt64} {h : Bytes} (hv : verifyFrom sha256 rows s h = .ok ()) :
    verify sha256 rows = .ok () ∧ ∃ q e r, orderAsc rows = q ++ e :: r ∧ e.seq = s ∧ e.hash = h := by
  obtain ⟨_, hverify, hv⟩ := bind_eq_ok.mp hv
  refine ⟨hverify, ?_⟩
  cases hfind : (orderAsc rows).find? (·.seq == s) with
  | none =>
    rw [hfind] at hv
    cases hv
  | some e =>
    rw [hfind] at hv
    obtain ⟨hhash, -⟩ := guard_eq_ok.mp hv
    obtain ⟨hseq, q, r, hqr, -⟩ := find?_eq_some_iff_append.mp hfind
    exact ⟨q, e, r, hqr, beq_iff_eq.mp hseq, not_not.mp hhash⟩

variable {cs : List Call}

theorem contents_isPrefix (h : p <+: cs) : contents p <+: contents cs := by
  obtain ⟨r, rfl⟩ := h
  rw [contents, contents, mapIdx_append]
  exact prefix_append _ _

variable {e : Entry}

theorem single_accepted (hseq : e.seq = 1) (hprev : e.prevHash = [])
    (hinput : chainInput [] e.content = chainInput [] (c.content 0))
    (hhash : e.hash = headOf sha256 (contents [c])) :
    verifyFrom sha256 [e] 1 (headOf sha256 (contents [c])) = .ok ()
      ∧ CollisionFree chainInput (hashText sha256) (contents ([c].take capacity)) [e.content] := by
  have hlink : chainHash sha256 [] e = e.hash := by
    rw [chainHash_eq, hinput, hhash]
    rfl
  have hverify : verify sha256 [e] = .ok () := by
    show (check sha256 [] 1 e >>= fun _ => Except.ok ()) = .ok ()
    rw [check_eq_ok.mpr ⟨hseq, hprev, hlink⟩]
    rfl
  have hfind : (orderAsc [e]).find? (·.seq == (1 : UInt64)) = some e := by
    show [e].find? (·.seq == (1 : UInt64)) = some e
    rw [find?_cons_of_pos]
    exact beq_iff_eq.mpr hseq
  refine ⟨?_, ?_⟩
  · rw [verifyFrom, hverify, hfind]
    show (if e.hash ≠ headOf sha256 (contents [c]) then _ else _) = _
    rw [if_neg (not_not.mpr hhash)]
  · have honly {γ : Type} {x y : γ} {q : List γ} (hq : q ++ [y] <+: [x]) : q = [] ∧ y = x := by
      have hlen := hq.length_le
      rw [length_append, length_singleton, length_singleton] at hlen
      obtain rfl := length_eq_zero_iff.mp (Nat.le_zero.mp (Nat.le_of_add_le_add_right hlen))
      exact ⟨rfl, singleton_inj.mp (hq.eq_of_length rfl)⟩
    intro x y hx hy _
    obtain ⟨q, a, hq, rfl⟩ := hx
    obtain ⟨q', a', hq', rfl⟩ := hy
    obtain ⟨rfl, rfl⟩ := honly (x := c.content 0) hq
    obtain ⟨rfl, rfl⟩ := honly hq'
    exact hinput.symm

theorem appendAll_single : appendAll S sha256 [c] = [row S sha256 [] c] := by
  rfl

theorem rowsTo_single (hseq : e.seq = 1) : rowsTo 1 [e] = [e.facts] := by
  show ([e].filter fun e => 1 ≤ e.seq && e.seq ≤ 1).map facts = _
  rw [filter_cons_of_pos (by rw [hseq]; decide)]
  rfl

theorem Detects.single (hD : Detects S sha256 D) (hc : c.Fits D) (he : e.Fits D)
    (hseq : e.seq = 1) (hprev : e.prevHash = [])
    (hinput : chainInput [] e.content = chainInput [] (c.content 0))
    (hhash : e.hash = headOf sha256 (contents [c])) : e.facts = (row S sha256 [] c).facts := by
  obtain ⟨haccept, hfree⟩ := @single_accepted sha256 c e hseq hprev hinput hhash
  have hhead : head (appendAll S sha256 ([c].take 1)) = .ok (1, headOf sha256 (contents [c])) := by
    show head (appendAll S sha256 [c]) = _
    rfl
  have hrows := hD [c] (forall_mem_singleton.mpr hc) 1 1 _ hhead [e]
    (forall_mem_singleton.mpr he) hfree haccept
  rw [appendAll_single, rowsTo_single hseq, rowsTo_single rfl] at hrows
  exact singleton_inj.mp hrows

variable {q : List Entry}

theorem nanos_eq (hsha : ∀ x, (sha256 x).length = 32) (hp : p ++ [c] <+: cs) {es : List Content}
    (hq : (q ++ [e]).map content <+: es) (hfree : CollisionFree chainInput (hashText sha256) (contents cs) es)
    (hhead : headOf sha256 (contents (p ++ [c])) = headOf sha256 ((q ++ [e]).map content)) :
    unixNano c.now = unixNano e.createdAt := by
  have hprefix : contents p ++ [c.content p.length] <+: contents cs := by
    rw [← contents_concat]
    exact contents_isPrefix hp
  rw [map_append, map_singleton] at hq hhead
  rw [contents_concat, headOf_concat, headOf_concat] at hhead
  have hinput := hfree _ _ ⟨_, _, hprefix, rfl⟩ ⟨_, _, hq, rfl⟩ hhead
  exact (chainInput_front (length_headOf_lt hsha _) (length_headOf_lt hsha _) hinput).2.2.1

theorem contents_eq (hsha : ∀ x, (sha256 x).length = 32) (hlimit : D.limit < 2 ^ 32)
    (hcs : ∀ c ∈ cs, c.Fits D) (hq : ∀ e ∈ q, e.Fits D)
    (hfree : CollisionFree chainInput (hashText sha256) (contents cs) (q.map content))
    (hhead : headOf sha256 (contents cs) = headOf sha256 (q.map content)) : contents cs = q.map content := by
  have hshort : ∀ x ∈ contents cs, ∀ b ∈ x.texts, b.length < 2 ^ 32 := by
    intro x hx b hb
    obtain ⟨i, hi, rfl⟩ := mem_mapIdx.mp hx
    exact ((hcs _ (getElem_mem hi)).2 b hb).trans_lt hlimit
  have hshort' : ∀ x ∈ q.map content, ∀ b ∈ x.texts, b.length < 2 ^ 32 := by
    intro x hx b hb
    obtain ⟨e, he, rfl⟩ := mem_map.mp hx
    exact ((hq e he).2 b hb).trans_lt hlimit
  refine head_inj ?_ ?_ hfree hhead
  · intro x hnil
    have hlen := length_hashText hsha x
    rw [hnil] at hlen
    cases hlen
  · intro r x r' x' hr hr' hinput
    have hx : x ∈ contents cs := hr.subset (mem_append_right r (mem_singleton_self x))
    have hx' : x' ∈ q.map content :=
      hr'.subset (mem_append_right r' (mem_singleton_self x'))
    exact chainInput_inj (length_headOf_lt hsha r) (length_headOf_lt hsha r') (hshort x hx)
      (hshort' x' hx') hinput

theorem facts_eq (h : contents cs = q.map content)
    (htimes : ∀ c ∈ cs, ∀ e ∈ q, unixNano e.createdAt = unixNano c.now → e.createdAt = S.keep c.now) :
    q.map facts = (table S sha256 cs).map facts := by
  have hlen : q.length = cs.length := by
    have := congrArg length h
    rw [contents, length_mapIdx, length_map] at this
    exact this.symm
  refine ext_getElem (by simp [hlen, length_table]) ?_
  intro i hi hi'
  have hiq : i < q.length := by simpa using hi
  have hic : i < cs.length := hlen ▸ hiq
  have hcontent : cs[i].content i = q[i].content := by
    have hget := getElem_of_eq h (i := i) (by rw [contents, length_mapIdx]; exact hic)
    simpa [contents] using hget
  obtain ⟨hseq, hnanos, ha, hb, hc, hd, he⟩ := Content.mk.inj hcontent
  have htime := htimes cs[i] (getElem_mem hic) q[i] (getElem_mem hiq) hnanos.symm
  simp only [getElem_map, table, getElem_mapIdx, facts, row, length_take,
    Nat.min_eq_left hic.le, hseq, htime, ha, hb, hc, hd, he]

end

/-! ### Detection -/

section

variable {S : Store} {sha256 : Bytes → Bytes} {D : Domain}

theorem Detects.times (hD : Detects S sha256 D) {t t' : ℤ} (ht : t ∈ D.clock) (ht' : t' ∈ D.stored)
    (hcong : t' ≡ t [ZMOD 2 ^ 64]) : t' = S.keep t := by
  have hfits : ∀ b ∈ [([] : Bytes), [], [], [], []], b.length ≤ D.limit := by simp
  have hinput : chainInput [] ⟨1, unixNano t', [], [], [], [], []⟩
      = chainInput [] ⟨1, unixNano t, [], [], [], [], []⟩ := by
    rw [unixNano_eq_iff.mpr hcong]
  have hrow := hD.single (c := ⟨[], [], [], [], [], t⟩) (e := ⟨1, t', [], [], [], [], [], [], _⟩)
    ⟨ht, hfits⟩ ⟨ht', hfits⟩ rfl rfl hinput rfl
  exact congrArg createdAt hrow

theorem Detects.limit_lt (hD : Detects S sha256 D) {t t' : ℤ} (ht : t ∈ D.clock) (ht' : t' ∈ D.stored)
    (hcong : t' ≡ t [ZMOD 2 ^ 64]) : D.limit < 2 ^ 32 := by
  by_contra hlimit
  generalize hn : 2 ^ 32 = n at hlimit
  have hle : n ≤ D.limit := Nat.le_of_not_lt hlimit
  have hzeros := field_zeros (n := n) (hn ▸ dvd_rfl)
  have hinput : chainInput [] ⟨1, unixNano t', [], [], [], [], replicate n 0⟩
      = chainInput [] ⟨1, unixNano t, [], [], [], replicate n 0, []⟩ := by
    rw [unixNano_eq_iff.mpr hcong]
    simp only [chainInput]
    rw [hzeros]
  have hrow := hD.single (c := ⟨[], [], [], replicate n 0, [], t⟩)
    (e := ⟨1, t', [], [], [], [], replicate n 0, [], _⟩)
    ⟨ht, by simpa [Call.content, Content.texts] using hle⟩
    ⟨ht', by simpa [content, Content.texts] using hle⟩ rfl rfl hinput rfl
  have htarget : ([] : Bytes) = replicate n 0 := congrArg target hrow
  have hlen := congrArg length htarget
  rw [length_replicate, length_nil] at hlen
  omega

/-- **Which tampering is detected**: all of it, exactly if no two times are hashed alike and no text
reaches 4 GiB. -/
theorem tampering_detected_iff (S : Store) (sha256 : Bytes → Bytes) (D : Domain)
    (hsha : ∀ x, (sha256 x).length = 32) :
    Detects S sha256 D ↔ ∀ t ∈ D.clock, ∀ t' ∈ D.stored, t' ≡ t [ZMOD 2 ^ 64] →
      t' = S.keep t ∧ D.limit < 2 ^ 32 := by
  constructor
  · intro hD t ht t' ht' hcong
    exact ⟨hD.times ht ht' hcong, hD.limit_lt ht ht' hcong⟩
  · intro hdomain calls hcalls k s h hhead rows hrows hfree hv
    obtain ⟨p, c, hp, hs, hh⟩ := head_appendAll hhead
    obtain ⟨hverify, q, e, r, hqr, hseq, hhash⟩ := anchor_row hv
    have hpre : p ++ [c] <+: calls.take capacity := by
      rw [← hp, take_take, min_comm, ← take_take]
      exact take_prefix _ _
    have hqpre : q ++ [e] <+: orderAsc rows := ⟨r, by rw [hqr, append_assoc]; rfl⟩
    have hlinked := (linked_of_verifyRows hverify).2 q e hqpre
    have hheads : headOf sha256 (contents (p ++ [c])) = headOf sha256 ((q ++ [e]).map content) := by
      rw [← hh, ← hhash]
      exact hlinked.hash
    have hfit : ∀ c' ∈ p ++ [c], c'.Fits D := fun c' hc' =>
      hcalls c' (mem_of_mem_take (hpre.subset hc'))
    have hfit' : ∀ e' ∈ q ++ [e], e'.Fits D := fun e' he' =>
      hrows e' (mem_orderAsc.mp (hqpre.subset he'))
    -- The last row is hashed with the time of the last call, so texts are short.
    have hnanos := nanos_eq hsha hpre (hqpre.map _) hfree hheads
    have hlimit : D.limit < 2 ^ 32 :=
      (hdomain c.now (hfit c (by simp)).1 e.createdAt (hfit' e (by simp)).1
        (unixNano_eq_iff.mp hnanos.symm)).2
    have hcontents : contents (p ++ [c]) = (q ++ [e]).map content := by
      refine contents_eq hsha hlimit hfit hfit' ?_ hheads
      intro x y hx hy
      obtain ⟨a, b, hab, hx⟩ := hx
      obtain ⟨a', b', hab', hy⟩ := hy
      exact hfree x y ⟨a, b, hab.trans (contents_isPrefix hpre), hx⟩ ⟨a', b', hab'.trans (hqpre.map _), hy⟩
    have hfacts : (q ++ [e]).map facts = (table S sha256 (p ++ [c])).map facts := by
      refine facts_eq hcontents ?_
      intro c' hc' e' he' hnanos'
      exact (hdomain c'.now (hfit c' hc').1 e'.createdAt (hfit' e' he').1 (unixNano_eq_iff.mp hnanos')).1
    have hlen : (q ++ [e]).length = (p ++ [c]).length := by
      have := congrArg length hfacts
      rwa [length_map, length_map, length_table] at this
    have hcap : (calls.take capacity).length ≤ capacity := length_take_le _ _
    have hanchor : s = ofNat (p ++ [c]).length := by
      rw [hs, length_append, length_singleton]
    have htable := @table_isPrefix S sha256 _ _ hpre
    -- Both tables are cut at the anchor.
    rw [rowsTo, rowsTo, appendAll_eq_table, orderAsc_eq_self (pairwise_table hcap), hanchor,
      filter_numbered (numbered_table hcap) (by rw [length_table]; exact hpre.length_le),
      filter_numbered (numbered_of_verify hverify) (by rw [← hlen]; exact hqpre.length_le),
      ← hlen, prefix_iff_eq_take.mp hqpre |>.symm, hlen]
    rw [hfacts, prefix_iff_eq_take.mp htable, length_table]

end

/-- A clock and a column that stay between 1678 and 2262, and texts of at most a gigabyte. -/
def ourCenturies : Domain where
  clock := { t | -2 ^ 63 ≤ t ∧ t < 2 ^ 63 }
  stored := { t | (-2 ^ 63 ≤ t ∧ t < 2 ^ 63) ∧ 1000 ∣ t }
  limit := 2 ^ 30

theorem tampering_detected_ourCenturies : Detects postgres (fun x => beBytes 32 (beValue x)) ourCenturies := by
  refine (tampering_detected_iff postgres _ ourCenturies fun x => beBytes_length 32 _).mpr ?_
  intro t ht t' ht' hcong
  obtain ⟨hrange, hmicro⟩ := ht'
  have heq : t' = t := by
    have hdvd := hcong.dvd
    have hlt : |t - t'| < 2 ^ 64 := by
      rw [abs_lt]
      constructor <;> linarith [ht.1, ht.2, hrange.1, hrange.2]
    exact (sub_eq_zero.mp (Int.eq_zero_of_abs_lt_dvd hdvd hlt)).symm
  subst heq
  exact ⟨(postgres_microseconds.self t' hmicro).symm, by decide⟩

/-- A log of one call, and the same with its time moved by 125 turns of the nanosecond count, some 73
thousand years. -/
def untouched : Table := appendAll postgres id [wholeCall]

def shifted : Table := untouched.map fun e => { e with createdAt := e.createdAt + 125 * 2 ^ 64 }

theorem shifted_time_accepted : head untouched = .ok (1, headOf id (contents [wholeCall]))
      ∧ verifyFrom id shifted 1 (headOf id (contents [wholeCall])) = .ok ()
      ∧ rowsTo 1 shifted ≠ rowsTo 1 untouched := by
  decide +kernel

end Karst.Audit
