import Karst.Foundations.Runs
import Karst.Bedrock.Coverage

/-!
# The head commits to the history

What the chain hashes is an injective encoding of an entry's content and of the hash before it, and no
digest is the empty string the chain starts from.  A head therefore determines every entry under it,
unless the hash collides on two of the inputs it was given along the way.
-/

namespace Karst.Bedrock

open Runs Option
open List hiding Vector

structure Content where
  seq : UInt64
  time : ℤ
  op : Op
  body : Bytes
  deriving DecidableEq

def Entry.content (e : Entry) : Content := ⟨e.seq, e.time, e.op, e.body⟩

def history (entries : List Entry) : List Content := entries.map Entry.content

def chainInput (prev : Bytes) (c : Content) : Bytes :=
  CHAIN_LABEL ++ (putLp prev ++ putLp (beBytes 8 c.seq.toNat)
    ++ putLp (beBytes 8 (toBits64 c.time)) ++ putLp (ascii c.op.asStr) ++ putLp c.body)

def headOf (E : Externals) (cs : List Content) : Bytes :=
  run (fun prev c => E.sha512 (chainInput prev c)) [] cs

def Externals.Digests (E : Externals) : Prop := ∀ b, (E.sha512 b).length = 64

/-- An input the chain hash is computed of along a history. -/
def Hashed (E : Externals) (cs : List Content) (x : Bytes) : Prop :=
  ∃ p c, p ++ [c] <+: cs ∧ x = chainInput (headOf E p) c

/-- The hash is free of collisions on what is hashed along two histories. -/
def CollisionFree (E : Externals) (cs cs' : List Content) : Prop :=
  ∀ x y, Hashed E cs x → Hashed E cs' y → E.sha512 x = E.sha512 y → x = y

/-- What a slice of entries can be: its length and its times are machine integers. -/
structure IsSlice (entries : List Entry) : Prop where
  length : entries.length < 2 ^ 64
  times : ∀ e ∈ entries, IsTime e.time

/-! ### One link -/

theorem chainHash_eq (E : Externals) (prev : Bytes) (e : Entry) :
    chainHash E prev e.seq e.time e.op e.body = E.sha512 (chainInput prev e.content) := rfl

theorem Op.asStr_injective {op op' : Op} (h : ascii op.asStr = ascii op'.asStr) : op = op' := by
  have hparse : Op.parse (ascii op.asStr) = some op := Op.parse_eq_some.mpr rfl
  rw [Op.parse_eq_some.mpr h] at hparse
  exact (some.inj hparse).symm

theorem beBytes_toNat_injective {v v' : UInt64} (h : beBytes 8 v.toNat = beBytes 8 v'.toNat) : v = v' := by
  rw [← (seq_eq_iff (beBytes_length 8 v.toNat)).mpr rfl]
  exact (seq_eq_iff (beBytes_length 8 v.toNat)).mpr h

theorem toBits64_injective {t t' : ℤ} (ht : IsTime t) (ht' : IsTime t')
    (h : beBytes 8 (toBits64 t) = beBytes 8 (toBits64 t')) : t = t' := by
  have hbits : toBits64 t = toBits64 t' := by
    have hval : beValue (beBytes 8 (toBits64 t)) = toBits64 t := beValue_beBytes (toBits64_lt t)
    rw [← hval, h]
    exact beValue_beBytes (toBits64_lt t')
  rw [← ofBits64_toBits64 ht, hbits, ofBits64_toBits64 ht']

theorem putLp_injective {b b' : Bytes} (h : putLp b = putLp b') : b = b' :=
  (append_inj h (by rw [beBytes_length, beBytes_length])).2

/-- **One link.**  The fields before the body are told apart by their lengths, and the body is what is
left. -/
theorem chainInput_inj {prev prev' : Bytes} {c c' : Content} (hprev : prev.length < 2 ^ 32)
    (hprev' : prev'.length < 2 ^ 32) (ht : IsTime c.time) (ht' : IsTime c'.time)
    (h : chainInput prev c = chainInput prev' c') : prev = prev' ∧ c = c' := by
  have hshort v : (beBytes 8 v).length < 2 ^ 32 := by
    rw [beBytes_length]
    decide
  simp only [chainInput, append_assoc] at h
  obtain ⟨rfl, hseq⟩ := lp_inverts.append_inj hprev hprev' (append_cancel_left h)
  obtain ⟨hs, htime⟩ := lp_inverts.append_inj (hshort _) (hshort _) hseq
  obtain ⟨ht₂, hop⟩ := lp_inverts.append_inj (hshort _) (hshort _) htime
  obtain ⟨ho, hbody⟩ := lp_inverts.append_inj (Op.text_asStr c.op).1 (Op.text_asStr c'.op).1 hop
  cases c
  cases c'
  refine ⟨rfl, ?_⟩
  rw [Content.mk.injEq]
  exact ⟨beBytes_toNat_injective hs, toBits64_injective ht ht' ht₂, Op.asStr_injective ho,
    putLp_injective hbody⟩

/-! ### The chain -/

section

variable {E : Externals} {cs cs' p p' : List Content}

theorem headOf_concat (c : Content) : headOf E (cs ++ [c]) = E.sha512 (chainInput (headOf E cs) c) :=
  run_concat _ _ _ _

theorem headOf_length_lt (hE : E.Digests) (cs : List Content) : (headOf E cs).length < 2 ^ 32 := by
  rcases eq_nil_or_concat cs with rfl | ⟨p, c, rfl⟩
  · exact Nat.two_pow_pos 32
  · rw [concat_eq_append, headOf_concat, hE]
    decide

theorem headOf_length (hE : E.Digests) (h : cs ≠ []) : (headOf E cs).length = 64 := by
  rcases eq_nil_or_concat cs with rfl | ⟨p, c, rfl⟩
  · exact absurd rfl h
  · rw [concat_eq_append, headOf_concat, hE]

theorem CollisionFree.of_isPrefix (h : CollisionFree E cs cs') (hp : p <+: cs) (hp' : p' <+: cs') :
    CollisionFree E p p' := by
  intro x y hx hy
  obtain ⟨q, c, hq, hxq⟩ := hx
  obtain ⟨q', c', hq', hyq⟩ := hy
  exact h x y ⟨q, c, hq.trans hp, hxq⟩ ⟨q', c', hq'.trans hp', hyq⟩

theorem mem_of_concat_isPrefix {c : Content} (h : p ++ [c] <+: cs) : c ∈ cs :=
  h.subset (mem_append_right p (mem_singleton_self c))

theorem headOf_inj (hE : E.Digests) (ht : ∀ c ∈ cs, IsTime c.time) (ht' : ∀ c ∈ cs', IsTime c.time)
    (hfree : CollisionFree E cs cs') (h : headOf E cs = headOf E cs') : cs = cs' := by
  have hfresh : ∀ prev c, E.sha512 (chainInput prev c) ≠ [] := by
    intro prev c hnil
    have hlen := hE (chainInput prev c)
    rw [hnil] at hlen
    cases hlen
  refine run_inj ?_ (fun q c _ => hfresh _ c) (fun q c _ => hfresh _ c) h
  intro q c q' c' hq hq' hmeet
  have hinput := hfree _ _ ⟨q, c, hq, rfl⟩ ⟨q', c', hq', rfl⟩ hmeet
  exact chainInput_inj (headOf_length_lt hE q) (headOf_length_lt hE q')
    (ht c (mem_of_concat_isPrefix hq)) (ht' c' (mem_of_concat_isPrefix hq')) hinput

end

/-! ### Accepted logs are chains -/

/-- What the walk has established of the entries it has passed. -/
structure Chained (E : Externals) (entries : List Entry) (st : State) : Prop where
  head : st.head = headOf E (history entries)
  headSeq : st.headSeq = UInt64.ofNat (min entries.length (2 ^ 64 - 1))
  seqs : entries.map Entry.seq = (List.range entries.length).map expectedSeq
  times : (entries.map Entry.time).Pairwise (· ≤ ·)
  lastTime : ∀ e ∈ entries, e.time ≤ st.lastTime

section

variable {E : Externals} {entries : List Entry} {st st' : State} {e : Entry}

theorem history_concat : history (entries ++ [e]) = history entries ++ [e.content] :=
  map_append

theorem chained_nil : Chained E [] State.default where
  head := rfl
  headSeq := rfl
  seqs := rfl
  times := Pairwise.nil
  lastTime := by simp

theorem verifyEntry_chained (h : Chained E entries st)
    (hv : verifyEntry E (expectedSeq entries.length) st st.head e = .ok (st', st'.head)) :
    Chained E (entries ++ [e]) st' := by
  obtain ⟨hpos, genesis, st₁, -, -, -, hr⟩ := verifyEntry_eq_ok.mp hv
  obtain ⟨hseq, htime, -⟩ := checkPosition_eq_ok.mp hpos
  have hbefore : ∀ e' ∈ entries, e'.time ≤ e.time := fun e' he' => (h.lastTime e' he').trans htime
  have hhead : st'.head = chainHash E st.head e.seq e.time e.op e.body := (Prod.mk.inj hr).2
  have hlast : st'.lastTime = e.time := congrArg State.lastTime (Prod.mk.inj hr).1
  refine ⟨?_, ?_, ?_, ?_, ?_⟩
  · rw [hhead, chainHash_eq, history_concat, headOf_concat, h.head]
  · rw [congrArg State.headSeq (Prod.mk.inj hr).1, length_append]
    exact hseq
  · rw [map_append, h.seqs, length_append, length_singleton, range_succ,
      map_append, map_singleton, map_singleton, hseq]
  · rw [map_append, pairwise_append]
    refine ⟨h.times, pairwise_singleton _ _, ?_⟩
    simpa using hbefore
  · intro e' he'
    rw [hlast]
    rcases mem_append.mp he' with hmem | hmem
    · exact hbefore e' hmem
    · rw [mem_singleton.mp hmem]

theorem stateAfter_chained (hv : stateAfter E entries = .ok st) : Chained E entries st :=
  stateAfter_induction chained_nil (fun _ _ _ _ h he => verifyEntry_chained h he) hv

theorem verifyLog_chained (hv : verifyLog E entries = .ok st) : Chained E entries st :=
  stateAfter_chained (verifyLog_eq_ok.mp hv).2

theorem Chained.seq_eq (h : Chained E entries st) {i : ℕ} (hi : entries[i]? = some e) :
    e.seq = expectedSeq i := by
  have hlt : i < entries.length := (List.getElem?_eq_some_iff.mp hi).1
  have hseq := congrArg (fun l : List UInt64 => l[i]?) h.seqs
  simp only [getElem?_map, hi, getElem?_range hlt, map_some, some.injEq] at hseq
  exact hseq

theorem Chained.seq_toNat (h : Chained E entries st) (hslice : IsSlice entries) {i : ℕ}
    (hi : entries[i]? = some e) : e.seq.toNat = i + 1 := by
  have hlt : i < entries.length := (List.getElem?_eq_some_iff.mp hi).1
  have hlen := hslice.length
  rw [h.seq_eq hi, expectedSeq_toNat (by omega)]

theorem IsSlice.history_times (h : IsSlice entries) : ∀ c ∈ history entries, IsTime c.time := by
  intro c hc
  obtain ⟨e, he, rfl⟩ := mem_map.mp hc
  exact h.times e he

theorem history_take (s : ℕ) : history (entries.take s) = (history entries).take s := map_take

end

/-- **The head commits to the history**, and so does a chain hash at any sequence number. -/
theorem head_commits {E : Externals} (hE : E.Digests) {l l' : List Entry} {st st' : State}
    (hl : IsSlice l) (hl' : IsSlice l') (hv : verifyLog E l = .ok st) (hv' : verifyLog E l' = .ok st')
    (hfree : CollisionFree E (history l) (history l')) :
    (st.head = st'.head → l.length = l'.length ∧ history l = history l')
    ∧ (∀ s, s ≤ l.length → s ≤ l'.length → headOf E (history (l.take s)) = headOf E (history (l'.take s)) →
        history (l.take s) = history (l'.take s)) ∧ st.head = headOf E (history l)
    ∧ (∀ i e, l[i]? = some e → e.seq.toNat = i + 1) ∧ (l.map Entry.time).Pairwise (· ≤ ·) := by
  have hc := verifyLog_chained hv
  have hc' := verifyLog_chained hv'
  refine ⟨?_, ?_, hc.head, fun i e hi => hc.seq_toNat hl hi, hc.times⟩
  · intro hhead
    rw [hc.head, hc'.head] at hhead
    have heq := headOf_inj hE hl.history_times hl'.history_times hfree hhead
    refine ⟨?_, heq⟩
    have hlen := congrArg length heq
    rwa [history, history, length_map, length_map] at hlen
  · intro s _ _ hhead
    rw [history_take, history_take] at hhead ⊢
    have hstart (l : List Content) := take_prefix s l
    exact headOf_inj hE (fun c hmem => hl.history_times c (mem_of_mem_take hmem))
      (fun c hmem => hl'.history_times c (mem_of_mem_take hmem))
      (hfree.of_isPrefix (hstart _) (hstart _)) hhead

/-! ### Two signings of one genesis -/

def lax : Externals where
  sha256 b := b
  sha512 b := replicate 64 (b.getD 134 0)
  verifyRoot _ _ _ := true
  verifyAuthority _ _ _ := true
  verifyAnchorKey _ _ _ := true
  debug _ := ""

theorem lax_digests : lax.Digests := fun _ => length_replicate

def laxGenesis (sig : Bytes) : Entry := ⟨1, 0, .genesis, genesisBody toyBody, [⟨0, sig⟩]⟩

def laxEntry (b : UInt8) : Entry := ⟨2, 0, .nodeSign, nodeSignBody (toyNode b), [⟨0, []⟩]⟩

def laxLog (sig : Bytes) (b : UInt8) : List Entry := [laxGenesis sig, laxEntry b]

theorem laxLog_isSlice {sig : Bytes} {b : UInt8} : IsSlice (laxLog sig b) where
  length := (by decide : 2 < 2 ^ 64)
  times := by simp [laxLog, laxGenesis, laxEntry, IsTime]

theorem laxGenesis_verified (sig : Bytes) : ∃ st, stateAfter lax [laxGenesis sig] = .ok st
    ∧ st.signers .authority = ([toyKey 2], 1) ∧ st.lastTime = 0 := by
  have hparse : parseGenesis (laxGenesis sig).body = .ok toyBody :=
    parseGenesis_eq_ok.mpr ⟨toyBody_encodable, rfl⟩
  have hread : genesisOf (laxGenesis sig) = .ok (some toyBody) := by
    show (readGenesis (laxGenesis sig)).map some = _
    rw [readGenesis, hparse]
    rfl
  obtain ⟨r, hr, hst⟩ : ∃ r, verifyEntry lax 1 State.default [] (laxGenesis sig) = .ok r
      ∧ r.1.signers .authority = ([toyKey 2], 1) ∧ r.1.lastTime = 0 :=
    ⟨_, verifyEntry_eq_ok.mpr ⟨rfl, some toyBody, _, hread, rfl, rfl, rfl⟩, rfl, rfl⟩
  refine ⟨r.1, ?_, hst⟩
  show (verifyEntry lax 1 State.default [] (laxGenesis sig) >>= fun r => .ok r.1) = _
  rw [hr]
  rfl

variable {b b' : UInt8}

theorem laxLog_verified (sig : Bytes) (b : UInt8) : ∃ st, verifyLog lax (laxLog sig b) = .ok st := by
  obtain ⟨st, hv, hsigners, htime⟩ := laxGenesis_verified sig
  have hparse : parseNodeSign (laxEntry b).body = .ok (toyNode b) :=
    parseNodeSign_eq_ok.mpr ⟨toyNode_encodable b, rfl⟩
  obtain ⟨st', happly⟩ : ∃ st', apply lax st (laxEntry b) none = .ok st' := by
    show ∃ st', (Except.mapError _ (parseNodeSign (laxEntry b).body) >>= _) = _
    rw [hparse]
    exact ⟨_, rfl⟩
  have hsigned h : verifySigners lax st (laxEntry b) h = .ok () := by
    show verifySignatures lax (laxEntry b) h .authority (st.signers .authority).1 none
      (st.signers .authority).2 = _
    rw [hsigners]
    rfl
  have hpos : checkPosition 2 st.lastTime (laxEntry b) = .ok () := by
    rw [htime]
    rfl
  obtain ⟨⟨st₁, head⟩, hr⟩ : ∃ r, verifyEntry lax 2 st st.head (laxEntry b) = .ok r :=
    ⟨_, verifyEntry_eq_ok.mpr ⟨hpos, none, st', rfl, hsigned _, happly, rfl⟩⟩
  obtain rfl : st₁.head = head := verifyEntry_head hr
  have hafter := stateAfter_concat.mpr ⟨st, hv, hr⟩
  exact ⟨st₁, verifyLog_eq_ok.mpr ⟨cons_ne_nil _ _, hafter⟩⟩

/-- The hash is a byte of the first key in the genesis, and of the node's key in the second entry. -/
theorem lax_sha512 : lax.sha512 (chainInput [] (laxGenesis []).content) = replicate 64 1
    ∧ ∀ b ∈ [3, 4], lax.sha512 (chainInput (replicate 64 1) (laxEntry b).content) = replicate 64 b := by
  decide +kernel

theorem headOf_laxLog {sig : Bytes} (hb : b ∈ [3, 4]) : headOf lax (history (laxLog sig b)) = replicate 64 b := by
  show lax.sha512 (chainInput (lax.sha512 (chainInput [] (laxGenesis []).content)) (laxEntry b).content) = _
  rw [lax_sha512.1, lax_sha512.2 b hb]

theorem hashed_laxLog {sig x : Bytes} (hx : Hashed lax (history (laxLog sig b)) x) :
    x = chainInput [] (laxGenesis []).content
    ∨ x = chainInput (replicate 64 1) (laxEntry b).content := by
  obtain ⟨p, c, hp, rfl⟩ := hx
  rcases p with _ | ⟨q, _ | ⟨q', p⟩⟩
  · obtain ⟨rfl, -⟩ := cons_prefix_cons.mp hp
    exact .inl rfl
  · obtain ⟨rfl, hp'⟩ := cons_prefix_cons.mp hp
    obtain ⟨rfl, -⟩ := cons_prefix_cons.mp hp'
    exact .inr (congrArg (chainInput · _) lax_sha512.1)
  · exact absurd hp.length_le (by simp [history, laxLog])

theorem laxLog_collisionFree {sig sig' : Bytes} (hb : b ∈ [3, 4]) (hb' : b' ∈ [3, 4]) :
    CollisionFree lax (history (laxLog sig b)) (history (laxLog sig' b')) := by
  intro x y hx hy heq
  obtain ⟨hgenesis, hnode⟩ := lax_sha512
  rcases hashed_laxLog hx with rfl | rfl <;> rcases hashed_laxLog hy with rfl | rfl
  · rfl
  · rw [hgenesis, hnode b' hb', replicate_right_inj (by decide)] at heq
    simp [← heq] at hb'
  · rw [hgenesis, hnode b hb, replicate_right_inj (by decide)] at heq
    simp [heq] at hb
  · rw [hnode b hb, hnode b' hb', replicate_right_inj (by decide)] at heq
    rw [heq]

theorem head_commits_laxLog : ∃ st st', verifyLog lax (laxLog [] 3) = .ok st
    ∧ verifyLog lax (laxLog [1] 3) = .ok st' ∧ laxLog [] 3 ≠ laxLog [1] 3 ∧ st.head = st'.head
    ∧ (laxLog [] 3).length = (laxLog [1] 3).length ∧ history (laxLog [] 3) = history (laxLog [1] 3) := by
  obtain ⟨st, hv⟩ := laxLog_verified [] 3
  obtain ⟨st', hv'⟩ := laxLog_verified [1] 3
  have hheads : st.head = st'.head := by
    rw [(verifyLog_chained hv).head, (verifyLog_chained hv').head]
    rfl
  refine ⟨st, st', hv, hv', ?_, hheads, ?_⟩
  · intro heq
    have hsigs := congrArg (map fun e : Entry => e.sigs) heq
    exact absurd hsigs (by decide)
  · exact (head_commits lax_digests laxLog_isSlice laxLog_isSlice hv hv'
      (laxLog_collisionFree (by decide) (by decide))).1 hheads

end Karst.Bedrock
