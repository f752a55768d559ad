import Karst.Bedrock.Commitment

/-!
# Comparing heads

`karstd/src/bedrock.rs`: the node's copy of the log, the claim about its head that a node sends to its
peers, and what a peer's claim says about the two logs.  A node never holds entries it has not verified,
which is a field of `Log`.
-/

namespace Karst.Bedrock

open Runs
open List hiding Vector

/-! ### The node's copy -/

inductive LogError where
  | malformed (why : String)
  | broken (why : String)
  | notContiguous (expected got : UInt64)

/-- What a fetch did.  `absent` is the caller's, where no log is served at all. -/
inductive Outcome where
  | absent
  | upToDate
  | advanced (seq : UInt64)

/-- The entries a node holds and the state they establish: nothing, or what verifies. -/
structure Log (E : Externals) where
  entries : List Entry
  state : Option State
  verified : (entries = [] ∧ state = none) ∨ ∃ st, state = some st ∧ verifyLog E entries = .ok st

namespace Log

variable {E : Externals}

def new : Log E := ⟨[], none, .inl ⟨rfl, rfl⟩⟩

def adopt (entries : List Entry) : Except LogError (Log E) :=
  match h : verifyLog E entries with
  | .ok st => .ok ⟨entries, some st, .inr ⟨st, rfl, h⟩⟩
  | .error e => .error (.broken (e.text E))

def verifiedSeq (L : Log E) : UInt64 := (L.state.map State.headSeq).getD 0

def head (L : Log E) : Bytes := (L.state.map State.head).getD []

/-- Extend the log by what was fetched; an extension that does not verify leaves what was held. -/
def extend (L : Log E) (fetched : List Entry) : Log E × Except LogError Outcome :=
  match fetched with
  | [] => (L, .ok .upToDate)
  | first :: _ =>
    let expected := UInt64.ofNat L.entries.length + 1
    if first.seq ≠ expected then (L, .error (.notContiguous expected first.seq)) else
    match adopt (L.entries ++ fetched) with
    | .ok L' => (L', .ok (.advanced L'.verifiedSeq))
    | .error e => (L, .error e)

def encode (L : Log E) : Bytes := encodeLog L.entries

def decode (bytes : Bytes) : Except LogError (Log E) := do
  let entries ← (decodeLog bytes).mapError fun e => .malformed (e.text E)
  if entries.isEmpty then return new else
  adopt entries

/-- The walk of `hashAt`, from the hash before the first entry. -/
def hashFrom (E : Externals) (seq : UInt64) : Bytes → List Entry → Option Bytes
  | _, [] => none
  | prev, e :: es =>
    let h := chainHash E prev e.seq e.time e.op e.body
    if e.seq = seq then some h else hashFrom E seq h es

def hashAt (L : Log E) (seq : UInt64) : Option Bytes :=
  if seq = 0 ∨ UInt64.ofNat L.entries.length < seq then none else hashFrom E seq [] L.entries

end Log

/-! ### Head claims -/

/-- No IP version is zero, so no tunneled packet begins with it. -/
def CONTROL_MARKER : UInt8 := 0x00

def CONTROL_BEDROCK_HEAD : UInt8 := 0x01

def encodeHeadClaim (hash : Bytes) (seq : UInt64) : Bytes :=
  [CONTROL_MARKER, CONTROL_BEDROCK_HEAD] ++ beBytes 8 seq.toNat
    ++ beBytes 4 (min hash.length (2 ^ 32 - 1)) ++ hash

/-- A claim, out of a decrypted and padded plaintext. -/
def decodeHeadClaim (plaintext : Bytes) : Option (Bytes × UInt64) := do
  if plaintext.head? ≠ some CONTROL_MARKER ∨ plaintext[1]? ≠ some CONTROL_BEDROCK_HEAD then none else
  let seq := UInt64.ofNat (beValue (← slice plaintext 2 8))
  let len := beValue (← slice plaintext 10 4)
  if len ≠ 64 then none else
  let hash ← slice plaintext 14 len
  return (hash, seq)

inductive HeadComparison where
  | agrees
  | diverges (seq : UInt64)
  | peerAhead (peerSeq localSeq : UInt64)
  | unknown

def Log.compareHead {E : Externals} (L : Log E) (peerHash : Bytes) (peerSeq : UInt64) :
    HeadComparison :=
  let localSeq := L.verifiedSeq
  if localSeq = 0 ∨ peerSeq = 0 then .unknown
  else if localSeq < peerSeq then .peerAhead peerSeq localSeq
  else match L.hashAt peerSeq with
    | some mine => if mine = peerHash then .agrees else .diverges peerSeq
    | none => .unknown

theorem decodeHeadClaim_encode {hash : Bytes} (h : hash.length = 64) (seq : UInt64) (pad : Bytes) :
    decodeHeadClaim (encodeHeadClaim hash seq ++ pad) = some (hash, seq) := by
  have hlen : min hash.length (2 ^ 32 - 1) = 64 := by
    rw [h]
    rfl
  have hform : encodeHeadClaim hash seq ++ pad = [CONTROL_MARKER, CONTROL_BEDROCK_HEAD]
      ++ beBytes 8 seq.toNat ++ beBytes 4 64 ++ hash ++ pad := by
    rw [encodeHeadClaim, hlen]
  have hseq : slice (encodeHeadClaim hash seq ++ pad) 2 8 = some (beBytes 8 seq.toNat) := by
    rw [hform, append_assoc, append_assoc]
    exact slice_append rfl (beBytes_length 8 _) _
  have hcount : slice (encodeHeadClaim hash seq ++ pad) 10 4 = some (beBytes 4 64) := by
    rw [hform, append_assoc]
    exact slice_append (by rw [length_append, beBytes_length]; rfl) (beBytes_length 4 _) _
  have hhash : slice (encodeHeadClaim hash seq ++ pad) 14 64 = some hash := by
    exact slice_append (by rw [length_append, length_append, beBytes_length, beBytes_length]; rfl) h _
  have hmarked : ¬ ((encodeHeadClaim hash seq ++ pad).head? ≠ some CONTROL_MARKER
      ∨ (encodeHeadClaim hash seq ++ pad)[1]? ≠ some CONTROL_BEDROCK_HEAD) := by
    simp [encodeHeadClaim]
  have hvalue : beValue (beBytes 4 64) = 64 := beValue_beBytes (by decide)
  have hnumber : UInt64.ofNat (beValue (beBytes 8 seq.toNat)) = seq :=
    (seq_eq_iff (beBytes_length 8 _)).mpr rfl
  rw [decodeHeadClaim, if_neg hmarked, hseq, hcount]
  simp only [Option.bind_eq_bind, Option.bind_some, hvalue, hnumber, hhash, ne_eq, not_true_eq_false,
    if_false]
  rfl

/-! ### What a node holds is a chain -/

namespace Log

variable {E : Externals} (L : Log E)

theorem established : stateAfter E L.entries = .ok (L.state.getD State.default) := by
  rcases L.verified with ⟨hnil, hnone⟩ | ⟨st, hsome, hv⟩
  · rw [hnil, hnone]
    rfl
  · rw [hsome]
    exact (verifyLog_eq_ok.mp hv).2

theorem chained : Chained E L.entries (L.state.getD State.default) :=
  stateAfter_chained L.established

theorem head_eq : L.head = headOf E (history L.entries) := by
  rw [← L.chained.head, head]
  cases L.state <;> rfl

theorem verifiedSeq_toNat (h : IsSlice L.entries) : L.verifiedSeq.toNat = L.entries.length := by
  have hlen := h.length
  have hseq : L.verifiedSeq = UInt64.ofNat (min L.entries.length (2 ^ 64 - 1)) := by
    rw [← L.chained.headSeq, verifiedSeq]
    cases L.state <;> rfl
  rw [hseq, UInt64.toNat_ofNat_of_lt' (show min L.entries.length (2 ^ 64 - 1) < 2 ^ 64 by omega)]
  omega

theorem hashFrom_eq {seq : UInt64} {es : List Entry} {prev : Bytes} {i j : ℕ}
    (hseqs : ∀ k e, es[k]? = some e → e.seq.toNat = i + k + 1) (hseq : seq.toNat = i + j + 1)
    (hj : j < es.length) : hashFrom E seq prev es
      = some (run (fun prev c => E.sha512 (chainInput prev c)) prev (history (es.take (j + 1)))) := by
  induction es generalizing prev i j with
  | nil => cases hj
  | cons e es ih =>
    have he : e.seq.toNat = i + 1 := hseqs 0 e rfl
    cases j with
    | zero =>
      have hhere : e.seq = seq := UInt64.toNat_inj.mp (he.trans hseq.symm)
      rw [hashFrom, if_pos hhere]
      rfl
    | succ j =>
      have hon : e.seq ≠ seq := by
        intro heq
        rw [heq] at he
        omega
      have hrest : ∀ k e', es[k]? = some e' → e'.seq.toNat = i + 1 + k + 1 := by
        intro k e' hk
        rw [hseqs (k + 1) e' hk]
        omega
      rw [hashFrom, if_neg hon, ih hrest (by omega) (Nat.lt_of_succ_lt_succ hj)]
      rfl

theorem hashAt_eq (h : IsSlice L.entries) {seq : UInt64} (hpos : seq ≠ 0)
    (hle : seq.toNat ≤ L.entries.length) :
    L.hashAt seq = some (headOf E ((history L.entries).take seq.toNat)) := by
  have hlen := h.length
  have hnat : 0 < seq.toNat := by
    rw [Nat.pos_iff_ne_zero]
    intro hzero
    exact hpos (UInt64.toNat_inj.mp hzero)
  have hheld : ¬ (seq = 0 ∨ UInt64.ofNat L.entries.length < seq) := by
    rw [not_or, UInt64.lt_iff_toNat_lt, UInt64.toNat_ofNat_of_lt' hlen]
    exact ⟨hpos, Nat.not_lt.mpr hle⟩
  have hseqs : ∀ k e, L.entries[k]? = some e → e.seq.toNat = 0 + k + 1 := by
    intro k e hk
    rw [L.chained.seq_toNat h hk, Nat.zero_add]
  rw [hashAt, if_neg hheld, hashFrom_eq (j := seq.toNat - 1) hseqs (by omega) (by omega),
    Nat.sub_add_cancel hnat, history_take]
  rfl

end Log

/-! ### Extending the copy -/

theorem IsSlice.of_isPrefix {p entries : List Entry} (h : IsSlice entries) (hp : p <+: entries) : IsSlice p :=
  ⟨hp.length_le.trans_lt h.length, fun e he => h.times e (hp.subset he)⟩

namespace Log

variable {E : Externals} {L L' : Log E} {entries fetched : List Entry}

theorem ext_entries (h : L.entries = L'.entries) : L = L' := by
  rcases L.verified with ⟨hnil, hnone⟩ | ⟨st, hsome, hv⟩
  · rcases L'.verified with ⟨-, hnone'⟩ | ⟨st', -, hv'⟩
    · cases L
      cases L'
      simp_all
    · rw [← h, hnil] at hv'
      cases hv'
  · rcases L'.verified with ⟨hnil', -⟩ | ⟨st', hsome', hv'⟩
    · rw [h, hnil'] at hv
      cases hv
    · cases L
      cases L'
      simp_all

theorem exists_iff : (∃ L : Log E, L.entries = entries) ↔
    (entries ≠ [] → ∃ st, verifyLog E entries = .ok st) := by
  constructor
  · rintro ⟨L, rfl⟩ hne
    exact ⟨_, verifyLog_eq_ok.mpr ⟨hne, L.established⟩⟩
  · intro h
    by_cases hnil : entries = []
    · exact ⟨new, hnil.symm⟩
    · obtain ⟨st, hv⟩ := h hnil
      exact ⟨⟨entries, some st, .inr ⟨st, rfl, hv⟩⟩, rfl⟩

theorem adopt_cases (E : Externals) (entries : List Entry) :
    (∃ L : Log E, adopt entries = .ok L ∧ L.entries = entries)
      ∨ ∃ e, adopt (E := E) entries = .error e ∧ ∀ st, verifyLog E entries ≠ .ok st := by
  fun_cases adopt (E := E) entries with
  | case1 st hv => exact .inl ⟨_, rfl, rfl⟩
  | case2 e hv => exact .inr ⟨_, rfl, fun st hok => by rw [hv] at hok; cases hok⟩

theorem decode_of_entries {bytes : Bytes} (h : decodeLog bytes = .ok entries) :
    decode bytes = .ok L ↔ L.entries = entries := by
  have hdecode : decode (E := E) bytes = if entries.isEmpty then .ok new else adopt entries := by
    rw [decode, h]
    rfl
  rw [hdecode]
  by_cases hnil : entries = []
  · rw [hnil, isEmpty_nil, if_pos rfl, Except.ok.injEq]
    exact ⟨fun hL => hL ▸ rfl, fun hL => (ext_entries hL).symm⟩
  · rw [isEmpty_eq_false_iff.mpr hnil, if_neg Bool.false_ne_true]
    rcases adopt_cases E entries with ⟨L', hL', hentries⟩ | ⟨e, he, hno⟩
    · rw [hL', Except.ok.injEq, ← hentries]
      exact ⟨fun hL => hL ▸ rfl, fun hL => (ext_entries hL).symm⟩
    · rw [he]
      refine ⟨nofun, fun hL => ?_⟩
      obtain ⟨st, hv⟩ := exists_iff.mp ⟨L, hL⟩ hnil
      exact absurd hv (hno st)

/-- **The copy on disk.**  What is read back is a verified log, and the one that was written. -/
theorem stored_copy (L : Log E) (bytes : Bytes) :
    decode bytes = .ok L ↔ LogFits L.entries ∧ bytes = L.encode := by
  constructor
  · intro h
    cases hes : decodeLog bytes with
    | error e =>
      rw [decode, hes] at h
      cases h
    | ok entries =>
      obtain rfl := (decode_of_entries hes).mp h
      exact decodeLog_eq_ok.mp hes
  · intro h
    exact (decode_of_entries (decodeLog_eq_ok.mpr h)).mpr rfl

/-- **One extension**: the log of the longer list, or the same log where there is none. -/
theorem extend_cases (L : Log E) (fetched : List Entry) :
    (∃ L' o, L.extend fetched = (L', .ok o) ∧ L'.entries = L.entries ++ fetched)
      ∨ ∃ e, L.extend fetched = (L, .error e)
        ∧ (IsSlice (L.entries ++ fetched) → ∀ L' : Log E, L'.entries ≠ L.entries ++ fetched) := by
  cases fetched with
  | nil => exact .inl ⟨L, _, rfl, (append_nil _).symm⟩
  | cons first rest =>
    rw [extend]
    by_cases hseq : first.seq = UInt64.ofNat L.entries.length + 1
    · rw [if_neg (not_not.mpr hseq)]
      rcases adopt_cases E (L.entries ++ first :: rest) with ⟨L', hL', hentries⟩ | ⟨e, he, hno⟩
      · rw [hL']
        exact .inl ⟨L', _, rfl, hentries⟩
      · rw [he]
        refine .inr ⟨e, rfl, fun _ L' hL' => ?_⟩
        obtain ⟨st, hv⟩ := exists_iff.mp ⟨L', hL'⟩ (by simp)
        exact hno st hv
    · rw [if_pos hseq]
      refine .inr ⟨_, rfl, fun hslice L' hL' => hseq ?_⟩
      -- a log of the longer list has the next number there
      have hget : L'.entries[L.entries.length]? = some first := by simp [hL']
      have hlen := hslice.length
      rw [length_append, length_cons] at hlen
      have hnat := L'.chained.seq_toNat (hL' ▸ hslice) hget
      have hnext : L.entries.length + 1 < 2 ^ 64 := by omega
      rw [← UInt64.toNat_inj, hnat, UInt64.toNat_add, UInt64.toNat_ofNat_of_lt' (Nat.lt_of_succ_lt hnext)]
      exact (Nat.mod_eq_of_lt hnext).symm

def extendAll (L : Log E) : List (List Entry) → Except LogError (Log E)
  | [] => .ok L
  | chunk :: chunks =>
    match L.extend chunk with
    | (L', .ok _) => L'.extendAll chunks
    | (_, .error e) => .error e

theorem extendAll_eq_ok {chunks : List (List Entry)} (hslice : IsSlice (L.entries ++ chunks.flatten)) :
    L.extendAll chunks = .ok L' ↔ L'.entries = L.entries ++ chunks.flatten := by
  induction chunks generalizing L with
  | nil =>
    rw [flatten_nil, append_nil]
    exact ⟨fun h => by rw [Except.ok.inj h], fun h => congrArg Except.ok (ext_entries h.symm)⟩
  | cons chunk chunks ih =>
    rw [flatten_cons, ← append_assoc] at hslice ⊢
    have hchunk := hslice.of_isPrefix (prefix_append _ _)
    rcases L.extend_cases chunk with ⟨L₁, o, hextend, hentries⟩ | ⟨e, hextend, hno⟩
    · rw [extendAll, hextend, ← hentries]
      exact ih (hentries ▸ hslice)
    · rw [extendAll, hextend]
      refine iff_of_false (fun h => by cases h) fun h => ?_
      -- a log of the whole list would have one of the part that was refused before it
      obtain ⟨st, hst⟩ := stateAfter_of_isPrefix ⟨chunks.flatten, h.symm⟩ L'.established
      obtain ⟨L₁, hL₁⟩ := exists_iff.mpr fun hne => ⟨st, verifyLog_eq_ok.mpr ⟨hne, hst⟩⟩
      exact hno hchunk L₁ hL₁

/-- **Extension is verification, a chunk at a time.**  One that fails leaves the log as it was. -/
theorem extend_chunks (L : Log E) (chunks : List (List Entry))
    (hslice : IsSlice (L.entries ++ chunks.flatten)) :
    ((∃ L', L.extendAll chunks = .ok L') ↔ ∀ n, L.entries ++ (chunks.take n).flatten ≠ [] →
        ∃ st, verifyLog E (L.entries ++ (chunks.take n).flatten) = .ok st)
      ∧ (∀ L', L.extendAll chunks = .ok L' → L'.entries = L.entries ++ chunks.flatten
        ∧ ∀ st, verifyLog E (L.entries ++ chunks.flatten) = .ok st → L'.state = some st)
      ∧ (∀ fetched e, (L.extend fetched).2 = .error e → (L.extend fetched).1 = L)
      ∧ ∀ fetched, L.entries <+: (L.extend fetched).1.entries := by
  refine ⟨?_, ?_, ?_, ?_⟩
  · rw [exists_congr fun L' => extendAll_eq_ok hslice, exists_iff]
    constructor
    · intro hall n
      have hp : L.entries ++ (chunks.take n).flatten <+: L.entries ++ chunks.flatten := by
        refine (prefix_append_right_inj _).mpr ?_
        rw [← take_append_drop n chunks, flatten_append, take_append_drop]
        exact prefix_append _ _
      obtain ⟨L', hL'⟩ := exists_iff.mpr hall
      obtain ⟨st, hst⟩ := stateAfter_of_isPrefix hp (hL' ▸ L'.established)
      exact fun hne => ⟨st, verifyLog_eq_ok.mpr ⟨hne, hst⟩⟩
    · intro hall
      have hlast := hall chunks.length
      rwa [take_length] at hlast
  · intro L' hL'
    have hentries := (extendAll_eq_ok hslice).mp hL'
    refine ⟨hentries, fun st hv => ?_⟩
    rw [← hentries] at hv
    rw [@ext_entries _ L' ⟨L'.entries, some st, .inr ⟨st, rfl, hv⟩⟩ rfl]
  · intro fetched e h
    rcases L.extend_cases fetched with ⟨L', o, hextend, -⟩ | ⟨e', hextend, -⟩
    · rw [hextend] at h
      cases h
    · rw [hextend]
  · intro fetched
    rcases L.extend_cases fetched with ⟨L', o, hextend, hentries⟩ | ⟨e', hextend, -⟩
    · rw [hextend]
      exact ⟨fetched, hentries.symm⟩
    · rw [hextend]

theorem extend_chunks_laxLog : ∃ L : Log lax, new.extendAll [[laxGenesis []], [laxEntry 3]] = .ok L := by
  have hslice : IsSlice ((new : Log lax).entries ++ [[laxGenesis []], [laxEntry 3]].flatten) :=
    laxLog_isSlice
  refine (extend_chunks new [[laxGenesis []], [laxEntry 3]] hslice).1.mpr fun n hne => ?_
  rcases n with _ | _ | n
  · exact absurd rfl hne
  · obtain ⟨st, hv, -⟩ := laxGenesis_verified []
    exact ⟨st, verifyLog_eq_ok.mpr ⟨hne, hv⟩⟩
  · obtain ⟨st, hv⟩ := laxLog_verified [] 3
    exact ⟨st, by simpa [new, laxLog] using hv⟩

end Log

/-! ### Soundness and completeness -/

section

variable {E : Externals} {L₁ L₂ : Log E}

theorem compareHead_of_le (hE : E.Digests) (h₁ : IsSlice L₁.entries) (h₂ : IsSlice L₂.entries)
    (hfree : CollisionFree E (history L₁.entries) (history L₂.entries))
    (hpos : 0 < L₂.entries.length) (hle : L₂.entries.length ≤ L₁.entries.length) :
    (history L₂.entries <+: history L₁.entries → L₁.compareHead L₂.head L₂.verifiedSeq = .agrees)
    ∧ (¬ history L₂.entries <+: history L₁.entries →
        L₁.compareHead L₂.head L₂.verifiedSeq = .diverges L₂.verifiedSeq) := by
  have hseq₁ := L₁.verifiedSeq_toNat h₁
  have hseq₂ := L₂.verifiedSeq_toNat h₂
  have hne : ∀ v : UInt64, 0 < v.toNat → v ≠ 0 := by
    intro v hv hzero
    rw [hzero] at hv
    cases hv
  have hopinion : ¬ (L₁.verifiedSeq = 0 ∨ L₂.verifiedSeq = 0) := by
    rw [not_or]
    exact ⟨hne _ (by omega), hne _ (by omega)⟩
  have hbehind : ¬ L₁.verifiedSeq < L₂.verifiedSeq := by
    rw [UInt64.lt_iff_toNat_lt]
    omega
  have hmine : L₁.hashAt L₂.verifiedSeq = some (headOf E ((history L₁.entries).take L₂.entries.length)) := by
    rw [L₁.hashAt_eq h₁ (hne _ (by omega)) (by omega), hseq₂]
  have hlength : (history L₂.entries).length = L₂.entries.length := length_map _
  rw [Log.compareHead, if_neg hopinion, if_neg hbehind, hmine, L₂.head_eq, prefix_iff_eq_take, hlength]
  constructor
  · intro heq
    exact if_pos (congrArg (headOf E) heq.symm)
  · intro hdiff
    refine if_neg fun hheads => hdiff ?_
    have hstart := take_prefix L₂.entries.length (history L₁.entries)
    exact (headOf_inj hE (fun c hc => h₁.history_times c (mem_of_mem_take hc)) h₂.history_times
      (hfree.of_isPrefix hstart prefix_rfl) hheads).symm

theorem compareHead_ne_diverges (h₁ : IsSlice L₁.entries) (h₂ : IsSlice L₂.entries)
    (h : L₂.entries.length = 0 ∨ L₁.entries.length < L₂.entries.length) (s : UInt64) :
    L₁.compareHead L₂.head L₂.verifiedSeq ≠ .diverges s := by
  have hseq₁ := L₁.verifiedSeq_toNat h₁
  have hseq₂ := L₂.verifiedSeq_toNat h₂
  intro hdiv
  rw [Log.compareHead] at hdiv
  by_cases hopinion : L₁.verifiedSeq = 0 ∨ L₂.verifiedSeq = 0
  · rw [if_pos hopinion] at hdiv
    cases hdiv
  · have hzero : L₂.entries.length ≠ 0 := by
      intro hzero
      exact hopinion (.inr (UInt64.toNat_inj.mp (hseq₂.trans hzero)))
    have hahead : L₁.verifiedSeq < L₂.verifiedSeq := by
      rw [UInt64.lt_iff_toNat_lt, hseq₁, hseq₂]
      exact h.resolve_left hzero
    rw [if_neg hopinion, if_pos hahead] at hdiv
    cases hdiv

end

/-- **Equivocation is what is reported**: divergence only if neither history continues the other. -/
theorem compareHead_sound_complete {E : Externals} (hE : E.Digests) (L₁ L₂ : Log E)
    (h₁ : IsSlice L₁.entries) (h₂ : IsSlice L₂.entries)
    (hfree : CollisionFree E (history L₁.entries) (history L₂.entries)) : (∀ n, L₂.entries ≠ [] →
        decodeHeadClaim (encodeHeadClaim L₂.head L₂.verifiedSeq ++ List.replicate n 0)
          = some (L₂.head, L₂.verifiedSeq)) ∧ (∀ s, L₁.compareHead L₂.head L₂.verifiedSeq = .diverges s →
        ¬ history L₁.entries <+: history L₂.entries ∧ ¬ history L₂.entries <+: history L₁.entries)
    ∧ (history L₁.entries <+: history L₂.entries ∨ history L₂.entries <+: history L₁.entries →
        ∀ s, L₁.compareHead L₂.head L₂.verifiedSeq ≠ .diverges s)
    ∧ (L₂.entries ≠ [] → L₂.entries.length ≤ L₁.entries.length →
        (L₁.compareHead L₂.head L₂.verifiedSeq = .agrees ↔ history L₂.entries <+: history L₁.entries)) := by
  have hlength : ∀ L : Log E, (history L.entries).length = L.entries.length := fun L =>
    length_map _
  have hdiverges : ∀ s, L₁.compareHead L₂.head L₂.verifiedSeq = .diverges s →
      ¬ history L₁.entries <+: history L₂.entries ∧ ¬ history L₂.entries <+: history L₁.entries := by
    intro s hdiv
    have hboth : 0 < L₂.entries.length ∧ L₂.entries.length ≤ L₁.entries.length := by
      by_contra hnot
      exact compareHead_ne_diverges h₁ h₂ (by omega) s hdiv
    have hnot₂ : ¬ history L₂.entries <+: history L₁.entries := by
      intro hp
      rw [(compareHead_of_le hE h₁ h₂ hfree hboth.1 hboth.2).1 hp] at hdiv
      cases hdiv
    refine ⟨fun hp => hnot₂ ?_, hnot₂⟩
    -- the longer of the two continues the shorter, so they are equal
    have hlen := hp.length_le
    rw [hlength, hlength] at hlen
    rw [hp.eq_of_length (by rw [hlength, hlength]; omega)]
  refine ⟨?_, hdiverges, ?_, ?_⟩
  · intro n hne
    refine decodeHeadClaim_encode ?_ _ _
    rw [L₂.head_eq]
    exact headOf_length hE fun hnil => hne (map_eq_nil_iff.mp hnil)
  · intro hp s hdiv
    exact hp.elim (hdiverges s hdiv).1 (hdiverges s hdiv).2
  · intro hne hle
    obtain ⟨hyes, hno⟩ := compareHead_of_le hE h₁ h₂ hfree (length_pos_iff.mpr hne) hle
    constructor
    · intro hagrees
      by_contra hp
      rw [hno hp] at hagrees
      cases hagrees
    · exact hyes

/-- The same node, under another signature of the genesis, and another node. -/
theorem compareHead_sound_complete_laxLog : ∃ L₁ : Log lax, L₁.entries = laxLog [] 3 ∧ ∀ b ∈ [3, 4],
    ∃ L₂ : Log lax, L₂.entries = laxLog [1] b
      ∧ (L₁.compareHead L₂.head L₂.verifiedSeq = .agrees ↔ b = 3) := by
  obtain ⟨st, hv⟩ := laxLog_verified [] 3
  let L₁ : Log lax := ⟨laxLog [] 3, some st, .inr ⟨st, rfl, hv⟩⟩
  refine ⟨L₁, rfl, fun b hb => ?_⟩
  obtain ⟨st', hv'⟩ := laxLog_verified [1] b
  let L₂ : Log lax := ⟨laxLog [1] b, some st', .inr ⟨st', rfl, hv'⟩⟩
  have hcompare := compareHead_sound_complete lax_digests L₁ L₂ laxLog_isSlice laxLog_isSlice
    (laxLog_collisionFree (by decide) hb)
  refine ⟨L₂, rfl, (hcompare.2.2.2 (cons_ne_nil _ _) (le_refl 2)).trans ⟨fun hp => ?_, ?_⟩⟩
  · have hheads := congrArg (headOf lax) (hp.eq_of_length (by simp [history, L₁, L₂, laxLog]))
    rwa [headOf_laxLog hb, headOf_laxLog (by decide), replicate_right_inj (by decide)] at hheads
  · rintro rfl
    exact prefix_rfl

end Karst.Bedrock
