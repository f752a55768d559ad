import Karst.Bedrock.Go
import Karst.Bedrock.Canonical

/-!
# What the server decodes

The server's cursor fails late and the node's at once, but they read alike (`Simulates`).  So the bodies,
the entries and the log are those of the node's format, except that a text is any field.
-/

namespace Karst.Bedrock.Go

open Reader StickyReader Simulates

/-! ### The cursor -/

theorem u32_simulates : Simulates Cursor.u32 Bedrock.Cursor.u32 := simulates_read 4 _ 0 Error.malformed

theorem u64_simulates : Simulates Cursor.u64 Bedrock.Cursor.u64 := simulates_read 8 _ 0 Error.malformed

theorem i64_simulates : Simulates Cursor.i64 readTime := u64_simulates.bind fun _ => simulates_pure

theorem lp_simulates : Simulates Cursor.lp Bedrock.Cursor.lp := by
  refine u32_simulates.bind fun n => ?_
  have hread : Simulates (read n.toNat id [] : Cursor Bytes) _ :=
    simulates_read n.toNat id [] Error.malformed
  have htake : (Reader.take Error.malformed n.toNat >>= fun b => pure (id b))
      = Reader.take Error.malformed n.toNat := bind_pure _
  rw [htake] at hread
  exact hread.unlessFailed fun b => fails_ok [] b

theorem readKeyLoop_simulates (size n : ℕ) :
    Simulates (readKeyLoop size n) (Bedrock.Cursor.keyList size n) := by
  induction n with
  | zero => exact simulates_pure
  | succ n ih =>
    refine lp_simulates.bind fun k => unlessFailed ?_ fun b => fails_ok [] b
    refine guard ?_ (fails_fail [])
    exact ih.bind fun ks => simulates_pure.unlessFailed fun b => fails_ok [] b

theorem readKeys_simulates (size : ℕ) : Simulates (readKeys size) (Bedrock.Cursor.keys size MAX_SIGNERS) := by
  refine u32_simulates.bind fun n => unlessFailed ?_ fun b => fails_ok [] b
  exact (readKeyLoop_simulates size n.toNat).guard (fails_fail [])

variable {α : Type} {c : Cursor α}

theorem Simulates.unlessDone {r : Bedrock.Cursor α} (h : Simulates c r) (a : α) :
    Simulates (do if ← done then return a else c)
      (Bedrock.Cursor.isAtEnd >>= fun atEnd => if atEnd = true then pure a else r) where
  ok b v rest hrun := by
    cases b with
    | nil =>
      cases hrun
      rfl
    | cons x b => exact h.ok (x :: b) v rest hrun
  fails b e hrun := by
    cases b with
    | nil => cases hrun
    | cons x b => exact h.fails (x :: b) e hrun
  sticky b := h.sticky b

theorem readOptionalAnchorKeys_simulates :
    Simulates readOptionalAnchorKeys (Bedrock.Cursor.optionalKeys ANCHOR_PUBLIC_KEY MAX_SIGNERS) := by
  refine Simulates.unlessDone (u32_simulates.bind fun n => ?_) []
  refine Simulates.unlessFailed ?_ fun b => fails_ok [] b
  refine guard ?_ (fails_fail [])
  exact (readKeyLoop_simulates ANCHOR_PUBLIC_KEY n.toNat).guard (fails_fail [])

theorem Simulates.whenDone {r : Bedrock.Cursor α} (h : Simulates c r) {e : String} :
    Simulates (do if !(← done) then throw e else c) (Bedrock.Cursor.finish >>= fun _ => r) where
  ok b v rest hrun := by
    cases b with
    | nil => exact h.ok [] v rest hrun
    | cons x b => cases hrun
  fails b err hrun := by
    cases b with
    | nil => exact h.fails [] err hrun
    | cons x b => exact fails_error e
  sticky b := fails_error e

theorem still_pure {a : α} : ∀ s v s', (pure a : Cursor α) s = .ok (v, s') → s' = s := by
  intro s v s' hrun
  cases hrun
  rfl

theorem still_guard {p : Prop} [Decidable p] {e : String} (h : ∀ s v s', c s = .ok (v, s') → s' = s) :
    ∀ s v s', (if p then throw e else c : Cursor α) s = .ok (v, s') → s' = s := by
  intro s v s' hrun
  by_cases hp : p
  · rw [if_pos hp] at hrun
    cases hrun
  · rw [if_neg hp] at hrun
    exact h s v s' hrun

/-! ### Bodies -/

variable {b : Bytes}

theorem parseGenesis_eq_ok {g : Genesis} :
    parseGenesis b = .ok g ↔ g.Fits (·.length < 2 ^ 32) ∧ b = genesisBody g := by
  rw [parseGenesis, run_eq_ok (lp_simulates.bind fun zone => (readKeys_simulates _).bind fun
    roots => u32_simulates.bind fun k => (readKeys_simulates _).bind fun authorities =>
    u32_simulates.bind fun q => readOptionalAnchorKeys_simulates.bind fun anchorKeys =>
    Simulates.whenDone simulates_pure) ?_, parse_eq_ok]
  · refine (exists_congr fun rest => genesis_eq_ok lp_inverts).trans ?_
    simp
  · iterate 6 refine Sealed.bind fun _ => ?_
    exact sealed_done still_pure

theorem parseAuthorityList_eq_ok {a : AuthorityList} :
    parseAuthorityList b = .ok a ↔ a.Encodable ∧ b = authorityListBody a := by
  rw [parseAuthorityList, run_eq_ok ((readKeys_simulates _).bind fun authorities =>
    u32_simulates.bind fun q => readOptionalAnchorKeys_simulates.bind fun anchorKeys =>
    Simulates.whenDone simulates_pure) ?_, parse_eq_ok]
  · refine (exists_congr fun rest => authorityList_eq_ok).trans ?_
    simp
  · iterate 3 refine Sealed.bind fun _ => ?_
    exact sealed_done still_pure

theorem parseNodeSign_eq_ok {n : NodeSign} :
    parseNodeSign b = .ok n ↔ n.Fits (·.length < 2 ^ 32) ∧ b = nodeSignBody n := by
  rw [parseNodeSign, run_eq_ok (lp_simulates.bind fun handle => lp_simulates.bind fun
    identityKey => lp_simulates.bind fun kemPublicKey => i64_simulates.bind fun notBefore =>
    i64_simulates.bind fun expiry => Simulates.whenDone (Simulates.guardOr (Simulates.guardOr
      (guard simulates_pure fails_throw) fails_throw) fails_throw)) ?_,
    parse_eq_ok]
  · refine (exists_congr fun rest => nodeSign_eq_ok lp_inverts).trans ?_
    simp
  · iterate 5 refine Sealed.bind fun _ => ?_
    exact sealed_done (still_guard (still_guard (still_guard still_pure)))

theorem parseNodeRevoke_eq_ok {n : NodeRevoke} :
    parseNodeRevoke b = .ok n ↔ n.Fits (·.length < 2 ^ 32) ∧ b = nodeRevokeBody n := by
  rw [parseNodeRevoke, run_eq_ok (lp_simulates.bind fun handle => lp_simulates.bind fun
    reason => i64_simulates.bind fun effective => Simulates.whenDone
      (guard simulates_pure fails_throw)) ?_, parse_eq_ok]
  · refine (exists_congr fun rest => nodeRevoke_eq_ok lp_inverts).trans ?_
    simp
  · iterate 3 refine Sealed.bind fun _ => ?_
    exact sealed_done (still_guard still_pure)

theorem parseQuorumChange_eq_ok {q : UInt32} : parseQuorumChange b = .ok q ↔ b = quorumChangeBody q := by
  rw [parseQuorumChange, run_eq_ok (u32_simulates.bind fun q =>
    Simulates.whenDone simulates_pure) ?_, parse_eq_ok]
  · refine (exists_congr fun rest => quorumChange_eq_ok).trans ?_
    simp
  · exact Sealed.bind fun _ => sealed_done still_pure

theorem parseAnchor_eq_ok {a : Anchor} :
    parseAnchor b = .ok a ↔ a.auditHead.length < 2 ^ 32 ∧ b = anchorBody a := by
  rw [parseAnchor, run_eq_ok (lp_simulates.bind fun auditHead => u64_simulates.bind fun
    auditSeq => Simulates.whenDone simulates_pure) ?_, parse_eq_ok]
  · refine (exists_congr fun rest => anchor_eq_ok).trans ?_
    simp
  · iterate 2 refine Sealed.bind fun _ => ?_
    exact sealed_done still_pure

theorem parseDisable_eq_ok {reason : Bytes} :
    parseDisable b = .ok reason ↔ reason.length < 2 ^ 32 ∧ b = disableBody reason := by
  rw [parseDisable, run_eq_ok (lp_simulates.bind fun reason =>
    Simulates.whenDone simulates_pure) ?_, parse_eq_ok]
  · refine (exists_congr fun rest => disable_eq_ok lp_inverts).trans ?_
    simp
  · exact Sealed.bind fun _ => sealed_done still_pure

/-! ### Entries and the log -/

def Entry.of (e : Bedrock.Entry) : Entry := ⟨e.seq, e.time, ascii e.op.asStr, e.body, e.sigs⟩

def Entry.wire (e : Entry) : Bytes := entryBytes e.seq e.time e.op e.body e.sigs

def Entry.Fits (e : Entry) : Prop := e.op.length < 2 ^ 32 ∧ FieldsFit e.time e.body e.sigs

theorem Entry.of_wire (e : Bedrock.Entry) : (Entry.of e).wire = e.encode := rfl

theorem Entry.of_fits {e : Bedrock.Entry} : (Entry.of e).Fits ↔ e.Fits :=
  and_iff_right (Op.text_asStr e.op).1

theorem readSignatures_simulates (n : ℕ) : Simulates (readSignatures n) (many Signature.read n) := by
  induction n with
  | zero => exact simulates_pure
  | succ n ih =>
    rw [many, Signature.read, bind_assoc]
    refine u32_simulates.bind fun signerIndex => ?_
    rw [bind_assoc]
    refine lp_simulates.bind fun sig => unlessFailed ?_ fun b => fails_throw _
    exact ih.bind fun sigs => simulates_pure

theorem decodeEntry_eq_ok {raw : Bytes} {e : Entry} : decodeEntry raw = .ok e ↔ e.Fits ∧ raw = e.wire := by
  have hread := entry_eq_ok lp_inverts (g := pure) (P := Eq) (f := Entry.mk) (b := raw) (a := e) (by simp)
  refine Iff.trans (run_eq_ok ?_ ?_) (hread.trans ?_)
  · refine lp_simulates.bind fun seqRaw => lp_simulates.bind fun timeRaw => lp_simulates.bind fun op =>
      lp_simulates.bind fun body => unlessFailed ?_ fun b => fails_throw _
    refine guardBoth ?_ fails_throw
    -- an operation is not looked up here
    rw [pure_bind]
    refine u32_simulates.bind fun n => unlessFailed ?_ fun b => fails_throw _
    refine guard ?_ fails_throw
    exact (readSignatures_simulates n.toNat).bind fun sigs => Simulates.whenDone simulates_pure
  · iterate 5 refine Sealed.bind fun _ => ?_
    refine Sealed.unless (Sealed.unless ?_ _) _
    iterate 2 refine Sealed.bind fun _ => ?_
    refine Sealed.unless (Sealed.unless (Sealed.bind fun _ => ?_) _) _
    exact sealed_done still_pure
  · constructor
    · intro he
      obtain ⟨seq, time, _, op, body, sigs, ⟨hop, rfl, h⟩, rfl, rfl⟩ := he
      exact ⟨⟨hop, h⟩, rfl⟩
    · intro he
      exact ⟨e.seq, e.time, e.op, e.op, e.body, e.sigs, ⟨he.1.1, rfl, he.1.2⟩, he.2, rfl⟩

def Entry.read : Bedrock.Cursor Entry := do
  let raw ← Bedrock.Cursor.lp
  liftM ((decodeEntry raw).mapError fun _ => Error.malformed)

theorem entry_inverts : Inverts Entry.read (fun e => putLp e.wire) fun e => e.Fits ∧ e.wire.length < 2 ^ 32 :=
  nested_inverts fun _ _ => mapError_eq_ok.trans decodeEntry_eq_ok

theorem readEntries_simulates (i n : ℕ) : Simulates (readEntries i n) (many Entry.read n) := by
  induction n generalizing i with
  | zero => exact simulates_pure
  | succ n ih =>
    rw [many, Entry.read, bind_assoc]
    refine lp_simulates.bind fun raw => unlessFailed ?_ fun b => fails_throw _
    refine bind (simulates_lift fun e => ?_) fun e => (ih (i + 1)).bind fun es =>
      simulates_pure
    rw [mapError_eq_ok, mapError_eq_ok]

def LogFits (entries : List Entry) : Prop :=
  entries.length ≤ MAX_LOG_ENTRIES.toNat ∧ ∀ e ∈ entries, e.Fits ∧ e.wire.length < 2 ^ 32

theorem decodeLog_eq_ok {entries : List Entry} : decodeLog b = .ok entries ↔ LogFits entries
      ∧ b = beBytes 4 (min entries.length (2 ^ 32 - 1)) ++ (entries.map fun e => putLp e.wire).flatten := by
  have hread := fun rest => many_eq_ok (m := MAX_LOG_ENTRIES) entry_inverts (f := pure) (b := b)
    (r := (entries, rest))
  refine Iff.trans (run_eq_ok ?_ ?_) (parse_eq_ok.trans ((exists_congr hread).trans ?_))
  · refine u32_simulates.bind fun n => unlessFailed ?_ fun b => fails_throw _
    refine guard ?_ fails_throw
    exact (readEntries_simulates 0 n.toNat).bind fun es => Simulates.whenDone simulates_pure
  · iterate 2 refine Sealed.bind fun _ => ?_
    refine Sealed.unless (Sealed.unless (Sealed.bind fun _ => ?_) _) _
    exact sealed_done still_pure
  · constructor
    · intro hrun
      obtain ⟨rest, es, hfits, hb, hlast⟩ := hrun
      cases hlast
      exact ⟨hfits, hb⟩
    · intro he
      exact ⟨[], entries, he.1, he.2, rfl⟩

theorem decodeLog_of {entries : List Bedrock.Entry} :
    decodeLog b = .ok (entries.map Entry.of) ↔ Bedrock.decodeLog b = .ok entries := by
  rw [decodeLog_eq_ok, Bedrock.decodeLog_eq_ok, LogFits, Bedrock.LogFits, encodeLog, List.length_map,
    List.map_map]
  simp only [List.forall_mem_map, Entry.of_fits, Entry.of_wire, Function.comp_def]

end Karst.Bedrock.Go
