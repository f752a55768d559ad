import Karst.Disco.Paths

/-!
# Only answered probes confirm a path

Who may say that a path works.  A path that is not a relay is confirmed by a `Pong` alone, and a
`Pong` speaks for the address that the `Ping` with its transaction id was sent to, once.
-/

namespace Karst.Disco

namespace PathSet

open Runs Option
open List hiding Vector

/-! ### Confirmed paths -/

section

variable {s s' : PathSet} {op : Op} {addr : SocketAddr} {t nowMs : ℕ} {sent : Outstanding}

/-- A path that is not a relay was confirmed at the address at time `t`. -/
def Confirmed (s : PathSet) (addr : SocketAddr) (t : ℕ) : Prop :=
  ∃ p ∈ s.paths, p.kind ≠ .relay ∧ p.addr = addr ∧ p.lastPongMs = some t

theorem confirmed_iff : s.Confirmed addr t
    ↔ ∃ kind, kind ≠ PathKind.relay ∧ (addr, kind, some t) ∈ s.paths.map Path.record := by
  constructor
  · intro h
    obtain ⟨p, hp, hkind, haddr, ht⟩ := h
    exact ⟨p.kind, hkind, mem_map.mpr ⟨p, hp, by rw [Path.record, haddr, ht]⟩⟩
  · intro h
    obtain ⟨kind, hkind, hmem⟩ := h
    obtain ⟨p, hp, hrecord⟩ := mem_map.mp hmem
    simp only [Path.record, Prod.mk.injEq] at hrecord
    exact ⟨p, hp, by rw [hrecord.2.1]; exact hkind, hrecord.1, hrecord.2.2⟩

theorem confirmed_congr (h : s'.paths.map Path.record = s.paths.map Path.record) :
    s'.Confirmed addr t ↔ s.Confirmed addr t := by
  rw [confirmed_iff, confirmed_iff, h]

theorem confirmed_of_mem (h : ∀ p ∈ s'.paths, p ∈ s.paths ∨ p.kind = .relay ∨ p.lastPongMs = none)
    (hs' : s'.Confirmed addr t) : s.Confirmed addr t := by
  obtain ⟨p, hp, hkind, haddr, ht⟩ := hs'
  rcases h p hp with hin | hrelay | hnone
  · exact ⟨p, hin, hkind, haddr, ht⟩
  · exact absurd hrelay hkind
  · rw [hnone] at ht
    cases ht

theorem confirmed_of_confirm (h : (s.confirm sent nowMs).Confirmed addr t) :
    s.Confirmed addr t ∨ (sent.addr = addr ∧ nowMs = t) := by
  obtain ⟨p, hp, hkind, haddr, ht⟩ := h
  unfold confirm at hp
  split at hp
  · rcases mem_updateFirst hp with hin | ⟨q, -, hq, rfl⟩
    · exact .inl ⟨p, hin, hkind, haddr, ht⟩
    · exact .inr ⟨(beq_iff_eq.mp hq).symm.trans haddr, some.inj ht⟩
  · rcases mem_admitPath hp with hin | rfl
    · exact .inl ⟨p, hin, hkind, haddr, ht⟩
    · exact .inr ⟨haddr, some.inj ht⟩

/-- A pong with the transaction id of a live probe to the address. -/
def Answers (s : PathSet) (op : Op) (addr : SocketAddr) (t : ℕ) : Prop :=
  ∃ order tx sent, op = .onPong order tx t ∧ s.outstanding.lookup tx = some ⟨addr, sent⟩
    ∧ t - sent ≤ TX_TIMEOUT_MS ∧ (s.onPong order tx t).2 = .confirmed addr (t - sent)

theorem confirmed_of_step (h : (s.step op).Confirmed addr t) : s.Confirmed addr t ∨ Answers s op addr t := by
  have hquiet := s.step_quiet op
  cases op with
  | addCandidate a kind =>
    refine .inl (confirmed_of_mem ?_ h)
    intro p hp
    have hp' : p ∈ (s.addCandidate a kind).1.paths := hp
    rw [addCandidate_fst] at hp'
    split at hp'
    · exact .inl hp'
    · rcases mem_admitPath hp' with hin | rfl
      · exact .inl hin
      · exact .inr (.inr rfl)
  | onProbeReceived tx =>
    refine .inl ((confirmed_congr ?_).mp h)
    rw [step, onProbeReceived]
    split <;> rfl
  | onPong order tx now =>
    have h' : (s.onPong order tx now).1.Confirmed addr t := h
    cases hlookup : (s.expire order now).outstanding.lookup tx with
    | none =>
      rw [onPong_of_none hlookup] at h'
      exact .inl ((confirmed_congr (s.records_expire order now)).mp h')
    | some sent =>
      rw [onPong_of_some hlookup] at h'
      rcases confirmed_of_confirm h' with hold | ⟨rfl, rfl⟩
      · exact .inl ((confirmed_congr (s.records_expire order now)).mp hold)
      · obtain ⟨hout, htimeout⟩ := (s.lookup_expire_eq_some order now).mp hlookup
        exact .inr ⟨order, tx, sent.sentMs, rfl, hout, htimeout, by rw [onPong_of_some hlookup]⟩
  | setRelay a latency now =>
    refine .inl (confirmed_of_mem ?_ h)
    intro p hp
    have hp' : p ∈ (s.setRelay a latency now).paths := hp
    unfold setRelay at hp'
    split at hp'
    · rcases mem_updateFirst hp' with hin | ⟨q, -, hq, rfl⟩
      · exact .inl hin
      · exact .inr (.inl (beq_iff_eq.mp hq))
    · rcases mem_append.mp hp' with hin | hin
      · exact .inl hin
      · rw [mem_singleton.mp hin]
        exact .inr (.inl rfl)
  | clearRelay =>
    refine .inl (confirmed_of_mem ?_ h)
    intro p hp
    exact .inl (mem_of_mem_filter hp)
  | select now =>
    obtain ⟨chosen, challenger, hselect⟩ := s.select_eq now
    have h' : (s.select now).1.Confirmed addr t := h
    rw [hselect] at h'
    exact .inl h'
  | _ =>
    obtain ⟨paths, outstanding, hsame, -, hpaths⟩ := hquiet rfl
    cases hpaths rfl
    exact .inl ((confirmed_congr hsame.records).mp h)

end

/-! ### Outstanding probes -/

section

variable {s : PathSet} {op : Op} {tx : TxId} {o : Outstanding}

def Sends (s : PathSet) (op : Op) (tx : TxId) (o : Outstanding) : Prop :=
  ∃ order, op = .onPingSent order tx o.addr o.sentMs ∧ (s.onPingSent order tx o.addr o.sentMs).2 = .ok ()

def Consumes (op : Op) (tx : TxId) : Prop := ∃ order t, op = .onPong order tx t

theorem outstanding_of_expire {order : ProbeOrder} {nowMs : ℕ}
    (h : (s.expire order nowMs).outstanding.lookup tx = some o) : s.outstanding.lookup tx = some o :=
  ((s.lookup_expire_eq_some order nowMs).mp h).1

theorem lookup_onPong (s : PathSet) (order : ProbeOrder) (tx tx' : TxId)
    (nowMs : ℕ) : (s.onPong order tx nowMs).1.outstanding.lookup tx'
      = if tx' = tx then none else (s.expire order nowMs).outstanding.lookup tx' := by
  cases hlookup : (s.expire order nowMs).outstanding.lookup tx with
  | none =>
    rw [onPong_of_none hlookup]
    split
    · rename_i heq
      rw [heq, hlookup]
    · rfl
  | some sent =>
    obtain ⟨paths, hpaths⟩ := confirm_eq { s.expire order nowMs with
      outstanding := (s.expire order nowMs).outstanding.erase tx } sent nowMs
    rw [onPong_of_some hlookup, hpaths]
    split
    · rename_i heq
      rw [heq, AList.lookup_erase]
    · rename_i hne
      rw [AList.lookup_erase_ne hne]

theorem outstanding_of_step (h : (s.step op).outstanding.lookup tx = some o) :
    (s.outstanding.lookup tx = some o ∧ ¬ Consumes op tx) ∨ Sends s op tx o := by
  have hother (hs : s.outstanding.lookup tx = some o) (hop : ∀ order t, op ≠ .onPong order tx t) :
      (s.outstanding.lookup tx = some o ∧ ¬ Consumes op tx) ∨ Sends s op tx o := by
    refine .inl ⟨hs, ?_⟩
    intro hconsumes
    obtain ⟨order, t, heq⟩ := hconsumes
    exact hop order t heq
  have hquiet := s.step_quiet op
  cases op with
  | onPingSent order tx' a now =>
    have h' : (s.onPingSent order tx' a now).1.outstanding.lookup tx = some o := h
    rcases s.onPingSent_cases order tx' a now with hcase | hcase
    · rw [hcase] at h'
      exact hother (outstanding_of_expire h') fun order t heq => by cases heq
    · rw [hcase] at h'
      by_cases htx : tx = tx'
      · subst htx
        have ho : (⟨a, now⟩ : Outstanding) = o := by
          simpa using h'
        subst ho
        exact .inr ⟨order, rfl, by rw [hcase]⟩
      · have hkept : (s.expire order now).outstanding.lookup tx = some o := by
          rwa [AList.lookup_insert_ne htx] at h'
        exact hother (outstanding_of_expire hkept) fun order t heq => by cases heq
  | onProbeReceived tx' =>
    have h' : (s.onProbeReceived tx').1.outstanding.lookup tx = some o := h
    unfold onProbeReceived at h'
    split at h' <;> exact hother h' fun order t heq => by cases heq
  | onPong order tx' now =>
    have h' : (s.onPong order tx' now).1.outstanding.lookup tx = some o := h
    rw [lookup_onPong] at h'
    split at h'
    · cases h'
    · rename_i hne
      refine hother (outstanding_of_expire h') ?_
      intro order' t heq
      exact hne (by cases heq; rfl)
  | select now =>
    obtain ⟨chosen, challenger, hselect⟩ := s.select_eq now
    have h' : (s.select now).1.outstanding.lookup tx = some o := h
    rw [hselect] at h'
    exact hother h' fun order t heq => by cases heq
  | _ =>
    obtain ⟨paths, outstanding, hsame, hkept, -⟩ := hquiet rfl
    rw [hsame.outstanding] at h
    exact hother (hkept rfl tx o h) fun order t heq => by cases heq

end

/-! ### Runs -/

section

variable {ops : List Op} {addr : SocketAddr} {tx : TxId} {t : ℕ}

theorem run_concat_op (ops : List Op) (op : Op) : run (ops ++ [op]) = (run ops).step op :=
  run_concat step new ops op

theorem outstanding_origin {o : Outstanding} (h : (run ops).outstanding.lookup tx = some o) :
    ∃ before op between, ops = before ++ op :: between ∧ Sends (run before) op tx o
      ∧ ∀ op ∈ between, ¬ Consumes op tx := by
  have hnew : ¬ (new.outstanding.lookup tx = some o) := by
    intro hnone
    cases hnone
  exact exists_origin (fun s : PathSet => s.outstanding.lookup tx = some o)
    (fun s op hs => outstanding_of_step hs) hnew h

theorem confirmed_origin (h : (run ops).Confirmed addr t) : ∃ before order tx sent between order' after,
      ops = before ++ .onPingSent order tx addr sent :: (between ++ .onPong order' tx t :: after)
        ∧ ((run before).onPingSent order tx addr sent).2 = .ok ()
        ∧ (∀ op ∈ between, ¬ Consumes op tx) ∧ t - sent ≤ TX_TIMEOUT_MS
        ∧ ((run (before ++ .onPingSent order tx addr sent :: between)).onPong order' tx t).2
          = .confirmed addr (t - sent) := by
  have hnew : ¬ new.Confirmed addr t := by
    intro hnew
    obtain ⟨p, hp, -⟩ := hnew
    cases hp
  have hstep (s : PathSet) (op : Op) (hs : (s.step op).Confirmed addr t) :
      (s.Confirmed addr t ∧ True) ∨ Answers s op addr t :=
    (confirmed_of_step hs).imp (fun hold => ⟨hold, trivial⟩) id
  obtain ⟨a, op, after, rfl, ⟨order', tx, sent, rfl, hlookup, htimeout, hpong⟩, -⟩ :=
    exists_origin (fun s : PathSet => s.Confirmed addr t) hstep hnew h
  obtain ⟨before, op, between, rfl, ⟨order, rfl, hok⟩, hbetween⟩ := outstanding_origin hlookup
  exact ⟨before, order, tx, sent, between, order', after, by simp, hok, hbetween, htimeout, hpong⟩

def confirmedBy (tx : TxId) (s : PathSet) : Op → Option SocketAddr
  | .onPong order tx' nowMs =>
    if tx' = tx then
      match (s.onPong order tx' nowMs).2 with
      | .confirmed addr _ => some addr
      | .unmatched => none
    else none
  | _ => none

def confirmations (tx : TxId) (ops : List Op) : List SocketAddr :=
  trace step (confirmedBy tx) new ops

def passes (tx : TxId) : Op → Bool
  | .onPingSent _ tx' _ _ => decide (tx' = tx)
  | _ => false

/-- The probes with the transaction id that may still be answered. -/
def pending (s : PathSet) (tx : TxId) : ℕ := if (s.outstanding.lookup tx).isSome then 1 else 0

variable (s : PathSet)

theorem pending_step_le (op : Op) (tx : TxId) :
    (s.step op).pending tx ≤ s.pending tx + (if passes tx op then 1 else 0) := by
  cases hafter : (s.step op).outstanding.lookup tx with
  | none =>
    rw [pending, hafter]
    exact Nat.zero_le _
  | some o =>
    rw [pending, hafter]
    rcases outstanding_of_step hafter with ⟨hbefore, -⟩ | ⟨order, rfl, -⟩
    · rw [pending, hbefore]
      exact Nat.le_add_right _ _
    · rw [passes, if_pos (decide_eq_true rfl)]
      exact Nat.le_add_left _ _

theorem confirmedBy_eq_some {s : PathSet} {op : Op} (h : confirmedBy tx s op = some addr) :
    ∃ order nowMs sent, op = .onPong order tx nowMs
      ∧ (s.expire order nowMs).outstanding.lookup tx = some sent := by
  cases op with
  | onPong order tx' nowMs =>
    rw [confirmedBy] at h
    split at h
    · rename_i htx
      subst htx
      cases hlookup : (s.expire order nowMs).outstanding.lookup tx' with
      | none =>
        rw [onPong_of_none hlookup] at h
        cases h
      | some sent => exact ⟨order, nowMs, sent, rfl, hlookup⟩
    · cases h
  | _ => cases h

theorem confirmedBy_step (op : Op) (tx : TxId) : (confirmedBy tx s op).toList.length + (s.step op).pending tx
      ≤ s.pending tx + (if passes tx op then 1 else 0) := by
  cases hby : confirmedBy tx s op with
  | none =>
    rw [toList_none, length_nil, Nat.zero_add]
    exact pending_step_le s op tx
  | some addr =>
    -- The pong found the probe outstanding, and leaves none behind.
    obtain ⟨order, nowMs, sent, rfl, hlookup⟩ := confirmedBy_eq_some hby
    have hafter : (s.step (.onPong order tx nowMs)).pending tx = 0 := by
      show (if ((s.onPong order tx nowMs).1.outstanding.lookup tx).isSome then 1 else 0) = 0
      rw [lookup_onPong, if_pos rfl]
      rfl
    have hbefore : s.pending tx = 1 := by
      rw [pending, outstanding_of_expire hlookup]
      rfl
    rw [hafter, hbefore]
    exact Nat.le_add_right _ _

/-- **A probe confirms once.**  A transaction id confirms at most as often as it was sent. -/
theorem confirmations_le (tx : TxId) (ops : List Op) :
    (confirmations tx ops).length ≤ ops.countP (passes tx) := by
  have hrun : (confirmations tx ops).length + (run ops).pending tx ≤ ops.countP (passes tx) := by
    induction ops using reverseRecOn with
    | nil => exact Nat.le_refl 0
    | append_singleton ops op ih =>
      have hstep := confirmedBy_step (run ops) op tx
      rw [confirmations, trace_concat, length_append, run_concat_op, countP_append, countP_singleton]
      have ih' : (trace step (confirmedBy tx) new ops).length + (run ops).pending tx
          ≤ ops.countP (passes tx) := ih
      have hstep' : (confirmedBy tx (Runs.run step new ops) op).toList.length
          + ((run ops).step op).pending tx ≤ (run ops).pending tx + (if passes tx op then 1 else 0) := hstep
      omega
  exact Nat.le_of_add_right_le hrun

theorem admitPath_records (new : Path) : ((s.admitPath new).1.paths.map Path.record).Subperm
      (new.record :: s.paths.map Path.record) := by
  rcases s.admitPath_cases new with ⟨-, h⟩ | ⟨l₁, q, l₂, -, hpaths, -, -, h⟩ | ⟨-, -, h⟩
  · rw [h, map_append]
    exact (perm_append_singleton _ _).subperm
  · rw [h, hpaths, map_append, map_append, map_append]
    refine (perm_append_singleton _ _).subperm.trans (Sublist.subperm ?_)
    exact (((sublist_cons_self _ _).append_left _)).cons_cons _
  · rw [h]
    exact (sublist_cons_self _ _).subperm

theorem confirm_records (sent : Outstanding) (nowMs : ℕ) :
    ∃ r, ((s.confirm sent nowMs).paths.map Path.record).Subperm (r :: s.paths.map Path.record) := by
  unfold confirm
  split
  · rename_i hknows
    obtain ⟨l₁, p, l₂, hpaths, -, hupdate⟩ :=
      updateFirst_eq (f := confirmedAt sent nowMs) hknows
    refine ⟨(confirmedAt sent nowMs p).record, ?_⟩
    rw [hupdate, hpaths, map_append, map_append, map_cons, map_cons]
    refine perm_middle.subperm.trans (Sublist.subperm ?_)
    exact ((sublist_cons_self _ _).append_left _).cons_cons _
  · exact ⟨_, admitPath_records s _⟩

theorem onPong_records (order : ProbeOrder) (tx : TxId) (nowMs : ℕ) :
    ∃ r, ((s.onPong order tx nowMs).1.paths.map Path.record).Subperm (r :: s.paths.map Path.record) := by
  cases hlookup : (s.expire order nowMs).outstanding.lookup tx with
  | none =>
    refine ⟨(.v4 0 0, .relay, none), ?_⟩
    rw [onPong_of_none hlookup, records_expire]
    exact (sublist_cons_self _ _).subperm
  | some sent =>
    rw [onPong_of_some hlookup, ← s.records_expire order nowMs]
    exact confirm_records _ sent nowMs

/-! ### Answered probes -/

def answeredBy (s : PathSet) : Op → Option TxId
  | .onProbeReceived tx => if (s.onProbeReceived tx).2 then some tx else none
  | _ => none

def answers (ops : List Op) : List TxId := trace step answeredBy new ops

theorem onProbeReceived_eq_false {s : PathSet} : (s.onProbeReceived tx).2 = false ↔ tx ∈ s.answered := by
  unfold onProbeReceived
  split <;> simp_all

theorem answered_step (op : Op) : (answeredBy s op = none ∧ (s.step op).answered = s.answered)
      ∨ ∃ tx, answeredBy s op = some tx ∧ tx ∉ s.answered
        ∧ (s.step op).answered = (if ANSWERED_WINDOW ≤ s.answered.length then s.answered.tail
          else s.answered) ++ [tx] := by
  have hquiet := s.step_quiet op
  cases op with
  | onProbeReceived tx =>
    by_cases htx : tx ∈ s.answered
    · refine .inl ⟨?_, ?_⟩
      · rw [answeredBy, onProbeReceived_eq_false.mpr htx]
        rfl
      · show (s.onProbeReceived tx).1.answered = _
        rw [onProbeReceived, if_pos htx]
    · have hstep : s.onProbeReceived tx = ({ s with answered :=
          (if ANSWERED_WINDOW ≤ s.answered.length then s.answered.tail else s.answered) ++ [tx] },
          true) := by
        rw [onProbeReceived, if_neg htx]
      refine .inr ⟨tx, ?_, htx, ?_⟩
      · rw [answeredBy, hstep]
        rfl
      · show (s.onProbeReceived tx).1.answered = _
        rw [hstep]
  | select now =>
    obtain ⟨chosen, challenger, hselect⟩ := s.select_eq now
    refine .inl ⟨rfl, ?_⟩
    show (s.select now).1.answered = _
    rw [hselect]
  | _ =>
    obtain ⟨paths, outstanding, hsame, -⟩ := hquiet rfl
    exact .inl ⟨rfl, hsame.answered⟩

theorem answered_eq (ops : List Op) : (run ops).answered = (answers ops).rtake ANSWERED_WINDOW := by
  induction ops using reverseRecOn with
  | nil => rfl
  | append_singleton ops op ih =>
    have hanswers : answers (ops ++ [op]) = answers ops ++ (answeredBy (run ops) op).toList :=
      trace_concat new ops op
    rw [run_concat_op, hanswers]
    rcases answered_step (run ops) op with ⟨hby, hstep⟩ | ⟨tx, hby, -, hstep⟩
    · rw [hstep, hby, toList_none, append_nil, ih]
    · rw [hstep, hby, toList_some, ih]
      exact (rtake_concat (answers ops) tx 63).symm

theorem answered_nodup (ops : List Op) : (run ops).answered.Nodup := by
  have hstep (s : PathSet) (op : Op) (hs : s.answered.Nodup) : (s.step op).answered.Nodup := by
    rcases answered_step s op with ⟨-, hsame⟩ | ⟨tx, -, htx, hpush⟩
    · rw [hsame]
      exact hs
    · have hkept : (if ANSWERED_WINDOW ≤ s.answered.length then s.answered.tail
          else s.answered).Sublist s.answered := by
        split
        · exact tail_sublist _
        · exact Sublist.refl _
      rw [hpush]
      refine (hs.sublist hkept).append (nodup_singleton tx) ?_
      intro x hx hx'
      rw [mem_singleton.mp hx'] at hx
      exact htx (hkept.mem hx)
  exact run_induction hstep nodup_nil ops

end

/-- **Only answered probes confirm a path**, in time and each at most once, and no id is answered
again while it is remembered. -/
theorem only_answered_probes_confirm (ops : List Op) :
    (∀ p ∈ (run ops).paths, p.kind ≠ .relay → ∀ t, p.lastPongMs = some t →
      ∃ before order tx sent between order' after, ops = before
            ++ .onPingSent order tx p.addr sent :: (between ++ .onPong order' tx t :: after)
          ∧ ((run before).onPingSent order tx p.addr sent).2 = .ok ()
          ∧ (∀ op ∈ between, ¬ Consumes op tx) ∧ t - sent ≤ TX_TIMEOUT_MS
          ∧ ((run (before ++ .onPingSent order tx p.addr sent :: between)).onPong order' tx t).2
            = .confirmed p.addr (t - sent)) ∧ (∀ tx, (confirmations tx ops).length ≤ ops.countP (passes tx))
      ∧ (∀ order tx nowMs, ∃ r, (((run ops).onPong order tx nowMs).1.paths.map Path.record).Subperm
        (r :: (run ops).paths.map Path.record))
      ∧ (run ops).answered = (answers ops).rtake ANSWERED_WINDOW ∧ (run ops).answered.Nodup
      ∧ ∀ tx ∈ (run ops).answered, ((run ops).onProbeReceived tx).2 = false := by
  refine ⟨?_, fun tx => confirmations_le tx ops, fun order tx nowMs => onPong_records _ order tx nowMs,
    answered_eq ops, answered_nodup ops, fun tx htx => onProbeReceived_eq_false.mpr htx⟩
  intro p hp hkind t ht
  exact confirmed_origin ⟨p, hp, hkind, rfl, ht⟩

end PathSet

end Karst.Disco
