import Karst.Disco.Engine

/-!
# The probe schedule

The queue of the engine and the set of paths are two records of one thing, the candidates of a peer.
They stay in step, and bounded, along every run that meets three conditions: no candidate is named by
an address that only the relay path has, the relay is not dropped while the set is full of other
paths, and no `Pong` brings a path back in the place of one that is queued.  Without them they part.
-/

namespace Karst.Disco

open List hiding Vector

def candidatesOf (paths : List Path) : List SocketAddr :=
  (paths.filter fun p => p.kind != .relay).map Path.addr

section

variable {l l₁ l₂ : List Path} {p : Path} {queue : List SocketAddr}

theorem candidatesOf_append : candidatesOf (l₁ ++ l₂) = candidatesOf l₁ ++ candidatesOf l₂ := by
  rw [candidatesOf, filter_append, map_append]
  rfl

theorem candidatesOf_cons_relay (h : p.kind = .relay) : candidatesOf (p :: l) = candidatesOf l := by
  rw [candidatesOf, filter_cons_of_neg (by simp [h])]
  rfl

theorem candidatesOf_cons (h : p.kind ≠ .relay) : candidatesOf (p :: l) = p.addr :: candidatesOf l := by
  rw [candidatesOf, filter_cons_of_pos (by simpa using h)]
  rfl

theorem candidatesOf_length_le : (candidatesOf l).length ≤ l.length := by
  rw [candidatesOf, length_map]
  exact length_filter_le _ _

theorem candidatesOf_singleton_length_le : (candidatesOf [p]).length ≤ 1 := candidatesOf_length_le

theorem candidatesOf_eq (l : List Path) : candidatesOf l
      = ((l.map fun p => (p.addr, p.kind)).filter fun e => e.2 != .relay).map Prod.fst := by
  rw [filter_map, map_map]
  rfl

theorem candidatesOf_congr {l' : List Path} (h : l'.map Path.record = l.map Path.record) :
    candidatesOf l' = candidatesOf l := by
  have hentries (l : List Path) :
      (l.map fun p => (p.addr, p.kind)) = (l.map Path.record).map fun r => (r.1, r.2.1) := by
    rw [map_map]
    rfl
  rw [candidatesOf_eq, candidatesOf_eq, hentries, hentries, h]

/-- **A path in the place of another.**  Dropping one that is not queued, and not the relay when the
others are as many as may be, keeps the queue within the candidates and these within the bound. -/
theorem candidatesOf_displaced (new : Path) (hheld : queue ⊆ candidatesOf (l₁ ++ p :: l₂))
    (hmax : (candidatesOf (l₁ ++ p :: l₂)).length ≤ MAX_PATHS_PER_PEER)
    (hrelay : p.kind = .relay → (candidatesOf (l₁ ++ p :: l₂)).length < MAX_PATHS_PER_PEER)
    (hqueue : p.kind ≠ .relay → p.addr ∉ queue) : queue ⊆ candidatesOf (l₁ ++ l₂ ++ [new])
      ∧ (candidatesOf (l₁ ++ l₂ ++ [new])).length ≤ MAX_PATHS_PER_PEER := by
  have hnew : (candidatesOf [new]).length ≤ 1 := candidatesOf_singleton_length_le
  by_cases hkind : p.kind = .relay
  · have hrelay' := hrelay hkind
    rw [candidatesOf_append, candidatesOf_cons_relay hkind, ← candidatesOf_append] at hheld hrelay'
    rw [candidatesOf_append, length_append]
    refine ⟨List.Subset.trans hheld (subset_append_left _ _), ?_⟩
    omega
  · rw [candidatesOf_append, candidatesOf_cons hkind] at hheld hmax
    rw [candidatesOf_append, candidatesOf_append]
    constructor
    · intro a ha
      have hne : a ≠ p.addr := by
        intro heq
        exact hqueue hkind (heq ▸ ha)
      have hmem := hheld ha
      simp only [mem_append, mem_cons, hne, false_or] at hmem ⊢
      exact Or.inl hmem
    · simp only [length_append, length_cons] at hmax ⊢
      omega

end

/-! ### The set of paths beside a queue -/

namespace PathSet

def candidates (s : PathSet) : List SocketAddr := candidatesOf s.paths

structure Kept (s : PathSet) (queue : List SocketAddr) : Prop where
  held : queue ⊆ s.candidates
  nodup : queue.Nodup
  bounded : s.candidates.length ≤ MAX_PATHS_PER_PEER

/-- A path may be dropped that is not queued; the relay, when there are not too many others. -/
def mayDrop (s : PathSet) (queue : List SocketAddr) (p : Path) : Bool :=
  if p.kind = .relay then decide (s.candidates.length < MAX_PATHS_PER_PEER)
  else decide (p.addr ∉ queue)

def displaced (s : PathSet) : Op → Option Path
  | .addCandidate addr _ => s.dropsFor addr
  | .onPong order tx nowMs =>
    ((s.expire order nowMs).outstanding.lookup tx).bind fun sent =>
      (s.expire order nowMs).dropsFor sent.addr
  | _ => none

section

variable {s s' : PathSet} {queue queue' : List SocketAddr} {addr : SocketAddr} {p new : Path}

variable (h : s.Kept queue)
include h

theorem Kept.congr (hs : s'.candidates = s.candidates) : s'.Kept queue :=
  ⟨by rw [hs]; exact h.held, h.nodup, by rw [hs]; exact h.bounded⟩

theorem Kept.of_records (hs : s'.paths.map Path.record = s.paths.map Path.record) : s'.Kept queue :=
  h.congr (candidatesOf_congr hs)

theorem Kept.sublist (hsub : queue'.Sublist queue) : s.Kept queue' :=
  ⟨fun _ ha => h.held (hsub.mem ha), h.nodup.sublist hsub, h.bounded⟩

theorem Kept.concat (haddr : addr ∈ s.candidates) (hnew : addr ∉ queue) : s.Kept (queue ++ [addr]) := by
  refine ⟨?_, ?_, h.bounded⟩
  · intro a ha
    rcases mem_append.mp ha with ha | ha
    · exact h.held ha
    · rw [mem_singleton.mp ha]
      exact haddr
  · refine h.nodup.append (nodup_singleton addr) ?_
    intro a ha ha'
    exact hnew (mem_singleton.mp ha' ▸ ha)

theorem Kept.queue_le : queue.length ≤ MAX_PATHS_PER_PEER :=
  ((h.nodup.subperm h.held).length_le).trans h.bounded

theorem Kept.displace {l₁ l₂ : List Path} (hpaths : s.paths = l₁ ++ p :: l₂)
    (hdrop : s.mayDrop queue p = true) (hs' : s'.paths = l₁ ++ l₂ ++ [new]) : s'.Kept queue := by
  have hheld : queue ⊆ candidatesOf (l₁ ++ p :: l₂) := hpaths ▸ h.held
  have hmax : (candidatesOf (l₁ ++ p :: l₂)).length ≤ MAX_PATHS_PER_PEER := hpaths ▸ h.bounded
  have hcandidates : s.candidates = candidatesOf (l₁ ++ p :: l₂) := by rw [candidates, hpaths]
  rw [mayDrop, hcandidates] at hdrop
  obtain ⟨hsub, hbound⟩ := candidatesOf_displaced new hheld hmax
    (fun hrelay => by rw [if_pos hrelay] at hdrop; exact of_decide_eq_true hdrop)
    (fun hrelay => by rw [if_neg hrelay] at hdrop; exact of_decide_eq_true hdrop)
  refine ⟨?_, h.nodup, ?_⟩
  · rw [candidates, hs']
    exact hsub
  · rw [candidates, hs']
    exact hbound

theorem Kept.push (hroom : s.paths.length < MAX_PATHS_PER_PEER)
    (hs' : s'.paths = s.paths ++ [new]) : s'.Kept queue := by
  have hlen : (candidatesOf s.paths).length ≤ s.paths.length := candidatesOf_length_le
  have hnew : (candidatesOf [new]).length ≤ 1 := candidatesOf_singleton_length_le
  have hcandidates : s'.candidates = s.candidates ++ candidatesOf [new] := by
    rw [candidates, hs', candidatesOf_append]
    rfl
  refine ⟨?_, h.nodup, ?_⟩
  · rw [hcandidates]
    exact List.Subset.trans h.held (subset_append_left _ _)
  · rw [hcandidates, length_append, candidates]
    omega

theorem kept_admitPath (hknows : s.knows new.addr = false)
    (hdrop : (s.dropsFor new.addr).all (s.mayDrop queue) = true) : (s.admitPath new).1.Kept queue := by
  rcases s.admitPath_cases new with ⟨hroom, hcase⟩ | ⟨l₁, p, l₂, hfull, hpaths, hvictim, -, hcase⟩
    | ⟨-, -, hcase⟩
  · exact h.push hroom (by rw [hcase])
  · have hp : s.dropsFor new.addr = some p := by
      rw [dropsFor, hknows, Bool.false_or, decide_eq_false (Nat.not_lt.mpr hfull)]
      exact hvictim
    rw [hp] at hdrop
    exact h.displace hpaths hdrop (by rw [hcase])
  · rw [hcase]
    exact h

omit h

theorem candidates_setRelay (s : PathSet) (addr : SocketAddr) (latencyMs nowMs : ℕ) :
    (s.setRelay addr latencyMs nowMs).candidates = s.candidates := by
  unfold setRelay
  split
  · show (List.filter _ (updateFirst _ _ s.paths)).map Path.addr = _
    rw [filter_updateFirst]
    · rfl
    · intro a ha
      simp [beq_iff_eq.mp ha]
  · show candidatesOf (s.paths ++ [_]) = _
    rw [candidatesOf_append, candidatesOf_cons_relay rfl]
    exact append_nil _

theorem candidates_clearRelay (s : PathSet) : s.clearRelay.candidates = s.candidates := by
  show candidatesOf (s.paths.filter fun p => p.kind != .relay) = _
  rw [candidatesOf, filter_filter]
  simp only [Bool.and_self]
  rfl

theorem kept_step {op : Op} (h : s.Kept queue)
    (hdrop : (s.displaced op).all (s.mayDrop queue) = true) : (s.step op).Kept queue := by
  have hquiet := s.step_quiet op
  cases op with
  | addCandidate a kind =>
    show (s.addCandidate a kind).1.Kept queue
    rw [addCandidate_fst]
    split
    · exact h
    · rename_i hknows
      exact kept_admitPath h (Bool.eq_false_iff.mpr hknows) hdrop
  | onProbeReceived tx =>
    refine h.of_records ?_
    rw [step, onProbeReceived]
    split <;> rfl
  | onPong order tx now =>
    have hexpire : (s.expire order now).candidates = s.candidates :=
      candidatesOf_congr (s.records_expire order now)
    have h' : (s.expire order now).Kept queue := h.congr hexpire
    show (s.onPong order tx now).1.Kept queue
    cases hlookup : (s.expire order now).outstanding.lookup tx with
    | none =>
      rw [onPong_of_none hlookup]
      exact h'
    | some sent =>
      rw [onPong_of_some hlookup]
      have herased : Kept { s.expire order now with
          outstanding := (s.expire order now).outstanding.erase tx } queue := h'.congr rfl
      have hdrop' : ((s.expire order now).dropsFor sent.addr).all
          ((s.expire order now).mayDrop queue) = true := by
        rw [displaced, hlookup, Option.bind_some] at hdrop
        rw [← hdrop]
        unfold mayDrop
        rw [hexpire]
      unfold confirm
      split
      · refine herased.congr ?_
        show candidatesOf (updateFirst _ _ (s.expire order now).paths) = candidatesOf _
        rw [candidatesOf_eq, candidatesOf_eq, map_updateFirst]
        intro p
        rfl
      · rename_i hknows
        exact kept_admitPath herased (Bool.eq_false_iff.mpr hknows) hdrop'
  | setRelay a latency now => exact h.congr (s.candidates_setRelay a latency now)
  | clearRelay => exact h.congr s.candidates_clearRelay
  | select now =>
    obtain ⟨chosen, challenger, hselect⟩ := s.select_eq now
    show (s.select now).1.Kept queue
    rw [hselect]
    exact h.congr rfl
  | _ =>
    obtain ⟨paths, outstanding, hsame, -, hpaths⟩ := hquiet rfl
    cases hpaths rfl
    exact h.of_records hsame.records

end

end PathSet

/-! ### The engine -/

namespace Engine

open PathSet

variable {e e' : Engine} {addr : SocketAddr} {nowMs : ℕ}

def queued (e : Engine) : List SocketAddr := e.queue.map Scheduled.addr

def Kept (e : Engine) : Prop := e.paths.Kept e.queued

/-- A candidate that is new to the queue is not the relay's address alone, and the relay is not
dropped for it when it may not be. -/
def candidateClean (e : Engine) (addr : SocketAddr) : Bool :=
  decide (addr ∈ e.queued)
    || ((e.paths.dropsFor addr).all
        fun p => p.kind != .relay || decide (e.paths.candidates.length < MAX_PATHS_PER_PEER))
      && (!e.paths.knows addr || decide (addr ∈ e.paths.candidates))

theorem kept_addPeerCandidate (h : e.Kept) (hclean : e.candidateClean addr = true)
    (immediate : Bool) : (e.addPeerCandidate addr nowMs immediate).Kept := by
  unfold addPeerCandidate
  have hany : (e.queue.any fun s => s.addr == addr) = true ↔ addr ∈ e.queued := by
    simp [queued, any_eq_true]
  by_cases hqueued : addr ∈ e.queued
  · rw [if_pos (hany.mpr hqueued)]
    split
    · show e.paths.Kept ((updateFirst _ _ e.queue).map Scheduled.addr)
      rw [map_updateFirst]
      · exact h
      · intro s
        rfl
    · exact h
  · rw [if_neg (mt hany.mp hqueued)]
    rw [candidateClean, decide_eq_false hqueued, Bool.false_or, Bool.and_eq_true] at hclean
    obtain ⟨hrelay, hknown⟩ := hclean
    have hdirect : candidatesOf [⟨addr, .directFor addr, none, none, .unconfirmed⟩] = [addr] :=
      candidatesOf_cons (PathKind.directFor_ne_relay addr)
    rcases e.paths.addCandidate_cases addr (.directFor addr) with ⟨hknows, hcase⟩
      | ⟨-, -, hroom, hcase⟩ | ⟨l₁, p, l₂, hknows, hdrops, hpaths, hcase⟩ | hcase
    · rw [hcase]
      rw [hknows] at hknown
      have hmem : addr ∈ e.paths.candidates := by simpa using hknown
      show e.paths.Kept ((e.queue ++ [_]).map Scheduled.addr)
      rw [map_append]
      exact Kept.concat h hmem hqueued
    · rw [hcase]
      show PathSet.Kept { e.paths with paths := _ } ((e.queue ++ [_]).map Scheduled.addr)
      rw [map_append]
      refine Kept.concat (Kept.push h hroom rfl) ?_ hqueued
      show addr ∈ candidatesOf (_ ++ [_])
      rw [candidatesOf_append, hdirect]
      simp
    · rw [hcase]
      show PathSet.Kept { e.paths with paths := _ }
        (((e.queue.filter fun s : Scheduled => s.addr != p.addr) ++ [_]).map Scheduled.addr)
      rw [map_append]
      -- The queue without the displaced address is still in step, and then the new one is added.
      have hsub : ((e.queue.filter fun s => s.addr != p.addr).map Scheduled.addr).Sublist e.queued :=
        Sublist.map _ filter_sublist
      have hnotin : p.addr ∉ (e.queue.filter fun s => s.addr != p.addr).map Scheduled.addr := by
        simp
      have hdrop : e.paths.mayDrop ((e.queue.filter fun s => s.addr != p.addr).map Scheduled.addr) p
          = true := by
        rw [hdrops] at hrelay
        unfold mayDrop
        split
        · rename_i hkind
          simpa [hkind] using hrelay
        · exact decide_eq_true hnotin
      refine Kept.concat (Kept.displace (h.sublist hsub) hpaths hdrop rfl) ?_ ?_
      · show addr ∈ candidatesOf (_ ++ [_])
        rw [candidatesOf_append, hdirect]
        simp
      · intro hmem
        exact hqueued (hsub.mem hmem)
    · rw [hcase]
      exact h

/-- Neither the addresses in the queue nor the paths are other ones. -/
structure SameSchedule (e e' : Engine) : Prop where
  queued : e'.queued = e.queued
  records : e'.paths.paths.map Path.record = e.paths.paths.map Path.record

theorem SameSchedule.refl (e : Engine) : SameSchedule e e := ⟨rfl, rfl⟩

theorem SameSchedule.trans {e'' : Engine} (h : SameSchedule e e') (h' : SameSchedule e' e'') :
    SameSchedule e e'' := ⟨h'.queued.trans h.queued, h'.records.trans h.records⟩

theorem Kept.of_same (h : e.Kept) (hsame : SameSchedule e e') : e'.Kept := by
  show e'.paths.Kept e'.queued
  rw [hsame.queued]
  exact Kept.of_records h hsame.records

theorem sameSchedule_updateFirst (e : Engine) (test : Scheduled → Bool) {f : Scheduled → Scheduled}
    (hf : ∀ s, (f s).addr = s.addr) : SameSchedule e { e with queue := updateFirst test f e.queue } :=
  ⟨map_updateFirst hf, rfl⟩

section

variable (order : ProbeOrder) (mint : ℕ → TxId)

theorem sameSchedule_emitProbe (addr : SocketAddr) (nowMs : ℕ) (w : Poll) :
    SameSchedule w.engine (emitProbe order mint nowMs addr w).1.engine := by
  have hrecords : (w.engine.paths.onPingSent order (mint w.minted) addr nowMs).1.paths.map Path.record
      = w.engine.paths.paths.map Path.record := by
    rcases w.engine.paths.onPingSent_cases order (mint w.minted) addr nowMs with hcase | hcase
    · rw [hcase, records_expire]
    · rw [hcase]
      exact w.engine.paths.records_expire order nowMs
  unfold emitProbe
  split <;> rename_i heq <;> rw [heq] at hrecords <;> exact ⟨rfl, hrecords⟩

theorem sameSchedule_foldl {f : Poll → SocketAddr → Poll}
    (hf : ∀ w a, SameSchedule w.engine (f w a).engine) (addrs : List SocketAddr) (w : Poll) :
    SameSchedule w.engine (addrs.foldl f w).engine := by
  induction addrs generalizing w with
  | nil => exact SameSchedule.refl _
  | cons a addrs ih => exact (hf w a).trans (ih (f w a))

variable (nowMs : ℕ) (w : Poll)

theorem sameSchedule_probeDue : SameSchedule w.engine (probeDue order mint nowMs w).engine := by
  refine sameSchedule_foldl ?_ _ w
  intro w a
  have hprobe := sameSchedule_emitProbe order mint a nowMs w
  unfold probeScheduled
  split
  rename_i w' emitted heq
  rw [heq] at hprobe
  split
  · exact hprobe.trans (sameSchedule_updateFirst w'.engine _ fun s => rfl)
  · exact hprobe

theorem sameSchedule_keepalive : SameSchedule w.engine (keepalive order mint nowMs w).engine := by
  unfold keepalive
  split
  · exact SameSchedule.refl _
  · split
    · have hstamp : SameSchedule w.engine { w.engine with lastKeepaliveMs := some nowMs } :=
        ⟨rfl, rfl⟩
      exact hstamp.trans (sameSchedule_emitProbe order mint _ nowMs ⟨_, w.minted, w.out⟩)
    · exact SameSchedule.refl _

theorem sameSchedule_reprobe : SameSchedule w.engine (reprobe order mint nowMs w).engine := by
  unfold reprobe
  split
  · exact ⟨rfl, rfl⟩
  · split
    · have hstamp : SameSchedule w.engine { w.engine with lastReprobeMs := some nowMs } :=
        ⟨rfl, rfl⟩
      exact hstamp.trans (sameSchedule_foldl
        (fun w a => sameSchedule_emitProbe order mint a nowMs w) _ ⟨_, w.minted, w.out⟩)
    · exact SameSchedule.refl _

theorem sameSchedule_probeMtu : SameSchedule w.engine (probeMtu order mint nowMs w).engine := by
  unfold probeMtu
  split
  · exact SameSchedule.refl _
  · rename_i addr _
    have hsearch : SameSchedule w.engine
        { w.engine with paths := w.engine.paths.ensureMtuSearch addr nowMs } :=
      ⟨rfl, (w.engine.paths.sameButMtu_ensureMtuSearch addr nowMs).records⟩
    dsimp only
    split
    · exact hsearch
    · rename_i size _
      refine hsearch.trans ?_
      have hsent := ((w.engine.paths.ensureMtuSearch addr nowMs).sameButMtu_onMtuProbeSent order
        (mint w.minted) addr size nowMs).records.trans (records_expire _ order nowMs)
      split <;> rename_i heq <;> rw [heq] at hsent <;> exact ⟨rfl, hsent⟩

theorem sameSchedule_poll (e : Engine) : SameSchedule e (e.poll order mint nowMs).1 := by
  have hadvertise : SameSchedule e (e.advertise nowMs).engine := by
    unfold advertise
    split <;> exact ⟨rfl, rfl⟩
  exact hadvertise.trans ((sameSchedule_probeDue order mint nowMs _).trans
    ((sameSchedule_keepalive order mint nowMs _).trans
      ((sameSchedule_reprobe order mint nowMs _).trans (sameSchedule_probeMtu order mint nowMs _))))

end

/-! ### Runs -/

def learn (nowMs : ℕ) (e : Engine) (c : Endpoint) : Engine := e.addPeerCandidate c.addr nowMs true

/-- An operation drops no path that is queued, makes no room with the relay when there is none for
another candidate, and names no candidate by the relay's address. -/
def clean (e : Engine) : Op → Bool
  | .addPeerCandidate addr _ _ => e.candidateClean addr
  | .onCallMeMaybe candidates nowMs =>
    !elapsed nowMs ADVERTISE_MIN_INTERVAL_MS e.lastRemoteAdvertiseMs
      || Runs.Along (learn nowMs) (fun e c => e.candidateClean c.addr)
          { e with lastRemoteAdvertiseMs := some nowMs } candidates
  | .pathsMut op => (e.paths.displaced op).all (e.paths.mayDrop e.queued)
  | _ => true

theorem kept_onCallMeMaybe (h : e.Kept) {candidates : List Endpoint}
    (hclean : e.clean (.onCallMeMaybe candidates nowMs) = true) :
    (e.onCallMeMaybe candidates nowMs).1.Kept := by
  unfold onCallMeMaybe
  split
  · rename_i helapsed
    rw [clean, helapsed, Bool.not_true, Bool.false_or] at hclean
    have hstep (e : Engine) (c : Endpoint) (hc : e.candidateClean c.addr = true) (h : e.Kept) :
        (learn nowMs e c).Kept := kept_addPeerCandidate h hc true
    have hstamp : Kept { e with lastRemoteAdvertiseMs := some nowMs } := h.of_same ⟨rfl, rfl⟩
    exact Runs.along_induction hstep hstamp hclean
  · exact h

theorem kept_engine_step (ipText : Net.IpAddr → Bytes) {op : Op} (hclean : e.clean op = true)
    (h : e.Kept) : (e.step ipText op).Kept := by
  cases op with
  | setLocalCandidates candidates =>
    refine h.of_same ?_
    show SameSchedule e (e.setLocalCandidates ipText candidates)
    unfold setLocalCandidates
    dsimp only
    split <;> exact ⟨rfl, rfl⟩
  | addPeerCandidate addr nowMs immediate => exact kept_addPeerCandidate h hclean immediate
  | onCallMeMaybe candidates nowMs => exact kept_onCallMeMaybe h hclean
  | onConfirmed addr => exact h.of_same (sameSchedule_updateFirst e _ fun s => rfl)
  | rediscover nowMs =>
    refine h.of_same ⟨?_, e.paths.sameButMtu_resetMtu.records⟩
    show (e.queue.map _).map Scheduled.addr = _
    rw [map_map]
    rfl
  | poll order mint nowMs => exact h.of_same (sameSchedule_poll order mint nowMs e)
  | pathsMut op => exact kept_step h hclean

structure Consistent (e : Engine) : Prop where
  held : ∀ a ∈ e.queued, ∃ p ∈ e.paths.paths, p.addr = a
  nodup : e.queued.Nodup
  queue_le : e.queue.length ≤ MAX_PATHS_PER_PEER
  paths_le : (e.paths.paths.filter fun p => p.kind != .relay).length ≤ MAX_PATHS_PER_PEER

theorem Kept.consistent (h : e.Kept) : e.Consistent where
  held := by
    intro a ha
    obtain ⟨p, hp, rfl⟩ := mem_map.mp (Kept.held h ha)
    exact ⟨p, mem_of_mem_filter hp, rfl⟩
  nodup := Kept.nodup h
  queue_le := by
    have hle := Kept.queue_le h
    rwa [queued, length_map] at hle
  paths_le := by
    have hle := Kept.bounded h
    rwa [candidates, candidatesOf, length_map] at hle

/-- **The schedule and the paths stay in step**, and bounded, along every run of clean steps. -/
theorem schedule_consistent (ipText : Net.IpAddr → Bytes) (ops : List Op)
    (hclean : Runs.Along (step ipText) clean new ops = true) : (run ipText ops).Consistent := by
  have hinit : new.Kept := ⟨nil_subset _, nodup_nil, Nat.zero_le _⟩
  have hstep (e : Engine) (op : Op) (hop : e.clean op = true) (h : e.Kept) :
      (e.step ipText op).Kept := kept_engine_step ipText hop h
  exact Kept.consistent (Runs.along_induction hstep hinit hclean)

def addrN (i : ℕ) : SocketAddr := .v4 i 1

def txN (i : ℕ) : TxId := fit TX_ID_LEN [UInt8.ofNat i]

theorem schedule_consistent_confirmed :
    (run (fun _ => []) [.addPeerCandidate (addrN 0) 0 false, .pathsMut (.setRelay (addrN 1) 5 0),
      .poll .asStored txN 0, .pathsMut (.onPong .asStored (txN 0) 9), .onConfirmed (addrN 0),
      .onCallMeMaybe [⟨addrN 2⟩] 10]).Consistent :=
  schedule_consistent _ _ (by decide +kernel)

def sixtyFour : List Op :=
  (List.range MAX_PATHS_PER_PEER).map fun i => .addPeerCandidate (addrN i) 0 false

/-- The first candidate is probed and displaced, and comes back in the place of the second. -/
def answeredLate : List Op :=
  sixtyFour ++ [.poll .asStored txN 0, .addPeerCandidate (addrN 64) 0 false,
    .pathsMut (.onPong .asStored (txN 0) 1)]

/-- The relay's address is named as a candidate, and then there is no relay. -/
def relayWithdrawn : List Op :=
  [.pathsMut (.setRelay (addrN 99) 5 0), .addPeerCandidate (addrN 99) 0 false, .pathsMut .clearRelay]

/-- The relay's address is named as one candidate more. -/
def relayNamed : List Op :=
  sixtyFour ++ [.pathsMut (.setRelay (addrN 99) 5 0), .addPeerCandidate (addrN 99) 0 false]

/-- **The schedule and the paths part**: twice an address is queued that no path has, and once the
queue has an entry more than it may. -/
theorem schedule_parts : ¬ (run (fun _ => []) answeredLate).Consistent
      ∧ ¬ (run (fun _ => []) relayWithdrawn).Consistent
      ∧ (run (fun _ => []) relayNamed).queue.length = MAX_PATHS_PER_PEER + 1 := by
  refine ⟨?_, ?_, by decide +kernel⟩
  · intro h
    exact absurd (h.held (addrN 1) (by decide +kernel)) (by decide +kernel)
  · intro h
    exact absurd (h.held (addrN 99) (by decide +kernel)) (by decide +kernel)

end Engine

end Karst.Disco
