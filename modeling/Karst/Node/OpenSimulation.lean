import Karst.Node.SidePhases

/-!
# Two sessions simulate the abstract simultaneous open

The network of two sessions against the abstract protocol: the phase of each side, which handshake
messages are in flight, and what the transport messages in flight were sealed under.
-/

namespace Karst.Node

open Crypto Noise OpenProtocol Function
open List hiding Vector

variable {P : Primitives} {R : Pair P}

/-! ### One direction of the traffic -/

/-- The traffic from side `y` to the other side: sealed under keys that `D` allows, with counters
already spent. -/
structure Traffic (E : Exchanges R) (y : Bool) (D : Which → Prop) (p q : Phase)
    (c d : Which → TransportSession) (inbox : List Packet) : Prop where
  data : ∀ m, .data m ∈ inbox → ∃ w k, D w ∧ p.uses w = true ∧ E.Sealed y w m k ∧ k < (c w).sendCounter
  windows : ∀ v, q.uses v = true → (d v).window = ReplayWindow.new
    ∨ p.uses v.flip = true ∧ (d v).window.highest < (c v.flip).sendCounter

namespace Traffic

variable {E : Exchanges R} {y : Bool} {D : Which → Prop} {p p' q q' : Phase}
  {c c' d d' : Which → TransportSession} {inbox inbox' : List Packet} (h : Traffic E y D p q c d inbox)

include h

theorem sender (hgrows : Grows p p' c c') : Traffic E y D p' q c' d inbox where
  data m hm := by
    obtain ⟨w, k, hD, hw, hsealed, hk⟩ := h.data m hm
    exact ⟨w, k, hD, hgrows.uses w hw, hsealed, UInt64.lt_of_lt_of_le hk (hgrows.sent w hw)⟩
  windows v hv := by
    rcases h.windows v hv with hnew | ⟨hw, hlt⟩
    · exact Or.inl hnew
    · exact Or.inr ⟨hgrows.uses _ hw, UInt64.lt_of_lt_of_le hlt (hgrows.sent _ hw)⟩

theorem receiver (hopened : Unopened q q' d d') : Traffic E y D p q' c d' inbox where
  data := h.data
  windows v hv := by
    rcases hopened v hv with hnew | ⟨hv', hsame⟩
    · exact Or.inl hnew
    · rw [hsame]
      exact h.windows v hv'

theorem thin (hsub : ∀ pkt ∈ inbox', pkt ∈ inbox) : Traffic E y D p q c d inbox' :=
  ⟨fun m hm => h.data m (hsub _ hm), h.windows⟩

theorem append {out : List Packet} (hout : ∀ m, .data m ∈ out →
      ∃ w k, D w ∧ p.uses w = true ∧ E.Sealed y w m k ∧ k < (c w).sendCounter) :
    Traffic E y D p q c d (inbox ++ out) where
  data m hm := by
    rcases mem_append.mp hm with hm | hm
    · exact h.data m hm
    · exact hout m hm
  windows := h.windows

theorem opened {w : Which} {k : UInt64} (hw : p.uses w = true) (hk : k < (c w).sendCounter)
    (huses : ∀ v, q'.uses v = q.uses v) (hcell : ∀ v, q.uses v = true → (d' v).window
      = if v = w.flip then ((d v).window.accept k).2 else (d v).window) : Traffic E y D p q' c d' inbox where
  data := h.data
  windows v hv := by
    rw [huses] at hv
    rw [hcell v hv]
    split
    next heq =>
      subst heq
      right
      rw [Which.flip_flip]
      refine ⟨hw, ?_⟩
      rcases (d w.flip).window.accept_highest k with hold | hnew
      · rw [hold]
        rcases h.windows _ hv with hfresh | ⟨-, hlt⟩
        · rw [hfresh]
          exact UInt64.lt_of_le_of_lt (UInt64.le_iff_toNat_le.mpr (Nat.zero_le _)) hk
        · rwa [Which.flip_flip] at hlt
      · rwa [hnew]
    next => exact h.windows v hv

theorem mono {D' : Which → Prop} (hD : ∀ w, D w → D' w) : Traffic E y D' p q c d inbox where
  data m hm := by
    obtain ⟨w, k, hw, hrest⟩ := h.data m hm
    exact ⟨w, k, hD w hw, hrest⟩
  windows := h.windows

end Traffic

/-! ### The relation -/

/-- The network `n` is in the abstract state `o`, the keys of its sides at `ref`; what is in flight
to side `x` was sealed under keys that `D x` allows. -/
structure Simulates (E : Exchanges R) (D : Bool → Which → Prop) (n : Net P) (o : Opening)
    (ref : Bool → Which → Ref) : Prop where
  side : ∀ x, InPhase E x (o.phase x) (ref x) (n.node x)
  init_iff : ∀ x m, .init m ∈ n.inbox x ↔ m = E.msg1 (!x) ∧ o.init (!x) = true
  response_iff : ∀ x m, .response m ∈ n.inbox x ↔ m = E.msg2 x ∧ o.response x = true
  traffic : ∀ y, Traffic E y (D !y) (o.phase y) (o.phase !y) ((n.node y).view (ref y))
    ((n.node !y).view (ref !y)) (n.inbox !y)

theorem forall_sides {p : Bool → Prop} (x : Bool) (hx : p x) (hy : p !x) : ∀ y, p y := by
  intro y
  cases x <;> cases y <;> assumption

namespace Simulates

variable {E : Exchanges R} {D : Bool → Which → Prop} {n : Net P} {o : Opening} {ref : Bool → Which → Ref}

theorem start (E : Exchanges R) (D : Bool → Which → Prop) (ref : Bool → Which → Ref) :
    Simulates E D R.start Opening.start ref where
  side x := inPhase_session E x (ref x)
  init_iff x m := by simp [Pair.start, Opening.start]
  response_iff x m := by simp [Pair.start, Opening.start]
  traffic y :=
    { data := fun m hm => absurd hm not_mem_nil
      windows := fun v hv => by cases v <;> cases hv }

variable (h : Simulates E D n o ref)
include h

theorem put {z : Bool} {p : Phase} {ref' : Which → Ref} {s : Session P}
    (hs : Proceeds E z (o.phase z) p (ref z) ref' (n.node z) s) {out : List Packet} {i r : Bool}
    (hinit : ∀ m, .init m ∈ out ↔ m = E.msg1 z ∧ i = true)
    (hresponse : ∀ m, .response m ∈ out ↔ m = E.msg2 (!z) ∧ r = true) (hdata : ∀ m, .data m ∈ out →
      ∃ w k, D (!z) w ∧ p.uses w = true ∧ E.Sealed z w m k ∧ k < (s.view ref' w).sendCounter) :
    Simulates E D (n.put z s out) ⟨update o.phase z p, update o.init z (o.init z || i),
        update o.response (!z) (o.response (!z) || r)⟩ (update ref z ref') where
  side := by
    refine forall_sides z ?_ ?_
    · simpa [Net.put] using hs.inPhase
    · simpa [Net.put] using h.side (!z)
  init_iff := by
    refine forall_sides z ?_ ?_
    · simpa [Net.put] using h.init_iff z
    · intro m
      have hold := h.init_iff (!z) m
      simp only [Net.put, update_self, Bool.not_not, mem_append, hold, hinit, Bool.or_eq_true]
      exact and_or_left.symm
  response_iff := by
    refine forall_sides z ?_ ?_
    · simpa [Net.put] using h.response_iff z
    · intro m
      simp only [Net.put, update_self, mem_append, h.response_iff, hresponse, Bool.or_eq_true]
      exact and_or_left.symm
  traffic := by
    refine forall_sides z ?_ ?_
    · have htraffic := ((h.traffic z).sender hs.grows).append hdata
      simpa [Net.put] using htraffic
    · have htraffic := (h.traffic (!z))
      simp only [Bool.not_not] at htraffic
      simpa [Net.put] using htraffic.receiver hs.unopened

theorem mono {D' : Bool → Which → Prop} (hD : ∀ x w, D x w → D' x w) : Simulates E D' n o ref :=
  ⟨h.side, h.init_iff, h.response_iff, fun y => (h.traffic y).mono (hD _)⟩

theorem opened {z : Bool} {w : Which} {k : UInt64} (hw : (o.phase !z).uses w = true)
    (hk : k < ((n.node !z).view (ref !z) w).sendCounter) {s : Session P}
    (hs : InPhase E z ((o.phase z).receive w) (ref z) s) (hflip : (o.phase z).uses w.flip = true)
    (harena : s.arena = recorded (n.node z).arena (ref z w.flip) k) (dl : Bool → ℕ) :
    Simulates E D { n.put z s [] with delivered := dl }
      ⟨update o.phase z ((o.phase z).receive w), o.init, o.response⟩ ref := by
  have huses v : ((o.phase z).receive w).uses v = (o.phase z).uses v := by
    unfold Phase.receive
    split <;> simp
  have hview : ∀ v, (o.phase z).uses v = true → s.view (ref z) v = if v = w.flip
      then { (n.node z).view (ref z) w.flip with
        window := (((n.node z).view (ref z) w.flip).window.accept k).2 }
      else (n.node z).view (ref z) v :=
    fun v hv => (h.side z).cells.view_write hflip harena hv
  refine ⟨?_, ?_, ?_, ?_⟩
  · refine forall_sides z ?_ ?_
    · simpa [Net.put] using hs
    · simpa [Net.put] using h.side (!z)
  · simpa [Net.put] using h.init_iff
  · simpa [Net.put] using h.response_iff
  · refine forall_sides z ?_ ?_
    · -- the counters this side has spent are as they were
      have hgrows : Grows (o.phase z) ((o.phase z).receive w) ((n.node z).view (ref z)) (s.view (ref z)) := by
        refine ⟨fun v hv => by rwa [huses], fun v hv => ?_⟩
        rw [hview v hv]
        split
        next heq =>
          rw [heq]
          exact UInt64.le_refl _
        next => exact UInt64.le_refl _
      simpa [Net.put] using (h.traffic z).sender hgrows
    · have htraffic := h.traffic (!z)
      simp only [Bool.not_not] at htraffic
      have hcell : ∀ v, (o.phase z).uses v = true → (s.view (ref z) v).window
          = if v = w.flip then (((n.node z).view (ref z) v).window.accept k).2
            else ((n.node z).view (ref z) v).window := by
        intro v hv
        rw [hview v hv]
        split
        next heq => rw [heq]
        next => rfl
      simpa [Net.put] using htraffic.opened hw hk huses hcell

end Simulates

/-! ### Messages taken out of flight -/

/-- `n'` is `n` with a packet to side `x` taken out of flight, or a copy of it. -/
structure Net.Taken (n : Net P) (x : Bool) (pkt : Packet) (n' : Net P) : Prop where
  node : n'.node = n.node
  delivered : n'.delivered = n.delivered
  other : n'.inbox (!x) = n.inbox (!x)
  sub : ∀ a ∈ n'.inbox x, a ∈ n.inbox x
  kept : ∀ a ∈ n.inbox x, a ≠ pkt → a ∈ n'.inbox x

theorem Net.taken_take {n : Net P} {x : Bool} {i : ℕ} {pkt : Packet}
    (h : (n.inbox x)[i]? = some pkt) : n.Taken x pkt (n.take x i) where
  node := rfl
  delivered := rfl
  other := by simp [Net.take]
  sub a ha := by
    simp only [Net.take, update_self] at ha
    exact mem_of_mem_eraseIdx ha
  kept a ha hne := by
    obtain ⟨j, hj⟩ := mem_iff_getElem?.mp ha
    simp only [Net.take, update_self]
    refine mem_eraseIdx_iff_getElem?.mpr ⟨j, ?_, hj⟩
    rintro rfl
    exact hne (Option.some.inj (hj.symm.trans h))

theorem Net.taken_copy (n : Net P) (x : Bool) (pkt : Packet) : n.Taken x pkt n :=
  ⟨rfl, rfl, rfl, fun _ h => h, fun _ h _ => h⟩

namespace Simulates

variable {E : Exchanges R} {D : Bool → Which → Prop} {n n' : Net P} {o : Opening}
  {ref : Bool → Which → Ref} {x : Bool} {pkt : Packet}

variable (h : Simulates E D n o ref)
include h

theorem taken (ht : n.Taken x pkt n') : Simulates E D n'
      ⟨o.phase, update o.init (!x) (decide (.init (E.msg1 !x) ∈ n'.inbox x)),
        update o.response x (decide (.response (E.msg2 x) ∈ n'.inbox x))⟩ ref where
  side := by simpa [ht.node] using h.side
  init_iff := by
    refine forall_sides x ?_ ?_
    · intro m
      simp only [update_self, decide_eq_true_eq]
      constructor
      · intro hm
        obtain ⟨rfl, -⟩ := (h.init_iff x m).mp (ht.sub _ hm)
        exact ⟨rfl, hm⟩
      · rintro ⟨rfl, hm⟩
        exact hm
    · simpa [ht.other] using h.init_iff (!x)
  response_iff := by
    refine forall_sides x ?_ ?_
    · intro m
      simp only [update_self, decide_eq_true_eq]
      constructor
      · intro hm
        obtain ⟨rfl, -⟩ := (h.response_iff x m).mp (ht.sub _ hm)
        exact ⟨rfl, hm⟩
      · rintro ⟨rfl, hm⟩
        exact hm
    · simpa [ht.other] using h.response_iff (!x)
  traffic := by
    refine forall_sides x ?_ ?_
    · simpa [ht.node, ht.other] using h.traffic x
    · have htraffic := h.traffic (!x)
      simp only [Bool.not_not] at htraffic
      simpa [ht.node] using htraffic.thin ht.sub

theorem init_flag (ht : n.Taken x pkt n')
    (hne : ∀ m, pkt ≠ .init m) : decide (.init (E.msg1 !x) ∈ n'.inbox x) = o.init (!x) := by
  rw [Bool.eq_iff_iff, decide_eq_true_eq]
  constructor
  · intro hm
    exact ((h.init_iff x _).mp (ht.sub _ hm)).2
  · intro hflag
    exact ht.kept _ ((h.init_iff x _).mpr ⟨rfl, hflag⟩) (hne _).symm

theorem response_flag (ht : n.Taken x pkt n')
    (hne : ∀ m, pkt ≠ .response m) : decide (.response (E.msg2 x) ∈ n'.inbox x) = o.response x := by
  rw [Bool.eq_iff_iff, decide_eq_true_eq]
  constructor
  · intro hm
    exact ((h.response_iff x _).mp (ht.sub _ hm)).2
  · intro hflag
    exact ht.kept _ ((h.response_iff x _).mpr ⟨rfl, hflag⟩) (hne _).symm

theorem taken_data {m : Bytes} (ht : n.Taken x (.data m) n') : Simulates E D n' o ref := by
  have htaken := h.taken ht
  rw [h.init_flag ht nofun, h.response_flag ht nofun, update_eq_self, update_eq_self] at htaken
  exact htaken

end Simulates

/-! ### One event -/

/-- What an event does to the abstract state, and to the count of delivered messages. -/
inductive Outcome (D : Bool → Which → Prop) (winner : Bool) (o o' : Opening) (k k' : Bool → ℕ) : Prop
  | stay (ho : o' = o) (hk : k' = k)
  | move (h : Opening.Move winner o o') (hk : k' = k)
  | receive (z : Bool) (w : Which) (hD : D z w) (huses : (o.phase !z).uses w = true)
      (ho : o' = ⟨Function.update o.phase z ((o.phase z).receive w), o.init, o.response⟩)
      (hk : k' = Function.update k z (k z + 1))

theorem Outcome.stays_or_moves {D : Bool → Which → Prop} {winner : Bool} {o o' : Opening}
    {k k' : Bool → ℕ} (h : Outcome D winner o o' k k') : o' = o ∨ Opening.Move winner o o' := by
  cases h with
  | stay ho hk => exact Or.inl ho
  | move h hk => exact Or.inr h
  | receive z w hD huses ho hk =>
    cases w with
    | own =>
      right
      rw [ho]
      exact .prove z huses
    | theirs =>
      left
      rw [ho]
      show Opening.mk (update o.phase z (o.phase z)) o.init o.response = o
      rw [update_eq_self]

namespace Simulates

variable {E : Exchanges R} {D : Bool → Which → Prop} {n : Net P} {o : Opening} {ref : Bool → Which → Ref}

variable {z : Bool} {p : Phase} {ref' : Which → Ref} {s : Session P}

variable (h : Simulates E D n o ref)
include h

theorem put_init (hs : Proceeds E z (o.phase z) p (ref z) ref' (n.node z) s) :
    Simulates E D (n.put z s [.init (E.msg1 z)]) ⟨update o.phase z p, update o.init z true, o.response⟩
      (update ref z ref') := by
  have hput : Simulates E D (n.put z s [.init (E.msg1 z)]) _ _ :=
    h.put (i := true) (r := false) hs (by simp) (by simp) (by simp)
  simpa using hput

theorem put_response (hs : Proceeds E z (o.phase z) p (ref z) ref' (n.node z) s) :
    Simulates E D (n.put z s [.response (E.msg2 !z)])
      ⟨update o.phase z p, o.init, update o.response (!z) true⟩ (update ref z ref') := by
  have hput : Simulates E D (n.put z s [.response (E.msg2 !z)]) _ _ :=
    h.put (i := false) (r := true) hs (by simp) (by simp) (by simp)
  simpa using hput

theorem put_data (hs : Proceeds E z (o.phase z) p (ref z) ref' (n.node z) s) {out : List Packet}
    (hout : ∀ pkt ∈ out, ∃ m, pkt = .data m ∧ ∃ w k, D (!z) w ∧ p.uses w = true ∧ E.Sealed z w m k
      ∧ k < (s.view ref' w).sendCounter) :
    Simulates E D (n.put z s out) ⟨update o.phase z p, o.init, o.response⟩ (update ref z ref') := by
  have hinit : ∀ m, .init m ∈ out ↔ m = E.msg1 z ∧ false = true := by
    refine fun m => ⟨fun hm => ?_, by simp⟩
    obtain ⟨m', hm', -⟩ := hout _ hm
    cases hm'
  have hresponse : ∀ m, .response m ∈ out ↔ m = E.msg2 (!z) ∧ false = true := by
    refine fun m => ⟨fun hm => ?_, by simp⟩
    obtain ⟨m', hm', -⟩ := hout _ hm
    cases hm'
  have hput := h.put hs hinit hresponse fun m hm => by
    obtain ⟨m', hm', hsealed⟩ := hout _ hm
    cases hm'
    exact hsealed
  simpa using hput

theorem put_same (hs : Proceeds E z (o.phase z) (o.phase z) (ref z) ref' (n.node z) s) :
    Simulates E D (n.put z s []) o (update ref z ref') := by
  have hput : Simulates E D (n.put z s []) _ _ := h.put_data hs nofun
  rwa [update_eq_self] at hput

/-- An event of the run has an abstract counterpart. -/
def Steps (E : Exchanges R) (D : Bool → Which → Prop) (o : Opening) (n n' : Net P) : Prop :=
  ∃ o' ref', Outcome D R.winner o o' n.delivered n'.delivered ∧ Simulates E D n' o' ref'

theorem step_dial (x : Bool) (now : ℕ) : Steps E D o n (n.step R (.dial x now)) := by
  by_cases hidle : o.phase x = .idle
  · have hside := h.side x
    rw [hidle] at hside
    obtain ⟨hin, hout, harena⟩ := hside.connect now
    have hisIdle : (n.node x).isIdle = true := by
      rw [Session.isIdle, hside.state_of_not_awaiting rfl]
      rfl
    have hproceeds : Proceeds E x (o.phase x) .dialing (ref x) (ref x) (n.node x)
        ((n.node x).connect now (R.seed x)).1 :=
      .of_arena hin harena fun w => by cases w <;> simp [hidle, Phase.uses, Phase.layout]
    simp only [Net.step, hisIdle, hout, if_true]
    exact ⟨_, _, .move (.dial x hidle) rfl, h.put_init hproceeds⟩
  · obtain ⟨hsame, hnot⟩ := (h.side x).connect_other hidle now (R.seed x)
    simp only [Net.step, hsame, hnot, Bool.false_eq_true, if_false]
    exact ⟨o, _, .stay rfl rfl, h.put_same (.of_arena (h.side x) rfl fun _ => rfl)⟩

variable {x : Bool}

theorem step_poll {now : ℕ} {seed : Seed} (hok : n.permitted (.poll x now seed) = true) :
    Steps E D o n (n.step R (.poll x now seed)) := by
  simp only [Net.permitted, Bool.and_eq_true, Bool.not_eq_true'] at hok
  obtain ⟨hproceeds, hout | ⟨ha, hout⟩⟩ := (h.side x).poll hok.1 hok.2 seed
  · simp only [Net.step, hout]
    exact ⟨o, _, .stay rfl rfl, h.put_same hproceeds⟩
  · have hput := h.put_init hproceeds
    rw [update_eq_self] at hput
    simp only [Net.step, hout]
    exact ⟨_, _, .move (.resend x ha) rfl, hput⟩

theorem step_send (hP : P.Correct) (hE : E.Separate)
    (hD : ∀ y l, (o.phase y).layout = some l → D (!y) l.current) {payload : Bytes} {now : ℕ}
    (hok : n.permitted (.send x payload now) = true) : Steps E D o n (n.step R (.send x payload now)) := by
  have hseal : (n.node x).canSeal now = true := hok
  obtain ⟨hproceeds, hcounter⟩ := (h.side x).send hseal payload rfl
  have hput : Simulates E D (n.step R (.send x payload now)) _ _ :=
    h.put_data hproceeds fun pkt hpkt => by
      obtain ⟨l, m, hl, rfl, hsealed⟩ := (h.side x).dataPackets hP hE hpkt
      refine ⟨m, rfl, l.current, _, hD x l hl, Phase.uses_current hl, hsealed, ?_⟩
      rw [UInt64.lt_iff_toNat_lt, hcounter l hl]
      exact Nat.lt_succ_self _
  rw [update_eq_self] at hput
  exact ⟨o, _, .stay rfl rfl, hput⟩

theorem step_lose {i : ℕ} (hok : n.permitted (.lose x i) = true) : Steps E D o n (n.step R (.lose x i)) := by
  cases hget : (n.inbox x)[i]? with
  | none =>
    have hsame : n.take x i = n := by
      have hlen : (n.inbox x).length ≤ i := getElem?_eq_none_iff.mp hget
      simp [Net.take, eraseIdx_of_length_le hlen]
    exact ⟨o, ref, .stay rfl rfl, by simpa only [Net.step, hsame] using h⟩
  | some pkt =>
    have hdata : pkt.isData = true := by simpa [Net.permitted, hget] using hok
    cases pkt with
    | data m => exact ⟨o, ref, .stay rfl rfl, h.taken_data (Net.taken_take hget)⟩
    | init m | response m => cases hdata

omit h

section

variable {x : Bool} {n' : Net P} {m : Bytes}

variable (h : Simulates E D n o ref)
include h

theorem receive_init (ht : n.Taken x (.init m) n')
    (hmem : .init m ∈ n.inbox x) (now : ℕ) : Steps E D o n (n'.receive R x (.init m) now) := by
  obtain ⟨rfl, hflag⟩ := (h.init_iff x m).mp hmem
  have htaken := h.taken ht
  rw [h.response_flag ht nofun, update_eq_self] at htaken
  obtain ⟨⟨ref', hproceeds⟩, hout⟩ := (htaken.side x).respondTo now rfl
  have hmove : Opening.Move R.winner o _ :=
    .answer (!x) (decide (.init (E.msg1 !x) ∈ n'.inbox x)) hflag
  rw [Bool.not_not] at hmove
  simp only [Net.receive, hout]
  exact ⟨_, _, .move hmove ht.delivered, htaken.put_response hproceeds⟩

theorem receive_response (hdistinct : P.toBytes (R.keys false).kemPk ≠ P.toBytes (R.keys true).kemPk)
    (ht : n.Taken x (.response m) n') (hmem : .response m ∈ n.inbox x) (now : ℕ) :
    Steps E D o n (n'.receive R x (.response m) now) := by
  obtain ⟨rfl, hflag⟩ := (h.response_iff x m).mp hmem
  have htaken := h.taken ht
  rw [h.init_flag ht nofun, update_eq_self] at htaken
  obtain ⟨ref', hproceeds⟩ := (htaken.side x).response hdistinct now
  exact ⟨_, _, .move (.finish x _ hflag) ht.delivered, htaken.put_data hproceeds nofun⟩

theorem of_delivered (dl : Bool → ℕ) : Simulates E D { n with delivered := dl } o ref :=
  ⟨h.side, h.init_iff, h.response_iff, h.traffic⟩

theorem receive_data (ht : n.Taken x (.data m) n')
    (hmem : .data m ∈ n.inbox x) {now : ℕ} (htimely : (n.node x).timely now = true) :
    Steps E D o n (n'.receive R x (.data m) now) := by
  have htaken := h.taken_data ht
  obtain ⟨w, k, hD, hw, hsealed, hk⟩ := (h.traffic (!x)).data m (by rwa [Bool.not_not])
  rw [Bool.not_not] at hD
  rw [← ht.node] at htimely hk
  simp only [Net.receive]
  rcases (htaken.side x).data htimely hsealed rfl with ⟨hsame, hcount⟩ | ⟨hflip, hin, harena, hcount⟩
  · rw [hsame, hcount, Nat.add_zero, update_eq_self]
    exact ⟨o, _, .stay rfl ht.delivered,
      (htaken.put_same (.of_arena (htaken.side x) rfl fun _ => rfl)).of_delivered _⟩
  · rw [hcount]
    exact ⟨_, ref, .receive x w hD hw rfl (by rw [ht.delivered]),
      htaken.opened hw hk hin hflip harena _⟩

end

/-- **The simulation.**  Every permitted event is a move of the abstract protocol, or none. -/
theorem step (h : Simulates E D n o ref) (hP : P.Correct) (hE : E.Separate)
    (hdistinct : P.toBytes (R.keys false).kemPk ≠ P.toBytes (R.keys true).kemPk)
    (hD : ∀ y l, (o.phase y).layout = some l → D (!y) l.current) {ev : Net.Event}
    (hok : n.permitted ev = true) : Steps E D o n (n.step R ev) := by
  cases ev with
  | dial x now => exact h.step_dial x now
  | poll x now seed => exact h.step_poll hok
  | send x payload now => exact h.step_send hP hE hD hok
  | lose x i => exact h.step_lose hok
  | arrive x i keep now =>
    cases hget : (n.inbox x)[i]? with
    | none =>
      simp only [Net.step, hget]
      exact ⟨o, ref, .stay rfl rfl, h⟩
    | some pkt =>
      have hmem : pkt ∈ n.inbox x := mem_of_getElem? hget
      have htaken : n.Taken x pkt (if keep then n else n.take x i) := by
        cases keep with
        | true => exact n.taken_copy x pkt
        | false => exact Net.taken_take hget
      simp only [Net.step, hget]
      cases pkt with
      | init m => exact h.receive_init htaken hmem now
      | response m => exact h.receive_response hdistinct htaken hmem now
      | data m => exact h.receive_data htaken hmem hok

end Simulates

end Karst.Node
