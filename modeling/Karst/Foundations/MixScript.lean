import Mathlib

/-!
# Transcript key schedules and what they bind

A Noise-style key schedule keeps a transcript hash `h` and a chaining key `ck`, and changes them
by three moves: hash a field into the transcript, ratchet the chaining key with a secret, or do
both with a tag derived from the ratchet.  A `Mix` is one move, a script is a list of them, and
`Schedule.run` performs a script.

What must two parties who arrive at the same transcript hash have agreed on?  `run_injective` and
`run_injective_tagged` answer: on the script.  Collision freedom is asked only of the inputs the two
runs evaluate (`CollisionFree`), which a fixed-length hash can satisfy.
-/

namespace Karst.MixScript

open List hiding Vector

variable {β κ : Type*}

/-- The primitives of a schedule: the transcript hash, the two-output ratchet (next chaining key,
message key) and the three-output ratchet (next chaining key, transcript tag, message key). -/
structure Schedule (β κ : Type*) where
  digest : List β → List β
  ratchet : κ → List β → κ × κ
  ratchetTag : κ → List β → κ × List β × κ

/-- Chaining key, current message key, transcript hash. -/
structure State (β κ : Type*) where
  ck : κ
  k : Option κ
  h : List β

inductive Mix (β : Type*) where
  | hash (data : List β)
  | key (input : List β)
  | keyAndHash (input : List β)

def Mix.SameKind : Mix β → Mix β → Prop
  | .hash _, .hash _ => True
  | .key _, .key _ => True
  | .keyAndHash _, .keyAndHash _ => True
  | _, _ => False

namespace Schedule

variable (S : Schedule β κ)

def step (s : State β κ) : Mix β → State β κ
  | .hash d => { s with h := S.digest (s.h ++ d) }
  | .key x => { s with ck := (S.ratchet s.ck x).1, k := some (S.ratchet s.ck x).2 }
  | .keyAndHash x =>
    { ck := (S.ratchetTag s.ck x).1
      k := some (S.ratchetTag s.ck x).2.2
      h := S.digest (s.h ++ (S.ratchetTag s.ck x).2.1) }

def run (s : State β κ) (ms : List (Mix β)) : State β κ := ms.foldl S.step s

def hashed (s : State β κ) : Mix β → List (List β)
  | .hash d => [s.h ++ d]
  | .key _ => []
  | .keyAndHash x => [s.h ++ (S.ratchetTag s.ck x).2.1]

def ratcheted (s : State β κ) : Mix β → List (κ × List β)
  | .key x => [(s.ck, x)]
  | _ => []

def tagged (s : State β κ) : Mix β → List (κ × List β)
  | .keyAndHash x => [(s.ck, x)]
  | _ => []

def trace {γ : Type*} (q : State β κ → Mix β → List γ) : State β κ → List (Mix β) → List γ
  | _, [] => []
  | s, m :: ms => q s m ++ trace q (S.step s m) ms

theorem run_append (s : State β κ) (ms ms' : List (Mix β)) :
    S.run s (ms ++ ms') = S.run (S.run s ms) ms' := by
  simp [run]

theorem run_concat (s : State β κ) (ms : List (Mix β)) (m : Mix β) :
    S.run s (ms ++ [m]) = S.step (S.run s ms) m := by
  simp [run]

theorem run_cons (s : State β κ) (m : Mix β) (ms : List (Mix β)) :
    S.run s (m :: ms) = S.run (S.step s m) ms := rfl

@[simp] theorem run_nil (s : State β κ) : S.run s [] = s := rfl

theorem trace_append {γ : Type*} (q : State β κ → Mix β → List γ) (s : State β κ) (ms ms' : List (Mix β)) :
    S.trace q s (ms ++ ms') = S.trace q s ms ++ S.trace q (S.run s ms) ms' := by
  induction ms generalizing s with
  | nil => rfl
  | cons m ms ih => simp only [cons_append, trace, ih, append_assoc, run_cons]

/-- Neither the hash nor a ratchet collides on the inputs the two runs evaluate: the hash in its
digest, the two-output ratchet in its chaining key, the three-output ratchet in its tag. -/
structure CollisionFree (s : State β κ) (ms ms' : List (Mix β)) : Prop where
  digest : ∀ x ∈ S.trace S.hashed s ms, ∀ y ∈ S.trace S.hashed s ms', S.digest x = S.digest y → x = y
  ratchet : ∀ x ∈ S.trace ratcheted s ms, ∀ y ∈ S.trace ratcheted s ms',
    (S.ratchet x.1 x.2).1 = (S.ratchet y.1 y.2).1 → x = y
  tag : ∀ x ∈ S.trace tagged s ms, ∀ y ∈ S.trace tagged s ms',
    (S.ratchetTag x.1 x.2).2.1 = (S.ratchetTag y.1 y.2).2.1 → x = y

variable {S}

variable {s : State β κ} {ms ms' : List (Mix β)}

theorem CollisionFree.of_append {ns ns' : List (Mix β)}
    (h : S.CollisionFree s (ms ++ ns) (ms' ++ ns')) : S.CollisionFree s ms ms' := by
  refine ⟨fun x hx y hy => h.digest x ?_ y ?_, fun x hx y hy => h.ratchet x ?_ y ?_,
    fun x hx y hy => h.tag x ?_ y ?_⟩ <;>
  · rw [trace_append]
    exact mem_append_left _ ‹_›

variable {d d' : List β}

theorem forall₂_of_concat {γ δ : Type*} {R : γ → δ → Prop} {l : List γ} {l' : List δ} {a : γ} {b : δ}
    (h : Forall₂ R (l ++ [a]) (l' ++ [b])) : Forall₂ R l l' ∧ R a b := by
  have hlen : l'.length = l.length := by simpa using h.length_eq.symm
  have hinit := forall₂_take_append _ _ _ h
  have hlast := forall₂_drop_append _ _ _ h
  rw [hlen, take_left] at hinit
  rw [hlen, drop_left] at hlast
  exact ⟨hinit, by simpa using hlast⟩

variable {L : ℕ} (hL : ∀ x, (S.digest x).length = L)

include hL in
theorem run_h_length (hs : s.h.length = L) (ms : List (Mix β)) : (S.run s ms).h.length = L := by
  induction ms generalizing s with
  | nil => exact hs
  | cons m ms ih =>
    apply ih
    cases m with
    | hash d => exact hL _
    | key x => exact hs
    | keyAndHash x => exact hL _

include hL in
theorem CollisionFree.last_hashed (hs : s.h.length = L) {m m' : Mix β}
    (hc : S.CollisionFree s (ms ++ [m]) (ms' ++ [m'])) (hd : (S.run s ms).h ++ d ∈ S.hashed (S.run s ms) m)
    (hd' : (S.run s ms').h ++ d' ∈ S.hashed (S.run s ms') m')
    (he : S.digest ((S.run s ms).h ++ d) = S.digest ((S.run s ms').h ++ d')) :
    (S.run s ms).h = (S.run s ms').h ∧ d = d' := by
  have hlen := (run_h_length hL hs ms).trans (run_h_length hL hs ms').symm
  refine append_inj ?_ hlen
  apply hc.digest _ ?_ _ ?_ he
  · rw [trace_append]
    exact mem_append_right _ (by simpa [trace] using hd)
  · rw [trace_append]
    exact mem_append_right _ (by simpa [trace] using hd')

variable {x x' : List β}

theorem CollisionFree.last_tagged
    (hc : S.CollisionFree s (ms ++ [Mix.keyAndHash x]) (ms' ++ [Mix.keyAndHash x']))
    (he : (S.ratchetTag (S.run s ms).ck x).2.1 = (S.ratchetTag (S.run s ms').ck x').2.1) :
    (S.run s ms).ck = (S.run s ms').ck ∧ x = x' := by
  have := hc.tag ((S.run s ms).ck, x) (by rw [trace_append]; simp [trace, tagged])
    ((S.run s ms').ck, x') (by rw [trace_append]; simp [trace, tagged]) he
  simpa using this

theorem CollisionFree.last_ratcheted (hc : S.CollisionFree s (ms ++ [Mix.key x]) (ms' ++ [Mix.key x']))
    (he : (S.ratchet (S.run s ms).ck x).1 = (S.ratchet (S.run s ms').ck x').1) :
    (S.run s ms).ck = (S.run s ms').ck ∧ x = x' := by
  have := hc.ratchet ((S.run s ms).ck, x) (by rw [trace_append]; simp [trace, ratcheted])
    ((S.run s ms').ck, x') (by rw [trace_append]; simp [trace, ratcheted]) he
  simpa using this

include hL in
/-- **Transcripts bind scripts.**  Two scripts of one shape that end with the same transcript hash
and the same chaining key, with no collision on the way, are the same script. -/
theorem run_injective (hs : s.h.length = L) (hk : Forall₂ Mix.SameKind ms ms')
    (hc : S.CollisionFree s ms ms') (hh : (S.run s ms).h = (S.run s ms').h)
    (hck : (S.run s ms).ck = (S.run s ms').ck) : ms = ms' := by
  -- peel the last move off both scripts: the earlier moves then meet at the same state
  induction ms using reverseRecOn generalizing ms' with
  | nil => cases hk; rfl
  | append_singleton ms m ih =>
    rcases ms'.eq_nil_or_concat with rfl | ⟨ns, n, hns⟩
    · simpa using hk.length_eq
    · rw [concat_eq_append] at hns
      subst hns
      obtain ⟨hkms, hkm⟩ := forall₂_of_concat hk
      have hc' := hc.of_append
      rw [run_concat, run_concat] at hh hck
      -- the constructors agree, so three of the nine pairs survive
      cases m <;> cases n <;> first | exact hkm.elim | skip
      case hash.hash d d' =>
        obtain ⟨h1, rfl⟩ := hc.last_hashed hL hs (by simp [hashed]) (by simp [hashed]) hh
        rw [ih hkms hc' h1 hck]
      case key.key x x' =>
        obtain ⟨h1, rfl⟩ := hc.last_ratcheted hck
        rw [ih hkms hc' hh h1]
      case keyAndHash.keyAndHash x x' =>
        obtain ⟨h1, htag⟩ := hc.last_hashed hL hs (by simp [hashed]) (by simp [hashed]) hh
        obtain ⟨h2, rfl⟩ := hc.last_tagged htag
        rw [ih hkms hc' h1 h2]

include hL in
/-- **A tagged ratchet binds the chaining key too.**  When a script ends in a three-output ratchet
and one more hashed field, the transcript hash alone determines it. -/
theorem run_injective_tagged (hs : s.h.length = L) (hk : Forall₂ Mix.SameKind ms ms')
    (hc : S.CollisionFree s (ms ++ [Mix.keyAndHash x] ++ [Mix.hash d])
      (ms' ++ [Mix.keyAndHash x'] ++ [Mix.hash d']))
    (hh : (S.run s (ms ++ [Mix.keyAndHash x] ++ [Mix.hash d])).h
      = (S.run s (ms' ++ [Mix.keyAndHash x'] ++ [Mix.hash d'])).h) :
    ms = ms' ∧ x = x' ∧ d = d' := by
  rw [run_concat S s (ms ++ [Mix.keyAndHash x]), run_concat S s (ms' ++ [Mix.keyAndHash x'])] at hh
  obtain ⟨h1, rfl⟩ := hc.last_hashed hL hs (by simp [hashed]) (by simp [hashed]) hh
  rw [run_concat, run_concat] at h1
  obtain ⟨h2, htag⟩ := hc.of_append.last_hashed hL hs (by simp [hashed]) (by simp [hashed]) h1
  obtain ⟨h3, rfl⟩ := hc.of_append.last_tagged htag
  exact ⟨run_injective hL hs hk hc.of_append.of_append h2 h3, rfl, rfl⟩

end Schedule

end Karst.MixScript
