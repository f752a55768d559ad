import Karst.Foundations.Readers

/-!
# Readers that fail late

A cursor with a sticky error reads on after a failure, returns defaults, and is asked once at the end
whether it failed.  `Simulates c r` says that such a reader does what the reader `r` does, which stops
at its first failure: it returns the same where `r` succeeds, and ends in an error where `r` fails.
-/

namespace Karst

/-- What is left to read, and whether a read has failed. -/
structure StickyCursor where
  rest : Bytes
  err : Bool

abbrev StickyReader (ε : Type) := StateT StickyCursor (Except ε)

namespace StickyReader

variable {ε ε' α β : Type}

def fail : StickyReader ε Unit := modify fun c => { c with err := true }

def failed : StickyReader ε Bool := return (← get).err

/-- `n` bytes, as `f` reads them; `d` where there are none to read. -/
def read (n : ℕ) (f : Bytes → α) (d : α) : StickyReader ε α := do
  let c ← get
  if c.err then return d else
  if c.rest.length < n then do fail; return d else
  set ({ c with rest := c.rest.drop n } : StickyCursor)
  return f (c.rest.take n)

def done : StickyReader ε Bool := do
  let c ← get
  return !c.err && c.rest.isEmpty

def run (c : StickyReader ε α) (b : Bytes) : Except ε α := c.run' ⟨b, false⟩

/-- An error, now or pending. -/
def Fails (x : Except ε (α × StickyCursor)) : Prop := ∀ a c, x = .ok (a, c) → c.err = true

/-- `c` succeeds where `r` does and as it does, fails where `r` does, and stays failed. -/
structure Simulates (c : StickyReader ε α) (r : Reader ε' α) : Prop where
  ok : ∀ b a rest, r b = .ok (a, rest) → c ⟨b, false⟩ = .ok (a, ⟨rest, false⟩)
  fails : ∀ b e, r b = .error e → Fails (c ⟨b, false⟩)
  sticky : ∀ b, Fails (c ⟨b, true⟩)

/-! ### The rules -/

theorem fails_error (e : ε) : Fails (.error e : Except ε (α × StickyCursor)) := fun _ _ h => by cases h

theorem fails_ok (a : α) (b : Bytes) : Fails (.ok (a, ⟨b, true⟩) : Except ε (α × StickyCursor)) := by
  intro a' c h
  cases h
  rfl

variable {c : StickyReader ε α} {f : α → StickyReader ε β}

theorem Fails.bind {s : StickyCursor} (h : Fails (c s)) (hf : ∀ a b, Fails (f a ⟨b, true⟩)) :
    Fails ((c >>= f) s) := by
  show Fails (c s >>= fun x => f x.1 x.2)
  cases hc : c s with
  | error e => exact fails_error e
  | ok x =>
    obtain ⟨a, ⟨b, err⟩⟩ := x
    obtain rfl : err = true := h a _ hc
    exact hf a b

theorem simulates_pure {a : α} : Simulates (pure a : StickyReader ε α) (pure a : Reader ε' α) where
  ok b a' rest h := by
    cases h
    rfl
  fails b e h := by cases h
  sticky b := fails_ok a b

theorem simulates_throw (e : ε) (e' : ε') :
    Simulates (throw e : StickyReader ε α) (throw e' : Reader ε' α) where
  ok b a rest h := by cases h
  fails b _ _ := fails_error e
  sticky b := fails_error e

variable {r : Reader ε' α}

theorem Simulates.bind (h : Simulates c r) {g : α → Reader ε' β} (hf : ∀ a, Simulates (f a) (g a)) :
    Simulates (c >>= f) (r >>= g) where
  ok b v rest hrun := by
    obtain ⟨⟨a, mid⟩, hr, hg⟩ := Karst.bind_eq_ok.mp hrun
    show (c ⟨b, false⟩ >>= fun x => f x.1 x.2) = _
    rw [h.ok b a mid hr]
    exact (hf a).ok mid v rest hg
  fails b e hrun := by
    have hrun : (r b >>= fun x => g x.1 x.2) = .error e := hrun
    cases hr : r b with
    | error e' => exact (h.fails b e' hr).bind fun a b => (hf a).sticky b
    | ok x =>
      obtain ⟨a, mid⟩ := x
      rw [hr] at hrun
      show Fails (c ⟨b, false⟩ >>= fun x => f x.1 x.2)
      rw [h.ok b a mid hr]
      exact (hf a).fails mid e hrun
  sticky b := (h.sticky b).bind fun a b => (hf a).sticky b

variable {d : StickyReader ε α} {p : Prop} {e : ε'}

theorem Simulates.guard (h : Simulates c r) [Decidable p] (hd : ∀ s, Fails (d s)) {f : PUnit → Reader ε' α} :
    Simulates (if p then d else c) (if p then (throw e : Reader ε' PUnit) >>= f else r) := by
  by_cases hp : p
  · rw [if_pos hp, if_pos hp]
    exact ⟨fun b a rest hrun => (by cases hrun), fun b _ _ => hd _, fun b => hd _⟩
  · rw [if_neg hp, if_neg hp]
    exact h

theorem Simulates.guardOr {q : Prop} [Decidable p] [Decidable q] {f : PUnit → Reader ε' α}
    (h : Simulates c (if q then (throw e : Reader ε' PUnit) >>= f else r)) (hd : ∀ s, Fails (d s)) :
    Simulates (if p then d else c) (if p ∨ q then (throw e : Reader ε' PUnit) >>= f else r) := by
  rw [ite_or]
  exact h.guard hd

theorem Simulates.guardBoth (h : Simulates c r) {q : Prop} [Decidable p] [Decidable q]
    (hd : ∀ s, Fails (d s)) {f f' : PUnit → Reader ε' α} : Simulates (if p ∨ q then d else c)
      (if p then (throw e : Reader ε' PUnit) >>= f
        else if q then (throw e : Reader ε' PUnit) >>= f' else r) := by
  rw [ite_or]
  exact (h.guard hd).guard hd

theorem fails_throw {e : ε} (s : StickyCursor) : Fails ((throw e : StickyReader ε α) s) :=
  fails_error e

theorem fails_fail (a : α) (s : StickyCursor) :
    Fails ((do fail; return a : StickyReader ε α) s) := fails_ok a s.rest

theorem Simulates.unlessFailed (h : Simulates c r) (hd : ∀ b, Fails (d ⟨b, true⟩)) :
    Simulates (do if ← failed then d else c) r where
  ok b a rest hrun := h.ok b a rest hrun
  fails b e hrun := h.fails b e hrun
  sticky b := hd b

theorem simulates_read (n : ℕ) (f : Bytes → α) (d : α) (e : ε') :
    Simulates (read n f d : StickyReader ε α) (Reader.take e n >>= fun b => pure (f b)) where
  ok b a rest hrun := by
    obtain ⟨⟨x, mid⟩, htake, hlast⟩ := Karst.bind_eq_ok.mp hrun
    obtain ⟨hlen, rfl⟩ := (Reader.inverts_take e n b x mid).mp htake
    cases hlast
    have hfits : ¬ (x ++ rest).length < n := by
      rw [List.length_append]
      omega
    show (if (x ++ rest).length < n then _ else _ : StickyReader ε α) ⟨x ++ rest, false⟩ = _
    rw [if_neg hfits]
    show Except.ok (f ((x ++ rest).take n), (⟨(x ++ rest).drop n, false⟩ : StickyCursor)) = _
    rw [← hlen, List.take_left, List.drop_left]
  fails b e' hrun := by
    have hshort : b.length < n := by
      by_contra hlen
      have htake : Reader.take e n b = .ok (b.take n, b.drop n) :=
        (Reader.inverts_take e n b _ _).mpr
          ⟨List.length_take_of_le (Nat.not_lt.mp hlen), (List.take_append_drop n b).symm⟩
      have hrun : (Reader.take e n b >>= fun x => Except.ok (f x.1, x.2)) = .error e' := hrun
      rw [htake] at hrun
      cases hrun
    show Fails ((if b.length < n then _ else _ : StickyReader ε α) ⟨b, false⟩)
    rw [if_pos hshort]
    exact fails_fail d _
  sticky b := fails_ok d b

theorem simulates_lift {x : Except ε α} {y : Except ε' α} (h : ∀ a, x = .ok a ↔ y = .ok a) :
    Simulates (liftM x : StickyReader ε α) (liftM y : Reader ε' α) := by
  cases hy : y with
  | ok a =>
    have hx : x = .ok a := (h a).mpr hy
    rw [hx]
    exact simulates_pure
  | error e =>
    cases hx : x with
    | ok a =>
      rw [(h a).mp hx] at hy
      cases hy
    | error e' => exact simulates_throw e' e

/-! ### Acceptance -/

/-- `c` does not return with its cursor in error. -/
def Sealed (c : StickyReader ε α) : Prop := ∀ s a s', c s = .ok (a, s') → s'.err = false

theorem Sealed.bind {c : StickyReader ε α} (h : ∀ a, Sealed (f a)) : Sealed (c >>= f) := by
  intro s v s' hrun
  obtain ⟨⟨a, mid⟩, -, hf⟩ := Karst.bind_eq_ok.mp hrun
  exact h a mid v s' hf

theorem Sealed.unless (h : Sealed c) [Decidable p] (e : ε) : Sealed (if p then throw e else c) := by
  by_cases hp : p
  · rw [if_pos hp]
    exact fun s a s' hrun => by cases hrun
  · rw [if_neg hp]
    exact h

theorem sealed_done {e : ε} (h : ∀ s a s', c s = .ok (a, s') → s' = s) :
    Sealed (do if !(← done) then throw e else c) := by
  intro s a s' hrun
  have hrun : (if !(!s.err && s.rest.isEmpty) then throw e else c : StickyReader ε α) s = .ok (a, s') := hrun
  by_cases hdone : (!(!s.err && s.rest.isEmpty)) = true
  · rw [if_pos hdone] at hrun
    cases hrun
  · rw [if_neg hdone] at hrun
    have hclean : s.err = false ∧ s.rest = [] := by simpa using hdone
    rw [h s a s' hrun]
    exact hclean.1

theorem Simulates.run_eq_ok (h : Simulates c r) (hs : Sealed c) {b : Bytes} {a : α} :
    run c b = .ok a ↔ Reader.parse r b = .ok a := by
  rw [Reader.parse_eq_ok]
  have hrun : run c b = (c ⟨b, false⟩).map Prod.fst := rfl
  rw [hrun, Karst.map_eq_ok]
  constructor
  · intro hc
    obtain ⟨⟨v, s⟩, hc, rfl⟩ := hc
    cases hr : r b with
    | error e =>
      have herr := h.fails b e hr v s hc
      rw [hs _ v s hc] at herr
      cases herr
    | ok x =>
      obtain ⟨a, rest⟩ := x
      rw [h.ok b a rest hr] at hc
      cases hc
      exact ⟨rest, rfl⟩
  · intro hr
    obtain ⟨rest, hr⟩ := hr
    exact ⟨_, h.ok b a rest hr, rfl⟩

end StickyReader

end Karst
