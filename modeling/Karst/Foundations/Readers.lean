import Karst.Foundations.ByteStrings
import Karst.Foundations.Fallible

/-!
# Readers

A reader takes a value off the front of a byte string, or fails.  A wire format is canonical when its
reader and its writer are inverse to one another, and that is one equivalence: `Inverts c enc ok` says
that `c` reads `b` as `a` exactly if `a` is within the format's limits and `b` is the encoding of `a`
followed by what is left.
-/

namespace Karst

open Except
open List hiding Vector

abbrev Reader (ε : Type) := StateT Bytes (Except ε)

namespace Reader

variable {ε α β : Type}

def take (e : ε) (n : ℕ) : Reader ε Bytes := fun rest => okOr e (cut n rest)

def many (c : Reader ε α) : ℕ → Reader ε (List α)
  | 0 => return []
  | n + 1 => do
    let a ← c
    let as ← many c n
    return a :: as

def parse (c : Reader ε α) (b : Bytes) : Except ε α := c.run' b

theorem bind_apply (c : Reader ε α) (f : α → Reader ε β) (b : Bytes) :
    (c >>= f) b = (c b >>= fun x => f x.1 x.2) := rfl

theorem pure_apply (a : α) (b : Bytes) : (pure a : Reader ε α) b = .ok (a, b) := rfl

/-! ### Readers of a prefix -/

/-- `c` reads the encodings of the values that are `ok`, nothing else, and leaves what follows. -/
def Inverts (c : Reader ε α) (enc : α → Bytes) (ok : α → Prop) : Prop :=
  ∀ b a rest, c b = .ok (a, rest) ↔ ok a ∧ b = enc a ++ rest

section

variable {c : Reader ε α} {enc : α → Bytes} {ok : α → Prop}

theorem inverts_pure (a : α) : Inverts (pure a : Reader ε α) (fun _ => []) (· = a) := by
  intro b a' rest
  rw [pure_apply, ok.injEq, Prod.mk.injEq, nil_append, eq_comm (a := a)]

theorem inverts_take (e : ε) (n : ℕ) : Inverts (take e n) (fun b => b) (·.length = n) := by
  intro b a rest
  rw [take, okOr_eq_ok, cut_eq_some_iff]
  exact and_comm

theorem Inverts.congr (h : Inverts c enc ok) {enc' : α → Bytes} {ok' : α → Prop}
    (hok : ∀ a, ok' a ↔ ok a) (henc : ∀ a, ok' a → enc' a = enc a) : Inverts c enc' ok' := by
  intro b a rest
  rw [h b a rest, ← hok a]
  refine and_congr_right fun ha => ?_
  rw [henc a ha]

/-- **Sequence.**  What follows the first reader runs on what the first reader leaves. -/
theorem Inverts.bind_eq_ok (h : Inverts c enc ok) {f : α → Reader ε β} {b : Bytes} {r : β × Bytes} :
    (c >>= f) b = .ok r ↔ ∃ a rest, (ok a ∧ b = enc a ++ rest) ∧ f a rest = .ok r := by
  rw [bind_apply, Karst.bind_eq_ok]
  constructor
  · intro hrun
    obtain ⟨⟨a, rest⟩, hc, hf⟩ := hrun
    exact ⟨a, rest, (h b a rest).mp hc, hf⟩
  · intro hrun
    obtain ⟨a, rest, hok, hf⟩ := hrun
    exact ⟨(a, rest), (h b a rest).mpr hok, hf⟩

theorem Inverts.append_inj (h : Inverts c enc ok) {a a' : α} {rest rest' : Bytes} (ha : ok a)
    (ha' : ok a') (heq : enc a ++ rest = enc a' ++ rest') : a = a' ∧ rest = rest' := by
  have hread := (h _ a rest).mpr ⟨ha, rfl⟩
  rw [(h _ a' rest').mpr ⟨ha', heq⟩] at hread
  exact (Prod.mk.inj (Except.ok.inj hread)).imp Eq.symm Eq.symm

theorem Inverts.map (f : α → β) (g : β → α) (h : Inverts c enc ok) (hg : ∀ a, ok a → g (f a) = a) :
    Inverts (c >>= fun a => pure (f a)) (fun b => enc (g b)) fun b => ok (g b) ∧ b = f (g b) := by
  intro b v rest
  show (c >>= fun a => pure (f a)) b = .ok (v, rest) ↔ (ok (g v) ∧ v = f (g v)) ∧ b = enc (g v) ++ rest
  rw [h.bind_eq_ok]
  constructor
  · intro hrun
    obtain ⟨a, mid, ⟨ha, hb⟩, hv⟩ := hrun
    have hfa : f a = v ∧ mid = rest := Prod.mk.inj (Except.ok.inj hv)
    rw [← hfa.1, hg a ha, ← hfa.2]
    exact ⟨⟨ha, rfl⟩, hb⟩
  · intro hv
    refine ⟨g v, rest, ⟨hv.1.1, hv.2⟩, ?_⟩
    rw [← hv.1.2]
    rfl

theorem guard_eq_ok {p : Prop} [Decidable p] {e : ε} {f : PUnit → Reader ε α} {b : Bytes} {r : α × Bytes} :
    (if p then (throw e : Reader ε PUnit) >>= f else c) b = .ok r ↔ ¬ p ∧ c b = .ok r := by
  by_cases hp : p
  · rw [if_pos hp]
    exact iff_of_false (fun hrun => by cases hrun) fun hok => hok.1 hp
  · rw [if_neg hp]
    exact ⟨fun hrun => ⟨hp, hrun⟩, And.right⟩

theorem inverts_many (h : Inverts c enc ok) (n : ℕ) : Inverts (many c n) (fun as => (as.map enc).flatten)
      fun as => as.length = n ∧ ∀ a ∈ as, ok a := by
  induction n with
  | zero =>
    refine (inverts_pure []).congr ?_ ?_
    · intro as
      constructor
      · intro has
        exact length_eq_zero_iff.mp has.1
      · intro has
        rw [has]
        simp
    · intro as has
      rw [length_eq_zero_iff.mp has.1]
      rfl
  | succ n ih =>
    intro b as rest
    show many c (n + 1) b = .ok (as, rest) ↔ (as.length = n + 1 ∧ ∀ a ∈ as, ok a)
      ∧ b = (as.map enc).flatten ++ rest
    rw [many, h.bind_eq_ok]
    constructor
    · intro hrun
      obtain ⟨a, mid, ⟨ha, hb⟩, hrun⟩ := hrun
      obtain ⟨as', mid', ⟨⟨hlen, hall⟩, hmid⟩, hcons⟩ := ih.bind_eq_ok.mp hrun
      have has : a :: as' = as ∧ mid' = rest := Prod.mk.inj (Except.ok.inj hcons)
      rw [← has.1, ← has.2]
      refine ⟨⟨by rw [length_cons, hlen], forall_mem_cons.mpr ⟨ha, hall⟩⟩, ?_⟩
      rw [hb, hmid, map_cons, flatten_cons, append_assoc]
    · intro hok
      obtain ⟨⟨hlen, hall⟩, hb⟩ := hok
      cases as with
      | nil => cases hlen
      | cons a as =>
        obtain ⟨ha, hall⟩ := forall_mem_cons.mp hall
        rw [map_cons, flatten_cons, append_assoc] at hb
        refine ⟨a, (as.map enc).flatten ++ rest, ⟨ha, hb⟩, ?_⟩
        exact ih.bind_eq_ok.mpr ⟨as, rest, ⟨⟨Nat.succ.inj hlen, hall⟩, rfl⟩, rfl⟩

end

/-! ### Parsers -/

/-- A parser reads back what was built within the limits, and accepts nothing but what is built. -/
def Canonical (read : Bytes → Except ε α) (build : α → Bytes) (fits : α → Prop) : Prop :=
  (∀ a, fits a → read (build a) = .ok a) ∧ ∀ b a, read b = .ok a → fits a ∧ build a = b

theorem canonical_of_eq_ok {read : Bytes → Except ε α} {build : α → Bytes} {fits : α → Prop}
    (h : ∀ b a, read b = .ok a ↔ fits a ∧ b = build a) : Canonical read build fits :=
  ⟨fun a ha => (h (build a) a).mpr ⟨ha, rfl⟩, fun b a hb => ((h b a).mp hb).imp id Eq.symm⟩

theorem parse_eq_ok {c : Reader ε α} {b : Bytes} {a : α} :
    parse c b = .ok a ↔ ∃ rest, c b = .ok (a, rest) := by
  show (fun x : α × Bytes => x.1) <$> c b = .ok a ↔ _
  cases hc : c b with
  | error e => exact iff_of_false (fun hrun => by cases hrun) fun hok => by cases hok.choose_spec
  | ok x =>
    constructor
    · intro hrun
      have hx : x.1 = a := ok.inj hrun
      exact ⟨x.2, by rw [← hx]⟩
    · intro hok
      obtain ⟨rest, hx⟩ := hok
      rw [ok.inj hx]
      rfl

end Reader

end Karst
