import Karst.Foundations.ByteStrings
import Karst.Foundations.Runs

/-!
# Hash chains

A log whose entries each carry the digest of their content and of the digest before.  `link` is the
string that is hashed and `digest` the hash, with whatever text is made of it.
The last digest determines all contents, unless the hash collides along the way (`head_inj`).
-/

namespace Karst.HashChain

open Runs

variable {γ : Type*} (link : Bytes → γ → Bytes) (digest : Bytes → Bytes)

/-- The digest at the end of a chain; an empty chain has the empty one. -/
def head (cs : List γ) : Bytes := run (fun prev c => digest (link prev c)) [] cs

def Hashed (cs : List γ) (x : Bytes) : Prop := ∃ p c, p ++ [c] <+: cs ∧ x = link (head link digest p) c

/-- The hash is free of collisions on what is hashed along two chains. -/
def CollisionFree (cs cs' : List γ) : Prop :=
  ∀ x y, Hashed link digest cs x → Hashed link digest cs' y → digest x = digest y → x = y

variable {link digest} {cs cs' : List γ}

theorem head_concat (c : γ) :
    head link digest (cs ++ [c]) = digest (link (head link digest cs) c) := run_concat _ _ _ _

theorem length_head_lt {n : ℕ} (hn : 0 < n) (hdigest : ∀ x, (digest x).length < n) (cs : List γ) :
    (head link digest cs).length < n := by
  rcases List.eq_nil_or_concat cs with rfl | ⟨p, c, rfl⟩
  · exact hn
  · rw [List.concat_eq_append, head_concat]
    exact hdigest _

/-- **The head commits to the chain.**  `link` has to tell apart only contents of the two chains, and
digests that occur in them. -/
theorem head_inj (hdigest : ∀ x, digest x ≠ []) (hlink : ∀ p c p' c', p ++ [c] <+: cs → p' ++ [c'] <+: cs' →
      link (head link digest p) c = link (head link digest p') c' →
      head link digest p = head link digest p' ∧ c = c')
    (hfree : CollisionFree link digest cs cs') (h : head link digest cs = head link digest cs') :
    cs = cs' := by
  refine run_inj ?_ (fun _ _ _ => hdigest _) (fun _ _ _ => hdigest _) h
  intro p c p' c' hp hp' hmeet
  exact hlink p c p' c' hp hp' (hfree _ _ ⟨p, c, hp, rfl⟩ ⟨p', c', hp', rfl⟩ hmeet)

end Karst.HashChain
