import Karst.Foundations.Runs
import Karst.Control.Sync

/-!
# A refresh that fails

`Client::fetch` (`karstd/src/control.rs`) throws the view away when its version is not the one the server
gave, and only then.  Every other error leaves what was replaced before it next to what was not, under the
version of neither.
-/

namespace Karst.Control

open Runs

def fetch (X : Externals) (m : Netmap) (r : NetmapResponse) : Attempt :=
  match m.apply X r with
  | (m, .error e) => if e.isMismatch then (m.reset, .error e) else (m, .error e)
  | (m, .ok outcome) => (m, .ok outcome)

def refresh (X : Externals) (m : Netmap) (r : NetmapResponse) : Netmap := (fetch X m r).1

/-- Nothing is held, or the version is that of what is. -/
def Netmap.Honest (X : Externals) (m : Netmap) : Prop :=
  m = .new ∨ m.version = m.contentVersion X

/-- What the response replaces before the first part that does not decode is hashed like what it
replaces; for a node that holds nothing, it is nothing. -/
def Immaterial (X : Externals) (m : Netmap) (r : NetmapResponse) : Bool :=
  if m = .new then m.overwrite X r = .new else (m.overwrite X r).contentVersion X = m.contentVersion X

/-- A response that is refused at once, that says `unchanged`, that decodes, or whose parts before the
one that does not decode change nothing. -/
def Harmless (X : Externals) (m : Netmap) (r : NetmapResponse) : Bool :=
  r.refused || r.unchanged || r.decodes X || Immaterial X m r

section

variable {X : Externals} {m : Netmap} {r : NetmapResponse}

theorem overwrite_version : (m.overwrite X r).version = m.version := by
  unfold Netmap.overwrite
  split
  · rfl
  · split <;> rfl

theorem contentVersion_ne_zero : m.contentVersion X ≠ 0 := by
  rw [Netmap.contentVersion, Client.netmapVersion, nonzero]
  split
  · decide
  · assumption

theorem honest_overwrite_iff (h : m.Honest X) : (m.overwrite X r).Honest X ↔ Immaterial X m r = true := by
  by_cases hm : m = .new
  · have hversion : (m.overwrite X r).version = 0 := by
      rw [overwrite_version, hm]
      rfl
    rw [Immaterial, if_pos hm, decide_eq_true_eq, Netmap.Honest, hversion]
    exact or_iff_left contentVersion_ne_zero.symm
  · have hversion : m.version = m.contentVersion X := h.resolve_left hm
    have hne : m.overwrite X r ≠ .new := by
      intro hnew
      have hzero : m.version = 0 := by
        rw [← overwrite_version (X := X) (r := r), hnew]
        rfl
      exact contentVersion_ne_zero (hversion.symm.trans hzero)
    rw [Immaterial, if_neg hm, decide_eq_true_eq, Netmap.Honest, overwrite_version, hversion]
    exact (or_iff_right hne).trans eq_comm

theorem refresh_of_error {m' : Netmap} {e : Error} (h : m.apply X r = (m', .error e))
    (he : e.isMismatch = false) : refresh X m r = m' := by
  rw [refresh, fetch, h]
  simp only
  rw [if_neg (Bool.eq_false_iff.mp he)]

theorem refresh_refused (h : r.refused = true) : refresh X m r = m :=
  refresh_of_error (apply_refused h) rfl

theorem refresh_unchanged (h : r.refused = false) (hu : r.unchanged = true) : refresh X m r = m := by
  rw [refresh, fetch, apply_unchanged h hu]

theorem refresh_undecoded (h : r.refused = false) (hu : r.unchanged = false) (hd : r.decodes X = false) :
    refresh X m r = m.overwrite X r := by
  obtain ⟨e, he, happly⟩ := apply_undecoded h hu hd
  exact refresh_of_error happly he

theorem refresh_decoded (h : r.refused = false) (hu : r.unchanged = false) (hd : r.decodes X = true) :
    (refresh X m r).Honest X := by
  obtain ⟨o, ho⟩ := apply_decoded (m := m) h hu hd
  rw [refresh, fetch, ho, Netmap.checkVersion]
  split
  · rename_i m' e heq
    split at heq
    · cases heq
      exact Or.inl rfl
    · cases heq
  · rename_i m' outcome heq
    split at heq
    · cases heq
    · rename_i hversion
      cases heq
      exact Or.inr (not_not.mp hversion).symm

theorem honest_refresh_iff (h : m.Honest X) : (refresh X m r).Honest X ↔ Harmless X m r = true := by
  cases hr : r.refused with
  | true => simp [Harmless, hr, refresh_refused hr, h]
  | false =>
    cases hu : r.unchanged with
    | true => simp [Harmless, hu, refresh_unchanged hr hu, h]
    | false =>
      cases hd : r.decodes X with
      | true => simp [Harmless, hd, refresh_decoded hr hu hd]
      | false =>
        rw [refresh_undecoded hr hu hd, honest_overwrite_iff h]
        simp [Harmless, hr, hu, hd]

theorem unchanged_respond_iff {M : NetmapResponse} {known : UInt64} {holds : List PeerDigest}
    (hfresh : M.unchanged = false) : (respond X M known holds).unchanged = true
      ↔ known ≠ 0 ∧ known = Server.netmapVersion X.hash64 M := by
  constructor
  · intro hu
    unfold respond at hu
    simp only at hu
    split at hu
    · assumption
    · split at hu <;> exact absurd (hu.symm.trans hfresh) (by decide)
  · intro ⟨hz, hknown⟩
    exact respond_of_known hz hknown

theorem contentVersion_of_unchanged {M : NetmapResponse} {holds : List PeerDigest} (h : m.Honest X)
    (hfresh : M.unchanged = false) (hu : (respond X M m.version holds).unchanged = true) :
    m.contentVersion X = Server.netmapVersion X.hash64 M := by
  obtain ⟨hz, hknown⟩ := (unchanged_respond_iff hfresh).mp hu
  rw [← hknown]
  rcases h with rfl | hversion
  · exact absurd rfl hz
  · exact hversion.symm

/-- **The version a node sends** is that of its view, exactly as long as the responses are harmless.
-/
theorem refresh_honest_iff (X : Externals) :
    (∀ (m : Netmap) r, m.Honest X → ((refresh X m r).Honest X ↔ Harmless X m r = true))
    ∧ (∀ rs (m : Netmap), m.Honest X → Along (refresh X) (Harmless X) m rs = true →
      (run (refresh X) m rs).Honest X)
    ∧ ∀ (m : Netmap) (M : NetmapResponse), m.Honest X → M.unchanged = false →
      (respond X M m.version (m.holds X)).unchanged = true →
      m.contentVersion X = Server.netmapVersion X.hash64 M
      ∧ ((Client.netmapVersion X.hash64 m.content = Client.netmapVersion X.hash64 M.content →
          Client.netmapVersionInput m.content = Client.netmapVersionInput M.content) →
        m.content.shape = M.content.shape → m.content = M.content) := by
  refine ⟨fun m r => honest_refresh_iff, ?_, ?_⟩
  · intro rs m hm hrs
    have hstep (m : Netmap) (r : NetmapResponse) (hr : Harmless X m r = true) (hm : m.Honest X) :
        (refresh X m r).Honest X := (honest_refresh_iff hm).mpr hr
    exact along_induction hstep hm hrs
  · intro m M hm hfresh hu
    have hversion := contentVersion_of_unchanged hm hfresh hu
    refine ⟨hversion, fun hhash hshape => netmapVersionInput_inj hshape (hhash ?_)⟩
    rw [← netmapVersion_eq]
    exact hversion

end

/-! ### A relay that does not decode -/

def namedRelay : Relay where
  address := .of (ascii "relay.example.com:443")
  tlsServerName := .of (ascii "relay.example.com")
  relayId := .empty
  identityKey := .empty
  region := .of (ascii "eu")

def beforeRotation : Netmap := (applyWhole polynomial (allowing twoProviders)).1

theorem refresh_honest_epoch : (refresh polynomial beforeRotation (respond polynomial
    { allowing twoProviders with pskEpoch := 2 } beforeRotation.version
    (beforeRotation.holds polynomial))).Honest polynomial :=
  ((refresh_honest_iff polynomial).1 _ _ (.inr (by decide +kernel))).mpr (by decide +kernel)

def rotation : NetmapResponse :=
  respond polynomial { allowing twoProviders with pskEpoch := 2, relays := [namedRelay] }
    beforeRotation.version (beforeRotation.holds polynomial)

def afterRotation : Netmap := refresh polynomial beforeRotation rotation

theorem failed_refresh_keeps_old_version :
    beforeRotation.Honest polynomial ∧ ¬ afterRotation.Honest polynomial
      ∧ (respond polynomial (allowing twoProviders) afterRotation.version
        (afterRotation.holds polynomial)).unchanged = true
      ∧ afterRotation.content ≠ (allowing twoProviders).content := by
  refine ⟨Or.inr (by decide +kernel), ?_, by decide +kernel, by decide +kernel⟩
  rintro (h | h)
  · exact absurd h (by decide +kernel)
  · exact absurd h (by decide +kernel)

end Karst.Control
