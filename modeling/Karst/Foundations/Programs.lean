import Mathlib.Logic.Function.Basic
import Karst.Foundations.Runs

/-!
# Programs of atomic steps

A call that takes locks one after another is a program whose steps are atomic on a shared state, with
whatever other calls do in between.  `run` executes a program without interruption; a `Pool` runs any
number of them in any interleaving.  A step may be marked, so that a statement can speak of the states
that the marked steps of a call found.

`Ensures` and its rules say what a program returns, whatever states its steps find, `Preserves` what an
execution preserves, and `Meets` both at once.
-/

namespace Karst

inductive Prog (σ α : Type) : Type 1 where
  | done (a : α)
  | step {β : Type} (marked : Bool) (f : σ → σ × β) (next : β → Prog σ α)

namespace Prog

variable {σ α β γ : Type}

def bind : Prog σ α → (α → Prog σ β) → Prog σ β
  | .done a, k => k a
  | .step m f next, k => .step m f fun b => (next b).bind k

instance : Monad (Prog σ) where
  pure := .done
  bind := bind

def act (f : σ → σ × α) : Prog σ α := .step false f .done

def view (marked : Bool) (f : σ → α) : Prog σ α := .step marked (fun s => (s, f s)) .done

abbrev read (f : σ → α) : Prog σ α := view false f

def modify (f : σ → σ) : Prog σ Unit := act fun s => (f s, ())

def run : Prog σ α → σ → σ × α
  | .done a, s => (s, a)
  | .step _ f next, s => (next (f s).2).run (f s).1

@[simp] theorem run_pure (a : α) (s : σ) : (pure a : Prog σ α).run s = (s, a) := rfl

@[simp] theorem run_bind (p : Prog σ α) (k : α → Prog σ β) (s : σ) :
    (p >>= k).run s = (k (p.run s).2).run (p.run s).1 := by
  induction p generalizing s with
  | done a => rfl
  | step m f next ih => exact ih (f s).2 (f s).1

@[simp] theorem run_act (f : σ → σ × α) (s : σ) : (act f).run s = f s := rfl

@[simp] theorem run_view (m : Bool) (f : σ → α) (s : σ) : (view m f).run s = (s, f s) := rfl

@[simp] theorem run_modify (f : σ → σ) (s : σ) : (modify f).run s = (f s, ()) := rfl

/-! ### Results under interference -/

/-- If every step finds a state that `S` allows for its mark, the result is in `Q`. -/
def Ensures (S : Bool → σ → Prop) (Q : α → Prop) : Prog σ α → Prop
  | .done a => Q a
  | .step m f next => ∀ s, S m s → Ensures S Q (next (f s).2)

variable {S : Bool → σ → Prop} {I : σ → Prop} {Q Q' : α → Prop} {p : Prog σ α} {m : Bool}

variable {a : α} {f : β → α → Prog σ β} {l : List α} {b : β}

theorem ensures_pure (h : Q a) : Ensures S Q (pure a : Prog σ α) := h

theorem ensures_view {f : σ → α} (h : ∀ s, S m s → Q (f s)) : Ensures S Q (view m f) := h

theorem Ensures.mono (h : Ensures S Q p) (hQ : ∀ a, Q a → Q' a) : Ensures S Q' p := by
  induction p with
  | done a => exact hQ a h
  | step m f next ih => exact fun s hs => ih _ (h s hs)

theorem Ensures.bind {k : α → Prog σ β} {Q' : β → Prop} (h : Ensures S Q p)
    (hk : ∀ a, Q a → Ensures S Q' (k a)) : Ensures S Q' (p >>= k) := by
  induction p with
  | done a => exact hk a h
  | step m f next ih => exact fun s hs => ih _ (h s hs)

theorem ensures_true : Ensures S (fun _ => True) p := by
  induction p with
  | done a => trivial
  | step m f next ih => exact fun s _ => ih (f s).2

theorem ensures_foldlM {Q : β → Prop} (hb : Q b)
    (hf : ∀ b, ∀ a ∈ l, Q b → Ensures S Q (f b a)) : Ensures S Q (l.foldlM f b) := by
  induction l generalizing b with
  | nil => exact hb
  | cons a l ih =>
    refine (hf b a List.mem_cons_self hb).bind fun b' hb' => ih hb' fun c x hx => ?_
    exact hf c x (List.mem_cons_of_mem a hx)

theorem Ensures.result (h : Ensures (fun _ _ => True) Q p) (s : σ) : Q (p.run s).2 := by
  induction p generalizing s with
  | done a => exact h
  | step m f next ih => exact ih _ (h s trivial) _

/-! ### Invariants -/

/-- Executed without interruption from a state in `I`, the program leaves one. -/
def Preserves (I : σ → Prop) (p : Prog σ α) : Prop := ∀ s, I s → I (p.run s).1

theorem preserves_pure : Preserves I (pure a : Prog σ α) := fun _ hs => hs

theorem preserves_act {f : σ → σ × α} (h : ∀ s, I s → I (f s).1) : Preserves I (act f) := h

theorem preserves_view {f : σ → α} : Preserves I (view m f) := fun _ hs => hs

theorem Preserves.bind {k : α → Prog σ β} (h : Preserves I p) (hk : ∀ a, Preserves I (k a)) :
    Preserves I (p >>= k) := by
  intro s hs
  rw [run_bind]
  exact hk _ _ (h s hs)

theorem preserves_foldlM (hf : ∀ b, ∀ a ∈ l, Preserves I (f b a)) : Preserves I (l.foldlM f b) := by
  induction l generalizing b with
  | nil => exact preserves_pure
  | cons a l ih =>
    refine (hf b a List.mem_cons_self).bind fun _ => ih fun c x hx => ?_
    exact hf c x (List.mem_cons_of_mem a hx)

theorem preserves_forM {f : α → Prog σ PUnit} (hf : ∀ a ∈ l, Preserves I (f a)) : Preserves I (l.forM f) := by
  induction l with
  | nil => exact preserves_pure
  | cons a l ih =>
    refine (hf a List.mem_cons_self).bind fun _ => ih fun x hx => ?_
    exact hf x (List.mem_cons_of_mem a hx)

/-! ### Both in one walk -/

/-- `I` is preserved and, if `c`, the result is in `Q`. -/
structure Meets (S : Bool → σ → Prop) (I : σ → Prop) (c : Prop) (Q : α → Prop) (p : Prog σ α) :
    Prop where
  ensures : c → Ensures S Q p
  preserves : Preserves I p

variable {c c' : Prop} {k : α → Prog σ β} {R : β → Prop}

theorem meets_pure (h : c → Q a) : Meets S I c Q (pure a : Prog σ α) :=
  ⟨fun hc => ensures_pure (h hc), preserves_pure⟩

theorem Meets.of (h : Meets S I c Q p) (hc : c' → c) : Meets S I c' Q p :=
  ⟨fun h' => h.ensures (hc h'), h.preserves⟩

theorem Meets.bind (h : Meets S I c Q p) (hk : ∀ a, Meets S I (c ∧ Q a) R (k a)) : Meets S I c R (p >>= k) :=
  ⟨fun hc => (h.ensures hc).bind fun a ha => (hk a).ensures ⟨hc, ha⟩,
    h.preserves.bind fun a => (hk a).preserves⟩

theorem Preserves.andThen (h : Preserves I p) (hk : ∀ a, Meets S I c R (k a)) : Meets S I c R (p >>= k) :=
  ⟨fun hc => ensures_true.bind fun a _ => (hk a).ensures hc, h.bind fun a => (hk a).preserves⟩

theorem meets_foldlM (hb : c → R b)
    (hf : ∀ b, ∀ a ∈ l, Meets S I (c ∧ R b) R (f b a)) : Meets S I c R (l.foldlM f b) :=
  ⟨fun hc => ensures_foldlM (hb hc) fun b a ha h => (hf b a ha).ensures ⟨hc, h⟩,
    preserves_foldlM fun b a ha => (hf b a ha).preserves⟩

end Prog

/-! ### Interleavings -/

/-- Calls under way on a shared state, each with what it took a copy of when it began. -/
structure Pool (σ τ α : Type) where
  shared : σ
  calls : ℕ → Option (τ × Prog σ α)

namespace Pool

/-- What happens next: a call begins, or one under way takes its next step. -/
inductive Turn (κ : Type) where
  | start (id : ℕ) (call : κ)
  | next (id : ℕ)

variable {σ τ α κ : Type} (copy : σ → τ) (body : κ → τ → Prog σ α)

/-- One turn.  A number that is taken starts nothing, a call that is done takes no step. -/
def step (w : Pool σ τ α) : Turn κ → Pool σ τ α
  | .start id call =>
    match w.calls id with
    | some _ => w
    | none =>
      let x := copy w.shared
      { w with calls := Function.update w.calls id (some (x, body call x)) }
  | .next id =>
    match w.calls id with
    | some (x, .step _ f next) =>
      { shared := (f w.shared).1,
        calls := Function.update w.calls id (some (x, next (f w.shared).2)) }
    | _ => w

def initial (s : σ) : Pool σ τ α := ⟨s, fun _ => none⟩

/-- The mark of a call's step and the state it finds, if this turn is a step of the call. -/
def finds (id : ℕ) (w : Pool σ τ α) : Turn κ → Option (Bool × σ)
  | .start _ _ => none
  | .next id' =>
    match w.calls id' with
    | some (_, .step m _ _) => if id' = id then some (m, w.shared) else none
    | _ => none

def found (s : σ) (id : ℕ) (evs : List (Turn κ)) : List (Bool × σ) :=
  Runs.trace (step copy body) (finds id) (initial s) evs

def returned (w : Pool σ τ α) (id : ℕ) : Option (τ × α) :=
  match w.calls id with
  | some (x, .done a) => some (x, a)
  | _ => none

theorem calls_of_returned {w : Pool σ τ α} {id : ℕ} {x : τ} {a : α}
    (h : w.returned id = some (x, a)) : w.calls id = some (x, .done a) := by
  rw [returned] at h
  split at h
  · rename_i hcall
    cases h
    exact hcall
  · cases h

variable {copy body} {S : Bool → σ → Prop} {Q : τ → α → Prop} {s : σ} {w : Pool σ τ α} {id : ℕ}

theorem step_ensures (hbody : ∀ call x, Prog.Ensures S (Q x) (body call x))
    (h : ∀ x p, w.calls id = some (x, p) → Prog.Ensures S (Q x) p) {e : Turn κ}
    (he : ∀ t ∈ finds id w e, S t.1 t.2) {x : τ} {p : Prog σ α}
    (hp : (w.step copy body e).calls id = some (x, p)) : Prog.Ensures S (Q x) p := by
  cases e with
  | start id' call =>
    rw [step] at hp
    split at hp
    · exact h x p hp
    · dsimp only at hp
      by_cases hid : id = id'
      · subst hid
        obtain ⟨rfl, rfl⟩ : copy w.shared = x ∧ body call (copy w.shared) = p := by
          simpa using hp
        exact hbody call _
      · rw [Function.update_of_ne hid] at hp
        exact h x p hp
  | next id' =>
    rw [step] at hp
    split at hp
    · rename_i y β m f next hcall
      dsimp only at hp
      by_cases hid : id = id'
      · subst hid
        obtain ⟨rfl, rfl⟩ : y = x ∧ next (f w.shared).2 = p := by simpa using hp
        exact h y _ hcall _ (he (m, w.shared) (by simp [finds, hcall]))
      · rw [Function.update_of_ne hid] at hp
        exact h x p hp
    · exact h x p hp

/-- **Interleavings.**  Whatever other calls do in between, what a call returns is as its program
ensures, of the states its own steps found. -/
theorem ensures_run (hbody : ∀ call x, Prog.Ensures S (Q x) (body call x)) {evs : List (Turn κ)}
    (hfound : ∀ t ∈ found copy body s id evs, S t.1 t.2) {x : τ} {p : Prog σ α}
    (hp : (Runs.run (step copy body) (initial s) evs).calls id = some (x, p)) : Prog.Ensures S (Q x) p := by
  induction evs using List.reverseRecOn generalizing x p with
  | nil => cases hp
  | append_singleton evs e ih =>
    rw [found, Runs.trace_concat] at hfound
    rw [Runs.run_concat] at hp
    refine step_ensures hbody (fun y q hq => ih (fun t ht => ?_) hq) (fun t ht => ?_) hp
    · exact hfound t (List.mem_append_left _ ht)
    · exact hfound t (List.mem_append_right _ (by simpa using ht))

theorem returned_ensures {Q : (Bool → σ → Prop) → τ → α → Prop}
    (hbody : ∀ S call x, Prog.Ensures S (Q S x) (body call x)) {evs : List (Turn κ)} {x : τ} {a : α}
    (h : (Runs.run (step copy body) (initial s) evs).returned id = some (x, a)) :
    Q (fun m t => (m, t) ∈ found copy body s id evs) x a :=
  ensures_run (hbody _) (fun _ ht => ht) (calls_of_returned h)

end Pool

-- From here on the rules are used, not the recursion.
attribute [irreducible] Prog.Ensures

end Karst
