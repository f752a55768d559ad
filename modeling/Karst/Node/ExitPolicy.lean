import Karst.Foundations.Runs
import Karst.Net.Addresses
import Mathlib.Data.Finset.Insert

/-!
# Exit policy routing

`karstd/src/exit_policy.rs`: exit traffic is sent to a table of its own by a catch-all rule, which
is added last and deleted first, behind a rule for the main table with its default suppressed and
one rule for every underlay address that has to escape.
-/

namespace Karst.Node.ExitPolicy

open Net

inductive Family where
  | v4
  | v6
  deriving DecidableEq

inductive Lookup where
  /-- `to address/host_len lookup main` -/
  | escape (address : IpAddr)
  /-- `lookup main suppress_prefixlength 0` -/
  | suppressedMain
  /-- `lookup TABLE` -/
  | exit
  deriving DecidableEq

/-- What a command adds or deletes: its words without the verb. -/
inductive Item where
  | route (family : Family) (interface : String)
  | rule (family : Family) (priority : ℕ) (lookup : Lookup)
  deriving DecidableEq

def ESCAPE_PRIORITY : ℕ := 100
def MAIN_PRIORITY : ℕ := 250
def EXIT_PRIORITY : ℕ := 260
def MAX_ESCAPES : ℕ := MAIN_PRIORITY - ESCAPE_PRIORITY

def mainRule (f : Family) : Item := .rule f MAIN_PRIORITY .suppressedMain
def exitRule (f : Family) : Item := .rule f EXIT_PRIORITY .exit

inductive Command where
  | version
  | add (item : Item)
  | del (item : Item)

/-! ### The host -/

structure Entry where
  command : Command
  failed : Bool
  /-- the rules and routes after the command -/
  kernel : Finset Item
  /-- the escape set each family's catch-all rule was last added for -/
  behind : Family → List IpAddr

structure Host where
  kernel : Finset Item
  behind : Family → List IpAddr
  /-- the escape set of the running activation -/
  goal : List IpAddr
  log : List Entry

/-- Every address of the escape set, and the main table, come before the catch-all rule. -/
def Covers (f : Family) (escapes : List IpAddr) (items : Finset Item) : Prop :=
  mainRule f ∈ items ∧ ∀ a ∈ escapes, ∃ p, Item.rule f p (.escape a) ∈ items

def Entry.Safe (e : Entry) : Prop := ∀ f, exitRule f ∈ e.kernel → Covers f (e.behind f) e.kernel

def Entry.Spares (e : Entry) : Prop :=
  ∀ f, e.command = .del (exitRule f) → e.failed = true → exitRule f ∉ e.kernel

section

-- whether the nth command fails of its own
variable (fails : ℕ → Bool)

def failed (h : Host) : Command → Bool
  | .add item => fails h.log.length || decide (item ∈ h.kernel)
  | _ => fails h.log.length

/-- What a command that succeeds makes of the host. -/
def effect (h : Host) : Command → Host
  | .version => h
  | .del item => { h with kernel := h.kernel.erase item }
  | .add item =>
    { h with
      kernel := insert item h.kernel
      behind := fun f => if item = exitRule f then h.goal else h.behind f }

def exec (h : Host) (c : Command) : Host :=
  let after := if failed fails h c then h else effect h c
  { after with log := ⟨c, failed fails h c, after.kernel, after.behind⟩ :: h.log }

/-- The undo commands are deletions, the last one first; a failed one is only logged. -/
def rollback (h : Host) (undo : List Item) : Host :=
  undo.foldl (fun h item => exec fails h (.del item)) h

inductive Failure where
  | tooMany (escapes : ℕ)
  | command (c : Command)

/-- `apply` for the stages in order, with the rollback of the first that fails. -/
def install : Host → List Item → List Item → Host × Except Failure (List Item)
  | h, applied, [] => (h, .ok applied)
  | h, applied, item :: rest =>
    -- a crashed instance may have left the item behind
    let h := exec fails h (.del item)
    if failed fails h (.add item) then
      (rollback fails (exec fails h (.add item)) applied, .error (.command (.add item)))
    else
      install (exec fails h (.add item)) (item :: applied) rest

structure State where
  host : Host
  undo : List Item
  active : Option Family
  escapes : List IpAddr

def clear (s : State) : State := ⟨rollback fails s.host s.undo, [], none, []⟩

def stages (interface : String) (f : Family) (escapes : List IpAddr) : List Item :=
  .route f interface ::
    escapes.zipIdx.map (fun (a, offset) => .rule f (ESCAPE_PRIORITY + offset) (.escape a)) ++ [mainRule f]

def activate (s : State) (interface : String) (f : Family) (escapes : List IpAddr) :
    State × Except Failure Unit :=
  let escapes := escapes.filter (·.isIpv4 == decide (f = .v4))
  if escapes.length > MAX_ESCAPES then (s, .error (.tooMany escapes.length))
  else if s.active = some f ∧ s.escapes = escapes then (s, .ok ())
  else
    let s := clear fails s
    let h := exec fails { s.host with goal := escapes } .version
    if failed fails s.host .version then ({ s with host := h }, .error (.command .version))
    else
      match install fails h [] (stages interface f escapes ++ [exitRule f]) with
      | (h, .error e) => ({ s with host := h }, .error e)
      | (h, .ok applied) => (⟨h, applied, some f, escapes⟩, .ok ())

/-- A set of addresses is the list of its members; the results hold whatever their order. -/
inductive Call where
  | activate (interface : String) (family : Family) (escapes : List IpAddr)
  | clear

def call (s : State) : Call → State
  | .activate interface f escapes => (activate fails s interface f escapes).1
  | .clear => clear fails s

def after (calls : List Call) : State :=
  Runs.run (call fails) ⟨⟨∅, fun _ => [], [], []⟩, [], none, []⟩ calls

/-! ### What every command keeps -/

/-- Both halves speak of the whole log, so that a run that breaks one of its assumptions anywhere
has nothing left to show. -/
structure Guarded (h : Host) (undo : List Item) : Prop where
  safe : (∀ e ∈ h.log, e.Spares) →
    (∀ e ∈ h.log, e.Safe) ∧ ∀ f, exitRule f ∈ h.kernel → undo.head? = some (exitRule f)
  tidy : (∀ e ∈ h.log, e.failed = false) → ∀ item ∈ h.kernel, item ∈ undo

variable {fails} {h : Host} {undo undo' : List Item} {item x : Item}

theorem exec_failed {c : Command} (hfail : failed fails h c = true) : (exec fails h c).kernel = h.kernel := by
  simp [exec, hfail]

theorem mem_exec_del : x ∈ (exec fails h (.del item)).kernel
    ↔ x ∈ h.kernel ∧ (failed fails h (.del item) = false → x ≠ item) := by
  by_cases hf : failed fails h (.del item) = true
  · simp [exec_failed hf, hf]
  · simp [exec, effect, hf, and_comm]

theorem mem_exec_add : x ∈ (exec fails h (.add item)).kernel
    ↔ x ∈ h.kernel ∨ failed fails h (.add item) = false ∧ x = item := by
  by_cases hf : failed fails h (.add item) = true
  · simp [exec_failed hf, hf]
  · simp [exec, effect, hf, or_comm]

theorem Covers.mono {f : Family} {escapes : List IpAddr} {items items' : Finset Item}
    (hc : Covers f escapes items)
    (hle : ∀ x ∈ items, (∀ f, x ≠ exitRule f) → x ∈ items') : Covers f escapes items' := by
  refine ⟨hle _ hc.1 (by simp [mainRule, exitRule]), fun a ha => ?_⟩
  obtain ⟨p, hp⟩ := hc.2 a ha
  exact ⟨p, hle _ hp (by simp [exitRule])⟩

theorem Guarded.step {c : Command} (g : Guarded h undo)
    (hsafe : (∀ f, exitRule f ∈ h.kernel → undo.head? = some (exitRule f)) →
      ∀ f, (c = .del (exitRule f) → failed fails h c = true → exitRule f ∉ (exec fails h c).kernel) →
        exitRule f ∈ (exec fails h c).kernel → undo'.head? = some (exitRule f) ∧
          Covers f ((exec fails h c).behind f) (exec fails h c).kernel)
    (htidy : failed fails h c = false → (∀ x ∈ h.kernel, x ∈ undo) →
      ∀ x ∈ (exec fails h c).kernel, x ∈ undo') : Guarded (exec fails h c) undo' := by
  constructor
  · intro hs
    obtain ⟨hnew, hold⟩ := List.forall_mem_cons.mp hs
    have hnext := fun f => hsafe (g.safe hold).2 f (hnew f)
    exact ⟨List.forall_mem_cons.mpr ⟨fun f hf => (hnext f hf).2, (g.safe hold).1⟩, fun f hf => (hnext f hf).1⟩
  · intro hok
    obtain ⟨hnew, hold⟩ := List.forall_mem_cons.mp hok
    exact htidy hnew (g.tidy hold)

/-- The deletion of the last thing added; of an installed catch-all rule it may not fail. -/
theorem Guarded.pop (g : Guarded h (item :: undo)) : Guarded (exec fails h (.del item)) undo := by
  refine g.step (fun hhead f hspare hf => ?_) fun hok hin x hx => ?_
  · -- the rule on the list is the one to delete
    obtain ⟨hmem, hne⟩ := mem_exec_del.mp hf
    have hitem : item = exitRule f := Option.some.inj (hhead f hmem)
    subst hitem
    cases hfail : failed fails h (.del (exitRule f)) with
    | true => exact absurd hf (hspare rfl hfail)
    | false => exact absurd rfl (hne hfail)
  · obtain ⟨hmem, hne⟩ := mem_exec_del.mp hx
    exact List.mem_of_ne_of_mem (hne hok) (hin x hmem)

theorem Guarded.undone (g : Guarded h undo) : Guarded (rollback fails h undo) [] := by
  induction undo generalizing h with
  | nil => exact g
  | cons item undo ih => exact ih g.pop

section

variable (hno : ∀ f, undo.head? ≠ some (exitRule f))

include hno

/-- While no catch-all rule is installed, a command that adds nothing is harmless. -/
theorem Guarded.shrink {c : Command} (g : Guarded h undo)
    (hsub : (exec fails h c).kernel ⊆ h.kernel) : Guarded (exec fails h c) undo :=
  g.step (fun hhead f _ hf => absurd (hhead f (hsub hf)) (hno f)) fun _ hin x hx => hin x (hsub hx)

/-- A catch-all rule is only added once the others cover it. -/
theorem Guarded.add (g : Guarded h undo) (hc : ∀ f, item = exitRule f → Covers f h.goal h.kernel) :
    Guarded (exec fails h (.add item)) (item :: undo) := by
  refine g.step (fun hhead f _ hf => ?_) fun _ hin x hx => ?_
  · obtain hmem | ⟨hok, rfl⟩ := mem_exec_add.mp hf
    · exact absurd (hhead f hmem) (hno f)
    · refine ⟨rfl, ?_⟩
      have hbehind : (exec fails h (.add (exitRule f))).behind f = h.goal := by
        simp [exec, effect, hok]
      rw [hbehind]
      exact (hc f rfl).mono fun x hx _ => mem_exec_add.mpr (.inl hx)
  · obtain hmem | ⟨_, rfl⟩ := mem_exec_add.mp hx
    · exact List.mem_cons_of_mem _ (hin x hmem)
    · exact List.mem_cons_self

end

/-! ### Calls -/

@[simp] theorem exec_goal (c : Command) : (exec fails h c).goal = h.goal := by
  unfold exec
  split
  · rfl
  · cases c <;> rfl

variable (fails) in
/-- What is installed together with what is still to come covers the escape set throughout. -/
theorem install_guarded {f : Family} {p : List Item} (hp : ∀ x ∈ p, ∀ f, x ≠ exitRule f)
    (hno : ∀ f, undo.head? ≠ some (exitRule f)) (hc : Covers f h.goal (h.kernel ∪ p.toFinset))
    (g : Guarded h undo) :
    let r := install fails h undo (p ++ [exitRule f])
    Guarded r.1 (r.2.toOption.getD []) := by
  induction p generalizing h undo with
  | nil =>
    have hdel : Guarded (exec fails h (.del (exitRule f))) undo :=
      g.shrink hno fun x hx => (mem_exec_del.mp hx).1
    simp only [List.nil_append, install]
    split
    · next hfail => exact (hdel.shrink hno (exec_failed hfail).subset).undone
    · refine hdel.add hno fun f' hf' => ?_
      cases hf'
      rw [exec_goal]
      refine hc.mono fun x hx hne => mem_exec_del.mpr ⟨by simpa using hx, fun _ => hne f⟩
  | cons item p ih =>
    obtain ⟨hitem, hp⟩ := List.forall_mem_cons.mp hp
    have hdel : Guarded (exec fails h (.del item)) undo :=
      g.shrink hno fun x hx => (mem_exec_del.mp hx).1
    simp only [List.cons_append, install]
    split
    · next hfail => exact (hdel.shrink hno (exec_failed hfail).subset).undone
    · next hok =>
      have hno' : ∀ f, (item :: undo).head? ≠ some (exitRule f) := fun f' he =>
        hitem f' (Option.some.inj he)
      refine ih hp hno' ?_ (hdel.add hno fun f' hf' => absurd hf' (hitem f'))
      rw [exec_goal, exec_goal]
      refine hc.mono fun x hx _ => ?_
      rw [Finset.mem_union, mem_exec_add, mem_exec_del]
      by_cases hx' : x = item
      · exact .inl (.inr ⟨by simpa using hok, hx'⟩)
      · simp only [List.toFinset_cons, Finset.mem_union, Finset.mem_insert, hx', false_or] at hx
        exact hx.imp (fun hx => .inl ⟨hx, fun _ => hx'⟩) id

theorem stages_covers (interface : String) (f : Family) (escapes : List IpAddr)
    (items : Finset Item) : Covers f escapes (items ∪ (stages interface f escapes).toFinset) := by
  refine ⟨by simp [stages], fun a ha => ?_⟩
  obtain ⟨offset, hoffset⟩ := List.mem_iff_getElem?.mp ha
  refine ⟨ESCAPE_PRIORITY + offset, ?_⟩
  simp only [stages, List.mem_toFinset, Finset.mem_union, List.mem_append, List.mem_cons, List.mem_map]
  exact .inr (.inl (.inr ⟨(a, offset), List.mem_zipIdx_iff_getElem?.mpr hoffset, rfl⟩))

theorem stages_ne_exit (interface : String) (f : Family) (escapes : List IpAddr) :
    ∀ x ∈ stages interface f escapes, ∀ f', x ≠ exitRule f' := by
  intro x hx f' he
  subst he
  simp [stages, exitRule, mainRule] at hx

theorem call_guarded {s : State} (c : Call) (g : Guarded s.host s.undo) :
    Guarded (call fails s c).host (call fails s c).undo := by
  cases c with
  | clear => exact g.undone
  | activate interface f escapes =>
    have hversion (goal : List IpAddr) : Guarded
        (exec fails { (clear fails s).host with goal := goal } .version) [] :=
      Guarded.shrink (by simp) ⟨g.undone.safe, g.undone.tidy⟩ (by simp [exec, effect])
    have hinstall (goal : List IpAddr) := install_guarded fails (stages_ne_exit interface f goal) (by simp)
      (by rw [exec_goal]; exact stages_covers interface f goal _) (hversion goal)
    simp only [call, activate]
    split_ifs
    · exact g
    · exact g
    · exact hversion _
    · have hdone := hinstall (escapes.filter (·.isIpv4 == decide (f = .v4)))
      split
      · next he =>
        rw [he] at hdone
        exact hdone
      · next he =>
        rw [he] at hdone
        exact hdone

end

/-- **The catch-all rule is guarded** after every command, and `clear` leaves nothing behind where no
command failed. -/
theorem exit_guarded (fails : ℕ → Bool) (calls : List Call) :
    ((∀ e ∈ (after fails calls).host.log, e.Spares) → ∀ e ∈ (after fails calls).host.log, e.Safe) ∧
    ((∀ e ∈ (after fails calls).host.log, e.failed = false) → calls.getLast? = some .clear →
      (after fails calls).host.kernel = ∅) := by
  have g : Guarded (after fails calls).host (after fails calls).undo :=
    Runs.run_induction (fun (s : State) c (g : Guarded s.host s.undo) => call_guarded c g)
      ⟨by simp, by simp⟩ calls
  refine ⟨fun hs => (g.safe hs).1, fun hok hlast => ?_⟩
  obtain ⟨calls, rfl⟩ := List.getLast?_eq_some_iff.mp hlast
  have hundo : (after fails (calls ++ [.clear])).undo = [] := by
    rw [after, Runs.run_concat]
    rfl
  exact Finset.eq_empty_of_forall_notMem fun x hx => by simpa [hundo] using g.tidy hok x hx

theorem exit_guarded_cleared :
    (after (fun _ => false) [.activate "karst0" .v4 [.v4 1], .clear]).host.kernel = ∅ :=
  (exit_guarded _ _).2 (by decide) rfl

/-- The deletion of the catch-all rule fails, and what it needs is deleted all the same. -/
theorem exit_unguarded :
    ∃ e ∈ (after (· == 9) [.activate "karst0" .v4 [.v4 1], .clear]).host.log, ¬ e.Safe := by
  have h : ∃ e ∈ (after (· == 9) [.activate "karst0" .v4 [.v4 1], .clear]).host.log,
      exitRule .v4 ∈ e.kernel ∧ mainRule .v4 ∉ e.kernel := by decide
  obtain ⟨e, he, hexit, hmain⟩ := h
  exact ⟨e, he, fun safe => hmain (safe .v4 hexit).1⟩

end Karst.Node.ExitPolicy
