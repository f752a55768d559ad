import Mathlib.Logic.Function.Basic
import Karst.Foundations.Runs

/-!
# Announcements

Places that tell one another over ordered links who has come to them and who has gone.  A table holds
for every name the place that announced it last; only that place may take it out.
-/

namespace Karst.Announcements

open Function

variable {H N : Type*}

inductive Notice (N : Type*) where
  | arrived (n : N)
  | gone (n : N)

/-- The places with their tables, and the notices in flight between them. -/
structure Mesh (H N : Type*) where
  here : H → N → Bool
  link : H → H → List (Notice N)
  table : H → N → Option H
  /-- Who announced a name last, at each place. -/
  last : H → N → Option H

inductive Event (H N : Type*) where
  | arrive (h : H) (n : N)
  | leave (h : H) (n : N)
  | deliver (a b : H)

def empty : Mesh H N :=
  ⟨fun _ _ => false, fun _ _ => [], fun _ _ => none, fun _ _ => none⟩

section

variable [DecidableEq H] [DecidableEq N]

def learn (table : N → Option H) (a : H) : Notice N → N → Option H
  | .arrived n => Function.update table n (some a)
  | .gone n => if table n = some a then Function.update table n none else table

def hear (last : N → Option H) (a : H) : Notice N → N → Option H
  | .arrived n => Function.update last n (some a)
  | .gone _ => last

variable {table : N → Option H} {a : H} {n : N} {notice : Notice N}

theorem learn_eq_some {c : H} (h : learn table a notice n = some c) : c = a ∨ table n = some c := by
  cases notice with
  | arrived k =>
    by_cases hn : n = k
    · rw [learn, hn, update_self] at h
      exact Or.inl (Option.some.inj h).symm
    · rw [learn, update_of_ne hn] at h
      exact Or.inr h
  | gone k =>
    rw [learn] at h
    split at h
    · by_cases hn : n = k
      · rw [hn, update_self] at h
        cases h
      · rw [update_of_ne hn] at h
        exact Or.inr h
    · exact Or.inr h

def tell (m : Mesh H N) (h : H) (n : N) (v : Bool) (notice : Notice N) : Mesh H N :=
  { m with
    here := Function.update m.here h (Function.update (m.here h) n v)
    link := Function.update m.link h fun b => m.link h b ++ [notice] }

def receive (m : Mesh H N) (a b : H) (notice : Notice N) (rest : List (Notice N)) : Mesh H N :=
  { m with
    link := Function.update m.link a (Function.update (m.link a) b rest)
    table := Function.update m.table b (learn (m.table b) a notice)
    last := Function.update m.last b (hear (m.last b) a notice) }

def step (m : Mesh H N) : Event H N → Mesh H N
  | .arrive h n => if m.here h n then m else tell m h n true (.arrived n)
  | .leave h n => if m.here h n then tell m h n false (.gone n) else m
  | .deliver a b =>
    match m.link a b with
    | [] => m
    | notice :: rest => receive m a b notice rest

/-- What a place will have been told, after what it was told so far. -/
def told (n : N) (sofar : Bool) : Notice N → Bool
  | .arrived k => if k = n then true else sofar
  | .gone k => if k = n then false else sofar

def tells (notices : List (Notice N)) (n : N) (sofar : Bool) : Bool := notices.foldl (told n) sofar

theorem tells_concat (notices : List (Notice N)) (notice : Notice N) (n : N) (sofar : Bool) :
    tells (notices ++ [notice]) n sofar = told n (tells notices n sofar) notice :=
  List.foldl_concat ..

/-- Once a link has said everything, its end knows what its source knows; and a table names a place
exactly if that place announced the name last and has not taken it back. -/
def Settled (m : Mesh H N) (a b : H) (n : N) : Prop :=
  ∃ sofar, tells (m.link a b) n sofar = m.here a n
    ∧ (m.table b n = some a ↔ m.last b n = some a ∧ sofar = true)

omit [DecidableEq H] in
theorem settled_empty (a b : H) (n : N) : Settled (empty : Mesh H N) a b n :=
  ⟨false, rfl, by simp [empty]⟩

variable {m : Mesh H N} {b : H}

theorem settled_tell (hm : Settled m a b n) (h : H) (k : N) (v : Bool)
    (hnotice : ∀ n sofar, told n sofar notice = if k = n then v else sofar) :
    Settled (tell m h k v notice) a b n := by
  obtain ⟨sofar, htells, htable⟩ := hm
  refine ⟨sofar, ?_, htable⟩
  show tells (update m.link h _ a b) n sofar = update m.here h _ a n
  by_cases ha : a = h
  · subst ha
    rw [update_self, update_self, tells_concat, hnotice, htells]
    by_cases hk : k = n
    · rw [if_pos hk, hk, update_self]
    · rw [if_neg hk, update_of_ne (Ne.symm hk)]
  · rw [update_of_ne ha, update_of_ne ha]
    exact htells

theorem learn_source {last : N → Option H} {sofar : Bool}
    (h : table n = some a ↔ last n = some a ∧ sofar = true) (notice : Notice N) :
    learn table a notice n = some a ↔ hear last a notice n = some a ∧ told n sofar notice = true := by
  cases notice with
  | arrived k =>
    by_cases hk : n = k
    · subst hk
      simp [learn, hear, told]
    · simp [learn, hear, told, update_of_ne hk, Ne.symm hk, h]
  | gone k =>
    by_cases hk : n = k
    · subst hk
      by_cases hn : table n = some a <;> simp [learn, told, hn]
    · by_cases hn : table k = some a <;> simp [learn, hear, told, hn, update_of_ne hk, Ne.symm hk, h]

theorem learn_other {last : N → Option H} {c : H} {sofar : Bool} (hc : c ≠ a)
    (h : table n = some c ↔ last n = some c ∧ sofar = true) (notice : Notice N) :
    learn table a notice n = some c ↔ hear last a notice n = some c ∧ sofar = true := by
  cases notice with
  | arrived k =>
    by_cases hk : n = k
    · subst hk
      simp [learn, hear, Ne.symm hc]
    · simp [learn, hear, update_of_ne hk, h]
  | gone k =>
    by_cases hk : n = k
    · subst hk
      by_cases hn : table n = some a
      · simpa [learn, hear, hn, Ne.symm hc] using h
      · simp [learn, hear, hn, h]
    · by_cases hn : table k = some a <;> simp [learn, hear, hn, update_of_ne hk, h]

theorem settled_receive (hm : ∀ a b n, Settled m a b n) {rest : List (Notice N)}
    (hlink : m.link a b = notice :: rest) (c d : H) (n : N) : Settled (receive m a b notice rest) c d n := by
  obtain ⟨sofar, htells, htable⟩ := hm c d n
  unfold Settled receive
  dsimp only
  by_cases hd : d = b
  · subst hd
    rw [update_self, update_self]
    by_cases hc : c = a
    · -- the link that delivers: what it has said goes from the link into what was told
      subst hc
      rw [hlink] at htells
      refine ⟨told n sofar notice, ?_, learn_source htable notice⟩
      rw [update_self, update_self]
      exact htells
    · refine ⟨sofar, ?_, learn_other hc htable notice⟩
      rw [update_of_ne hc]
      exact htells
  · rw [update_of_ne hd, update_of_ne hd]
    refine ⟨sofar, ?_, htable⟩
    by_cases hc : c = a
    · subst hc
      rw [update_self, update_of_ne hd]
      exact htells
    · rw [update_of_ne hc]
      exact htells

theorem settled_step (hm : ∀ a b n, Settled m a b n) (e : Event H N) (a b : H) (n : N) :
    Settled (step m e) a b n := by
  cases e with
  | arrive h k =>
    rw [step]
    split
    · exact hm a b n
    · exact settled_tell (hm a b n) h k true fun _ _ => rfl
  | leave h k =>
    rw [step]
    split
    · exact settled_tell (hm a b n) h k false fun _ _ => rfl
    · exact hm a b n
  | deliver c d =>
    rw [step]
    split
    · exact hm a b n
    · rename_i hlink
      exact settled_receive hm hlink a b n

omit [DecidableEq H] in
/-- **Silent links.**  When a link has said everything, the table at its end names its source for
exactly the names that are there and were announced last from there. -/
theorem table_of_empty (hm : Settled m a b n) (hempty : m.link a b = []) :
    m.table b n = some a ↔ m.last b n = some a ∧ m.here a n = true := by
  obtain ⟨sofar, htells, htable⟩ := hm
  rw [hempty] at htells
  rw [htable, ← htells]
  rfl

end

end Karst.Announcements
