import Mathlib.Data.List.AList
import Mathlib.Data.List.DropRight
import Mathlib.Data.List.MinMax
import Mathlib.Data.List.Nodup
import Mathlib.Tactic.Common

/-!
# Collections

Vectors and hash maps as imperative programs use them: the first element that passes a test is
changed in place, an element is removed by its index, a map is cut down to the entries that pass a
test, and a map is iterated in an order of its own.
-/

namespace Karst

open List Option

/-! ### Vectors -/

section

variable {α β : Type*} {test : α → Bool} {f : α → α} {l : List α} {a : α}

/-- Change the first element that passes the test, if there is one. -/
def updateFirst (test : α → Bool) (f : α → α) : List α → List α
  | [] => []
  | a :: l => if test a then f a :: l else a :: updateFirst test f l

theorem updateFirst_eq (h : l.any test = true) :
    ∃ l₁ a l₂, l = l₁ ++ a :: l₂ ∧ test a = true ∧ updateFirst test f l = l₁ ++ f a :: l₂ := by
  induction l with
  | nil => cases h
  | cons b l ih =>
    rw [updateFirst]
    by_cases hb : test b = true
    · exact ⟨[], b, l, rfl, hb, by rw [if_pos hb]; rfl⟩
    · rw [any_cons, Bool.or_eq_true] at h
      obtain ⟨l₁, a, l₂, rfl, ha, hupdate⟩ := ih (h.resolve_left hb)
      exact ⟨b :: l₁, a, l₂, rfl, ha, by rw [if_neg hb, hupdate]; rfl⟩

theorem updateFirst_of_find? (h : l.find? test = some a) :
    ∃ l₁ l₂, l = l₁ ++ a :: l₂ ∧ updateFirst test f l = l₁ ++ f a :: l₂ := by
  induction l with
  | nil => cases h
  | cons b l ih =>
    rw [updateFirst]
    by_cases hb : test b = true
    · rw [find?_cons_of_pos hb] at h
      obtain rfl := some.inj h
      exact ⟨[], l, rfl, by rw [if_pos hb]; rfl⟩
    · rw [find?_cons_of_neg hb] at h
      obtain ⟨l₁, l₂, rfl, hupdate⟩ := ih h
      exact ⟨b :: l₁, l₂, rfl, by rw [if_neg hb, hupdate]; rfl⟩

theorem updateFirst_of_find?_none (h : l.find? test = none) : updateFirst test f l = l := by
  induction l with
  | nil => rfl
  | cons b l ih =>
    have hall := find?_eq_none.mp h
    rw [updateFirst, if_neg (hall b mem_cons_self)]
    rw [ih (find?_eq_none.mpr fun c hc => hall c (mem_cons_of_mem b hc))]

theorem find?_of_nodup_map [DecidableEq β] {g : α → β} (hl : (l.map g).Nodup) (ha : a ∈ l) :
    l.find? (fun b => g b = g a) = some a := by
  induction l with
  | nil => cases ha
  | cons b l ih =>
    rw [map_cons, nodup_cons] at hl
    rcases mem_cons.mp ha with rfl | ha
    · rw [find?_cons_of_pos (by simp)]
    · have hne : g b ≠ g a := fun h => hl.1 (h ▸ mem_map_of_mem ha)
      rw [find?_cons_of_neg (by simpa using hne), ih hl.2 ha]

theorem mem_updateFirst (h : a ∈ updateFirst test f l) : a ∈ l ∨ ∃ b ∈ l, test b = true ∧ a = f b := by
  induction l with
  | nil => cases h
  | cons b l ih =>
    rw [updateFirst] at h
    split at h
    · rename_i hb
      rcases mem_cons.mp h with rfl | h
      · exact Or.inr ⟨b, by simp, hb, rfl⟩
      · exact Or.inl (mem_cons_of_mem b h)
    · rcases mem_cons.mp h with rfl | h
      · exact Or.inl (by simp)
      · exact (ih h).imp (mem_cons_of_mem b) fun hnew =>
          hnew.imp fun c hc => ⟨mem_cons_of_mem b hc.1, hc.2⟩

theorem map_updateFirst {g : α → β} (h : ∀ a, g (f a) = g a) : (updateFirst test f l).map g = l.map g := by
  induction l with
  | nil => rfl
  | cons b l ih =>
    rw [updateFirst]
    split
    · rw [map_cons, map_cons, h]
    · rw [map_cons, map_cons, ih]

theorem filter_updateFirst {p : α → Bool} (h : ∀ a, test a = true → p a = false ∧ p (f a) = false) :
    (updateFirst test f l).filter p = l.filter p := by
  induction l with
  | nil => rfl
  | cons b l ih =>
    rw [updateFirst]
    split
    · rename_i hb
      rw [filter_cons_of_neg (by rw [(h b hb).2]; decide),
        filter_cons_of_neg (by rw [(h b hb).1]; decide)]
    · rw [filter_cons, filter_cons, ih]

theorem eraseIdx_of_mem_zipIdx {i : ℕ} (h : (a, i) ∈ l.zipIdx) :
    ∃ l₁ l₂, l = l₁ ++ a :: l₂ ∧ l.eraseIdx i = l₁ ++ l₂ := by
  obtain ⟨hi, ha⟩ := List.getElem?_eq_some_iff.mp (List.mk_mem_zipIdx_iff_getElem?.mp h)
  refine ⟨l.take i, l.drop (i + 1), ?_, List.eraseIdx_eq_take_drop_succ l i⟩
  rw [← ha, List.getElem_cons_drop, List.take_append_drop]

/-- A window of the newest elements: a full one loses its oldest to a new one. -/
theorem rtake_concat (l : List α) (a : α) (n : ℕ) : (l ++ [a]).rtake (n + 1)
      = (if n + 1 ≤ (l.rtake (n + 1)).length then (l.rtake (n + 1)).tail
        else l.rtake (n + 1)) ++ [a] := by
  have hlen : (l.rtake (n + 1)).length = min l.length (n + 1) := by
    rw [rtake, length_drop]
    omega
  rw [rtake_concat_succ, hlen]
  congr 1
  split
  · rw [rtake, rtake, tail_drop]
    congr 1
    omega
  · rw [rtake, rtake]
    congr 1
    omega

theorem getElem?_concat {i : ℕ} (h : l[i]? = some a) (b : α) : (l ++ [b])[i]? = some a := by
  obtain ⟨hi, -⟩ := List.getElem?_eq_some_iff.mp h
  rw [List.getElem?_append_left hi, h]

theorem nodup_concat (hl : l.Nodup) (ha : a ∉ l) : (l ++ [a]).Nodup := by
  refine nodup_append.mpr ⟨hl, nodup_singleton a, ?_⟩
  intro b hb c hc
  rw [mem_singleton.mp hc]
  exact fun hba => ha (hba ▸ hb)

theorem exists_set {R : α → α → Prop} (hrefl : ∀ a, R a a) {i : ℕ} {b : α} (ha : l[i]? = some a)
    (hab : R a b) (k : ℕ) (c : α) (hc : l[k]? = some c) : ∃ c', (l.set i b)[k]? = some c' ∧ R c c' := by
  by_cases hk : i = k
  · subst hk
    obtain rfl := some.inj (ha.symm.trans hc)
    obtain ⟨hi, -⟩ := List.getElem?_eq_some_iff.mp ha
    exact ⟨b, List.getElem?_set_self hi, hab⟩
  · exact ⟨c, by rw [List.getElem?_set_ne hk, hc], hrefl c⟩

theorem map_set_eq {g : α → β} {i : ℕ} {b : α} (ha : l[i]? = some a) (hab : g b = g a) :
    (l.set i b).map g = l.map g := by
  refine ext_getElem? fun k => ?_
  rw [getElem?_map, getElem?_map]
  by_cases hk : i = k
  · subst hk
    obtain ⟨hi, -⟩ := List.getElem?_eq_some_iff.mp ha
    rw [List.getElem?_set_self hi, ha, map_some, map_some, hab]
  · rw [List.getElem?_set_ne hk]

end

/-! ### Maps -/

/-- The order in which a map is iterated. -/
structure Arrangement (α : Type*) where
  arrange : List α → List α
  perm : ∀ l, (arrange l).Perm l

def Arrangement.asStored {α : Type*} : Arrangement α := ⟨id, fun _ => List.Perm.refl _⟩

section

variable {κ β : Type*}

def retain (keep : β → Bool) (t : AList fun _ : κ => β) : AList fun _ : κ => β :=
  ⟨t.entries.filter fun e => keep e.2, t.nodupKeys.sublist List.filter_sublist⟩

theorem lookup_retain [DecidableEq κ] (keep : β → Bool) (t : AList fun _ : κ => β) (k : κ) :
    (retain keep t).lookup k = (t.lookup k).filter keep := by
  refine ext fun v => ?_
  rw [← mem_def, ← mem_def, AList.mem_lookup_iff, mem_filter_iff, AList.mem_lookup_iff]
  exact mem_filter

theorem lookup_insert_eq_some [DecidableEq κ] {t : AList fun _ : κ => β} {k k' : κ} {v v' : β}
    (h : (t.insert k v).lookup k' = some v') : (k' = k ∧ v' = v) ∨ t.lookup k' = some v' := by
  by_cases hk : k' = k
  · subst hk
    rw [AList.lookup_insert] at h
    exact Or.inl ⟨rfl, (some.inj h).symm⟩
  · rw [AList.lookup_insert_ne hk] at h
    exact Or.inr h

theorem lookup_erase_eq_some [DecidableEq κ] {t : AList fun _ : κ => β} {k k' : κ} {v : β}
    (h : (t.erase k).lookup k' = some v) : k' ≠ k ∧ t.lookup k' = some v := by
  by_cases hk : k' = k
  · subst hk
    rw [AList.lookup_erase] at h
    cases h
  · rw [AList.lookup_erase_ne hk] at h
    exact ⟨hk, h⟩

end

end Karst
