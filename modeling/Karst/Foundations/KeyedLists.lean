import Mathlib

/-!
# Keyed lists

An ordered map whose values know their keys: a list of values in strictly increasing order of their keys.
Two of them with the same members are the same list, so what a sequence of updates leaves is found by
asking which values are members.
-/

namespace Karst

open List hiding Vector

variable {α κ : Type*} [LinearOrder κ]

/-- Values in strictly increasing order of their keys. -/
structure KeyedList (key : α → κ) where
  toList : List α
  sorted : toList.Pairwise fun a b => key a < key b

namespace KeyedList

variable {key : α → κ} {t u : KeyedList key} {a b : α}

@[ext] theorem ext_toList (h : t.toList = u.toList) : t = u := by
  cases t
  cases u
  cases h
  rfl

instance [DecidableEq α] : DecidableEq (KeyedList key) := fun t u =>
  decidable_of_iff (t.toList = u.toList) ⟨ext_toList, fun h => h ▸ rfl⟩

def empty : KeyedList key := ⟨[], List.Pairwise.nil⟩

def get? (t : KeyedList key) (k : κ) : Option α := t.toList.find? fun a => key a = k

def remove (t : KeyedList key) (k : κ) : KeyedList key :=
  ⟨t.toList.filter fun a => key a ≠ k, t.sorted.filter _⟩

theorem sorted_orderedInsert {l : List α} (hl : l.Pairwise fun a b => key a < key b)
    (ha : ∀ b ∈ l, key b ≠ key a) :
    (l.orderedInsert (fun a b => key a ≤ key b) a).Pairwise fun a b => key a < key b := by
  induction l with
  | nil => exact pairwise_singleton _ _
  | cons b l ih =>
    obtain ⟨hb, hl⟩ := pairwise_cons.mp hl
    obtain ⟨hne, hrest⟩ := forall_mem_cons.mp ha
    rw [orderedInsert]
    split
    · rename_i hle
      have hlt : key a < key b := lt_of_le_of_ne hle hne.symm
      refine pairwise_cons.mpr ⟨?_, pairwise_cons.mpr ⟨hb, hl⟩⟩
      intro c hc
      rcases mem_cons.mp hc with rfl | hc
      · exact hlt
      · exact hlt.trans (hb c hc)
    · rename_i hle
      refine pairwise_cons.mpr ⟨?_, ih hl hrest⟩
      intro c hc
      rcases (mem_orderedInsert _).mp hc with rfl | hc
      · exact lt_of_not_ge hle
      · exact hb c hc

/-- The value takes the place of one with the same key. -/
def put (t : KeyedList key) (a : α) : KeyedList key :=
  ⟨(t.remove (key a)).toList.orderedInsert (fun a b => key a ≤ key b) a,
    sorted_orderedInsert (t.remove (key a)).sorted fun b hb => by
      simpa using (List.mem_filter.mp hb).2⟩

theorem mem_remove {k : κ} : a ∈ (t.remove k).toList ↔ a ∈ t.toList ∧ key a ≠ k := by
  simp [remove]

theorem mem_put : b ∈ (t.put a).toList ↔ b = a ∨ (b ∈ t.toList ∧ key b ≠ key a) := by
  show b ∈ (t.remove (key a)).toList.orderedInsert _ a ↔ _
  rw [mem_orderedInsert, mem_remove]

theorem ext_mem (h : ∀ a, a ∈ t.toList ↔ a ∈ u.toList) : t = u := by
  have hnodup (v : KeyedList key) : v.toList.Nodup :=
    v.sorted.imp fun hlt heq => absurd (heq ▸ hlt) (lt_irrefl _)
  have hperm : t.toList.Perm u.toList := (perm_ext_iff_of_nodup (hnodup t) (hnodup u)).mpr h
  refine ext_toList (hperm.eq_of_pairwise ?_ t.sorted u.sorted)
  intro a b _ _ hab hba
  exact absurd (hab.trans hba) (lt_irrefl _)

/-! ### Many updates -/

def putAll (t : KeyedList key) (l : List α) : KeyedList key := l.foldl put t

def removeAll (t : KeyedList key) (ks : List κ) : KeyedList key := ks.foldl remove t

theorem mem_putAll {l : List α} (hl : (l.map key).Nodup) :
    b ∈ (t.putAll l).toList ↔ b ∈ l ∨ (b ∈ t.toList ∧ ∀ a ∈ l, key a ≠ key b) := by
  induction l generalizing t with
  | nil => simp [putAll]
  | cons a l ih =>
    rw [map_cons, nodup_cons] at hl
    have hstep := ih (t := t.put a) hl.2
    rw [show t.putAll (a :: l) = (t.put a).putAll l from rfl, hstep, mem_put, mem_cons, forall_mem_cons]
    constructor
    · rintro (hb | ⟨rfl | ⟨hb, hne⟩, hall⟩)
      · exact .inl (.inr hb)
      · exact .inl (.inl rfl)
      · exact .inr ⟨hb, hne.symm, hall⟩
    · rintro ((rfl | hb) | ⟨hb, hne, hall⟩)
      · refine .inr ⟨.inl rfl, ?_⟩
        intro c hc heq
        exact hl.1 (heq ▸ mem_map_of_mem hc)
      · exact .inl hb
      · exact .inr ⟨.inr ⟨hb, hne.symm⟩, hall⟩

theorem mem_removeAll {ks : List κ} : a ∈ (t.removeAll ks).toList ↔ a ∈ t.toList ∧ key a ∉ ks := by
  induction ks generalizing t with
  | nil => simp [removeAll]
  | cons k ks ih =>
    rw [show t.removeAll (k :: ks) = (t.remove k).removeAll ks from rfl, ih, mem_remove,
      mem_cons, not_or, and_assoc]

theorem putAll_empty {l : List α} (hl : l.Pairwise fun a b => key a < key b) :
    (empty : KeyedList key).putAll l = ⟨l, hl⟩ := by
  refine ext_mem fun b => ?_
  rw [mem_putAll (pairwise_map.mpr (hl.imp ne_of_lt))]
  simp [empty]

end KeyedList

end Karst
