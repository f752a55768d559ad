import Karst.Foundations.RankedLists
import Karst.Datapath.PacketFilter

/-!
# Cryptokey routing

`AllowedIps` of `karstd/src/routing.rs`: which peer carries a packet, and which source addresses a
peer may speak for.  The table is built from pairs of a range and a peer, and kept sorted with the
longest range first, so that the first range that contains an address is the longest one.
-/

namespace Karst.Datapath

open Net Option Except
open List hiding Vector

/-- An interface's own address; host bits intact. -/
structure InterfaceAddress where
  addr : IpAddr
  prefixLen : ℕ

/-- Which peer owns which ranges, the longest first; no range is in it twice. -/
structure AllowedIps where
  entries : List (Prefix × PeerIndex)
  sorted : entries.Pairwise fun a b => b.1.len ≤ a.1.len
  distinct : (entries.map Prod.fst).Nodup

namespace AllowedIps

def empty : AllowedIps := ⟨[], .nil, .nil⟩

def route (t : AllowedIps) (addr : IpAddr) : Option PeerIndex :=
  (t.entries.find? fun e => e.1.contains addr).map Prod.snd

def permits (t : AllowedIps) (peer : PeerIndex) (addr : IpAddr) : Bool :=
  t.entries.any fun e => e.2 == peer && e.1.contains addr

/-! ### Building the table -/

structure Conflict where
  range : Prefix
  first : PeerIndex
  second : PeerIndex

/-- The loop of `build`: every pair in turn, after those that were taken before it. -/
def claim (taken : List (Prefix × PeerIndex)) :
    List (Prefix × PeerIndex) → Except Conflict (List (Prefix × PeerIndex))
  | [] => .ok taken
  | (range, peer) :: rest =>
    match taken.find? fun e => decide (e.1 = range) with
    | some (_, first) => .error ⟨range, first, peer⟩
    | none => claim (taken ++ [(range, peer)]) rest

/-- The order `sort_by_key` sorts by, which is stable. -/
def LongerFirst (a b : Prefix × PeerIndex) : Prop := b.1.len ≤ a.1.len

instance : DecidableRel LongerFirst := fun a b => inferInstanceAs (Decidable (b.1.len ≤ a.1.len))

instance : Std.Total LongerFirst := ⟨fun a b => Nat.le_total b.1.len a.1.len⟩

instance : IsTrans (Prefix × PeerIndex) LongerFirst := ⟨fun _ _ _ hab hbc => Nat.le_trans hbc hab⟩

section

variable {taken pairs entries : List (Prefix × PeerIndex)} {range : Prefix} {peer : PeerIndex} {c : Conflict}

theorem find_claimed_eq_none :
    (taken.find? fun e => decide (e.1 = range)) = none ↔ range ∉ taken.map Prod.fst := by
  rw [List.find?_eq_none, List.mem_map]
  constructor
  · intro h hmem
    obtain ⟨e, he, hrange⟩ := hmem
    exact h e he (decide_eq_true hrange)
  · intro h e he hrange
    exact h ⟨e, he, of_decide_eq_true hrange⟩

theorem claim_eq_ok (htaken : (taken.map Prod.fst).Nodup) : claim taken pairs = .ok entries
      ↔ entries = taken ++ pairs ∧ ((taken ++ pairs).map Prod.fst).Nodup := by
  induction pairs generalizing taken with
  | nil =>
    rw [append_nil]
    constructor
    · intro h
      exact ⟨(ok.inj h).symm, htaken⟩
    · intro h
      rw [h.1]
      rfl
  | cons pair rest ih =>
    rcases pair with ⟨range, peer⟩
    have hassoc : taken ++ (range, peer) :: rest = taken ++ [(range, peer)] ++ rest := by simp
    rw [claim, hassoc]
    by_cases hmem : range ∈ taken.map Prod.fst
    · -- The range was taken before: the table is refused, and there is a repetition.
      have hdup : ¬ ((taken ++ [(range, peer)] ++ rest).map Prod.fst).Nodup := by
        intro hnodup
        rw [map_append, map_append] at hnodup
        have hleft := (nodup_append.mp (nodup_append.mp hnodup).1).2.2
        exact hleft range hmem range (by simp) rfl
      cases hfind : taken.find? fun e => decide (e.1 = range) with
      | none => exact absurd hmem (find_claimed_eq_none.mp hfind)
      | some found =>
        constructor
        · intro h
          cases h
        · intro h
          exact absurd h.2 hdup
    · rw [find_claimed_eq_none.mpr hmem]
      refine ih ?_
      rw [map_append]
      exact Nodup.append htaken (nodup_singleton _) (by simpa using hmem)

theorem claim_nil_eq_ok : claim [] pairs = .ok entries ↔ entries = pairs ∧ (pairs.map Prod.fst).Nodup :=
  claim_eq_ok .nil

theorem distinct_of_claim (h : claim [] pairs = .ok entries) :
    ((entries.insertionSort LongerFirst).map Prod.fst).Nodup := by
  obtain ⟨rfl, hnodup⟩ := claim_nil_eq_ok.mp h
  exact ((perm_insertionSort LongerFirst _).map Prod.fst).nodup_iff.mpr hnodup

end

/-- Build a table from pairs of a range and a peer; two peers with the same range are refused. -/
def build (pairs : List (Prefix × PeerIndex)) : Except Conflict AllowedIps :=
  match h : claim [] pairs with
  | .error c => .error c
  | .ok entries =>
    .ok ⟨entries.insertionSort LongerFirst, List.pairwise_insertionSort LongerFirst entries,
      distinct_of_claim h⟩

section

variable {pairs pairs' : List (Prefix × PeerIndex)} {t t' : AllowedIps} {c : Conflict} {addr : IpAddr}

theorem build_of_claim_ok {entries : List (Prefix × PeerIndex)} (h : claim [] pairs = .ok entries) :
    ∃ t, build pairs = .ok t ∧ t.entries = entries.insertionSort LongerFirst := by
  unfold build
  split
  · rename_i c hc
    rw [h] at hc
    cases hc
  · rename_i es hes
    rw [h] at hes
    obtain rfl := ok.inj hes
    exact ⟨_, rfl, rfl⟩

theorem build_of_claim_error (h : claim [] pairs = .error c) : build pairs = .error c := by
  unfold build
  split
  · rename_i c' hc
    rw [h] at hc
    rw [error.inj hc]
  · rename_i es hes
    rw [h] at hes
    cases hes

theorem build_eq_ok_iff : (∃ t, build pairs = .ok t) ↔ (pairs.map Prod.fst).Nodup := by
  constructor
  · intro h
    obtain ⟨t, ht⟩ := h
    cases hclaim : claim [] pairs with
    | error c =>
      rw [build_of_claim_error hclaim] at ht
      cases ht
    | ok entries => exact (claim_nil_eq_ok.mp hclaim).2
  · intro h
    obtain ⟨t, ht, -⟩ := build_of_claim_ok (claim_nil_eq_ok.mpr ⟨rfl, h⟩)
    exact ⟨t, ht⟩

theorem entries_perm (h : build pairs = .ok t) : t.entries.Perm pairs := by
  cases hclaim : claim [] pairs with
  | error c =>
    rw [build_of_claim_error hclaim] at h
    cases h
  | ok entries =>
    obtain ⟨t', ht', hentries⟩ := build_of_claim_ok hclaim
    rw [ht'] at h
    rw [← ok.inj h, hentries, (claim_nil_eq_ok.mp hclaim).1]
    exact perm_insertionSort LongerFirst _

end

/-! ### Lookups -/

section

variable {pairs : List (Prefix × PeerIndex)} {t : AllowedIps} {addr : IpAddr} {peer : PeerIndex}

def LongestMatch (pairs : List (Prefix × PeerIndex)) (addr : IpAddr) (peer : PeerIndex) : Prop :=
  ∃ range, (range, peer) ∈ pairs ∧ SameNet range.len addr range.base
    ∧ ∀ e ∈ pairs, SameNet e.1.len addr e.1.base → e.1.len ≤ range.len

theorem longestMatch_iff :
    LongestMatch pairs addr peer ↔ ∃ range, IsBest (fun e : Prefix × PeerIndex => e.1.len)
      (fun e => e.1.contains addr) pairs (range, peer) := by
  simp only [LongestMatch, IsBest, Prefix.contains_iff]

theorem eq_of_contains {a b : Prefix × PeerIndex} (ha : a ∈ t.entries) (hb : b ∈ t.entries)
    (haddr : a.1.contains addr = true) (hbddr : b.1.contains addr = true)
    (hlen : a.1.len = b.1.len) : a = b :=
  inj_on_of_nodup_map t.distinct ha hb (Prefix.eq_of_contains haddr hbddr hlen)

theorem route_eq_some : t.route addr = some peer ↔ LongestMatch t.entries addr peer := by
  rw [longestMatch_iff, route, map_eq_some_iff]
  have hbest (e : Prefix × PeerIndex) : (t.entries.find? fun e => e.1.contains addr) = some e
        ↔ IsBest (fun e => e.1.len) (fun e => e.1.contains addr) t.entries e :=
    find?_eq_some_iff_best t.sorted fun a ha b hb => eq_of_contains ha hb
  constructor
  · intro h
    obtain ⟨e, he, rfl⟩ := h
    exact ⟨e.1, (hbest e).mp he⟩
  · intro h
    obtain ⟨range, hrange⟩ := h
    exact ⟨(range, peer), (hbest _).mpr hrange, rfl⟩

theorem route_eq_none : t.route addr = none ↔ ∀ e ∈ t.entries, ¬ SameNet e.1.len addr e.1.base := by
  simp only [route, map_eq_none_iff, find?_eq_none, Prefix.contains_iff]

theorem longestMatch_of_perm {pairs' : List (Prefix × PeerIndex)} (hperm : pairs'.Perm pairs)
    (h : LongestMatch pairs addr peer) : LongestMatch pairs' addr peer := by
  rw [longestMatch_iff] at h ⊢
  obtain ⟨range, hrange⟩ := h
  exact ⟨range, hrange.of_perm hperm⟩

theorem route_eq_some_of_build (h : build pairs = .ok t) :
    t.route addr = some peer ↔ LongestMatch pairs addr peer := by
  rw [route_eq_some]
  constructor
  · exact longestMatch_of_perm (entries_perm h).symm
  · exact longestMatch_of_perm (entries_perm h)

theorem route_eq_of_perm {pairs' : List (Prefix × PeerIndex)} {t' : AllowedIps}
    (h : build pairs = .ok t) (h' : build pairs' = .ok t') (hperm : pairs'.Perm pairs) :
    t'.route addr = t.route addr := by
  refine ext fun peer => ?_
  rw [route_eq_some_of_build h, route_eq_some_of_build h']
  constructor
  · exact longestMatch_of_perm hperm.symm
  · exact longestMatch_of_perm hperm

theorem permits_of_route (h : t.route addr = some peer) : t.permits peer addr = true := by
  obtain ⟨range, hmem, hnet, -⟩ := route_eq_some.mp h
  refine any_eq_true.mpr ⟨(range, peer), hmem, ?_⟩
  rw [beq_self_eq_true, Bool.true_and]
  exact Prefix.contains_iff.mpr hnet

/-- **Route lookup is longest-prefix match**, in whatever order the table was built. -/
theorem route_longest (h : build pairs = .ok t) (addr : IpAddr) :
    (∀ peer, t.route addr = some peer ↔ LongestMatch pairs addr peer)
      ∧ (t.route addr = none ↔ ∀ e ∈ pairs, ¬ SameNet e.1.len addr e.1.base)
      ∧ (∀ pairs', pairs'.Perm pairs → ∃ t', build pairs' = .ok t' ∧ t'.route addr = t.route addr)
      ∧ (∀ peer, t.route addr = some peer → t.permits peer addr = true)
      ∧ ∀ range : Prefix, range.contains addr = true → range.base.isIpv4 = addr.isIpv4 := by
  refine ⟨fun peer => route_eq_some_of_build h, ?_, ?_, fun peer => permits_of_route,
    fun range => Prefix.isIpv4_of_contains⟩
  · rw [route_eq_none]
    simp only [(entries_perm h).mem_iff]
  · intro pairs' hperm
    have hnodup := build_eq_ok_iff.mp ⟨t, h⟩
    obtain ⟨t', ht'⟩ := build_eq_ok_iff.mpr ((hperm.map Prod.fst).nodup_iff.mpr hnodup)
    exact ⟨t', ht', route_eq_of_perm h ht' hperm⟩

def defaultRange : Prefix := ⟨.v4 0, 0, by decide, by decide⟩

def siteRange : Prefix := ⟨.v4 0x0A000000, 8, by decide, by decide⟩

theorem route_longest_nested :
    ∃ t, build [(defaultRange, 0), (siteRange, 1)] = .ok t ∧ t.route (.v4 0x0A000001) = some 1
      ∧ t.route (.v4 0x08080808) = some 0 ∧ t.route (.v6 1) = none := by
  obtain ⟨t, ht⟩ : ∃ t, build [(defaultRange, 0), (siteRange, 1)] = .ok t :=
    build_eq_ok_iff.mpr (by decide)
  refine ⟨t, ht, ?_, ?_, ?_⟩
  · refine ((route_longest ht _).1 1).mpr (longestMatch_iff.mpr ⟨siteRange, ?_⟩)
    decide
  · refine ((route_longest ht _).1 0).mpr (longestMatch_iff.mpr ⟨defaultRange, ?_⟩)
    decide
  · refine (route_longest ht _).2.1.mpr ?_
    simp only [← Prefix.contains_iff]
    decide

end

end AllowedIps

end Karst.Datapath
