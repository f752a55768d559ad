import Karst.Foundations.ByteStrings
import Mathlib.Data.Fintype.Pi

/-!
# NAT64 addresses

The embedding of `karst-transport/src/nat64.rs`: an IPv4 address is written into the octets behind an
IPv6 prefix, around the ninth one, and read back from there.  Reading looks at the prefix and at the four
octets, and at nothing else.
-/

namespace Karst.Transport

open Function List

abbrev Ipv4Addr := Fin 4 → UInt8
abbrev Ipv6Addr := Fin 16 → UInt8

def LEGAL : List ℕ := [32, 40, 48, 56, 64, 96]

def WKA : Ipv4Addr := ![192, 0, 0, 170]
def WKA2 : Ipv4Addr := ![192, 0, 0, 171]

/-- How many bits of an octet the prefix covers. -/
def covered (len : ℕ) (i : Fin 16) : ℕ := min (len - i * 8) 8

def hostMask (len : ℕ) (i : Fin 16) : UInt8 :=
  if 8 ≤ covered len i then 0 else 0xFF >>> UInt8.ofNat (covered len i)

/-- The octets that an address is embedded in. -/
def slots (len : ℕ) : Fin 4 → Fin 16 :=
  match len with
  | 32 => ![4, 5, 6, 7]
  | 40 => ![5, 6, 7, 9]
  | 48 => ![6, 7, 9, 10]
  | 56 => ![7, 9, 10, 11]
  | 64 => ![9, 10, 11, 12]
  | _ => ![12, 13, 14, 15]

structure Nat64Prefix where
  base : Ipv6Addr
  len : ℕ
  legal : len ∈ LEGAL
  empty : ∀ i, base i &&& hostMask len i = 0

inductive PrefixError where
  | length (len : ℕ)
  | notAPrefix

namespace Nat64Prefix

def new (addr : Ipv6Addr) (len : ℕ) : Except PrefixError Nat64Prefix :=
  if legal : len ∈ LEGAL then
    if empty : ∀ i, addr i &&& hostMask len i = 0 then .ok ⟨addr, len, legal, empty⟩
    else .error .notAPrefix
  else .error (.length len)

def synthesize (p : Nat64Prefix) (v4 : Ipv4Addr) : Ipv6Addr :=
  (List.finRange 4).foldl (fun out k => update out (slots p.len k) (v4 k)) p.base

def within (p : Nat64Prefix) (addr : Ipv6Addr) : Bool :=
  (List.finRange 16).all fun i =>
    covered p.len i == 0
      || addr i &&& (0xFF <<< UInt8.ofNat (8 - covered p.len i))
        == p.base i &&& (0xFF <<< UInt8.ofNat (8 - covered p.len i))

def extract (p : Nat64Prefix) (addr : Ipv6Addr) : Option Ipv4Addr :=
  if p.within addr then some fun k => addr (slots p.len k) else none

/-- One turn of the loop over the lengths. -/
def trial (answer : Ipv6Addr) (len : ℕ) : Option Nat64Prefix :=
  match new ((List.finRange 4).foldl (fun out k => update out (slots len k) 0) answer) len with
  | .error _ => none
  | .ok candidate =>
    match candidate.extract answer with
    | some v4 => if v4 = WKA ∨ v4 = WKA2 then some candidate else none
    | none => none

/-- Every legal length is tried, the longest first. -/
def fromIpv4onlyArpa (answer : Ipv6Addr) : Option Nat64Prefix :=
  LEGAL.reverse.findSome? (trial answer)

/-! ### The layout -/

theorem slots_injective : ∀ len ∈ LEGAL, Injective (slots len) := by
  decide

/-- Addresses are embedded behind the prefix. -/
theorem le_slots : ∀ len ∈ LEGAL, ∀ k, len ≤ slots len k * 8 := by
  decide

theorem covered_eq : ∀ len ∈ LEGAL, ∀ i, covered len i = if i * 8 < len then 8 else 0 := by
  decide

/-- A longer prefix does not look for its first octet where a shorter one puts its own. -/
theorem first_slot_ne : ∀ len ∈ LEGAL, ∀ longer ∈ LEGAL, len < longer →
    slots longer 0 ≠ slots len 0 ∧ len ≤ slots longer 0 * 8 := by
  decide

theorem and_ones (b : UInt8) : b &&& 0xFF = b := UInt8.and_neg_one

variable {p : Nat64Prefix} {a : Ipv4Addr} {x : Ipv6Addr} {i : Fin 16}

theorem base_host (hi : p.len ≤ i * 8) : p.base i = 0 := by
  have h := p.empty i
  rwa [hostMask, covered_eq p.len p.legal, if_neg (Nat.not_lt.mpr hi), if_neg (by decide),
    show (0xFF : UInt8) >>> UInt8.ofNat 0 = 0xFF by decide, and_ones] at h

theorem within_iff : p.within x = true ↔ ∀ i : Fin 16, i * 8 < p.len → x i = p.base i := by
  rw [within, all_eq_true]
  refine forall_congr' fun i => ?_
  rw [covered_eq p.len p.legal]
  by_cases hi : i * 8 < p.len
  · simp [hi, and_ones]
  · simp [hi]

theorem embed_slot (out : Ipv6Addr) {len : ℕ} (hlen : len ∈ LEGAL) (k : Fin 4) :
    (finRange 4).foldl (fun out k => update out (slots len k) (a k)) out (slots len k) = a k := by
  have hinj := slots_injective len hlen
  fin_cases k <;> simp [finRange, hinj.eq_iff]

theorem embed_other {out : Ipv6Addr} {len : ℕ} (hi : ∀ k, i ≠ slots len k) :
    (finRange 4).foldl (fun out k => update out (slots len k) (a k)) out i = out i := by
  simp [finRange, hi]

theorem synthesize_slot (k : Fin 4) : p.synthesize a (slots p.len k) = a k := embed_slot _ p.legal k

theorem synthesize_other (hi : ∀ k, i ≠ slots p.len k) : p.synthesize a i = p.base i := embed_other hi

theorem within_synthesize : p.within (p.synthesize a) = true := by
  refine within_iff.mpr fun i hi => synthesize_other fun k hk => ?_
  exact absurd (le_slots p.len p.legal k) (by rw [← hk]; omega)

theorem extract_synthesize : p.extract (p.synthesize a) = some a := by
  rw [extract, if_pos within_synthesize]
  exact congrArg some (funext synthesize_slot)

/-! ### Discovery -/

theorem trial_own (ha : a = WKA ∨ a = WKA2) : trial (p.synthesize a) p.len = some p := by
  have hbase : (finRange 4).foldl (fun out k => update out (slots p.len k) 0) (p.synthesize a) = p.base := by
    funext i
    by_cases hi : ∃ k, i = slots p.len k
    · obtain ⟨k, rfl⟩ := hi
      rw [base_host (le_slots p.len p.legal k)]
      exact embed_slot _ p.legal k
    · rw [not_exists] at hi
      exact (embed_other hi).trans (synthesize_other hi)
  rw [trial, hbase, new, dif_pos p.legal, dif_pos p.empty]
  simp [extract_synthesize, ha]

theorem trial_longer (ha : a = WKA ∨ a = WKA2) {longer : ℕ} (hlonger : longer ∈ LEGAL)
    (h : p.len < longer) : trial (p.synthesize a) longer = none := by
  have hfirst : p.synthesize a (slots longer 0) ≠ 192 := by
    obtain ⟨hne, hhost⟩ := first_slot_ne p.len p.legal longer hlonger h
    by_cases hi : ∃ k, slots longer 0 = slots p.len k
    · obtain ⟨k, hk⟩ := hi
      rw [hk, synthesize_slot]
      have hoctets : ∀ k ≠ 0, WKA k ≠ 192 ∧ WKA2 k ≠ 192 := by decide
      obtain ⟨h1, h2⟩ := hoctets k fun h0 => hne (h0 ▸ hk)
      rcases ha with rfl | rfl
      · exact h1
      · exact h2
    · rw [not_exists] at hi
      rw [synthesize_other hi, base_host hhost]
      decide
  rw [trial, new, dif_pos hlonger]
  split
  · rfl
  rename_i candidate hnew
  obtain ⟨hempty, rfl⟩ := (dite_eq_iff.mp hnew).resolve_right nofun |>.imp fun _ => Except.ok.inj
  rw [extract]
  split
  · rename_i v4 hv4
    cases (Option.ite_none_right_eq_some.mp hv4).2
    rw [if_neg]
    rintro (h | h) <;> exact hfirst (congrFun h 0)
  · rfl

theorem fromIpv4onlyArpa_synthesize (ha : a = WKA ∨ a = WKA2) :
    fromIpv4onlyArpa (p.synthesize a) = some p := by
  have hsorted : LEGAL.reverse.Pairwise (· > ·) := by decide
  obtain ⟨longer, shorter, hsplit⟩ := append_of_mem (mem_reverse.mpr p.legal)
  have hnone : longer.findSome? (trial (p.synthesize a)) = none := by
    refine findSome?_eq_none_iff.mpr fun len hlen => trial_longer ha ?_ ?_
    · exact mem_reverse.mp (hsplit ▸ mem_append_left _ hlen)
    · rw [hsplit, pairwise_append] at hsorted
      exact hsorted.2.2 len hlen p.len mem_cons_self
  rw [fromIpv4onlyArpa, hsplit, findSome?_append, hnone, findSome?_cons, trial_own ha]
  rfl

/-- **The embedding.**  What is written is read back, the prefix is recovered from either well-known
address, and an address that is read as IPv4 is the one that would be written for it, exactly if an
address with the prefix has nothing in the octets that are neither prefix nor IPv4. -/
theorem respelling_faithful_iff (p : Nat64Prefix) (x : Ipv6Addr) : ((∀ a, p.extract (p.synthesize a) = some a)
        ∧ (∀ a, a = WKA ∨ a = WKA2 → fromIpv4onlyArpa (p.synthesize a) = some p)
        ∧ ∀ a, p.extract x = some a → p.synthesize a = x) ↔ ((∀ i : Fin 16, i * 8 < p.len → x i = p.base i) →
        ∀ i : Fin 16, p.len ≤ i * 8 → (∀ k, i ≠ slots p.len k) → x i = 0) := by
  refine ⟨fun h hin i hi hslot => ?_, fun h => ⟨fun _ => extract_synthesize,
    fun _ => fromIpv4onlyArpa_synthesize, fun a ha => funext fun i => ?_⟩⟩
  · rw [← h.2.2 _ (if_pos (within_iff.mpr hin)), synthesize_other hslot, base_host hi]
  · obtain ⟨hin, ha⟩ := Option.ite_none_right_eq_some.mp ha
    cases ha
    by_cases hslot : ∃ k, i = slots p.len k
    · obtain ⟨k, rfl⟩ := hslot
      exact synthesize_slot k
    · rw [not_exists] at hslot
      rw [synthesize_other hslot]
      by_cases hi : i * 8 < p.len
      · exact (within_iff.mp hin i hi).symm
      · rw [base_host (Nat.not_lt.mp hi), h (within_iff.mp hin) i (Nat.not_lt.mp hi) hslot]

def documentation : Nat64Prefix :=
  ⟨![0x20, 0x01, 0x0d, 0xb8, 0, 0, 0, 0, 0, 0, 0, 0, 0, 0, 0, 0], 32, by decide, by decide⟩

/-- Two hosts of one network, and one of them is renamed to the other. -/
theorem renamed_host :
    let x : Ipv6Addr := ![0x20, 0x01, 0x0d, 0xb8, 192, 0, 2, 1, 0, 0, 0, 0, 0, 0, 0, 7]
    documentation.extract x = some ![192, 0, 2, 1] ∧ documentation.synthesize ![192, 0, 2, 1] ≠ x := by
  decide

end Nat64Prefix

end Karst.Transport
