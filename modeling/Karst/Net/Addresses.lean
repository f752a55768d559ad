import Karst.Foundations.Texts
import Karst.Foundations.Fallible

/-!
# Addresses and ranges

Two libraries of address ranges.  The datapath has its own, `karstd/src/routing.rs`: a `Prefix` is
kept masked and contains what masks to it.  The control plane uses Go's `net/netip`, whose ranges
compare the leading bits; of it only the texts of addresses are left open, with what its
documentation says of them.
-/

namespace Karst.Net

inductive IpAddr where
  | v4 (bits : BitVec 32)
  | v6 (bits : BitVec 128)
  deriving DecidableEq

namespace IpAddr

def width : IpAddr → ℕ
  | .v4 _ => 32
  | .v6 _ => 128

def isIpv4 : IpAddr → Bool
  | .v4 _ => true
  | .v6 _ => false

theorem width_le (a : IpAddr) : a.width ≤ 128 := by
  cases a <;> simp [width]

end IpAddr

/-! ### Leading bits -/

def leading (w len : ℕ) : BitVec w :=
  if len = 0 then 0 else BitVec.allOnes w <<< (w - min len w)

section

variable {w : ℕ} {a b : BitVec w} {len : ℕ}

theorem getLsbD_leading (hlen : len ≤ w) (i : ℕ) :
    (leading w len).getLsbD i = (decide (i < w) && decide (w - len ≤ i)) := by
  unfold leading
  by_cases h0 : len = 0
  · by_cases hi : i < w
    · simp [h0, hi, Nat.not_le.mpr hi]
    · simp [h0, hi]
  · rw [if_neg h0, Nat.min_eq_left hlen, BitVec.getLsbD_shiftLeft, BitVec.getLsbD_allOnes]
    by_cases hi : i < w
    · by_cases hle : w - len ≤ i
      · simp [hi, hle, Nat.not_lt.mpr hle]
        omega
      · simp [hi, hle, Nat.not_le.mp hle]
    · simp [hi]

theorem and_leading_eq_iff (hlen : len ≤ w) : a &&& leading w len = b &&& leading w len
      ↔ ∀ i, i < w → w - len ≤ i → a.getLsbD i = b.getLsbD i := by
  constructor
  · intro h i hi hle
    have hbit := congrArg (fun v => BitVec.getLsbD v i) h
    simpa only [BitVec.getLsbD_and, getLsbD_leading hlen, hi, hle, decide_true, Bool.and_true] using hbit
  · intro h
    refine BitVec.eq_of_getLsbD_eq fun i hi => ?_
    rw [BitVec.getLsbD_and, BitVec.getLsbD_and, getLsbD_leading hlen]
    by_cases hle : w - len ≤ i
    · rw [h i hi hle]
    · simp [hle]

theorem xor_shift_eq_zero_iff :
    (a ^^^ b) >>> (w - len) = 0#w ↔ ∀ i, i < w → w - len ≤ i → a.getLsbD i = b.getLsbD i := by
  constructor
  · intro h i hi hle
    have hbit := congrArg (fun v => BitVec.getLsbD v (i - (w - len))) h
    simpa [BitVec.getLsbD_ushiftRight, Nat.add_sub_cancel' hle] using hbit
  · intro h
    refine BitVec.eq_of_getLsbD_eq fun i hi => ?_
    rw [BitVec.getLsbD_ushiftRight, BitVec.getLsbD_xor, BitVec.getLsbD_zero]
    by_cases hw : w - len + i < w
    · rw [h _ hw (Nat.le_add_right _ _), Bool.xor_self]
    · rw [BitVec.getLsbD_of_ge _ _ (Nat.not_lt.mp hw), BitVec.getLsbD_of_ge _ _ (Nat.not_lt.mp hw)]
      rfl

theorem xor_and_leading_eq_zero_iff (hlen : len ≤ w) : (a ^^^ b) &&& leading w len = 0#w
      ↔ ∀ i, i < w → w - len ≤ i → a.getLsbD i = b.getLsbD i := by
  have hxor : (a ^^^ b) &&& leading w len = (a &&& leading w len) ^^^ (b &&& leading w len) :=
    BitVec.eq_of_getLsbD_eq fun i _ => by simp [Bool.and_xor_distrib_right]
  rw [hxor, BitVec.xor_eq_zero_iff, and_leading_eq_iff hlen]

end

/-- Two addresses of one family with the same `len` leading bits. -/
def SameNet (len : ℕ) : IpAddr → IpAddr → Prop
  | .v4 a, .v4 b => ∀ i, i < 32 → 32 - len ≤ i → a.getLsbD i = b.getLsbD i
  | .v6 a, .v6 b => ∀ i, i < 128 → 128 - len ≤ i → a.getLsbD i = b.getLsbD i
  | _, _ => False

/-! ### The datapath's ranges -/

def mask (addr : IpAddr) (len : ℕ) : IpAddr :=
  match addr with
  | .v4 a => .v4 (a &&& leading 32 len)
  | .v6 a => .v6 (a &&& leading 128 len)

@[simp] theorem mask_width (addr : IpAddr) (len : ℕ) : (mask addr len).width = addr.width := by
  cases addr <;> rfl

@[simp] theorem mask_mask (addr : IpAddr) (len : ℕ) : mask (mask addr len) len = mask addr len := by
  cases addr <;> simp [mask, BitVec.and_assoc]

/-- `routing::Prefix`: its fields are private, and every way to build one masks the address. -/
structure Prefix where
  base : IpAddr
  len : ℕ
  len_le : len ≤ base.width
  masked : mask base len = base
  deriving DecidableEq

inductive PrefixError where
  | malformed (text : Bytes)
  | lengthOutOfRange (len max : ℕ)

namespace Prefix

def new (base : IpAddr) (len : ℕ) : Except PrefixError Prefix :=
  if h : len ≤ base.width then
    .ok ⟨mask base len, len, by rw [mask_width]; exact h, mask_mask base len⟩
  else .error (.lengthOutOfRange len base.width)

theorem mask_full (addr : IpAddr) : mask addr addr.width = addr := by
  cases addr with
  | v4 a =>
    refine congrArg IpAddr.v4 ?_
    show a &&& leading 32 32 = a
    rw [show leading 32 32 = BitVec.allOnes 32 from by decide, BitVec.and_allOnes]
  | v6 a =>
    refine congrArg IpAddr.v6 ?_
    show a &&& leading 128 128 = a
    rw [show leading 128 128 = BitVec.allOnes 128 from by decide, BitVec.and_allOnes]

def host (addr : IpAddr) : Prefix := ⟨addr, addr.width, le_rfl, mask_full addr⟩

def contains (p : Prefix) (addr : IpAddr) : Bool :=
  match p.base, addr with
  | .v4 _, .v4 _ => decide (mask addr p.len = p.base)
  | .v6 _, .v6 _ => decide (mask addr p.len = p.base)
  | _, _ => false

variable {p : Prefix} {addr : IpAddr}

theorem mask_eq_of_contains (h : p.contains addr = true) : mask addr p.len = p.base := by
  unfold contains at h
  split at h
  · exact of_decide_eq_true h
  · exact of_decide_eq_true h
  · cases h

def parseLength (s : Bytes) : Option ℕ :=
  match s with
  | 0x2B :: rest => parseUint 256 rest
  | s => parseUint 256 s

/-- `Prefix::from_str`, given how addresses are read. -/
def fromStr (parseIp : Bytes → Option IpAddr) (s : Bytes) : Except PrefixError Prefix :=
  match cutAt 0x2F s with
  | none => do
    let addr ← okOr (.malformed s) (parseIp s)
    return host addr
  | some (addr, len) => do
    let addr ← okOr (.malformed s) (parseIp addr)
    let len ← okOr (.malformed s) (parseLength len)
    new addr len

theorem contains_iff : p.contains addr = true ↔ SameNet p.len addr p.base := by
  obtain ⟨base, len, hlen, hmasked⟩ := p
  cases base with
  | v4 b =>
    cases addr with
    | v4 a =>
      have hb : b &&& leading 32 len = b := IpAddr.v4.inj hmasked
      have hlen' : len ≤ 32 := hlen
      simp only [contains, decide_eq_true_eq, mask, IpAddr.v4.injEq, SameNet]
      rw [← and_leading_eq_iff hlen', hb]
    | v6 a => simp [contains, SameNet]
  | v6 b =>
    cases addr with
    | v4 a => simp [contains, SameNet]
    | v6 a =>
      have hb : b &&& leading 128 len = b := IpAddr.v6.inj hmasked
      have hlen' : len ≤ 128 := hlen
      simp only [contains, decide_eq_true_eq, mask, IpAddr.v6.injEq, SameNet]
      rw [← and_leading_eq_iff hlen', hb]

theorem eq_of_contains {q : Prefix} (hp : p.contains addr = true) (hq : q.contains addr = true)
    (hlen : p.len = q.len) : p = q := by
  have hp' := mask_eq_of_contains hp
  have hq' := mask_eq_of_contains hq
  rw [Prefix.mk.injEq]
  exact ⟨by rw [← hp', ← hq', hlen], hlen⟩

theorem isIpv4_of_contains (h : p.contains addr = true) : p.base.isIpv4 = addr.isIpv4 := by
  rw [← mask_eq_of_contains h]
  cases addr <;> rfl

end Prefix

/-! ### Go's ranges -/

namespace Netip

structure Addr where
  ip : IpAddr
  zone : Bytes

structure Prefix where
  ip : IpAddr
  bits : ℕ
  bits_le : bits ≤ ip.width
  deriving DecidableEq

namespace Prefix

def masked (p : Prefix) : Prefix :=
  ⟨mask p.ip p.bits, p.bits, by rw [mask_width]; exact p.bits_le⟩

/-- An address with a zone is in no range. -/
def contains (p : Prefix) (addr : Addr) : Bool :=
  addr.zone.isEmpty && match p.ip, addr.ip with
    | .v4 b, .v4 a => (a ^^^ b) >>> (32 - p.bits) == 0#32
    | .v6 b, .v6 a => (a ^^^ b) &&& leading 128 p.bits == 0#128
    | _, _ => false

theorem contains_iff {p : Prefix} {addr : Addr} :
    p.contains addr = true ↔ addr.zone = [] ∧ SameNet p.bits addr.ip p.ip := by
  obtain ⟨base, len, hlen⟩ := p
  obtain ⟨ip, zone⟩ := addr
  cases base with
  | v4 b =>
    cases ip with
    | v4 a => simp [contains, SameNet, xor_shift_eq_zero_iff]
    | v6 a => simp [contains, SameNet]
  | v6 b =>
    cases ip with
    | v4 a => simp [contains, SameNet]
    | v6 a =>
      have hlen' : len ≤ 128 := hlen
      simp [contains, SameNet, xor_and_leading_eq_zero_iff hlen']

end Prefix

end Netip

/-- The texts of addresses, as Go's `netip` reads and writes them: what it writes it reads back, and
has no slash in it. -/
structure Netip where
  parseAddr : Bytes → Option Netip.Addr
  string : IpAddr → Bytes
  parseAddr_string : ∀ a, parseAddr (string a) = some ⟨a, []⟩
  slash_notMem_string : ∀ a, 0x2F ∉ string a

namespace Netip

variable (N : Netip)

/-- The length of a range: no sign and no leading zero. -/
def parseBits (width : ℕ) (s : Bytes) : Option ℕ :=
  if 1 < s.length ∧ (s.headD 0 < 0x31 ∨ 0x39 < s.headD 0) then none else parseUint (width + 1) s

variable {n : ℕ}

theorem parseBits_le {width : ℕ} {s : Bytes} (h : parseBits width s = some n) : n ≤ width := by
  unfold parseBits at h
  split at h
  · simp at h
  · exact Nat.lt_succ_iff.mp (parseUint_lt h)

def parsePrefix (s : Bytes) : Option Prefix :=
  match cutLast 0x2F s with
  | none => none
  | some (addr, bits) =>
    match N.parseAddr addr with
    | none => none
    | some addr =>
      if addr.zone = [] then
        match h : parseBits addr.ip.width bits with
        | none => none
        | some n => some ⟨addr.ip, n, parseBits_le h⟩
      else none

def prefixString (p : Prefix) : Bytes := N.string p.ip ++ 0x2F :: decimal p.bits

theorem parseBits_decimal {width : ℕ} (hwidth : width ≤ 255) (h : n ≤ width) :
    parseBits width (decimal n) = some n := by
  have hhead : ∀ n ≤ 255, ¬ (1 < (decimal n).length
      ∧ ((decimal n).headD 0 < 0x31 ∨ 0x39 < (decimal n).headD 0)) := by decide +kernel
  rw [parseBits, if_neg (hhead n (h.trans hwidth)), parseUint_decimal (Nat.lt_succ_of_le h)]

theorem slash_notMem_decimal (h : n ≤ 128) : (0x2F : UInt8) ∉ decimal n := by
  have : ∀ n ≤ 128, (0x2F : UInt8) ∉ decimal n := by decide
  exact this n h

theorem parsePrefix_string (p : Prefix) : N.parsePrefix (N.prefixString p) = some p := by
  have hwidth := p.ip.width_le
  have hcut := cutLast_append (a := N.string p.ip) (slash_notMem_decimal (p.bits_le.trans hwidth))
  have hbits := parseBits_decimal (hwidth.trans (by decide)) p.bits_le
  rw [parsePrefix, prefixString, hcut]
  simp only [N.parseAddr_string, if_true]
  split
  · rename_i hnone
    rw [hbits] at hnone
    simp at hnone
  · rename_i n hn
    rw [hbits] at hn
    obtain rfl := Option.some.inj hn
    rfl

end Netip

end Karst.Net
