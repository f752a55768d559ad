import Karst.Net.Addresses

/-!
# Reference address texts

An executable instance of `Netip`: dotted quads, and eight groups of four hexadecimal digits.  Of
the syntaxes Go reads it leaves out the shortened and mixed forms of IPv6 and zones.
-/

namespace Karst.Net

open List hiding Vector

namespace Reference

/-! ### Words of a number -/

def toWords (base : ℕ) : ℕ → ℕ → List ℕ
  | 0, _ => []
  | k + 1, n => n % base :: toWords base k (n / base)

def ofWords (base : ℕ) : List ℕ → ℕ
  | [] => 0
  | w :: ws => w + base * ofWords base ws

theorem ofWords_toWords (base k n : ℕ) : ofWords base (toWords base k n) = n % base ^ k := by
  induction k generalizing n with
  | zero => simp [toWords, ofWords, Nat.mod_one]
  | succ k ih => rw [toWords, ofWords, ih, pow_succ, Nat.mul_comm (base ^ k) base, Nat.mod_mul]

variable {n : ℕ}

theorem toWords_lt {base : ℕ} (hbase : 0 < base) {k w : ℕ} (h : w ∈ toWords base k n) : w < base := by
  induction k generalizing n with
  | zero => simp [toWords] at h
  | succ k ih =>
    rcases mem_cons.mp h with rfl | h
    · exact Nat.mod_lt n hbase
    · exact ih h

theorem toWords_length (base k n : ℕ) : (toWords base k n).length = k := by
  induction k generalizing n with
  | zero => rfl
  | succ k ih => rw [toWords, length_cons, ih]

/-! ### Groups -/

def groupText (n : ℕ) : Bytes :=
  [hexDigit (n / 4096), hexDigit (n / 256 % 16), hexDigit (n / 16 % 16), hexDigit (n % 16)]

def parseGroup : Bytes → Option ℕ
  | [a, b, c, d] => do
    let a ← hexValue a
    let b ← hexValue b
    let c ← hexValue c
    let d ← hexValue d
    return a * 4096 + b * 256 + c * 16 + d
  | _ => none

theorem hexValue_hexDigit : ∀ n < 16, hexValue (hexDigit n) = some n := by decide +kernel

theorem separators_ne_hexDigit : ∀ n < 16, hexDigit n ≠ 0x3A ∧ hexDigit n ≠ 0x2E ∧ hexDigit n ≠ 0x2F := by
  decide +kernel

theorem parseGroup_groupText (h : n < 65536) : parseGroup (groupText n) = some n := by
  rw [groupText, parseGroup, hexValue_hexDigit _ (by omega), hexValue_hexDigit _ (by omega),
    hexValue_hexDigit _ (by omega), hexValue_hexDigit _ (by omega)]
  refine congrArg some ?_
  omega

/-! ### Texts -/

def wordsText (sep : UInt8) (text : ℕ → Bytes) (words : List ℕ) : Bytes :=
  [sep].intercalate (words.reverse.map text)

def parseWords (sep : UInt8) (parse : Bytes → Option ℕ) (s : Bytes) : Option (List ℕ) :=
  ((s.splitOn sep).mapM parse).map List.reverse

variable {text : ℕ → Bytes} {words : List ℕ}

theorem mapM_map_text {parse : Bytes → Option ℕ} (h : ∀ w ∈ words, parse (text w) = some w) :
    (words.map text).mapM parse = some words := by
  induction words with
  | nil => rfl
  | cons w ws ih =>
    rw [map_cons, mapM_cons, h w mem_cons_self, ih fun v hv => h v (mem_cons_of_mem w hv)]
    rfl

theorem parseWords_wordsText {sep : UInt8} {parse : Bytes → Option ℕ} (hne : words ≠ [])
    (hsep : ∀ w ∈ words, sep ∉ text w) (hparse : ∀ w ∈ words, parse (text w) = some w) :
    parseWords sep parse (wordsText sep text words) = some words := by
  have hsplit : splitOn sep ([sep].intercalate (words.reverse.map text)) = words.reverse.map text :=
    splitOn_intercalate sep (by simpa using hsep) (by simpa using hne)
  rw [parseWords, wordsText, hsplit, mapM_map_text (by simpa using hparse)]
  simp

def string : IpAddr → Bytes
  | .v4 a => wordsText 0x2E decimal (toWords 256 4 a.toNat)
  | .v6 a => wordsText 0x3A groupText (toWords 65536 8 a.toNat)

def parseIp (s : Bytes) : Option IpAddr :=
  if (0x2E : UInt8) ∈ s then
    match parseWords 0x2E (Netip.parseBits 255) s with
    | some words => if words.length = 4 then some (.v4 (BitVec.ofNat 32 (ofWords 256 words))) else none
    | none => none
  else
    match parseWords 0x3A parseGroup s with
    | some words =>
      if words.length = 8 then some (.v6 (BitVec.ofNat 128 (ofWords 65536 words))) else none
    | none => none

theorem separators_notMem_decimal :
    ∀ n < 256, (0x2E : UInt8) ∉ decimal n ∧ (0x2F : UInt8) ∉ decimal n := by decide +kernel

theorem separators_notMem_groupText (h : n < 65536) :
    (0x3A : UInt8) ∉ groupText n ∧ (0x2E : UInt8) ∉ groupText n ∧ (0x2F : UInt8) ∉ groupText n := by
  have h₁ := separators_ne_hexDigit (n / 4096) (by omega)
  have h₂ := separators_ne_hexDigit (n / 256 % 16) (by omega)
  have h₃ := separators_ne_hexDigit (n / 16 % 16) (by omega)
  have h₄ := separators_ne_hexDigit (n % 16) (by omega)
  refine ⟨?_, ?_, ?_⟩ <;> simp only [groupText, mem_cons, not_mem_nil, or_false, not_or]
  · exact ⟨h₁.1.symm, h₂.1.symm, h₃.1.symm, h₄.1.symm⟩
  · exact ⟨h₁.2.1.symm, h₂.2.1.symm, h₃.2.1.symm, h₄.2.1.symm⟩
  · exact ⟨h₁.2.2.symm, h₂.2.2.symm, h₃.2.2.symm, h₄.2.2.symm⟩

theorem notMem_wordsText {sep x : UInt8} (hx : x ≠ sep) (h : ∀ w ∈ words, x ∉ text w) :
    x ∉ wordsText sep text words := by
  intro hmem
  obtain ⟨piece, hpiece, hx⟩ := (mem_of_mem_intercalate hmem).resolve_left hx
  obtain ⟨w, hw, rfl⟩ := mem_map.mp hpiece
  exact h w (mem_reverse.mp hw) hx

theorem dot_mem_string_v4 (a : BitVec 32) : (0x2E : UInt8) ∈ string (.v4 a) := by
  simp [string, wordsText, toWords, intercalate]

theorem dot_notMem_string_v6 (a : BitVec 128) : (0x2E : UInt8) ∉ string (.v6 a) :=
  notMem_wordsText (by decide) fun _ hw => (separators_notMem_groupText (toWords_lt (by decide) hw)).2.1

theorem parseIp_string (a : IpAddr) : parseIp (string a) = some a := by
  cases a with
  | v4 a =>
    have hwords : parseWords 0x2E (Netip.parseBits 255) (string (.v4 a)) = some (toWords 256 4 a.toNat) := by
      refine parseWords_wordsText (by simp [toWords]) ?_ ?_
      · intro w hw
        exact (separators_notMem_decimal w (toWords_lt (by decide) hw)).1
      · intro w hw
        exact Netip.parseBits_decimal le_rfl (Nat.le_of_lt_succ (toWords_lt (by decide) hw))
    rw [parseIp, if_pos (dot_mem_string_v4 a), hwords]
    simp only [toWords_length, if_true, ofWords_toWords]
    rw [show 256 ^ 4 = 2 ^ 32 by decide, Nat.mod_eq_of_lt a.isLt, BitVec.ofNat_toNat,
      BitVec.setWidth_eq]
  | v6 a =>
    have hwords : parseWords 0x3A parseGroup (string (.v6 a)) = some (toWords 65536 8 a.toNat) := by
      refine parseWords_wordsText (by simp [toWords]) ?_ ?_
      · intro w hw
        exact (separators_notMem_groupText (toWords_lt (by decide) hw)).1
      · intro w hw
        exact parseGroup_groupText (toWords_lt (by decide) hw)
    rw [parseIp, if_neg (dot_notMem_string_v6 a), hwords]
    simp only [toWords_length, if_true, ofWords_toWords]
    rw [show 65536 ^ 8 = 2 ^ 128 by decide, Nat.mod_eq_of_lt a.isLt, BitVec.ofNat_toNat,
      BitVec.setWidth_eq]

end Reference

def reference : Netip where
  parseAddr s := (Reference.parseIp s).map fun a => ⟨a, []⟩
  string := Reference.string
  parseAddr_string a := by rw [Reference.parseIp_string, Option.map_some]
  slash_notMem_string a := by
    cases a with
    | v4 a =>
      exact Reference.notMem_wordsText (by decide) fun w hw =>
        (Reference.separators_notMem_decimal w (Reference.toWords_lt (by decide) hw)).2
    | v6 a =>
      exact Reference.notMem_wordsText (by decide) fun w hw =>
        (Reference.separators_notMem_groupText (Reference.toWords_lt (by decide) hw)).2.2

end Karst.Net
