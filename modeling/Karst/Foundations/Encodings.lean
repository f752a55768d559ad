import Karst.Foundations.ByteStrings

/-!
# Text, base64 and hexadecimal

Encodings of the standard libraries that decide what a program accepts and prints: which byte
strings are UTF-8, padded base64 in the standard alphabet, and hexadecimal.
-/

namespace Karst

open List hiding Vector

def isContinuation (b : UInt8) : Bool := 0x80 ≤ b && b ≤ 0xBF

/-- What is left after one well-formed UTF-8 sequence: no overlong form, no surrogate, nothing
above U+10FFFF. -/
def utf8Step : Bytes → Option Bytes
  | [] => none
  | a :: rest =>
    if a < 0x80 then some rest
    else if 0xC2 ≤ a && a ≤ 0xDF then
      match rest with
      | b :: rest => if isContinuation b then some rest else none
      | _ => none
    else if 0xE0 ≤ a && a ≤ 0xEF then
      match rest with
      | b :: c :: rest =>
        let low : UInt8 := if a = 0xE0 then 0xA0 else 0x80
        let high : UInt8 := if a = 0xED then 0x9F else 0xBF
        if low ≤ b && b ≤ high && isContinuation c then some rest else none
      | _ => none
    else if 0xF0 ≤ a && a ≤ 0xF4 then
      match rest with
      | b :: c :: d :: rest =>
        let low : UInt8 := if a = 0xF0 then 0x90 else 0x80
        let high : UInt8 := if a = 0xF4 then 0x8F else 0xBF
        if low ≤ b && b ≤ high && isContinuation c && isContinuation d then some rest else none
      | _ => none
    else none

/-- At most `n` sequences, and nothing else. -/
def utf8Sequences : ℕ → Bytes → Bool
  | _, [] => true
  | 0, _ :: _ => false
  | n + 1, b =>
    match utf8Step b with
    | some rest => utf8Sequences n rest
    | none => false

def validUtf8 (b : Bytes) : Bool := utf8Sequences b.length b

def base64Alphabet : Bytes :=
  ascii "ABCDEFGHIJKLMNOPQRSTUVWXYZabcdefghijklmnopqrstuvwxyz0123456789+/"

def base64Digit (n : ℕ) : UInt8 := base64Alphabet.getD (n % 64) 0

def base64Encode : Bytes → Bytes
  | [] => []
  | [a] =>
    [base64Digit (a.toNat / 4), base64Digit (a.toNat % 4 * 16), 0x3D, 0x3D]
  | [a, b] =>
    [base64Digit (a.toNat / 4), base64Digit (a.toNat % 4 * 16 + b.toNat / 16),
      base64Digit (b.toNat % 16 * 4), 0x3D]
  | a :: b :: c :: rest =>
    base64Digit (a.toNat / 4) :: base64Digit (a.toNat % 4 * 16 + b.toNat / 16)
      :: base64Digit (b.toNat % 16 * 4 + c.toNat / 64) :: base64Digit (c.toNat % 64) :: base64Encode rest

def base64Group (a b c d : UInt8) : Bytes :=
  let value : UInt8 → ℕ := fun x => (base64Alphabet.idxOf? x).getD 0
  let word := ((value a * 64 + value b) * 64 + value c) * 64 + value d
  [UInt8.ofNat (word / 65536), UInt8.ofNat (word / 256), UInt8.ofNat word]

def base64Bytes : Bytes → Bytes
  | [a, b, 0x3D, 0x3D] => (base64Group a b 0x3D 0x3D).take 1
  | [a, b, c, 0x3D] => (base64Group a b c 0x3D).take 2
  | a :: b :: c :: d :: rest => base64Group a b c d ++ base64Bytes rest
  | _ => []

def base64Decode (text : Bytes) : Option Bytes :=
  if base64Encode (base64Bytes text) = text then some (base64Bytes text) else none

theorem base64Alphabet_nodup : base64Alphabet.Nodup := by decide +kernel

theorem base64Digit_inj {m n : ℕ} (hm : m < 64) (hn : n < 64) (h : base64Digit m = base64Digit n) :
    m = n := by
  have hlen : base64Alphabet.length = 64 := by decide +kernel
  rw [base64Digit, base64Digit, Nat.mod_eq_of_lt hm, Nat.mod_eq_of_lt hn,
    getD_eq_getElem _ _ (hlen ▸ hm), getD_eq_getElem _ _ (hlen ▸ hn)] at h
  exact (base64Alphabet_nodup.getElem_inj_iff).mp h

theorem base64Digit_ne_pad (n : ℕ) : base64Digit n ≠ 0x3D := by
  have hlen : n % 64 < base64Alphabet.length :=
    (Nat.mod_lt n (by decide)).trans_eq (by decide +kernel)
  have hpad : (0x3D : UInt8) ∉ base64Alphabet := by decide +kernel
  rw [base64Digit, getD_eq_getElem _ _ hlen]
  intro h
  exact hpad (h ▸ getElem_mem hlen)

theorem base64Digits_inj {a b c a' b' c' : UInt8}
    (h₁ : base64Digit (a.toNat / 4) = base64Digit (a'.toNat / 4))
    (h₂ : base64Digit (a.toNat % 4 * 16 + b.toNat / 16) = base64Digit (a'.toNat % 4 * 16 + b'.toNat / 16))
    (h₃ : base64Digit (b.toNat % 16 * 4 + c.toNat / 64) = base64Digit (b'.toNat % 16 * 4 + c'.toNat / 64))
    (h₄ : base64Digit (c.toNat % 64) = base64Digit (c'.toNat % 64)) : a = a' ∧ b = b' ∧ c = c' := by
  have ha := a.toNat_lt
  have hb := b.toNat_lt
  have hc := c.toNat_lt
  have ha' := a'.toNat_lt
  have hb' := b'.toNat_lt
  have hc' := c'.toNat_lt
  have e₁ := base64Digit_inj (by omega) (by omega) h₁
  have e₂ := base64Digit_inj (by omega) (by omega) h₂
  have e₃ := base64Digit_inj (by omega) (by omega) h₃
  have e₄ := base64Digit_inj (by omega) (by omega) h₄
  refine ⟨UInt8.toNat_inj.mp ?_, UInt8.toNat_inj.mp ?_, UInt8.toNat_inj.mp ?_⟩ <;> omega

theorem base64Encode_injective : Function.Injective base64Encode := by
  intro x y h
  induction x using base64Encode.induct generalizing y with
  | case1 =>
    rcases y with _ | ⟨a', _ | ⟨b', _ | ⟨c', y⟩⟩⟩ <;> simp_all [base64Encode]
  | case2 a =>
    rcases y with _ | ⟨a', _ | ⟨b', _ | ⟨c', y⟩⟩⟩
      <;> simp only [base64Encode, cons.injEq] at h
    · simp at h
    · rw [(@base64Digits_inj a 0 0 a' 0 0 h.1 h.2.1 rfl rfl).1]
    · exact absurd h.2.2.1.symm (base64Digit_ne_pad _)
    · exact absurd h.2.2.1.symm (base64Digit_ne_pad _)
  | case3 a b =>
    rcases y with _ | ⟨a', _ | ⟨b', _ | ⟨c', y⟩⟩⟩
      <;> simp only [base64Encode, cons.injEq] at h
    · simp at h
    · exact absurd h.2.2.1 (base64Digit_ne_pad _)
    · obtain ⟨ha, hb, -⟩ := @base64Digits_inj a b 0 a' b' 0 h.1 h.2.1 h.2.2.1 rfl
      rw [ha, hb]
    · exact absurd h.2.2.2.1.symm (base64Digit_ne_pad _)
  | case4 a b c rest ih =>
    rcases y with _ | ⟨a', _ | ⟨b', _ | ⟨c', y⟩⟩⟩
      <;> simp only [base64Encode, cons.injEq] at h
    · simp at h
    · exact absurd h.2.2.1 (base64Digit_ne_pad _)
    · exact absurd h.2.2.2.1 (base64Digit_ne_pad _)
    · obtain ⟨ha, hb, hc⟩ := base64Digits_inj h.1 h.2.1 h.2.2.1 h.2.2.2.1
      rw [ha, hb, hc, ih h.2.2.2.2]

theorem base64Encode_length (b : Bytes) : (base64Encode b).length = 4 * ((b.length + 2) / 3) := by
  induction b using base64Encode.induct with
  | case1 => rfl
  | case2 a => simp [base64Encode]
  | case3 a b => simp [base64Encode]
  | case4 a b c rest ih =>
    simp only [base64Encode, length_cons, ih]
    omega

example : base64Encode (ascii "Karst!!") = ascii "S2Fyc3QhIQ==" := by decide +kernel

example : base64Decode (ascii "S2Fyc3QhIQ==") = some (ascii "Karst!!")
    ∧ base64Decode (ascii "S2Fyc3QhIR==") = none := by decide +kernel

example : validUtf8 [0x6B, 0xC3, 0xA9] = true ∧ validUtf8 [0xED, 0xA0, 0x80] = false := by decide

/-! ### Hexadecimal -/

def hexDigit (n : ℕ) : UInt8 := (ascii "0123456789abcdef").getD (n % 16) 0

def encodeHex (b : Bytes) : Bytes := b.flatMap fun x => [hexDigit (x.toNat / 16), hexDigit x.toNat]

def hexValue (c : UInt8) : Option ℕ :=
  if 0x30 ≤ c && c ≤ 0x39 then some (c.toNat - 0x30)
  else if 0x61 ≤ c && c ≤ 0x66 then some (c.toNat - 0x61 + 10)
  else if 0x41 ≤ c && c ≤ 0x46 then some (c.toNat - 0x41 + 10)
  else none

def decodeHex : Bytes → Option Bytes
  | [] => some []
  | [_] => none
  | c :: d :: rest =>
    match hexValue c, hexValue d, decodeHex rest with
    | some high, some low, some b => some (UInt8.ofNat (16 * high + low) :: b)
    | _, _, _ => none

example : encodeHex [0x4B, 0xA0] = ascii "4ba0" ∧ decodeHex (ascii "4bA0") = some [0x4B, 0xA0] := by
  decide +kernel

end Karst
