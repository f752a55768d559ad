import Mathlib

/-!
# Byte strings

Wire formats are concatenations of fields of known length, with integers in little-endian order.
A fixed number of bytes remembers a number up to its modulus, and a cut at the right place undoes a
concatenation.
-/

namespace Karst

open Option Nat
open List hiding Vector

abbrev Bytes : Type := List UInt8

instance instLawfulBEqBytes : LawfulBEq Bytes := inferInstance

def ascii (s : String) : Bytes := s.toList.map fun c => UInt8.ofNat c.toNat

def leBytes : ℕ → ℕ → Bytes
  | 0, _ => []
  | n + 1, v => UInt8.ofNat (v % 256) :: leBytes n (v / 256)

def leValue : Bytes → ℕ
  | [] => 0
  | b :: bs => b.toNat + 256 * leValue bs

@[simp] theorem leBytes_length (n v : ℕ) : (leBytes n v).length = n := by
  induction n generalizing v with
  | zero => rfl
  | succ n ih => simp [leBytes, ih]

theorem leValue_leBytes (n v : ℕ) : leValue (leBytes n v) = v % 256 ^ n := by
  induction n generalizing v with
  | zero => simp [leBytes, leValue, mod_one]
  | succ n ih =>
    have hb : (UInt8.ofNat (v % 256)).toNat = v % 256 := by simp
    rw [leBytes, leValue, ih, hb, pow_succ, mul_comm (256 ^ n) 256, mod_mul]

variable {n w : ℕ}

theorem leBytes_inj {v : ℕ} (hv : v < 256 ^ n) (hw : w < 256 ^ n) (h : leBytes n v = leBytes n w) :
    v = w := by
  have := congrArg leValue h
  rwa [leValue_leBytes, leValue_leBytes, mod_eq_of_lt hv, mod_eq_of_lt hw] at this

theorem leValue_lt (b : Bytes) : leValue b < 256 ^ b.length := by
  induction b with
  | nil => exact one_pos
  | cons x b ih =>
    have hx := x.toNat_lt
    rw [leValue, length_cons, pow_succ]
    omega

theorem leBytes_leValue (b : Bytes) : leBytes b.length (leValue b) = b := by
  induction b with
  | nil => rfl
  | cons x b ih =>
    have hx := x.toNat_lt
    have hlow : (x.toNat + 256 * leValue b) % 256 = x.toNat := by omega
    have hhigh : (x.toNat + 256 * leValue b) / 256 = leValue b := by omega
    rw [length_cons, leBytes, leValue, hlow, hhigh, ih, UInt8.ofNat_toNat]

def beBytes (n v : ℕ) : Bytes := (leBytes n v).reverse

def beValue (b : Bytes) : ℕ := leValue b.reverse

theorem beBytes_length (n v : ℕ) : (beBytes n v).length = n := by
  rw [beBytes, length_reverse, leBytes_length]

theorem beValue_beBytes {v : ℕ} (h : v < 256 ^ n) : beValue (beBytes n v) = v := by
  rw [beValue, beBytes, reverse_reverse, leValue_leBytes, mod_eq_of_lt h]

variable {b : Bytes}

theorem beValue_lt (h : b.length = n) : beValue b < 256 ^ n := by
  rw [← h, ← length_reverse]
  exact leValue_lt b.reverse

theorem beBytes_beValue (h : b.length = n) : beBytes n (beValue b) = b := by
  rw [beBytes, beValue, ← h, ← length_reverse, leBytes_leValue, reverse_reverse]

theorem ofNat_beValue_beBytes (h : 2 ^ w = 256 ^ n) (a : BitVec w) :
    BitVec.ofNat w (beValue (beBytes n a.toNat)) = a := by
  rw [beValue_beBytes (h ▸ a.isLt), BitVec.ofNat_toNat, BitVec.setWidth_eq]

theorem beBytes_ofNat_beValue (h : 2 ^ w = 256 ^ n) (hb : b.length = n) :
    beBytes n (BitVec.ofNat w (beValue b)).toNat = b := by
  rw [BitVec.toNat_ofNat, h, mod_eq_of_lt (beValue_lt hb), beBytes_beValue hb]

theorem uint32_beBytes (x : UInt32) : UInt32.ofNat (beValue (beBytes 4 x.toNat)) = x := by
  rw [beValue_beBytes (show x.toNat < 256 ^ 4 from x.toNat_lt), UInt32.ofNat_toNat]

theorem beBytes_uint32 (h : b.length = 4) : beBytes 4 (UInt32.ofNat (beValue b)).toNat = b := by
  have hlt : beValue b < 2 ^ 32 := beValue_lt h
  rw [UInt32.toNat_ofNat_of_lt' hlt, beBytes_beValue h]

def cut (n : ℕ) (b : Bytes) : Option (Bytes × Bytes) :=
  if n ≤ b.length then some (b.take n, b.drop n) else none

variable {a : Bytes}

theorem cut_append (h : a.length = n) : cut n (a ++ b) = some (a, b) := by
  subst h
  simp [cut]

theorem cut_eq_some_iff {x y : Bytes} : cut n b = some (x, y) ↔ b = x ++ y ∧ x.length = n := by
  constructor
  · intro h
    unfold cut at h
    split at h
    · rename_i hn
      obtain ⟨rfl, rfl⟩ := h
      exact ⟨(take_append_drop n b).symm, by simpa using hn⟩
    · simp at h
  · rintro ⟨rfl, hx⟩
    exact cut_append hx

theorem exists_cut {m : ℕ} (h : n + m ≤ b.length) : ∃ x y, b = x ++ y ∧ x.length = n ∧ m ≤ y.length := by
  refine ⟨b.take n, b.drop n, (take_append_drop n b).symm, ?_, ?_⟩
  · exact length_take_of_le (le_of_add_right_le h)
  · rw [length_drop]
    omega

def between (i j : ℕ) (b : Bytes) : Bytes := (b.drop i).take (j - i)

variable {i j : ℕ}

theorem between_append_between {k : ℕ} (hij : i ≤ j) (hjk : j ≤ k) (b : Bytes) :
    between i j b ++ between j k b = between i k b := by
  have hdrop : b.drop j = (b.drop i).drop (j - i) := by
    rw [drop_drop, Nat.add_sub_cancel' hij]
  have hlen : k - i = (j - i) + (k - j) := by omega
  rw [between, between, between, hdrop, hlen, take_add]

theorem between_append_drop (hij : i ≤ j) (b : Bytes) : between i j b ++ b.drop j = b.drop i := by
  have hdrop : b.drop j = (b.drop i).drop (j - i) := by
    rw [drop_drop, Nat.add_sub_cancel' hij]
  rw [between, hdrop, take_append_drop]

theorem length_between (h : j ≤ b.length) : (between i j b).length = j - i := by
  rw [between, length_take, length_drop]
  omega

theorem beBytes_between (i j n : ℕ) (hn : j - i = n) (h : j ≤ b.length) :
    beBytes n (beValue (between i j b)) = between i j b := beBytes_beValue ((length_between h).trans hn)

theorem between_left (h : a.length = j) (b : Bytes) : between 0 j (a ++ b) = a := by
  rw [between, drop_zero, Nat.sub_zero, ← h, take_left]

theorem between_right (h : a.length = n) (hi : n ≤ i) (b : Bytes) :
    between i j (a ++ b) = between (i - n) (j - n) b := by
  have hdrop : (a ++ b).drop i = b.drop (i - n) := by
    rw [drop_append, h, drop_eq_nil_of_le (h.le.trans hi), nil_append]
  rw [between, between, hdrop]
  congr 1
  omega

def fit (n : ℕ) (b : Bytes) : Vector UInt8 n := Vector.ofFn fun i => b.getD i 0

variable (v : Vector UInt8 n)

theorem fit_append (rest : Bytes) : fit n (v.toList ++ rest) = v := by
  apply Vector.ext
  intro i hi
  have hlt : i < v.toList.length := by simpa using hi
  simp [fit, getElem?_append_left hlt, hi]

theorem toList_fit (h : b.length = n) : (fit n b).toList = b := by
  subst h
  refine ext_getElem (by simp) fun i hi hi' => ?_
  simp [fit]

def firstChunk (n : ℕ) (b : Bytes) : Option (Vector UInt8 n) :=
  if n ≤ b.length then some (fit n b) else none

@[simp] theorem firstChunk_append (rest : Bytes) : firstChunk n (v.toList ++ rest) = some v := by
  rw [firstChunk, if_pos (by simp), fit_append]

@[simp] theorem firstChunk_toList : firstChunk n v.toList = some v := by
  simpa using firstChunk_append v []

theorem firstChunk_of_length (h : b.length = n) : firstChunk n b = some (fit n b) := by
  rw [firstChunk, if_pos (le_of_eq h.symm)]

theorem firstChunk_eq_some_of_length {v : Vector UInt8 n} (h : b.length = n) :
    firstChunk n b = some v ↔ b = v.toList := by
  rw [firstChunk_of_length h, some_inj]
  constructor
  · intro hv
    rw [← hv, toList_fit h]
  · intro hv
    rw [hv, ← append_nil v.toList, fit_append]

theorem firstChunk_eq_some_iff {v : Vector UInt8 n} :
    firstChunk n b = some v ↔ ∃ rest, b = v.toList ++ rest := by
  constructor
  · intro h
    by_cases hn : n ≤ b.length
    · have htake : (b.take n).length = n := length_take_of_le hn
      have hb : (fit n (b.take n)).toList ++ b.drop n = b := by
        rw [toList_fit htake, take_append_drop]
      rw [← hb, firstChunk_append] at h
      exact ⟨b.drop n, by rw [← some.inj h, hb]⟩
    · rw [firstChunk, if_neg hn] at h
      cases h
  · intro h
    obtain ⟨rest, rfl⟩ := h
    exact firstChunk_append v rest

theorem any_ne_zero : (b.any fun x => x != 0) = true ↔ b ≠ List.replicate b.length 0 := by
  rw [ne_eq, List.eq_replicate_iff, List.any_eq_true]
  simp

def lastChunk (n : ℕ) (b : Bytes) : Option (Vector UInt8 n) :=
  if n ≤ b.length then some (fit n (b.drop (b.length - n))) else none

@[simp] theorem lastChunk_append (front : Bytes) (v : Vector UInt8 n) :
    lastChunk n (front ++ v.toList) = some v := by
  have hlen : (front ++ v.toList).length - n = front.length := by simp
  rw [lastChunk, if_pos (by simp), hlen, drop_left, ← append_nil v.toList, fit_append]

def chunks (w : ℕ) : ℕ → Bytes → List (Vector UInt8 w)
  | 0, _ => []
  | n + 1, b => fit w b :: chunks w n (b.drop w)

theorem flatten_chunks (h : b.length = n * w) : ((chunks w n b).map Vector.toList).flatten = b := by
  induction n generalizing b with
  | zero =>
    rw [zero_mul] at h
    rw [length_eq_zero_iff.mp h]
    rfl
  | succ n ih =>
    have hw : w ≤ b.length := by
      rw [h, Nat.succ_mul]
      exact le_add_left w (n * w)
    have hfront : (fit w b).toList = b.take w := by
      have hsplit : b.take w ++ b.drop w = b := take_append_drop w b
      have htake : (b.take w).length = w := length_take_of_le hw
      rw [← toList_fit htake]
      conv_lhs => rw [← hsplit, ← toList_fit htake, fit_append]
    have hrest : (b.drop w).length = n * w := by
      rw [length_drop, h, Nat.succ_mul, Nat.add_sub_cancel]
    show (fit w b).toList ++ ((chunks w n (b.drop w)).map Vector.toList).flatten = b
    rw [ih hrest, hfront, take_append_drop]

theorem chunks_flatten (vs : List (Vector UInt8 w)) :
    chunks w vs.length (vs.map Vector.toList).flatten = vs := by
  induction vs with
  | nil => rfl
  | cons v vs ih =>
    show fit w (v.toList ++ (vs.map Vector.toList).flatten)
      :: chunks w vs.length ((v.toList ++ (vs.map Vector.toList).flatten).drop w) = v :: vs
    have hdrop : (v.toList ++ (vs.map Vector.toList).flatten).drop w
        = (vs.map Vector.toList).flatten := drop_left' (by simp)
    rw [fit_append, hdrop, ih]

/-! ### Buffers

Reads and writes of a byte range, refused when the range leaves the buffer. -/

def slice (b : Bytes) (off len : ℕ) : Option Bytes :=
  if off + len ≤ b.length then some ((b.drop off).take len) else none

theorem slice_append {off len : ℕ} (ha : a.length = off) (hb : b.length = len) (c : Bytes) :
    slice (a ++ b ++ c) off len = some b := by
  have hfits : off + len ≤ (a ++ b ++ c).length := by
    simp only [length_append]
    omega
  rw [slice, if_pos hfits, append_assoc, ← ha, drop_left, ← hb, take_left]

def overwrite (b : Bytes) (off : ℕ) (p : Bytes) : Bytes :=
  b.take off ++ p ++ b.drop (off + p.length)

theorem overwrite_length {off : ℕ} {p : Bytes} (h : off + p.length ≤ b.length) :
    (overwrite b off p).length = b.length := by
  simp only [overwrite, length_append, length_take, length_drop]
  omega

structure Buffer (n : ℕ) where
  bytes : Bytes
  size : bytes.length = n

namespace Buffer

variable {n : ℕ}

def zero (n : ℕ) : Buffer n := ⟨List.replicate n 0, List.length_replicate⟩

def write (b : Buffer n) (off : ℕ) (p : Bytes) : Option (Buffer n) :=
  if h : off + p.length ≤ n then
    some ⟨overwrite b.bytes off p, (overwrite_length (h.trans_eq b.size.symm)).trans b.size⟩
  else none

theorem write_spec {b b' : Buffer n} {off : ℕ} {p : Bytes} (h : b.write off p = some b') :
    off + p.length ≤ b.bytes.length ∧ b'.bytes = overwrite b.bytes off p := by
  unfold write at h
  split at h
  · rename_i hfits
    exact ⟨hfits.trans_eq b.size.symm, by rw [← some.inj h]⟩
  · simp at h

theorem write_isSome (b : Buffer n) {off : ℕ} {p : Bytes} (h : off + p.length ≤ n) :
    ∃ b', b.write off p = some b' := by
  rw [write, dif_pos h]
  exact ⟨_, rfl⟩

end Buffer

variable {b : Bytes} {off : ℕ} {p : Bytes}

theorem getElem?_overwrite (h : off + p.length ≤ b.length) (i : ℕ) : (overwrite b off p)[i]?
      = if i < off then b[i]? else if i < off + p.length then p[i - off]? else b[i]? := by
  have htake : (b.take off).length = off := by
    rw [length_take]
    omega
  unfold overwrite
  rw [append_assoc]
  by_cases h1 : i < off
  · rw [if_pos h1, getElem?_append_left (by omega), getElem?_take_of_lt h1]
  · rw [if_neg h1, getElem?_append_right (by omega), htake]
    by_cases h2 : i < off + p.length
    · rw [if_pos h2, getElem?_append_left (by omega)]
    · rw [if_neg h2, getElem?_append_right (by omega), getElem?_drop]
      congr 1
      omega

theorem getElem?_slice {len : ℕ} (i : ℕ) :
    ((b.drop off).take len)[i]? = if i < len then b[off + i]? else none := by
  rw [getElem?_take]
  split
  · rw [getElem?_drop]
  · rfl

theorem slice_overwrite (h : off + p.length ≤ b.length) :
    ((overwrite b off p).drop off).take p.length = p := by
  apply ext_getElem?
  intro i
  rw [getElem?_slice]
  by_cases hi : i < p.length
  · rw [if_pos hi, getElem?_overwrite h, if_neg (by omega), if_pos (by omega), Nat.add_sub_cancel_left]
  · rw [if_neg hi, getElem?_eq_none (by omega)]

theorem slice_overwrite_disjoint (h : off + p.length ≤ b.length) {off' len : ℕ}
    (hdis : off' + len ≤ off ∨ off + p.length ≤ off') :
    ((overwrite b off p).drop off').take len = (b.drop off').take len := by
  apply ext_getElem?
  intro i
  rw [getElem?_slice, getElem?_slice]
  by_cases hi : i < len
  · rw [if_pos hi, if_pos hi, getElem?_overwrite h]
    rcases hdis with hd | hd
    · rw [if_pos (by omega)]
    · rw [if_neg (by omega), if_neg (by omega)]
  · rw [if_neg hi, if_neg hi]

theorem take_overwrite (h : off + p.length ≤ b.length) :
    (overwrite b off p).take (off + p.length) = b.take off ++ p := by
  have htake : (b.take off ++ p).length = off + p.length := by
    rw [length_append, length_take]
    omega
  rw [overwrite, ← htake]
  exact take_left

end Karst
