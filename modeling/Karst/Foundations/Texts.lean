import Karst.Foundations.Encodings

/-!
# Texts

Configuration languages are read with a handful of operations on strings: cut at a separator,
trim white space, read a decimal number.  They are given here on byte strings, white space being
that of Unicode, in UTF-8.
A cut undoes a concatenation, and a number survives being written down.
-/

namespace Karst

open Option
open List hiding Vector

/-! ### Cuts -/

section

variable {α : Type*} [DecidableEq α] {c : α}

def cutAt (c : α) : List α → Option (List α × List α)
  | [] => none
  | x :: s => if x = c then some ([], s) else (cutAt c s).map fun ab => (x :: ab.1, ab.2)

def cutLast (c : α) : List α → Option (List α × List α)
  | [] => none
  | x :: s =>
    match cutLast c s with
    | some ab => some (x :: ab.1, ab.2)
    | none => if x = c then some ([], s) else none

variable {a b : List α}

theorem cutAt_append (h : c ∉ a) : cutAt c (a ++ c :: b) = some (a, b) := by
  induction a with
  | nil => simp [cutAt]
  | cons x a ih =>
    have hx : x ≠ c := fun hx => h (hx ▸ mem_cons_self)
    rw [cons_append, cutAt, if_neg hx, ih fun ha => h (mem_cons_of_mem x ha)]
    rfl

variable {s : List α}

theorem eq_of_cutAt (h : cutAt c s = some (a, b)) : s = a ++ c :: b := by
  induction s generalizing a with
  | nil => simp [cutAt] at h
  | cons x s ih =>
    rw [cutAt] at h
    by_cases hx : x = c
    · rw [if_pos hx] at h
      obtain ⟨rfl, rfl⟩ := Prod.mk.inj (some.inj h)
      rw [hx, nil_append]
    · rw [if_neg hx] at h
      obtain ⟨⟨a', b'⟩, hab, heq⟩ := map_eq_some_iff.mp h
      obtain ⟨rfl, rfl⟩ := Prod.mk.inj heq
      rw [ih hab, cons_append]

theorem cutLast_eq_none : cutLast c s = none ↔ c ∉ s := by
  induction s with
  | nil => simp [cutLast]
  | cons x s ih =>
    rw [cutLast]
    cases h : cutLast c s with
    | some ab =>
      have hc : c ∈ s := by
        by_contra hc
        rw [ih.mpr hc] at h
        simp at h
      simp [hc]
    | none =>
      have hc := ih.mp h
      by_cases hx : x = c
      · simp [hx]
      · simp [hx, hc, Ne.symm hx]

theorem cutLast_append (h : c ∉ b) : cutLast c (a ++ c :: b) = some (a, b) := by
  induction a with
  | nil => simp [cutLast, cutLast_eq_none.mpr h]
  | cons x a ih => rw [cons_append, cutLast, ih]

variable {x : α}

omit [DecidableEq α] in
theorem mem_of_mem_intercalate {pieces : List (List α)} (hx : x ∈ [c].intercalate pieces) :
    x = c ∨ ∃ piece ∈ pieces, x ∈ piece := by
  induction pieces with
  | nil => simp [intercalate] at hx
  | cons p pieces ih =>
    cases pieces with
    | nil => exact Or.inr ⟨p, mem_cons_self, by simpa [intercalate] using hx⟩
    | cons q pieces =>
      rw [intercalate_cons_cons, mem_append, mem_append, mem_singleton] at hx
      rcases hx with (hp | hc) | hrest
      · exact Or.inr ⟨p, mem_cons_self, hp⟩
      · exact Or.inl hc
      · exact (ih hrest).imp_right fun ⟨r, hr, hx⟩ => ⟨r, mem_cons_of_mem p hr, hx⟩

theorem mem_splitOn (hx : x ∈ s) (hne : x ≠ c) : ∃ piece ∈ s.splitOn c, x ∈ piece := by
  have hjoin : [c].intercalate (s.splitOn c) = s := intercalate_splitOn c
  rw [← hjoin] at hx
  exact (mem_of_mem_intercalate hx).resolve_left hne

def dropWords (words : List (List α)) : ℕ → List α → List α
  | 0, s => s
  | fuel + 1, s =>
    match words.find? (·.isPrefixOf s) with
    | some w => dropWords words fuel (s.drop w.length)
    | none => s

theorem mem_dropWords {words : List (List α)} (hx : ∀ w ∈ words, x ∉ w) (fuel : ℕ) (h : x ∈ s) :
    x ∈ dropWords words fuel s := by
  induction fuel generalizing s with
  | zero => exact h
  | succ fuel ih =>
    rw [dropWords]
    split
    · rename_i w hw
      have hpre := find?_some (p := fun v : List α => v.isPrefixOf s) hw
      obtain ⟨t, ht⟩ := isPrefixOf_iff_prefix.mp hpre
      refine ih ?_
      rw [← ht] at h ⊢
      rw [drop_left]
      exact (mem_append.mp h).resolve_left (hx w (mem_of_find?_eq_some hw))
    · exact h

theorem dropWords_eq_self {words : List (List α)} (h : ∀ w ∈ words, w.isPrefixOf s = false)
    (fuel : ℕ) : dropWords words fuel s = s := by
  cases fuel with
  | zero => rfl
  | succ fuel =>
    have hnone : words.find? (fun w => w.isPrefixOf s) = none :=
      find?_eq_none.mpr fun w hw => by rw [h w hw]; decide
    rw [dropWords, hnone]

omit [DecidableEq α] in
theorem isPrefixOf_eq_false [BEq α] [LawfulBEq α] {w : List α} (hx : x ∈ w) (hs : x ∉ s) :
    w.isPrefixOf s = false := by
  rw [← Bool.not_eq_true, isPrefixOf_iff_prefix]
  exact fun hpre => hs (hpre.subset hx)

end

/-! ### Joined words -/

theorem append_sep_lt_iff {α : Type*} [LinearOrder α] {c : α} {a a' b b' : List α}
    (ha : ∀ x ∈ a, c < x) (ha' : ∀ x ∈ a', c < x) :
    a ++ c :: b < a' ++ c :: b' ↔ a < a' ∨ a = a' ∧ b < b' := by
  induction a generalizing a' with
  | nil =>
    cases a' with
    | nil => simp
    | cons y a' =>
      have hy := ha' y mem_cons_self
      simp [cons_lt_cons_iff, hy]
  | cons x a ih =>
    have hx := ha x mem_cons_self
    cases a' with
    | nil => simp [cons_lt_cons_iff, hx.not_gt, hx.ne']
    | cons y a' =>
      have ha₁ : ∀ z ∈ a', _ := fun z hz => ha' z (mem_cons_of_mem y hz)
      have hrest := ih (fun z hz => ha z (mem_cons_of_mem x hz)) ha₁
      simp only [cons_append, cons_lt_cons_iff, hrest, cons.injEq]
      tauto

/-! ### White space -/

/-- The UTF-8 encodings of Unicode white space. -/
def spaces : List Bytes :=
  [[0x09], [0x0A], [0x0B], [0x0C], [0x0D], [0x20], [0xC2, 0x85], [0xC2, 0xA0], [0xE1, 0x9A, 0x80],
    [0xE2, 0x80, 0x80], [0xE2, 0x80, 0x81], [0xE2, 0x80, 0x82], [0xE2, 0x80, 0x83],
    [0xE2, 0x80, 0x84], [0xE2, 0x80, 0x85], [0xE2, 0x80, 0x86], [0xE2, 0x80, 0x87],
    [0xE2, 0x80, 0x88], [0xE2, 0x80, 0x89], [0xE2, 0x80, 0x8A], [0xE2, 0x80, 0xA8],
    [0xE2, 0x80, 0xA9], [0xE2, 0x80, 0xAF], [0xE2, 0x81, 0x9F], [0xE3, 0x80, 0x80]]

def trimSpace (s : Bytes) : Bytes :=
  let s := dropWords spaces s.length s
  (dropWords (spaces.map List.reverse) s.length s.reverse).reverse

variable {s : Bytes}

theorem mem_trimSpace {x : UInt8} (hx : ∀ w ∈ spaces, x ∉ w) (h : x ∈ s) : x ∈ trimSpace s := by
  have hback w (hw : w ∈ spaces.map reverse) : x ∉ w := by
    obtain ⟨v, hv, rfl⟩ := mem_map.mp hw
    rw [mem_reverse]
    exact hx v hv
  have hfront := mem_dropWords hx s.length h
  exact mem_reverse.mpr (mem_dropWords hback _ (mem_reverse.mpr hfront))

theorem trimSpace_eq_self (h : ∀ w ∈ spaces, ∀ x ∈ w, x ∉ s) : trimSpace s = s := by
  have hne : ∀ w ∈ spaces, w ≠ [] := by decide
  have hfront : dropWords spaces s.length s = s := by
    refine dropWords_eq_self ?_ _
    intro w hw
    obtain ⟨x, hx⟩ := exists_mem_of_ne_nil w (hne w hw)
    exact isPrefixOf_eq_false hx (h w hw x hx)
  have hback : dropWords (spaces.map reverse) s.length s.reverse = s.reverse := by
    refine dropWords_eq_self ?_ _
    intro w hw
    obtain ⟨v, hv, rfl⟩ := mem_map.mp hw
    obtain ⟨x, hx⟩ := exists_mem_of_ne_nil v (hne v hv)
    exact isPrefixOf_eq_false (mem_reverse.mpr hx) fun hs => h v hv x hx (mem_reverse.mp hs)
  rw [trimSpace, hfront, hback, reverse_reverse]

/-! ### Decimal numbers -/

def isDigit (b : UInt8) : Bool := 0x30 ≤ b && b ≤ 0x39

def digitsValue (s : Bytes) : ℕ := s.foldl (fun v b => 10 * v + (b.toNat - 0x30)) 0

def parseUint (limit : ℕ) (s : Bytes) : Option ℕ :=
  if s ≠ [] ∧ s.all isDigit = true ∧ digitsValue s < limit then some (digitsValue s) else none

def decimal (n : ℕ) : Bytes := (Nat.toDigits 10 n).map fun c => UInt8.ofNat c.toNat

variable {limit n : ℕ}

theorem isDigit_of_parseUint (h : parseUint limit s = some n) {b : UInt8} (hb : b ∈ s) :
    isDigit b = true := by
  unfold parseUint at h
  split at h
  · rename_i hs
    exact all_eq_true.mp hs.2.1 b hb
  · simp at h

theorem parseUint_lt (h : parseUint limit s = some n) : n < limit := by
  unfold parseUint at h
  split at h
  · rename_i hs
    rw [← some.inj h]
    exact hs.2.2
  · simp at h

theorem decimal_ne_nil (n : ℕ) : decimal n ≠ [] :=
  fun hnil => Nat.toDigits_ne_nil (map_eq_nil_iff.mp hnil)

theorem toDigits_range {c : Char} (hc : c ∈ Nat.toDigits 10 n) : 0x30 ≤ c.toNat ∧ c.toNat ≤ 0x39 := by
  have hdigit := Nat.isDigit_of_mem_toDigits (by decide) (by decide) hc
  simpa [Char.isDigit, UInt32.le_iff_toNat_le] using hdigit

theorem toNat_toDigits {c : Char} (hc : c ∈ Nat.toDigits 10 n) : (UInt8.ofNat c.toNat).toNat = c.toNat := by
  have hrange := toDigits_range hc
  simp
  omega

theorem all_isDigit_decimal (n : ℕ) : (decimal n).all isDigit = true := by
  rw [List.all_eq_true]
  intro b hb
  obtain ⟨c, hc, rfl⟩ := mem_map.mp hb
  have hrange := toDigits_range hc
  simp only [isDigit, Bool.and_eq_true, decide_eq_true_eq, UInt8.le_iff_toNat_le, toNat_toDigits hc]
  exact hrange

theorem digitsValue_decimal (n : ℕ) : digitsValue (decimal n) = n := by
  rw [digitsValue, decimal, foldl_map]
  refine Eq.trans ?_ (Nat.ofDigitChars_toDigits (b := 10) (by decide) (by decide))
  exact foldl_ext _ _ _ fun v c hc => by rw [toNat_toDigits hc]; rfl

theorem parseUint_decimal (h : n < limit) : parseUint limit (decimal n) = some n := by
  rw [parseUint, digitsValue_decimal, if_pos ⟨decimal_ne_nil n, all_isDigit_decimal n, h⟩]

def parseDigits (s : Bytes) : Option ℕ :=
  if s ≠ [] ∧ s.all isDigit = true then some (digitsValue s) else none

/-- A decimal number of any size, with or without a sign. -/
def parseBig (s : Bytes) : Option ℤ :=
  if s.head? = some 0x2D then (parseDigits s.tail).map fun n => -(n : ℤ)
  else if s.head? = some 0x2B then (parseDigits s.tail).map fun n => (n : ℤ)
  else (parseDigits s).map fun n => (n : ℤ)

/-- A non-negative number whose text is the one it is written as. -/
def parseCanonical (s : Bytes) : Option ℕ :=
  (parseBig s).bind fun v => if v < 0 ∨ decimal v.toNat ≠ s then none else some v.toNat

def bigText (v : ℤ) : Bytes := if v < 0 then 0x2D :: decimal v.natAbs else decimal v.toNat

theorem parseBig_decimal (n : ℕ) : parseBig (decimal n) = some (n : ℤ) := by
  have hsign (b : UInt8) (hb : isDigit b = false) : (decimal n).head? ≠ some b := by
    intro h
    have hdigit := all_eq_true.mp (all_isDigit_decimal n) b (mem_of_head? h)
    rw [hb] at hdigit
    cases hdigit
  have hdigits : parseDigits (decimal n) = some n := by
    rw [parseDigits, if_pos ⟨decimal_ne_nil n, all_isDigit_decimal n⟩, digitsValue_decimal]
  rw [parseBig, if_neg (hsign 0x2D (by decide)), if_neg (hsign 0x2B (by decide)), hdigits]
  rfl

theorem parseCanonical_eq_some : parseCanonical s = some n ↔ s = decimal n := by
  constructor
  · intro h
    obtain ⟨v, -, hv⟩ := bind_eq_some_iff.mp h
    by_cases hbad : v < 0 ∨ decimal v.toNat ≠ s
    · rw [if_pos hbad] at hv
      cases hv
    · rw [if_neg hbad, some.injEq] at hv
      rw [← hv]
      exact (not_not.mp (not_or.mp hbad).2).symm
  · intro h
    subst h
    rw [parseCanonical, parseBig_decimal]
    show (if (n : ℤ) < 0 ∨ decimal (n : ℤ).toNat ≠ decimal n then none else some (n : ℤ).toNat) = _
    rw [Int.toNat_natCast, if_neg (by simp)]

/-! ### Unicode text -/

/-- Whether UTF-8 bytes hold a control character: U+0000 to U+001F and U+007F to U+009F. -/
def hasControl : Bytes → Bool
  | [] => false
  | b :: rest => b < 0x20 || b == 0x7F
      || (b == 0xC2 && rest.head?.any fun c => 0x80 ≤ c && c ≤ 0x9F) || hasControl rest

theorem le_of_hasControl {b : Bytes} (h : hasControl b = false) : ∀ x ∈ b, 0x20 ≤ x := by
  induction b with
  | nil => simp
  | cons y b ih =>
    simp only [hasControl, Bool.or_eq_false_iff, decide_eq_false_iff_not] at h
    refine forall_mem_cons.mpr ⟨?_, ih h.2⟩
    exact UInt8.not_lt.mp h.1.1.1

theorem hasControl_eq_false {b : Bytes} (h : ∀ x ∈ b, 0x20 ≤ x ∧ x < 0x7F) : hasControl b = false := by
  induction b with
  | nil => rfl
  | cons y b ih =>
    obtain ⟨⟨hlow, hhigh⟩, hrest⟩ := forall_mem_cons.mp h
    have hdelete : (y == 0x7F) = false := beq_eq_false_iff_ne.mpr fun hy => by
      rw [hy] at hhigh
      exact absurd hhigh (by decide)
    have hlead : (y == 0xC2) = false := beq_eq_false_iff_ne.mpr fun hy => by
      rw [hy] at hhigh
      exact absurd hhigh (by decide)
    have hspace : decide (y < 0x20) = false := by
      rw [decide_eq_false_iff_not, UInt8.lt_iff_toNat_lt]
      exact Nat.not_lt.mpr hlow
    rw [hasControl, hspace, hdelete, hlead, ih hrest]
    rfl

/-- A string: bytes that are UTF-8. -/
@[ext] structure Text where
  bytes : Bytes
  valid : validUtf8 bytes = true

theorem Text.bytes_injective : Function.Injective fun t : Text => t.bytes.map UInt8.toNat := by
  intro t u h
  exact Text.ext (map_injective_iff.mpr (fun _ _ => UInt8.toNat_inj.mp) h)

/-- Strings are ordered by their bytes. -/
instance : LinearOrder Text := LinearOrder.lift' _ Text.bytes_injective

end Karst
