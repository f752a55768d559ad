import Karst.Foundations.Texts
import Karst.Foundations.Fallible

/-!
# The resolver

Which requests `karst-dns` answers itself and which it sends on (`lib.rs`, `split.rs`, `service.rs`).  How
the DNS library writes a label is a parameter, and so are the records of the mesh.  What the resolver is
built of stands in `Karst.Dns.LeakGuard`.
-/

namespace Karst.Dns

open List

def DOT : UInt8 := 0x2E

def isNameByte (b : UInt8) : Bool :=
  (0x30 ≤ b && b ≤ 0x39) || (0x41 ≤ b && b ≤ 0x5A) || (0x61 ≤ b && b ≤ 0x7A) || b == 0x2D

def lowercase (b : UInt8) : UInt8 := if 0x41 ≤ b && b ≤ 0x5A then b + 0x20 else b

inductive Error where
  | invalidName (raw : Bytes)
  | upstreamLoop
  | routeConflictsWithMesh (domain : Bytes)
  deriving DecidableEq

/-- Lower case, without the dots at the end. -/
def canonicalName (raw : Bytes) : Except Error Bytes :=
  let name := raw.rdropWhile (· == DOT)
  if name.isEmpty then .ok []
  else if 253 < name.length || name.any (0x80 ≤ ·) then .error (.invalidName raw)
  else if (name.splitOn DOT).all fun label =>
      !label.isEmpty && label.length ≤ 63 && label.all isNameByte then .ok (name.map lowercase)
  else .error (.invalidName raw)

def under (domain name : Bytes) : Bool := name == domain || (DOT :: domain).isSuffixOf name

inductive RecordType where
  | a
  | aaaa
  | ptr
  | other
  deriving DecidableEq

def RecordType.ofWire (qtype : UInt16) : RecordType :=
  if qtype = 1 then .a else if qtype = 28 then .aaaa else if qtype = 12 then .ptr else .other

structure Route (U : Type) where
  matchDomain : Bytes
  resolvers : List U
  deriving DecidableEq

/-- The zone of the mesh with its answers, and where other names are sent. -/
structure Resolver (U A : Type) where
  zone : Bytes
  isMeshReverse : Bytes → Bool
  lookup : Bytes → RecordType → A
  routes : List (Route U)
  nameservers : List U

inductive Resolution (U A : Type) where
  | authoritative (answer : A)
  | forward (resolvers : List U) (split : Bool)
  | refused

inductive Decision (U A : Type) where
  | authoritative (answer : A)
  | refused
  | servFail
  | formErr
  | forward (resolvers : List U) (split : Bool)
  deriving DecidableEq

variable {U A : Type}

namespace Resolver

def matching (r : Resolver U A) (name : Bytes) : Option (Route U) :=
  r.routes.find? fun route => under route.matchDomain name

/-- Where the name is sent: to the resolvers of the route it matches, or else to the nameservers. -/
def resolversFor (r : Resolver U A) (name : Bytes) : List U :=
  ((r.matching name).map Route.resolvers).getD r.nameservers

def resolve (r : Resolver U A) (name : Bytes) (kind : RecordType) (recursionDesired : Bool) :
    Except Error (Resolution U A) :=
  if recursionDesired then do
    let name ← canonicalName name
    if under r.zone name || r.isMeshReverse name then return .authoritative (r.lookup name kind)
    match r.matching name with
    | some route => return .forward route.resolvers true
    | none => return .forward r.nameservers false
  else .ok .refused

end Resolver

/-- A name on the wire. -/
structure Name where
  labels : List Bytes
  legal : ∀ l ∈ labels, 1 ≤ l.length ∧ l.length ≤ 63
  short : (labels.map fun l => l.length + 1).sum + 1 ≤ 255

/-- How the library writes a label: as it is, or with an escape. -/
structure Rendering where
  label : Bytes → Bytes
  plain : ∀ l, (label l).all isNameByte = true → label l = l
  escaped : ∀ l, (label l).all isNameByte = false → ∃ b ∈ label l, isNameByte b = false ∧ b ≠ DOT

structure Query where
  name : Name
  qtype : UInt16

structure Request where
  queries : List Query
  recursionDesired : Bool

namespace Rendering

variable (R : Rendering)

/-- The name as text; the root is a dot. -/
def toAscii (name : Name) : Bytes :=
  if name.labels.isEmpty then [DOT] else name.labels.flatMap fun l => R.label l ++ [DOT]

/-- The name in lower case, without the dots at the end. -/
def spelled (name : Name) : Bytes := ((R.toAscii name).rdropWhile (· == DOT)).map lowercase

def decide (r : Resolver U A) (request : Request) : Decision U A :=
  match request.queries with
  | [] => .formErr
  | question :: _ =>
    match r.resolve (R.toAscii question.name) (.ofWire question.qtype) request.recursionDesired with
    | .ok (.authoritative answer) => .authoritative answer
    | .ok .refused => .refused
    | .ok (.forward [] _) => .servFail
    | .ok (.forward resolvers split) => .forward resolvers split
    | .error _ => .formErr

variable {R} {name : Name}

theorem isNameByte_lt {b : UInt8} (h : isNameByte b = true) : b < 0x80 ∧ b ≠ DOT := by
  simp only [isNameByte, DOT, Bool.or_eq_true, Bool.and_eq_true, decide_eq_true_eq, beq_iff_eq,
    UInt8.le_iff_toNat_le, UInt8.lt_iff_toNat_lt, ne_eq, ← UInt8.toNat_inj] at h ⊢
  simp at h ⊢
  omega

theorem intercalate_concat (c : UInt8) (front : List Bytes) (last : Bytes) :
    [c].intercalate (front ++ [last]) = front.flatMap (· ++ [c]) ++ last := by
  induction front with
  | nil => simp [intercalate]
  | cons p front ih =>
    cases front with
    | nil => simp [intercalate]
    | cons q front =>
      rw [cons_append, cons_append, intercalate_cons_cons, ← cons_append, ih]
      simp

/-- A name that is written with an escape is not accepted. -/
theorem canonicalName_escaped {l : Bytes} (hl : l ∈ name.labels) (hbad : (R.label l).all isNameByte = false) :
    canonicalName (R.toAscii name) = .error (.invalidName (R.toAscii name)) := by
  obtain ⟨b, hb, hname, hdot⟩ := R.escaped l hbad
  have htext : b ∈ R.toAscii name := by
    rw [toAscii, if_neg (by simpa using ne_nil_of_mem hl)]
    exact mem_flatMap.mpr ⟨l, hl, mem_append_left _ hb⟩
  have hmem : b ∈ (R.toAscii name).rdropWhile (· == DOT) := by
    rw [← rdropWhile_append_rtakeWhile (p := (· == DOT)) (l := R.toAscii name)] at htext
    exact (mem_append.mp htext).resolve_right fun h => hdot (by simpa using mem_rtakeWhile_imp h)
  obtain ⟨piece, hpiece, hb⟩ := mem_splitOn hmem hdot
  simp only [canonicalName]
  rw [if_neg (by simpa using ne_nil_of_mem hmem)]
  split
  · rfl
  · rw [if_neg]
    intro hall
    have hnames := (Bool.and_eq_true_iff.mp (all_eq_true.mp hall piece hpiece)).2
    rw [all_eq_true.mp hnames b hb] at hname
    cases hname

theorem canonicalName_plain (hplain : ∀ l ∈ name.labels, (R.label l).all isNameByte = true) :
    canonicalName (R.toAscii name) = .ok (R.spelled name) := by
  have hlabel (l : Bytes) (hl : l ∈ name.labels) : R.label l = l := R.plain l (hplain l hl)
  have hnames (l : Bytes) (hl : l ∈ name.labels) (b : UInt8) (hb : b ∈ l) : isNameByte b = true :=
    all_eq_true.mp (hlabel l hl ▸ hplain l hl) b hb
  have htext : R.toAscii name = if name.labels.isEmpty then [DOT] else name.labels.flatMap (· ++ [DOT]) := by
    rw [toAscii, flatMap_congr fun l hl => by rw [hlabel l hl]]
  have hshort := name.short
  rw [spelled, htext]
  rcases name.labels.eq_nil_or_concat with hnil | ⟨front, last, hlabels⟩
  · simp [hnil, canonicalName, rdropWhile_singleton]
  · rw [concat_eq_append] at hlabels
    have hlegal := name.legal
    rw [hlabels] at hnames hshort hlegal ⊢
    obtain ⟨hpos, -⟩ := hlegal last (by simp)
    have hdot : ∀ l ∈ front ++ [last], DOT ∉ l := fun l hl hb => (isNameByte_lt (hnames l hl _ hb)).2 rfl
    have hdrop : ((front ++ [last]).flatMap (· ++ [DOT])).rdropWhile (· == DOT)
        = [DOT].intercalate (front ++ [last]) := by
      rw [flatMap_append, flatMap_singleton, ← append_assoc, ← intercalate_concat,
        rdropWhile_concat_pos (· == DOT) _ _ (beq_self_eq_true DOT), rdropWhile_eq_self_iff]
      intro hne
      simp only [intercalate_concat, getLast_append_of_ne_nil _ (ne_nil_of_length_pos hpos), beq_iff_eq]
      exact fun h => hdot last (by simp) (h ▸ getLast_mem _)
    have hlen : ([DOT].intercalate (front ++ [last])).length ≤ 253 := by
      rw [intercalate_concat]
      simp [length_flatMap] at hshort ⊢
      omega
    have hascii : ([DOT].intercalate (front ++ [last])).any (0x80 ≤ ·) = false := by
      refine any_eq_false.mpr fun b hb => ?_
      rcases mem_of_mem_intercalate hb with rfl | ⟨l, hl, hb⟩
      · decide
      · simpa using (isNameByte_lt (hnames l hl b hb)).1
    have hall : (front ++ [last]).all (fun label =>
        !label.isEmpty && label.length ≤ 63 && label.all isNameByte) = true := by
      refine all_eq_true.mpr fun l hl => ?_
      obtain ⟨hpos, hmax⟩ := hlegal l hl
      simpa [hmax, length_pos_iff.mp hpos] using hnames l hl
    simp only [if_neg (show ¬ (front ++ [last]).isEmpty = true by simp), canonicalName, hdrop, hascii]
    rw [splitOn_intercalate DOT hdot (by simp), if_neg, if_neg, if_pos hall]
    · simpa using hlen
    · rw [intercalate_concat]
      simpa using fun _ => ne_nil_of_length_pos hpos

theorem resolve_plain {r : Resolver U A} {kind : RecordType}
    (hzone : under r.zone (R.spelled name) = false) (hreverse : r.isMeshReverse (R.spelled name) = false)
    (hplain : ∀ l ∈ name.labels, (R.label l).all isNameByte = true) :
    r.resolve (R.toAscii name) kind true = .ok (.forward (r.resolversFor (R.spelled name))
      (r.matching (R.spelled name)).isSome) := by
  rw [Resolver.resolve, if_pos rfl, canonicalName_plain hplain, ok_bind, hzone, hreverse,
    Resolver.resolversFor]
  cases r.matching (R.spelled name) <;> rfl

/-- **Names outside the mesh.**  A recursive request is sent to the resolvers of its name exactly if every
label of the name is written in letters, digits and hyphens. -/
theorem transparent_iff (R : Rendering) (r : Resolver U A) (name : Name) (qtype : UInt16)
    (hzone : under r.zone (R.spelled name) = false) (hreverse : r.isMeshReverse (R.spelled name) = false)
    (hresolvers : r.resolversFor (R.spelled name) ≠ []) :
    (∃ split, R.decide r ⟨[⟨name, qtype⟩], true⟩ = .forward (r.resolversFor (R.spelled name)) split)
      ↔ ∀ l ∈ name.labels, (R.label l).all isNameByte = true := by
  constructor
  · rintro ⟨split, hforward⟩ l hl
    by_contra hbad
    rw [Bool.not_eq_true] at hbad
    have hrefused : ∀ kind, r.resolve (R.toAscii name) kind true
        = .error (.invalidName (R.toAscii name)) := fun kind => by
      rw [Resolver.resolve, if_pos rfl, canonicalName_escaped hl hbad, error_bind]
    simp [Rendering.decide, hrefused] at hforward
  · intro hplain
    refine ⟨(r.matching (R.spelled name)).isSome, ?_⟩
    simp only [Rendering.decide, resolve_plain hzone hreverse hplain]

/-- Underscores are written as they are, and anything else but name bytes behind a backslash. -/
def backslashed : Rendering where
  label l := if l.all fun b => isNameByte b || b == 0x5F then l else 0x5C :: l
  plain := by
    intro l h
    split at h
    · rename_i hl
      exact if_pos hl
    · simp [isNameByte] at h
  escaped := by
    intro l h
    split at h
    · rename_i hl
      obtain ⟨b, hb, hname⟩ := all_eq_false.mp h
      have hline := all_eq_true.mp hl b hb
      rw [Bool.not_eq_true] at hname
      rw [hname, Bool.false_or, beq_iff_eq] at hline
      rw [if_pos hl]
      exact ⟨b, hb, hname, hline ▸ by decide⟩
    · rename_i hl
      rw [if_neg hl]
      exact ⟨0x5C, mem_cons_self, by decide⟩

def oneRoute : Resolver ℕ Unit := ⟨[0x6B], fun _ => false, fun _ _ => (), [⟨ascii "com", [1]⟩], [53]⟩

def dmarc : Name := ⟨[[0x5F, 0x64], [0x63, 0x6F, 0x6D]], by decide, by decide⟩

def com : Name := ⟨[[0x61], [0x63, 0x6F, 0x6D]], by decide, by decide⟩

theorem com_forwarded : ∃ split, backslashed.decide oneRoute ⟨[⟨com, 1⟩], true⟩ = .forward [1] split :=
  (transparent_iff backslashed oneRoute com 1 (by decide) rfl (by decide)).mpr (by decide)

/-- A name with an underscore is answered with an error. -/
theorem underscore_formErr : backslashed.decide oneRoute ⟨[⟨dmarc, 16⟩], true⟩ = .formErr := by
  rfl

end Rendering

end Karst.Dns
