import Karst.Foundations.ByteStrings

/-!
# Length-prefixed fields

What is hashed or signed is often a sequence of fields, each with its length before it.  The length is a
word of 32 bits, so a field of 4 GiB or more is written with the length it has modulo `2 ^ 32`.
Shorter fields say where they end, and their sequence determines the list it was written from.
-/

namespace Karst

open List hiding Vector

def field (b : Bytes) : Bytes := beBytes 4 b.length ++ b

theorem length_field (b : Bytes) : (field b).length = 4 + b.length := by
  rw [field, length_append, beBytes_length]

theorem field_injective {b b' : Bytes} (h : field b = field b') : b = b' :=
  (append_inj h (by rw [beBytes_length, beBytes_length])).2

theorem field_append_inj {b b' r r' : Bytes} (hb : b.length < 2 ^ 32) (hb' : b'.length < 2 ^ 32)
    (h : field b ++ r = field b' ++ r') : b = b' ∧ r = r' := by
  simp only [field, append_assoc] at h
  obtain ⟨hlen, hrest⟩ := append_inj h (by rw [beBytes_length, beBytes_length])
  have hlength : b.length = b'.length := by
    rw [← beValue_beBytes (n := 4) hb, hlen]
    exact beValue_beBytes hb'
  exact append_inj hrest hlength

def fields (bs : List Bytes) : Bytes := bs.flatMap field

@[simp] theorem fields_nil : fields [] = [] := rfl

@[simp] theorem fields_cons (b : Bytes) (bs : List Bytes) : fields (b :: bs) = field b ++ fields bs := rfl

theorem fields_append (bs cs : List Bytes) : fields (bs ++ cs) = fields bs ++ fields cs :=
  flatMap_append

theorem field_append_ne_nil (b r : Bytes) : field b ++ r ≠ [] := by
  intro h
  have hlen := congrArg length h
  rw [length_append, length_field, length_nil] at hlen
  omega

theorem fields_inj {bs cs : List Bytes} (hbs : ∀ b ∈ bs, b.length < 2 ^ 32)
    (hcs : ∀ c ∈ cs, c.length < 2 ^ 32) (h : fields bs = fields cs) : bs = cs := by
  induction bs generalizing cs with
  | nil =>
    cases cs with
    | nil => rfl
    | cons c cs => exact absurd h.symm (field_append_ne_nil c _)
  | cons b bs ih =>
    cases cs with
    | nil => exact absurd h (field_append_ne_nil b _)
    | cons c cs =>
      obtain ⟨hb, hbs⟩ := forall_mem_cons.mp hbs
      obtain ⟨hc, hcs⟩ := forall_mem_cons.mp hcs
      obtain ⟨hbc, hrest⟩ := field_append_inj hb hc h
      rw [hbc, ih hbs hcs hrest]

/-! ### Blobs -/

/-- Bytes below 4 GiB. -/
@[ext] structure Blob where
  bytes : Bytes
  short : bytes.length < 2 ^ 32
  deriving DecidableEq

namespace Blob

/-- As much as fits. -/
def of (b : Bytes) : Blob := ⟨b.take (2 ^ 32 - 1), by rw [List.length_take]; omega⟩

def empty : Blob := ⟨[], by decide⟩

instance : Inhabited Blob := ⟨empty⟩

theorem key_injective : Function.Injective fun b : Blob => b.bytes.map UInt8.toNat := by
  intro a b h
  exact Blob.ext (map_injective_iff.mpr (fun _ _ => UInt8.toNat_inj.mp) h)

instance : LinearOrder Blob := LinearOrder.lift' _ key_injective

end Blob

/-! ### Layouts -/

section

variable {α σ : Type*}

/-- The encoding says where it ends, and what it is of, once the shape is known. -/
def Delimited (enc : α → Bytes) (shape : α → σ) : Prop :=
  ∀ ⦃a a' r r'⦄, shape a = shape a' → enc a ++ r = enc a' ++ r' → a = a' ∧ r = r'

theorem delimited_blob : Delimited (fun b : Blob => field b.bytes) fun _ => () := by
  intro b b' r r' _ h
  obtain ⟨hb, hr⟩ := field_append_inj b.short b'.short h
  exact ⟨Blob.ext hb, hr⟩

variable {enc : α → Bytes}

theorem delimited_of_length {n : ℕ} (hlen : ∀ a, (enc a).length = n)
    (hinj : Function.Injective enc) : Delimited enc fun _ => () := by
  intro a a' r r' _ h
  obtain ⟨ha, hr⟩ := append_inj h (by rw [hlen, hlen])
  exact ⟨hinj ha, hr⟩

theorem Delimited.list {shape : α → σ} (h : Delimited enc shape) :
    Delimited (fun l : List α => l.flatMap enc) fun l => l.map shape := by
  intro l l' r r' hshape henc
  induction l generalizing l' with
  | nil =>
    obtain rfl := map_eq_nil_iff.mp hshape.symm
    exact ⟨rfl, henc⟩
  | cons a l ih =>
    cases l' with
    | nil => cases hshape
    | cons a' l' =>
      obtain ⟨ha, hl⟩ := cons.inj hshape
      simp only [flatMap_cons, append_assoc] at henc
      obtain ⟨heq, hrest⟩ := h ha henc
      obtain ⟨hlists, hr⟩ := ih hl hrest
      exact ⟨by rw [heq, hlists], hr⟩

theorem Delimited.items (h : Delimited enc fun _ => ()) :
    Delimited (fun l : List α => l.flatMap enc) length := by
  intro l l' r r' hlen henc
  refine h.list ?_ henc
  show l.map (fun _ => ()) = l'.map fun _ => ()
  rw [map_const', map_const', hlen]

theorem Delimited.head {shape : α → σ} (h : Delimited enc shape) {a a' : α}
    {l l' : List Bytes} (hshape : shape a = shape a')
    (henc : (enc a :: l).flatten = (enc a' :: l').flatten) : a = a' ∧ l.flatten = l'.flatten :=
  h hshape henc

end

end Karst
