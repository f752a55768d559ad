import Karst.Foundations.ByteStrings
import Karst.Foundations.Fallible

/-!
# Frames on a byte stream

A decoder looks at the front of a buffer and finds a frame, an error, or too little.  A reader of a
stream appends what arrives to its buffer and decodes until there is too little.
It then returns the values that were written, however the stream is cut (`receive_flatten`).
-/

namespace Karst.Framing

open List hiding Vector

variable {ε α : Type}

/-- A frame and the bytes it took, or `none` while it is incomplete. -/
abbrev Decoder (ε α : Type) := Bytes → Except ε (Option (α × ℕ))

/-- The decoder finds the encodings of the values that are `ok`, and waits for them. -/
structure Frames (decode : Decoder ε α) (enc : α → Bytes) (ok : α → Prop) : Prop where
  complete : ∀ a rest, ok a → decode (enc a ++ rest) = .ok (some (a, (enc a).length))
  incomplete : ∀ a front rest, ok a → enc a = front ++ rest → rest ≠ [] → decode front = .ok none
  empty : decode [] = .ok none
  nonempty : ∀ a, enc a ≠ []

/-- Decode what the buffer holds, up to a number of frames. -/
def drain (decode : Decoder ε α) : ℕ → Bytes → Except ε (List α × Bytes)
  | 0, buf => .ok ([], buf)
  | fuel + 1, buf => do
    match ← decode buf with
    | none => return ([], buf)
    | some (a, used) =>
      let (as, rest) ← drain decode fuel (buf.drop used)
      return (a :: as, rest)

/-- Take in a chunk.  No frame is empty, so the buffer holds no more frames than bytes. -/
def feed (decode : Decoder ε α) (buf chunk : Bytes) : Except ε (List α × Bytes) :=
  drain decode (buf ++ chunk).length (buf ++ chunk)

def receive (decode : Decoder ε α) : Bytes → List Bytes → Except ε (List α × Bytes)
  | buf, [] => .ok ([], buf)
  | buf, chunk :: chunks => do
    let (as, buf) ← feed decode buf chunk
    let (as', buf) ← receive decode buf chunks
    return (as ++ as', buf)

section

variable {decode : Decoder ε α} {enc : α → Bytes} {ok : α → Prop}

/-- Less than the first of the frames that are still to come. -/
def Short (enc : α → Bytes) : List α → Bytes → Prop
  | [], left => left = []
  | a :: _, left => ∃ more, more ≠ [] ∧ enc a = left ++ more

theorem Frames.short_nil (h : Frames decode enc ok) (as : List α) : Short enc as [] := by
  cases as with
  | nil => rfl
  | cons a as => exact ⟨enc a, h.nonempty a, rfl⟩

variable {buf rest : Bytes} {as : List α}

theorem whole_or_short {frame tail : Bytes} (h : frame ++ tail = buf ++ rest) :
    (∃ more, buf = frame ++ more ∧ tail = more ++ rest) ∨ ∃ more, more ≠ [] ∧ frame = buf ++ more := by
  rcases append_eq_append_iff.mp h with hwhole | ⟨more, henc, hrest⟩
  · exact Or.inl hwhole
  · by_cases hnil : more = []
    · subst hnil
      rw [append_nil] at henc
      exact Or.inl ⟨[], by rw [henc, append_nil], hrest.symm⟩
    · exact Or.inr ⟨more, hnil, henc⟩

variable (h : Frames decode enc ok)
include h

/-- **Draining** a buffer that holds the beginning of a stream of frames returns the whole ones, and
leaves less than a frame. -/
theorem drain_eq (has : ∀ a ∈ as, ok a)
    (hbuf : (as.map enc).flatten = buf ++ rest) {fuel : ℕ} (hfuel : buf.length ≤ fuel) :
    ∃ done todo left, as = done ++ todo ∧ drain decode fuel buf = .ok (done, left)
      ∧ buf = (done.map enc).flatten ++ left ∧ Short enc todo left := by
  induction as generalizing buf fuel with
  | nil =>
    have hnil : buf = [] := (append_eq_nil_iff.mp hbuf.symm).1
    subst hnil
    refine ⟨[], [], [], rfl, ?_, rfl, rfl⟩
    cases fuel with
    | zero => rfl
    | succ fuel =>
      rw [drain, h.empty]
      rfl
  | cons a as ih =>
    have ha : ok a := has a mem_cons_self
    have has' : ∀ a' ∈ as, ok a' := fun a' ha' => has a' (mem_cons_of_mem a ha')
    rcases whole_or_short (show enc a ++ _ = _ from hbuf) with ⟨more, rfl, hmore⟩ | ⟨more, hne, henc⟩
    · have hpos : 0 < (enc a).length := length_pos_iff.mpr (h.nonempty a)
      rw [length_append] at hfuel
      obtain ⟨fuel, rfl⟩ := Nat.exists_eq_add_one.mpr (show 0 < fuel by omega)
      obtain ⟨done, todo, left, rfl, hdrain, rfl, hshort⟩ :=
        ih has' hmore (show more.length ≤ fuel by omega)
      refine ⟨a :: done, todo, left, rfl, ?_, (append_assoc _ _ _).symm, hshort⟩
      rw [drain, h.complete a _ ha]
      show (drain decode fuel (drop _ (enc a ++ _)) >>= _) = _
      rw [drop_left, hdrain]
      rfl
    · refine ⟨[], a :: as, buf, rfl, ?_, rfl, more, hne, henc⟩
      cases fuel with
      | zero => rfl
      | succ fuel =>
        rw [drain, h.incomplete a buf more ha henc hne]
        rfl

theorem receive_eq (has : ∀ a ∈ as, ok a) {chunks : List Bytes} (hshort : Short enc as buf)
    (hbuf : (as.map enc).flatten = buf ++ chunks.flatten ++ rest) :
    ∃ done todo left, as = done ++ todo ∧ receive decode buf chunks = .ok (done, left)
      ∧ buf ++ chunks.flatten = (done.map enc).flatten ++ left ∧ Short enc todo left := by
  induction chunks generalizing as buf with
  | nil =>
    refine ⟨[], as, buf, rfl, rfl, ?_, hshort⟩
    show buf ++ [] = [] ++ buf
    rw [append_nil, nil_append]
  | cons chunk chunks ih =>
    have hfed : (as.map enc).flatten = (buf ++ chunk) ++ (chunks.flatten ++ rest) := by
      rw [hbuf, flatten_cons]
      simp only [append_assoc]
    obtain ⟨done, todo, left, rfl, hfeed, hleft, hshort⟩ := drain_eq h has hfed le_rfl
    have hrest : (todo.map enc).flatten = left ++ chunks.flatten ++ rest := by
      rw [hleft, map_append, flatten_append, append_assoc] at hfed
      rw [append_cancel_left hfed, append_assoc]
    obtain ⟨done', todo', left', rfl, hreceive, hleft', hshort'⟩ :=
      ih (fun a ha => has a (mem_append_right done ha)) hshort hrest
    refine ⟨done ++ done', todo', left', (append_assoc _ _ _).symm, ?_, ?_, hshort'⟩
    · show (drain decode _ (buf ++ chunk) >>= _) = _
      rw [hfeed]
      show (receive decode left chunks >>= _) = _
      rw [hreceive]
      rfl
    · rw [flatten_cons, ← append_assoc, hleft, append_assoc, hleft', map_append, flatten_append, append_assoc]

/-- **Chunks do not matter.**  A stream of frames is received as the frames that were written,
however it is cut. -/
theorem receive_flatten (has : ∀ a ∈ as, ok a)
    {chunks : List Bytes} (hchunks : chunks.flatten = (as.map enc).flatten) :
    receive decode [] chunks = .ok (as, []) := by
  have hbuf : (as.map enc).flatten = [] ++ chunks.flatten ++ [] := by
    rw [hchunks, nil_append, append_nil]
  obtain ⟨done, todo, left, rfl, hreceive, hleft, hshort⟩ :=
    receive_eq h has (h.short_nil as) hbuf
  rw [nil_append, hchunks, map_append, flatten_append] at hleft
  have htodo : (todo.map enc).flatten = left := append_cancel_left hleft
  cases todo with
  | nil =>
    rw [append_nil, hreceive, ← htodo]
    rfl
  | cons a todo =>
    -- what is left is the frame `a` and more, and less than that frame
    obtain ⟨more, hne, henc⟩ := hshort
    have hlen := congrArg length htodo
    have hlen' := congrArg length henc
    have hpos := length_pos_iff.mpr hne
    simp only [map_cons, flatten_cons, length_append] at hlen hlen'
    omega

end

end Karst.Framing
