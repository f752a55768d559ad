import Karst.Foundations.Fallible
import Karst.Foundations.Fields
import Karst.Foundations.HashChains
import Karst.Foundations.Texts

/-!
# The audit log

`server/management/internals/karst/audit/audit.go`: an append-only table whose rows each carry the hash
of their content and of the row before.  The database is not part of the repository; `Store` says what it
does to a time it is given, and rows come back from it with the times it kept.  SHA-256 is a parameter.
-/

namespace Karst.Audit

open Runs HashChain
open List hiding Vector

/-- One recorded action.  Times are nanoseconds since 1970, of any year. -/
structure Entry where
  seq : UInt64
  createdAt : ℤ
  accountID : Bytes
  actor : Bytes
  action : Bytes
  target : Bytes
  detail : Bytes
  prevHash : Bytes
  hash : Bytes
  deriving DecidableEq

/-- `Entry{}`, of which only the number and the hash are read. -/
def Entry.zero : Entry := ⟨0, 0, [], [], [], [], [], [], []⟩

/-- `uint64(t.UnixNano())`: outside the years 1678 to 2262 the count wraps. -/
def unixNano (t : ℤ) : UInt64 := UInt64.ofNat (t % 2 ^ 64).toNat

def chainLabel : Bytes := ascii "karst-audit-v1"

def chainHash (sha256 : Bytes → Bytes) (prev : Bytes) (e : Entry) : Bytes :=
  base64Encode (sha256 (chainLabel ++ (field prev ++ (field (beBytes 8 e.seq.toNat)
    ++ (field (beBytes 8 (unixNano e.createdAt).toNat) ++ (field e.accountID ++ (field e.actor
    ++ (field e.action ++ (field e.target ++ field e.detail)))))))))

/-- What `Verify` and `VerifyFrom` find wrong. -/
inductive Broken where
  | gap (expected found : UInt64)
  | unlinked (seq : UInt64)
  | modified (seq : UInt64)
  | truncated (anchor : UInt64)
  | mismatch (anchor : UInt64)
  deriving DecidableEq

inductive Error where
  | broken (b : Broken)
  | empty
  | create
  deriving DecidableEq

abbrev Table := List Entry

/-! ### The database -/

/-- A time column: what is kept of a time is kept as it is from then on. -/
structure Store where
  keep : ℤ → ℤ
  keep_keep : ∀ t, keep (keep t) = keep t

/-- Whole microseconds, each time kept as one next to it. -/
structure Store.Microseconds (S : Store) : Prop where
  dvd : ∀ t, 1000 ∣ S.keep t
  self : ∀ t, 1000 ∣ t → S.keep t = t
  near : ∀ t, |S.keep t - t| < 1000

def postgres : Store where
  keep t := t - t % 1000
  keep_keep t := by
    have hdvd : (t - t % 1000) % 1000 = 0 := by omega
    rw [hdvd, sub_zero]

theorem postgres_microseconds : postgres.Microseconds where
  dvd t := Int.dvd_self_sub_emod
  self t ht := by
    show t - t % 1000 = t
    omega
  near t := by
    show |t - t % 1000 - t| < 1000
    rw [abs_lt]
    omega

def orderAsc (rows : Table) : Table := rows.insertionSort fun a b => a.seq ≤ b.seq

def orderDesc (rows : Table) : Table := rows.insertionSort fun a b => b.seq ≤ a.seq

/-- How many rows there can be: sequence numbers are positive and a column of integers is signed. -/
def capacity : ℕ := 2 ^ 63 - 1

def create (S : Store) (rows : Table) (e : Entry) : Except Error Table :=
  if capacity < e.seq.toNat ∨ rows.any (·.seq == e.seq) = true then .error .create
  else .ok (rows ++ [{ e with createdAt := S.keep e.createdAt }])

/-! ### The operations -/

structure Call where
  accountID : Bytes
  actor : Bytes
  action : Bytes
  target : Bytes
  detail : Bytes
  /-- What the clock says. -/
  now : ℤ

def append (S : Store) (sha256 : Bytes → Bytes) (rows : Table) (c : Call) :
    Except Error (Entry × Table) := do
  let last := (orderDesc rows).head?.getD Entry.zero
  let e : Entry := ⟨last.seq + 1, c.now, c.accountID, c.actor, c.action, c.target, c.detail, last.hash, []⟩
  let e := { e with hash := chainHash sha256 last.hash e }
  let rows ← create S rows e
  return (e, rows)

/-- The table after a call: a failed transaction leaves it as it was. -/
def record (S : Store) (sha256 : Bytes → Bytes) (rows : Table) (c : Call) : Table :=
  match append S sha256 rows c with
  | .ok (_, rows) => rows
  | .error _ => rows

def appendAll (S : Store) (sha256 : Bytes → Bytes) (calls : List Call) : Table :=
  run (record S sha256) [] calls

def head (rows : Table) : Except Error (UInt64 × Bytes) :=
  match (orderDesc rows).head? with
  | none => .error .empty
  | some last => .ok (last.seq, last.hash)

def check (sha256 : Bytes → Bytes) (prev : Bytes) (expectSeq : UInt64) (e : Entry) :
    Except Error Unit :=
  if e.seq ≠ expectSeq then .error (.broken (.gap expectSeq e.seq))
  else if e.prevHash ≠ prev then .error (.broken (.unlinked e.seq))
  else if chainHash sha256 prev e ≠ e.hash then .error (.broken (.modified e.seq))
  else .ok ()

def verifyRows (sha256 : Bytes → Bytes) : Bytes → UInt64 → List Entry → Except Error Unit
  | _, _, [] => .ok ()
  | prev, expectSeq, e :: rows =>
    check sha256 prev expectSeq e >>= fun _ => verifyRows sha256 e.hash (expectSeq + 1) rows

def verify (sha256 : Bytes → Bytes) (rows : Table) : Except Error Unit :=
  verifyRows sha256 [] 1 (orderAsc rows)

def verifyFrom (sha256 : Bytes → Bytes) (rows : Table) (anchorSeq : UInt64) (anchorHash : Bytes) :
    Except Error Unit := do
  verify sha256 rows
  match (orderAsc rows).find? (·.seq == anchorSeq) with
  | none => .error (.broken (.truncated anchorSeq))
  | some e => if e.hash ≠ anchorHash then .error (.broken (.mismatch anchorSeq)) else .ok ()

/-! ### What is hashed -/

structure Content where
  seq : UInt64
  nanos : UInt64
  accountID : Bytes
  actor : Bytes
  action : Bytes
  target : Bytes
  detail : Bytes

def Entry.content (e : Entry) : Content :=
  ⟨e.seq, unixNano e.createdAt, e.accountID, e.actor, e.action, e.target, e.detail⟩

def chainInput (prev : Bytes) (c : Content) : Bytes :=
  chainLabel ++ (field prev ++ (field (beBytes 8 c.seq.toNat) ++ (field (beBytes 8 c.nanos.toNat)
    ++ (field c.accountID ++ (field c.actor ++ (field c.action ++ (field c.target ++ field c.detail)))))))

def hashText (sha256 : Bytes → Bytes) (x : Bytes) : Bytes := base64Encode (sha256 x)

theorem chainHash_eq (sha256 : Bytes → Bytes) (prev : Bytes) (e : Entry) :
    chainHash sha256 prev e = hashText sha256 (chainInput prev e.content) := rfl

def headOf (sha256 : Bytes → Bytes) (cs : List Content) : Bytes :=
  HashChain.head chainInput (hashText sha256) cs

theorem headOf_concat (sha256 : Bytes → Bytes) (cs : List Content) (c : Content) :
    headOf sha256 (cs ++ [c]) = hashText sha256 (chainInput (headOf sha256 cs) c) := head_concat c

/-! ### Rows in order -/

section

variable {rows : Table} {e : Entry}

theorem orderAsc_eq_self (h : rows.Pairwise fun a b => a.seq < b.seq) : orderAsc rows = rows :=
  Pairwise.insertionSort_eq (h.imp fun hlt => UInt64.le_of_lt hlt)

theorem mem_orderAsc : e ∈ orderAsc rows ↔ e ∈ rows := mem_insertionSort _

theorem pairwise_orderAsc (rows : Table) : (orderAsc rows).Pairwise fun a b => a.seq ≤ b.seq := by
  exact pairwise_insertionSort _ rows

theorem head?_orderDesc (h : ∀ x ∈ rows, x.seq < e.seq) : (orderDesc (rows ++ [e])).head? = some e := by
  have hsorted := pairwise_insertionSort (fun a b : Entry => b.seq ≤ a.seq) (rows ++ [e])
  have he : e ∈ orderDesc (rows ++ [e]) :=
    (mem_insertionSort _).mpr (mem_append_right rows (mem_singleton_self e))
  rw [orderDesc] at he ⊢
  cases hl : (rows ++ [e]).insertionSort fun a b => b.seq ≤ a.seq with
  | nil =>
    rw [hl] at he
    cases he
  | cons x l =>
    rw [hl] at he hsorted
    have hx : x ∈ rows ++ [e] :=
      (mem_insertionSort fun a b : Entry => b.seq ≤ a.seq).mp (hl ▸ mem_cons_self)
    rcases mem_append.mp hx with hx | hx
    · rcases mem_cons.mp he with rfl | he
      · rfl
      · have hle := (pairwise_cons.mp hsorted).1 e he
        exact absurd (h x hx) (UInt64.not_lt.mpr hle)
    · rw [mem_singleton.mp hx]
      rfl

end

/-! ### The table after any calls -/

def Call.content (n : ℕ) (c : Call) : Content :=
  ⟨UInt64.ofNat (n + 1), unixNano c.now, c.accountID, c.actor, c.action, c.target, c.detail⟩

def contents (cs : List Call) : List Content := cs.mapIdx Call.content

def row (S : Store) (sha256 : Bytes → Bytes) (cs : List Call) (c : Call) : Entry :=
  ⟨UInt64.ofNat (cs.length + 1), S.keep c.now, c.accountID, c.actor, c.action, c.target, c.detail,
    headOf sha256 (contents cs), headOf sha256 (contents (cs ++ [c]))⟩

def table (S : Store) (sha256 : Bytes → Bytes) (cs : List Call) : Table :=
  cs.mapIdx fun i c => row S sha256 (cs.take i) c

section

variable {S : Store} {sha256 : Bytes → Bytes} {cs : List Call} {c : Call}

theorem contents_concat : contents (cs ++ [c]) = contents cs ++ [c.content cs.length] := by
  simp [contents]

theorem table_concat : table S sha256 (cs ++ [c]) = table S sha256 cs ++ [row S sha256 cs c] := by
  have hfront : cs.mapIdx (fun i c' => row S sha256 ((cs ++ [c]).take i) c') = table S sha256 cs := by
    refine mapIdx_eq_mapIdx_iff.mpr ?_
    intro i hi
    rw [take_append_of_le_length hi.le]
  rw [table, mapIdx_append, hfront]
  simp

theorem length_table : (table S sha256 cs).length = cs.length := length_mapIdx

theorem seq_table : (table S sha256 cs).map Entry.seq
    = (range cs.length).map fun i => UInt64.ofNat (i + 1) := by
  induction cs using reverseRecOn with
  | nil => rfl
  | append_singleton cs c ih =>
    rw [table_concat, map_append, ih, length_append, length_singleton, range_succ, map_append]
    rfl

theorem toNat_ofNat_succ {n : ℕ} (h : n < capacity) : (UInt64.ofNat (n + 1)).toNat = n + 1 := by
  rw [UInt64.toNat_ofNat_of_lt']
  simp only [capacity] at h
  show n + 1 < 2 ^ 64
  omega

theorem seq_lt_of_mem_table (hcs : cs.length < capacity) {e : Entry} (he : e ∈ table S sha256 cs) :
    e.seq < (row S sha256 cs c).seq := by
  have hseq : e.seq ∈ (table S sha256 cs).map Entry.seq := mem_map_of_mem he
  rw [seq_table] at hseq
  obtain ⟨i, hi, hie⟩ := mem_map.mp hseq
  have hi := mem_range.mp hi
  show e.seq < UInt64.ofNat (cs.length + 1)
  rw [← hie, UInt64.lt_iff_toNat_lt, toNat_ofNat_succ (hi.trans hcs), toNat_ofNat_succ hcs]
  omega

variable (hcs : cs.length ≤ capacity)
include hcs

theorem pairwise_table : (table S sha256 cs).Pairwise fun a b => a.seq < b.seq := by
  induction cs using reverseRecOn with
  | nil => exact Pairwise.nil
  | append_singleton cs c ih =>
    have hlen : cs.length < capacity := by
      rw [length_append, length_singleton] at hcs
      omega
    rw [table_concat, pairwise_append]
    refine ⟨ih hlen.le, pairwise_singleton _ _, ?_⟩
    intro a ha b hb
    rw [mem_singleton.mp hb]
    exact seq_lt_of_mem_table hlen ha

theorem head?_table : (orderDesc (table S sha256 cs)).head? = (table S sha256 cs).getLast? := by
  rcases eq_nil_or_concat cs with rfl | ⟨cs, c, rfl⟩
  · rfl
  · rw [concat_eq_append] at hcs ⊢
    have hlen : cs.length < capacity := by
      rw [length_append, length_singleton] at hcs
      omega
    rw [table_concat, head?_orderDesc fun e he => seq_lt_of_mem_table hlen he, getLast?_concat]

theorem last_table : ((orderDesc (table S sha256 cs)).head?.getD Entry.zero).seq = UInt64.ofNat cs.length
    ∧ ((orderDesc (table S sha256 cs)).head?.getD Entry.zero).hash = headOf sha256 (contents cs) := by
  rw [head?_table hcs]
  rcases eq_nil_or_concat cs with rfl | ⟨cs, c, rfl⟩
  · exact ⟨rfl, rfl⟩
  · rw [concat_eq_append, table_concat, getLast?_concat, length_append]
    exact ⟨rfl, rfl⟩

theorem append_table : append S sha256 (table S sha256 cs) c = (create S (table S sha256 cs)
      { row S sha256 cs c with createdAt := c.now } >>= fun rows =>
        .ok ({ row S sha256 cs c with createdAt := c.now }, rows)) := by
  obtain ⟨hseq, hhash⟩ := @last_table S sha256 cs hcs
  have hnext : UInt64.ofNat cs.length + 1 = UInt64.ofNat (cs.length + 1) :=
    (UInt64.ofNat_add cs.length 1).symm
  simp only [append, hseq, hhash, hnext]
  rw [row, contents_concat, headOf_concat]
  rfl

theorem record_table : record S sha256 (table S sha256 cs) c
    = if cs.length < capacity then table S sha256 (cs ++ [c]) else table S sha256 cs := by
  rw [record, append_table hcs, create]
  by_cases hlen : cs.length < capacity
  · have hnew : (table S sha256 cs).any (·.seq == (row S sha256 cs c).seq) = false := by
      rw [any_eq_false]
      intro e he
      simpa using (UInt64.ne_of_lt (seq_lt_of_mem_table (c := c) hlen he))
    have hfits : ¬ capacity < (row S sha256 cs c).seq.toNat := by
      show ¬ capacity < (UInt64.ofNat (cs.length + 1)).toNat
      rw [toNat_ofNat_succ hlen]
      omega
    rw [if_neg (by rw [hnew]; simpa using hfits), if_pos hlen, table_concat]
    rfl
  · have hfull : capacity < (row S sha256 cs c).seq.toNat := by
      show capacity < (UInt64.ofNat (cs.length + 1)).toNat
      have heq : cs.length = capacity := by omega
      rw [heq]
      decide
    rw [if_pos (Or.inl hfull), if_neg hlen]
    rfl

omit hcs

/-- **The table after any calls.**  Once it is full, it stays as it is. -/
theorem appendAll_eq_table (calls : List Call) :
    appendAll S sha256 calls = table S sha256 (calls.take capacity) := by
  induction calls using reverseRecOn with
  | nil => rfl
  | append_singleton calls c ih =>
    rw [appendAll] at ih ⊢
    rw [run_concat, ih, record_table (length_take_le _ _)]
    by_cases hlen : calls.length < capacity
    · have hall : calls.take capacity = calls := take_of_length_le hlen.le
      have hmore : (calls ++ [c]).take capacity = calls ++ [c] := by
        refine take_of_length_le ?_
        rw [length_append, length_singleton]
        omega
      rw [hall, hmore, if_pos hlen]
    · rw [take_append_of_le_length (Nat.le_of_not_lt hlen), if_neg]
      rw [length_take]
      omega

/-- **Heads.**  What `Head` returns is the number and the hash of the last row. -/
theorem head_appendAll {calls : List Call} {s : UInt64} {h : Bytes}
    (hhead : head (appendAll S sha256 calls) = .ok (s, h)) :
    ∃ p c, calls.take capacity = p ++ [c] ∧ s = UInt64.ofNat (p.length + 1)
      ∧ h = headOf sha256 (contents (p ++ [c])) := by
  rw [appendAll_eq_table, head, head?_table (length_take_le _ _)] at hhead
  rcases eq_nil_or_concat (calls.take capacity) with hnil | ⟨p, c, hp⟩
  · rw [hnil] at hhead
    cases hhead
  · rw [concat_eq_append] at hp
    rw [hp, table_concat, getLast?_concat] at hhead
    obtain ⟨rfl, rfl⟩ := Prod.mk.inj (Except.ok.inj hhead)
    exact ⟨p, c, hp, rfl, rfl⟩

theorem table_isPrefix {p : List Call} (h : p <+: cs) : table S sha256 p <+: table S sha256 cs := by
  obtain ⟨r, rfl⟩ := h
  induction r using reverseRecOn with
  | nil => rw [append_nil]
  | append_singleton r c ih =>
    rw [← append_assoc, table_concat]
    exact ih.trans (prefix_append _ _)

end

/-! ### The walk -/

section

variable {sha256 : Bytes → Bytes} {rows : List Entry} {e : Entry} {prev : Bytes} {n : UInt64}

theorem check_eq_ok : check sha256 prev n e = .ok ()
    ↔ e.seq = n ∧ e.prevHash = prev ∧ chainHash sha256 prev e = e.hash := by
  simp only [check, guard_eq_ok, ne_eq, not_not, and_true]

def lastHash (prev : Bytes) (rows : List Entry) : Bytes := rows.foldl (fun _ e => e.hash) prev

theorem lastHash_concat : lastHash prev (rows ++ [e]) = e.hash := by
  rw [lastHash, foldl_append]
  rfl

theorem verifyRows_concat : verifyRows sha256 prev n (rows ++ [e]) = .ok ()
    ↔ verifyRows sha256 prev n rows = .ok ()
      ∧ check sha256 (lastHash prev rows) (n + UInt64.ofNat rows.length) e = .ok () := by
  induction rows generalizing prev n with
  | nil =>
    show (check sha256 prev n e >>= fun _ => .ok ()) = .ok () ↔ _
    rw [bind_eq_ok]
    have hzero : n + UInt64.ofNat ([] : List Entry).length = n := UInt64.add_zero n
    rw [hzero]
    exact ⟨fun ⟨_, h, _⟩ => ⟨rfl, h⟩, fun ⟨_, h⟩ => ⟨(), h, rfl⟩⟩
  | cons x rows ih =>
    have hnext : n + 1 + UInt64.ofNat rows.length = n + UInt64.ofNat (x :: rows).length := by
      rw [length_cons, UInt64.ofNat_add, UInt64.add_assoc, UInt64.add_comm (UInt64.ofNat rows.length)]
      rfl
    rw [cons_append, verifyRows, verifyRows, bind_eq_ok, bind_eq_ok]
    simp only [ih, hnext]
    exact ⟨fun ⟨u, hx, hrows, he⟩ => ⟨⟨u, hx, hrows⟩, he⟩, fun ⟨⟨u, hx, hrows⟩, he⟩ => ⟨u, hx, hrows, he⟩⟩

structure Linked (sha256 : Bytes → Bytes) (rows : List Entry) (e : Entry) : Prop where
  seq : e.seq = UInt64.ofNat (rows.length + 1)
  hash : e.hash = headOf sha256 ((rows ++ [e]).map Entry.content)

/-- **What a walk that finds nothing has seen.** -/
theorem linked_of_verifyRows (h : verifyRows sha256 [] 1 rows = .ok ()) :
    lastHash [] rows = headOf sha256 (rows.map Entry.content)
      ∧ ∀ p e, p ++ [e] <+: rows → Linked sha256 p e := by
  induction rows using reverseRecOn with
  | nil =>
    refine ⟨rfl, ?_⟩
    intro p e hp
    exact absurd (prefix_nil.mp hp) (by simp)
  | append_singleton rows e ih =>
    obtain ⟨hrows, hcheck⟩ := verifyRows_concat.mp h
    obtain ⟨hlast, hlinked⟩ := ih hrows
    obtain ⟨hseq, -, hhash⟩ := check_eq_ok.mp hcheck
    have hnext : (1 : UInt64) + UInt64.ofNat rows.length = UInt64.ofNat (rows.length + 1) := by
      rw [UInt64.ofNat_add, UInt64.add_comm]
      rfl
    have hhead : e.hash = headOf sha256 ((rows ++ [e]).map Entry.content) := by
      rw [map_append, map_singleton, headOf_concat, ← hlast, ← chainHash_eq]
      exact hhash.symm
    refine ⟨lastHash_concat.trans hhead, ?_⟩
    intro p x hp
    rcases prefix_concat_iff.mp hp with heq | hp
    · obtain ⟨rfl, hx⟩ := append_inj' heq rfl
      obtain rfl := singleton_inj.mp hx
      exact ⟨hseq.trans hnext, hhead⟩
    · exact hlinked p x hp

end

end Karst.Audit
