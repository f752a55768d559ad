import Karst.Policy.Compile
import Karst.Net.Reference

/-!
# The two directions of a policy

A rule that lets `A` reach `B` is compiled twice: into the ingress filter of `B`, where its sources
are resolved, and into the egress filter of `A`, where its destinations are.  The egress compiler
takes the first source selector that describes `A`, and an empty one to mean that there is none;
`Validate` lets empty source selectors pass, and one describes every node without a user.
-/

namespace Karst.Policy

open Net Document
open List hiding Vector

variable {N : Netip} {d : Document} {A B : Node} {port : UInt16}

/-- A destination of the rule that describes `B`, with the port in its ports. -/
def Rule.Reaches (d : Document) (r : Rule) (B : Node) (port : UInt16) (P : Bytes → Prop) : Prop :=
  ∃ dst ∈ r.dst, ∃ parts, splitDst dst = .ok parts ∧ P parts.1
    ∧ d.matchesNode parts.1 B = true ∧ portsContain parts.2 port = true

/-- Some rule has a source selector that describes `A` and a destination that reaches `B`. -/
def Grants (N : Netip) (d : Document) (A B : Node) (port : UInt16) : Prop :=
  ∃ r ∈ d.packetRules N, (∃ src ∈ r.src, d.matchesNode src A = true) ∧ r.Reaches d B port fun _ => True

/-- The same, where the first selector that describes `A` is not empty and the destination is not
written as a network. -/
def GrantsByName (N : Netip) (d : Document) (A B : Node) (port : UInt16) : Prop :=
  ∃ r ∈ d.packetRules N, (∃ src, r.src.find? (d.matchesNode · A) = some src ∧ src ≠ [])
    ∧ r.Reaches d B port fun selector => Document.parseCIDRSelector N selector = none

theorem GrantsByName.grants (h : GrantsByName N d A B port) : Grants N d A B port := by
  obtain ⟨r, hr, ⟨src, hsrc, -⟩, dst, hdst, parts, hparts, -, hreach⟩ := h
  have hmatch : d.matchesNode src A = true := by simpa using find?_some hsrc
  exact ⟨r, hr, ⟨src, mem_of_find?_eq_some hsrc, hmatch⟩, dst, hdst, parts, hparts, trivial, hreach⟩

theorem matchesNode_wildcard (h : A.inactive = false) : d.matchesNode wildcard A = true := by
  simp [matchesNode, h]

theorem names_iff_of_active {all : Roster N} (hA : A ∈ all.nodes) (hactive : A.inactive = false)
    {selectors : List Bytes} : names (d.resolveSources selectors all.nodes) A.handle = true
      ↔ ∃ src ∈ selectors, d.matchesNode src A = true := by
  rw [all.names_resolveSources hA]
  constructor
  · rintro (hw | h)
    · exact ⟨wildcard, hw, matchesNode_wildcard hactive⟩
    · exact h
  · exact Or.inr

theorem matchingSource_ne_nil {selectors : List Bytes} : d.matchingSource selectors A ≠ []
      ↔ ∃ src, selectors.find? (d.matchesNode · A) = some src ∧ src ≠ [] := by
  unfold matchingSource
  cases selectors.find? (d.matchesNode · A) <;> simp

theorem selectorReaches_iff (all : Roster N) (hB : B ∈ all.nodes) (hactive : B.inactive = false)
    {selector : Bytes} :
    d.selectorReaches N all.nodes selector B.handle = true
      ↔ parseCIDRSelector N selector = none ∧ d.matchesNode selector B = true := by
  unfold selectorReaches
  cases hcidr : parseCIDRSelector N selector with
  | some cidr => simp [all.handle_notAddress B hB]
  | none => simp [names_iff_of_active hB hactive]

section

variable (hv : d.validate N = .ok ()) (all : Roster N)

include hv

theorem ingress_iff (hA : A ∈ all.nodes) (hactive : A.inactive = false) (B : Node) (port : UInt16) :
    ∃ f, d.compile N B all.nodes = .ok f ∧ (f.permits N A.handle port = true ↔ Grants N d A B port) := by
  obtain ⟨f, hf, hiff⟩ := compile_permits_iff hv B all.nodes
  refine ⟨f, hf, (hiff A.handle port).trans ?_⟩
  constructor
  · rintro ⟨r, hr, dst, hdst, parts, hparts, hmatch, hnames, hports⟩
    exact ⟨r, hr, (names_iff_of_active hA hactive).mp hnames, dst, hdst, parts, hparts, trivial,
      hmatch, hports⟩
  · rintro ⟨r, hr, hsrc, dst, hdst, parts, hparts, -, hmatch, hports⟩
    exact ⟨r, hr, dst, hdst, parts, hparts, hmatch, (names_iff_of_active hA hactive).mpr hsrc, hports⟩

theorem egress_iff (hB : B ∈ all.nodes) (hactive : B.inactive = false) (A : Node) (port : UInt16) :
    ∃ f, d.compileEgress N A all.nodes = .ok f
      ∧ (f.permits N B.handle port = true ↔ GrantsByName N d A B port) := by
  obtain ⟨f, hf, hiff⟩ := compileEgress_permits_iff hv A all.nodes
  refine ⟨f, hf, (hiff B.handle port).trans ?_⟩
  constructor
  · rintro ⟨r, hr, hsource, dst, hdst, parts, hparts, hreach, hports⟩
    obtain ⟨hcidr, hmatch⟩ := (selectorReaches_iff all hB hactive).mp hreach
    exact ⟨r, hr, matchingSource_ne_nil.mp hsource, dst, hdst, parts, hparts, hcidr, hmatch, hports⟩
  · rintro ⟨r, hr, hsource, dst, hdst, parts, hparts, hcidr, hmatch, hports⟩
    exact ⟨r, hr, matchingSource_ne_nil.mpr hsource, dst, hdst, parts, hparts,
      (selectorReaches_iff all hB hactive).mpr ⟨hcidr, hmatch⟩, hports⟩

/-- **When the two directions agree**: some rule that grants the access has a first selector that is
not empty and a destination that is not a network. -/
theorem directions_agree_iff (hactive : ∀ n ∈ all.nodes, n.inactive = false) (hA : A ∈ all.nodes)
    (hB : B ∈ all.nodes) (port : UInt16) : ∃ ingress egress, d.compile N B all.nodes = .ok ingress
      ∧ d.compileEgress N A all.nodes = .ok egress
      ∧ ((ingress.permits N A.handle port = true ↔ egress.permits N B.handle port = true)
        ↔ (Grants N d A B port → GrantsByName N d A B port)) := by
  obtain ⟨ingress, hin, hingress⟩ := ingress_iff hv all hA (hactive A hA) B port
  obtain ⟨egress, hout, hegress⟩ := egress_iff hv all hB (hactive B hB) A port
  refine ⟨ingress, egress, hin, hout, ?_⟩
  rw [hingress, hegress]
  exact ⟨Iff.mp, fun h => ⟨h, GrantsByName.grants⟩⟩

end

/-! ### An empty selector -/

namespace EmptySource

def nodeA : Node := ⟨ascii "hA", false, [], [], [ascii "tag:prod"]⟩

def nodeB : Node := ⟨ascii "hB", false, [], [], [ascii "tag:dev"]⟩

def roster : Roster reference where
  nodes := [nodeA, nodeB]
  handles_nodup := by decide +kernel
  handle_ne_wildcard := by decide +kernel
  handle_notAddress := by decide +kernel

def rule : Rule := ⟨ascii "accept", [[]], [ascii "tag:dev:80"]⟩

def document : Document := ⟨[], ∅, ∅, ∅, [rule], none⟩

theorem document_valid : document.validate reference = .ok () := by decide +kernel

theorem rule_reaches : rule.Reaches document nodeB 80 fun _ => True :=
  ⟨ascii "tag:dev:80", mem_singleton_self _, (ascii "tag:dev", [⟨80, 80⟩]), by decide +kernel,
    trivial, by decide +kernel, by decide +kernel⟩

theorem active : ∀ n ∈ roster.nodes, n.inactive = false := by decide +kernel

end EmptySource

open EmptySource in
theorem emptySource_agree_iff : ∃ ingress egress, document.compile reference nodeB roster.nodes = .ok ingress
      ∧ document.compileEgress reference nodeA roster.nodes = .ok egress
      ∧ ((ingress.permits reference nodeA.handle 80 = true ↔ egress.permits reference nodeB.handle 80 = true)
        ↔ (Grants reference document nodeA nodeB 80 → GrantsByName reference document nodeA nodeB 80)) :=
  directions_agree_iff document_valid roster active List.mem_cons_self
    (List.mem_cons_of_mem _ (List.mem_singleton_self _)) 80

open EmptySource in
/-- **Admitted by one end, refused by the other.** -/
theorem emptySource_disagree : ∃ ingress egress, document.validate reference = .ok () ∧ nodeA ≠ nodeB
    ∧ document.compile reference nodeB roster.nodes = .ok ingress
    ∧ document.compileEgress reference nodeA roster.nodes = .ok egress
    ∧ ingress.permits reference nodeA.handle 80 = true
    ∧ egress.permits reference nodeB.handle 80 = false := by
  have hA : nodeA ∈ roster.nodes := mem_cons_self
  have hB : nodeB ∈ roster.nodes := mem_cons_of_mem _ (mem_singleton_self _)
  obtain ⟨ingress, hin, hingress⟩ :=
    ingress_iff document_valid roster hA (active _ hA) nodeB 80
  obtain ⟨egress, hout, hegress⟩ :=
    egress_iff document_valid roster hB (active _ hB) nodeA 80
  have hmem : rule ∈ document.packetRules reference := mem_singleton_self _
  refine ⟨ingress, egress, document_valid, by decide +kernel, hin, hout, hingress.mpr ?_, ?_⟩
  · exact ⟨rule, hmem, ⟨[], mem_singleton_self _, by decide +kernel⟩, rule_reaches⟩
  · rw [← Bool.not_eq_true, hegress]
    rintro ⟨r, hr, ⟨src, hsrc, hne⟩, -⟩
    obtain rfl : r = rule := mem_singleton.mp hr
    exact hne (mem_singleton.mp (mem_of_find?_eq_some hsrc))

end Karst.Policy
