import Karst.Policy.Document

/-!
# Compilation into packet filters

`Document.Compile` and `Document.CompileEgress` of `policy/policy.go`, and the evaluators of what
they produce.  `sort.Slice` is a merge sort here; what a filter permits does not depend on the order
of its rules (`any_mergeSort_map`).
-/

namespace Karst.Policy

open Net
open List hiding Vector

/-! ### Filters -/

/-- The policy source of a compiled rule; rules count from one. -/
structure Provenance where
  rule : ℕ
  sourceTerm : Bytes
  destinationTerm : Bytes

structure FilterRule where
  srcs : List Bytes
  dstCidrs : List Bytes
  ports : List PortRange
  provenance : Provenance

structure Filter where
  node : Bytes
  rules : List FilterRule

structure EgressRule where
  dsts : List Bytes
  dstCidrs : List Bytes
  ports : List PortRange
  provenance : Provenance

structure EgressFilter where
  node : Bytes
  rules : List EgressRule

def names (list : List Bytes) (name : Bytes) : Bool := list.any fun s => s == wildcard || s == name

def cidrsContain (N : Netip) (cidrs : List Bytes) (addr : Netip.Addr) : Bool :=
  cidrs.any fun cidr =>
    match N.parsePrefix cidr with
    | some p => p.contains addr
    | none => false

def portsContain (ports : List PortRange) (port : UInt16) : Bool := ports.any (·.contains port)

/-- One rule of `Filter.permits`: with networks it needs a forwarded destination in one of them. -/
def FilterRule.permits (N : Netip) (r : FilterRule) (src : Bytes) (port : UInt16)
    (destination : Option Netip.Addr) (forwarded : Bool) : Bool :=
  (r.dstCidrs.isEmpty || forwarded && destination.any (cidrsContain N r.dstCidrs))
    && names r.srcs src && portsContain r.ports port

namespace Filter

variable (N : Netip) (f : Filter)

def permitsWith (src : Bytes) (port : UInt16) (destination : Option Netip.Addr)
    (forwarded : Bool) : Bool :=
  f.rules.any fun r => r.permits N src port destination forwarded

def permits (src : Bytes) (port : UInt16) : Bool := f.permitsWith N src port none false

def permitsForward (src : Bytes) (destination : Netip.Addr) (port : UInt16) : Bool :=
  f.permitsWith N src port (some destination) true

end Filter

/-- One rule of `EgressFilter.Permits`: the destination is a handle, or an address if it parses as
one. -/
def EgressRule.permits (N : Netip) (r : EgressRule) (dst : Bytes) (port : UInt16) : Bool :=
  (names r.dsts dst || (N.parseAddr dst).any (cidrsContain N r.dstCidrs)) && portsContain r.ports port

def EgressFilter.permits (N : Netip) (f : EgressFilter) (dst : Bytes) (port : UInt16) : Bool :=
  f.rules.any fun r => r.permits N dst port

/-! ### Selectors -/

namespace Document

def matchesNode (d : Document) (selector : Bytes) (n : Node) : Bool :=
  if n.inactive then false
  else if selector = wildcard then true
  else if tagMark.isPrefixOf selector then decide (selector ∈ n.tags)
  else if groupIdMark.isPrefixOf selector then
    decide (selector.drop groupIdMark.length ∈ n.groupIDs)
  else if groupMark.isPrefixOf selector then
    match d.groupBindings.lookup selector with
    | some id => decide (id ∈ n.groupIDs)
    | none => !n.user.isEmpty && decide (n.user ∈ (d.groups.lookup selector).getD [])
  else selector == n.user || selector == n.handle

def gather (d : Document) (selector : Bytes) (all : List Node) (out : List Bytes) : List Bytes :=
  all.foldl (fun out n =>
    if d.matchesNode selector n = true ∧ n.handle ∉ out then out ++ [n.handle] else out) out

/-- The loop of `resolveSources`, which a wildcard ends. -/
def resolveFrom (d : Document) (all : List Node) : List Bytes → List Bytes → List Bytes
  | [], out => out.mergeSort fun a b => decide (a ≤ b)
  | sel :: sels, out =>
    if sel = wildcard then [wildcard] else resolveFrom d all sels (d.gather sel all out)

def resolveSources (d : Document) (selectors : List Bytes) (all : List Node) : List Bytes :=
  d.resolveFrom all selectors []

/-- The first selector that describes the node; empty if there is none. -/
def matchingSource (d : Document) (selectors : List Bytes) (n : Node) : Bytes :=
  (selectors.find? (d.matchesNode · n)).getD []

def parseCIDRSelector (N : Netip) (selector : Bytes) : Option Bytes :=
  if (0x2F : UInt8) ∈ selector then
    (N.parsePrefix selector).map fun p => N.prefixString p.masked
  else none

end Document

/-! ### Order -/

def joinComma (list : List Bytes) : Bytes := [0x2C].intercalate list

def portLess (a b : PortRange) : Bool :=
  if a.first ≠ b.first then decide (a.first < b.first) else decide (a.last < b.last)

def sortPorts (ports : List PortRange) : List PortRange := ports.mergeSort fun a b => !portLess b a

def firstPort (ports : List PortRange) : UInt16 := (ports.head?.map PortRange.first).getD 0

def ruleLess (a b : FilterRule) : Bool :=
  if joinComma a.srcs ≠ joinComma b.srcs then decide (joinComma a.srcs < joinComma b.srcs)
  else if joinComma a.dstCidrs ≠ joinComma b.dstCidrs then
    decide (joinComma a.dstCidrs < joinComma b.dstCidrs)
  else decide (firstPort a.ports < firstPort b.ports)

def normalize (rules : List FilterRule) : List FilterRule :=
  (rules.map fun r => { r with ports := sortPorts r.ports }).mergeSort fun a b => !ruleLess b a

def egressKey (r : EgressRule) : Bytes := joinComma r.dsts ++ 0 :: joinComma r.dstCidrs

def egressLess (a b : EgressRule) : Bool :=
  if egressKey a ≠ egressKey b then decide (egressKey a < egressKey b)
  else decide (firstPort a.ports < firstPort b.ports)

def normalizeEgress (rules : List EgressRule) : List EgressRule :=
  (rules.map fun r => { r with ports := sortPorts r.ports }).mergeSort fun a b => !egressLess b a

/-! ### Compilation -/

namespace Document

variable (N : Netip) (d : Document) (target : Node) (all : List Node)

/-- What a destination of the `i`-th rule adds to the target's filter. -/
def compileDst (i : ℕ) (rule : Rule) (dst : Bytes) : Except PolicyError (List FilterRule) := do
  let parts ← (splitDst dst).mapError (.aclDst i)
  if d.matchesNode parts.1 target = false then return []
  else
    let srcs := d.resolveSources rule.src all
    if srcs = [] then return []
    else return [⟨srcs, [], parts.2, ⟨i + 1, joinComma rule.src, parts.1⟩⟩]

def compileGateway (grant : Grant) : Except PolicyError (List FilterRule) :=
  if target.inactive = true ∨ grant.gateway ≠ target.handle ∨ grant.gateway = [] then .ok []
  else
    let srcs := d.resolveSources grant.sources all
    if srcs = [] then .ok []
    else do
      let ports ← (parsePorts grant.ports).mapError .ports
      let prefixes ← collect (fun network => do
        let p ← okOr (.network network) (N.parsePrefix network)
        return [N.prefixString p.masked]) grant.networks
      return [⟨srcs, prefixes.mergeSort fun a b => decide (a ≤ b), ports, ⟨0, [], []⟩⟩]

def compile : Except PolicyError Filter := do
  let rules ← collect (fun r => collect (d.compileDst target all r.2 r.1) r.1.dst) (d.packetRules N).zipIdx
  let gateways ← collect (d.compileGateway N target all) d.grants
  return ⟨target.handle, normalize (rules ++ gateways)⟩

/-- What a destination of the `i`-th rule adds to the egress filter of its source. -/
def compileEgressDst (i : ℕ) (sourceTerm dst : Bytes) : Except PolicyError (List EgressRule) := do
  let parts ← (splitDst dst).mapError (.aclDst i)
  match parseCIDRSelector N parts.1 with
  | some cidr => return [⟨[], [cidr], parts.2, ⟨i + 1, sourceTerm, parts.1⟩⟩]
  | none =>
    let dsts := d.resolveSources [parts.1] all
    if dsts = [] then return []
    else return [⟨dsts, [], parts.2, ⟨i + 1, sourceTerm, parts.1⟩⟩]

def compileEgressRule (r : Rule × ℕ) : Except PolicyError (List EgressRule) :=
  let sourceTerm := d.matchingSource r.1.src target
  if sourceTerm = [] then .ok []
  else collect (d.compileEgressDst N all r.2 sourceTerm) r.1.dst

def compileEgress : Except PolicyError EgressFilter := do
  let rules ← collect (d.compileEgressRule N target all) (d.packetRules N).zipIdx
  return ⟨target.handle, normalizeEgress rules⟩

end Document

/-! ### The order of rules does not matter -/

theorem portsContain_sortPorts (ports : List PortRange) (port : UInt16) :
    portsContain (sortPorts ports) port = portsContain ports port :=
  (mergeSort_perm ports _).any_eq

theorem FilterRule.permits_sortPorts {N : Netip} (r : FilterRule) (src : Bytes) (port : UInt16)
    (destination : Option Netip.Addr) (forwarded : Bool) :
    FilterRule.permits N { r with ports := sortPorts r.ports } src port destination forwarded
      = r.permits N src port destination forwarded := by
  simp only [FilterRule.permits, portsContain_sortPorts]

theorem FilterRule.permits_machine {N : Netip} {r : FilterRule} {src : Bytes} {port : UInt16} :
    r.permits N src port none false = true
      ↔ r.dstCidrs = [] ∧ names r.srcs src = true ∧ portsContain r.ports port = true := by
  simp [FilterRule.permits, and_assoc]

theorem EgressRule.permits_sortPorts {N : Netip} (r : EgressRule) (dst : Bytes) (port : UInt16) :
    EgressRule.permits N { r with ports := sortPorts r.ports } dst port = r.permits N dst port := by
  simp only [EgressRule.permits, portsContain_sortPorts]

theorem any_mergeSort_map {α : Type*} {q : α → Bool} {g : α → α} {le : α → α → Bool}
    (hq : ∀ r, q (g r) = q r) (rules : List α) : ((rules.map g).mergeSort le).any q = rules.any q := by
  rw [(mergeSort_perm _ _).any_eq, any_map]
  exact any_congr rfl hq

/-! ### Whom a source list names -/

theorem names_iff {list : List Bytes} {name : Bytes} :
    names list name = true ↔ wildcard ∈ list ∨ name ∈ list := by
  rw [names, any_eq_true]
  constructor
  · rintro ⟨s, hs, h⟩
    rcases (by simpa using h : s = wildcard ∨ s = name) with rfl | rfl
    · exact .inl hs
    · exact .inr hs
  · rintro (h | h)
    · exact ⟨_, h, by simp⟩
    · exact ⟨_, h, by simp⟩

namespace Document

variable {d : Document} {all : List Node} {h : Bytes}

variable {out selectors : List Bytes}

theorem mem_gather {selector : Bytes} : h ∈ d.gather selector all out
      ↔ h ∈ out ∨ ∃ n ∈ all, d.matchesNode selector n = true ∧ n.handle = h := by
  induction all generalizing out with
  | nil => simp [gather]
  | cons n all ih =>
    rw [gather, foldl_cons, ← gather, ih, exists_mem_cons_iff]
    by_cases hm : d.matchesNode selector n = true
    · by_cases hdup : n.handle ∈ out
      · simp only [hdup, not_true_eq_false, and_false, if_false, hm, true_and]
        constructor
        · exact fun h => h.imp_right .inr
        · rintro (hout | rfl | hrest)
          · exact .inl hout
          · exact .inl hdup
          · exact .inr hrest
      · simp only [hm, hdup, not_false_eq_true, and_self, if_true, mem_append,
          mem_singleton, true_and, or_assoc, eq_comm]
    · simp [hm]

theorem resolveFrom_wildcard (hw : wildcard ∈ selectors) : d.resolveFrom all selectors out = [wildcard] := by
  induction selectors generalizing out with
  | nil => simp at hw
  | cons sel sels ih =>
    rw [resolveFrom]
    by_cases hsel : sel = wildcard
    · rw [if_pos hsel]
    · rw [if_neg hsel]
      exact ih ((mem_cons.mp hw).resolve_left (Ne.symm hsel))

theorem mem_resolveFrom (hw : wildcard ∉ selectors) : h ∈ d.resolveFrom all selectors out ↔ h ∈ out
      ∨ ∃ sel ∈ selectors, ∃ n ∈ all, d.matchesNode sel n = true ∧ n.handle = h := by
  induction selectors generalizing out with
  | nil => simp [resolveFrom, mem_mergeSort]
  | cons sel sels ih =>
    obtain ⟨hsel, hsels⟩ := not_or.mp (mem_cons.not.mp hw)
    rw [resolveFrom, if_neg (Ne.symm hsel), ih hsels, mem_gather, exists_mem_cons_iff, or_assoc]

theorem names_resolveSources : names (d.resolveSources selectors all) h = true ↔ wildcard ∈ selectors
      ∨ ∃ sel ∈ selectors, ∃ n ∈ all, d.matchesNode sel n = true ∧ (n.handle = wildcard ∨ n.handle = h) := by
  rw [names_iff, resolveSources]
  by_cases hw : wildcard ∈ selectors
  · simp [resolveFrom_wildcard hw, hw]
  · rw [mem_resolveFrom hw, mem_resolveFrom hw]
    simp only [not_mem_nil, false_or, hw]
    constructor
    · rintro (⟨sel, hsel, n, hn, hm, hh⟩ | ⟨sel, hsel, n, hn, hm, hh⟩)
      · exact ⟨sel, hsel, n, hn, hm, .inl hh⟩
      · exact ⟨sel, hsel, n, hn, hm, .inr hh⟩
    · rintro ⟨sel, hsel, n, hn, hm, hh | hh⟩
      · exact .inl ⟨sel, hsel, n, hn, hm, hh⟩
      · exact .inr ⟨sel, hsel, n, hn, hm, hh⟩

end Document

/-- The nodes of an account.  Handles identify them, and a handle is neither the wildcard nor, as
`EgressFilter.Permits` relies on, valid IP-address syntax. -/
structure Roster (N : Netip) where
  nodes : List Node
  handles_nodup : (nodes.map Node.handle).Nodup
  handle_ne_wildcard : ∀ n ∈ nodes, n.handle ≠ wildcard
  handle_notAddress : ∀ n ∈ nodes, N.parseAddr n.handle = none

namespace Roster

variable {N : Netip} (all : Roster N)

theorem names_resolveSources {d : Document} {selectors : List Bytes} {n : Node} (hn : n ∈ all.nodes) :
    names (d.resolveSources selectors all.nodes) n.handle = true
      ↔ wildcard ∈ selectors ∨ ∃ sel ∈ selectors, d.matchesNode sel n = true := by
  rw [Document.names_resolveSources]
  refine or_congr_right ⟨?_, ?_⟩
  · rintro ⟨sel, hsel, m, hm, hmatch, hw | hh⟩
    · exact absurd hw (all.handle_ne_wildcard m hm)
    · exact ⟨sel, hsel, inj_on_of_nodup_map all.handles_nodup hm hn hh ▸ hmatch⟩
  · rintro ⟨sel, hsel, hmatch⟩
    exact ⟨sel, hsel, n, hn, hmatch, .inr rfl⟩

end Roster

/-! ### What compiled filters permit -/

namespace Document

variable {N : Netip} {d : Document} {target : Node} {all : List Node}

theorem collect_dsts {ρ τ : Type} {f : Bytes → Except PolicyError (List ρ)} {q : τ → ρ → Prop}
    {p : τ → Bytes × List PortRange → Prop} {dsts : List Bytes}
    (hdsts : ∀ dst ∈ dsts, ∃ parts, splitDst dst = .ok parts) (h : ∀ dst parts, splitDst dst = .ok parts →
      ∃ rs, f dst = .ok rs ∧ ∀ t, (∃ r ∈ rs, q t r) ↔ p t parts) :
    ∃ rs, collect f dsts = .ok rs ∧ ∀ t, (∃ r ∈ rs, q t r)
      ↔ ∃ dst ∈ dsts, ∃ parts, splitDst dst = .ok parts ∧ p t parts := by
  refine collect_spec fun dst hdst => ?_
  obtain ⟨parts, hparts⟩ := hdsts dst hdst
  obtain ⟨rs, hrs, hiff⟩ := h dst parts hparts
  refine ⟨rs, hrs, fun t => (hiff t).trans ?_⟩
  simp [hparts]

theorem exists_rule_iff {rules : List Rule} {p : Rule → Prop} :
    (∃ r ∈ rules.zipIdx, p r.1) ↔ ∃ r ∈ rules, p r := by
  rw [exists_mem_zipIdx', ← exists_mem_iff_getElem]

theorem compileDst_permits (i : ℕ) (rule : Rule) {dst : Bytes} {parts : Bytes × List PortRange}
    (h : splitDst dst = .ok parts) : ∃ rs, d.compileDst target all i rule dst = .ok rs
      ∧ ∀ t : Bytes × UInt16, (∃ r ∈ rs, r.permits N t.1 t.2 none false = true)
        ↔ d.matchesNode parts.1 target = true
          ∧ names (d.resolveSources rule.src all) t.1 = true ∧ portsContain parts.2 t.2 = true := by
  rw [compileDst, h, mapError_ok, ok_bind]
  by_cases hm : d.matchesNode parts.1 target = true
  · rw [if_neg (Bool.not_eq_false _ ▸ hm)]
    by_cases hs : d.resolveSources rule.src all = []
    · exact ⟨[], if_pos hs, by simp [hs, names]⟩
    · refine ⟨_, if_neg hs, fun t => ?_⟩
      simp [FilterRule.permits_machine, hm]
  · exact ⟨[], if_pos (Bool.not_eq_true _ ▸ hm), by simp [hm]⟩

theorem compileGateway_networks {g : Grant} (hg : g.Valid N) :
    ∃ rs, d.compileGateway N target all g = .ok rs ∧ ∀ r ∈ rs, r.dstCidrs ≠ [] := by
  unfold compileGateway
  split
  · exact ⟨[], rfl, by simp⟩
  · rename_i hscope
    dsimp only
    split
    · exact ⟨[], rfl, by simp⟩
    · have hgateway : g.gateway ≠ [] := fun h => hscope (.inr (.inr h))
      obtain ⟨ports, hports⟩ := hg.ports_ok
      have hnetwork : ∀ network ∈ g.networks, ∃ text : List Bytes, (do
          let p ← okOr (PolicyError.network network) (N.parsePrefix network)
          return [N.prefixString p.masked]) = Except.ok text := by
        intro network hmem
        obtain ⟨p, hp⟩ := hg.networks_ok network hmem
        exact ⟨_, by rw [hp]; rfl⟩
      obtain ⟨texts, htexts⟩ := exists_collect hnetwork
      refine ⟨_, by rw [hports, htexts]; rfl, ?_⟩
      intro r hr
      rw [mem_singleton.mp hr]
      -- the first network contributes a text
      obtain ⟨network, hmem⟩ := exists_mem_of_ne_nil _ (hg.gateway_networks hgateway)
      obtain ⟨p, hp⟩ := hg.networks_ok network hmem
      have htext : N.prefixString p.masked ∈ texts :=
        (mem_collect htexts).mpr ⟨network, hmem, _, by rw [hp]; rfl, mem_singleton_self _⟩
      exact ne_nil_of_mem (mem_mergeSort.mpr htext)

theorem compile_permits_iff (hv : d.validate N = .ok ()) (target : Node) (all : List Node) :
    ∃ f, d.compile N target all = .ok f ∧ ∀ src port, f.permits N src port = true ↔
      ∃ r ∈ d.packetRules N, ∃ dst ∈ r.dst, ∃ parts, splitDst dst = .ok parts
        ∧ d.matchesNode parts.1 target = true ∧ names (d.resolveSources r.src all) src = true
        ∧ portsContain parts.2 port = true := by
  obtain ⟨rules, hrules, hrule⟩ := collect_spec fun r (hr : r ∈ (d.packetRules N).zipIdx) =>
    collect_dsts (fun _ => validate_dst hv (fst_mem_of_mem_zipIdx hr)) fun _ _ =>
      @compileDst_permits N d target all r.2 r.1 _ _
  -- a gateway's rule is about networks
  have hgateway : ∀ g ∈ d.grants, ∃ rs, d.compileGateway N target all g = .ok rs
      ∧ ∀ t : Bytes × UInt16, (∃ r ∈ rs, r.permits N t.1 t.2 none false = true) ↔ False := by
    intro g hg
    obtain ⟨rs, hrs, hnetworks⟩ := compileGateway_networks (validate_grant hv hg)
    refine ⟨rs, hrs, fun t => iff_false_intro ?_⟩
    rintro ⟨r, hr, hpermits⟩
    exact hnetworks r hr (FilterRule.permits_machine.mp hpermits).1
  obtain ⟨gateways, hgateways, hnone⟩ := collect_spec hgateway
  refine ⟨⟨target.handle, normalize (rules ++ gateways)⟩, by
    rw [compile, hrules, ok_bind, hgateways]; rfl, ?_⟩
  intro src port
  rw [Filter.permits, Filter.permitsWith, normalize, any_mergeSort_map (fun r => r.permits_sortPorts ..),
    any_append, Bool.or_eq_true, any_eq_true, any_eq_true, hrule (src, port),
    hnone (src, port), ← exists_rule_iff]
  simp

/-- Whether a destination selector covers a handle or address, as the egress compiler reads it. -/
def selectorReaches (N : Netip) (d : Document) (all : List Node) (selector dst : Bytes) : Bool :=
  match parseCIDRSelector N selector with
  | some cidr => (N.parseAddr dst).any (cidrsContain N [cidr])
  | none => names (d.resolveSources [selector] all) dst

theorem compileEgressDst_permits (i : ℕ) (sourceTerm : Bytes) {dst : Bytes}
    {parts : Bytes × List PortRange} (h : splitDst dst = .ok parts) :
    ∃ rs, d.compileEgressDst N all i sourceTerm dst = .ok rs
      ∧ ∀ t : Bytes × UInt16, (∃ r ∈ rs, r.permits N t.1 t.2 = true)
        ↔ d.selectorReaches N all parts.1 t.1 = true ∧ portsContain parts.2 t.2 = true := by
  rw [compileEgressDst, h, mapError_ok, ok_bind]
  unfold selectorReaches
  cases hcidr : parseCIDRSelector N parts.1 with
  | some cidr => exact ⟨_, rfl, fun t => by simp [EgressRule.permits, names]⟩
  | none =>
    by_cases hd : d.resolveSources [parts.1] all = []
    · exact ⟨[], if_pos hd, fun t => by simp [hd, names]⟩
    · refine ⟨_, if_neg hd, fun t => ?_⟩
      have hnone : (N.parseAddr t.1).any (cidrsContain N []) = false := by
        cases N.parseAddr t.1 <;> rfl
      simp [EgressRule.permits, hnone]

theorem compileEgressRule_permits {r : Rule × ℕ}
    (hdsts : ∀ dst ∈ r.1.dst, ∃ parts, splitDst dst = .ok parts) :
    ∃ rs, d.compileEgressRule N target all r = .ok rs
      ∧ ∀ t : Bytes × UInt16, (∃ r ∈ rs, r.permits N t.1 t.2 = true)
        ↔ d.matchingSource r.1.src target ≠ [] ∧ ∃ dst ∈ r.1.dst, ∃ parts, splitDst dst = .ok parts
          ∧ d.selectorReaches N all parts.1 t.1 = true ∧ portsContain parts.2 t.2 = true := by
  by_cases hsource : d.matchingSource r.1.src target = []
  · exact ⟨[], if_pos hsource, by simp [hsource]⟩
  · obtain ⟨rs, hrs, hiff⟩ := collect_dsts hdsts fun _ _ =>
      @compileEgressDst_permits N d all r.2 (d.matchingSource r.1.src target) _ _
    exact ⟨rs, (if_neg hsource).trans hrs, fun t => (hiff t).trans (and_iff_right hsource).symm⟩

theorem compileEgress_permits_iff (hv : d.validate N = .ok ()) (target : Node) (all : List Node) :
    ∃ f, d.compileEgress N target all = .ok f ∧ ∀ dest port, f.permits N dest port = true ↔
      ∃ r ∈ d.packetRules N, d.matchingSource r.src target ≠ [] ∧ ∃ dst ∈ r.dst, ∃ parts,
        splitDst dst = .ok parts ∧ d.selectorReaches N all parts.1 dest = true
        ∧ portsContain parts.2 port = true := by
  obtain ⟨rules, hrules, hrule⟩ := collect_spec fun r (hr : r ∈ (d.packetRules N).zipIdx) =>
    @compileEgressRule_permits N d target all _ fun _ => validate_dst hv (fst_mem_of_mem_zipIdx hr)
  refine ⟨⟨target.handle, normalizeEgress rules⟩, by rw [compileEgress, hrules]; rfl, ?_⟩
  intro dest port
  rw [EgressFilter.permits, normalizeEgress, any_mergeSort_map (fun r => r.permits_sortPorts ..), any_eq_true,
    hrule (dest, port), ← exists_rule_iff]

end Document

end Karst.Policy
