import Karst.Policy.Directions

/-!
# What a policy says

A direct reading of a document, selector by selector and grant by grant, against what `Compile`
builds from it.  The compiler agrees with it but for selectors that name nobody on paper: an empty
source selector, which describes every node without a user, and a network that is spelled like the
target's user.  A source may also be named by its handle.
-/

namespace Karst.Policy

open Net Document
open List hiding Vector

/-! ### Selectors -/

inductive Selector where
  | any
  | tag (tag : Bytes)
  | registry (id : Bytes)
  | group (name : Bytes)
  | bare (name : Bytes)

namespace Selector

def read (s : Bytes) : Selector :=
  if s = wildcard then .any
  else if tagMark.isPrefixOf s then .tag s
  else if groupIdMark.isPrefixOf s then .registry (s.drop groupIdMark.length)
  else if groupMark.isPrefixOf s then .group s
  else .bare s

/-- The selector names the node: as anybody, by a tag, by a registry group, by a group, bound or
not, or by its user. -/
def Names (d : Document) (n : Node) : Selector → Prop
  | .any => True
  | .tag t => t ∈ n.tags
  | .registry id => id ∈ n.groupIDs
  | .group g =>
    match d.groupBindings.lookup g with
    | some id => id ∈ n.groupIDs
    | none => n.user ≠ [] ∧ ∃ members, d.groups.lookup g = some members ∧ n.user ∈ members
  | .bare name => name ≠ [] ∧ name = n.user

def IsHandle (n : Node) (s : Selector) : Prop := s = .bare n.handle

def IsNobody (n : Node) (s : Selector) : Prop := s = .bare [] ∧ n.user = []

end Selector

variable {N : Netip} {d : Document} {S T : Node} {port : UInt16}

theorem matchesNode_iff {n : Node} {selector : Bytes} :
    d.matchesNode selector n = true ↔ n.inactive = false ∧ ((Selector.read selector).Names d n
      ∨ (Selector.read selector).IsHandle n ∨ (Selector.read selector).IsNobody n) := by
  unfold matchesNode Selector.read
  cases hactive : n.inactive with
  | true => simp
  | false =>
    simp only [Bool.false_eq_true, if_false, true_and]
    by_cases hw : selector = wildcard
    · simp [hw, Selector.Names]
    by_cases htag : tagMark.isPrefixOf selector = true
    · simp [hw, htag, Selector.Names, Selector.IsHandle, Selector.IsNobody]
    by_cases hid : groupIdMark.isPrefixOf selector = true
    · simp [hw, htag, hid, Selector.Names, Selector.IsHandle, Selector.IsNobody]
    by_cases hgroup : groupMark.isPrefixOf selector = true
    · simp only [hw, htag, hid, hgroup, Selector.Names, Selector.IsHandle, Selector.IsNobody,
        if_true, if_false, reduceCtorEq, false_and, or_false]
      cases hb : d.groupBindings.lookup selector with
      | some id => simp
      | none => cases hg : d.groups.lookup selector <;> simp
    · simp only [hw, htag, hid, hgroup, if_false, Selector.Names, Selector.IsHandle, Selector.IsNobody]
      simp only [Bool.false_eq_true, if_false, Bool.or_eq_true, beq_iff_eq, Selector.bare.injEq]
      by_cases hnil : selector = []
      · simp [hnil, eq_comm, or_comm]
      · simp [hnil]

/-! ### The reading of a document -/

/-- A source selector names a node.  The wildcard stays a wildcard in the filter, so it names an
inactive node too; nothing else does. -/
def SourceNames (d : Document) (src : Bytes) (S : Node) : Prop :=
  src = wildcard ∨ S.inactive = false ∧ (Selector.read src).Names d S

def DestNames (d : Document) (selector : Bytes) (T : Node) : Prop :=
  T.inactive = false ∧ ((Selector.read selector).Names d T ∨ (Selector.read selector).IsHandle T)

/-- An ACL rule with a source selector that names `S` and a destination, not a network, that names
`T` with the port in its ports. -/
def AclGrants (N : Netip) (d : Document) (S T : Node) (port : UInt16) : Prop :=
  ∃ r ∈ d.acls, (∃ src ∈ r.src, SourceNames d src S) ∧ ∃ dst ∈ r.dst, ∃ parts,
    splitDst dst = .ok parts ∧ Document.parseCIDRSelector N parts.1 = none
    ∧ DestNames d parts.1 T ∧ portsContain parts.2 port = true

def Grant.From (g : Grant) (S : Node) : Prop :=
  S.inactive = false ∧ ∃ id ∈ g.sourceGroups, id ∈ S.groupIDs

def Grant.OnPort (g : Grant) (port : UInt16) : Prop :=
  ∃ ports, parsePorts g.ports = .ok ports ∧ portsContain ports port = true

/-- A grant with `S` in a source group, and `T` in a target group or among the target nodes. -/
def GrantGrants (d : Document) (S T : Node) (port : UInt16) : Prop :=
  ∃ g ∈ d.grants, g.From S ∧ g.OnPort port ∧ T.inactive = false ∧ ((∃ id ∈ g.targetGroups, id ∈ T.groupIDs)
      ∨ ∃ node ∈ g.targetNodes, node = T.user ∨ node = T.handle)

def PolicyGrants (N : Netip) (d : Document) (S T : Node) (port : UInt16) : Prop :=
  AclGrants N d S T port ∨ GrantGrants d S T port

/-- An ACL rule whose source selector is the handle of `S`, or is empty while `S` has no user; or
whose destination is a network that is spelled like a name of `T`. -/
def StrayAcl (N : Netip) (d : Document) (S T : Node) (port : UInt16) : Prop :=
  ∃ r ∈ d.acls, ∃ src ∈ r.src, ∃ dst ∈ r.dst, ∃ parts, splitDst dst = .ok parts
    ∧ DestNames d parts.1 T ∧ portsContain parts.2 port = true
    ∧ (S.inactive = false ∧ ((Selector.read src).IsHandle S ∨ (Selector.read src).IsNobody S)
      ∨ SourceNames d src S ∧ ∃ cidr, Document.parseCIDRSelector N parts.1 = some cidr)

/-- A grant of a network that is spelled like a name of `T`. -/
def StrayGrant (N : Netip) (d : Document) (S T : Node) (port : UInt16) : Prop :=
  ∃ g ∈ d.grants, g.From S ∧ g.OnPort port
    ∧ ∃ network ∈ g.networks, d.matchesNode (networkText N network) T = true

/-! ### Sources and destinations of the compiler -/

theorem source_iff {srcs : List Bytes} :
    (wildcard ∈ srcs ∨ ∃ sel ∈ srcs, d.matchesNode sel S = true) ↔ ∃ src ∈ srcs,
      SourceNames d src S ∨ S.inactive = false
        ∧ ((Selector.read src).IsHandle S ∨ (Selector.read src).IsNobody S) := by
  constructor
  · rintro (hw | ⟨sel, hsel, hmatch⟩)
    · exact ⟨wildcard, hw, .inl (.inl rfl)⟩
    · obtain ⟨hactive, hnames | hodd⟩ := matchesNode_iff.mp hmatch
      · exact ⟨sel, hsel, .inl (.inr ⟨hactive, hnames⟩)⟩
      · exact ⟨sel, hsel, .inr ⟨hactive, hodd⟩⟩
  · rintro ⟨src, hsrc, (rfl | ⟨hactive, hnames⟩) | ⟨hactive, hodd⟩⟩
    · exact .inl hsrc
    · exact .inr ⟨src, hsrc, matchesNode_iff.mpr ⟨hactive, .inl hnames⟩⟩
    · exact .inr ⟨src, hsrc, matchesNode_iff.mpr ⟨hactive, .inr hodd⟩⟩

theorem dest_iff {selector : Bytes} (hne : selector ≠ []) :
    d.matchesNode selector T = true ↔ DestNames d selector T := by
  rw [matchesNode_iff, DestNames]
  have hsome : ¬ (Selector.read selector).IsNobody T := by
    rintro ⟨hread, -⟩
    unfold Selector.read at hread
    split_ifs at hread
    exact hne (Selector.bare.inj hread)
  simp [hsome]

theorem read_registry (id : Bytes) : Selector.read (groupIdMark ++ id) = .registry id := by
  have hw : groupIdMark ++ id ≠ wildcard := by
    intro h
    have := congrArg length h
    rw [length_append, show groupIdMark.length = 9 by decide +kernel,
      show wildcard.length = 1 by decide +kernel] at this
    omega
  have htag : ¬ tagMark.isPrefixOf (groupIdMark ++ id) = true := by
    intro h
    obtain ⟨t, ht⟩ := isPrefixOf_iff_prefix.mp h
    have hhead := congrArg (getD · 0 0) ht
    rw [getD_append _ _ _ _ (by decide +kernel), getD_append _ _ _ _ (by decide +kernel)]
      at hhead
    exact absurd hhead (by decide +kernel)
  have hid : groupIdMark.isPrefixOf (groupIdMark ++ id) = true :=
    isPrefixOf_iff_prefix.mpr (prefix_append _ _)
  rw [Selector.read, if_neg hw, if_neg htag, if_pos hid, drop_left]

theorem matchesNode_registry {id : Bytes} {n : Node} :
    d.matchesNode (groupIdMark ++ id) n = true ↔ n.inactive = false ∧ id ∈ n.groupIDs := by
  rw [matchesNode_iff, read_registry]
  simp [Selector.Names, Selector.IsHandle, Selector.IsNobody]

theorem grant_source_iff {g : Grant} :
    (wildcard ∈ g.sources ∨ ∃ sel ∈ g.sources, d.matchesNode sel S = true) ↔ g.From S := by
  constructor
  · rintro (hw | ⟨sel, hsel, hmatch⟩)
    · obtain ⟨id, -, hid⟩ := mem_map.mp hw
      have := read_registry id
      rw [hid, Selector.read, if_pos rfl] at this
      simp at this
    · obtain ⟨id, hid, rfl⟩ := mem_map.mp hsel
      obtain ⟨hactive, hmem⟩ := matchesNode_registry.mp hmatch
      exact ⟨hactive, id, hid, hmem⟩
  · rintro ⟨hactive, id, hid, hmem⟩
    exact .inr ⟨_, mem_map_of_mem hid, matchesNode_registry.mpr ⟨hactive, hmem⟩⟩

theorem read_bare {node : Bytes} (h : containsReserved node = false) : Selector.read node = .bare node := by
  have hchars : ∀ b ∈ node, b ∉ ([0x3A, 0x2A, 0x0A, 0x0D] : Bytes) := by
    simpa [containsReserved] using h
  have hmark : ∀ mark : Bytes, 0x3A ∈ mark → ¬ mark.isPrefixOf node = true := by
    intro mark hcolon hpre
    have hstart := isPrefixOf_iff_prefix.mp hpre
    exact hchars _ (hstart.subset hcolon) (by decide)
  have hw : node ≠ wildcard := by
    intro hw
    exact hchars 0x2A (hw ▸ by decide +kernel) (by decide)
  rw [Selector.read, if_neg hw, if_neg (hmark _ (by decide +kernel)),
    if_neg (hmark _ (by decide +kernel)), if_neg (hmark _ (by decide +kernel))]

theorem matchesNode_bare {node : Bytes} {n : Node} (hne : node ≠ []) (h : containsReserved node = false) :
    d.matchesNode node n = true ↔ n.inactive = false ∧ (node = n.user ∨ node = n.handle) := by
  rw [matchesNode_iff, read_bare h]
  simp [Selector.Names, Selector.IsHandle, Selector.IsNobody, hne]

/-! ### Rules and grants -/

theorem acl_iff :
    (∃ r ∈ d.acls, (wildcard ∈ r.src ∨ ∃ sel ∈ r.src, d.matchesNode sel S = true) ∧ ∃ dst ∈ r.dst,
      ∃ parts, splitDst dst = .ok parts ∧ d.matchesNode parts.1 T = true ∧ portsContain parts.2 port = true)
      ↔ AclGrants N d S T port ∨ StrayAcl N d S T port := by
  constructor
  · rintro ⟨r, hr, hsource, dst, hdst, parts, hparts, hmatch, hports⟩
    have hdest := (dest_iff (splitDst_selector hparts)).mp hmatch
    obtain ⟨src, hsrc, hnames | hodd⟩ := source_iff.mp hsource
    · cases hcidr : parseCIDRSelector N parts.1 with
      | none =>
        exact .inl ⟨r, hr, ⟨src, hsrc, hnames⟩, dst, hdst, parts, hparts, hcidr, hdest, hports⟩
      | some cidr =>
        exact .inr ⟨r, hr, src, hsrc, dst, hdst, parts, hparts, hdest, hports, .inr ⟨hnames, cidr, hcidr⟩⟩
    · exact .inr ⟨r, hr, src, hsrc, dst, hdst, parts, hparts, hdest, hports, .inl hodd⟩
  · rintro (⟨r, hr, ⟨src, hsrc, hnames⟩, dst, hdst, parts, hparts, -, hdest, hports⟩ |
      ⟨r, hr, src, hsrc, dst, hdst, parts, hparts, hdest, hports, hodd | ⟨hnames, -⟩⟩)
    · exact ⟨r, hr, source_iff.mpr ⟨src, hsrc, .inl hnames⟩, dst, hdst, parts, hparts,
        (dest_iff (splitDst_selector hparts)).mpr hdest, hports⟩
    · exact ⟨r, hr, source_iff.mpr ⟨src, hsrc, .inr hodd⟩, dst, hdst, parts, hparts,
        (dest_iff (splitDst_selector hparts)).mpr hdest, hports⟩
    · exact ⟨r, hr, source_iff.mpr ⟨src, hsrc, .inl hnames⟩, dst, hdst, parts, hparts,
        (dest_iff (splitDst_selector hparts)).mpr hdest, hports⟩

theorem grant_dest_iff (hv : d.validate N = .ok ()) {g : Grant} (hg : g ∈ d.grants) :
    (∃ dst ∈ (g.packetRule N).dst, ∃ parts, splitDst dst = .ok parts
      ∧ d.matchesNode parts.1 T = true ∧ portsContain parts.2 port = true)
      ↔ g.OnPort port ∧ ∃ target ∈ g.targets N, d.matchesNode target T = true := by
  have hrule : g.packetRule N ∈ d.packetRules N :=
    mem_append_right _ (mem_map_of_mem hg)
  obtain ⟨ports, hports⟩ := (validate_grant hv hg).ports_ok
  have hsplit : ∀ target ∈ g.targets N, splitDst (target ++ 0x3A :: g.ports) = .ok (target, ports) := by
    intro target htarget
    obtain ⟨parts, hparts⟩ := validate_dst hv hrule (mem_map_of_mem htarget)
    rw [hparts, (splitDst_append hports hparts).2]
  constructor
  · rintro ⟨dst, hdst, parts, hparts, hmatch, hport⟩
    obtain ⟨target, htarget, rfl⟩ := mem_map.mp hdst
    obtain rfl := Except.ok.inj (hparts.symm.trans (hsplit target htarget))
    exact ⟨⟨ports, hports, hport⟩, target, htarget, hmatch⟩
  · rintro ⟨⟨ports', hports', hport⟩, target, htarget, hmatch⟩
    obtain rfl := Except.ok.inj (hports.symm.trans hports')
    exact ⟨_, mem_map_of_mem htarget, _, hsplit target htarget, hmatch, hport⟩

theorem grant_target_iff {g : Grant} (hg : g.Valid N) :
    (∃ target ∈ g.targets N, d.matchesNode target T = true)
      ↔ (T.inactive = false ∧ ((∃ id ∈ g.targetGroups, id ∈ T.groupIDs)
          ∨ ∃ node ∈ g.targetNodes, node = T.user ∨ node = T.handle))
        ∨ ∃ network ∈ g.networks, d.matchesNode (networkText N network) T = true := by
  constructor
  · rintro ⟨target, htarget, hmatch⟩
    rcases mem_append.mp htarget with hnamed | htext
    · rcases mem_append.mp hnamed with hgroup | hnode
      · obtain ⟨id, hid, rfl⟩ := mem_map.mp hgroup
        obtain ⟨hactive, hmem⟩ := matchesNode_registry.mp hmatch
        exact .inl ⟨hactive, .inl ⟨id, hid, hmem⟩⟩
      · obtain ⟨hne, hreserved⟩ := hg.targetNodes_ok target hnode
        obtain ⟨hactive, hname⟩ := (matchesNode_bare hne hreserved).mp hmatch
        exact .inl ⟨hactive, .inr ⟨target, hnode, hname⟩⟩
    · obtain ⟨network, hnetwork, rfl⟩ := mem_map.mp htext
      exact .inr ⟨network, hnetwork, hmatch⟩
  · rintro (⟨hactive, ⟨id, hid, hmem⟩ | ⟨node, hnode, hname⟩⟩ | ⟨network, hnetwork, hmatch⟩)
    · exact ⟨_, mem_append_left _ (mem_append_left _ (mem_map_of_mem hid)),
        matchesNode_registry.mpr ⟨hactive, hmem⟩⟩
    · obtain ⟨hne, hreserved⟩ := hg.targetNodes_ok node hnode
      exact ⟨node, mem_append_left _ (mem_append_right _ hnode),
        (matchesNode_bare hne hreserved).mpr ⟨hactive, hname⟩⟩
    · exact ⟨_, mem_append_right _ (mem_map_of_mem hnetwork), hmatch⟩

theorem grant_iff (hv : d.validate N = .ok ()) :
    (∃ g ∈ d.grants, (wildcard ∈ g.sources ∨ ∃ sel ∈ g.sources, d.matchesNode sel S = true)
      ∧ ∃ dst ∈ (g.packetRule N).dst, ∃ parts, splitDst dst = .ok parts
        ∧ d.matchesNode parts.1 T = true ∧ portsContain parts.2 port = true)
      ↔ GrantGrants d S T port ∨ StrayGrant N d S T port := by
  constructor
  · rintro ⟨g, hg, hsource, hdest⟩
    obtain ⟨hport, htarget⟩ := (grant_dest_iff hv hg).mp hdest
    rcases (grant_target_iff (validate_grant hv hg)).mp htarget with hnamed | hnetwork
    · exact .inl ⟨g, hg, grant_source_iff.mp hsource, hport, hnamed⟩
    · exact .inr ⟨g, hg, grant_source_iff.mp hsource, hport, hnetwork⟩
  · rintro (⟨g, hg, hsource, hport, hnamed⟩ | ⟨g, hg, hsource, hport, hnetwork⟩)
    · exact ⟨g, hg, grant_source_iff.mpr hsource, (grant_dest_iff hv hg).mpr
        ⟨hport, (grant_target_iff (validate_grant hv hg)).mpr (.inl hnamed)⟩⟩
    · exact ⟨g, hg, grant_source_iff.mpr hsource, (grant_dest_iff hv hg).mpr
        ⟨hport, (grant_target_iff (validate_grant hv hg)).mpr (.inr hnetwork)⟩⟩

theorem compile_grants (hv : d.validate N = .ok ()) (all : Roster N) (hS : S ∈ all.nodes)
    (T : Node) (port : UInt16) : ∃ f, d.compile N T all.nodes = .ok f ∧ (f.permits N S.handle port = true ↔
      PolicyGrants N d S T port ∨ StrayAcl N d S T port ∨ StrayGrant N d S T port) := by
  obtain ⟨f, hf, hiff⟩ := compile_permits_iff hv T all.nodes
  refine ⟨f, hf, (hiff S.handle port).trans ?_⟩
  have hsplit : (∃ r ∈ d.packetRules N, ∃ dst ∈ r.dst, ∃ parts, splitDst dst = .ok parts
        ∧ d.matchesNode parts.1 T = true ∧ names (d.resolveSources r.src all.nodes) S.handle = true
        ∧ portsContain parts.2 port = true) ↔ (AclGrants N d S T port ∨ StrayAcl N d S T port)
        ∨ (GrantGrants d S T port ∨ StrayGrant N d S T port) := by
    rw [← acl_iff, ← grant_iff hv]
    constructor
    · rintro ⟨r, hr, dst, hdst, parts, hparts, hmatch, hnames, hports⟩
      have hsource := (all.names_resolveSources hS).mp hnames
      rcases mem_append.mp hr with hacl | hgrant
      · exact .inl ⟨r, hacl, hsource, dst, hdst, parts, hparts, hmatch, hports⟩
      · obtain ⟨g, hg, rfl⟩ := mem_map.mp hgrant
        exact .inr ⟨g, hg, hsource, dst, hdst, parts, hparts, hmatch, hports⟩
    · rintro (⟨r, hr, hsource, dst, hdst, parts, hparts, hmatch, hports⟩ |
        ⟨g, hg, hsource, dst, hdst, parts, hparts, hmatch, hports⟩)
      · exact ⟨r, mem_append_left _ hr, dst, hdst, parts, hparts, hmatch,
          (all.names_resolveSources hS).mpr hsource, hports⟩
      · exact ⟨g.packetRule N, mem_append_right _ (mem_map_of_mem hg), dst, hdst, parts,
          hparts, hmatch, (all.names_resolveSources hS).mpr hsource, hports⟩
  rw [hsplit, PolicyGrants]
  tauto

/-- **When the filter is exactly the policy**: when what comes by a stray name, a handle, an empty
selector or a network spelled like the target is granted anyway. -/
theorem compile_denotes_iff (hv : d.validate N = .ok ()) (all : Roster N) (hS : S ∈ all.nodes)
    (T : Node) (port : UInt16) : ∃ f, d.compile N T all.nodes = .ok f
      ∧ ((f.permits N S.handle port = true ↔ PolicyGrants N d S T port)
        ↔ (StrayAcl N d S T port ∨ StrayGrant N d S T port → PolicyGrants N d S T port)) := by
  obtain ⟨f, hf, hiff⟩ := compile_grants hv all hS T port
  refine ⟨f, hf, ?_⟩
  rw [hiff]
  exact ⟨fun h hstray => h.mp (.inr hstray), fun h => ⟨fun hg => hg.elim id h, .inl⟩⟩

open EmptySource in
theorem emptySource_denotes_iff : ∃ f, document.compile reference nodeB roster.nodes = .ok f
    ∧ ((f.permits reference nodeA.handle 80 = true ↔ PolicyGrants reference document nodeA nodeB 80)
      ↔ (StrayAcl reference document nodeA nodeB 80 ∨ StrayGrant reference document nodeA nodeB 80
        → PolicyGrants reference document nodeA nodeB 80)) :=
  compile_denotes_iff document_valid roster List.mem_cons_self nodeB 80

open EmptySource in
/-- **An empty selector grants.**  The only rule of the document names no node as its source. -/
theorem emptySource_permits : document.validate reference = .ok ()
    ∧ ¬ PolicyGrants reference document nodeA nodeB 80
    ∧ ∃ f, document.compile reference nodeB roster.nodes = .ok f
      ∧ f.permits reference nodeA.handle 80 = true := by
  have hempty : ¬ SourceNames document [] nodeA := by
    rintro (hw | ⟨-, hne, -⟩)
    · exact absurd hw (by decide +kernel)
    · exact hne rfl
  have hA : nodeA ∈ roster.nodes := mem_cons_self
  obtain ⟨f, hf, hiff⟩ := ingress_iff document_valid roster hA (active _ hA) nodeB 80
  refine ⟨document_valid, ?_, f, hf, hiff.mpr ?_⟩
  · rintro (⟨r, hr, ⟨src, hsrc, hnames⟩, -⟩ | ⟨g, hg, -⟩)
    · obtain rfl : r = rule := mem_singleton.mp hr
      obtain rfl : src = [] := mem_singleton.mp hsrc
      exact hempty hnames
    · simp [document] at hg
  · exact ⟨rule, mem_singleton_self _, ⟨[], mem_singleton_self _, by decide +kernel⟩,
      rule_reaches⟩

/-- **Rules only add**, in whatever order: none takes back what another grants. -/
theorem compile_mono {d' : Document} (hv : d.validate N = .ok ()) (hv' : d'.validate N = .ok ())
    (hgroups : d'.groups = d.groups) (hbindings : d'.groupBindings = d.groupBindings)
    (hacls : d.acls ⊆ d'.acls) (hgrants : d.grants ⊆ d'.grants) (T : Node) (all : List Node) :
    ∃ f f', d.compile N T all = .ok f ∧ d'.compile N T all = .ok f'
      ∧ ∀ src port, f.permits N src port = true → f'.permits N src port = true := by
  have hmatches : d'.matchesNode = d.matchesNode := by
    funext sel n
    simp only [matchesNode, hgroups, hbindings]
  have hresolve (sels out : List Bytes) : d'.resolveFrom all sels out = d.resolveFrom all sels out := by
    induction sels generalizing out with
    | nil => rfl
    | cons sel sels ih => simp only [resolveFrom, gather, hmatches, ih]
  obtain ⟨f, hf, hiff⟩ := compile_permits_iff hv T all
  obtain ⟨f', hf', hiff'⟩ := compile_permits_iff hv' T all
  refine ⟨f, f', hf, hf', fun src port h => (hiff' src port).mpr ?_⟩
  obtain ⟨r, hr, dst, hdst, parts, hparts, hmatch, hnames, hports⟩ := (hiff src port).mp h
  refine ⟨r, ?_, dst, hdst, parts, hparts, hmatches ▸ hmatch, ?_, hports⟩
  · rcases mem_append.mp hr with hacl | hgrant
    · exact mem_append_left _ (hacls hacl)
    · exact mem_append_right _ (map_subset _ hgrants hgrant)
  · rwa [resolveSources, hresolve]

open EmptySource in
theorem compile_mono_emptySource :
    let wider : Document := ⟨[], ∅, ∅, ∅, [⟨ascii "accept", [[0x2A]], [ascii "tag:dev:443"]⟩, rule], none⟩
    ∃ f f', document.compile reference nodeB roster.nodes = .ok f
      ∧ wider.compile reference nodeB roster.nodes = .ok f'
      ∧ ∀ src port, f.permits reference src port = true → f'.permits reference src port = true := by
  intro wider
  have hv : wider.validate reference = .ok () := by decide +kernel
  exact compile_mono document_valid hv rfl rfl (subset_cons_self _ _) (Subset.refl _) nodeB _

end Karst.Policy
