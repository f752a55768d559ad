import Karst.Net.Addresses

/-!
# Policy documents

The access-control document of the control plane, `policy/policy.go` and `policy/grants.go`: groups,
ACL rules and grants, and `Validate`, which every document passes before it is compiled.  Strings
are Go's, byte strings; the maps are association lists, whose order stands for that of an iteration.
-/

namespace Karst.Policy

open Net Except
open List hiding Vector

/-! ### The document -/

def wildcard : Bytes := ascii "*"

def tagMark : Bytes := ascii "tag:"

def groupMark : Bytes := ascii "group:"

def groupIdMark : Bytes := ascii "group-id:"

structure Rule where
  action : Bytes
  src : List Bytes
  dst : List Bytes

structure SshRule where
  action : Bytes
  src : List Bytes
  dst : List Bytes

structure Grant where
  id : Bytes
  name : Bytes
  sourceGroups : List Bytes
  targetGroups : List Bytes
  targetNodes : List Bytes
  networks : List Bytes
  ports : Bytes
  ssh : Bool
  gateway : Bytes

structure Document where
  grants : List Grant
  groupBindings : AList fun _ : Bytes => Bytes
  groups : AList fun _ : Bytes => List Bytes
  tagOwners : AList fun _ : Bytes => List Bytes
  acls : List Rule
  /-- `none` is an absent block. -/
  ssh : Option (List SshRule)

structure Node where
  handle : Bytes
  inactive : Bool
  groupIDs : List Bytes
  /-- Empty for a tagged node. -/
  user : Bytes
  tags : List Bytes
  deriving DecidableEq

/-! ### Ports -/

structure PortRange where
  first : UInt16
  last : UInt16
  deriving DecidableEq

def PortRange.contains (r : PortRange) (port : UInt16) : Bool := r.first ≤ port && port ≤ r.last

def allPorts : PortRange := ⟨0, 65535⟩

inductive PortError where
  | emptyPort
  | port (text : Bytes)
  | inverted (part : Bytes)
  deriving DecidableEq

def parsePort (text : Bytes) : Except PortError UInt16 := do
  let n ← okOr (.port text) (parseUint 65536 text)
  return UInt16.ofNat n

def parsePart (part : Bytes) : Except PortError PortRange :=
  let part := trimSpace part
  if part = [] then .error .emptyPort
  else match cutAt 0x2D part with
    | none => do
      let first ← parsePort part
      return ⟨first, first⟩
    | some (lo, hi) => do
      let first ← parsePort lo
      let last ← parsePort hi
      if last < first then .error (.inverted part) else return ⟨first, last⟩

def parsePorts (spec : Bytes) : Except PortError (List PortRange) :=
  if spec = wildcard then .ok [allPorts]
  else collect (fun part => (parsePart part).map fun r => [r]) (spec.splitOn 0x2C)

/-- Digits, commas, dashes and blanks. -/
def looksLikePortSpec (s : Bytes) : Bool :=
  s == wildcard || !s.isEmpty && s.all fun b => isDigit b || b == 0x2C || b == 0x2D || b == 0x20

/-! ### Destinations -/

inductive DstError where
  | noPorts (dst : Bytes)
  | emptySelector (dst : Bytes)
  | notPorts (dst : Bytes)
  | ports (dst : Bytes) (e : PortError)
  deriving DecidableEq

def splitDst (dst : Bytes) : Except DstError (Bytes × List PortRange) :=
  match cutLast 0x3A dst with
  | none => .error (.noPorts dst)
  | some (selector, portSpec) =>
    if selector = [] then .error (.emptySelector dst)
    else if looksLikePortSpec portSpec = false then .error (.notPorts dst)
    else do
      let ports ← (parsePorts portSpec).mapError (.ports dst)
      return (selector, ports)

theorem colon_notMem_of_parsePort {text : Bytes} {n : UInt16} (h : parsePort text = .ok n) : 0x3A ∉ text := by
  obtain ⟨m, hm, -⟩ := bind_eq_ok.mp h
  intro hmem
  exact absurd (isDigit_of_parseUint (okOr_eq_ok.mp hm) hmem) (by decide)

theorem colon_notMem_of_parsePart {part : Bytes} {r : PortRange} (h : parsePart part = .ok r) :
    0x3A ∉ part := by
  intro hmem
  have htrim : 0x3A ∈ trimSpace part := mem_trimSpace (by decide) hmem
  unfold parsePart at h
  dsimp only at h
  split at h
  · simp at h
  · cases hcut : cutAt 0x2D (trimSpace part) with
    | none =>
      rw [hcut] at h
      obtain ⟨first, hfirst, -⟩ := bind_eq_ok.mp h
      exact colon_notMem_of_parsePort hfirst htrim
    | some loHi =>
      rw [hcut] at h
      obtain ⟨first, hfirst, h⟩ := bind_eq_ok.mp h
      obtain ⟨last, hlast, -⟩ := bind_eq_ok.mp h
      rw [eq_of_cutAt hcut, mem_append, mem_cons] at htrim
      rcases htrim with hlo | hdash | hhi
      · exact colon_notMem_of_parsePort hfirst hlo
      · exact absurd hdash (by decide)
      · exact colon_notMem_of_parsePort hlast hhi

theorem colon_notMem_of_parsePorts {spec : Bytes} {ports : List PortRange}
    (h : parsePorts spec = .ok ports) : 0x3A ∉ spec := by
  intro hmem
  unfold parsePorts at h
  split at h
  · rename_i hspec
    rw [hspec] at hmem
    exact absurd hmem (by decide)
  · obtain ⟨part, hpart, hcolon⟩ := mem_splitOn hmem (show (0x3A : UInt8) ≠ 0x2C by decide)
    obtain ⟨rs, hrs⟩ := collect_ok_of_mem h hpart
    obtain ⟨r, hr, -⟩ := map_eq_ok.mp hrs
    exact colon_notMem_of_parsePart hr hcolon

theorem splitDst_selector {dst : Bytes} {parts : Bytes × List PortRange}
    (h : splitDst dst = .ok parts) : parts.1 ≠ [] := by
  unfold splitDst at h
  cases hcut : cutLast 0x3A dst with
  | none => simp [hcut] at h
  | some pieces =>
    rw [hcut] at h
    obtain ⟨hsel, h⟩ := guard_eq_ok.mp h
    obtain ⟨-, h⟩ := guard_eq_ok.mp h
    obtain ⟨ports, -, h⟩ := bind_eq_ok.mp h
    rw [← ok.inj h]
    exact hsel

/-- **A destination built from a selector and ports is split where it was joined.** -/
theorem splitDst_append {selector spec : Bytes} {ports : List PortRange}
    {parts : Bytes × List PortRange} (hports : parsePorts spec = .ok ports)
    (h : splitDst (selector ++ 0x3A :: spec) = .ok parts) : selector ≠ [] ∧ parts = (selector, ports) := by
  unfold splitDst at h
  rw [cutLast_append (colon_notMem_of_parsePorts hports)] at h
  obtain ⟨hsel, h⟩ := guard_eq_ok.mp h
  obtain ⟨-, h⟩ := guard_eq_ok.mp h
  obtain ⟨rs, hrs, h⟩ := bind_eq_ok.mp h
  rw [mapError_eq_ok, hports] at hrs
  rw [← ok.inj h, ok.inj hrs]
  exact ⟨hsel, rfl⟩

/-! ### Rules of the document and of its grants -/

section

variable (N : Netip)

def networkText (network : Bytes) : Bytes :=
  match N.parsePrefix network with
  | some p => N.prefixString p.masked
  | none => ascii "invalid Prefix"

namespace Grant

def sources (g : Grant) : List Bytes := g.sourceGroups.map (groupIdMark ++ ·)

def targets (g : Grant) : List Bytes :=
  g.targetGroups.map (groupIdMark ++ ·) ++ g.targetNodes ++ g.networks.map (networkText N)

def packetRule (g : Grant) : Rule :=
  ⟨ascii "accept", g.sources, (g.targets N).map fun target => target ++ 0x3A :: g.ports⟩

end Grant

namespace Document

def packetRules (d : Document) : List Rule := d.acls ++ d.grants.map (Grant.packetRule N)

def sshRules (d : Document) : List SshRule :=
  d.ssh.getD [] ++ (d.grants.filter Grant.ssh).map fun g =>
    ⟨ascii "accept", g.sources, g.targetGroups.map (groupIdMark ++ ·) ++ g.targetNodes⟩

end Document

end

/-! ### Validation -/

inductive PolicyError where
  | groupBinding
  | unknownLegacyGroup
  | grantIdentity
  | gatewayGrant
  | grantEnds
  | registryGroup
  | targetNode
  | destinationNetwork
  | grantPorts (e : PortError)
  | sshNetworks
  | groupName (name : Bytes)
  | tagName (name : Bytes)
  | tagOwners (name : Bytes)
  | aclAction (i : ℕ) (action : Bytes)
  | aclEmpty (i : ℕ)
  | aclDst (i : ℕ) (e : DstError)
  | aclUndefined (i : ℕ) (src : Bytes)
  | sshAction (i : ℕ) (action : Bytes)
  | sshEmpty (i : ℕ)
  | sshDst (i : ℕ) (dst : Bytes)
  | sshUndefined (i : ℕ) (src : Bytes)
  /-- A port list, outside validation. -/
  | ports (e : PortError)
  /-- A network, outside validation. -/
  | network (text : Bytes)
  deriving DecidableEq

def require (p : Prop) [Decidable p] (e : PolicyError) : Except PolicyError Unit :=
  if p then .ok () else .error e

theorem require_eq_ok {p : Prop} [Decidable p] {e : PolicyError} : require p e = .ok () ↔ p := by
  by_cases h : p <;> simp [require, h]

def containsReserved (s : Bytes) : Bool := s.any fun b => b ∈ [0x3A, 0x2A, 0x0A, 0x0D]

namespace Document

variable (N : Netip)

def validateBinding (d : Document) (name id : Bytes) : Except PolicyError Unit := do
  require (groupMark.isPrefixOf name = true ∧ id ≠ []) .groupBinding
  require ((d.groups.lookup name).isSome = true) .unknownLegacyGroup

/-- One grant; `ids` are those of the grants before it. -/
def validateGrant (ids : List Bytes) (g : Grant) : Except PolicyError Unit := do
  require (g.id ≠ [] ∧ g.id ∉ ids ∧ trimSpace g.name ≠ []) .grantIdentity
  require (g.gateway = [] ∨ g.networks ≠ [] ∧ g.targetNodes = [] ∧ g.targetGroups = []
    ∧ g.ssh = false ∧ containsReserved g.gateway = false) .gatewayGrant
  require (g.sourceGroups ≠ [] ∧ (g.targetGroups ≠ [] ∨ g.targetNodes ≠ [] ∨ g.networks ≠ [])) .grantEnds
  checkAll (fun id => require (trimSpace id ≠ [] ∧ containsReserved id = false) .registryGroup)
    (g.sourceGroups ++ g.targetGroups)
  checkAll (fun node => require (node ≠ [] ∧ containsReserved node = false) .targetNode) g.targetNodes
  checkAll (fun network => require ((N.parsePrefix network).isSome = true) .destinationNetwork) g.networks
  let _ ← (parsePorts g.ports).mapError .grantPorts
  require (g.ssh = false ∨ g.networks = []) .sshNetworks

def validateGrantList (ids : List Bytes) : List Grant → Except PolicyError Unit
  | [] => .ok ()
  | g :: gs => do
    validateGrant N ids g
    validateGrantList (g.id :: ids) gs

def validateGrants (d : Document) : Except PolicyError Unit := do
  checkAll (fun b => d.validateBinding b.1 b.2) d.groupBindings.entries
  validateGrantList N [] d.grants

/-- A source selector that names a group names one of the document. -/
def definesSource (d : Document) (src : Bytes) : Bool :=
  !groupMark.isPrefixOf src || (d.groups.lookup src).isSome

def validateRule (d : Document) (r : Rule × ℕ) : Except PolicyError Unit := do
  require (r.1.action = ascii "accept") (.aclAction r.2 r.1.action)
  require (r.1.src ≠ [] ∧ r.1.dst ≠ []) (.aclEmpty r.2)
  checkAll (fun dst => ((splitDst dst).map fun _ => ()).mapError (.aclDst r.2)) r.1.dst
  checkAll (fun src => require (d.definesSource src = true) (.aclUndefined r.2 src)) r.1.src

def validateSshDst (i : ℕ) (dst : Bytes) : Except PolicyError Unit :=
  match cutLast 0x3A dst with
  | some (_, rest) => require (looksLikePortSpec rest = false) (.sshDst i dst)
  | none => .ok ()

def validateSshRule (d : Document) (r : SshRule × ℕ) : Except PolicyError Unit := do
  require (r.1.action = ascii "accept") (.sshAction r.2 r.1.action)
  require (r.1.src ≠ [] ∧ r.1.dst ≠ []) (.sshEmpty r.2)
  checkAll (validateSshDst r.2) r.1.dst
  checkAll (fun src => require (d.definesSource src = true) (.sshUndefined r.2 src)) r.1.src

def validate (d : Document) : Except PolicyError Unit := do
  d.validateGrants N
  checkAll (fun name => require (groupMark.isPrefixOf name = true) (.groupName name)) d.groups.keys
  checkAll (fun t => do
    require (tagMark.isPrefixOf t.1 = true) (.tagName t.1)
    require (t.2 ≠ []) (.tagOwners t.1)) d.tagOwners.entries
  checkAll d.validateRule (d.packetRules N).zipIdx
  checkAll d.validateSshRule d.sshRules.zipIdx

end Document

/-! ### What validation establishes -/

/-- What a grant has passed, of what compilation depends on. -/
structure Grant.Valid (N : Netip) (g : Grant) : Prop where
  targetNodes_ok : ∀ node ∈ g.targetNodes, node ≠ [] ∧ containsReserved node = false
  networks_ok : ∀ network ∈ g.networks, ∃ p, N.parsePrefix network = some p
  gateway_networks : g.gateway ≠ [] → g.networks ≠ []
  ports_ok : ∃ ports, parsePorts g.ports = .ok ports

namespace Document

variable {N : Netip} {d : Document}

theorem validateGrant_valid {ids : List Bytes} {g : Grant} (h : validateGrant N ids g = .ok ()) :
    g.Valid N := by
  obtain ⟨⟨⟩, -, h⟩ := bind_eq_ok.mp h
  obtain ⟨⟨⟩, hgateway, h⟩ := bind_eq_ok.mp h
  obtain ⟨⟨⟩, -, h⟩ := bind_eq_ok.mp h
  obtain ⟨⟨⟩, -, h⟩ := bind_eq_ok.mp h
  obtain ⟨⟨⟩, hnodes, h⟩ := bind_eq_ok.mp h
  obtain ⟨⟨⟩, hnetworks, h⟩ := bind_eq_ok.mp h
  obtain ⟨ports, hports, -⟩ := bind_eq_ok.mp h
  refine ⟨?_, ?_, ?_, ⟨ports, mapError_eq_ok.mp hports⟩⟩
  · intro node hnode
    exact require_eq_ok.mp (checkAll_eq_ok.mp hnodes node hnode)
  · intro network hnetwork
    exact Option.isSome_iff_exists.mp (require_eq_ok.mp (checkAll_eq_ok.mp hnetworks network hnetwork))
  · intro hne
    exact ((require_eq_ok.mp hgateway).resolve_left hne).1

theorem validateGrantList_valid {ids : List Bytes} {gs : List Grant}
    (h : validateGrantList N ids gs = .ok ()) : ∀ g ∈ gs, g.Valid N := by
  induction gs generalizing ids with
  | nil => simp
  | cons g gs ih =>
    obtain ⟨⟨⟩, hg, h⟩ := bind_eq_ok.mp h
    exact forall_mem_cons.mpr ⟨validateGrant_valid hg, ih h⟩

theorem validate_grant (h : d.validate N = .ok ()) {g : Grant} (hg : g ∈ d.grants) : g.Valid N := by
  obtain ⟨⟨⟩, hgrants, -⟩ := bind_eq_ok.mp h
  obtain ⟨⟨⟩, -, hlist⟩ := bind_eq_ok.mp hgrants
  exact validateGrantList_valid hlist g hg

theorem validate_dst (h : d.validate N = .ok ()) {r : Rule} (hr : r ∈ d.packetRules N) {dst : Bytes}
    (hdst : dst ∈ r.dst) : ∃ parts, splitDst dst = .ok parts := by
  obtain ⟨⟨⟩, -, h⟩ := bind_eq_ok.mp h
  obtain ⟨⟨⟩, -, h⟩ := bind_eq_ok.mp h
  obtain ⟨⟨⟩, -, h⟩ := bind_eq_ok.mp h
  obtain ⟨⟨⟩, hrules, -⟩ := bind_eq_ok.mp h
  obtain ⟨i, hi⟩ := mem_iff_getElem?.mp hr
  have hrule := checkAll_eq_ok.mp hrules (r, i) (mk_mem_zipIdx_iff_getElem?.mpr hi)
  obtain ⟨⟨⟩, -, hrule⟩ := bind_eq_ok.mp hrule
  obtain ⟨⟨⟩, -, hrule⟩ := bind_eq_ok.mp hrule
  obtain ⟨⟨⟩, hdsts, -⟩ := bind_eq_ok.mp hrule
  have hsplit := mapError_eq_ok.mp (checkAll_eq_ok.mp hdsts dst hdst)
  cases hs : splitDst dst with
  | error e => simp [hs, Except.map] at hsplit
  | ok parts => exact ⟨parts, rfl⟩

end Document

end Karst.Policy
