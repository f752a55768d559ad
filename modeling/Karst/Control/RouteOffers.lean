import Karst.Net.Addresses
import Karst.Control.Version

/-!
# Route offers

`karstd/src/route_offer.rs`: the subnet and exit routes a netmap offers, checked one by one and against
each other.  How addresses are read and written is a parameter.
-/

namespace Karst.Control

open Net Except

structure Externals where
  sha256 : Bytes → Bytes
  parseIp : Bytes → Option IpAddr
  ipText : IpAddr → Bytes
  isSocketAddr : Bytes → Bool

def leadingU64 (digest : Bytes) : UInt64 := UInt64.ofNat (beValue (digest.take 8))

def Externals.hash64 (X : Externals) (b : Bytes) : UInt64 := leadingU64 (X.sha256 b)

def MIN_METRIC : UInt32 := 1
def MAX_METRIC : UInt32 := 9999

inductive Kind where
  | subnet
  | exit
  deriving DecidableEq

inductive Role where
  | recipient
  | gateway
  deriving DecidableEq

def Kind.toWire : Kind → UInt32
  | .subnet => 1
  | .exit => 2

def Role.toWire : Role → UInt32
  | .recipient => 1
  | .gateway => 2

inductive RouteError where
  | emptyId
  | noGateway (routeId : Blob)
  | invalidMetric (routeId : Blob) (metric : UInt32)
  | badPrefix (routeId : Blob) (e : PrefixError)
  | notCanonical (routeId : Blob)
  | kindContradicts (routeId : Blob)
  | unknownKind (routeId : Blob)
  | roleContradicts (routeId : Blob)
  | unknownRole (routeId : Blob)
  | conflicting (text : Blob)

structure Offer where
  routeId : Blob
  range : Prefix
  prefixText : Blob
  gatewayId : Blob
  metric : UInt32
  kind : Kind
  masquerade : Bool
  keepRoute : Bool
  role : Role
  deriving DecidableEq

def prefixString (X : Externals) (p : Prefix) : Bytes := X.ipText p.base ++ 0x2F :: decimal p.len

/-- A kind has to fit the length of the prefix. -/
def readKind (w : RouteOffer) (len : ℕ) : Except RouteError Kind :=
  if w.kind = 1 then if len ≠ 0 then .ok .subnet else .error (.kindContradicts w.routeId)
  else if w.kind = 2 then if len = 0 then .ok .exit else .error (.kindContradicts w.routeId)
  else .error (.unknownKind w.routeId)

/-- A role has to fit the gateway. -/
def readRole (w : RouteOffer) (selfId : Blob) : Except RouteError Role :=
  if w.role = 1 then
    if w.gatewayId ≠ selfId then .ok .recipient else .error (.roleContradicts w.routeId)
  else if w.role = 2 then
    if w.gatewayId = selfId then .ok .gateway else .error (.roleContradicts w.routeId)
  else .error (.unknownRole w.routeId)

def Offer.fromWire (X : Externals) (w : RouteOffer) (selfId : Blob) : Except RouteError Offer :=
  if w.routeId = .empty then .error .emptyId
  else if w.gatewayId = .empty then .error (.noGateway w.routeId)
  else if ¬ (MIN_METRIC ≤ w.metric ∧ w.metric ≤ MAX_METRIC) then
    .error (.invalidMetric w.routeId w.metric)
  else do
    let range ← (Prefix.fromStr X.parseIp w.prefixText.bytes).mapError (.badPrefix w.routeId)
    if prefixString X range ≠ w.prefixText.bytes then .error (.notCanonical w.routeId)
    else do
      let kind ← readKind w range.len
      let role ← readRole w selfId
      return ⟨w.routeId, range, w.prefixText, w.gatewayId, w.metric, kind, w.masquerade, w.keepRoute, role⟩

def Offer.view (o : Offer) : RouteOffer :=
  ⟨o.routeId, o.prefixText, o.gatewayId, o.metric, o.kind.toWire, o.masquerade, o.keepRoute, o.role.toWire⟩

/-- What offers for one prefix and role have to agree in. -/
structure Seen where
  prefixText : Blob
  role : Role
  kind : Kind
  masquerade : Bool
  keepRoute : Bool
  deriving DecidableEq

def Offer.seen (o : Offer) : Seen := ⟨o.prefixText, o.role, o.kind, o.masquerade, o.keepRoute⟩

/-- The loop of `parse_all`; of each prefix and role the first definition is kept. -/
def parseOffers (X : Externals) (selfId : Blob) (seen : List Seen) :
    List RouteOffer → Except RouteError (List Offer)
  | [] => .ok []
  | w :: ws => do
    let offer ← Offer.fromWire X w selfId
    let first := seen.find? fun s => s.prefixText = offer.prefixText ∧ s.role = offer.role
    if first.any (· ≠ offer.seen) = true then .error (.conflicting offer.prefixText)
    else do
      let offers ← parseOffers X selfId (if first.isSome then seen else offer.seen :: seen) ws
      return offer :: offers

def parseAll (X : Externals) (wire : List RouteOffer) (selfId : Blob) :
    Except RouteError (List Offer) := parseOffers X selfId [] wire

/-! ### What is hashed -/

section

variable {X : Externals} {w : RouteOffer} {selfId : Blob} {o : Offer}

theorem readKind_toWire {len : ℕ} {k : Kind} (h : readKind w len = .ok k) : k.toWire = w.kind := by
  unfold readKind at h
  split at h
  · rename_i hkind
    split at h
    · cases h
      exact hkind.symm
    · cases h
  · split at h
    · rename_i hkind
      split at h
      · cases h
        exact hkind.symm
      · cases h
    · cases h

theorem readRole_toWire {r : Role} (h : readRole w selfId = .ok r) : r.toWire = w.role := by
  unfold readRole at h
  split at h
  · rename_i hrole
    split at h
    · cases h
      exact hrole.symm
    · cases h
  · split at h
    · rename_i hrole
      split at h
      · cases h
        exact hrole.symm
      · cases h
    · cases h

/-- **An accepted offer is hashed as it was sent.** -/
theorem Offer.view_fromWire (h : Offer.fromWire X w selfId = .ok o) : o.view = w := by
  simp only [Offer.fromWire, guard_eq_ok, bind_eq_ok] at h
  obtain ⟨-, -, -, range, -, -, kind, hkind, role, hrole, ho⟩ := h
  rw [← ok.inj ho, Offer.view, readKind_toWire hkind, readRole_toWire hrole]

/-- **Offers are neither dropped nor moved.** -/
theorem parseOffers_view {seen : List Seen} {ws : List RouteOffer} {os : List Offer}
    (h : parseOffers X selfId seen ws = .ok os) : os.map Offer.view = ws := by
  induction ws generalizing seen os with
  | nil =>
    rw [← ok.inj h]
    rfl
  | cons w ws ih =>
    simp only [parseOffers, bind_eq_ok, guard_eq_ok] at h
    obtain ⟨o, ho, -, rest, hrest, hos⟩ := h
    rw [← ok.inj hos, List.map_cons, Offer.view_fromWire ho, ih hrest]

end

end Karst.Control
