import Karst.Crypto.Reference
import Karst.Datapath.Calls

/-!
# Calls that outlive their roster

Every call of the engine works with the roster it copied when it began, and reads the endpoint of a
peer from the roster in force when it needs it, by the peer's position.  Calls run in any interleaving
here, with reconfigurations among them.
-/

namespace Karst.Datapath.Snapshots

open Crypto Engine Noise Proto Node Calls Option
open List hiding Vector

variable {P : Primitives} {F : FileTransfers}

/-! ### Interleavings -/

/-- **Where a call sends**, whatever states its steps find. -/
theorem body_sends (S : Bool → Engine P F → Prop) (call : Call P) (r : Roster P) :
    Prog.Ensures S (Sends S r) (call.body r) := (call_proper call).ensures trivial

abbrev World (P : Primitives) (F : FileTransfers) := Pool (Engine P F) (Roster P) Output

def world (config : Config P) (evs : List (Pool.Turn (Call P))) : World P F :=
  Runs.run (Pool.step Engine.roster Call.body) (Pool.initial (Engine.new config)) evs

/-- The states that the steps of a call found, those of the steps that read the roster marked. -/
def found (config : Config P) (id : ℕ) (evs : List (Pool.Turn (Call P))) :
    List (Bool × Engine P F) :=
  Pool.found Engine.roster Call.body (Engine.new config) id evs

/-! ### Peers at their positions -/

/-- Every position of the call's roster that is still occupied is occupied by the same peer. -/
def coherent (r : Roster P) (s : Engine P F) : Bool :=
  (List.range r.peers.length).all fun i => (s.roster.peers[i]?).isNone ||
    (r.config.peers[i]?).any fun p => (s.roster.config.peers[i]?).any fun q => q.hint == p.hint

/-- The way leads to peer `i` of the call's roster: by an endpoint of a slot that is, in a roster the
call read since it began, the same peer's, or by its relayed identity. -/
def belongs (found : List (Bool × Engine P F)) (r : Roster P) (i : PeerIndex) : Via → Bool
  | .direct addr => (r.config.peers[i]?).any fun p => found.any fun (read, s) => read
      && (s.roster.config.peers.zip s.roster.peers).any fun (q, slot) => q.hint == p.hint
        && found.any fun (_, s') => (s'.slots.cell slot).endpoint == some addr
  | .relay relay destination =>
    r.relayId i == some destination && relay.all fun home => r.homeRelay i == some home

theorem belongs_of_addressed {found : List (Bool × Engine P F)} {r : Roster P} {i : PeerIndex} {v : Via}
    (hi : i < r.peers.length) (hv : Addressed (fun m s => (m, s) ∈ found) r i v)
    (hcoherent : ∀ s, (true, s) ∈ found → coherent r s = true) : belongs found r i v = true := by
  cases v with
  | relay relay destination =>
    obtain ⟨hdest, hhome⟩ := hv
    cases relay with
    | none => simp [belongs, hdest]
    | some home => simp [belongs, hdest, hhome home rfl]
  | direct addr =>
    obtain ⟨s, s', slot, hs, hs', hslot, haddr⟩ := hv
    have hsame := all_eq_true.mp (hcoherent s hs) i (mem_range.mpr hi)
    simp only [hslot, Option.isNone_some, Bool.false_or, Option.any_eq_true] at hsame
    obtain ⟨p, hp, q, hq, hhint⟩ := hsame
    have hmem : (q, slot) ∈ s.roster.config.peers.zip s.roster.peers :=
      mem_of_getElem? (getElem?_zip_eq_some.mpr ⟨hq, hslot⟩)
    simp only [belongs, hp, Option.any_some, List.any_eq_true]
    refine ⟨(true, s), hs, ?_⟩
    simp only [Bool.true_and, List.any_eq_true]
    refine ⟨(q, slot), hmem, ?_⟩
    simp only [hhint, Bool.true_and, List.any_eq_true]
    exact ⟨(false, s'), hs', by simp [haddr]⟩

/-! ### Two peers that change places -/

def peerOf (key : UInt8) (endpoint : Option SocketAddr) : Peer reference :=
  ⟨[], [], ⟨key, Vector.replicate 32 0⟩, endpoint, [], none, none⟩

def withPeers (peers : List (Peer reference)) : Config reference where
  keys := ⟨(0 : UInt8), (0 : UInt8)⟩
  addresses := []
  pskEpoch := 0
  relays := []
  gatewayForwarding := false
  peers := peers
  routes := .empty
  filter := .unrestricted
  sshFilter := .absent

def addrOf (host : BitVec 32) : SocketAddr := ⟨.v4 host, 51820⟩

def peerA : Peer reference := peerOf 1 (some (addrOf 1))
def peerB : Peer reference := peerOf 2 (some (addrOf 2))

def seeds (_ : ℕ) : Seed := Vector.replicate 32 0

def ambient : Ambient := ⟨0, .asStored⟩

/-- **Snapshots.**  If the rosters that a call read had the peers of its own at their positions, every
datagram goes to its session's peer. -/
theorem snapshot_coherent (config : Config P) {evs : List (Pool.Turn (Call P))} {id : ℕ}
    {r : Roster P} {out : Output} (hreturned : (world config evs : World P F).returned id = some (r, out))
    (hcoherent : ∀ s : Engine P F, (true, s) ∈ found config id evs → coherent r s = true) :
    ∀ d ∈ out.datagrams, ∀ i, d.peer = some i →
      belongs (found config id evs : List (Bool × Engine P F)) r i d.via = true := by
  intro d hd i hi
  have hsends : Sends (fun m s => (m, s) ∈ (found config id evs : List (Bool × Engine P F))) r out :=
    Pool.returned_ensures body_sends hreturned
  obtain ⟨hlt, hv⟩ := hsends d hd i hi
  exact belongs_of_addressed hlt hv hcoherent

/-- A peer is added while the daemon polls, and two change places before the last step, which reads
a slot. -/
def overtaken : List (Pool.Turn (Call reference)) :=
  [.start 0 (.poll 1 seeds ambient), .start 1 (.reconfigure (withPeers [peerA, peerB, peerOf 3 none]))]
    ++ List.replicate 5 (.next 1) ++ List.replicate 15 (.next 0)
    ++ [.start 2 (.reconfigure (withPeers [peerB, peerA, peerOf 3 none]))]
    ++ List.replicate 6 (.next 2) ++ [.next 0]

theorem snapshot_extended : ∃ r out,
    (world (withPeers [peerA, peerB]) overtaken : World reference .silent).returned 0 = some (r, out)
    ∧ out.datagrams ≠ [] ∧ (∃ s, (false, s) ∈ (found (withPeers [peerA, peerB]) 0 overtaken :
        List (Bool × Engine reference .silent)) ∧ coherent r s = false)
    ∧ ∀ d ∈ out.datagrams, ∀ i, d.peer = some i → belongs (found (withPeers [peerA, peerB]) 0 overtaken :
        List (Bool × Engine reference .silent)) r i d.via = true := by
  have h : ((world (withPeers [peerA, peerB]) overtaken : World reference .silent).returned 0).any
      (fun (r, out) => !out.datagrams.isEmpty && (found (withPeers [peerA, peerB]) 0 overtaken :
          List (Bool × Engine reference .silent)).any (fun (read, s) => !read && !coherent r s)
        && (found (withPeers [peerA, peerB]) 0 overtaken :
          List (Bool × Engine reference .silent)).all fun (read, s) => !read || coherent r s) = true := by
    decide +kernel
  obtain ⟨⟨r, out⟩, hreturned, hgood⟩ := any_eq_true _ _ |>.mp h
  simp only [Bool.and_eq_true, List.any_eq_true, Prod.exists, List.all_eq_true, Prod.forall] at hgood
  obtain ⟨⟨hne, read, s, hs, hswapped⟩, hall⟩ := hgood
  obtain ⟨rfl, hswapped'⟩ : read = false ∧ coherent r s = false := by simpa using hswapped
  refine ⟨r, out, hreturned, by simpa using hne, ⟨s, hs, hswapped'⟩, ?_⟩
  refine snapshot_coherent (withPeers [peerA, peerB]) hreturned fun s hs => ?_
  simpa using hall true s hs

/-- The daemon polls while another call installs `peers`. -/
def interrupted (peers : List (Peer reference)) : List (Pool.Turn (Call reference)) :=
  [.start 0 (.poll 1 seeds ambient), .start 1 (.reconfigure (withPeers peers))]
    ++ List.replicate 5 (.next 1) ++ List.replicate 16 (.next 0)

/-- **Two peers change places.**  The handshake of one peer's session goes to the endpoint of the
other, which has taken its position. -/
theorem snapshot_misdirected : ((world (withPeers [peerA, peerB]) (interrupted [peerB, peerA]) :
      World reference .silent).returned 0).any (fun (r, out) =>
        out.datagrams.any fun d => d.peer == some 0 && d.via == .direct (addrOf 2)
          && !belongs (found (withPeers [peerA, peerB]) 0 (interrupted [peerB, peerA]) :
            List (Bool × Engine reference .silent)) r 0 d.via) = true := by
  decide +kernel

end Karst.Datapath.Snapshots
