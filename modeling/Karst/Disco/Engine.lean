import Karst.Disco.Paths

/-!
# Probe scheduling

The engine of `karst-disco/src/engine.rs`: which candidate of a peer to probe and when, when to
advertise one's own, and when to search a path's MTU.  It keeps a queue of candidates beside the set
of paths.  `poll` is given a source of transaction ids and returns what to put on the wire.
-/

namespace Karst.Disco

open Net

def KEEPALIVE_MS : ℕ := 5000
def REPROBE_MS : ℕ := 30000
/-- A candidate is probed at once, and then after each of these. -/
def PROBE_BACKOFF_MS : List ℕ := [100, 300, 900]
def ADVERTISE_MIN_INTERVAL_MS : ℕ := 5000

inductive Action where
  | probe (addr : SocketAddr) (tx : TxId)
  | advertise (candidates : List Endpoint)
  | probeMtu (addr : SocketAddr) (tx : TxId) (size : ℕ)

structure Scheduled where
  addr : SocketAddr
  dueMs : ℕ
  /-- Probes sent since it was last confirmed. -/
  attempts : ℕ

structure Engine where
  paths : PathSet
  queue : List Scheduled
  /-- The node's own candidates, as last advertised. -/
  localCandidates : List Endpoint
  lastAdvertiseMs : Option ℕ
  lastRemoteAdvertiseMs : Option ℕ
  advertisePending : Bool
  lastKeepaliveMs : Option ℕ
  lastReprobeMs : Option ℕ

namespace Engine

def new : Engine := ⟨.new, [], [], none, none, false, none, none⟩

/-- Whether the time since a stamp has come to an interval; there may have been none. -/
def elapsed (nowMs interval : ℕ) : Option ℕ → Bool
  | none => true
  | some t => decide (interval ≤ nowMs - t)

/-! ### Candidates -/

/-- What `set_local_candidates` sorts by: the family, the address as text, the port. -/
def candidateKey (ipText : IpAddr → Bytes) (c : Endpoint) : Bool ×ₗ List ℕ ×ₗ ℕ :=
  toLex (!c.addr.ip.isIpv4, toLex ((ipText c.addr.ip).map UInt8.toNat, c.addr.port.toNat))

/-- Replace the node's own candidates; only a change is advertised. -/
def setLocalCandidates (ipText : IpAddr → Bytes) (e : Engine) (candidates : List Endpoint) :
    Engine :=
  let sorted := candidates.insertionSort fun a b => candidateKey ipText a ≤ candidateKey ipText b
  let candidates := sorted.destutter (· ≠ ·)
  if candidates = e.localCandidates then e
  else { e with localCandidates := candidates, advertisePending := true }

def schedule (e : Engine) (addr : SocketAddr) (nowMs : ℕ) : Engine :=
  { e with queue := e.queue ++ [⟨addr, nowMs, 0⟩] }

/-- Learn a candidate; one out of a `CallMeMaybe` is probed at once. -/
def addPeerCandidate (e : Engine) (addr : SocketAddr) (nowMs : ℕ) (immediate : Bool) : Engine :=
  if e.queue.any fun s => s.addr == addr then
    if immediate then
      { e with
        queue := updateFirst (fun s => s.addr == addr)
          (fun s => { s with dueMs := nowMs, attempts := 0 }) e.queue }
    else e
  else
    match e.paths.addCandidate addr (.directFor addr) with
    | (paths, .full) => { e with paths }
    -- the schedule follows what was displaced
    | (paths, .added (some evicted)) =>
      schedule { e with paths, queue := e.queue.filter fun s => s.addr != evicted } addr nowMs
    | (paths, .added none) => schedule { e with paths } addr nowMs
    | (paths, .known) => schedule { e with paths } addr nowMs

/-- Handle a `CallMeMaybe`; one that comes too soon is dropped. -/
def onCallMeMaybe (e : Engine) (candidates : List Endpoint) (nowMs : ℕ) : Engine × Bool :=
  if elapsed nowMs ADVERTISE_MIN_INTERVAL_MS e.lastRemoteAdvertiseMs then
    (candidates.foldl (fun e c => e.addPeerCandidate c.addr nowMs true)
      { e with lastRemoteAdvertiseMs := some nowMs }, true)
  else (e, false)

/-- A probe was answered, so its backoff starts over. -/
def onConfirmed (e : Engine) (addr : SocketAddr) : Engine :=
  { e with
    queue := updateFirst (fun s => s.addr == addr) (fun s => { s with attempts := 0 }) e.queue }

/-- Start discovery over: everything is due, and what was measured is forgotten. -/
def rediscover (e : Engine) (nowMs : ℕ) : Engine :=
  { e with
    paths := e.paths.resetMtu
    queue := e.queue.map (fun s => { s with attempts := 0, dueMs := nowMs })
    lastKeepaliveMs := none
    lastReprobeMs := some nowMs
    advertisePending := e.advertisePending || !e.localCandidates.isEmpty
    lastAdvertiseMs := if e.localCandidates.isEmpty then e.lastAdvertiseMs else none }

/-! ### Polling -/

/-- A poll under way: the engine, how many transaction ids were drawn, and what to send. -/
structure Poll where
  engine : Engine
  minted : ℕ
  out : List Action

section

variable (order : ProbeOrder) (mint : ℕ → TxId) (nowMs : ℕ)

/-- Whether to send a `CallMeMaybe`: on a change, and again while there is no path. -/
def shouldAdvertise (e : Engine) : Bool :=
  if e.localCandidates.isEmpty then false
  else if !(e.advertisePending || e.paths.chosen.isNone) then false
  else elapsed nowMs (if e.advertisePending then ADVERTISE_MIN_INTERVAL_MS else REPROBE_MS) e.lastAdvertiseMs

def advertise (e : Engine) : Poll :=
  if e.shouldAdvertise nowMs then
    ⟨{ e with lastAdvertiseMs := some nowMs, advertisePending := false }, 0, [.advertise e.localCandidates]⟩
  else ⟨e, 0, []⟩

/-- Draw a transaction id, record it, and queue the probe; whether it was emitted. -/
def emitProbe (addr : SocketAddr) (w : Poll) : Poll × Bool :=
  match w.engine.paths.onPingSent order (mint w.minted) addr nowMs with
  | (paths, .ok ()) =>
    (⟨{ w.engine with paths }, w.minted + 1, w.out ++ [.probe addr (mint w.minted)]⟩, true)
  | (paths, .error .tooManyOutstanding) => (⟨{ w.engine with paths }, w.minted + 1, w.out⟩, false)

def backOff (addr : SocketAddr) (e : Engine) : Engine :=
  { e with
    queue := updateFirst (fun s => s.addr == addr) (fun s => { s with
      attempts := min (s.attempts + 1) U64_MAX
      dueMs := min (nowMs + PROBE_BACKOFF_MS.getD s.attempts 0) U64_MAX }) e.queue }

def probeScheduled (w : Poll) (addr : SocketAddr) : Poll :=
  let (w, emitted) := emitProbe order mint nowMs addr w
  if emitted then { w with engine := w.engine.backOff nowMs addr } else w

def probeDue (w : Poll) : Poll :=
  let due := (w.engine.queue.filter fun s =>
    decide (s.attempts ≤ PROBE_BACKOFF_MS.length) && decide (s.dueMs ≤ nowMs)).map Scheduled.addr
  due.foldl (probeScheduled order mint nowMs) w

def keepalive (w : Poll) : Poll :=
  match w.engine.paths.chosen with
  | none => w
  | some chosen =>
    if elapsed nowMs KEEPALIVE_MS w.engine.lastKeepaliveMs then
      (emitProbe order mint nowMs chosen
        { w with engine := { w.engine with lastKeepaliveMs := some nowMs } }).1
    else w

/-- Probe the alternatives again; the first poll only starts the clock. -/
def reprobe (w : Poll) : Poll :=
  match w.engine.lastReprobeMs with
  | none => { w with engine := { w.engine with lastReprobeMs := some nowMs } }
  | some t =>
    if REPROBE_MS ≤ nowMs - t then
      let w := { w with engine := { w.engine with lastReprobeMs := some nowMs } }
      let others := (w.engine.queue.map Scheduled.addr).filter fun a =>
        some a != w.engine.paths.chosen
      others.foldl (fun w a => (emitProbe order mint nowMs a w).1) w
    else w

def mtuProbeTarget (e : Engine) : Option SocketAddr :=
  e.paths.chosen.bind fun addr =>
    ((e.paths.paths.find? fun p => p.addr == addr).filter fun p => p.kind.isDirect).map Path.addr

def probeMtu (w : Poll) : Poll :=
  match w.engine.mtuProbeTarget with
  | none => w
  | some addr =>
    let w := { w with
      engine := { w.engine with paths := w.engine.paths.ensureMtuSearch addr nowMs } }
    match w.engine.paths.nextMtuProbe addr with
    | none => w
    | some size =>
      match w.engine.paths.onMtuProbeSent order (mint w.minted) addr size nowMs with
      | (paths, .ok ()) =>
        ⟨{ w.engine with paths }, w.minted + 1, w.out ++ [.probeMtu addr (mint w.minted) size]⟩
      | (paths, .error .tooManyOutstanding) => ⟨{ w.engine with paths }, w.minted + 1, w.out⟩

def poll (e : Engine) : Engine × List Action :=
  let w := probeMtu order mint nowMs (reprobe order mint nowMs (keepalive order mint nowMs
    (probeDue order mint nowMs (e.advertise nowMs))))
  (w.engine, w.out)

end

/-! ### Runs -/

/-- An operation with its arguments; `paths_mut` gives access to those of the paths. -/
inductive Op where
  | setLocalCandidates (candidates : List Endpoint)
  | addPeerCandidate (addr : SocketAddr) (nowMs : ℕ) (immediate : Bool)
  | onCallMeMaybe (candidates : List Endpoint) (nowMs : ℕ)
  | onConfirmed (addr : SocketAddr)
  | rediscover (nowMs : ℕ)
  | poll (order : ProbeOrder) (mint : ℕ → TxId) (nowMs : ℕ)
  | pathsMut (op : PathSet.Op)

def step (ipText : IpAddr → Bytes) (e : Engine) : Op → Engine
  | .setLocalCandidates candidates => e.setLocalCandidates ipText candidates
  | .addPeerCandidate addr nowMs immediate => e.addPeerCandidate addr nowMs immediate
  | .onCallMeMaybe candidates nowMs => (e.onCallMeMaybe candidates nowMs).1
  | .onConfirmed addr => e.onConfirmed addr
  | .rediscover nowMs => e.rediscover nowMs
  | .poll order mint nowMs => (e.poll order mint nowMs).1
  | .pathsMut op => { e with paths := e.paths.step op }

def run (ipText : IpAddr → Bytes) (ops : List Op) : Engine := Runs.run (step ipText) new ops

end Engine

end Karst.Disco
