import DfuLoader.Engine.Tick
import DfuLoader.Protocol

/-!
# A session with the host

A session is the protocol state together with the pipeline that persists an
image. Requests of the host come in pairs: `request` checks the code against the
state, and the operation of that name then serves it. Serving a download only
queues the bytes; flash is written by `tick`, or by a status request that ends
an image under the draining policy (`drain`).

Draining goes on for as long as the chip keeps it waiting, so `getStatus` takes
the number of engine steps after which the caller stops waiting, and has no
result if they are not enough. Everything else ends by itself.
-/

namespace DfuLoader

structure Session extends Pipeline where
  state : State
  status : Status
  /-- The alternate setting, by which the host selects a zone. -/
  alt : UInt8
  /-- The ticks skipped since the last that did work. -/
  skipped : UInt8
  /-- The host has sent the whole image. -/
  endOfImage : Bool
  /-- A reboot is due once the current request is acknowledged. -/
  detachPending : Bool
  deriving DecidableEq, Repr

structure StatusReport where
  status : Status
  /-- The milliseconds to wait before the next status request. -/
  pollTimeout : UInt32
  state : State
  deriving DecidableEq, Repr

/-- The six bytes of a reply. The last is the index of a describing string,
which no status has. -/
def StatusReport.toBytes (r : StatusReport) : Bytes :=
  r.status.code :: Bytes.word24 r.pollTimeout ++ [r.state.code, 0]

namespace Session

def initial (cfg : Config) : Session where
  engine := .unloaded cfg.maxAttempts
  buffer := .empty
  state := .appDetach
  status := .ok
  alt := 0
  skipped := 0
  endOfImage := false
  detachPending := false

def withPipeline (s : Session) (p : Pipeline) : Session := { s with toPipeline := p }

def fail (s : Session) (e : SessionError) : Session :=
  { s with state := .error, status := e.status }

/-- Loads the zone of an alternate setting and drops queued data, if there is
such a zone. -/
def selectAlt (cfg : Config) (s : Session) (alt : UInt8) : Option Session :=
  (cfg.zones.get? alt).map fun zone =>
    { s with
      alt := alt
      buffer := s.buffer.clear
      engine := .loaded zone cfg.maxAttempts
      endOfImage := false
      state := .idle
      status := .ok }

/-- The device was configured: a session that waits for it starts with the first
zone. -/
def configured (cfg : Config) (s : Session) : Session :=
  if s.state = .appDetach then (s.selectAlt cfg 0).getD s else s

/-- Checks a request code against the state. A code that is unknown or not
served puts the session into the error state. -/
def request (s : Session) (code : UInt8) : Except SessionError Request × Session :=
  match Request.ofCode? code with
  | some r =>
      if s.state.allows r then (.ok r, s)
      else (.error .protocolViolation, s.fail .protocolViolation)
  | none => (.error .protocolViolation, s.fail .protocolViolation)

/-- Asks for a reboot at the next poll, once the request is acknowledged. -/
def detach (s : Session) : Session := { s with detachPending := true }

/-- Commits the block under way, if it has any bytes and a slot is left, and
moves the receiving cursor past it. -/
def commitTail (s : Session) : Session :=
  if s.buffer.fill = 0 then s
  else match s.buffer.commit with
    | none => s
    | some buffer => { s with buffer := buffer, engine := s.engine.skipPadding }

/-- Serves a download. An empty block ends the image. Other bytes are queued at
the receiving cursor, and a block shorter than a transfer is the last of its
image, so the window that it ends in is committed at once. -/
def download (cfg : Config) (s : Session) (bytes : Bytes) : Except SessionError Unit × Session :=
  if bytes.isEmpty then (.ok (), { s with endOfImage := true, state := .manifestSync })
  else
    match (s.engine.receiveAt.add? bytes.length).filter (· ≤ s.engine.zoneEnd) with
    | none => (.error .rangeOverflow, s.fail .rangeOverflow)
    | some receiveAt =>
        match s.buffer.append bytes with
        | none => (.error .protocolViolation, s.fail .protocolViolation)
        | some buffer =>
            let s := { s with
              buffer := buffer
              engine := { s.engine with receiveAt := receiveAt }
              endOfImage := false }
            let s := if bytes.length < cfg.transferSize.toNat then s.commitTail else s
            (.ok (), { s with state := .downloadSync })

/-- Serves an upload: reads at most `room` bytes at the reading cursor.
`requested` is what the host asked for, which may be more than there is room
for. Fewer bytes than requested end the upload. -/
def upload (s : Session) (room requested : Nat) :
    Dialogue (Except SessionError Bytes × Session) :=
  let left := (Address.subSat s.engine.zoneEnd s.engine.readAt).toNat
  let length := min room left
  if length = 0 then return (.ok [], { s with state := .idle })
  else do
    Dialogue.select s.engine.chip
    match ← Dialogue.read s.engine.readAt length with
    | .error fault => return (.error (.flash fault), s.fail (.flash fault))
    | .ok bytes =>
        return (.ok bytes.val, { s with
          engine := { s.engine with readAt := s.engine.readAt + UInt32.ofNat length }
          state := if length = requested then .uploadIdle else .idle })

def commitImageTail (s : Session) : Session := if s.endOfImage then s.commitTail else s

def step (cfg : Config) (s : Session) : Dialogue (Tick × Session) := do
  let s := s.commitImageTail
  let (tick, pipeline) ← s.toPipeline.tick cfg
  return (tick, s.withPipeline pipeline)

def tick (cfg : Config) (s : Session) : Dialogue (Tick × Session) :=
  if s.skipped < cfg.skipTicks then
    return (.throttled, { s with skipped := s.skipped + 1 })
  else { s with skipped := 0 }.step cfg

def drain (cfg : Config) : Nat → Session → Dialogue (Option Session)
  | 0, s => return if s.buffer.isEmpty then some s else none
  | limit + 1, s =>
      if s.buffer.isEmpty then return some s
      else do
        let (_, s) ← s.step cfg
        drain cfg limit s

/-- The image is written: the cursors go back to the start of the zone. -/
def rewind (cfg : Config) (s : Session) : Session :=
  { s with
    endOfImage := false
    engine := match cfg.zones.get? s.alt with
      | some zone => .loaded zone cfg.maxAttempts
      | none => s.engine }

def report (cfg : Config) (s : Session) (state : State) : StatusReport :=
  ⟨s.status, cfg.pollTimeout, state⟩

def manifest (cfg : Config) (limit : Nat) (s : Session) :
    Dialogue (Option (StatusReport × Session)) :=
  match cfg.manifest with
  | .drain => do
      let some s ← { s with state := .idle }.drain cfg limit | return none
      let s := s.rewind cfg
      return some (s.report cfg .idle, s)
  | .report =>
      let s := s.commitImageTail
      if s.buffer.isEmpty then
        let s := { s with state := .idle }.rewind cfg
        return some (s.report cfg .idle, s)
      else return some (s.report cfg .manifest, s)

def getStatus (cfg : Config) (limit : Nat) (s : Session) :
    Dialogue (Option (StatusReport × Session)) :=
  match s.state with
  | .downloadSync =>
      if s.buffer.committed < 2 then
        return some (s.report cfg .downloadIdle, { s with state := .downloadIdle })
      else return some (s.report cfg .downloadBusy, s)
  | .manifestSync => s.manifest cfg limit
  | state => return some (s.report cfg state, s)

def clearStatus (s : Session) : Session := { s with state := .idle, status := .ok }

/-- Serves an abort. Queued data is still written. -/
def abort (s : Session) : Session := { s with state := .idle }

/-- The bus was reset. A session that is under way is over: the device reboots,
and if it comes back from that, the session starts again. -/
def busReset (cfg : Config) (s : Session) : Dialogue Session :=
  if s.state = .appDetach then return s
  else do
    Dialogue.reboot
    return { s with
      state := .appDetach
      status := .ok
      skipped := 0
      endOfImage := false
      detachPending := false
      buffer := s.buffer.clear
      engine := .unloaded cfg.maxAttempts }

def poll (s : Session) : Dialogue Session :=
  if s.detachPending then do
    Dialogue.reboot
    return { s with detachPending := false }
  else return s

end Session

end DfuLoader
