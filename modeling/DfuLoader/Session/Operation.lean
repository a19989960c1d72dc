import DfuLoader.Session.Basic

/-!
# Runs of a session

Everything that can be done to a session is an `Operation`, and `perform` carries
one out. A run is a list of operations (`performAll`); it has a result unless a
status request in it gave up waiting.
-/

namespace DfuLoader

namespace Session

inductive Operation where
  | configured
  | selectAlt (alt : UInt8)
  | request (code : UInt8)
  | fail (e : SessionError)
  | detach
  | download (bytes : Bytes)
  | upload (room requested : Nat)
  | getStatus
  | clearStatus
  | getState
  | abort
  | busReset
  | poll
  | tick
  deriving DecidableEq, Repr

inductive Answer where
  | quiet
  | selected (found : Bool)
  | requested (result : Except SessionError Request)
  | failed (e : SessionError)
  | downloaded (result : Except SessionError Unit)
  | uploaded (result : Except SessionError Bytes)
  | reported (report : StatusReport)
  | state (state : State)
  | ticked (tick : Tick)

def perform (cfg : Config) (limit : Nat) (op : Operation) (s : Session) :
    Dialogue (Option (Answer × Session)) :=
  match op with
  | .configured => return some (.quiet, s.configured cfg)
  | .selectAlt alt =>
      match s.selectAlt cfg alt with
      | some s => return some (.selected true, s)
      | none => return some (.selected false, s)
  | .request code =>
      let (result, s) := s.request code
      return some (.requested result, s)
  | .fail e => return some (.failed e, s.fail e)
  | .detach => return some (.quiet, s.detach)
  | .download bytes =>
      let (result, s) := s.download cfg bytes
      return some (.downloaded result, s)
  | .upload room requested => do
      let (result, s) ← s.upload room requested
      return some (.uploaded result, s)
  | .getStatus => do
      let some (report, s) ← s.getStatus cfg limit | return none
      return some (.reported report, s)
  | .clearStatus => return some (.quiet, s.clearStatus)
  | .getState => return some (.state s.state, s)
  | .abort => return some (.quiet, s.abort)
  | .busReset => do
      let s ← s.busReset cfg
      return some (.quiet, s)
  | .poll => do
      let s ← s.poll
      return some (.quiet, s)
  | .tick => do
      let (tick, s) ← s.tick cfg
      return some (.ticked tick, s)

def performAll (cfg : Config) (limit : Nat) :
    List Operation → Session → Dialogue (Option (List Answer × Session))
  | [], s => return some ([], s)
  | op :: ops, s => do
      let some (answer, s) ← s.perform cfg limit op | return none
      let some (answers, s) ← performAll cfg limit ops s | return none
      return some (answer :: answers, s)

end Session

end DfuLoader
