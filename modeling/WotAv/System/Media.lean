import WotAv.Lib.Transition
import WotAv.Native.Worker

/-!
# A media session and its worker

The two processes and the five pipes between them. Each pipe is reliable and
in order, and nothing orders one pipe with another. The session sees the exit
of the worker when it has read both of the worker's pipes to their ends.
-/

namespace WotAv.System

open WotAv.Lib WotAv.Media WotAv.Native

structure MediaSystem where
  session : NativeSession
  worker : Worker

structure MediaContext where
  session : SessionContext
  worker : WorkerContext

def ofItself : SessionInput → Bool
  | .control _ | .data _ | .controlEnded | .dataEnded | .exited _ => false
  | _ => true

inductive MediaLabel
  | session (input : SessionInput)
  | control
  | data
  | controlEnded
  | dataEnded
  | exited (success : Bool)
  | kill
  | worker (input : WorkerInput)

namespace MediaSystem

def finished (m : MediaSystem) : Prop := m.worker.phase = .exited

instance (m : MediaSystem) : Decidable m.finished := by unfold finished; infer_instance

/-- What the main thread of the worker would read. -/
def pipes (m : MediaSystem) : Pipes where
  secrets := m.session.secrets.head?
  command := m.session.commands.head?
  audio := m.session.audio.head?

/-- A pipe ends when its writer has closed it and everything is read. -/
def finds (m : MediaSystem) (t : Turn) : Bool :=
  !t.invalid && (!t.ended || match m.worker.phase with
    | .secrets => !m.session.secretsOpen && m.session.secrets = []
    | .command => !m.session.commandsOpen && m.session.commands = []
    | _ => !m.session.audioOpen && m.session.audio = [])

/-- What the main thread takes from the pipe that it reads. -/
def taken (t : Turn) (m : MediaSystem) : NativeSession :=
  if ¬t.read then m.session
  else match m.worker.phase with
    | .secrets => if m.worker.secretsComplete then m.session else { m.session with secrets := m.session.secrets.tail }
    | .command => { m.session with commands := m.session.commands.tail }
    | .audio => if m.worker.readsAudio then { m.session with audio := m.session.audio.tail } else m.session
    | _ => m.session

/-- What a label leads to; one that is not enabled leaves the system as it is. -/
def step (c : MediaContext) (m : MediaSystem) : MediaLabel → MediaSystem
  | .session input => if ofItself input then { m with session := m.session.step c.session input } else m
  | .control => match m.worker.control with
    | frame :: rest =>
      { session := m.session.step c.session (.control frame), worker := { m.worker with control := rest } }
    | [] => m
  | .data => match m.worker.data with
    | frame :: rest =>
      { session := m.session.step c.session (.data frame), worker := { m.worker with data := rest } }
    | [] => m
  | .controlEnded =>
    if m.finished ∧ m.worker.control = [] then { m with session := m.session.step c.session .controlEnded } else m
  | .dataEnded => if m.finished ∧ m.worker.data = [] then { m with session := m.session.step c.session .dataEnded } else m
  | .exited success =>
    if m.finished ∧ m.worker.control = [] ∧ m.worker.data = [] then
      { m with session := m.session.step c.session (.exited success) }
    else m
  | .kill =>
    if m.session.currentState = .closing ∧ m.session.commandsOpen = false then
      { m with worker := { m.worker with phase := .exited } }
    else m
  | .worker input => match input with
    | .turn t =>
      if m.finds t then { session := m.taken t, worker := m.worker.turn c.worker t m.pipes } else m
    | input => if m.finished then m else { m with worker := m.worker.thread c.worker input }

def queueOf (c : SessionContext) (q : BoundedMediaQueue α Nat) : Prop :=
  BoundedMediaQueue.make c.limits.queueBytes c.limits.queueUnits c.limits.maxSubscribers c.mode = .ok q

/-- The worker has written HELLO, or has found that it cannot. -/
inductive Initial (c : MediaContext) : MediaSystem → Prop
  | hello (hp : queueOf c.session packetQueue) (hm : queueOf c.session metadataQueue)
      (hd : queueOf c.session decodedQueue) (controls : Option (List ControlKind)) : Initial c
      { session := { packetQueue, metadataQueue, decodedQueue }
        worker := { control := [⟨.hello controls, 0, 0, 0⟩] } }
  | unusable (hp : queueOf c.session packetQueue) (hm : queueOf c.session metadataQueue)
      (hd : queueOf c.session decodedQueue) (code : String) : Initial c
      { session := { packetQueue, metadataQueue, decodedQueue }
        worker := { phase := .exited, control := [⟨.error code, 0, 0, 0⟩] } }

def system (c : MediaContext) : System MediaSystem MediaLabel := .ofFun (Initial c) (step c)

end MediaSystem

end WotAv.System
