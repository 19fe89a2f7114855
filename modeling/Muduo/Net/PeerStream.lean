import Muduo.Net.BufferReadFd
import Muduo.Net.GracefulShutdown

/-!
# PeerStream — two connections and the network between them

One end sends messages and shuts down (`GracefulShutdown.Session`); at the other end `handleRead`
reads into `inputBuffer_`, whose user retrieves from it as much as it likes.  The network keeps
what TCP promises: the bytes that one kernel accepted are delivered by the other one in order, in
pieces of any size, and the end of the file comes behind the last of them.
-/

namespace Muduo
namespace Net

open Effect

structure PeerStream where
  sender : GracefulShutdown.Session
  /-- The connection at the other end, -/
  peer : TcpConnection
  /-- its `inputBuffer_`, -/
  input : ReadFd.State
  /-- and what its `handleRead` has done. -/
  log : List Effect

namespace PeerStream

/-- What `handleRead` gets from `readFd`. -/
def readResult : Readv → ReadResult
  | .failed _ => .fail
  | .delivered data => .bytes data

inductive Act
  | sender (a : GracefulShutdown.Act)
  /-- `handleRead` at the other end. -/
  | handleRead (r : Readv)
  | retrieve (len : Nat)
  deriving DecidableEq, Repr

def exec (s : PeerStream) : Act → Except Fault PeerStream
  | .sender a => pure { s with sender := GracefulShutdown.next s.sender a }
  | .handleRead r => do
      let input ← ReadFd.exec s.input (.readFd r)
      let result := s.peer.handleRead (readResult r)
      pure { s with input := input, peer := result.1, log := s.log ++ result.2 }
  | .retrieve len => do
      let input ← ReadFd.exec s.input (.retrieve len)
      pure { s with input := input }

/-- The network can deliver `data` next; no data is the end of the file. -/
def Arrives (s : PeerStream) : Readv → Prop
  | .failed _ => True
  | .delivered data =>
      s.input.received ++ data <+: written s.sender.log ∧
        (data = [] → .shutdownWrite ∈ s.sender.log ∧ s.input.received = written s.sender.log)

def Enabled (s : PeerStream) : Act → Prop
  | .sender a => GracefulShutdown.Enabled s.sender a
  | .handleRead r => ReadFd.Enabled s.input (.readFd r) ∧ s.Arrives r
  | .retrieve len => ReadFd.Enabled s.input (.retrieve len)

instance (s : PeerStream) (r : Readv) : Decidable (s.Arrives r) :=
  match r with
  | .failed _ => isTrue trivial
  | .delivered _ => inferInstanceAs (Decidable (_ ∧ (_ → _ ∧ _)))

instance (s : PeerStream) (a : Act) : Decidable (Enabled s a) :=
  match a with
  | .sender a => inferInstanceAs (Decidable (GracefulShutdown.Enabled s.sender a))
  | .handleRead r => inferInstanceAs (Decidable (ReadFd.Enabled s.input (.readFd r) ∧ s.Arrives r))
  | .retrieve len => inferInstanceAs (Decidable (ReadFd.Enabled s.input (.retrieve len)))

/-- A session begins, and the other end has read nothing of it yet. -/
def Starts (s : PeerStream) : Prop :=
  GracefulShutdown.Starts s.sender ∧ s.input.buf.WF ∧ s.input.buf.content = [] ∧
    s.input.received = [] ∧ s.input.retrieved = [] ∧ s.log = []

def system : StepSystem PeerStream Act :=
  StepSystem.ofExec Starts Enabled exec

/-- The condition of a graceful shutdown. -/
def Meets (s : PeerStream) : Act → Prop
  | .sender a => GracefulShutdown.Meets s.sender a
  | _ => True

instance (s : PeerStream) (a : Act) : Decidable (Meets s a) :=
  match a with
  | .sender a => inferInstanceAs (Decidable (GracefulShutdown.Meets s.sender a))
  | .handleRead _ => isTrue trivial
  | .retrieve _ => isTrue trivial

/-! ## The log of the sender grows -/

theorem log_loopDid (s : GracefulShutdown.Session) (r : TcpConnection.Result) :
    (s.loopDid r).log = s.log ++ r.2 := rfl

theorem log_callerDid (s : GracefulShutdown.Session) (r : TcpConnection.Result) :
    (s.callerDid r).log = s.log ++ r.2 := by
  unfold GracefulShutdown.Session.callerDid
  split <;> rfl

theorem log_next (s : GracefulShutdown.Session) (a : GracefulShutdown.Act) :
    s.log <+: (GracefulShutdown.next s a).log := by
  cases a with
  | send w =>
      cases hunsent : s.unsent with
      | nil => simp [GracefulShutdown.next, hunsent]
      | cons message rest =>
          simp only [GracefulShutdown.next, hunsent, log_callerDid]
          exact List.prefix_append _ _
  | shutdown =>
      simp only [GracefulShutdown.next, log_callerDid]
      exact List.prefix_append _ _
  | push => exact List.prefix_rfl
  | runFunctor w =>
      cases hpending : s.pending with
      | nil => simp [GracefulShutdown.next, hpending]
      | cons cb rest =>
          simp only [GracefulShutdown.next, hpending, log_loopDid]
          exact List.prefix_append _ _
  | handleWrite w => exact List.prefix_append _ _

theorem due_next (s : GracefulShutdown.Session) (a : GracefulShutdown.Act) :
    (GracefulShutdown.next s a).due = s.due := by
  have hcaller : ∀ (s : GracefulShutdown.Session) r, (s.callerDid r).due = s.due := by
    intro s r
    unfold GracefulShutdown.Session.callerDid
    split <;> rfl
  cases a with
  | send w =>
      cases hunsent : s.unsent with
      | nil => simp [GracefulShutdown.next, hunsent]
      | cons message rest =>
          simp only [GracefulShutdown.next, hunsent, hcaller]
          rfl
  | shutdown =>
      simp only [GracefulShutdown.next, hcaller]
      rfl
  | push => rfl
  | runFunctor w =>
      cases hpending : s.pending with
      | nil => simp [GracefulShutdown.next, hpending]
      | cons cb rest =>
          simp only [GracefulShutdown.next, hpending]
          rfl
  | handleWrite w => rfl

theorem written_mono {l l' : List Effect} (h : l <+: l') : written l <+: written l' := by
  obtain ⟨rest, rfl⟩ := h
  rw [written_append]
  exact List.prefix_append _ _

/-! ## The invariant -/

structure Inv (s : PeerStream) : Prop where
  sender : GracefulShutdown.InvWith [] s.sender
  wf : s.input.buf.WF
  stream : s.input.retrieved ++ s.input.buf.content = s.input.received
  /-- The other end is behind the first one. -/
  behind : s.input.received <+: written s.sender.log
  /-- The connection at the other end is closed by the end of the file. -/
  closed : .closeCallback ∈ s.log →
    .shutdownWrite ∈ s.sender.log ∧ s.input.received = written s.sender.log

variable {s t : PeerStream}

theorem Inv.sent_all (h : s.Inv) (hlog : .shutdownWrite ∈ s.sender.log) :
    written s.sender.log = s.sender.due :=
  h.sender.graceful.notEarly hlog

theorem sender_inv (h : s.Inv) {a : GracefulShutdown.Act}
    (hmeets : GracefulShutdown.Meets s.sender a) (hen : GracefulShutdown.Enabled s.sender a) :
    Inv { s with sender := GracefulShutdown.next s.sender a } := by
  have hnext := GracefulShutdown.step_inv h.sender hmeets hen
  have hgrows := log_next s.sender a
  refine ⟨hnext, h.wf, h.stream, h.behind.trans (written_mono hgrows), fun hclosed => ?_⟩
  -- After `shutdownWrite` all is written, so that nothing is written any more.
  obtain ⟨hshut, hreceived⟩ := h.closed hclosed
  have hshut' := hgrows.subset hshut
  refine ⟨hshut', ?_⟩
  calc
    s.input.received = s.sender.due := hreceived.trans (h.sent_all hshut)
    _ = (GracefulShutdown.next s.sender a).due := (due_next s.sender a).symm
    _ = written (GracefulShutdown.next s.sender a).log :=
      (hnext.graceful.notEarly hshut').symm

/-- `handleRead` closes the connection at the end of the file only. -/
theorem closeCallback_of_handleRead (c : TcpConnection) (r : Readv)
    (h : .closeCallback ∈ (c.handleRead (readResult r)).2) : r = .delivered [] := by
  cases r with
  | failed errno => cases h
  | delivered data =>
      cases data with
      | nil => rfl
      | cons byte data => simp [readResult, TcpConnection.handleRead] at h

theorem handleRead_ok (h : s.Inv) {r : Readv} (hen : Enabled s (.handleRead r)) :
    ∃ t, exec s (.handleRead r) = .ok t ∧ Inv t := by
  obtain ⟨hfits, harrives⟩ := hen
  cases r with
  | failed errno =>
      have hexec : exec s (.handleRead (.failed errno)) = .ok { s with
          input := { s.input with savedErrno := errno }
          log := s.log ++ [] } := by
        simp [exec, ReadFd.exec, Buffer.readFd_failed, pure_eq_ok, readResult,
          TcpConnection.handleRead]
      refine ⟨_, hexec, h.sender, h.wf, h.stream, h.behind, fun hclosed => ?_⟩
      rcases List.mem_append.1 hclosed with hold | hnew
      · exact h.closed hold
      · cases hnew
  | delivered data =>
      obtain ⟨b', hb', hwf, hcontent⟩ := Buffer.readFd_delivered h.wf s.input.savedErrno hfits
      obtain ⟨hbehind, heof⟩ := harrives
      have hexec : exec s (.handleRead (.delivered data)) = .ok { s with
          input := { s.input with buf := b', received := s.input.received ++ data }
          peer := (s.peer.handleRead (readResult (.delivered data))).1
          log := s.log ++ (s.peer.handleRead (readResult (.delivered data))).2 } := by
        simp [exec, ReadFd.exec, hb', pure_eq_ok]
      refine ⟨_, hexec, h.sender, hwf, ?_, hbehind, fun hclosed => ?_⟩
      · simp only [hcontent]
        rw [← List.append_assoc, h.stream]
      · rcases List.mem_append.1 hclosed with hold | hnew
        · -- Behind the end of the file there is no data.
          obtain ⟨hshut, hreceived⟩ := h.closed hold
          refine ⟨hshut, ?_⟩
          rw [hreceived] at hbehind ⊢
          exact hbehind.eq_of_length_le (by simp)
        · have hdata := closeCallback_of_handleRead s.peer (.delivered data) hnew
          cases hdata
          obtain ⟨hshut, hreceived⟩ := heof rfl
          exact ⟨hshut, by simpa using hreceived⟩

theorem retrieve_ok (h : s.Inv) {len : Nat} (hen : Enabled s (.retrieve len)) :
    ∃ t, exec s (.retrieve len) = .ok t ∧ Inv t := by
  obtain ⟨b', hb', hwf, hcontent⟩ := Buffer.retrieve_ok h.wf hen
  have hload := Buffer.load_peek_ok h.wf hen
  have hexec : exec s (.retrieve len) = .ok { s with
      input := { s.input with
        buf := b'
        retrieved := s.input.retrieved ++ s.input.buf.content.take len } } := by
    simp [exec, ReadFd.exec, hload, hb', pure_eq_ok]
  refine ⟨_, hexec, h.sender, hwf, ?_, h.behind, h.closed⟩
  simp only [hcontent]
  rw [List.append_assoc, List.take_append_drop, h.stream]

theorem exec_ok (h : s.Inv) {a : Act} (hmeets : Meets s a) (hen : Enabled s a) :
    ∃ t, exec s a = .ok t ∧ Inv t := by
  cases a with
  | sender a => exact ⟨_, rfl, sender_inv h hmeets hen⟩
  | handleRead r => exact handleRead_ok h hen
  | retrieve len => exact retrieve_ok h hen

theorem starts_inv (h : Starts s) : s.Inv := by
  obtain ⟨hsender, hwf, hcontent, hreceived, hretrieved, hlog⟩ := h
  refine ⟨GracefulShutdown.start_inv hsender, hwf, ?_, ?_, ?_⟩
  · rw [hcontent, hreceived, hretrieved]
    rfl
  · rw [hreceived]
    exact List.nil_prefix
  · rw [hlog]
    rintro ⟨⟩

/-- In every run, with any messages, partial writes, sizes of reads and retrieves: what the user
at the other end has retrieved, what is left in `inputBuffer_`, what the network holds, and what
the sender has not written yet, are the messages in order; when the connection at the other end is
closed by the end of the file, its user has all of them; and nothing faults. -/
theorem stream_arrives (hs : (system.restrict Meets).Reachable s) :
    (∃ network, s.input.retrieved ++ s.input.buf.content ++ network ++
      s.sender.conn.outputBuffer.content ++ sendBytes s.sender.pending ++
        sendBytes s.sender.inHand ++ s.sender.unsent.flatten = s.sender.due) ∧
      (.closeCallback ∈ s.log → s.input.retrieved ++ s.input.buf.content = s.sender.due) ∧
      ∀ a, Meets s a → Enabled s a → ∃ t, exec s a = .ok t := by
  have hs' : (StepSystem.ofExec Starts (fun s a => Meets s a ∧ Enabled s a) exec).Reachable s := by
    rwa [system, StepSystem.restrict_ofExec] at hs
  obtain ⟨h, hsafe⟩ :=
    StepSystem.ofExec_safe starts_inv (fun hs ha => exec_ok hs ha.1 ha.2) hs'
  refine ⟨?_, fun hclosed => ?_, fun a hmeets hen => hsafe a ⟨hmeets, hen⟩⟩
  · obtain ⟨network, hnetwork⟩ := h.behind
    refine ⟨network, ?_⟩
    rw [h.stream, hnetwork]
    exact h.sender.graceful.kept
  · obtain ⟨hshut, hreceived⟩ := h.closed hclosed
    rw [h.stream, hreceived, h.sent_all hshut]

/-- The other end reads three bytes in two pieces, with a buffer that has room for one. -/
def twoPieces : List Act :=
  [.sender (.send (.accept 0)), .sender .push, .sender (.runFunctor (.accept 2)),
    .handleRead (.delivered [1, 2]), .retrieve 1, .sender (.handleWrite (.accept 5)),
    .sender .shutdown, .sender .push, .sender (.runFunctor (.accept 0)),
    .sender (.runFunctor (.accept 0)), .handleRead (.delivered [3]), .handleRead (.delivered [])]

def beforePieces : PeerStream where
  sender := GracefulShutdown.Session.start GracefulShutdown.fresh false [[1, 2, 3]]
  peer := GracefulShutdown.fresh
  input := ⟨Buffer.new 1, 0, [], []⟩
  log := []

def afterPieces : PeerStream :=
  (StepSystem.execAll exec beforePieces twoPieces).toOption.getD beforePieces

theorem stream_arrives_twoPieces :
    .closeCallback ∈ afterPieces.log ∧ afterPieces.input.retrieved = [1] ∧
      afterPieces.input.retrieved ++ afterPieces.input.buf.content = [1, 2, 3] := by
  have hstart : Starts beforePieces :=
    ⟨GracefulShutdown.fresh_starts _ _, Buffer.new_wf 1, by decide, rfl, rfl, rfl⟩
  have hrun : (system.restrict Meets).Run beforePieces twoPieces afterPieces := by
    rw [system, StepSystem.restrict_ofExec]
    refine StepSystem.run_of_execAll ?_ rfl
    decide +kernel
  have hclosed : .closeCallback ∈ afterPieces.log := by decide +kernel
  exact ⟨hclosed, by decide +kernel,
    ((stream_arrives (hrun.reachable (.init hstart))).2.1 hclosed).trans (by decide +kernel)⟩

end PeerStream

end Net
end Muduo
