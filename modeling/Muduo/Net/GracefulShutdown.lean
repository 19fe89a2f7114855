import Muduo.Foundation.StepSystem
import Muduo.Net.OutputStream

/-!
# GracefulShutdown — `send`, …, `send`, `shutdown` against the loop

One thread sends messages on a connected connection and then shuts it down.  The loop runs the
functors that the calls queue and the `handleWrite` events, in any interleaving with the calls.
A call from a foreign thread has two steps: the body, which reads and writes `state_`, and the
`push_back` of the functor it binds (`inHand` between the two).

`shutdown` leaves `kDisconnected` behind, where `sendInLoop` gives messages up and `handleWrite`
does not call `shutdownInLoop`.  So the shutdown is graceful in the runs where nothing is queued
when the state is set and nothing waits in the output buffer when `shutdownInLoop` runs
(`graceful_of_meets`), and not in others (`queued_send_lost`).
-/

namespace Muduo
namespace Net
namespace GracefulShutdown

open Effect TcpConnection

/-! ## Sessions -/

structure Session where
  conn : TcpConnection
  /-- Whether the caller is the loop thread. -/
  inLoop : Bool
  /-- The output that waited when the calls began. -/
  before : List UInt8
  /-- The arguments of the calls of `send`, and those of the calls not made yet. -/
  messages : List (List UInt8)
  unsent : List (List UInt8)
  shutdownCalled : Bool
  /-- What a foreign caller has bound and not yet pushed. -/
  inHand : List LoopFunctor
  /-- `pendingFunctors_` of the loop. -/
  pending : List LoopFunctor
  log : List Effect

namespace Session

def start (conn : TcpConnection) (inLoop : Bool) (messages : List (List UInt8)) : Session where
  conn := conn
  inLoop := inLoop
  before := conn.outputBuffer.content
  messages := messages
  unsent := messages
  shutdownCalled := false
  inHand := []
  pending := []
  log := []

/-- The loop thread has run a function of the connection. -/
def loopDid (s : Session) (r : Result) : Session :=
  { s with conn := r.1, pending := s.pending ++ queued r.2, log := s.log ++ r.2 }

/-- A foreign thread has run the body of a call. -/
def foreignDid (s : Session) (r : Result) : Session :=
  { s with conn := r.1, inHand := queued r.2, log := s.log ++ r.2 }

def callerDid (s : Session) (r : Result) : Session :=
  if s.inLoop then s.loopDid r else s.foreignDid r

end Session

inductive Act
  | send (w : WriteResult)
  | shutdown
  | push
  | runFunctor (w : WriteResult)
  | handleWrite (w : WriteResult)
  deriving DecidableEq, Repr

def next (s : Session) : Act → Session
  | .send w =>
      match s.unsent with
      | message :: rest => { s with unsent := rest }.callerDid (s.conn.send s.inLoop message w)
      | [] => s
  | .shutdown => { s with shutdownCalled := true }.callerDid (s.conn.shutdown s.inLoop)
  | .push => { s with inHand := [], pending := s.pending ++ s.inHand }
  | .runFunctor w =>
      match s.pending with
      | cb :: rest => { s with pending := rest }.loopDid (s.conn.runFunctor cb w)
      | [] => s
  | .handleWrite w => s.loopDid (s.conn.handleWrite w)

/-- No `::write` fails because the peer is gone. -/
def NoError : WriteResult → Prop
  | .accept _ => True
  | .fail errno => errno.isFault = false

def Enabled (s : Session) : Act → Prop
  | .send w => s.inHand = [] ∧ s.unsent ≠ [] ∧ NoError w
  | .shutdown => s.inHand = [] ∧ s.unsent = [] ∧ s.shutdownCalled = false
  | .push => s.inHand ≠ []
  | .runFunctor w => s.pending ≠ [] ∧ NoError w
  | .handleWrite w => NoError w

instance (w : WriteResult) : Decidable (NoError w) :=
  match w with
  | .accept _ => isTrue trivial
  | .fail errno => inferInstanceAs (Decidable (errno.isFault = false))

instance (s : Session) (a : Act) : Decidable (Enabled s a) :=
  match a with
  | .send _ => inferInstanceAs (Decidable (_ ∧ _ ∧ _))
  | .shutdown => inferInstanceAs (Decidable (_ ∧ _ ∧ _))
  | .push => inferInstanceAs (Decidable (_ ≠ _))
  | .runFunctor _ => inferInstanceAs (Decidable (_ ∧ _))
  | .handleWrite w => inferInstanceAs (Decidable (NoError w))

/-- A session starts on a connected connection whose output is in order. -/
def Starts (s : Session) : Prop :=
  ∃ conn inLoop messages, conn.state = .kConnected ∧ conn.WritesPending ∧
    s = Session.start conn inLoop messages

def system : StepSystem Session Act :=
  StepSystem.ofNext Starts Enabled next

/-! ## What graceful means -/

/-- The bytes that the calls are to deliver, behind what waited before. -/
def Session.due (s : Session) : List UInt8 :=
  s.before ++ s.messages.flatten

structure Graceful (s : Session) : Prop where
  /-- No byte is dropped: each is accepted, waits, or is still on its way to the loop. -/
  kept : written s.log ++ s.conn.outputBuffer.content ++ sendBytes s.pending ++
    sendBytes s.inHand ++ s.unsent.flatten = s.due
  notEarly : .shutdownWrite ∈ s.log → written s.log = s.due
  called : s.shutdownCalled = true → s.inHand = [] →
    (∀ cb ∈ s.pending, cb ≠ .shutdownInLoop ∧ ∀ message, cb ≠ .sendInLoop message) →
    s.conn.outputBuffer.content = [] → .shutdownWrite ∈ s.log

/-- The condition on each step: `shutdown` finds no message in the queue, and `shutdownInLoop`
finds no output waiting. -/
def Meets (s : Session) : Act → Prop
  | .shutdown => sendBytes s.pending = [] ∧ (s.inLoop = true → s.conn.isWriting = false)
  | .runFunctor _ => s.pending.head? = some .shutdownInLoop → s.conn.isWriting = false
  | _ => True

instance (s : Session) (a : Act) : Decidable (Meets s a) :=
  match a with
  | .send _ => isTrue trivial
  | .shutdown => inferInstanceAs (Decidable (_ ∧ (_ → _)))
  | .push => isTrue trivial
  | .runFunctor _ => inferInstanceAs (Decidable (_ → _))
  | .handleWrite _ => isTrue trivial

/-! ## The invariant -/

/-- The functors that occur in a session. -/
def isSessionFunctor : LoopFunctor → Bool
  | .forceCloseInLoop => false
  | .startReadInLoop => false
  | _ => true

/-- `extra` are bytes taken from the queue or from the caller and not yet handed to
`sendInLoop`. -/
structure InvWith (extra : List UInt8) (s : Session) : Prop where
  output : s.conn.WritesPending
  functors : ∀ cb ∈ s.inHand ++ s.pending, isSessionFunctor cb = true
  /-- The loop thread does not queue its own messages. -/
  direct : s.inLoop = true → sendBytes s.pending = [] ∧ s.inHand = []
  calling : s.shutdownCalled = false →
    s.conn.state = .kConnected ∧ .shutdownWrite ∉ s.log ∧
      .shutdownInLoop ∉ s.inHand ∧ .shutdownInLoop ∉ s.pending
  closing : s.shutdownCalled = true →
    s.conn.state = .kDisconnected ∧ s.unsent = [] ∧ extra = [] ∧
      sendBytes s.pending = [] ∧ sendBytes s.inHand = [] ∧
      (.shutdownWrite ∈ s.log ∨ .shutdownInLoop ∈ s.inHand ∨ .shutdownInLoop ∈ s.pending)
  drained : .shutdownWrite ∈ s.log → s.conn.outputBuffer.content = []
  kept : written s.log ++ s.conn.outputBuffer.content ++ extra ++ sendBytes s.pending ++
    sendBytes s.inHand ++ s.unsent.flatten = s.due

variable {s : Session} {r : Result} {extra : List UInt8}

theorem InvWith.graceful (h : InvWith [] s) : Graceful s := by
  refine ⟨by simpa using h.kept, ?_, ?_⟩
  · intro hsent
    have hcalled : s.shutdownCalled = true := by
      by_contra hno
      exact (h.calling (by simpa using hno)).2.1 hsent
    rcases h.closing hcalled with ⟨_, hunsent, _, hpending, hhand, _⟩
    simpa [h.drained hsent, hpending, hhand, hunsent] using h.kept
  · intro hcalled hhand hran _
    rcases (h.closing hcalled).2.2.2.2.2 with hsent | hin | hin
    · exact hsent
    · simp [hhand] at hin
    · exact absurd rfl (hran _ hin).1

theorem start_inv (hs : Starts s) : InvWith [] s := by
  rcases hs with ⟨conn, inLoop, messages, hstate, hpending, rfl⟩
  constructor
  case output => exact hpending
  case kept => simp [Session.start, Session.due, written, sendBytes]
  all_goals simp [Session.start, sendBytes, hstate]

/-- A function of the output path takes the bytes in transit. -/
theorem InvWith.loopDid (h : InvWith extra s) (hout : ∀ e ∈ r.2, e.isOutput = true)
    (hstate : r.1.state = s.conn.state) (hpending : r.1.WritesPending)
    (hstream : written r.2 ++ r.1.outputBuffer.content = s.conn.outputBuffer.content ++ extra) :
    InvWith [] (s.loopDid r) := by
  have hsend : sendBytes (s.pending ++ queued r.2) = sendBytes s.pending := by
    rw [sendBytes_append, sendBytes_queued hout, List.append_nil]
  have hlog : .shutdownWrite ∈ s.log ++ r.2 ↔ .shutdownWrite ∈ s.log := by
    rw [List.mem_append, or_iff_left]
    intro hmem
    simpa [isOutput] using hout _ hmem
  have hqueue : ∀ cb ∈ queued r.2, isSessionFunctor cb = true ∧ cb ≠ .shutdownInLoop := by
    intro cb hcb
    have hcb := hout _ (mem_queued.mp hcb)
    cases cb <;> simp_all [isOutput, isSessionFunctor]
  -- The output path queues notifications of the user and calls no `shutdownWrite`, so only the
  -- bytes move.
  refine ⟨hpending, ?_, ?_, ?_, ?_, ?_, ?_⟩
  · intro cb hcb
    simp only [Session.loopDid, List.mem_append] at hcb
    rcases hcb with hcb | hcb | hcb
    · exact h.functors cb (List.mem_append_left _ hcb)
    · exact h.functors cb (List.mem_append_right _ hcb)
    · exact (hqueue cb hcb).1
  · intro hloop
    simpa [Session.loopDid, hsend] using h.direct hloop
  · intro hcalled
    rcases h.calling hcalled with ⟨hst, hnot, hhand, hpend⟩
    refine ⟨hstate.trans hst, ?_, hhand, ?_⟩
    · exact fun hin => hnot (hlog.mp hin)
    · intro hin
      rcases List.mem_append.mp hin with hin | hin
      · exact hpend hin
      · exact (hqueue _ hin).2 rfl
  · intro hcalled
    rcases h.closing hcalled with ⟨hst, hunsent, hextra, hpend, hhand, hwhere⟩
    refine ⟨hstate.trans hst, hunsent, rfl, by simpa [Session.loopDid, hsend] using hpend, hhand, ?_⟩
    rcases hwhere with hin | hin | hin
    · exact Or.inl (hlog.mpr hin)
    · exact Or.inr (Or.inl hin)
    · exact Or.inr (Or.inr (List.mem_append_left _ hin))
  · intro hin
    have hsent := hlog.mp hin
    -- `shutdownWrite` was called, so the shutdown has begun and nothing is in transit.
    have hextra : extra = [] := by
      by_contra hne
      cases hcalled : s.shutdownCalled with
      | false => exact (h.calling hcalled).2.1 hsent
      | true => exact hne (h.closing hcalled).2.2.1
    rw [h.drained hsent, hextra] at hstream
    exact (List.append_eq_nil_iff.mp hstream).2
  · have hkept := h.kept
    simp only [Session.loopDid, Session.due, written_append, hsend, List.append_nil] at hkept ⊢
    rw [← hkept, List.append_assoc (written s.log), hstream]
    simp [List.append_assoc]

/-! ## Steps -/

theorem not_drops (c : TcpConnection) {w : WriteResult} (hw : NoError w) : c.drops w = false := by
  cases w with
  | accept n => simp [drops]
  | fail errno => simp [drops, show errno.isFault = false from hw]

/-- `sendInLoop` on a message in transit: before the shutdown it goes to the kernel or the
buffer; after it only empty messages are left, and giving them up loses nothing. -/
theorem InvWith.sendInLoop {message : List UInt8} (h : InvWith message s) {w : WriteResult}
    (hw : NoError w) : InvWith [] (s.loopDid (s.conn.sendInLoop message w)) := by
  cases hcalled : s.shutdownCalled with
  | false =>
      have hstate : s.conn.state ≠ .kDisconnected := by
        simp [(h.calling hcalled).1]
      rcases sendInLoop_stream hstate h.output message w with ⟨hpending, hstream⟩
      refine h.loopDid (sendInLoop_isOutput _ _ _) (sendInLoop_state _ _ _) hpending ?_
      simpa [not_drops s.conn hw] using hstream
  | true =>
      rcases h.closing hcalled with ⟨hstate, _, hmessage, _⟩
      have hskip : s.conn.sendInLoop message w = (s.conn, []) := by
        simp [TcpConnection.sendInLoop, hstate]
      rw [hskip]
      refine h.loopDid (by simp) rfl h.output ?_
      simp [written, hmessage]

theorem InvWith.send (h : InvWith [] s) {w : WriteResult} (hw : NoError w)
    (hhand : s.inHand = []) {message : List UInt8} {rest : List (List UInt8)}
    (hunsent : s.unsent = message :: rest) :
    InvWith [] (Session.callerDid { s with unsent := rest } (s.conn.send s.inLoop message w)) := by
  have hcalled : s.shutdownCalled = false := by
    by_contra hno
    have hnone := (h.closing (by simpa using hno)).2.1
    simp [hunsent] at hnone
  rcases h.calling hcalled with ⟨hstate, hnot, _, hpend⟩
  have hkept := h.kept
  simp only [hunsent, hhand, sendBytes, List.append_nil, List.flatten_cons] at hkept
  cases hloop : s.inLoop with
  | true =>
      -- Inline: no message is queued before this one.
      have hdirect := (h.direct hloop).1
      have htransit : InvWith message { s with unsent := rest } := by
        refine ⟨h.output, h.functors, h.direct, h.calling, ?_, h.drained, ?_⟩
        · intro hc
          rw [hcalled] at hc
          cases hc
        · simpa [hdirect, hhand, sendBytes, Session.due] using hkept
      simpa [Session.callerDid, hloop, TcpConnection.send, hstate] using htransit.sendInLoop hw
  | false =>
      -- The message goes behind those in the queue, which were sent before it.
      have hsend : s.conn.send false message w =
          (s.conn, [.queueInLoop (.sendInLoop message)]) := by
        simp [TcpConnection.send, hstate]
      rw [hsend]
      simp only [Session.callerDid, Session.foreignDid, queued, Bool.false_eq_true, if_false]
      refine ⟨h.output, ?_, by simp, ?_, by simp [hcalled], ?_, ?_⟩
      · intro cb hcb
        rcases List.mem_append.mp hcb with hin | hin
        · rw [List.mem_singleton.mp hin]
          rfl
        · exact h.functors cb (List.mem_append_right _ hin)
      · intro _
        simpa [hnot, hpend] using hstate
      · intro hin
        simp [hnot] at hin
      · simpa [written_append, written, sendBytes, Session.due] using hkept

/-- Where the channel does not wait for writability, no output waits. -/
theorem content_of_not_writing {c : TcpConnection} (h : c.WritesPending)
    (hidle : c.isWriting = false) : c.outputBuffer.content = [] := by
  by_contra hne
  have hwriting := h.mpr hne
  rw [hidle] at hwriting
  cases hwriting

theorem InvWith.shutdown (h : InvWith [] s) (hhand : s.inHand = []) (hunsent : s.unsent = [])
    (hcalled : s.shutdownCalled = false) (hqueue : sendBytes s.pending = [])
    (hidle : s.inLoop = true → s.conn.isWriting = false) :
    InvWith [] (Session.callerDid { s with shutdownCalled := true }
      (s.conn.shutdown s.inLoop)) := by
  rcases h.calling hcalled with ⟨hstate, hnot, _, hpend⟩
  have hkept := h.kept
  cases hloop : s.inLoop with
  | true =>
      -- `shutdownInLoop` runs at once and finds an empty output buffer.
      have hwriting : (s.conn.setState .kDisconnected).isWriting = false := hidle hloop
      have hempty := content_of_not_writing h.output (hidle hloop)
      have hshut : s.conn.shutdown true =
          (s.conn.setState .kDisconnected, [.shutdownWrite]) := by
        simp [TcpConnection.shutdown, hstate, shutdownInLoop_of_not_writing hwriting]
      rw [hshut]
      simp only [Session.callerDid, Session.loopDid, queued, List.append_nil, if_true]
      refine ⟨h.output, h.functors, fun _ => h.direct hloop, by simp, ?_, ?_, ?_⟩
      · simp [setState, hunsent, hqueue, hhand, sendBytes]
      · simp [setState, hempty]
      · simpa [written_append, written, setState, Session.due] using hkept
  | false =>
      -- From here on `sendInLoop` gives messages up, so none may be left in the queue.
      have hshut : s.conn.shutdown false =
          (s.conn.setState .kDisconnected, [.queueInLoop .shutdownInLoop]) := by
        simp [TcpConnection.shutdown, hstate]
      rw [hshut]
      simp only [Session.callerDid, Session.foreignDid, queued, Bool.false_eq_true, if_false]
      refine ⟨h.output, ?_, by simp, by simp, ?_, ?_, ?_⟩
      · intro cb hcb
        rcases List.mem_append.mp hcb with hin | hin
        · rw [List.mem_singleton.mp hin]
          rfl
        · exact h.functors cb (List.mem_append_right _ hin)
      · simp [setState, hunsent, hqueue, sendBytes]
      · intro hin
        simp [hnot] at hin
      · simpa [written_append, written, setState, Session.due, sendBytes, hhand] using hkept

theorem InvWith.push (h : InvWith [] s) :
    InvWith [] { s with inHand := [], pending := s.pending ++ s.inHand } := by
  refine ⟨h.output, ?_, ?_, ?_, ?_, h.drained, ?_⟩
  · intro cb hcb
    refine h.functors cb ?_
    simpa [or_comm] using hcb
  · intro hloop
    simpa [sendBytes_append, sendBytes, (h.direct hloop).2] using (h.direct hloop).1
  · intro hcalled
    rcases h.calling hcalled with ⟨hstate, hnot, hhand, hpend⟩
    exact ⟨hstate, hnot, by simp, by simp [hhand, hpend]⟩
  · intro hcalled
    rcases h.closing hcalled with ⟨hstate, hunsent, hextra, hpend, hhand, hwhere⟩
    refine ⟨hstate, hunsent, hextra, by simp [sendBytes_append, hpend, hhand], rfl, ?_⟩
    simpa [or_comm, or_left_comm] using hwhere
  · simpa [sendBytes_append, sendBytes, Session.due] using h.kept

theorem InvWith.functors_tail (h : InvWith extra s) {cb : LoopFunctor} {rest : List LoopFunctor}
    (hpending : s.pending = cb :: rest) : ∀ cb ∈ s.inHand ++ rest, isSessionFunctor cb = true := by
  intro cb' hcb'
  apply h.functors
  rw [hpending]
  rcases List.mem_append.mp hcb' with hin | hin
  · exact List.mem_append_left _ hin
  · exact List.mem_append_right _ (List.mem_cons_of_mem _ hin)

/-- Taking a functor other than `shutdownInLoop` out of the queue puts its bytes in transit. -/
theorem InvWith.take (h : InvWith [] s) {cb : LoopFunctor} {rest : List LoopFunctor}
    (hpending : s.pending = cb :: rest) (hne : cb ≠ .shutdownInLoop) :
    InvWith (sendBytes [cb]) { s with pending := rest } := by
  have hsplit : sendBytes s.pending = sendBytes [cb] ++ sendBytes rest := by
    rw [hpending, ← sendBytes_append]
    rfl
  refine ⟨h.output, h.functors_tail hpending, ?_, ?_, ?_, h.drained, ?_⟩
  · intro hloop
    rcases h.direct hloop with ⟨hnone, hhand⟩
    rw [hsplit] at hnone
    exact ⟨(List.append_eq_nil_iff.mp hnone).2, hhand⟩
  · intro hcalled
    rcases h.calling hcalled with ⟨hstate, hnot, hhand, hpend⟩
    refine ⟨hstate, hnot, hhand, ?_⟩
    simp only [hpending, List.mem_cons, not_or] at hpend
    exact hpend.2
  · -- After the shutdown the queue holds empty messages only.
    intro hcalled
    rcases h.closing hcalled with ⟨hstate, hunsent, _, hpend, hhand, hwhere⟩
    rw [hsplit] at hpend
    rcases List.append_eq_nil_iff.mp hpend with ⟨hcb, hnil⟩
    refine ⟨hstate, hunsent, hcb, hnil, hhand, ?_⟩
    rw [hpending, List.mem_cons] at hwhere
    simpa [Ne.symm hne] using hwhere
  · have hkept := h.kept
    rw [hsplit] at hkept
    simpa [Session.due] using hkept

/-- The queued `shutdownInLoop` runs, and finds no output waiting. -/
theorem InvWith.shutdownInLoop (h : InvWith [] s) {rest : List LoopFunctor}
    (hpending : s.pending = .shutdownInLoop :: rest) (hidle : s.conn.isWriting = false) :
    InvWith [] (Session.loopDid { s with pending := rest } s.conn.shutdownInLoop) := by
  -- The functor is only queued by `shutdown`.
  have hcalled : s.shutdownCalled = true := by
    by_contra hno
    have hnot := (h.calling (by simpa using hno)).2.2.2
    simp [hpending] at hnot
  rcases h.closing hcalled with ⟨hstate, hunsent, _, hpend, hhand, _⟩
  have hnone : sendBytes rest = [] := by
    simpa [hpending, sendBytes] using hpend
  have hempty := content_of_not_writing h.output hidle
  have hkept := h.kept
  rw [shutdownInLoop_of_not_writing hidle]
  simp only [Session.loopDid, queued, List.append_nil]
  refine ⟨h.output, h.functors_tail hpending, ?_, by simp [hcalled], ?_, fun _ => hempty, ?_⟩
  · intro hloop
    exact ⟨hnone, (h.direct hloop).2⟩
  · intro _
    exact ⟨hstate, hunsent, rfl, hnone, hhand, by simp⟩
  · simpa [written_append, written, Session.due, hpending, sendBytes] using hkept

theorem InvWith.runFunctor (h : InvWith [] s) {w : WriteResult} (hw : NoError w)
    {cb : LoopFunctor} {rest : List LoopFunctor} (hpending : s.pending = cb :: rest)
    (hidle : cb = .shutdownInLoop → s.conn.isWriting = false) :
    InvWith [] (Session.loopDid { s with pending := rest } (s.conn.runFunctor cb w)) := by
  have hown := h.functors cb (by simp [hpending])
  cases cb with
  | sendInLoop message =>
      have htransit := h.take hpending (by simp)
      simp only [sendBytes, List.append_nil] at htransit
      exact htransit.sendInLoop hw
  | shutdownInLoop => exact h.shutdownInLoop hpending (hidle rfl)
  | writeCompleteCallback =>
      refine (h.take hpending (by simp)).loopDid ?_ rfl h.output ?_
      · simp [TcpConnection.runFunctor]
      · simp [TcpConnection.runFunctor, written, sendBytes]
  | highWaterMarkCallback n =>
      refine (h.take hpending (by simp)).loopDid ?_ rfl h.output ?_
      · simp [TcpConnection.runFunctor]
      · simp [TcpConnection.runFunctor, written, sendBytes]
  | forceCloseInLoop => simp [isSessionFunctor] at hown
  | startReadInLoop => simp [isSessionFunctor] at hown

theorem InvWith.handleWrite (h : InvWith [] s) (w : WriteResult) :
    InvWith [] (s.loopDid (s.conn.handleWrite w)) := by
  -- `kDisconnecting` does not occur, so `handleWrite` never calls `shutdownInLoop` here.
  have hstate : s.conn.state ≠ .kDisconnecting := by
    cases hcalled : s.shutdownCalled with
    | false => simp [(h.calling hcalled).1]
    | true => simp [(h.closing hcalled).1]
  rcases handleWrite_stream h.output w with ⟨hpending, hstream⟩
  refine h.loopDid (handleWrite_isOutput hstate w) (handleWrite_state _ _) hpending ?_
  simpa using hstream

theorem step_inv (h : InvWith [] s) {a : Act} (hmeets : Meets s a) (hen : Enabled s a) :
    InvWith [] (next s a) := by
  cases a with
  | send w =>
      rcases hen with ⟨hhand, hne, hw⟩
      cases hunsent : s.unsent with
      | nil => exact absurd hunsent hne
      | cons message rest =>
          simpa only [next, hunsent] using h.send hw hhand hunsent
  | shutdown =>
      rcases hen with ⟨hhand, hunsent, hcalled⟩
      exact h.shutdown hhand hunsent hcalled hmeets.1 hmeets.2
  | push => exact h.push
  | runFunctor w =>
      rcases hen with ⟨hne, hw⟩
      cases hpending : s.pending with
      | nil => exact absurd hpending hne
      | cons cb rest =>
          have hidle : cb = .shutdownInLoop → s.conn.isWriting = false := by
            intro hcb
            exact hmeets (by simp [hpending, hcb])
          simpa only [next, hpending] using h.runFunctor hw hpending hidle
  | handleWrite w => exact h.handleWrite w

/-- In every run whose `shutdown` finds no queued message and whose `shutdownInLoop` finds no
waiting output, the shutdown is graceful in every state. -/
theorem graceful_of_meets (hs : (system.restrict Meets).Reachable s) : Graceful s := by
  have hinv : InvWith [] s := by
    refine hs.invariant start_inv ?_
    rintro s a t h ⟨hmeets, hen, rfl⟩
    exact step_inv h hmeets hen
  exact hinv.graceful

/-- A new connection. -/
def fresh : TcpConnection :=
  established 7 1024 true true

theorem fresh_starts (inLoop : Bool) (messages : List (List UInt8)) :
    Starts (Session.start fresh inLoop messages) :=
  ⟨fresh, inLoop, messages, rfl, (established_open 7 1024 true true).pending, rfl⟩

/-- A foreign thread sends two messages; the first is written in part, the second waits behind
it, and the shutdown comes after both have left the queue. -/
def cleanRun : List Act :=
  [.send (.accept 0), .push, .send (.accept 0), .push, .runFunctor (.accept 1),
    .runFunctor (.accept 1), .handleWrite (.accept 5), .shutdown, .push, .runFunctor (.accept 0),
    .runFunctor (.accept 0)]

def cleanState : Session :=
  cleanRun.foldl next (Session.start fresh false [[1, 2], [3]])

theorem graceful_of_meets_clean :
    (system.restrict Meets).Reachable cleanState ∧ Graceful cleanState := by
  have hrun : (system.restrict Meets).Run (Session.start fresh false [[1, 2], [3]]) cleanRun
      cleanState := by
    rw [system, StepSystem.restrict_ofNext]
    exact StepSystem.run_foldl (by decide +kernel)
  have hs : (system.restrict Meets).Reachable cleanState :=
    hrun.reachable (StepSystem.Reachable.init (fresh_starts _ _))
  exact ⟨hs, graceful_of_meets hs⟩

/-- A foreign thread sends one byte and shuts down before the loop runs the functors. -/
def lostRun : List Act :=
  [.send (.accept 0), .push, .shutdown, .push, .runFunctor (.accept 1), .runFunctor (.accept 1)]

def lostState : Session :=
  lostRun.foldl next (Session.start fresh false [[1]])

/-- The byte is given up, although no error occurred. -/
theorem queued_send_lost : system.Reachable lostState ∧ ¬ Graceful lostState := by
  have hrun : system.Run (Session.start fresh false [[1]]) lostRun lostState :=
    StepSystem.run_foldl (by decide)
  refine ⟨hrun.reachable (StepSystem.Reachable.init (fresh_starts _ _)), ?_⟩
  intro h
  have hwire : written lostState.log = lostState.due := h.notEarly (by decide)
  revert hwire
  decide

end GracefulShutdown
end Net
end Muduo
