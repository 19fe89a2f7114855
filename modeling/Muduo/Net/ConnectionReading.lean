import Muduo.Net.ConnectionClosing

/-!
# ConnectionReading — switching reading on and off

`startRead` and `stopRead` both bind `startReadInLoop`, so that on a connected connection reading
is always on.  The last of these calls to be executed therefore decides about it only if it was a
`startRead` (`last_writer_wins_iff`).
-/

namespace Muduo
namespace Net
namespace ConnectionUse

open Effect TcpConnection

variable {s t : Use} {c : TcpConnection}

/-- The last of the calls of `startRead` and `stopRead` that were executed decides about reading. -/
structure LastWriterWins (s : Use) : Prop where
  agree : s.conn.reading = s.conn.channel.events.isReading
  last : s.conn.reading = true ↔ s.lastRead ≠ some .stopRead
  /-- These calls leave the interest in writing alone. -/
  writing : ∀ (call : UserCall) inLoop w, call.isReadCall = true →
    (call.run s.conn inLoop).1.isWriting = s.conn.isWriting ∧
      ∀ cb ∈ queued (call.run s.conn inLoop).2,
        (s.conn.runFunctor cb w).1.isWriting = s.conn.isWriting
  /-- With reading off, a dispatch that begins makes no `messageCallback_`. -/
  silent : s.conn.reading = false → ∀ revents, Reportable s.conn.channel.events revents →
    ∀ cb ∈ handleEventWithGuard revents, ∀ c r w data,
      .messageCallback data ∉ (TcpConnection.onEvent c cb r w).2

theorem startReadInLoop_isWriting (c : TcpConnection) :
    c.startReadInLoop.isWriting = c.isWriting := by
  simp only [TcpConnection.startReadInLoop]
  split
  · exact isWriting_edit .enableReading _
  · rfl

/-- Nothing sets `reading_` to false. -/
theorem step_reading (h : s.conn.reading = true) (a : Act) : (next s a).conn.reading = true := by
  rcases next_moves s a with ⟨r, moments, hmoves, hconn, _⟩
  rw [hconn]
  cases hmoves with
  | keep hkeeps => exact hkeeps.reading.trans h
  | ask hasks => exact hasks.reading.trans h
  | close => exact h
  | read =>
      simp only [TcpConnection.startReadInLoop]
      split
      · rfl
      · exact h
  | destroy =>
      rw [destroyBegin]
      split
      · exact h
      · exact h

theorem reachable_reading (hs : system.Reachable s) : s.conn.reading = true := by
  refine hs.invariant (I := fun s => s.conn.reading = true) ?_ ?_
  · rintro s ⟨sockfd, highWaterMark, writeComplete, highWater, rfl⟩
    rfl
  · rintro s a t h ⟨_, rfl⟩
    exact step_reading h a

theorem TearDown.isReading (h : TearDown s) (hup : s.conn.state = .kConnected) :
    s.conn.channel.events.isReading = true := by
  refine h.uncleared ?_
  intro hcleared
  rw [(h.cleared hcleared).1] at hup
  cases hup

/-- On a connected connection, `startRead` and `stopRead` are last-writer-wins exactly when the
last writer is not a `stopRead`. -/
theorem last_writer_wins_iff (hs : system.Reachable s) (hup : s.conn.state = .kConnected) :
    LastWriterWins s ↔ s.lastRead ≠ some .stopRead := by
  have hon : s.conn.reading = true := reachable_reading hs
  have hreading := (reachable_tearDown hs).isReading hup
  constructor
  · intro h
    exact h.last.1 hon
  · intro hlast
    refine ⟨hon.trans hreading.symm, iff_of_true hon hlast, ?_, ?_⟩
    · intro call inLoop w hcall
      have hkept := startReadInLoop_isWriting s.conn
      cases call with
      | startRead => cases inLoop <;> simp [UserCall.run, startRead, queued, runFunctor, hkept]
      | stopRead => cases inLoop <;> simp [UserCall.run, stopRead, queued, runFunctor, hkept]
      | _ => cases hcall
    · intro hoff
      rw [hon] at hoff
      cases hoff

/-- A foreign thread stops and the loop thread starts reading; the functor of the first call runs
before the second call is made, between two dispatches with input. -/
def switchRun : List Act :=
  [.call false .stopRead, .push 0, .dispatch EPOLLIN, .callback (.bytes [9]) (.accept 0),
    .runFunctor (.accept 0), .call true .startRead, .call true (.send [1] (.accept 0))]

theorem last_writer_wins_iff_switched : LastWriterWins (after switchRun) := by
  have hrun : system.Run (after []) switchRun (after switchRun) :=
    StepSystem.run_foldl (by decide +kernel)
  have hs : system.Reachable (after switchRun) :=
    hrun.reachable (StepSystem.Reachable.init ⟨7, 1024, false, false, rfl⟩)
  exact (last_writer_wins_iff hs (by decide +kernel)).2 (by decide +kernel)

/-- The user stops reading on the loop thread; then input arrives. -/
def stoppedRun : List Act :=
  [.call true .stopRead]

/-- Reading is still on, and the next dispatch delivers a message. -/
theorem message_after_stopRead :
    system.Run (after []) stoppedRun (after stoppedRun) ∧
      (after stoppedRun).conn.state = .kConnected ∧
      (after stoppedRun).lastRead = some .stopRead ∧ ¬ LastWriterWins (after stoppedRun) ∧
      .messageCallback [9] ∈
        (after (stoppedRun ++ [.dispatch EPOLLIN, .callback (.bytes [9]) (.accept 0)])).log := by
  refine ⟨StepSystem.run_foldl (by decide +kernel), by rfl, by rfl, ?_, by decide +kernel⟩
  intro h
  exact h.last.1 (by decide +kernel) rfl

end ConnectionUse
end Net
end Muduo
