import Muduo.Net.ConnectionUse

/-!
# ConnectionClosing — forced closes and the tear-down of a connection

* `forceClose` leaves `kDisconnecting` behind and `forceCloseInLoop` acts on `kConnected` and
  `kDisconnected` only: so the functor does nothing, or it closes a connection that something else
  has closed before (`forceClose_never_closes`).
* `connectDestroyed` clears the interest in `kConnected` only.  `tear_down_iff_cleared` says for
  which histories `channel_->remove()` still finds none.
-/

namespace Muduo
namespace Net
namespace ConnectionUse

open Effect TcpConnection

variable {s t u : Use} {as : List Act}

/-! ## Forced closes -/

/-- The connection is closed, once. -/
def ForceClosed (s : Use) : Prop :=
  s.conn.state = .kDisconnected ∧ s.conn.channel.isNoneEvent = true ∧
    s.log.count .closeCallback = 1

/-- What holds from a call of `forceClose` on. -/
def Forced (s : Use) : Prop :=
  s.conn.state = .kDisconnecting ∨
    s.conn.state = .kDisconnected ∧ 1 ≤ s.log.count .closeCallback

theorem startReadInLoop_state (c : TcpConnection) : c.startReadInLoop.state = c.state := by
  simp only [TcpConnection.startReadInLoop]
  split <;> rfl

theorem step_forced (h : Forced s) (a : Act) : Forced (next s a) := by
  rcases next_moves s a with ⟨r, moments, hmoves, hconn, hlog, _⟩
  have hcount : s.log.count .closeCallback ≤ (s.log ++ r.2).count .closeCallback := by
    rw [List.count_append]
    exact Nat.le_add_right _ _
  have hnot : s.conn.state ≠ .kConnected := by
    rcases h with hstate | ⟨hstate, _⟩ <;> simp [hstate]
  -- Unless the connection is closed, its state stays.
  have hsame : r.1.state = s.conn.state → Forced (next s a) := by
    intro hstate
    refine h.imp ?_ ?_
    · intro hs
      rw [hconn, hstate, hs]
    · rintro ⟨hs, hone⟩
      exact ⟨by rw [hconn, hstate, hs], by rw [hlog]; exact le_trans hone hcount⟩
  cases hmoves with
  | keep hkeeps => exact hsame hkeeps.state
  | ask hasks => exact hsame (hasks.other hnot)
  | close =>
      refine Or.inr ⟨by rw [hconn]; rfl, ?_⟩
      rw [hlog, List.count_append]
      simp [TcpConnection.handleClose]
  | read => exact hsame (startReadInLoop_state s.conn)
  | destroy =>
      refine hsame ?_
      simp [destroyBegin, hnot]

/-- A call of `forceClose`, by a thread or by the timer of `forceCloseWithDelay`. -/
def IsForceClose (a : Act) : Prop :=
  a = .call true .forceClose ∨ a = .call false .forceClose ∨ a = .delayElapsed

theorem forced_of_forceClose {a : Act} (ha : IsForceClose a)
    (hstate : s.conn.state = .kConnected ∨ s.conn.state = .kDisconnecting) :
    Forced (next s a) := by
  have hconn : s.conn.forceClose.1.state = .kDisconnecting := by
    simp [TcpConnection.forceClose, hstate, setState]
  rcases ha with rfl | rfl | rfl
  · refine Or.inl ?_
    simpa [next, Use.did, Use.mark, UserCall.run] using hconn
  · exact Or.inl hconn
  · exact Or.inl hconn

/-- The functor that `forceClose` queues never closes the connection: whatever happens between
the call and the functor, the connection is then not closed, or closed more than once. -/
theorem forceClose_never_closes {v : Use} {a : Act} {job : Job} {rest : List Job} {w : WriteResult}
    (hstate : s.conn.state = .kConnected ∨ s.conn.state = .kDisconnecting)
    (ha : IsForceClose a) (hcall : system.step s a t) (hrun : system.Run t as u)
    (hjob : u.pending = job :: rest) (hfunctor : job.functor = .forceCloseInLoop)
    (hstep : system.step u (.runFunctor w) v) : ¬ ForceClosed v := by
  have hforced : Forced u := by
    refine hrun.preserves (P := Forced) ?_ ?_
    · rintro s a t h ⟨_, rfl⟩
      exact step_forced h a
    · rcases hcall with ⟨_, rfl⟩
      exact forced_of_forceClose ha hstate
  rcases hstep with ⟨_, rfl⟩
  have hconn : (next u (.runFunctor w)).conn = u.conn.forceCloseInLoop.1 := by
    simp only [next, hjob, hfunctor]
    split <;> simp [Use.did, Use.mark, TcpConnection.runFunctor]
  have hlog : (next u (.runFunctor w)).log = u.log ++ u.conn.forceCloseInLoop.2 := by
    simp only [next, hjob, hfunctor]
    split <;> simp [Use.did, Use.mark, TcpConnection.runFunctor]
  rintro ⟨hdown, _, honce⟩
  rcases hforced with hing | ⟨hclosed, hone⟩
  · -- The functor finds the state that `forceClose` has set, and does nothing.
    rw [hconn] at hdown
    simp [TcpConnection.forceCloseInLoop, hing] at hdown
  · -- It closes a closed connection.
    rw [hlog, List.count_append] at honce
    simp [TcpConnection.forceCloseInLoop, hclosed, TcpConnection.handleClose] at honce
    omega

/-- The state after the actions `as` on a new connection. -/
def after (as : List Act) : Use :=
  as.foldl next (Use.start 7 1024 false false)

/-- The peer closes between the call of `forceClose` and its functor. -/
def overtakenRun : List Act :=
  [.call false .forceClose, .push 0, .dispatch EPOLLIN, .callback (.bytes []) (.accept 0),
    .runFunctor (.accept 0)]

theorem forceClose_never_closes_overtaken :
    (after overtakenRun).log.count .closeCallback = 2 ∧ ¬ ForceClosed (after overtakenRun) := by
  have hrun : system.Run (after (overtakenRun.take 1)) ((overtakenRun.take 4).drop 1)
      (after (overtakenRun.take 4)) := StepSystem.run_foldl (by decide +kernel)
  have hpending : (after (overtakenRun.take 4)).pending =
      [⟨.forceCloseInLoop, some .forceClose⟩] := by rfl
  refine ⟨by decide +kernel, ?_⟩
  exact forceClose_never_closes (s := after []) (Or.inl rfl) (Or.inr (Or.inl rfl))
    ⟨trivial, rfl⟩ hrun hpending rfl (w := .accept 0) ⟨by decide +kernel, rfl⟩

/-- The user forces the close of a connected connection. -/
def forcedRun : List Act :=
  [.call true .forceClose, .runFunctor (.accept 0)]

/-- The functor has run, and the connection is still up. -/
theorem forceClose_without_close :
    system.Run (after []) forcedRun (after forcedRun) ∧ (after forcedRun).pending = [] ∧
      (after forcedRun).conn.state = .kDisconnecting ∧ ¬ ForceClosed (after forcedRun) := by
  refine ⟨StepSystem.run_foldl (by decide +kernel), by rfl, by rfl, ?_⟩
  rintro ⟨hdown, _⟩
  revert hdown
  decide +kernel

/-! ## Tear-down -/

/-- The history, newest moment first, has left the channel without interest: a close with no
`startReadInLoop` since, or a `connectDestroyed` before any close or request to close. -/
def Cleared : List Moment → Prop
  | [] => False
  | .closed :: _ => True
  | .read :: _ => False
  | .asked :: past => Cleared past
  | .destroying :: past => (∀ m ∈ past, m = .read) ∨ Cleared past

structure TearDown (s : Use) : Prop where
  connected : s.conn.state = .kConnected ↔ ∀ m ∈ s.trace, m = .read
  cleared : Cleared s.trace → s.conn.state = .kDisconnected ∧ s.conn.channel.isNoneEvent = true
  uncleared : ¬ Cleared s.trace → s.conn.channel.events.isReading = true

theorem startReadInLoop_isReading (c : TcpConnection) :
    c.startReadInLoop.channel.events.isReading = true := by
  simp only [TcpConnection.startReadInLoop]
  split
  · exact isReading_edit .enableReading _
  · -- Nothing is done when the channel reads already.
    simp_all

theorem start_tearDown (hs : Starts s) : TearDown s := by
  rcases hs with ⟨sockfd, highWaterMark, writeComplete, highWater, rfl⟩
  refine ⟨?_, ?_, ?_⟩
  · simp [Use.start, established, connectEstablished, setInterest, setState]
  · intro h
    cases h
  · intro _
    exact isReading_edit .enableReading _

/-- A moment other than `startReadInLoop` says that the connection has left `kConnected`. -/
theorem left_of_moment {m : Moment} (hm : m ≠ .read) (past : List Moment) :
    ¬ ∀ m' ∈ m :: past, m' = .read := by
  intro hall
  exact hm (hall m List.mem_cons_self)

theorem TearDown.keep (h : TearDown s) (hkeeps : Keeps s.conn t.conn) (htrace : t.trace = s.trace) :
    TearDown t := by
  refine ⟨?_, ?_, ?_⟩
  · rw [htrace, hkeeps.state]
    exact h.connected
  · rw [htrace, hkeeps.state]
    intro hcleared
    rcases h.cleared hcleared with ⟨hdown, hnone⟩
    exact ⟨hdown, hkeeps.none hdown hnone⟩
  · rw [htrace, hkeeps.isReading]
    exact h.uncleared

theorem TearDown.ask (h : TearDown s) (hasks : Asks s.conn t.conn)
    (htrace : t.trace = .asked :: s.trace) : TearDown t := by
  have hstate : t.conn.state ≠ .kConnected := by
    by_cases hup : s.conn.state = .kConnected
    · exact hasks.connected hup
    · rw [hasks.other hup]
      exact hup
  refine ⟨?_, ?_, ?_⟩
  · rw [htrace]
    exact iff_of_false hstate (left_of_moment (by simp) _)
  · rw [htrace, hasks.channel]
    intro hcleared
    rcases h.cleared hcleared with ⟨hdown, hnone⟩
    exact ⟨by rw [hasks.other (by simp [hdown]), hdown], hnone⟩
  · rw [htrace, hasks.channel]
    exact h.uncleared

/-- `handleClose`, and `connectDestroyed` in `kConnected`. -/
theorem tearDown_of_disabled {m : Moment} {past : List Moment} (hm : m ≠ .read)
    (hcleared : Cleared (m :: past)) (hstate : t.conn.state = .kDisconnected)
    (hnone : t.conn.channel.isNoneEvent = true) (htrace : t.trace = m :: past) : TearDown t := by
  refine ⟨?_, fun _ => ⟨hstate, hnone⟩, ?_⟩
  · rw [htrace, hstate]
    exact iff_of_false (by simp) (left_of_moment hm _)
  · rw [htrace]
    intro hno
    exact absurd hcleared hno

theorem TearDown.read (h : TearDown s) (hconn : t.conn = s.conn.startReadInLoop)
    (htrace : t.trace = .read :: s.trace) : TearDown t := by
  refine ⟨?_, ?_, ?_⟩
  · rw [hconn, htrace, startReadInLoop_state, h.connected]
    simp
  · rw [htrace]
    intro hcleared
    cases hcleared
  · intro _
    rw [hconn]
    exact startReadInLoop_isReading s.conn

theorem TearDown.destroy (h : TearDown s) (hconn : t.conn = (destroyBegin s.conn).1)
    (htrace : t.trace = .destroying :: s.trace) : TearDown t := by
  by_cases hup : s.conn.state = .kConnected
  · -- Connected: `connectDestroyed` clears the interest itself.
    have hbegin : (destroyBegin s.conn).1 =
        (s.conn.setState .kDisconnected).setInterest .disableAll := by
      simp [destroyBegin, hup]
    rw [hbegin] at hconn
    have hcleared : Cleared (.destroying :: s.trace) := Or.inl (h.connected.1 hup)
    refine tearDown_of_disabled (by simp) hcleared ?_ ?_ htrace
    · rw [hconn]
      rfl
    · rw [hconn]
      rfl
  · -- Otherwise it relies on what was done before.
    have hbegin : (destroyBegin s.conn).1 = s.conn := by
      simp [destroyBegin, hup]
    rw [hbegin] at hconn
    have hsame : Cleared (.destroying :: s.trace) ↔ Cleared s.trace :=
      or_iff_right fun hall => hup (h.connected.2 hall)
    refine ⟨?_, ?_, ?_⟩
    · rw [hconn, htrace]
      exact iff_of_false hup (left_of_moment (by simp) _)
    · rw [hconn, htrace, hsame]
      exact h.cleared
    · rw [hconn, htrace, hsame]
      exact h.uncleared

theorem step_tearDown (h : TearDown s) (a : Act) : TearDown (next s a) := by
  rcases next_moves s a with ⟨r, moments, hmoves, hconn, _, htrace⟩
  cases hmoves with
  | keep hkeeps => exact h.keep (hconn ▸ hkeeps) htrace
  | ask hasks => exact h.ask (hconn ▸ hasks) htrace
  | close =>
      refine tearDown_of_disabled (by simp) (m := .closed) trivial ?_ ?_ htrace
      · rw [hconn]
        rfl
      · rw [hconn]
        rfl
  | read => exact h.read hconn htrace
  | destroy => exact h.destroy hconn htrace

theorem reachable_tearDown (hs : system.Reachable s) : TearDown s := by
  refine hs.invariant start_tearDown ?_
  rintro s a t h ⟨_, rfl⟩
  exact step_tearDown h a

/-- `channel_->remove()` finds no interest and `connectDestroyed` returns in `kDisconnected`
exactly after the histories that have cleared the interest. -/
theorem tear_down_iff_cleared (hs : system.Reachable s) (hstep : system.step s .destroyEnd t) :
    (s.conn.channel.isNoneEvent = true ∧ t.conn.state = .kDisconnected) ↔ Cleared s.trace := by
  have h := reachable_tearDown hs
  rcases hstep with ⟨_, rfl⟩
  constructor
  · rintro ⟨hnone, _⟩
    by_contra hno
    have hsome : s.conn.channel.isNoneEvent = false := Mask.isNoneEvent_of_has (h.uncleared hno)
    rw [hnone] at hsome
    cases hsome
  · intro hcleared
    exact ⟨(h.cleared hcleared).2, (h.cleared hcleared).1⟩

/-- A foreign thread shuts down, and the peer closes before the functor of the call has run. -/
def tearDownRun : List Act :=
  [.call false .shutdown, .push 0, .dispatch EPOLLIN, .callback (.bytes []) (.accept 0),
    .runFunctor (.accept 0), .destroyBegin]

theorem tear_down_iff_cleared_peerClose :
    (after tearDownRun).conn.channel.isNoneEvent = true ∧
      (next (after tearDownRun) .destroyEnd).conn.state = .kDisconnected := by
  have hrun : system.Run (after []) tearDownRun (after tearDownRun) :=
    StepSystem.run_foldl (by decide +kernel)
  have hs : system.Reachable (after tearDownRun) :=
    hrun.reachable (StepSystem.Reachable.init ⟨7, 1024, false, false, rfl⟩)
  exact (tear_down_iff_cleared hs ⟨by decide +kernel, rfl⟩).2 (Or.inr trivial)

/-- The server goes away after the user has forced the close of a connection. -/
def interruptedRun : List Act :=
  [.call true .forceClose, .destroyBegin]

/-- The channel is removed with its interest in reading, and the connection is left in
`kDisconnecting`. -/
theorem removed_with_interest :
    system.Run (after []) interruptedRun (after interruptedRun) ∧
      system.step (after interruptedRun) .destroyEnd (next (after interruptedRun) .destroyEnd) ∧
      ¬ ((after interruptedRun).conn.channel.isNoneEvent = true ∧
        (next (after interruptedRun) .destroyEnd).conn.state = .kDisconnected) := by
  refine ⟨StepSystem.run_foldl (by decide +kernel), ⟨by decide +kernel, rfl⟩, ?_⟩
  decide +kernel

end ConnectionUse
end Net
end Muduo
