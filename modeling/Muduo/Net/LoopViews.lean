import Muduo.Net.ActiveChannels
import Muduo.Net.EventLoop
import Muduo.Net.TcpServerTeardown

/-!
# LoopViews — what other files follow of a loop is an `EventLoop`

`EventLoop` has the whole of `loop()` and of the queue behind it.  `Teardown` follows the loops of
the pool as far as the destructor of the server depends on them, and `LoopWorld` the rounds of one
loop with the channels in it.

`Shows` says that an `EventLoop` is in the state that such a model is in: at the same place of
`loop()`, with the same `quit_` and the same functors on their way.  Each step of the model is then
a few steps of the `EventLoop`.
-/

namespace Muduo
namespace Net

/-! ## Views of an `EventLoop` -/

namespace EventLoop

variable {F : Type}

/-- The `EventLoop` is in the state that a model shows of it: `batch` is how many functors of the
queue are in the current batch.  No foreign thread is inside `queueInLoop`. -/
structure Shows (l : EventLoop F) (pc : Pc) (quit : Bool) (batch : Nat) (queue : List F) :
    Prop where
  pc : l.pc = pc
  quit : l.quit = quit
  batch : l.functors.length = batch
  queue : l.queue.map Ticket.functor = queue
  awake : l.waking = []

section Views

variable {l : EventLoop F} {pc : Pc} {quit : Bool} {batch : Nat} {queue : List F}

theorem new_shows : Shows (EventLoop.new : EventLoop F) .outside false 0 [] :=
  ⟨rfl, rfl, rfl, rfl, rfl⟩

/-- One step of the `EventLoop`. -/
theorem run_one {a : Act F} (hen : Enabled l a) : (system F).Run l [a] (l.next a) :=
  .cons ⟨hen, rfl⟩ (.nil _)

/-- The loop whose batch is over has its functors in `pendingFunctors_`. -/
theorem Shows.pending (h : Shows l pc quit 0 queue) :
    l.functors = [] ∧ l.pendingFunctors.map Ticket.functor = queue := by
  have hnone : l.functors = [] := List.length_eq_zero_iff.mp h.batch
  have hqueue := h.queue
  rw [EventLoop.queue, hnone] at hqueue
  exact ⟨hnone, hqueue⟩

/-! ### Functors -/

/-- `queueInLoop` on a foreign thread, with its `wakeup()`. -/
theorem Shows.push (h : Shows l pc quit batch queue) (cb : F) :
    ∃ as l', (system F).Run l as l' ∧ Shows l' pc quit batch (queue ++ [cb]) := by
  have hfree : Enabled l (.push 0 cb) := by
    simp [Enabled, h.awake]
  have hwakes : Enabled (l.next (.push 0 cb)) (.wakeup 0) := by
    simp [Enabled, next]
  refine ⟨_, _, (run_one hfree).append (run_one hwakes), ?_⟩
  constructor
  case pc => exact h.pc
  case quit => exact h.quit
  case batch => exact h.batch
  case queue => simp [next, pushBack, writeEventfd, EventLoop.queue, ← h.queue]
  case awake => simp [next, writeEventfd, pushBack, h.awake]

theorem Shows.pushAll (h : Shows l pc quit batch queue) (cbs : List F) :
    ∃ as l', (system F).Run l as l' ∧ Shows l' pc quit batch (queue ++ cbs) := by
  induction cbs generalizing l queue with
  | nil => exact ⟨[], l, .nil l, by simpa using h⟩
  | cons cb cbs ih =>
      obtain ⟨as, l₁, hfirst, hone⟩ := h.push cb
      obtain ⟨bs, l₂, hrest, hall⟩ := ih hone
      exact ⟨as ++ bs, l₂, hfirst.append hrest, by simpa using hall⟩

/-- `queueInLoop` on the thread of the loop. -/
theorem Shows.queueInLoop (h : Shows l pc quit batch queue) (hcode : pc.userCode = true)
    (cbs : List F) :
    ∃ as l', (system F).Run l as l' ∧ Shows l' pc quit batch (queue ++ cbs) := by
  induction cbs generalizing l queue with
  | nil => exact ⟨[], l, .nil l, by simpa using h⟩
  | cons cb cbs ih =>
      have hen : Enabled l (.queueInLoop cb) := by
        rw [Enabled, h.pc]
        exact hcode
      have hone : Shows (l.next (.queueInLoop cb)) pc quit batch (queue ++ [cb]) := by
        constructor
        case pc => rw [queueInLoop_pc, h.pc]
        case queue => simp [queueInLoop_queue, h.queue]
        -- The flag decides about the `wakeup()` only.
        case quit => rw [next]; split <;> exact h.quit
        case batch => rw [next]; split <;> exact h.batch
        case awake => rw [next]; split <;> exact h.awake
      obtain ⟨bs, l', hrest, hall⟩ := ih hone
      exact ⟨_, l', (run_one hen).append hrest, by simpa using hall⟩

theorem Shows.call {cb : F} (h : Shows l .running quit (batch + 1) (cb :: queue)) :
    ∃ as l', (system F).Run l as l' ∧ Shows l' .running quit batch queue := by
  cases hfunctors : l.functors with
  | nil =>
      have hnone := h.batch
      rw [hfunctors] at hnone
      cases hnone
  | cons ticket rest =>
      have hen : Enabled l .call := ⟨h.pc, by rw [hfunctors]; rfl⟩
      refine ⟨_, _, run_one hen, ?_⟩
      have hbatch := h.batch
      have hqueue := h.queue
      rw [hfunctors, List.length_cons] at hbatch
      rw [EventLoop.queue, hfunctors, List.cons_append, List.map_cons, List.cons_eq_cons] at hqueue
      simp only [next, hfunctors]
      exact ⟨h.pc, h.quit, Nat.succ.inj hbatch, hqueue.2, h.awake⟩

/-! ### The rounds of `loop()` -/

theorem Shows.loop (h : Shows l .outside quit batch queue) :
    ∃ as l', (system F).Run l as l' ∧ Shows l' .testing false batch queue := by
  have hen : Enabled l .loop := h.pc
  exact ⟨_, _, run_one hen, rfl, rfl, h.batch, h.queue, h.awake⟩

theorem Shows.test (h : Shows l .testing quit batch queue) :
    ∃ as l', (system F).Run l as l' ∧
      Shows l' (if quit then .outside else .polling) quit batch queue := by
  have hen : Enabled l .test := h.pc
  exact ⟨_, _, run_one hen, by simp only [next, h.quit], h.quit, h.batch, h.queue, h.awake⟩

/-- The wakeup channel is among the active ones or not; what it reads is the eventfd. -/
theorem Shows.epoll (h : Shows l .polling quit batch queue) :
    ∃ as l', (system F).Run l as l' ∧ Shows l' (.handling false) quit batch queue := by
  have hen : Enabled l (.epoll false) := by
    refine ⟨h.pc, ?_⟩
    intro hwoken
    cases hwoken
  exact ⟨_, _, run_one hen, rfl, h.quit, h.batch, h.queue, h.awake⟩

/-- `doPendingFunctors` takes everything that is pending. -/
theorem Shows.swap (h : Shows l (.handling false) quit 0 queue) :
    ∃ as l', (system F).Run l as l' ∧ Shows l' .running quit queue.length queue := by
  obtain ⟨_, hpending⟩ := h.pending
  have hen : Enabled l .doPendingFunctors := h.pc
  refine ⟨_, _, (run_one hen).append (run_one (a := .swap) rfl), ?_⟩
  constructor
  case pc => rfl
  case quit => exact h.quit
  case batch => simp [next, ← hpending]
  case queue => simp [next, EventLoop.queue, hpending]
  case awake => exact h.awake

theorem Shows.finish (h : Shows l .running quit 0 queue) :
    ∃ as l', (system F).Run l as l' ∧ Shows l' .testing quit 0 queue := by
  have hen : Enabled l .finish := ⟨h.pc, by rw [h.pending.1]; rfl⟩
  refine ⟨_, _, (run_one hen).append (run_one (a := .destroy) rfl), ?_⟩
  exact ⟨rfl, h.quit, h.batch, h.queue, h.awake⟩

/-- `quit()` on a foreign thread, with its `wakeup()`. -/
theorem Shows.tell (h : Shows l pc quit batch queue) :
    ∃ as l', (system F).Run l as l' ∧ Shows l' pc true batch queue := by
  refine ⟨_, _, (run_one (a := .quit) trivial).append (run_one (a := .notify) trivial), ?_⟩
  exact ⟨h.pc, rfl, h.batch, h.queue, h.awake⟩

end Views

end EventLoop

/-! ## The loops of the pool -/

/-- A thread that is before its `loop()` and one whose `loop()` has returned are both outside. -/
def IoPc.shown : IoPc → Pc
  | .entering => .outside
  | .testing => .testing
  | .polling => .polling
  | .handling => .handling false
  | .running => .running
  | .exited => .outside

namespace Teardown

open TcpServer

/-! ### What the server does to a queue -/

section Queues

variable {s : TcpServer}

theorem prefix_queueInLoop (s : TcpServer) (loop : LoopId) (cb : ServerFunctor) (on : LoopId) :
    s.queues on <+: (s.queueInLoop loop cb).queues on := by
  rw [queueInLoop_queues]
  exact List.prefix_append _ _

theorem prefix_removeConnectionInLoop (s : TcpServer) (k : Nat) (c : ServerConn) (on : LoopId) :
    s.queues on <+: (s.removeConnectionInLoop k c).queues on :=
  prefix_queueInLoop _ c.loop (.connectDestroyed k) on

theorem prefix_call (s : TcpServer) (loop : LoopId) (cb : ServerFunctor) (on : LoopId) :
    s.queues on <+: (s.call loop cb).queues on := by
  rw [TcpServer.call]
  cases s.conns[cb.conn]? with
  | none => exact List.prefix_rfl
  | some c =>
      cases cb with
      | connectEstablished k => exact List.prefix_rfl
      | removeConnectionInLoop k => exact prefix_removeConnectionInLoop s k c on
      | connectDestroyed k => exact List.prefix_rfl

theorem prefix_newConnection (s : TcpServer) (sockfd : Int) (on : LoopId) :
    s.queues on <+: (s.newConnection sockfd).queues on := by
  simp only [TcpServer.newConnection]
  split
  · exact List.prefix_rfl
  · exact prefix_queueInLoop _ _ _ on

theorem prefix_destroyItem (s : TcpServer) (k : Nat) (c : ServerConn) (on : LoopId) :
    s.queues on <+: (destroyItem s k c).queues on := by
  simp only [destroyItem]
  split
  · exact List.prefix_rfl
  · exact prefix_queueInLoop _ _ _ on

/-- A connection that is closed on its loop has nothing queued on a loop of the pool: that is up
to the base loop. -/
theorem queues_peerClose (s : TcpServer) (k : Nat) (c : ServerConn) (i : Nat) :
    (s.peerClose k c).queues (.io i) = s.queues (.io i) := by
  have hbase : ∀ (s : TcpServer) (cb : ServerFunctor),
      (s.queueInLoop .base cb).queues (.io i) = s.queues (.io i) := by
    intro s cb
    rw [queueInLoop_queues]
    exact List.append_nil _
  simp only [TcpServer.peerClose, TcpServer.removeConnection]
  split
  · split
    · rename_i hloop
      simp only [TcpServer.removeConnectionInLoop, hloop, hbase]
    · exact hbase _ _
  · rfl

end Queues

/-! ### The view -/

/-- The functors that the server queues on loop `i` are the queue of the `EventLoop`. -/
structure View (s : Teardown) (i : Nat) (l : EventLoop ServerFunctor) : Prop where
  shows : EventLoop.Shows l (s.io i).pc.shown (s.io i).quit (s.io i).batch
    (s.server.queues (.io i))
  between : (s.io i).pc ≠ .running → (s.io i).batch = 0

variable {s s' : Teardown} {i : Nat} {l : EventLoop ServerFunctor}

/-- A thread other than that of the loop has queued functors. -/
theorem View.grown (h : s.View i l) (hio : s'.io i = s.io i)
    (hqueues : s.server.queues (.io i) <+: s'.server.queues (.io i)) :
    ∃ as l', (EventLoop.system ServerFunctor).Run l as l' ∧ s'.View i l' := by
  obtain ⟨cbs, hcbs⟩ := hqueues
  obtain ⟨as, l', hrun, hshows⟩ := h.shows.pushAll cbs
  rw [hcbs, ← hio] at hshows
  exact ⟨as, l', hrun, hshows, by rw [hio]; exact h.between⟩

theorem View.same (h : s.View i l) (hio : s'.io i = s.io i)
    (hqueues : s'.server.queues (.io i) = s.server.queues (.io i)) :
    ∃ as l', (EventLoop.system ServerFunctor).Run l as l' ∧ s'.View i l' :=
  h.grown hio (by rw [hqueues])

/-- A step of loop `j` on its own state. -/
theorem View.moved (h : s.View i l) {j : Nat} {x : IoLoop}
    (hown : j = i → (x.pc ≠ .running → x.batch = 0) ∧
      ∃ as l', (EventLoop.system ServerFunctor).Run l as l' ∧
        EventLoop.Shows l' x.pc.shown x.quit x.batch (s.server.queues (.io i))) :
    ∃ as l', (EventLoop.system ServerFunctor).Run l as l' ∧ (s.setIo j x).View i l' := by
  by_cases hj : j = i
  case pos =>
    obtain ⟨hbetween, as, l', hrun, hshows⟩ := hown hj
    subst hj
    refine ⟨as, l', hrun, ?_, ?_⟩
    · simpa [setIo] using hshows
    · simpa [setIo] using hbetween
  case neg =>
    refine h.same ?_ rfl
    simp [setIo, Ne.symm hj]

/-- The batch is over while the loop is somewhere else. -/
theorem View.quiet (h : s.View i l) {pc : IoPc} (hpc : (s.io i).pc = pc) (hnot : pc ≠ .running) :
    (s.io i).batch = 0 ∧
      EventLoop.Shows l pc.shown (s.io i).quit 0 (s.server.queues (.io i)) := by
  have hbatch := h.between (by rw [hpc]; exact hnot)
  have hshows := h.shows
  rw [hpc, hbatch] at hshows
  exact ⟨hbatch, hshows⟩

/-- The loop calls the functor in front of its queue, which may queue others. -/
theorem View.functor (h : s.View i l) {j : Nat} {cb : ServerFunctor} {rest : List ServerFunctor}
    (hqueue : s.server.queues (.io j) = cb :: rest) (hpc : (s.io j).pc = .running)
    (hbatch : 0 < (s.io j).batch) :
    ∃ as l', (EventLoop.system ServerFunctor).Run l as l' ∧
      Teardown.View { s.setIo j { s.io j with batch := (s.io j).batch - 1 } with
        server := (s.server.popped (.io j) rest).call (.io j) cb } i l' := by
  have hcalled := prefix_call (s.server.popped (.io j) rest) (.io j) cb (.io i)
  rw [queues_popped] at hcalled
  by_cases hj : j = i
  case pos =>
    subst hj
    rw [if_pos rfl] at hcalled
    obtain ⟨cbs, hcbs⟩ := hcalled
    have hhead : EventLoop.Shows l .running (s.io j).quit ((s.io j).batch - 1 + 1)
        (cb :: rest) := by
      rw [Nat.sub_add_cancel hbatch, ← hqueue]
      have hshows := h.shows
      rw [hpc] at hshows
      exact hshows
    obtain ⟨as, l₁, hfirst, hran⟩ := hhead.call
    obtain ⟨bs, l₂, hrest, hqueued⟩ := hran.queueInLoop rfl cbs
    rw [hcbs] at hqueued
    refine ⟨as ++ bs, l₂, hfirst.append hrest, ?_, ?_⟩
    · simpa [setIo, hpc, IoPc.shown] using hqueued
    · intro hnot
      simp [setIo, hpc] at hnot
  case neg =>
    have hother : LoopId.io i ≠ .io j := by
      intro heq
      cases heq
      exact hj rfl
    rw [if_neg hother] at hcalled
    refine h.grown ?_ hcalled
    simp [setIo, Ne.symm hj]

theorem View.step {a : Act} (h : s.View i l) (hstep : system.step s a s') :
    ∃ as l', (EventLoop.system ServerFunctor).Run l as l' ∧ s'.View i l' := by
  obtain ⟨hen, rfl⟩ := hstep
  cases a with
  | newConnection sockfd => exact h.grown rfl (prefix_newConnection s.server sockfd (.io i))
  | peerClose k =>
      rw [next]
      split
      · exact h.same rfl (queues_peerClose _ k _ i)
      · exact h.same rfl rfl
  | baseFunctor =>
      have hpopped : ∀ rest, (s.server.popped .base rest).queues (.io i) =
          s.server.queues (.io i) := by
        intro rest
        rw [queues_popped]
        rfl
      rw [next]
      split
      case h_1 rest _ _ => exact h.same rfl (hpopped rest)
      case h_2 cb rest _ _ =>
        refine h.grown rfl ?_
        rw [← hpopped rest]
        exact prefix_call _ .base cb (.io i)
      case h_3 => exact h.same rfl rfl
  | destroy => exact h.same rfl rfl
  | destroyItem k =>
      rw [next]
      split
      · exact h.grown rfl (prefix_destroyItem s.server k _ (.io i))
      · exact h.same rfl rfl
  | walked => exact h.same rfl rfl
  | quit j =>
      have htold : ∃ as l', (EventLoop.system ServerFunctor).Run l as l' ∧
          (s.setIo j { s.io j with quit := true }).View i l' := by
        apply h.moved
        rintro rfl
        exact ⟨h.between, h.shows.tell⟩
      obtain ⟨as, l', hrun, hview⟩ := htold
      exact ⟨as, l', hrun, hview.shows, hview.between⟩
  | joined j => exact h.same rfl rfl
  | enter j =>
      apply h.moved
      rintro rfl
      exact ⟨fun _ => rfl, (h.quiet hen.2 (by decide)).2.loop⟩
  | test j =>
      apply h.moved
      rintro rfl
      obtain ⟨hbatch, hshows⟩ := h.quiet hen (by decide)
      refine ⟨fun _ => hbatch, ?_⟩
      obtain ⟨as, l', hrun, htested⟩ := hshows.test
      refine ⟨as, l', hrun, ?_⟩
      rw [hbatch, apply_ite IoPc.shown]
      exact htested
  | epoll j =>
      apply h.moved
      rintro rfl
      obtain ⟨hbatch, hshows⟩ := h.quiet hen (by decide)
      rw [hbatch]
      exact ⟨fun _ => rfl, hshows.epoll⟩
  | swap j =>
      apply h.moved
      rintro rfl
      exact ⟨fun hnot => absurd rfl hnot, (h.quiet hen (by decide)).2.swap⟩
  | functor j =>
      obtain ⟨hpc, hbatch, hne⟩ := hen
      cases hqueue : s.server.queues (.io j) with
      | nil => exact absurd hqueue hne
      | cons cb rest =>
          simp only [next, hqueue]
          exact h.functor hqueue hpc hbatch
  | finish j =>
      apply h.moved
      rintro rfl
      obtain ⟨hpc, hbatch⟩ := hen
      have hshows := h.shows
      rw [hpc, hbatch] at hshows
      rw [hbatch]
      exact ⟨fun _ => rfl, hshows.finish⟩

/-- Each loop of the pool goes through a run of an `EventLoop`, whose functors are those that the
server queues on it. -/
theorem reachable_view (hs : system.Reachable s) (i : Nat) :
    ∃ l, (EventLoop.system ServerFunctor).Reachable l ∧ s.View i l := by
  refine hs.forward ?_ View.step
  rintro _ ⟨name, listenAddr, loops, rfl⟩
  exact ⟨EventLoop.new, rfl, EventLoop.new_shows, fun _ => rfl⟩

end Teardown

/-! ## The rounds of a loop with its channels -/

namespace ChannelOwners

def Stage.shown : Stage → Pc
  | .outside => .outside
  | .polling => .polling
  | .handling => .handling false
  | .functors => .running

namespace LoopWorld

variable {b : Build} {F : Type}

/-- The functors are in the lists of the connections, so the `EventLoop` shows the rounds only;
`quit_` is what made the loop return. -/
def View (s : LoopWorld) (l : EventLoop F) : Prop :=
  ∃ quit, (s.stage ≠ .outside → quit = false) ∧ EventLoop.Shows l s.stage.shown quit 0 []

variable {s s' : LoopWorld} {l : EventLoop F}

theorem View.stays (h : s.View l) (hstage : s'.stage = s.stage) :
    ∃ as l', (EventLoop.system F).Run l as l' ∧ s'.View l' := by
  rw [View, ← hstage] at h
  exact ⟨[], l, .nil l, h⟩

/-- The loop has not been told to quit. -/
theorem View.at (h : s.View l) {stage : Stage} (hstage : s.stage = stage)
    (hin : stage ≠ .outside) : EventLoop.Shows l stage.shown false 0 [] := by
  obtain ⟨quit, hquit, hshows⟩ := h
  rw [hquit (by rw [hstage]; exact hin), hstage] at hshows
  exact hshows

theorem View.step {a : Act} (h : s.View l) (hstep : (system b).step s a s') :
    ∃ as l', (EventLoop.system F).Run l as l' ∧ s'.View l' := by
  obtain ⟨hen, hexec⟩ := hstep
  cases a with
  | world act =>
      obtain ⟨_, _, hexec⟩ := exists_ok_of_bind hexec
      obtain ⟨w, _, hexec⟩ := exists_ok_of_bind hexec
      cases hexec
      exact h.stays rfl
  | loop =>
      obtain ⟨_, _, hexec⟩ := exists_ok_of_bind hexec
      cases hexec
      obtain ⟨quit, _, hshows⟩ := h
      rw [hen.1] at hshows
      obtain ⟨as, l₁, hfirst, hentered⟩ := EventLoop.Shows.loop hshows
      obtain ⟨bs, l₂, hrest, hpolling⟩ := hentered.test
      exact ⟨as ++ bs, l₂, hfirst.append hrest, false, fun _ => rfl, hpolling⟩
  | poll ready =>
      obtain ⟨channels, _, hexec⟩ := exists_ok_of_bind hexec
      cases hexec
      obtain ⟨as, l', hrun, hhandling⟩ := EventLoop.Shows.epoll (h.at hen.1 (by decide))
      exact ⟨as, l', hrun, false, fun _ => rfl, hhandling⟩
  | dispatch =>
      cases hrest : s.rest with
      | nil => exact absurd hrest hen.2.1
      | cons next rest =>
          rw [exec, hrest] at hexec
          obtain ⟨w, _, hexec⟩ := exists_ok_of_bind hexec
          cases hexec
          exact h.stays rfl
  | dispatched =>
      cases hexec
      obtain ⟨as, l', hrun, hrunning⟩ := EventLoop.Shows.swap (h.at hen.1 (by decide))
      exact ⟨as, l', hrun, false, fun _ => rfl, hrunning⟩
  | again quit =>
      cases hexec
      obtain ⟨as, l₁, hfirst, htesting⟩ := EventLoop.Shows.finish (h.at hen (by decide))
      cases quit with
      | false =>
          obtain ⟨bs, l₂, hrest, hpolling⟩ := htesting.test
          exact ⟨as ++ bs, l₂, hfirst.append hrest, false, fun _ => rfl, hpolling⟩
      | true =>
          -- `quit()` comes before the test at the latest.
          obtain ⟨bs, l₂, hmid, htold⟩ := htesting.tell
          obtain ⟨cs, l₃, hrest, houtside⟩ := htold.test
          exact ⟨as ++ (bs ++ cs), l₃, hfirst.append (hmid.append hrest), true,
            fun hin => absurd rfl hin, houtside⟩

/-- The rounds of a loop with its channels are rounds of an `EventLoop`. -/
theorem reachable_view (hs : (system b).Reachable s) :
    ∃ l : EventLoop F, (EventLoop.system F).Reachable l ∧ s.View l := by
  refine hs.forward ?_ View.step
  rintro _ ⟨w, _, rfl⟩
  exact ⟨EventLoop.new, rfl, false, fun _ => rfl, EventLoop.new_shows⟩

end LoopWorld
end ChannelOwners
end Net
end Muduo
