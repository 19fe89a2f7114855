import Muduo.Net.ConfinedIdle

/-!
# FatalChecks — what a failed `assertInLoopThread` stops

A thread check that fails, and the check for a second `EventLoop` in a thread, write a record of
level `FATAL`, and `Logger.destroy_goesOn` says that the code goes on behind every record.  So a
confined function does to the members of the process what it does on the thread of its loop.

`fatal_checks_stop_iff` says which calls on foreign threads leave the members alone, and when the
constructor of a second loop does not return.
-/

namespace Muduo
namespace Net

namespace Process

variable {b : Build} {w w' : Process} {tid : Int} {k : Nat} {c : ServerConn}

/-! ## Storing the members of a loop -/

theorem setLoop_same_iff {i : LoopId} {l : Loop} :
    w.SameFields (w.setLoop i l) ↔ (w.loops i).SameFields l := by
  constructor
  · intro hsame
    simpa [setLoop] using hsame.loops i
  · intro hsame
    refine ⟨fun j => ?_, rfl, rfl, rfl⟩
    by_cases hj : j = i
    · subst hj
      simpa [setLoop] using hsame
    · simpa [setLoop, hj] using Loop.SameFields.refl (w.loops j)

theorem setEPoller_same_iff {i : LoopId} {p : EPoller} :
    w.SameFields (w.setEPoller i p) ↔ (w.loops i).epoller.SameFields p := by
  rw [setEPoller, setLoop_same_iff]
  exact ⟨fun h => h.epoller, fun h => ⟨rfl, ⟨rfl, rfl, rfl⟩, h, ⟨rfl, rfl, rfl, rfl, rfl, rfl⟩⟩⟩

theorem setTimerQueue_same_iff {i : LoopId} {q : TimerQueue} :
    w.SameFields (w.setTimerQueue i q) ↔ (w.loops i).timerQueue.SameFields q := by
  rw [setTimerQueue, setLoop_same_iff]
  exact ⟨fun h => h.timerQueue, fun h => ⟨rfl, ⟨rfl, rfl, rfl⟩, ⟨rfl, rfl, rfl⟩, h⟩⟩

/-! ## What the effects of a connection do -/

/-- The number of functors that wait for the base loop and for the loop `i`. -/
def pending (w : Process) (i : LoopId) : Nat :=
  (w.loops i).eventLoop.pendingFunctors.length + (w.server.queues .base).length +
    (w.server.queues i).length

theorem SameFields.pending (h : w.SameFields w') (i : LoopId) : w'.pending i = w.pending i := by
  rw [Process.pending, Process.pending, (h.loops i).eventLoop.pendingFunctors, h.server]

theorem pending_queueInLoop (i : LoopId) (cb : LoopFunctor) :
    w.pending i < (w.queueInLoop tid i cb).pending i := by
  have hpushed : ((w.queueInLoop tid i cb).loops i).eventLoop.pendingFunctors.length =
      (w.loops i).eventLoop.pendingFunctors.length + 1 := by
    simp only [queueInLoop, setLoop, Function.update_self]
    split <;> simp [EventLoop.pushBack, EventLoop.writeEventfd]
  rw [Process.pending, Process.pending, hpushed]
  simp only [queueInLoop, setLoop]
  omega

theorem length_queues_queueInLoop (s : TcpServer) (i j : LoopId) (cb : ServerFunctor) :
    ((s.queueInLoop i cb).queues j).length =
      (s.queues j).length + if j = i then 1 else 0 := by
  by_cases hj : j = i
  · subst hj
    simp [TcpServer.queueInLoop]
  · simp [TcpServer.queueInLoop, hj]

theorem removeConnection_ok (h : w.removeConnection b tid k c = .ok w') :
    w'.server.conns = w.server.conns ∧ w'.inputBuffer = w.inputBuffer ∧
      w.pending c.loop < w'.pending c.loop := by
  unfold removeConnection at h
  split at h
  · obtain ⟨_, _, h⟩ := exists_ok_of_bind h
    cases h
    refine ⟨rfl, rfl, ?_⟩
    simp only [Process.pending, TcpServer.removeConnectionInLoop, length_queues_queueInLoop, if_true]
    omega
  · cases h
    refine ⟨rfl, rfl, ?_⟩
    simp only [Process.pending, length_queues_queueInLoop, if_true]
    omega

/-- An effect reaches no member, or a functor waits that did not wait before. -/
theorem deliver_ok {e : Effect} (h : deliver b tid k c w e = .ok w') :
    w'.server.conns = w.server.conns ∧ w'.inputBuffer = w.inputBuffer ∧
      if e.isQuiet = true then w' = w else w.pending c.loop < w'.pending c.loop := by
  cases e with
  | queueInLoop cb =>
      cases h
      exact ⟨rfl, rfl, pending_queueInLoop c.loop cb⟩
  | closeCallback => exact removeConnection_ok h
  | _ =>
      cases h
      exact ⟨rfl, rfl, rfl⟩

theorem deliver_all_ok {effects : List Effect}
    (h : effects.foldlM (deliver b tid k c) w = .ok w') :
    w'.server.conns = w.server.conns ∧ w'.inputBuffer = w.inputBuffer ∧
      w.pending c.loop ≤ w'.pending c.loop ∧
      if effects.all Effect.isQuiet = true then w' = w
      else w.pending c.loop < w'.pending c.loop := by
  induction effects generalizing w with
  | nil =>
      cases h
      exact ⟨rfl, rfl, le_refl _, rfl⟩
  | cons e effects ih =>
      rw [List.foldlM_cons] at h
      obtain ⟨w₁, hw₁, h⟩ := exists_ok_of_bind h
      obtain ⟨hconns₁, hbuf₁, hstep⟩ := deliver_ok hw₁
      obtain ⟨hconns, hbuf, hle, hrest⟩ := ih h
      refine ⟨hconns.trans hconns₁, hbuf.trans hbuf₁, ?_, ?_⟩
      · split at hstep
        · rw [← hstep]
          exact hle
        · omega
      · rw [List.all_cons]
        cases hquiet : e.isQuiet with
        | true =>
            simp only [hquiet, if_true] at hstep
            subst hstep
            simpa using hrest
        | false =>
            simp only [hquiet, Bool.false_eq_true, if_false] at hstep
            simp only [Bool.false_and, Bool.false_eq_true, if_false]
            omega

/-! ## Functions of a connection -/

theorem onConn_ok {f : TcpConnection → Except Fault TcpConnection.Result} {states : List Process}
    (h : w.onConn b tid k f = .ok states) :
    ∃ c r w', w.server.conns[k]? = some c ∧ f c.conn = .ok r ∧ states = [w'] ∧
      w'.server.conns = w.server.conns.set k { c with conn := r.1 } ∧
      w'.inputBuffer = w.inputBuffer ∧
      if r.2.all Effect.isQuiet = true then w' = w.storeConn k c r.1
      else w.pending c.loop < w'.pending c.loop := by
  unfold onConn at h
  split at h
  · cases h
  · rename_i c hc
    obtain ⟨r, hr, h⟩ := exists_ok_of_bind h
    obtain ⟨_, _, h⟩ := exists_ok_of_bind h
    obtain ⟨w', hw', h⟩ := exists_ok_of_bind h
    cases h
    obtain ⟨hconns, hbuf, _, hquiet⟩ := deliver_all_ok hw'
    exact ⟨c, r, w', hc, hr, rfl, hconns, hbuf, hquiet⟩

/-- A function of a connection leaves the members alone exactly if its result is quiet. -/
theorem onConn_same_iff {f : TcpConnection → Except Fault TcpConnection.Result}
    {g : TcpConnection → TcpConnection.Result} {states : List Process}
    (h : w.onConn b tid k f = .ok states) (hf : ∀ c r, f c = .ok r → r = g c) :
    (∀ s ∈ states, w.SameFields s) ↔ ∃ c ∈ w.server.conns[k]?, (g c.conn).Quiet c.conn := by
  obtain ⟨c, r, w', hc, hr, rfl, hconns, _, hquiet⟩ := onConn_ok h
  obtain rfl := hf _ _ hr
  have hmem : ∀ d, d ∈ w.server.conns[k]? ↔ d = c := by
    intro d
    rw [Option.mem_def, hc, Option.some.injEq, eq_comm]
  simp only [List.mem_singleton, forall_eq, hmem, exists_eq_left]
  constructor
  · intro hsame
    refine ⟨?_, ?_⟩
    · -- The connection in the list is the one that was there.
      rw [hsame.server] at hconns
      have hlt := (List.getElem?_eq_some_iff.mp hc).1
      have hget := congrArg (fun l => l[k]?) hconns
      simp only [hc, List.getElem?_set_self hlt, Option.some.injEq] at hget
      exact (congrArg ServerConn.conn hget).symm
    · by_contra hloud
      rw [if_neg hloud, hsame.pending] at hquiet
      omega
  · rintro ⟨hconn, hall⟩
    rw [if_pos hall, hconn] at hquiet
    have hset : w.storeConn k c c.conn = w := by
      have hlist : w.server.conns.set k c = w.server.conns := by
        obtain ⟨hlt, hget⟩ := List.getElem?_eq_some_iff.mp hc
        rw [← hget, List.set_getElem_self]
      simp only [storeConn, hlist]
    rw [hquiet, hset]
    exact SameFields.refl w

theorem onConn_pure_same_iff {g : TcpConnection → TcpConnection.Result} {states : List Process}
    (h : w.onConn b tid k (fun c => pure (g c)) = .ok states) :
    (∀ s ∈ states, w.SameFields s) ↔ ∃ c ∈ w.server.conns[k]?, (g c.conn).Quiet c.conn := by
  refine onConn_same_iff h fun c r hr => ?_
  cases hr
  rfl

/-- The functions that begin with an `assert`. -/
theorem onConn_checked_same_iff {p : TcpConnection → Prop} [DecidablePred p]
    {g : TcpConnection → TcpConnection.Result} {states : List Process}
    (h : w.onConn b tid k (fun c => b.check (p c) >>= fun _ => pure (g c)) = .ok states) :
    (∀ s ∈ states, w.SameFields s) ↔ ∃ c ∈ w.server.conns[k]?, (g c.conn).Quiet c.conn := by
  refine onConn_same_iff h fun c r hr => ?_
  obtain ⟨_, _, hr⟩ := exists_ok_of_bind hr
  cases hr
  rfl

/-- A read that succeeds fills the input buffer, or it is the end of the stream and the
connection is closed. -/
theorem handleRead_same_iff {r : Readv} {states : List Process}
    (h : w.body b tid (.handleRead k r) = .ok states) :
    (∀ s ∈ states, w.SameFields s) ↔ ∃ errno, r = .failed errno := by
  obtain ⟨buf, hread, h⟩ := exists_ok_of_bind h
  cases r with
  | failed errno =>
      rw [WFBuffer.readFd_failed] at hread
      cases hread
      simp only [Function.update_eq_self] at h
      obtain ⟨c, _, _, hc, _⟩ := onConn_ok h
      refine iff_of_true ?_ ⟨errno, rfl⟩
      exact (onConn_pure_same_iff h).mpr ⟨c, hc, rfl, rfl⟩
  | delivered data =>
      refine iff_of_false ?_ (by simp)
      intro hsame
      obtain ⟨c, result, w', _, hresult, rfl, _, hbuf, hquiet⟩ := onConn_ok h
      have hsame' := hsame w' List.mem_cons_self
      by_cases hdata : data = []
      · -- end of the stream: the server is told
        subst hdata
        cases hresult
        simp only [Readv.result, TcpConnection.handleRead, List.length_nil, Nat.lt_irrefl, if_false,
          TcpConnection.handleClose, List.all_cons, Effect.isQuiet, Bool.false_and, Bool.and_false,
          Bool.false_eq_true] at hquiet
        have hpending := hsame'.pending c.loop
        have hstart : w.pending c.loop < w'.pending c.loop := hquiet
        omega
      · have hcontent := congrArg (fun f => (f k).content) (hbuf.symm.trans hsame'.inputBuffer)
        simp only [Function.update_self, WFBuffer.content_readFd hread] at hcontent
        exact hdata (by simpa [Readv.data] using hcontent)

/-! ## Calls -/

theorem newConnection_changes (connfd : Int) : ¬ w.SameFields (w.newConnection tid connfd) := by
  intro hsame
  have hlen := congrArg (fun s => s.conns.length) hsame.server
  simp only [newConnection] at hlen
  split at hlen <;> simp [TcpServer.connectEstablished, TcpServer.queueInLoop] at hlen

theorem listen_same_iff {states : List Process} (h : w.body b tid .listen = .ok states) :
    (∀ s ∈ states, w.SameFields s) ↔ Op.listen.Idle w := by
  obtain ⟨p, hp, h⟩ := exists_ok_of_bind h
  cases h
  simp only [List.mem_singleton, forall_eq, Op.Idle]
  rw [← Build.enableReading_same_iff hp]
  constructor
  · intro hsame
    have hlistening := (congrArg Acceptor.listening hsame.acceptor).symm
    refine ⟨hlistening, ?_⟩
    simpa [setEPoller, setLoop] using (hsame.loops .base).epoller
  · rintro ⟨hlistening, hsame⟩
    have hacceptor : ({ w.acceptor with listening := true } : Acceptor) = w.acceptor := by
      rw [← hlistening]
    simp only [hacceptor]
    exact setEPoller_same_iff.mpr hsame

theorem body_same_iff {op : Op} {states : List Process} (h : w.body b tid op = .ok states) :
    (∀ s ∈ states, w.SameFields s) ↔ op.Idle w := by
  cases op with
  | updateChannel i channel =>
      obtain ⟨p, hp, h⟩ := exists_ok_of_bind h
      cases h
      simpa [Op.Idle, setEPoller_same_iff] using Build.updataChannel_same_iff hp
  | removeChannel i channel =>
      obtain ⟨p, hp, h⟩ := exists_ok_of_bind h
      cases h
      simpa [Op.Idle, setEPoller_same_iff] using Build.removeChannel_same_iff hp
  | addTimerInLoop i timer =>
      obtain ⟨q, hq, h⟩ := exists_ok_of_bind h
      cases h
      simpa [Op.Idle, setTimerQueue_same_iff] using Build.addTimerInLoop_same_iff hq
  | cancelInLoop i timerId =>
      obtain ⟨q, hq, h⟩ := exists_ok_of_bind h
      cases h
      simpa [Op.Idle, setTimerQueue_same_iff] using Build.cancelInLoop_same_iff hq
  | timerHandleRead i now run =>
      obtain ⟨qs, hqs, h⟩ := exists_ok_of_bind h
      cases h
      simpa [Op.Idle, setTimerQueue_same_iff] using Build.timerHandleRead_changes hqs
  | sendInLoop k data wr =>
      simp only [body] at h
      have hiff := onConn_pure_same_iff h
      simpa [Op.Idle, TcpConnection.sendInLoop_quiet_iff] using hiff
  | shutdownInLoop k =>
      simp only [body] at h
      have hiff := onConn_pure_same_iff h
      obtain ⟨c, _, _, hc, _⟩ := onConn_ok h
      exact iff_of_true (hiff.mpr ⟨c, hc, TcpConnection.shutdownInLoop_quiet c.conn⟩) trivial
  | forceCloseInLoop k =>
      simp only [body] at h
      have hiff := onConn_pure_same_iff h
      simpa [Op.Idle, TcpConnection.forceCloseInLoop_quiet_iff] using hiff
  | connectEstablished k =>
      simp only [body] at h
      have hiff := onConn_checked_same_iff h
      simpa [Op.Idle, TcpConnection.connectEstablished_quiet_iff] using hiff
  | connectDestroyed k =>
      simp only [body] at h
      have hiff := onConn_checked_same_iff h
      simpa [Op.Idle, TcpConnection.connectDestroyed_quiet_iff] using hiff
  | handleRead k r => exact handleRead_same_iff h
  | handleWrite k wr =>
      simp only [body] at h
      have hiff := onConn_pure_same_iff h
      simpa [Op.Idle, TcpConnection.handleWrite_quiet_iff] using hiff
  | handleClose k =>
      simp only [body] at h
      have hiff := onConn_pure_same_iff h
      simpa [Op.Idle, TcpConnection.handleClose_not_quiet] using hiff
  | listen => exact listen_same_iff h
  | acceptorHandleRead connfd =>
      cases connfd with
      | none =>
          cases h
          simp [Op.Idle]
      | some connfd =>
          cases h
          simpa [Op.Idle] using newConnection_changes connfd
  | removeConnectionInLoop k =>
      simp only [body] at h
      split at h
      · cases h
      · rename_i c hc
        obtain ⟨w', hw', h⟩ := exists_ok_of_bind h
        cases h
        obtain ⟨_, _, hw'⟩ := exists_ok_of_bind hw'
        cases hw'
        -- `connectDestroyed` is queued.
        refine iff_of_false ?_ id
        intro hsame
        have hpending := (hsame _ List.mem_cons_self).pending c.loop
        simp only [Process.pending, TcpServer.removeConnectionInLoop, length_queues_queueInLoop,
          if_true] at hpending
        omega

/-- The check never stops a call. -/
theorem exec_eq_body (op : Op) : w.exec b tid op = w.body b tid op := by
  have hgoes : (w.loops (op.owner w)).assertInLoopThread tid = .goesOn := by
    unfold Loop.assertInLoopThread
    split
    · rfl
    · exact Logger.destroy_goesOn _
  rw [exec, hgoes]

/-- A second loop in a thread: the thread keeps its first one, and only a missing eventfd stops
the constructor. -/
theorem construct_second {this : LoopId} {r : NewLoop} {ending : Ending}
    (hfirst : (w.loopInThisThread tid).isSome = true)
    (h : w.construct b tid this r = .ok (w', ending)) :
    w'.loopInThisThread = w.loopInThisThread ∧ (ending = .stops ↔ r.wakeupFd < 0) := by
  obtain ⟨other, hother⟩ := Option.isSome_iff_exists.mp hfirst
  obtain ⟨p, _, h⟩ := exists_ok_of_bind h
  by_cases hfd : r.wakeupFd < 0
  · simp only [if_pos hfd, pure_eq_ok, Except.ok.injEq, Prod.mk.injEq] at h
    obtain ⟨rfl, rfl⟩ := h
    simp [hfd]
  · have hgoes : (anotherEventLoop other tid).2 = .goesOn := Logger.destroy_goesOn _
    simp only [if_neg hfd, hother, hgoes] at h
    obtain ⟨p', _, h⟩ := exists_ok_of_bind h
    cases h
    simp [setLoop, hfd]

/-- A call by a thread that is not the loop's leaves every member alone exactly if the function is
idle, and the constructor of a second loop in a thread is stopped exactly if there is no eventfd
for it. -/
theorem fatal_checks_stop_iff (b : Build) (w : Process) (tid : Int) :
    (∀ op states, (w.loops (op.owner w)).threadId ≠ tid → w.exec b tid op = .ok states →
      ((∀ s ∈ states, w.SameFields s) ↔ op.Idle w)) ∧
    (∀ this r w' ending, (w.loopInThisThread tid).isSome = true →
      w.construct b tid this r = .ok (w', ending) →
      (ending = .stops ∧ w'.loopInThisThread = w.loopInThisThread ↔ r.wakeupFd < 0)) := by
  refine ⟨?_, ?_⟩
  · intro op states _ h
    rw [exec_eq_body] at h
    exact body_same_iff h
  · intro this r w' ending hfirst h
    obtain ⟨hkept, hstops⟩ := construct_second hfirst h
    rw [← hstops]
    exact ⟨fun hboth => hboth.1, fun hends => ⟨hends, hkept⟩⟩

/-- A process whose only connection is up, with a base loop on thread 1. -/
def oneConnection : Process where
  loops := fun _ => ⟨4096, 1, EventLoop.new, EPoller.new, TimerQueue.new⟩
  server := (TcpServer.new ['s'] ⟨(127, 0, 0, 1), 80⟩ 0).newConnection 5
  acceptor := ⟨false, 7168⟩
  inputBuffer := fun _ => WFBuffer.new
  loopInThisThread := fun tid => if tid = 1 then some 4096 else none

def secondLoop : NewLoop where
  address := 8192
  timerfdChannel := 9216
  timerfd := 6
  wakeupChannel := 9728
  wakeupFd := 7

theorem fatal_checks_stop_iff_oneConnection :
    (∃ s, oneConnection.exec .debug 2 (.shutdownInLoop 0) = .ok [s] ∧
      oneConnection.SameFields s) ∧
    (∃ w', oneConnection.construct .debug 1 (.io 0) secondLoop = .ok (w', .goesOn) ∧
      ¬ (Ending.goesOn = .stops ∧
        w'.loopInThisThread = oneConnection.loopInThisThread)) := by
  refine ⟨⟨_, rfl, ?_⟩, ⟨_, rfl, ?_⟩⟩
  · have hiff := (fatal_checks_stop_iff .debug oneConnection 2).1 (.shutdownInLoop 0) _
      (by decide) rfl
    exact hiff.mpr trivial _ List.mem_cons_self
  · have hiff := (fatal_checks_stop_iff .debug oneConnection 1).2 (.io 0) secondLoop _ .goesOn
      (by decide) rfl
    rw [hiff]
    decide

/-- Thread 2 takes the connection of thread 1 down, and thread 1 gets a second loop. -/
theorem foreign_call_goes_on :
    ((oneConnection.loops .base).threadId ≠ 2 ∧
      ∃ s, oneConnection.exec .release 2 (.connectDestroyed 0) = .ok [s] ∧
        ¬ oneConnection.SameFields s) ∧
    ((oneConnection.loopInThisThread 1).isSome = true ∧
      ∃ w', oneConnection.construct .release 1 (.io 0) secondLoop = .ok (w', .goesOn)) := by
  refine ⟨⟨by decide, ⟨_, rfl, ?_⟩⟩, ⟨by decide, ⟨_, rfl⟩⟩⟩
  intro hsame
  have hstate := congrArg (fun s => s.conns.map fun c => c.conn.state) hsame.server
  revert hstate
  decide

end Process

end Net
end Muduo
