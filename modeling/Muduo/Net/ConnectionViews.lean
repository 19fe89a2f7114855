import Muduo.Net.ConnectionLifecycle
import Muduo.Net.ConnectionOwnership
import Muduo.Net.GracefulShutdown
import Muduo.Net.SharedConnection

/-!
# ConnectionViews — what other files follow of a connection is a `ConnectionUse`

`ConnectionUse` has every call, event and functor of a connection.  The files around it follow one
connection as well, each with the part of the world that its question needs: `Life` has the calls
of the loop thread, `Session` one caller and its messages, `SharedConnection` the loop and the
identity of the threads, `Ownership` the loops of the server and the holders of the pointer.

`Shows` says that a `Use` is in the state that such a model is in: it has the same connection, the
same callbacks to make and the same functors on their way.  Each model's step is then a few steps
of the `Use`, and what `ConnectionUse` says about all its runs holds in each of them.
-/

namespace Muduo
namespace Net
namespace ConnectionUse

open Effect TcpConnection

/-! ## Views of a `Use` -/

/-- The `Use` is in the state that a model shows of it.  `log` has what was done since the model
began, and the loop thread is not inside `connectDestroyed`. -/
structure Shows (t : Use) (c : TcpConnection) (dispatch : List Callback)
    (hands pending : List LoopFunctor) (log : List Effect) : Prop where
  conn : t.conn = c
  dispatch : t.dispatch = dispatch
  hands : t.hands.map Job.functor = hands
  pending : t.pending.map Job.functor = pending
  log : ∃ before, t.log = before ++ log
  outside : t.destroying = false

section Views

variable {t : Use} {c : TcpConnection} {dispatch : List Callback}
  {hands pending : List LoopFunctor} {log : List Effect}

theorem start_shows (sockfd : Int) (highWaterMark : Nat) (writeComplete highWater : Bool) :
    Shows (Use.start sockfd highWaterMark writeComplete highWater)
      (established sockfd highWaterMark writeComplete highWater) [] [] []
      [.connectionCallback true] :=
  ⟨rfl, rfl, rfl, rfl, ⟨[], rfl⟩, rfl⟩

theorem Shows.forget (h : Shows t c dispatch hands pending log) :
    Shows t c dispatch hands pending [] :=
  ⟨h.conn, h.dispatch, h.hands, h.pending, ⟨t.log, by simp⟩, h.outside⟩

/-- One step of the `Use`. -/
theorem run_one {a : Act} (hen : Enabled t a) : system.Run t [a] (next t a) :=
  .cons ⟨hen, rfl⟩ (.nil _)

theorem map_functor_queued (l : List LoopFunctor) (origin : Option UserCall) :
    (l.map (Job.mk · origin)).map Job.functor = l := by
  simp [List.map_map, Function.comp_def]

/-- A function of the connection has run on the thread of the loop. -/
theorem Shows.did (h : Shows t c dispatch hands pending log) (r : Result)
    (origin : Option UserCall) :
    Shows (t.did r origin) r.1 dispatch hands (pending ++ queued r.2) (log ++ r.2) := by
  obtain ⟨before, hlog⟩ := h.log
  constructor
  case conn => rfl
  case dispatch => exact h.dispatch
  case hands => exact h.hands
  case pending => simp only [Use.did, List.map_append, h.pending, map_functor_queued]
  case log => exact ⟨before, by simp only [Use.did, hlog, List.append_assoc]⟩
  case outside => exact h.outside

theorem Shows.mark (h : Shows t c dispatch hands pending log) (moments : List Moment) :
    Shows (t.mark moments) c dispatch hands pending log :=
  ⟨h.conn, h.dispatch, h.hands, h.pending, h.log, h.outside⟩

theorem Shows.executed (h : Shows t c dispatch hands pending log) (call : UserCall) :
    Shows (t.executed call) c dispatch hands pending log := by
  unfold Use.executed
  split
  · exact ⟨h.conn, h.dispatch, h.hands, h.pending, h.log, h.outside⟩
  · exact h

/-! ## What a model's step is in the `Use` -/

/-- A call on the thread of the loop. -/
theorem Shows.call (h : Shows t c dispatch hands pending log) (call : UserCall) :
    ∃ as t', system.Run t as t' ∧
      Shows t' (call.run c true).1 dispatch hands (pending ++ queued (call.run c true).2)
        (log ++ (call.run c true).2) := by
  refine ⟨_, _, run_one (a := .call true call) trivial, ?_⟩
  have hdid := h.did (call.run t.conn true) (some call)
  rw [h.conn] at hdid
  simp only [next, h.conn]
  exact (hdid.mark _).executed call

/-- The body of a call on a foreign thread. -/
theorem Shows.foreign (h : Shows t c dispatch hands pending log) (call : UserCall) :
    ∃ as t', system.Run t as t' ∧
      Shows t' (call.run c false).1 dispatch (hands ++ queued (call.run c false).2) pending
        (log ++ (call.run c false).2) := by
  refine ⟨_, _, run_one (a := .call false call) trivial, ?_⟩
  obtain ⟨before, hlog⟩ := h.log
  simp only [next, h.conn]
  constructor
  case conn => rfl
  case dispatch => exact h.dispatch
  case hands =>
    simp only [Use.mark, Use.foreignDid, List.map_append, h.hands, map_functor_queued]
  case pending => exact h.pending
  case log => exact ⟨before, by simp only [Use.mark, Use.foreignDid, hlog, List.append_assoc]⟩
  case outside => exact h.outside

/-- A foreign thread pushes one of the functors that are bound. -/
theorem Shows.push (h : Shows t c dispatch hands pending log) {i : Nat} {cb : LoopFunctor}
    (hi : hands[i]? = some cb) :
    ∃ as t', system.Run t as t' ∧
      Shows t' c dispatch (hands.eraseIdx i) (pending ++ [cb]) log := by
  have hjob : (t.hands.map Job.functor)[i]? = some cb := by
    rw [h.hands]
    exact hi
  rw [List.getElem?_map] at hjob
  obtain ⟨job, hjob, hcb⟩ := Option.map_eq_some_iff.mp hjob
  have hlt : i < t.hands.length := (List.getElem?_eq_some_iff.mp hjob).1
  refine ⟨_, _, run_one (a := .push i) hlt, ?_⟩
  simp only [next, hjob]
  constructor
  case conn => exact h.conn
  case dispatch => exact h.dispatch
  case hands => simp only [← List.eraseIdx_map, h.hands]
  case pending => simp [h.pending, hcb]
  case log => exact h.log
  case outside => exact h.outside

/-- A foreign thread pushes all functors that are bound. -/
theorem Shows.pushAll (h : Shows t c dispatch hands pending log) :
    ∃ as t', system.Run t as t' ∧ Shows t' c dispatch [] (pending ++ hands) log := by
  induction hands generalizing t pending with
  | nil => exact ⟨[], t, .nil t, by simpa using h⟩
  | cons cb rest ih =>
      have hcb : (cb :: rest)[0]? = some cb := rfl
      obtain ⟨as, t₁, hfirst, hone⟩ := h.push hcb
      obtain ⟨bs, t₂, hrest, hall⟩ := ih hone
      exact ⟨as ++ bs, t₂, hfirst.append hrest, by simpa using hall⟩

/-- The poller reports events of a channel in its set. -/
theorem Shows.report (h : Shows t c [] hands pending log) (hadded : c.channel.index = .kAdded)
    (revents : Mask) :
    ∃ as t', system.Run t as t' ∧
      Shows t' c (handleEventWithGuard revents) hands pending log := by
  have hen : Enabled t (.dispatch revents) :=
    ⟨h.dispatch, h.outside, by rw [h.conn]; exact hadded⟩
  exact ⟨_, _, run_one hen, h.conn, rfl, h.hands, h.pending, h.log, h.outside⟩

theorem Shows.callback {cb : Callback} {rest : List Callback}
    (h : Shows t c (cb :: rest) hands pending log) (r : ReadResult) (w : WriteResult) :
    ∃ as t', system.Run t as t' ∧
      Shows t' (c.onEvent cb r w).1 rest hands (pending ++ queued (c.onEvent cb r w).2)
        (log ++ (c.onEvent cb r w).2) := by
  have hen : Enabled t (.callback r w) := ⟨by rw [h.dispatch]; simp, h.outside⟩
  refine ⟨_, _, run_one hen, ?_⟩
  have hpopped : Shows { t with dispatch := rest } c rest hands pending log :=
    ⟨h.conn, rfl, h.hands, h.pending, h.log, h.outside⟩
  simp only [next, h.dispatch, h.conn]
  exact (hpopped.did (c.onEvent cb r w) none).mark _

/-- A read that fails does nothing. -/
theorem Shows.failedRead (h : Shows t c [.read] hands pending log) :
    ∃ as t', system.Run t as t' ∧ Shows t' c [] hands pending log := by
  obtain ⟨as, t', hrun, hread⟩ := h.callback .fail (.accept 0)
  have hnothing : c.onEvent .read .fail (.accept 0) = (c, []) := rfl
  rw [hnothing] at hread
  exact ⟨as, t', hrun, by simpa [queued] using hread⟩

/-- One event by itself. -/
theorem Shows.event (h : Shows t c [] hands pending log) (hadded : c.channel.index = .kAdded)
    (cb : Callback) (r : ReadResult) (w : WriteResult) :
    ∃ as t', system.Run t as t' ∧
      Shows t' (c.onEvent cb r w).1 [] hands (pending ++ queued (c.onEvent cb r w).2)
        (log ++ (c.onEvent cb r w).2) := by
  have hmask : ∃ revents, handleEventWithGuard revents = [cb] ∨
      handleEventWithGuard revents = [cb, .read] := by
    cases cb with
    | close => exact ⟨EPOLLHUP, Or.inr (by decide)⟩
    | error => exact ⟨EPOLLERR, Or.inl (by decide)⟩
    | read => exact ⟨EPOLLIN, Or.inl (by decide)⟩
    | write => exact ⟨EPOLLOUT, Or.inl (by decide)⟩
  obtain ⟨revents, hrevents⟩ := hmask
  obtain ⟨as, t₁, hfirst, hreported⟩ := h.report hadded revents
  rcases hrevents with halone | hread
  · rw [halone] at hreported
    obtain ⟨bs, t₂, hrest, hdone⟩ := hreported.callback r w
    exact ⟨as ++ bs, t₂, hfirst.append hrest, hdone⟩
  · -- The test for input takes `EPOLLHUP` too, so a hang-up is followed by a read.
    rw [hread] at hreported
    obtain ⟨bs, t₂, hrest, hdone⟩ := hreported.callback r w
    obtain ⟨cs, t₃, hlast, hover⟩ := hdone.failedRead
    exact ⟨as ++ (bs ++ cs), t₃, hfirst.append (hrest.append hlast), hover⟩

/-- The loop calls the next functor. -/
theorem Shows.runFunctor {cb : LoopFunctor} {rest : List LoopFunctor}
    (h : Shows t c [] hands (cb :: rest) log) (w : WriteResult) :
    ∃ as t', system.Run t as t' ∧
      Shows t' (c.runFunctor cb w).1 [] hands (rest ++ queued (c.runFunctor cb w).2)
        (log ++ (c.runFunctor cb w).2) := by
  obtain ⟨job, jobs, hpending, hcb, hjobs⟩ := List.map_eq_cons_iff.mp h.pending
  have hen : Enabled t (.runFunctor w) := ⟨h.dispatch, h.outside, by rw [hpending]; simp⟩
  refine ⟨_, _, run_one hen, ?_⟩
  have hpopped : Shows { t with pending := jobs } c [] hands rest log :=
    ⟨h.conn, h.dispatch, h.hands, hjobs, h.log, h.outside⟩
  have hdid := (hpopped.did (c.runFunctor cb w) none).mark (functorMoments c cb)
  simp only [next, hpending, h.conn, hcb]
  split
  · exact hdid.executed _
  · exact hdid

/-- `connectDestroyed`, with `channel_->remove()`. -/
theorem Shows.connectDestroyed (h : Shows t c dispatch hands pending log) :
    ∃ as t', system.Run t as t' ∧
      Shows t' c.connectDestroyed.1 dispatch hands (pending ++ queued c.connectDestroyed.2)
        (log ++ c.connectDestroyed.2) := by
  have hbegin : Enabled t .destroyBegin := h.outside
  refine ⟨_, _, (run_one hbegin).append (run_one (a := .destroyEnd) rfl), ?_⟩
  obtain ⟨before, hlog⟩ := h.log
  rw [connectDestroyed_eq]
  constructor
  case conn => simp only [next, Use.mark, Use.did, h.conn]
  case dispatch => exact h.dispatch
  case hands => exact h.hands
  case pending =>
    simp only [next, Use.mark, Use.did, List.map_append, h.pending, map_functor_queued, h.conn]
  case log =>
    exact ⟨before, by simp only [next, Use.mark, Use.did, hlog, h.conn, List.append_assoc]⟩
  case outside => rfl

end Views

/-! ## What holds in every view -/

/-- No step of a connection leads back to `kConnected`. -/
theorem Moves.was_connected {c : TcpConnection} {r : Result} {moments : List Moment}
    (h : Moves c r moments) (hup : r.1.state = .kConnected) : c.state = .kConnected := by
  cases h with
  | keep hkeeps => exact hkeeps.state.symm.trans hup
  | ask hasks =>
      by_contra hdown
      exact hdown ((hasks.other hdown).symm.trans hup)
  | close => cases hup
  | read =>
      have hsame : c.startReadInLoop.state = c.state := by
        rw [TcpConnection.startReadInLoop]
        split <;> rfl
      exact hsame.symm.trans hup
  | destroy =>
      by_contra hdown
      have hsame : (destroyBegin c).1 = c := by simp [destroyBegin, hdown]
      exact hdown (hsame ▸ hup)

theorem run_was_connected {s t : Use} {as : List Act} (hrun : system.Run s as t)
    (hup : t.conn.state = .kConnected) : s.conn.state = .kConnected := by
  by_contra hdown
  refine hrun.preserves (P := fun u => u.conn.state ≠ .kConnected) ?_ hdown hup
  rintro s a _ hs ⟨_, rfl⟩ hup'
  obtain ⟨r, moments, hmoves, hconn, _⟩ := next_moves s a
  exact hs (hmoves.was_connected (hconn ▸ hup'))

/-- A model of one connection whose steps are runs of a `Use`: the connection that is up at the
end of a run was up all the time. -/
theorem was_connected_of_view {S A : Type} {M : StepSystem S A} (conn : S → TcpConnection)
    {R : S → Use → Prop} (hconn : ∀ {s t}, R s t → t.conn = conn s)
    (hstep : ∀ {s a s' t}, R s t → M.step s a s' → ∃ bs t', system.Run t bs t' ∧ R s' t')
    {s s' : S} {as : List A} (hrun : M.Run s as s') {t : Use} (hst : R s t)
    (hup : (conn s').state = .kConnected) : (conn s).state = .kConnected := by
  obtain ⟨bs, t', hview, hst'⟩ := hrun.forward hstep hst
  rw [← hconn hst]
  rw [← hconn hst'] at hup
  exact run_was_connected hview hup

end ConnectionUse

/-! ## Lives -/

namespace ConnectionLifecycle

open ConnectionUse (Use Shows)

/-- The loop thread makes all the calls, so no functor is in a foreign thread's hand. -/
def Life.View (s : Life) (t : Use) : Prop :=
  Shows t s.conn s.dispatch [] s.pending s.log

theorem Life.View.step {s s' : Life} {a : Act} {t : Use} (h : s.View t)
    (hstep : system.step s a s') :
    ∃ bs t', ConnectionUse.system.Run t bs t' ∧ s'.View t' := by
  obtain ⟨hen, rfl⟩ := hstep
  cases a with
  | send message w => exact h.call (.send message w)
  | shutdown => exact h.call .shutdown
  | forceClose => exact h.call .forceClose
  | dispatch revents =>
      obtain ⟨_, hidle, hadded⟩ := hen
      have hrest : Shows t s.conn [] [] s.pending s.log := hidle ▸ h
      exact hrest.report hadded revents
  | callback r w =>
      cases hdispatch : s.dispatch with
      | nil => exact absurd hdispatch hen
      | cons cb rest =>
          have hhead : Shows t s.conn (cb :: rest) [] s.pending s.log := hdispatch ▸ h
          simp only [next, hdispatch]
          exact hhead.callback r w
  | runFunctor w =>
      obtain ⟨_, hidle, hne⟩ := hen
      cases hpending : s.pending with
      | nil => exact absurd hpending hne
      | cons cb rest =>
          have hhead : Shows t s.conn [] [] (cb :: rest) s.log := hidle ▸ hpending ▸ h
          simp only [next, hpending]
          obtain ⟨bs, t', hrun, hran⟩ := hhead.runFunctor w
          exact ⟨bs, t', hrun, by simpa only [Life.View, Life.did, hidle] using hran⟩
  | connectDestroyed => exact Shows.connectDestroyed h

/-- The lives of a connection are among its uses. -/
theorem Life.reachable_view {s : Life} (hs : system.Reachable s) :
    ∃ t, ConnectionUse.system.Reachable t ∧ s.View t := by
  refine hs.forward ?_ Life.View.step
  rintro _ ⟨sockfd, highWaterMark, writeComplete, highWater, rfl⟩
  exact ⟨_, ⟨sockfd, highWaterMark, writeComplete, highWater, rfl⟩,
    ConnectionUse.start_shows sockfd highWaterMark writeComplete highWater⟩

theorem Life.View.was_connected {s s' : Life} {t : Use} {as : List Act} (h : s.View t)
    (hrun : system.Run s as s') (hup : s'.conn.state = .kConnected) :
    s.conn.state = .kConnected :=
  ConnectionUse.was_connected_of_view Life.conn (fun hview => hview.conn) Life.View.step
    hrun h hup

end ConnectionLifecycle

/-! ## Sessions -/

namespace GracefulShutdown

open Effect TcpConnection
open ConnectionUse (Use Shows UserCall)
open ConnectionLifecycle (Listening)

/-- The poller reports writability, so the channel of the session is in its set, and none of the
functors takes it out. -/
structure Session.View (s : Session) (t : Use) : Prop where
  shows : Shows t s.conn [] s.inHand s.pending s.log
  listening : Listening s.conn
  functors : ∀ cb ∈ s.inHand ++ s.pending, isSessionFunctor cb = true
  direct : s.inLoop = true → s.inHand = []

/-- A function that keeps the channel in the poller's set, and queues nothing that does not. -/
structure Stays (r : Result) : Prop where
  listening : Listening r.1
  functors : ∀ cb ∈ queued r.2, isSessionFunctor cb = true

variable {s s' : Session} {t : Use} {c : TcpConnection}

theorem stays_of_isOutput {r : Result} (hlisten : Listening r.1)
    (hout : ∀ e ∈ r.2, e.isOutput = true) : Stays r := by
  refine ⟨hlisten, fun cb hcb => ?_⟩
  have he := hout _ (mem_queued.mp hcb)
  cases cb <;> simp_all [Effect.isOutput, isSessionFunctor]

theorem stays_sendInLoop (h : Listening c) (message : List UInt8) (w : WriteResult) :
    Stays (c.sendInLoop message w) :=
  stays_of_isOutput (h.sendInLoop message w) (sendInLoop_isOutput c message w)

theorem stays_send (h : Listening c) (inLoop : Bool) (message : List UInt8) (w : WriteResult) :
    Stays (c.send inLoop message w) := by
  rw [TcpConnection.send]
  split
  · split
    · exact stays_sendInLoop h message w
    · exact ⟨h, by simp [queued, isSessionFunctor]⟩
  · exact ⟨h, by simp [queued]⟩

theorem stays_shutdownInLoop (h : Listening c) : Stays c.shutdownInLoop := by
  rw [TcpConnection.shutdownInLoop]
  split <;> exact ⟨h, by simp [queued]⟩

theorem stays_shutdown (h : Listening c) (inLoop : Bool) : Stays (c.shutdown inLoop) := by
  have hleft : Listening (c.setState .kDisconnected) := ⟨h.added, h.reading⟩
  rw [TcpConnection.shutdown]
  split
  · dsimp only
    split
    · exact stays_shutdownInLoop hleft
    · exact ⟨hleft, by simp [queued, isSessionFunctor]⟩
  · exact ⟨h, by simp [queued]⟩

theorem stays_handleWrite (h : Listening c) (w : WriteResult) : Stays (c.handleWrite w) := by
  refine ⟨h.handleWrite w, fun cb hcb => ?_⟩
  have hspec := handleWrite_drain c w
  generalize c.handleWrite w = r at hspec hcb
  cases hspec with
  | idle heffects => rcases heffects with rfl | rfl <;> simp [queued] at hcb
  | part => simp [queued] at hcb
  | all =>
      have hin := mem_queued.mp hcb
      simp only [List.cons_append, List.mem_cons, List.mem_append, reduceCtorEq, false_or] at hin
      rcases hin with hin | hin
      · split at hin <;> simp_all [isSessionFunctor]
      · split at hin <;> simp at hin

theorem stays_runFunctor (h : Listening c) {cb : LoopFunctor} (hcb : isSessionFunctor cb = true)
    (w : WriteResult) : Stays (c.runFunctor cb w) := by
  cases cb with
  | sendInLoop message => exact stays_sendInLoop h message w
  | shutdownInLoop => exact stays_shutdownInLoop h
  | writeCompleteCallback => exact ⟨h, by simp [runFunctor, queued]⟩
  | highWaterMarkCallback len => exact ⟨h, by simp [runFunctor, queued]⟩
  | forceCloseInLoop | startReadInLoop => cases hcb

/-- A function of the connection has run on the thread of the loop. -/
theorem Session.View.loopDid {r : Result}
    (hshows : Shows t r.1 [] s.inHand (s.pending ++ queued r.2) (s.log ++ r.2)) (hstays : Stays r)
    (hfunctors : ∀ cb ∈ s.inHand ++ s.pending, isSessionFunctor cb = true)
    (hdirect : s.inLoop = true → s.inHand = []) : (s.loopDid r).View t := by
  refine ⟨hshows, hstays.listening, fun cb hcb => ?_, hdirect⟩
  rw [Session.loopDid, ← List.append_assoc] at hcb
  rcases List.mem_append.mp hcb with hold | hnew
  · exact hfunctors cb hold
  · exact hstays.functors cb hnew

/-- The caller has called a function of the connection, on whatever thread it is. -/
theorem Session.View.callerDid (h : s.View t) (hhand : s.inHand = []) (call : UserCall)
    (hstays : Stays (call.run s.conn s.inLoop)) :
    ∃ bs t', ConnectionUse.system.Run t bs t' ∧
      (s.callerDid (call.run s.conn s.inLoop)).View t' := by
  rw [Session.callerDid]
  cases hloop : s.inLoop with
  | true =>
      rw [hloop] at hstays
      obtain ⟨bs, t', hrun, hcalled⟩ := h.shows.call call
      exact ⟨bs, t', hrun, Session.View.loopDid hcalled hstays h.functors h.direct⟩
  | false =>
      rw [hloop] at hstays
      obtain ⟨bs, t', hrun, hcalled⟩ := h.shows.foreign call
      rw [hhand, List.nil_append] at hcalled
      refine ⟨bs, t', hrun, hcalled, hstays.listening, fun cb hcb => ?_, fun hno => ?_⟩
      · rcases List.mem_append.mp hcb with hnew | hold
        · exact hstays.functors cb hnew
        · exact h.functors cb (List.mem_append_right _ hold)
      · simp only [Session.foreignDid, Bool.false_eq_true, if_false, hloop] at hno

theorem Session.View.step {a : Act} (h : s.View t) (hstep : system.step s a s') :
    ∃ bs t', ConnectionUse.system.Run t bs t' ∧ s'.View t' := by
  obtain ⟨hen, rfl⟩ := hstep
  cases a with
  | send w =>
      obtain ⟨hhand, hne, _⟩ := hen
      cases hunsent : s.unsent with
      | nil => exact absurd hunsent hne
      | cons message rest =>
          have hrest : Session.View { s with unsent := rest } t :=
            ⟨h.shows, h.listening, h.functors, h.direct⟩
          simp only [next, hunsent]
          exact hrest.callerDid hhand (.send message w)
            (stays_send h.listening s.inLoop message w)
  | shutdown =>
      have hcalled : Session.View { s with shutdownCalled := true } t :=
        ⟨h.shows, h.listening, h.functors, h.direct⟩
      exact hcalled.callerDid hen.1 .shutdown (stays_shutdown h.listening s.inLoop)
  | push =>
      obtain ⟨bs, t', hrun, hpushed⟩ := h.shows.pushAll
      refine ⟨bs, t', hrun, hpushed, h.listening, fun cb hcb => h.functors cb ?_, fun _ => rfl⟩
      have hin : cb ∈ s.pending ++ s.inHand := hcb
      exact List.mem_append.mpr (List.mem_append.mp hin).symm
  | runFunctor w =>
      cases hpending : s.pending with
      | nil => exact absurd hpending hen.1
      | cons cb rest =>
          have hhead : Shows t s.conn [] s.inHand (cb :: rest) s.log := hpending ▸ h.shows
          obtain ⟨bs, t', hrun, hran⟩ := hhead.runFunctor w
          have hcb : isSessionFunctor cb = true := h.functors cb (by simp [hpending])
          simp only [next, hpending]
          refine ⟨bs, t', hrun, Session.View.loopDid (s := { s with pending := rest }) hran
            (stays_runFunctor h.listening hcb w) (fun cb' hcb' => ?_) h.direct⟩
          refine h.functors cb' ?_
          rw [hpending]
          exact (List.Sublist.append_left (List.sublist_cons_self cb rest) s.inHand).subset hcb'
  | handleWrite w =>
      obtain ⟨bs, t', hrun, hwrote⟩ :=
        h.shows.event h.listening.added .write .fail w
      exact ⟨bs, t', hrun, Session.View.loopDid hwrote (stays_handleWrite h.listening w)
        h.functors h.direct⟩

theorem Session.View.was_connected {as : List Act} (h : s.View t) (hrun : system.Run s as s')
    (hup : s'.conn.state = .kConnected) : s.conn.state = .kConnected :=
  ConnectionUse.was_connected_of_view Session.conn (fun hview => hview.shows.conn)
    Session.View.step hrun h hup

/-- A session of a connection that waits for input is part of its use. -/
theorem Session.run_view {as : List Act} {conn : TcpConnection} {inLoop : Bool}
    {messages : List (List UInt8)} (hlisten : Listening conn)
    (hrun : system.Run (Session.start conn inLoop messages) as s) {t : Use}
    (hconn : t.conn = conn) (hidle : t.dispatch = []) (hhands : t.hands = [])
    (hpending : t.pending = []) (houtside : t.destroying = false) :
    ∃ bs t', ConnectionUse.system.Run t bs t' ∧ s.View t' := by
  refine hrun.forward Session.View.step ⟨⟨hconn, hidle, ?_, ?_, ⟨t.log, ?_⟩, houtside⟩, hlisten,
    ?_, fun _ => rfl⟩
  · simp [hhands, Session.start]
  · simp [hpending, Session.start]
  · simp [Session.start]
  · simp [Session.start]

end GracefulShutdown

/-! ## Shared connections -/

namespace SharedConnection

open Effect TcpConnection
open ConnectionUse (Use Shows UserCall)

/-- `carried` are the functors in the hands of all threads, in the order in which they were bound,
each with its thread. -/
structure View (s : SharedConnection) (t : Use) : Prop where
  ordered : EventLoop.Ordered s.loop
  shows : ∃ carried : List (Nat × LoopFunctor),
    (∀ thread, s.hand thread = (carried.filter (·.1 = thread)).map Prod.snd) ∧
      Shows t s.conn [] (carried.map Prod.snd) (s.loop.queue.map (·.functor.cb)) s.log

/-- The events of the channel are those that the poller reports: the kernel does so only while the
channel is in its set. -/
def Polled (s : SharedConnection) : Act → Prop
  | .event _ _ _ => s.conn.channel.index = .kAdded
  | _ => True

variable {s s' : SharedConnection} {t : Use}

/-- The call in the words of `ConnectionUse`. -/
def inUse (w : WriteResult) : Call → UserCall
  | .send message => .send message w
  | .shutdown => .shutdown
  | .forceClose => .forceClose
  | .startRead => .startRead
  | .stopRead => .stopRead

theorem run_inUse (c : TcpConnection) (inLoop : Bool) (w : WriteResult) (call : Call) :
    (inUse w call).run c inLoop = call.run c inLoop w := by
  cases call <;> rfl

/-- The thread of the loop has run a function of the connection. -/
theorem View.loopDid {r : Result} {carried : List (Nat × LoopFunctor)}
    (hordered : EventLoop.Ordered s.loop) (hcode : s.loop.pc.userCode = true)
    (hcarried : ∀ thread, s.hand thread = (carried.filter (·.1 = thread)).map Prod.snd)
    (hshows : Shows t r.1 [] (carried.map Prod.snd)
      (s.loop.queue.map (·.functor.cb) ++ queued r.2) (s.log ++ r.2)) : (s.loopDid r).View t := by
  obtain ⟨hnext, tickets, hqueue, hfunctors⟩ := queueAll_queue hordered hcode (queued r.2)
  have hcbs : tickets.map (·.functor.cb) = queued r.2 := by
    calc tickets.map (·.functor.cb) = (tickets.map (·.functor)).map (·.cb) := by simp
      _ = queued r.2 := by rw [hfunctors]; simp [Function.comp_def]
  refine ⟨hnext, carried, hcarried, ?_⟩
  rw [SharedConnection.loopDid, hqueue, List.map_append, hcbs]
  exact hshows

theorem View.body (h : s.View t) (thread : Nat) (call : Call) :
    ∃ bs t', ConnectionUse.system.Run t bs t' ∧ (s.next (.body thread call)).View t' := by
  obtain ⟨carried, hcarried, hshows⟩ := h.shows
  obtain ⟨bs, t', hrun, hcalled⟩ := hshows.foreign (inUse (.accept 0) call)
  rw [run_inUse] at hcalled
  generalize hr : call.run s.conn false (.accept 0) = r at hcalled
  refine ⟨bs, t', hrun, h.ordered, carried ++ (queued r.2).map (thread, ·), fun i => ?_, ?_⟩
  · simp only [next, hr, List.filter_append, List.map_append, ← hcarried i]
    by_cases hi : i = thread
    · subst hi
      simp [List.filter_map, Function.comp_def]
    · simp [hi, Ne.symm hi, List.filter_map, Function.comp_def]
  · simpa [next, hr, record, Function.comp_def] using hcalled

theorem View.push (h : s.View t) {thread : Nat} {cb : LoopFunctor} {rest : List LoopFunctor}
    (hhand : s.hand thread = cb :: rest) (hen : Enabled s (.push thread)) :
    ∃ bs t', ConnectionUse.system.Run t bs t' ∧ (s.next (.push thread)).View t' := by
  obtain ⟨carried, hcarried, hshows⟩ := h.shows
  -- The functor is the first that the thread has bound.
  have hfirst := (hcarried thread).symm.trans hhand
  obtain ⟨⟨owner, cb'⟩, later, hfilter, rfl, hlater⟩ := List.map_eq_cons_iff.mp hfirst
  obtain ⟨before, after, rfl, hbefore, howner, hafter⟩ := List.filter_eq_cons_iff.mp hfilter
  have howner : owner = thread := by simpa using howner
  subst howner
  have hindex : ((before ++ (owner, cb') :: after).map Prod.snd)[before.length]? = some cb' := by
    simp
  have herase : ((before ++ (owner, cb') :: after).map Prod.snd).eraseIdx before.length =
      (before ++ after).map Prod.snd := by
    simp [List.eraseIdx_append_of_length_le]
  obtain ⟨bs, t', hrun, hpushed⟩ := hshows.push hindex
  rw [herase] at hpushed
  simp only [next, hhand]
  have hloop : EventLoop.Enabled s.loop (.push owner ⟨some owner, cb'⟩) := hen.2
  refine ⟨bs, t', hrun, EventLoop.step_ordered h.ordered hloop, before ++ after, fun i => ?_, ?_⟩
  · by_cases hi : i = owner
    · subst hi
      have hnone : before.filter (·.1 = i) = [] := by
        rw [List.filter_eq_nil_iff]
        exact hbefore
      simp only [Function.update_self, List.filter_append, hnone, List.nil_append, hafter, hlater]
    · simp [Function.update_of_ne hi, hcarried i, Ne.symm hi]
  · simpa [EventLoop.next, EventLoop.queue, EventLoop.pushBack] using hpushed

theorem View.step {a : Act} (h : s.View t) (hstep : (system.restrict Polled).step s a s') :
    ∃ bs t', ConnectionUse.system.Run t bs t' ∧ s'.View t' := by
  obtain ⟨hpolled, hen, rfl⟩ := hstep
  obtain ⟨carried, hcarried, hshows⟩ := h.shows
  cases a with
  | body thread call => exact h.body thread call
  | push thread =>
      cases hhand : s.hand thread with
      | nil => exact absurd hhand hen.1
      | cons cb rest => exact h.push hhand hen
  | call call w =>
      obtain ⟨bs, t', hrun, hcalled⟩ := hshows.call (inUse w call)
      rw [run_inUse] at hcalled
      exact ⟨bs, t', hrun, View.loopDid (s := (s.record none (call.sends s.conn)).deliver none w
        (call.sends s.conn)) h.ordered hen hcarried hcalled⟩
  | event cb r w =>
      have hcode : s.loop.pc.userCode = true := by
        rcases hen with hpc | hpc <;> rw [hpc] <;> rfl
      obtain ⟨bs, t', hrun, hmade⟩ := hshows.event hpolled cb r w
      exact ⟨bs, t', hrun, View.loopDid h.ordered hcode hcarried hmade⟩
  | functor w =>
      cases hfunctors : s.loop.functors with
      | nil =>
          have hnone := hen.2
          rw [hfunctors] at hnone
          cases hnone
      | cons ticket rest =>
          have hqueue : s.loop.queue = ticket :: (s.loop.next .call).queue := by
            simp [EventLoop.queue, EventLoop.next, hfunctors]
          have hpc : (s.loop.next .call).pc = .running := by
            rw [EventLoop.next, hfunctors]
            exact hen.1
          rw [hqueue, List.map_cons] at hshows
          obtain ⟨bs, t', hrun, hran⟩ := hshows.runFunctor w
          simp only [next, hfunctors]
          exact ⟨bs, t', hrun, View.loopDid
            (s := { s.deliver ticket.functor.sender w ticket.functor.cb.messages with
              loop := s.loop.next .call })
            (EventLoop.step_ordered h.ordered (a := .call) hen) (by rw [hpc]; rfl) hcarried hran⟩
  | loop a =>
      obtain ⟨hquiet, hen⟩ := hen
      refine ⟨[], t, .nil t, EventLoop.step_ordered h.ordered hen, carried, hcarried, ?_⟩
      rw [next, queue_quiet h.ordered hen hquiet]
      exact hshows

/-- A connection that is shared with its loop and any number of threads is used like any other. -/
theorem reachable_view (hs : (system.restrict Polled).Reachable s) :
    ∃ t, ConnectionUse.system.Reachable t ∧ s.View t := by
  refine hs.forward ?_ View.step
  rintro _ ⟨sockfd, highWaterMark, writeComplete, highWater, rfl⟩
  have hshows := ConnectionUse.start_shows sockfd highWaterMark writeComplete highWater
  exact ⟨_, ⟨sockfd, highWaterMark, writeComplete, highWater, rfl⟩, EventLoop.new_ordered, [],
    fun _ => rfl, hshows.forget⟩

theorem View.was_connected {as : List Act} (h : s.View t)
    (hrun : (system.restrict Polled).Run s as s') (hup : s'.conn.state = .kConnected) :
    s.conn.state = .kConnected := by
  refine ConnectionUse.was_connected_of_view SharedConnection.conn (fun hview => ?_)
    View.step hrun h hup
  obtain ⟨_, _, hshows⟩ := hview.shows
  exact hshows.conn

end SharedConnection

/-! ## Ownership -/

namespace ConnectionOwnership

open Effect TcpConnection
open ConnectionUse (Use Shows)

/-- The functors of the connection among those that are bound. -/
def calls (l : List Bound) : List LoopFunctor :=
  l.filterMap fun
    | .call cb => some cb
    | _ => none

/-- The functors of the connection are on its own loop, and no event is dispatched in the middle of
`doPendingFunctors`. -/
structure Ownership.View (s : Ownership) (t : Use) : Prop where
  shows : Shows t s.conn s.dispatch s.callers.flatten (calls (s.queues s.loop).todo) []
  elsewhere : ∀ loop, loop ≠ s.loop → calls (s.queues loop).todo = []
  idle : s.dispatch ≠ [] → (s.queues s.loop).Idle

variable {s s' : Ownership} {t : Use}

@[simp] theorem calls_append (l l' : List Bound) : calls (l ++ l') = calls l ++ calls l' :=
  List.filterMap_append

@[simp] theorem calls_pushBack (q : LoopQueue) (b : Bound) :
    calls (q.pushBack b).todo = calls q.todo ++ calls [b] := by
  simp [LoopQueue.pushBack, LoopQueue.todo]

/-- Two states that differ at most in the holders, and in functors of the server that are queued
behind others. -/
structure SameCalls (s s' : Ownership) : Prop where
  conn : s'.conn = s.conn
  loop : s'.loop = s.loop
  callers : s'.callers = s.callers
  dispatch : s'.dispatch = s.dispatch
  calls : ∀ loop, calls (s'.queues loop).todo = calls (s.queues loop).todo
  idle : ∀ loop, (s.queues loop).Idle → (s'.queues loop).Idle

theorem SameCalls.refl (s : Ownership) : SameCalls s s :=
  ⟨rfl, rfl, rfl, rfl, fun _ => rfl, fun _ h => h⟩

theorem SameCalls.view (h : SameCalls s s') (hview : s.View t) : s'.View t where
  shows := by
    rw [h.conn, h.dispatch, h.callers, h.loop, h.calls]
    exact hview.shows
  elsewhere := fun loop hne => by
    rw [h.calls]
    exact hview.elsewhere loop (h.loop ▸ hne)
  idle := fun hne => by
    rw [h.loop]
    exact h.idle _ (hview.idle (h.dispatch ▸ hne))

/-- A functor of the server is not one of the connection. -/
theorem sameCalls_queueInLoop (s : Ownership) (loop : LoopId) {b : Bound} (hb : calls [b] = []) :
    SameCalls s (s.queueInLoop loop b) := by
  refine ⟨rfl, rfl, rfl, rfl, fun loop' => ?_, fun loop' hidle => ?_⟩
  · rw [queueInLoop_queues]
    split
    case isTrue heq => rw [calls_pushBack, hb, List.append_nil, heq]
    case isFalse => rfl
  · rw [queueInLoop_queues]
    split
    case isTrue heq => exact heq ▸ hidle
    case isFalse => exact hidle

theorem sameCalls_removeConnectionInLoop (s : Ownership) :
    SameCalls s s.removeConnectionInLoop := by
  have hqueued := sameCalls_queueInLoop { s with tracked := false } s.loop
    (b := .connectDestroyed) rfl
  exact ⟨hqueued.conn, hqueued.loop, hqueued.callers, hqueued.dispatch, hqueued.calls, hqueued.idle⟩

theorem sameCalls_removeConnection (s : Ownership) : SameCalls s s.removeConnection := by
  rw [Ownership.removeConnection]
  split
  · exact sameCalls_removeConnectionInLoop s
  · exact sameCalls_queueInLoop s .base rfl

/-- The connection queues its functors on its own loop. -/
theorem queueAll_calls (cbs : List LoopFunctor) (s : Ownership) :
    let s' := cbs.foldl (fun s cb => s.queueInLoop s.loop (.call cb)) s
    s'.conn = s.conn ∧ s'.loop = s.loop ∧ s'.callers = s.callers ∧ s'.dispatch = s.dispatch ∧
      calls (s'.queues s.loop).todo = calls (s.queues s.loop).todo ++ cbs ∧
      (∀ loop, loop ≠ s.loop → s'.queues loop = s.queues loop) ∧
      ((s.queues s.loop).Idle → (s'.queues s.loop).Idle) := by
  induction cbs generalizing s with
  | nil => simp
  | cons cb cbs ih =>
      obtain ⟨hconn, hloop, hcallers, hdispatch, hcalls, hother, hidle⟩ :=
        ih (s.queueInLoop s.loop (.call cb))
      simp only [List.foldl_cons]
      refine ⟨hconn, hloop, hcallers, hdispatch, ?_, fun loop hne => ?_, fun h => hidle ?_⟩
      · rw [queueInLoop_loop, queueInLoop_queues, if_pos rfl, calls_pushBack,
          List.append_assoc] at hcalls
        exact hcalls
      · rw [hother loop hne, queueInLoop_queues, if_neg hne]
      · rw [queueInLoop_loop, queueInLoop_queues, if_pos rfl]
        exact h

/-- A function of the connection has run on the thread of its loop. -/
theorem Ownership.View.did {r : Result}
    (hshows : Shows t r.1 s.dispatch s.callers.flatten
      (calls (s.queues s.loop).todo ++ queued r.2) [])
    (helsewhere : ∀ loop, loop ≠ s.loop → calls (s.queues loop).todo = [])
    (hidle : s.dispatch ≠ [] → (s.queues s.loop).Idle) : (s.did r).View t := by
  obtain ⟨hconn, hloop, hcallers, hdispatch, hcalls, hother, hkept⟩ :=
    queueAll_calls (queued r.2) { s with conn := r.1 }
  have hqueued : Ownership.View ((queued r.2).foldl (fun s cb => s.queueInLoop s.loop (.call cb))
      { s with conn := r.1 }) t := by
    constructor
    case shows =>
      rw [hconn, hdispatch, hcallers, hloop, hcalls]
      exact hshows
    case elsewhere =>
      intro loop hne
      rw [hloop] at hne
      rw [hother loop hne]
      exact helsewhere loop hne
    case idle =>
      intro hne
      rw [hdispatch] at hne
      rw [hloop]
      exact hkept (hidle hne)
  rw [Ownership.did]
  split
  · exact (sameCalls_removeConnection _).view hqueued
  · exact hqueued

/-- The functor in front of a batch goes to those that were called. -/
def Ownership.popped (s : Ownership) (loop : LoopId) (b : Bound) (rest : List Bound) : Ownership :=
  s.setQueue loop ⟨(s.queues loop).pending, rest, (s.queues loop).done ++ [b]⟩

theorem calls_popped {loop : LoopId} {b : Bound} {rest : List Bound}
    (hbatch : (s.queues loop).batch = b :: rest) (loop' : LoopId) :
    calls (s.queues loop').todo =
      (if loop' = loop then calls [b] else []) ++ calls ((s.popped loop b rest).queues loop').todo := by
  rw [Ownership.popped, setQueue_queues]
  split
  case isTrue heq =>
    rw [heq, ← calls_append, LoopQueue.todo, LoopQueue.todo, hbatch]
    rfl
  case isFalse => rfl

/-- What the view says of the queues stays when a functor is taken. -/
theorem Ownership.View.popped (h : s.View t) {loop : LoopId} {b : Bound} {rest : List Bound}
    (hbatch : (s.queues loop).batch = b :: rest) :
    (loop = s.loop → s.dispatch = []) ∧
      (∀ loop', loop' ≠ s.loop → calls ((s.popped loop b rest).queues loop').todo = []) ∧
      (s.dispatch ≠ [] → ((s.popped loop b rest).queues s.loop).Idle) := by
  have hbusy : loop = s.loop → s.dispatch = [] := by
    intro hloop
    by_contra hne
    have hidle := (h.idle hne).1
    rw [← hloop, hbatch] at hidle
    cases hidle
  refine ⟨hbusy, fun loop' hne => ?_, fun hne => ?_⟩
  · have hnone := h.elsewhere loop' hne
    rw [calls_popped hbatch] at hnone
    exact (List.append_eq_nil_iff.mp hnone).2
  · rw [Ownership.popped, setQueue_queues, if_neg fun heq => hne (hbusy heq.symm)]
    exact h.idle hne

/-- Taking a functor of the server does not show. -/
theorem Ownership.View.skip (h : s.View t) {loop : LoopId} {b : Bound} {rest : List Bound}
    (hbatch : (s.queues loop).batch = b :: rest) (hb : calls [b] = []) :
    (s.popped loop b rest).View t := by
  obtain ⟨_, helsewhere, hidle⟩ := h.popped hbatch
  refine ⟨?_, helsewhere, hidle⟩
  have hsame := calls_popped hbatch s.loop
  rw [hb, ite_self, List.nil_append] at hsame
  have hshows := h.shows
  rw [hsame] at hshows
  exact hshows

/-- `doPendingFunctors` calls the functor in front of the batch. -/
theorem Ownership.View.call (h : s.View t) {loop : LoopId} {b : Bound} {rest : List Bound}
    (hbatch : (s.queues loop).batch = b :: rest) {w : WriteResult}
    (hcall : (s.popped loop b rest).call b w = .ok s') :
    ∃ bs t', ConnectionUse.system.Run t bs t' ∧ s'.View t' := by
  cases b with
  | call cb =>
      have hloop : loop = s.loop := by
        by_contra hne
        have hnone := h.elsewhere loop hne
        rw [calls_popped hbatch, if_pos rfl] at hnone
        cases hnone
      obtain ⟨hbusy, helsewhere, hidle⟩ := h.popped hbatch
      have hhead : Shows t s.conn [] s.callers.flatten
          (cb :: calls ((s.popped loop (.call cb) rest).queues s.loop).todo) [] := by
        have hshows := h.shows
        rw [hbusy hloop, calls_popped hbatch, if_pos hloop.symm] at hshows
        exact hshows
      rw [Ownership.call] at hcall
      split at hcall
      case isFalse => cases hcall
      case isTrue =>
        cases hcall
        obtain ⟨bs, t', hrun, hran⟩ := hhead.runFunctor w
        refine ⟨bs, t', hrun, Ownership.View.did ?_ helsewhere hidle⟩
        rw [show (s.popped loop (.call cb) rest).dispatch = [] from hbusy hloop]
        exact hran.forget
  | removeConnectionInLoop =>
      cases hcall
      exact ⟨[], t, .nil t, (sameCalls_removeConnectionInLoop _).view (h.skip hbatch rfl)⟩
  | connectDestroyed =>
      cases hcall
      have hskipped := h.skip hbatch rfl
      obtain ⟨bs, t', hrun, hdestroyed⟩ := hskipped.shows.connectDestroyed
      exact ⟨bs, t', hrun,
        Ownership.View.did hdestroyed.forget hskipped.elsewhere hskipped.idle⟩

/-- A queue changes, and the functors of the connection in it stay. -/
theorem Ownership.View.setQueue (h : s.View t) {loop : LoopId} {q : LoopQueue}
    (htodo : calls q.todo = calls (s.queues loop).todo)
    (hidle : s.dispatch ≠ [] → ((s.setQueue loop q).queues s.loop).Idle) :
    (s.setQueue loop q).View t := by
  have hsame : ∀ loop', calls ((s.setQueue loop q).queues loop').todo =
      calls (s.queues loop').todo := by
    intro loop'
    rw [setQueue_queues]
    split
    case isTrue heq => rw [htodo, heq]
    case isFalse => rfl
  refine ⟨?_, fun loop' hne => ?_, hidle⟩
  · rw [setQueue_loop, hsame]
    exact h.shows
  · rw [hsame]
    exact h.elsewhere loop' hne

/-- A foreign thread pushes one of the functors that its call has bound. -/
theorem Ownership.View.push (h : s.View t) {i : Nat} {cb : LoopFunctor} {cbs : List LoopFunctor}
    (hi : s.callers[i]? = some (cb :: cbs)) :
    ∃ bs t', ConnectionUse.system.Run t bs t' ∧
      (Ownership.queueInLoop { s with callers := s.callers.set i cbs } s.loop (.call cb)).View t' := by
  obtain ⟨hlt, hget⟩ := List.getElem?_eq_some_iff.mp hi
  -- Where the functor is in the hands of all threads.
  have hsplit : s.callers.flatten =
      (s.callers.take i).flatten ++ cb :: (cbs ++ (s.callers.drop (i + 1)).flatten) := by
    conv_lhs => rw [← List.take_append_drop i s.callers, List.drop_eq_getElem_cons hlt, hget]
    simp
  have hset : (s.callers.set i cbs).flatten =
      (s.callers.take i).flatten ++ (cbs ++ (s.callers.drop (i + 1)).flatten) := by
    rw [List.set_eq_take_append_cons_drop, if_pos hlt]
    simp
  have hindex : s.callers.flatten[(s.callers.take i).flatten.length]? = some cb := by
    rw [hsplit]
    simp
  obtain ⟨bs, t', hrun, hpushed⟩ := h.shows.push hindex
  have herase : s.callers.flatten.eraseIdx (s.callers.take i).flatten.length =
      (s.callers.set i cbs).flatten := by
    rw [hset, hsplit, List.eraseIdx_append_of_length_le (Nat.le_refl _)]
    simp
  rw [herase] at hpushed
  refine ⟨bs, t', hrun, ?_, fun loop hne => ?_, fun hne => ?_⟩
  · rw [queueInLoop_loop, queueInLoop_queues, if_pos rfl, calls_pushBack]
    exact hpushed
  · rw [queueInLoop_loop] at hne
    rw [queueInLoop_queues, if_neg hne]
    exact h.elsewhere loop hne
  · rw [queueInLoop_loop, queueInLoop_queues, if_pos rfl]
    exact h.idle hne

theorem Ownership.View.step {a : Act} (h : s.View t) (hstep : system.step s a s') :
    ∃ bs t', ConnectionUse.system.Run t bs t' ∧ s'.View t' := by
  obtain ⟨hen, hexec⟩ := hstep
  cases a with
  | beginCall call =>
      cases hexec
      obtain ⟨bs, t', hrun, hcalled⟩ := h.shows.foreign call
      refine ⟨bs, t', hrun, ?_, h.elsewhere, h.idle⟩
      simpa using hcalled.forget
  | push i =>
      obtain ⟨cbs, hi, hne⟩ := hen
      cases cbs with
      | nil => exact absurd rfl hne
      | cons cb cbs =>
          have hi : s.callers[i]? = some (cb :: cbs) := hi
          rw [exec, hi] at hexec
          cases hexec
          exact h.push hi
  | endCall i =>
      cases hexec
      refine ⟨[], t, .nil t, ?_, h.elsewhere, h.idle⟩
      obtain ⟨hlt, hget⟩ := List.getElem?_eq_some_iff.mp hen
      have hsame : (s.callers.eraseIdx i).flatten = s.callers.flatten := by
        conv_rhs => rw [← List.take_append_drop i s.callers, List.drop_eq_getElem_cons hlt, hget]
        rw [List.eraseIdx_eq_take_drop_succ]
        simp
      rw [hsame]
      exact h.shows
  | dispatch revents =>
      cases hexec
      obtain ⟨hdispatch, hidle, hadded, _⟩ := hen
      obtain ⟨bs, t', hrun, hreported⟩ := (hdispatch ▸ h.shows).report hadded revents
      exact ⟨bs, t', hrun, hreported, h.elsewhere, fun _ => hidle⟩
  | callback r w =>
      cases hdispatch : s.dispatch with
      | nil => exact absurd hdispatch hen
      | cons cb rest =>
          rw [exec, hdispatch] at hexec
          cases hexec
          obtain ⟨bs, t', hrun, hmade⟩ := (hdispatch ▸ h.shows).callback r w
          refine ⟨bs, t', hrun, Ownership.View.did (s := { s with dispatch := rest }) hmade.forget
            h.elsewhere fun _ => h.idle ?_⟩
          rw [hdispatch]
          exact List.cons_ne_nil cb rest
  | swap loop =>
      cases hexec
      obtain ⟨hidle, hnot⟩ := hen
      refine ⟨[], t, .nil t, h.setQueue ?_ fun hne => ?_⟩
      · simp [LoopQueue.todo, hidle.1]
      · rw [setQueue_queues, if_neg fun heq => hne (hnot heq.symm)]
        exact h.idle hne
  | call loop w =>
      cases hbatch : (s.queues loop).batch with
      | nil => exact absurd hbatch hen
      | cons b rest =>
          rw [exec, hbatch] at hexec
          exact h.call hbatch hexec
  | destroyBatch loop =>
      cases hexec
      refine ⟨[], t, .nil t, h.setQueue rfl fun hne => ?_⟩
      rw [setQueue_queues]
      split
      case isTrue heq => exact ⟨hen, rfl⟩
      case isFalse => exact h.idle hne

/-- Who keeps the connection alive does not change what can be done to it. -/
theorem Ownership.reachable_view (hs : system.Reachable s) :
    ∃ t, ConnectionUse.system.Reachable t ∧ s.View t := by
  refine hs.forward ?_ Ownership.View.step
  rintro _ ⟨loop, sockfd, highWaterMark, writeComplete, highWater, rfl⟩
  have hshows := ConnectionUse.start_shows sockfd highWaterMark writeComplete highWater
  exact ⟨_, ⟨sockfd, highWaterMark, writeComplete, highWater, rfl⟩, hshows.forget, fun _ _ => rfl,
    fun hne => absurd rfl hne⟩

theorem Ownership.View.was_connected {as : List Act} (h : s.View t) (hrun : system.Run s as s')
    (hup : s'.conn.state = .kConnected) : s.conn.state = .kConnected :=
  ConnectionUse.was_connected_of_view Ownership.conn (fun hview => hview.shows.conn)
    Ownership.View.step hrun h hup

end ConnectionOwnership
end Net
end Muduo
