import Muduo.Net.ChannelSteps
import Muduo.Net.ConnectionViews

/-!
# ChannelViews — the connections of a loop, one by one

A `World` has every channel and every connection of a loop in it.  From `newConnection` on, and
until its channel is destroyed or `~EventLoop` discards the functors, each of its connections goes
through a run of `ConnectionUse`: what the poller, the other owners and the holders of the pointer
do does not show.
-/

namespace Muduo
namespace Net
namespace ChannelOwners

open Effect TcpConnection ConnectionUse ConnectionOwnership

/-! ## One connection -/

/-- The functors of the connection among what is queued about it. -/
def taskCalls (l : List Task) : List LoopFunctor :=
  l.filterMap fun
    | .call cb => some cb
    | _ => none

@[simp] theorem taskCalls_append (l l' : List Task) :
    taskCalls (l ++ l') = taskCalls l ++ taskCalls l' :=
  List.filterMap_append

@[simp] theorem taskCalls_map_call (cbs : List LoopFunctor) : taskCalls (cbs.map .call) = cbs := by
  simp [taskCalls, List.filterMap_map]

/-- A connection that is not established yet is at the beginning of its use. -/
inductive Conn.View (m : Conn) (t : Use) : Prop
  | fresh : m.Fresh → Shows t m.conn.connectEstablished.1 [] [] [] [] → Conn.View m t
  | used : .connectEstablished ∉ m.pending →
      Shows t m.conn m.dispatch m.hands (taskCalls m.pending) [] → Conn.View m t

theorem Conn.View.of_used {m : Conn} {t : Use} (h : m.View t)
    (hup : .connectEstablished ∉ m.pending) :
    Shows t m.conn m.dispatch m.hands (taskCalls m.pending) [] := by
  cases h with
  | fresh hfresh _ =>
      rw [hfresh.pending] at hup
      exact absurd List.mem_cons_self hup
  | used _ hshows => exact hshows

/-- What a function of the connection leaves of what is on its way. -/
structure Conn.DidCalls (m : Conn) (inLoop : Bool) (r : Result) (m' : Conn) : Prop where
  conn : m'.conn = r.1
  dispatch : m'.dispatch = m.dispatch
  hands : m'.hands = if inLoop then m.hands else m.hands ++ queued r.2
  pending : taskCalls m'.pending =
    if inLoop then taskCalls m.pending ++ queued r.2 else taskCalls m.pending
  up : .connectEstablished ∈ m'.pending → .connectEstablished ∈ m.pending

variable {b : Build} {m m' : Conn}

theorem Conn.did_calls {inLoop : Bool} {r : Result} (h : m.did b inLoop r = .ok m') :
    m.DidCalls inLoop r m' := by
  have hpending : taskCalls (if inLoop then m.pending ++ (queued r.2).map .call else m.pending) =
      if inLoop then taskCalls m.pending ++ queued r.2 else taskCalls m.pending := by
    split <;> simp
  have hup := (Conn.did_ok h).pending
  simp only [Conn.did] at h
  by_cases hclose : .closeCallback ∈ r.2
  case neg =>
    rw [if_neg hclose] at h
    cases h
    exact ⟨rfl, rfl, rfl, hpending, hup⟩
  case pos =>
    rw [if_pos hclose, Conn.removeConnection] at h
    by_cases hbase : m.onBase = true
    · rw [if_pos hbase] at h
      have hm' := Conn.removeConnectionInLoop_ok h
      subst hm'
      refine ⟨rfl, rfl, rfl, ?_, hup⟩
      rw [taskCalls_append, hpending]
      exact List.append_nil _
    · rw [if_neg hbase] at h
      cases h
      exact ⟨rfl, rfl, rfl, hpending, hup⟩

/-- A function of the connection has run. -/
theorem Conn.DidCalls.view {inLoop : Bool} {r : Result} {t : Use} (h : m.DidCalls inLoop r m')
    (hup : .connectEstablished ∉ m.pending)
    (hshows : Shows t r.1 m.dispatch (if inLoop then m.hands else m.hands ++ queued r.2)
      (if inLoop then taskCalls m.pending ++ queued r.2 else taskCalls m.pending) []) :
    m'.View t := by
  refine .used (fun hin => hup (h.up hin)) ?_
  rw [h.conn, h.dispatch, h.hands, h.pending]
  exact hshows

theorem Conn.View.pointers {t : Use} (h : m.View t) (n : Nat) :
    Conn.View { m with pointers := n } t := by
  cases h with
  | fresh hfresh hshows =>
      exact .fresh ⟨hfresh.pending, hfresh.tracked, hfresh.removals, hfresh.hands,
        hfresh.dispatch, hfresh.index⟩ hshows
  | used hup hshows => exact .used hup hshows

/-! ## The loop of the connection -/

/-- Events are dispatched to the connection only inside `handleEvent`. -/
def World.View (s : World) (a : Addr) (t : Use) : Prop :=
  ∃ o m, s.owners a = some o ∧ o.owner = .tcpConnection m ∧
    (o.eventHandling = false → m.dispatch = []) ∧ m.View t

/-- The channel at the address is not destroyed, and the loop does not discard its functors. -/
def GoesOn (a : Addr) (act : Act) : Prop :=
  act ≠ .discard ∧ act ≠ .channelDtor a

variable {s s' : World} {a : Addr} {o : Owned} {t : Use} {act : Act}

theorem World.View.of_owners (h : s.View a t) (howners : s'.owners a = s.owners a) :
    s'.View a t := by
  obtain ⟨o, m, ho, hrest⟩ := h
  exact ⟨o, m, howners.trans ho, hrest⟩

theorem World.View.occupied (h : s.View a t) : s.owners a ≠ none := by
  obtain ⟨o, m, ho, _⟩ := h
  rw [ho]
  exact Option.some_ne_none o

/-- The owner at the address is the connection of the view. -/
theorem World.View.owner (h : s.View a t) (ho : s.owners a = some o) :
    ∃ m, o.owner = .tcpConnection m ∧ (o.eventHandling = false → m.dispatch = []) ∧
      m.View t := by
  obtain ⟨o', m, ho', hrest⟩ := h
  rw [ho'] at ho
  cases ho
  exact ⟨m, hrest⟩

theorem World.View.conn (h : s.View a t) (ho : s.owners a = some o)
    (howner : o.owner = .tcpConnection m) :
    (o.eventHandling = false → m.dispatch = []) ∧ m.View t := by
  obtain ⟨m', howner', hrest⟩ := h.owner ho
  rw [howner'] at howner
  cases howner
  exact hrest

theorem view_put (o : Owned) (p : EPoller) (hdispatch : o.eventHandling = false → m.dispatch = [])
    (hview : m.View t) : (s.putConn a o m p).View a t :=
  ⟨{ o with owner := .tcpConnection m }, m, Function.update_self .., rfl, hdispatch, hview⟩

/-- A function of the connection is called, and the steps of the `Use` do the same. -/
theorem call_view {inLoop : Bool} {fn : Fn} (h : s.call b a o m inLoop fn = .ok s')
    (hdispatch : o.eventHandling = false → m.dispatch = [])
    (hup : .connectEstablished ∉ m.pending)
    (hview : ∃ bs t', ConnectionUse.system.Run t bs t' ∧
      Shows t' (fn.run m.conn).1 m.dispatch
        (if inLoop then m.hands else m.hands ++ queued (fn.run m.conn).2)
        (if inLoop then taskCalls m.pending ++ queued (fn.run m.conn).2 else taskCalls m.pending)
        []) :
    ∃ bs t', ConnectionUse.system.Run t bs t' ∧ s'.View a t' := by
  obtain ⟨_, _, h⟩ := exists_ok_of_bind h
  obtain ⟨p, _, h⟩ := exists_ok_of_bind h
  obtain ⟨m', hdid, h⟩ := exists_ok_of_bind h
  cases h
  obtain ⟨bs, t', hrun, hshows⟩ := hview
  have hcalls := Conn.did_calls hdid
  exact ⟨bs, t', hrun, view_put o p (fun hquiet => hcalls.dispatch.trans (hdispatch hquiet))
    (hcalls.view hup hshows)⟩

/-! ### The steps of the connection -/

theorem handle_view {c : Channel} (h : s.View a t) (ho : s.owners a = some o) (hinv : o.Inv c)
    (hquiet : o.eventHandling = false) (hindex : c.index = .kAdded) (revents : Mask) :
    ∃ bs t', ConnectionUse.system.Run t bs t' ∧
      (s.put a (o.handle revents) s.poller).View a t' := by
  obtain ⟨m, howner, hdispatch, hview⟩ := h.owner ho
  obtain ⟨hchannel, hm⟩ := hinv.conn howner
  subst hchannel
  -- The poller does not know the channel before `connectEstablished`.
  have hup : .connectEstablished ∉ m.pending := by
    intro hnew
    have hunknown := (hm.fresh hnew).index
    rw [hindex] at hunknown
    cases hunknown
  have hshows := hview.of_used hup
  rw [hdispatch hquiet] at hshows
  obtain ⟨bs, t', hrun, hreported⟩ := hshows.report hindex revents
  refine ⟨bs, t', hrun, o.handle revents,
    { m with dispatch := handleEventWithGuard revents }, Function.update_self .., ?_, ?_,
    .used hup hreported⟩
  · simp only [Owned.handle, howner]
  · intro hno
    cases hno

theorem callback_view {cb : Callback} {rest : List Callback} {r : ReadResult} {w : WriteResult}
    (hm : m.Inv) (hlist : m.dispatch = cb :: rest)
    (hdispatch : o.eventHandling = false → m.dispatch = []) (hview : m.View t)
    (hcall : s.call b a o { m with dispatch := rest } true (.event cb r w) = .ok s') :
    ∃ bs t', ConnectionUse.system.Run t bs t' ∧ s'.View a t' := by
  have hne : m.dispatch ≠ [] := by simp [hlist]
  have hup : .connectEstablished ∉ m.pending := fun hnew => hne (hm.fresh hnew).dispatch
  have hshows := hview.of_used hup
  rw [hlist] at hshows
  obtain ⟨bs, t', hrun, hmade⟩ := hshows.callback r w
  exact call_view (m := { m with dispatch := rest }) hcall
    (fun hquiet => absurd (hdispatch hquiet) hne) hup ⟨bs, t', hrun, hmade.forget⟩

theorem user_view {inLoop : Bool} {call : UserCall} (hup : .connectEstablished ∉ m.pending)
    (hdispatch : o.eventHandling = false → m.dispatch = []) (hview : m.View t)
    (hcall : s.call b a o m inLoop (.user inLoop call) = .ok s') :
    ∃ bs t', ConnectionUse.system.Run t bs t' ∧ s'.View a t' := by
  refine call_view hcall hdispatch hup ?_
  cases inLoop with
  | true =>
      obtain ⟨bs, t', hrun, hcalled⟩ := (hview.of_used hup).call call
      exact ⟨bs, t', hrun, hcalled.forget⟩
  | false =>
      obtain ⟨bs, t', hrun, hcalled⟩ := (hview.of_used hup).foreign call
      exact ⟨bs, t', hrun, hcalled.forget⟩

theorem push_view {i : Nat} {cb : LoopFunctor} (hm : m.Inv) (hget : m.hands[i]? = some cb)
    (hview : m.View t) :
    ∃ bs t', ConnectionUse.system.Run t bs t' ∧
      Conn.View
        { m with hands := m.hands.eraseIdx i, pending := m.pending ++ [.call cb] } t' := by
  have hup : .connectEstablished ∉ m.pending := by
    intro hnew
    rw [(hm.fresh hnew).hands] at hget
    cases hget
  obtain ⟨bs, t', hrun, hpushed⟩ := (hview.of_used hup).push hget
  refine ⟨bs, t', hrun, .used ?_ ?_⟩
  · simpa using hup
  · rw [taskCalls_append]
    exact hpushed

/-- `removeConnectionInLoop` is about the map and the queue of the server's functors. -/
theorem removal_view (hm : m.Inv) (hremovals : 0 < m.removals) (hview : m.View t)
    (hrun : { m with removals := m.removals - 1 }.removeConnectionInLoop b = .ok m') :
    m'.dispatch = m.dispatch ∧ m'.View t := by
  have hup : .connectEstablished ∉ m.pending := fun hnew =>
    (hm.fresh hnew).not_closed (Or.inr hremovals)
  have hm' := Conn.removeConnectionInLoop_ok hrun
  subst hm'
  refine ⟨rfl, .used ?_ ?_⟩
  · simpa using hup
  · rw [taskCalls_append]
    simpa [taskCalls] using hview.of_used hup

theorem run_view {w : WriteResult} {task : Task} {rest : List Task} (hm : m.Inv)
    (hpending : m.pending = task :: rest) (hidle : m.dispatch = []) (hview : m.View t)
    (hcall : s.call b a o { m with pending := rest } true (task.fn w) = .ok s') :
    ∃ bs t', ConnectionUse.system.Run t bs t' ∧ s'.View a t' := by
  have hrest : .connectEstablished ∉ rest := by
    intro hnew
    have hfresh := (hm.fresh (by rw [hpending]; exact List.mem_cons_of_mem _ hnew)).pending
    rw [hpending, List.cons_eq_cons] at hfresh
    rw [hfresh.2] at hnew
    cases hnew
  refine call_view hcall (fun _ => hidle) hrest ?_
  cases hview with
  | fresh hfresh hshows =>
      have hone := hpending.symm.trans hfresh.pending
      rw [List.cons_eq_cons] at hone
      obtain ⟨rfl, rfl⟩ := hone
      refine ⟨[], t, .nil t, ?_⟩
      rw [hidle, hfresh.hands]
      exact hshows
  | used hup hshows =>
      rw [hidle, hpending] at hshows
      rw [hidle]
      cases task with
      | connectEstablished => exact absurd (by rw [hpending]; exact List.mem_cons_self) hup
      | call cb =>
          obtain ⟨bs, t', hrun, hran⟩ := Shows.runFunctor hshows w
          exact ⟨bs, t', hrun, hran.forget⟩
      | connectDestroyed =>
          obtain ⟨bs, t', hrun, hdestroyed⟩ := Shows.connectDestroyed hshows
          exact ⟨bs, t', hrun, hdestroyed.forget⟩

/-- The steps about the connection itself. -/
theorem World.View.own_step (h : s.View a t) (hs : s.Inv) (hsubject : act.subject = some a)
    (hgoes : GoesOn a act) (hen : Enabled s act) (hexec : exec b s act = .ok s') :
    ∃ bs t', ConnectionUse.system.Run t bs t' ∧ s'.View a t' := by
  cases act with
  | newAcceptor a' fd =>
      cases hsubject
      exact absurd hen.2 h.occupied
  | newConnection a' fd onBase highWaterMark writeComplete highWater =>
      cases hsubject
      exact absurd hen.2 h.occupied
  | listen a' =>
      cases hsubject
      obtain ⟨o, _, ho, ⟨_, hkind⟩, _, _, _⟩ := owner_ok hs hen.2 hexec
      obtain ⟨m, howner, _⟩ := h.owner ho
      rw [howner] at hkind
      cases hkind
  | handle a' revents =>
      cases hsubject
      obtain ⟨o, c, ho, ⟨_, hquiet, _, ⟨d, hd, hindex⟩, _⟩, hc, hinv, hexec⟩ :=
        owner_ok hs hen.2 hexec
      rw [Option.mem_def, hc] at hd
      cases hd
      cases hexec
      exact handle_view h ho hinv hquiet hindex revents
  | callback a' r w =>
      cases hsubject
      obtain ⟨o, m, ho, _, howner, hne, _, hm, hexec⟩ := onConn_ok hs hen.2 hexec
      obtain ⟨hdispatch, hview⟩ := h.conn ho howner
      cases hlist : m.dispatch with
      | nil => exact absurd hlist hne
      | cons cb rest =>
          rw [hlist] at hexec
          exact callback_view hm hlist hdispatch hview hexec
  | handled a' =>
      cases hsubject
      obtain ⟨o, _, ho, ⟨_, _, hidle⟩, _, _, hexec⟩ := owner_ok hs hen hexec
      cases hexec
      obtain ⟨m, howner, _, hview⟩ := h.owner ho
      have hnone : m.dispatch = [] := hidle m (by rw [howner]; rfl)
      exact ⟨[], t, .nil t, _, m, Function.update_self .., howner, fun _ => hnone, hview⟩
  | hold a' =>
      cases hsubject
      obtain ⟨o, m, ho, _, howner, _, _, _, hexec⟩ := onConn_ok hs hen.2 hexec
      cases hexec
      obtain ⟨hdispatch, hview⟩ := h.conn ho howner
      exact ⟨[], t, .nil t, view_put o _ hdispatch (hview.pointers _)⟩
  | drop a' =>
      cases hsubject
      obtain ⟨o, m, ho, _, howner, _, _, _, hexec⟩ := onConn_ok hs hen hexec
      cases hexec
      obtain ⟨hdispatch, hview⟩ := h.conn ho howner
      exact ⟨[], t, .nil t, view_put o _ hdispatch (hview.pointers _)⟩
  | user a' inLoop call =>
      cases hsubject
      obtain ⟨o, m, ho, _, howner, ⟨hup, _⟩, _, _, hexec⟩ := onConn_ok hs hen.2 hexec
      obtain ⟨hdispatch, hview⟩ := h.conn ho howner
      exact user_view hup hdispatch hview hexec
  | push a' i =>
      cases hsubject
      obtain ⟨o, m, ho, _, howner, hi, _, hm, hexec⟩ := onConn_ok hs hen.2 hexec
      obtain ⟨hdispatch, hview⟩ := h.conn ho howner
      have hget : m.hands[i]? = some m.hands[i] := List.getElem?_eq_getElem hi
      rw [hget] at hexec
      cases hexec
      obtain ⟨bs, t', hrun, hpushed⟩ := push_view hm hget hview
      exact ⟨bs, t', hrun, view_put o _ hdispatch hpushed⟩
  | run a' w =>
      cases hsubject
      obtain ⟨o, m, ho, _, howner, ⟨hquiet, hne⟩, _, hm, hexec⟩ := onConn_ok hs hen.2 hexec
      obtain ⟨hdispatch, hview⟩ := h.conn ho howner
      cases hlist : m.pending with
      | nil => exact absurd hlist hne
      | cons task rest =>
          rw [hlist] at hexec
          exact run_view hm hlist (hdispatch hquiet) hview hexec
  | removeConnectionInLoop a' =>
      cases hsubject
      obtain ⟨o, m, ho, _, howner, hremovals, _, hm, hexec⟩ := onConn_ok hs hen.2 hexec
      obtain ⟨hdispatch, hview⟩ := h.conn ho howner
      obtain ⟨m', hm', hexec⟩ := exists_ok_of_bind hexec
      cases hexec
      obtain ⟨hsame, hview'⟩ := removal_view hm hremovals hview hm'
      rw [← hsame] at hdispatch
      exact ⟨[], t, .nil t, view_put o _ hdispatch hview'⟩
  | discard => cases hsubject
  | dtor a' =>
      cases hsubject
      obtain ⟨o, _, ho, _, _, _, hexec⟩ := owner_ok hs hen hexec
      obtain ⟨_, _, hexec⟩ := exists_ok_of_bind hexec
      obtain ⟨p, _, hexec⟩ := exists_ok_of_bind hexec
      cases hexec
      obtain ⟨m, howner, hrest⟩ := h.owner ho
      exact ⟨[], t, .nil t, _, m, Function.update_self .., howner, hrest⟩
  | channelDtor a' =>
      cases hsubject
      exact absurd rfl hgoes.2

/-- What is done about the other channels does not show. -/
theorem World.View.step (h : s.View a t) (hs : s.Inv) (hmeets : Meets s act)
    (hgoes : GoesOn a act) (hen : Enabled s act) (hexec : exec b s act = .ok s') :
    ∃ bs t', ConnectionUse.system.Run t bs t' ∧ s'.View a t' := by
  obtain ⟨a', hat⟩ := exec_at hs hgoes.1 hmeets hen hexec
  by_cases ha : a' = a
  case pos =>
    subst ha
    exact h.own_step hs hat.subject hgoes hen hexec
  case neg =>
    obtain ⟨o, _, howners⟩ := hat.owner
    refine ⟨[], t, .nil t, h.of_owners ?_⟩
    rw [howners, Function.update_of_ne (Ne.symm ha)]

/-! ## Runs -/

/-- `newConnection` begins a use of the connection. -/
theorem newConnection_view {fd : Int} {onBase : Bool} {highWaterMark : Nat}
    {writeComplete highWater : Bool}
    (hexec : exec b s (.newConnection a fd onBase highWaterMark writeComplete highWater) =
      .ok s') :
    s'.View a (Use.start fd highWaterMark writeComplete highWater) := by
  cases hexec
  have hshows := ConnectionUse.start_shows fd highWaterMark writeComplete highWater
  exact ⟨_, _, Function.update_self .., rfl, fun _ => rfl,
    .fresh ⟨rfl, rfl, rfl, rfl, rfl, rfl⟩ hshows.forget⟩

/-- Whatever goes on in the loop, what it does to one connection is part of a use of it. -/
theorem World.View.run {acts : List Act} (h : s.View a t) (hs : s.Inv)
    (hrun : ((system b).restrict fun s act => Meets s act ∧ GoesOn a act).Run s acts s') :
    ∃ bs t', ConnectionUse.system.Run t bs t' ∧ s'.View a t' := by
  have hpair : ∃ bs t', ConnectionUse.system.Run t bs t' ∧ s'.Inv ∧ s'.View a t' := by
    refine hrun.forward (R := fun s t => s.Inv ∧ s.View a t) ?_ ⟨hs, h⟩
    rintro s act s' t ⟨hs, h⟩ ⟨⟨hmeets, hgoes⟩, hen, hexec⟩
    obtain ⟨bs, t', hrun, hview⟩ := h.step hs hmeets hgoes hen hexec
    exact ⟨bs, t', hrun, exec_inv hs hmeets hen hexec, hview⟩
  obtain ⟨bs, t', huse, _, hview⟩ := hpair
  exact ⟨bs, t', huse, hview⟩

/-- The connection at the address, from its `connectEstablished` on. -/
def AtConn (s : World) (a : Addr) (c : TcpConnection) : Prop :=
  ∃ o ∈ s.owners a, ∃ m ∈ o.owner.conn?, .connectEstablished ∉ m.pending ∧ m.conn = c

theorem World.View.atConn (h : s.View a t) {c : TcpConnection} (hconn : AtConn s a c) :
    t.conn = c := by
  obtain ⟨o, ho, m, hm, hup, rfl⟩ := hconn
  exact ((h.conn ho (eq_of_conn? hm)).2.of_used hup).conn

/-- A connection that is not up does not come up again, whatever the loop, the server and the
threads do. -/
theorem World.View.was_connected {acts : List Act} {c c' : TcpConnection} (h : s.View a t)
    (hs : s.Inv)
    (hrun : ((system b).restrict fun s act => Meets s act ∧ GoesOn a act).Run s acts s')
    (hbefore : AtConn s a c) (hafter : AtConn s' a c') (hup : c'.state = .kConnected) :
    c.state = .kConnected := by
  obtain ⟨bs, t', huse, hview⟩ := h.run hs hrun
  rw [← h.atConn hbefore]
  rw [← hview.atConn hafter] at hup
  exact ConnectionUse.run_was_connected huse hup

end ChannelOwners
end Net
end Muduo
