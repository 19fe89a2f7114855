import Muduo.Foundation.StepSystem
import Muduo.Net.OutputStream

/-!
# ConnectionLifecycle — a connection goes up once and down once

From `connectEstablished` to `connectDestroyed`, the loop thread dispatches events to the
channel, runs the functors that the connection queues, and calls `send`, `shutdown` and
`forceClose` anywhere in between, also between two callbacks of one dispatch.

`handleClose` is entered from the close callback, from a read of zero bytes and from
`forceCloseInLoop`, each after its own test of the state.  `up_down_of_meets` says in which runs
the tests suffice; `closed_after_shutdown` is a run where they do not.

A user's calls inside `connectionCallback_` of `handleClose` find `kDisconnected` and do
nothing (`calls_when_disconnected`), which is why `handleClose` is one step here.
-/

namespace Muduo
namespace Net
namespace ConnectionLifecycle

open Effect TcpConnection

/-! ## Lives -/

structure Life where
  conn : TcpConnection
  /-- The callbacks of the current dispatch that are still to be made. -/
  dispatch : List Callback
  /-- Whether the current dispatch began with the close callback. -/
  hangup : Bool
  pending : List LoopFunctor
  destroyed : Bool
  log : List Effect

/-- The state after `connectEstablished`. -/
def Life.start (sockfd : Int) (highWaterMark : Nat) (writeComplete highWater : Bool) : Life where
  conn := established sockfd highWaterMark writeComplete highWater
  dispatch := []
  hangup := false
  pending := []
  destroyed := false
  log := [.connectionCallback true]

def Life.did (s : Life) (r : Result) : Life :=
  { s with conn := r.1, pending := s.pending ++ queued r.2, log := s.log ++ r.2 }

inductive Act
  | send (message : List UInt8) (w : WriteResult)
  | shutdown
  | forceClose
  | dispatch (revents : Mask)
  | callback (r : ReadResult) (w : WriteResult)
  | runFunctor (w : WriteResult)
  | connectDestroyed
  deriving DecidableEq, Repr

def next (s : Life) : Act → Life
  | .send message w => s.did (s.conn.send true message w)
  | .shutdown => s.did (s.conn.shutdown true)
  | .forceClose => s.did s.conn.forceClose
  | .dispatch revents =>
      { s with
        dispatch := handleEventWithGuard revents
        hangup := decide (.close ∈ handleEventWithGuard revents) }
  | .callback r w =>
      match s.dispatch with
      | cb :: rest => { s with dispatch := rest }.did (s.conn.onEvent cb r w)
      | [] => s
  | .runFunctor w =>
      match s.pending with
      | cb :: rest => { s with pending := rest }.did (s.conn.runFunctor cb w)
      | [] => s
  | .connectDestroyed => { s with destroyed := true }.did s.conn.connectDestroyed

/-- The kernel reports events only while the fd is in its interest set, that is while the
channel's index is `kAdded`; one dispatch or functor runs at a time; the run ends with
`connectDestroyed`. -/
def Enabled (s : Life) : Act → Prop
  | .send _ _ => s.destroyed = false
  | .shutdown => s.destroyed = false
  | .forceClose => s.destroyed = false
  | .dispatch _ => s.destroyed = false ∧ s.dispatch = [] ∧ s.conn.channel.index = .kAdded
  | .callback _ _ => s.dispatch ≠ []
  | .runFunctor _ => s.destroyed = false ∧ s.dispatch = [] ∧ s.pending ≠ []
  | .connectDestroyed => s.destroyed = false ∧ s.dispatch = []

instance (s : Life) (a : Act) : Decidable (Enabled s a) :=
  match a with
  | .send _ _ => inferInstanceAs (Decidable (_ = _))
  | .shutdown => inferInstanceAs (Decidable (_ = _))
  | .forceClose => inferInstanceAs (Decidable (_ = _))
  | .dispatch _ => inferInstanceAs (Decidable (_ ∧ _ ∧ _))
  | .callback _ _ => inferInstanceAs (Decidable (_ ≠ _))
  | .runFunctor _ => inferInstanceAs (Decidable (_ ∧ _ ∧ _))
  | .connectDestroyed => inferInstanceAs (Decidable (_ ∧ _))

def Starts (s : Life) : Prop :=
  ∃ sockfd highWaterMark writeComplete highWater,
    s = Life.start sockfd highWaterMark writeComplete highWater

def system : StepSystem Life Act :=
  StepSystem.ofNext Starts Enabled next

theorem calls_when_disconnected {c : TcpConnection} (h : c.state = .kDisconnected)
    (message : List UInt8) (w : WriteResult) :
    c.send true message w = (c, []) ∧ c.shutdown true = (c, []) ∧ c.forceClose = (c, []) := by
  simp [TcpConnection.send, TcpConnection.shutdown, TcpConnection.forceClose, h]

/-! ## Up once, down once -/

structure UpDown (s : Life) : Prop where
  entered : ∀ state, .handleClose state ∈ s.log → state = .kConnected ∨ state = .kDisconnecting
  closeOnce : s.log.count .closeCallback ≤ 1
  upOnce : s.log.count (.connectionCallback true) = 1
  downOnce : s.destroyed = true → s.log.count (.connectionCallback false) = 1

/-- The condition on each step: `shutdown` is not called on a connected connection,
`forceCloseInLoop` does not come after the close, a hang-up without input does not go on to read
zero bytes, and the connection is not destroyed in `kDisconnecting`. -/
def Meets (s : Life) : Act → Prop
  | .shutdown => s.conn.state ≠ .kConnected
  | .runFunctor _ => s.pending.head? = some .forceCloseInLoop → s.conn.state ≠ .kDisconnected
  | .callback r _ => s.hangup = true → s.dispatch.head? = some .read → r ≠ .bytes []
  | .connectDestroyed => s.conn.state ≠ .kDisconnecting
  | _ => True

instance (s : Life) (a : Act) : Decidable (Meets s a) :=
  match a with
  | .send _ _ => isTrue trivial
  | .shutdown => inferInstanceAs (Decidable (_ ≠ _))
  | .forceClose => isTrue trivial
  | .dispatch _ => isTrue trivial
  | .callback _ _ => inferInstanceAs (Decidable (_ → _ → _))
  | .runFunctor _ => inferInstanceAs (Decidable (_ → _))
  | .connectDestroyed => inferInstanceAs (Decidable (_ ≠ _))

/-! ## The invariant -/

/-- The channel is in the kernel's set and waits for input. -/
structure Listening (c : TcpConnection) : Prop where
  added : c.channel.index = .kAdded
  reading : c.channel.events.isReading = true

structure Open (s : Life) : Prop where
  state : s.conn.state = .kConnected ∨ s.conn.state = .kDisconnecting
  listening : Listening s.conn
  close : s.log.count .closeCallback = 0
  down : s.log.count (.connectionCallback false) = 0
  destroyed : s.destroyed = false

structure Closed (s : Life) : Prop where
  state : s.conn.state = .kDisconnected
  index : s.conn.channel.index ≠ .kAdded
  writing : s.conn.isWriting = false
  close : s.log.count .closeCallback ≤ 1
  down : s.log.count (.connectionCallback false) = 1
  /-- Of the dispatch that closed the connection, the read callback is only left over after a
  hang-up. -/
  rest : .close ∉ s.dispatch ∧ (.read ∈ s.dispatch → s.hangup = true)

/-- The functors that the loop thread's calls queue. -/
def isLifeFunctor : LoopFunctor → Bool
  | .forceCloseInLoop => true
  | .writeCompleteCallback => true
  | .highWaterMarkCallback _ => true
  | _ => false

structure Inv (s : Life) : Prop where
  up : s.log.count (.connectionCallback true) = 1
  entered : ∀ state, .handleClose state ∈ s.log → state = .kConnected ∨ state = .kDisconnecting
  functors : ∀ cb ∈ s.pending, isLifeFunctor cb = true
  order : s.dispatch.Pairwise (fun a b => a.rank < b.rank)
  hang : .close ∈ s.dispatch → s.hangup = true
  phase : Open s ∨ Closed s

variable {s : Life} {c : TcpConnection} {r : Result}

theorem Inv.upDown (h : Inv s) : UpDown s := by
  rcases h.phase with ho | hc
  · refine ⟨h.entered, by simp [ho.close], h.up, ?_⟩
    intro hd
    rw [ho.destroyed] at hd
    cases hd
  · exact ⟨h.entered, hc.close, h.up, fun _ => hc.down⟩

theorem start_inv (hs : Starts s) : Inv s := by
  rcases hs with ⟨sockfd, highWaterMark, writeComplete, highWater, rfl⟩
  refine ⟨by simp [Life.start], by simp [Life.start], by simp [Life.start], by simp [Life.start],
    by simp [Life.start], Or.inl ⟨Or.inl rfl, ⟨?_, ?_⟩, by simp [Life.start],
      by simp [Life.start], rfl⟩⟩
  · simp [Life.start, established, connectEstablished, setState, setInterest, TcpConnection.new,
      Channel.new, Channel.edit]
  · exact isReading_edit .enableReading _

/-! ## Steps that are not part of the life -/

/-- Editing the write interest of a channel that waits for input keeps it in the kernel's set. -/
theorem Listening.setInterest (h : Listening c) {op : Interest}
    (hop : op = .enableWriting ∨ op = .disableWriting) : Listening (c.setInterest op) := by
  have hreading : (op.edit c.channel.events).isReading = true := by
    rw [isReading_edit]
    rcases hop with rfl | rfl <;> exact h.reading
  have hsome : (op.edit c.channel.events).isNoneEvent = false := Mask.isNoneEvent_of_has hreading
  refine ⟨?_, hreading⟩
  simp [TcpConnection.setInterest, Channel.edit, h.added, hsome]

theorem Listening.sendInLoop (h : Listening c) (data : List UInt8) (w : WriteResult) :
    Listening (c.sendInLoop data w).1 := by
  have happend : ∀ rest, Listening (c.appendOutput rest) := by
    intro rest
    have hbuffered : Listening { c with outputBuffer := c.outputBuffer.append rest } :=
      ⟨h.added, h.reading⟩
    simp only [appendOutput]
    split
    · exact hbuffered
    · exact hbuffered.setInterest (Or.inl rfl)
  simp only [TcpConnection.sendInLoop]
  split_ifs
  · exact h
  · exact happend _
  · exact h

theorem Listening.handleWrite (h : Listening c) (w : WriteResult) :
    Listening (c.handleWrite w).1 := by
  have hspec := handleWrite_drain c w
  generalize c.handleWrite w = r at hspec
  cases hspec with
  | idle _ => exact h
  | part _ _ _ => exact ⟨h.added, h.reading⟩
  | all _ _ =>
      have hretrieved : Listening (c.retrieveOutput c.outputBuffer.readableBytes) :=
        ⟨h.added, h.reading⟩
      exact hretrieved.setInterest (Or.inr rfl)

/-- Effects that are neither part of the life nor calls from other threads. -/
def Quiet (effects : List Effect) : Prop :=
  ∀ e ∈ effects, e.isLifecycle = false ∧ ∀ cb, e = .queueInLoop cb → isLifeFunctor cb = true

theorem quiet_of_isOutput {effects : List Effect} (h : ∀ e ∈ effects, e.isOutput = true) :
    Quiet effects := by
  intro e he
  refine ⟨not_isLifecycle_of_isOutput (h e he), ?_⟩
  rintro cb rfl
  have hcb := h _ he
  cases cb <;> simp_all [isOutput, isLifeFunctor]

theorem handleWrite_quiet (c : TcpConnection) (w : WriteResult) : Quiet (c.handleWrite w).2 := by
  have hspec := handleWrite_drain c w
  generalize c.handleWrite w = r at hspec
  intro e he
  cases hspec with
  | idle heffects => rcases heffects with rfl | rfl <;> simp_all [isLifecycle]
  | part _ _ _ => simp_all [isLifecycle]
  | all _ _ =>
      simp only [List.cons_append, List.mem_cons, List.mem_append] at he
      rcases he with rfl | he | he
      · simp [isLifecycle]
      · split at he <;> simp_all [isLifecycle, isLifeFunctor]
      · split at he <;> simp_all [isLifecycle]

theorem count_quiet {effects : List Effect} (h : Quiet effects) (log : List Effect) {e : Effect}
    (he : e.isLifecycle = true) : (log ++ effects).count e = log.count e := by
  have hnot : e ∉ effects := by
    intro hin
    rw [(h e hin).1] at he
    cases he
  rw [List.count_append, List.count_eq_zero_of_not_mem hnot, Nat.add_zero]

/-- A quiet function keeps the phase: an open connection stays in `kConnected` or
`kDisconnecting` and keeps listening, a closed one is not touched. -/
theorem Inv.quiet (h : Inv s) (hquiet : Quiet r.2)
    (hopen : Open s → (r.1.state = .kConnected ∨ r.1.state = .kDisconnecting) ∧ Listening r.1)
    (hclosed : Closed s → r.1 = s.conn) : Inv (s.did r) := by
  -- No counter moves, because no effect of the function is one of those counted.
  refine ⟨?_, ?_, ?_, h.order, h.hang, ?_⟩
  · exact (count_quiet hquiet s.log rfl).trans h.up
  · intro state hin
    rcases List.mem_append.mp hin with hin | hin
    · exact h.entered state hin
    · have := (hquiet _ hin).1
      simp [isLifecycle] at this
  · intro cb hcb
    rcases List.mem_append.mp hcb with hin | hin
    · exact h.functors cb hin
    · exact (hquiet _ (mem_queued.mp hin)).2 cb rfl
  · rcases h.phase with ho | hc
    · rcases hopen ho with ⟨hstate, hlisten⟩
      exact Or.inl ⟨hstate, hlisten, (count_quiet hquiet s.log rfl).trans ho.close,
        (count_quiet hquiet s.log rfl).trans ho.down, ho.destroyed⟩
    · have hsame := hclosed hc
      refine Or.inr ⟨?_, ?_, ?_, ?_, (count_quiet hquiet s.log rfl).trans hc.down, hc.rest⟩
      · simpa [Life.did, hsame] using hc.state
      · simpa [Life.did, hsame] using hc.index
      · simpa [Life.did, hsame] using hc.writing
      · exact (count_quiet hquiet s.log rfl).trans_le hc.close

/-- A step that does nothing to the connection. -/
theorem Inv.idle (h : Inv s) : Inv (s.did (s.conn, [])) :=
  h.quiet (by intro e he; simp at he) (fun ho => ⟨ho.state, ho.listening⟩) (fun _ => rfl)

/-! ## Closing -/

theorem not_isWriting_disableAll (c : TcpConnection) :
    (c.setInterest .disableAll).isWriting = false := by
  rw [isWriting_setInterest, isWriting_edit]

theorem index_disableAll (h : Listening c) :
    (c.setInterest .disableAll).channel.index = .kDeleted := by
  have hnone : (kNoneEvent).isNoneEvent = true := by decide
  simp [TcpConnection.setInterest, Channel.edit, Interest.edit, h.added, hnone]

/-- `handleClose` takes an open connection to the closed phase, when the dispatch it is part of
does not come back to it. -/
theorem Inv.close (h : Inv s) (ho : Open s) (hclose : .close ∉ s.dispatch)
    (hread : .read ∈ s.dispatch → s.hangup = true) : Inv (s.did s.conn.handleClose) := by
  have hlisten : Listening (s.conn.setState .kDisconnected) :=
    ⟨ho.listening.added, ho.listening.reading⟩
  have heffects : s.conn.handleClose.2 =
      [.handleClose s.conn.state, .connectionCallback false, .closeCallback] := rfl
  have hconn : s.conn.handleClose.1 = (s.conn.setState .kDisconnected).setInterest .disableAll :=
    rfl
  refine ⟨?_, ?_, ?_, h.order, h.hang, Or.inr ⟨?_, ?_, ?_, ?_, ?_, hclose, hread⟩⟩
  · simpa [Life.did, heffects, List.count_append] using h.up
  · intro state hin
    simp only [Life.did, heffects, List.mem_append, List.mem_cons, List.not_mem_nil, or_false,
      reduceCtorEq, Effect.handleClose.injEq] at hin
    rcases hin with hin | rfl
    · exact h.entered state hin
    · exact ho.state
  · simpa [Life.did, heffects, queued] using h.functors
  · rfl
  · simp [Life.did, hconn, index_disableAll hlisten]
  · exact not_isWriting_disableAll _
  · simp [Life.did, heffects, List.count_append, ho.close]
  · simp [Life.did, heffects, List.count_append, ho.down]

theorem Open.withDispatch (ho : Open s) (rest : List Callback) :
    Open { s with dispatch := rest } :=
  ⟨ho.state, ho.listening, ho.close, ho.down, ho.destroyed⟩

theorem Inv.shrink (h : Inv s) {cb : Callback} {rest : List Callback}
    (hdispatch : s.dispatch = cb :: rest) : Inv { s with dispatch := rest } := by
  have horder := h.order
  rw [hdispatch, List.pairwise_cons] at horder
  have hmem : ∀ cb' ∈ rest, cb' ∈ s.dispatch := by
    intro cb' hcb'
    rw [hdispatch]
    exact List.mem_cons_of_mem _ hcb'
  refine ⟨h.up, h.entered, h.functors, horder.2, fun hin => h.hang (hmem _ hin), ?_⟩
  rcases h.phase with ho | hc
  · exact Or.inl (ho.withDispatch rest)
  · refine Or.inr ⟨hc.state, hc.index, hc.writing, hc.close, hc.down, ?_, ?_⟩
    · exact fun hin => hc.rest.1 (hmem _ hin)
    · exact fun hin => hc.rest.2 (hmem _ hin)

/-! ## Every step -/

theorem Inv.callback (h : Inv s) {cb : Callback} {rest : List Callback}
    (hdispatch : s.dispatch = cb :: rest) (r : ReadResult) (w : WriteResult)
    (hmeets : s.hangup = true → cb = .read → r ≠ .bytes []) :
    Inv (Life.did { s with dispatch := rest } (s.conn.onEvent cb r w)) := by
  have horder := h.order
  rw [hdispatch, List.pairwise_cons] at horder
  have hshrunk := h.shrink hdispatch
  cases cb with
  | close =>
      -- The close callback comes first in its dispatch, so the connection is open.
      have hnot : .close ∉ rest := fun hin => absurd (horder.1 _ hin) (by decide)
      rcases h.phase with ho | hc
      · exact hshrunk.close (ho.withDispatch rest) hnot fun _ => h.hang (by simp [hdispatch])
      · exact absurd (by simp [hdispatch]) hc.rest.1
  | error => exact hshrunk.idle
  | read =>
      cases r with
      | fail => exact hshrunk.idle
      | bytes data =>
          rw [onEvent, handleRead]
          by_cases hdata : 0 < data.length
          · rw [if_pos hdata]
            refine hshrunk.quiet ?_ (fun ho => ⟨ho.state, ho.listening⟩) (fun _ => rfl)
            intro e he
            simp only [List.mem_singleton] at he
            subst he
            simp [isLifecycle]
          · have hnil : data = [] := by
              simpa using hdata
            rw [if_neg hdata]
            rcases h.phase with ho | hc
            · -- Neither the close callback nor a second read follows a read.
              refine hshrunk.close (ho.withDispatch rest) ?_ ?_
              · exact fun hin => absurd (horder.1 _ hin) (by decide)
              · exact fun hin => absurd (horder.1 _ hin) (by decide)
            · have hhang : s.hangup = true := hc.rest.2 (by simp [hdispatch])
              exact absurd (by rw [hnil]) (hmeets hhang rfl)
  | write =>
      -- Without write interest, as after a close, `handleWrite` only logs.
      refine hshrunk.quiet (handleWrite_quiet _ _) ?_ ?_
      · intro ho
        exact ⟨by simpa [onEvent, handleWrite_state] using ho.state, ho.listening.handleWrite w⟩
      · intro hc
        have hoff : s.conn.isWriting = false := hc.writing
        simp [onEvent, TcpConnection.handleWrite, hoff]

theorem Inv.runFunctor (h : Inv s) (hidle : s.dispatch = []) {cb : LoopFunctor}
    {rest : List LoopFunctor} (hpending : s.pending = cb :: rest) (w : WriteResult)
    (hmeets : cb = .forceCloseInLoop → s.conn.state ≠ .kDisconnected) :
    Inv (Life.did { s with pending := rest } (s.conn.runFunctor cb w)) := by
  have hrest : Inv { s with pending := rest } := by
    refine ⟨h.up, h.entered, ?_, h.order, h.hang, ?_⟩
    · intro cb' hcb'
      exact h.functors cb' (by simp [hpending, show cb' ∈ rest from hcb'])
    · rcases h.phase with ho | hc
      · exact Or.inl ⟨ho.state, ho.listening, ho.close, ho.down, ho.destroyed⟩
      · exact Or.inr ⟨hc.state, hc.index, hc.writing, hc.close, hc.down, hc.rest⟩
  have hown := h.functors cb (by simp [hpending])
  cases cb with
  | forceCloseInLoop =>
      rw [TcpConnection.runFunctor, TcpConnection.forceCloseInLoop]
      split
      case isTrue htest =>
        -- The test passes in `kConnected`, and in `kDisconnected`, which the condition excludes.
        rcases hrest.phase with ho | hc
        · exact hrest.close ho (by simp [hidle]) (by simp [hidle])
        · exact absurd hc.state (hmeets rfl)
      case isFalse => exact hrest.idle
  | writeCompleteCallback => exact hrest.idle
  | highWaterMarkCallback n => exact hrest.idle
  | sendInLoop message => simp [isLifeFunctor] at hown
  | shutdownInLoop => simp [isLifeFunctor] at hown
  | startReadInLoop => simp [isLifeFunctor] at hown

theorem Inv.connectDestroyed (h : Inv s) (hidle : s.dispatch = [])
    (hmeets : s.conn.state ≠ .kDisconnecting) :
    Inv (Life.did { s with destroyed := true } s.conn.connectDestroyed) := by
  rcases h.phase with ho | hc
  · -- Destroyed while connected: this is the one place that says down without `handleClose`.
    have hstate : s.conn.state = .kConnected := ho.state.resolve_right hmeets
    have heffects : s.conn.connectDestroyed.2 = [.connectionCallback false] := by
      simp [TcpConnection.connectDestroyed, hstate, connected, setState, setInterest]
    have hstate' : s.conn.connectDestroyed.1.state = .kDisconnected := by
      simp [TcpConnection.connectDestroyed, hstate, setInterest, setState]
    have hindex : s.conn.connectDestroyed.1.channel.index = .kNew := by
      simp [TcpConnection.connectDestroyed, hstate, Channel.removed]
    have hwriting : s.conn.connectDestroyed.1.isWriting = false := by
      rw [TcpConnection.connectDestroyed, if_pos hstate]
      exact not_isWriting_disableAll (s.conn.setState .kDisconnected)
    refine ⟨?_, ?_, ?_, h.order, h.hang,
      Or.inr ⟨hstate', by simp [Life.did, hindex], hwriting, ?_, ?_, by simp [Life.did, hidle]⟩⟩
    · simpa [Life.did, heffects, List.count_append] using h.up
    · simpa [Life.did, heffects] using h.entered
    · simpa [Life.did, heffects, queued] using h.functors
    · simp [Life.did, heffects, List.count_append, ho.close]
    · simp [Life.did, heffects, List.count_append, ho.down]
  · -- Destroyed after the close: only the channel is removed.
    have hres : s.conn.connectDestroyed =
        ({ s.conn with channel := s.conn.channel.removed }, []) := by
      simp [TcpConnection.connectDestroyed, hc.state]
    rw [hres]
    refine ⟨?_, ?_, ?_, h.order, h.hang, Or.inr ⟨?_, ?_, ?_, ?_, ?_, by simp [Life.did, hidle]⟩⟩
    · simpa [Life.did] using h.up
    · simpa [Life.did] using h.entered
    · simpa [Life.did, queued] using h.functors
    · exact hc.state
    · simp [Life.did, Channel.removed]
    · exact hc.writing
    · simpa [Life.did] using hc.close
    · simpa [Life.did] using hc.down

theorem Inv.send (h : Inv s) (message : List UInt8) (w : WriteResult) :
    Inv (s.did (s.conn.send true message w)) := by
  rw [TcpConnection.send]
  split
  case isTrue hstate =>
    refine h.quiet (quiet_of_isOutput (sendInLoop_isOutput _ _ _)) ?_ ?_
    · intro ho
      exact ⟨Or.inl ((sendInLoop_state _ _ _).trans hstate), ho.listening.sendInLoop _ _⟩
    · intro hc
      simp [hc.state] at hstate
  case isFalse => exact h.idle

theorem Inv.forceClose (h : Inv s) : Inv (s.did s.conn.forceClose) := by
  rw [TcpConnection.forceClose]
  split
  case isTrue hstate =>
    refine h.quiet ?_ ?_ ?_
    · intro e he
      simp only [List.mem_singleton] at he
      subst he
      simp [isLifecycle, isLifeFunctor]
    · intro ho
      exact ⟨Or.inr rfl, ho.listening.added, ho.listening.reading⟩
    · intro hc
      simp [hc.state] at hstate
  case isFalse => exact h.idle

/-- Only a channel in the kernel's set is dispatched to, so the connection is open when a
dispatch begins. -/
theorem Inv.dispatch (h : Inv s) (hadded : s.conn.channel.index = .kAdded) (revents : Mask) :
    Inv (next s (.dispatch revents)) := by
  refine ⟨h.up, h.entered, h.functors, handleEventWithGuard_ordered revents, ?_, ?_⟩
  · intro hin
    simpa [next] using hin
  · rcases h.phase with ho | hc
    · exact Or.inl ⟨ho.state, ho.listening, ho.close, ho.down, ho.destroyed⟩
    · exact absurd hadded hc.index

theorem step_inv (h : Inv s) {a : Act} (hmeets : Meets s a) (hen : Enabled s a) :
    Inv (next s a) := by
  cases a with
  | send message w => exact h.send message w
  | shutdown =>
      -- Outside `kConnected` the call does nothing.
      have hskip : s.conn.shutdown true = (s.conn, []) := by
        simp [TcpConnection.shutdown, show s.conn.state ≠ .kConnected from hmeets]
      rw [next, hskip]
      exact h.idle
  | forceClose => exact h.forceClose
  | dispatch revents => exact h.dispatch hen.2.2 revents
  | callback r w =>
      cases hdispatch : s.dispatch with
      | nil => exact absurd hdispatch hen
      | cons cb rest =>
          have hcond : s.hangup = true → cb = .read → r ≠ .bytes [] := by
            intro hhang hcb
            exact hmeets hhang (by simp [hdispatch, hcb])
          simpa only [next, hdispatch] using h.callback hdispatch r w hcond
  | runFunctor w =>
      rcases hen with ⟨_, hidle, hne⟩
      cases hpending : s.pending with
      | nil => exact absurd hpending hne
      | cons cb rest =>
          have hcond : cb = .forceCloseInLoop → s.conn.state ≠ .kDisconnected := by
            intro hcb
            exact hmeets (by simp [hpending, hcb])
          simpa only [next, hpending] using h.runFunctor hidle hpending w hcond
  | connectDestroyed => exact h.connectDestroyed hen.2 hmeets

/-- In every run whose steps meet the condition, the connection goes up once and down once. -/
theorem up_down_of_meets (hs : (system.restrict Meets).Reachable s) : UpDown s := by
  have hinv : Inv s := by
    refine hs.invariant start_inv ?_
    rintro s a t h ⟨hmeets, hen, rfl⟩
    exact step_inv h hmeets hen
  exact hinv.upDown

/-- A message is sent in part, a request arrives while the rest goes out, and the peer closes. -/
def peerCloseRun : List Act :=
  [.send [1, 2] (.accept 1), .dispatch (EPOLLIN ||| EPOLLOUT), .callback (.bytes [9]) (.accept 0),
    .callback (.bytes [9]) (.accept 1), .dispatch EPOLLIN, .callback (.bytes []) (.accept 0),
    .connectDestroyed]

def peerCloseLife : Life :=
  peerCloseRun.foldl next (Life.start 7 1024 false false)

theorem up_down_of_meets_peerClose :
    ((system.restrict Meets).Reachable peerCloseLife ∧ peerCloseLife.destroyed = true) ∧
      UpDown peerCloseLife := by
  have hrun : (system.restrict Meets).Run (Life.start 7 1024 false false) peerCloseRun
      peerCloseLife := by
    rw [system, StepSystem.restrict_ofNext]
    exact StepSystem.run_foldl (by decide +kernel)
  have hs : (system.restrict Meets).Reachable peerCloseLife :=
    hrun.reachable (StepSystem.Reachable.init ⟨7, 1024, false, false, rfl⟩)
  exact ⟨⟨hs, by decide +kernel⟩, up_down_of_meets hs⟩

/-- The user shuts down; then the peer closes, which is a read of zero bytes. -/
def shutdownRun : List Act :=
  [.shutdown, .dispatch EPOLLIN, .callback (.bytes []) (.accept 0)]

def shutdownLife : Life :=
  shutdownRun.foldl next (Life.start 7 1024 false false)

/-- `handleClose` is entered with `kDisconnected`, which its `assert` excludes. -/
theorem closed_after_shutdown : system.Reachable shutdownLife ∧ ¬ UpDown shutdownLife := by
  have hrun : system.Run (Life.start 7 1024 false false) shutdownRun shutdownLife :=
    StepSystem.run_foldl (by decide)
  refine ⟨hrun.reachable (StepSystem.Reachable.init ⟨7, 1024, false, false, rfl⟩), ?_⟩
  intro h
  have hentered := h.entered .kDisconnected (by decide)
  simp at hentered

end ConnectionLifecycle
end Net
end Muduo
