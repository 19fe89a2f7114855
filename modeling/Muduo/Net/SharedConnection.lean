import Muduo.Net.EventLoop
import Muduo.Net.OutputNotifications

/-!
# SharedConnection — a connection, its loop and any number of threads

The functions of `muduo/net/TcpConnection.h` that are for any thread run their body on the calling
thread and leave the rest to the loop: as a functor that goes through `queueInLoop`, or at once on
the loop thread.  Here the threads, the steps of the loop and the events of the channel interleave
as they like, and what a function of the connection queues goes to the same loop.

A message is written whole, and the messages of one thread stay in the order in which it sent them
(`messages_in_order`).
-/

namespace Muduo
namespace Net

open Effect

/-- A functor on its way to the loop, and the thread that has bound it; `none` is the thread of
the loop. -/
structure Parcel where
  sender : Option Nat
  cb : LoopFunctor
  deriving DecidableEq, Repr

/-- A message that `sendInLoop` was called with, and whether it has taken it. -/
structure Delivery where
  sender : Option Nat
  message : List UInt8
  taken : Bool
  deriving DecidableEq, Repr

/-- The calls that are for any thread. -/
inductive Call
  | send (message : List UInt8)
  | shutdown
  | forceClose
  | startRead
  | stopRead
  deriving DecidableEq, Repr

def Call.run (c : TcpConnection) (inLoop : Bool) (w : WriteResult) : Call → TcpConnection.Result
  | .send message => c.send inLoop message w
  | .shutdown => c.shutdown inLoop
  | .forceClose => c.forceClose
  | .startRead => c.startRead inLoop
  | .stopRead => c.stopRead inLoop

/-- The message that a call sends, if it finds the connection connected. -/
def Call.sends (c : TcpConnection) : Call → List (List UInt8)
  | .send message => if c.state = .kConnected then [message] else []
  | _ => []

def LoopFunctor.messages : LoopFunctor → List (List UInt8)
  | .sendInLoop message => [message]
  | _ => []

structure SharedConnection where
  loop : EventLoop Parcel
  conn : TcpConnection
  /-- What a thread has bound and not yet pushed. -/
  hand : Nat → List LoopFunctor
  log : List Effect
  /-- The messages of the calls of `send`, but for those that found the connection closed. -/
  sent : List (Option Nat × List UInt8)
  delivered : List Delivery

namespace SharedConnection

open TcpConnection (WritesPending)

/-- `sendInLoop` does not give the message up. -/
def takes (c : TcpConnection) (w : WriteResult) : Bool :=
  decide (c.state ≠ .kDisconnected) && !c.drops w

/-- `queueInLoop` on the thread of the loop. -/
def queueAll (l : EventLoop Parcel) (cbs : List LoopFunctor) : EventLoop Parcel :=
  cbs.foldl (fun l cb => l.next (.queueInLoop ⟨none, cb⟩)) l

/-- The thread of the loop has run a function of the connection. -/
def loopDid (s : SharedConnection) (r : TcpConnection.Result) : SharedConnection :=
  { s with conn := r.1, loop := queueAll s.loop (queued r.2), log := s.log ++ r.2 }

def deliver (s : SharedConnection) (sender : Option Nat) (w : WriteResult)
    (messages : List (List UInt8)) : SharedConnection :=
  { s with
    delivered := s.delivered ++ messages.map fun message => ⟨sender, message, takes s.conn w⟩ }

def record (s : SharedConnection) (sender : Option Nat) (messages : List (List UInt8)) :
    SharedConnection :=
  { s with sent := s.sent ++ messages.map fun message => (sender, message) }

inductive Act
  /-- The body of a call on a foreign thread. -/
  | body (thread : Nat) (call : Call)
  /-- The `push_back` of the functor that it has bound. -/
  | push (thread : Nat)
  /-- A call on the thread of the loop. -/
  | call (call : Call) (w : WriteResult)
  /-- The channel calls the function for one of its events. -/
  | event (cb : Callback) (r : ReadResult) (w : WriteResult)
  /-- The loop calls the next functor of its batch. -/
  | functor (w : WriteResult)
  /-- Any other step of the loop, and the `wakeup()` of a foreign thread. -/
  | loop (a : EventLoop.Act Parcel)
  deriving DecidableEq, Repr

/-- The step neither pushes a functor nor calls one. -/
def quiet : EventLoop.Act Parcel → Bool
  | .push _ _ => false
  | .queueInLoop _ => false
  | .call => false
  | _ => true

def next (s : SharedConnection) : Act → SharedConnection
  | .body thread call =>
      let r := call.run s.conn false (.accept 0)
      { s.record (some thread) (call.sends s.conn) with
        conn := r.1
        hand := Function.update s.hand thread (s.hand thread ++ queued r.2)
        log := s.log ++ r.2 }
  | .push thread =>
      match s.hand thread with
      | cb :: rest =>
          { s with
            loop := s.loop.next (.push thread ⟨some thread, cb⟩)
            hand := Function.update s.hand thread rest }
      | [] => s
  | .call call w =>
      let t := (s.record none (call.sends s.conn)).deliver none w (call.sends s.conn)
      t.loopDid (call.run s.conn true w)
  | .event cb r w => s.loopDid (s.conn.onEvent cb r w)
  | .functor w =>
      match s.loop.functors with
      | ticket :: _ =>
          let t := s.deliver ticket.functor.sender w ticket.functor.cb.messages
          loopDid { t with loop := s.loop.next .call } (s.conn.runFunctor ticket.functor.cb w)
      | [] => s
  | .loop a => { s with loop := s.loop.next a }

def Enabled (s : SharedConnection) : Act → Prop
  | .body thread _ => s.hand thread = [] ∧ thread ∉ s.loop.waking
  | .push thread => s.hand thread ≠ [] ∧ thread ∉ s.loop.waking
  | .call _ _ => s.loop.pc.userCode = true
  | .event _ _ _ => s.loop.pc = .handling true ∨ s.loop.pc = .handling false
  | .functor _ => EventLoop.Enabled s.loop .call
  | .loop a => quiet a = true ∧ EventLoop.Enabled s.loop a

instance (s : SharedConnection) (a : Act) : Decidable (Enabled s a) :=
  match a with
  | .body _ _ => inferInstanceAs (Decidable (_ ∧ _))
  | .push _ => inferInstanceAs (Decidable (_ ∧ _))
  | .call _ _ => inferInstanceAs (Decidable (_ = _))
  | .event _ _ _ => inferInstanceAs (Decidable (_ ∨ _))
  | .functor _ => inferInstanceAs (Decidable (EventLoop.Enabled s.loop .call))
  | .loop a => inferInstanceAs (Decidable (quiet a = true ∧ EventLoop.Enabled s.loop a))

/-- A connection that was just established. -/
def Starts (s : SharedConnection) : Prop :=
  ∃ sockfd highWaterMark writeComplete highWater,
    s = { loop := EventLoop.new,
          conn := TcpConnection.established sockfd highWaterMark writeComplete highWater,
          hand := fun _ => [], log := [], sent := [], delivered := [] }

def system : StepSystem SharedConnection Act :=
  StepSystem.ofNext Starts Enabled next

/-! ## Order -/

variable {s t : SharedConnection} {c : TcpConnection} {r : TcpConnection.Result} {x : Option Nat}

def deliveredBy (s : SharedConnection) (x : Option Nat) : List (List UInt8) :=
  (s.delivered.filter (·.sender = x)).map (·.message)

def sentBy (s : SharedConnection) (x : Option Nat) : List (List UInt8) :=
  (s.sent.filter (·.1 = x)).map (·.2)

/-- The messages of a thread among queued functors. -/
def mail (x : Option Nat) (l : List (Ticket Parcel)) : List (List UInt8) :=
  (l.filter (·.functor.sender = x)).flatMap fun ticket => ticket.functor.cb.messages

def inHand (s : SharedConnection) : Option Nat → List (List UInt8)
  | some i => (s.hand i).flatMap LoopFunctor.messages
  | none => []

structure MessagesInOrder (s : SharedConnection) : Prop where
  /-- What was written and what waits to be written are whole messages. -/
  whole : written s.log ++ s.conn.outputBuffer.content =
    ((s.delivered.filter (·.taken)).map (·.message)).flatten
  /-- The messages of a thread get to `sendInLoop` once each and in order. -/
  inOrder : ∀ x, s.deliveredBy x ++ mail x s.loop.queue ++ s.inHand x = s.sentBy x

/-! ## What the functions do to the output -/

/-- The write interest goes with the output, or the connection is closed for good. -/
def Settled (c : TcpConnection) : Prop :=
  c.WritesPending ∨ (c.state = .kDisconnected ∧ c.isWriting = false)

/-- A function on the thread of the loop has put the messages `taken` behind the output; it does
not queue messages. -/
structure Moves (c : TcpConnection) (taken : List (List UInt8)) (r : TcpConnection.Result) :
    Prop where
  settled : Settled r.1
  stream : written r.2 ++ r.1.outputBuffer.content = c.outputBuffer.content ++ taken.flatten
  queue : ∀ cb ∈ queued r.2, cb.messages = []

theorem Moves.of_isOutput {taken : List (List UInt8)} (hsettled : Settled r.1)
    (hstream : written r.2 ++ r.1.outputBuffer.content = c.outputBuffer.content ++ taken.flatten)
    (hout : ∀ e ∈ r.2, e.isOutput = true) : Moves c taken r := by
  refine ⟨hsettled, hstream, ?_⟩
  intro cb hcb
  have he := hout _ (mem_queued.mp hcb)
  cases cb <;> simp_all [isOutput, LoopFunctor.messages]

theorem sendInLoop_moves (h : Settled c) (message : List UInt8) (w : WriteResult) :
    Moves c (if takes c w then [message] else []) (c.sendInLoop message w) := by
  by_cases hstate : c.state = .kDisconnected
  · have hclosed : c.sendInLoop message w = (c, []) := if_pos hstate
    rw [hclosed]
    exact ⟨h, by simp [written, takes, hstate], by simp [queued]⟩
  · have hpending : c.WritesPending := h.resolve_right fun hno => hstate hno.1
    obtain ⟨hnext, hstream⟩ := TcpConnection.sendInLoop_stream hstate hpending message w
    refine .of_isOutput (Or.inl hnext) ?_ (TcpConnection.sendInLoop_isOutput c message w)
    rw [hstream]
    cases hdrops : c.drops w <;> simp [takes, hstate, hdrops]

theorem handleWrite_moves (h : Settled c) (w : WriteResult) : Moves c [] (c.handleWrite w) := by
  rcases h with hpending | hclosed
  · obtain ⟨hnext, hstream⟩ := TcpConnection.handleWrite_stream hpending w
    refine ⟨Or.inl hnext, by simpa using hstream, ?_⟩
    have hdrain := TcpConnection.handleWrite_drain c w
    generalize c.handleWrite w = r at hdrain
    intro cb hcb
    cases hdrain with
    | idle heffects => rcases heffects with rfl | rfl <;> simp [queued] at hcb
    | part => simp [queued] at hcb
    | all =>
        have hin := mem_queued.mp hcb
        simp only [List.cons_append, List.mem_cons, List.mem_append, reduceCtorEq, false_or] at hin
        rcases hin with hin | hin
        · split at hin <;> simp_all [LoopFunctor.messages]
        · split at hin <;> simp at hin
  · have hidle : c.handleWrite w = (c, []) := by
      rw [TcpConnection.handleWrite.eq_def, if_neg (by simp [hclosed.2])]
    rw [hidle]
    exact ⟨Or.inr hclosed, by simp [written], by simp [queued]⟩

/-- A function that leaves the output alone. -/
theorem Moves.of_same (hsettled : Settled r.1)
    (hcontent : r.1.outputBuffer.content = c.outputBuffer.content) (hwritten : written r.2 = [])
    (hqueue : ∀ cb ∈ queued r.2, cb.messages = []) : Moves c [] r :=
  ⟨hsettled, by rw [hwritten, hcontent]; simp, hqueue⟩

/-- No message was offered. -/
theorem Moves.none {b : Bool} (h : Moves c [] r) : Moves c (if b = true then [] else []) r := by
  rw [ite_self]
  exact h

/-- The interest in reading and the state do not matter, as long as a closed connection stays
closed. -/
theorem Settled.congr {d : TcpConnection} (h : Settled c) (hwriting : d.isWriting = c.isWriting)
    (hcontent : d.outputBuffer.content = c.outputBuffer.content)
    (hstate : c.state = .kDisconnected → d.state = .kDisconnected) : Settled d := by
  rcases h with hpending | ⟨hclosed, hoff⟩
  · exact Or.inl (by rwa [WritesPending, hwriting, hcontent])
  · exact Or.inr ⟨hstate hclosed, hwriting.trans hoff⟩

theorem handleClose_moves (c : TcpConnection) : Moves c [] c.handleClose := by
  refine .of_same (Or.inr ⟨rfl, ?_⟩) rfl rfl (by simp [TcpConnection.handleClose, queued])
  simp [TcpConnection.handleClose, TcpConnection.isWriting_setInterest, isWriting_edit]

theorem handleRead_moves (h : Settled c) (r : ReadResult) : Moves c [] (c.handleRead r) := by
  cases r with
  | fail => exact .of_same h rfl rfl (by simp [TcpConnection.handleRead, queued])
  | bytes data =>
      simp only [TcpConnection.handleRead]
      split
      · exact .of_same h rfl rfl (by simp [queued])
      · exact handleClose_moves c

theorem startReadInLoop_moves (h : Settled c) : Moves c [] (c.startReadInLoop, []) := by
  have hsame : c.startReadInLoop.isWriting = c.isWriting ∧
      c.startReadInLoop.outputBuffer = c.outputBuffer ∧ c.startReadInLoop.state = c.state := by
    rw [TcpConnection.startReadInLoop]
    split
    · refine ⟨?_, rfl, rfl⟩
      exact (TcpConnection.isWriting_setInterest c .enableReading).trans
        (isWriting_edit .enableReading _)
    · exact ⟨rfl, rfl, rfl⟩
  obtain ⟨hwriting, houtput, hstate⟩ := hsame
  have hcontent := congrArg WFBuffer.content houtput
  refine .of_same (h.congr hwriting hcontent fun hclosed => hstate.trans hclosed) hcontent rfl ?_
  simp [queued]

theorem shutdownInLoop_moves (h : Settled c) : Moves c [] c.shutdownInLoop := by
  rw [TcpConnection.shutdownInLoop]
  split <;> exact .of_same h rfl rfl (by simp [queued])

theorem forceCloseInLoop_moves (h : Settled c) : Moves c [] c.forceCloseInLoop := by
  rw [TcpConnection.forceCloseInLoop]
  split
  · exact handleClose_moves c
  · exact .of_same h rfl rfl (by simp [queued])

theorem runFunctor_moves (h : Settled c) (cb : LoopFunctor) (w : WriteResult) :
    Moves c (if takes c w then cb.messages else []) (c.runFunctor cb w) := by
  cases cb with
  | sendInLoop message => exact sendInLoop_moves h message w
  | shutdownInLoop => exact (shutdownInLoop_moves h).none
  | forceCloseInLoop => exact (forceCloseInLoop_moves h).none
  | startReadInLoop => exact (startReadInLoop_moves h).none
  | writeCompleteCallback | highWaterMarkCallback len =>
      have hnothing : Moves c [] (c, []) := .of_same h rfl rfl (by simp [queued])
      exact hnothing.none

theorem onEvent_moves (h : Settled c) (cb : Callback) (r : ReadResult) (w : WriteResult) :
    Moves c [] (c.onEvent cb r w) := by
  cases cb with
  | close => exact handleClose_moves c
  | error =>
      refine .of_same h rfl rfl ?_
      simp [TcpConnection.onEvent, TcpConnection.handleError, queued]
  | read => exact handleRead_moves h r
  | write => exact handleWrite_moves h w

theorem settled_setState (h : Settled c) {state : StateE}
    (hstate : c.state = .kDisconnected → state = .kDisconnected) : Settled (c.setState state) :=
  h.congr rfl rfl hstate

/-- A call on the thread of the loop. -/
theorem call_moves (h : Settled c) (call : Call) (w : WriteResult) :
    Moves c (if takes c w then call.sends c else []) (call.run c true w) := by
  have hnothing : Moves c [] (c, []) := .of_same h rfl rfl (by simp [queued])
  cases call with
  | send message =>
      simp only [Call.run, Call.sends, TcpConnection.send]
      by_cases hstate : c.state = .kConnected
      · simpa [hstate] using sendInLoop_moves h message w
      · simpa [hstate] using hnothing
  | shutdown =>
      refine Moves.none ?_
      simp only [Call.run, TcpConnection.shutdown]
      split
      · have hsettled : Settled (c.setState .kDisconnected) := settled_setState h fun _ => rfl
        have hmoves := shutdownInLoop_moves hsettled
        exact ⟨hmoves.settled, hmoves.stream, hmoves.queue⟩
      · exact hnothing
  | forceClose =>
      refine Moves.none ?_
      simp only [Call.run, TcpConnection.forceClose]
      split
      case isTrue hopen =>
        refine .of_same (settled_setState h fun hclosed => ?_) rfl rfl ?_
        · rw [hclosed] at hopen
          simp at hopen
        · simp [queued, LoopFunctor.messages]
      case isFalse _ => exact hnothing
  | startRead | stopRead => exact (startReadInLoop_moves h).none

/-- The body of a call on another thread binds the message that it sends. -/
theorem body_binds (h : Settled c) (call : Call) (w : WriteResult) :
    Settled (call.run c false w).1 ∧ written (call.run c false w).2 = [] ∧
      (call.run c false w).1.outputBuffer.content = c.outputBuffer.content ∧
      (queued (call.run c false w).2).flatMap LoopFunctor.messages = call.sends c := by
  cases call with
  | send message =>
      simp only [Call.run, Call.sends, TcpConnection.send]
      split <;> exact ⟨h, rfl, rfl, rfl⟩
  | shutdown =>
      simp only [Call.run, Call.sends, TcpConnection.shutdown]
      split
      · exact ⟨settled_setState h fun _ => rfl, rfl, rfl, rfl⟩
      · exact ⟨h, rfl, rfl, rfl⟩
  | forceClose =>
      simp only [Call.run, Call.sends, TcpConnection.forceClose]
      split
      case isTrue hopen =>
        refine ⟨settled_setState h fun hclosed => ?_, rfl, rfl, rfl⟩
        rw [hclosed] at hopen
        simp at hopen
      case isFalse _ => exact ⟨h, rfl, rfl, rfl⟩
  | startRead | stopRead => exact ⟨h, rfl, rfl, rfl⟩

/-! ## What the steps do to the queue -/

theorem mail_append (x : Option Nat) (l l' : List (Ticket Parcel)) :
    mail x (l ++ l') = mail x l ++ mail x l' := by
  simp [mail]

theorem mail_singleton (x : Option Nat) (ticket : Ticket Parcel) :
    mail x [ticket] = if ticket.functor.sender = x then ticket.functor.cb.messages else [] := by
  by_cases hx : ticket.functor.sender = x <;> simp [mail, hx]

/-- What the thread of the loop queues goes behind what waits. -/
theorem queueAll_queue {l : EventLoop Parcel} (h : EventLoop.Ordered l)
    (hcode : l.pc.userCode = true) (cbs : List LoopFunctor) :
    EventLoop.Ordered (queueAll l cbs) ∧ ∃ tickets : List (Ticket Parcel),
      (queueAll l cbs).queue = l.queue ++ tickets ∧
        tickets.map (·.functor) = cbs.map (Parcel.mk none) := by
  induction cbs generalizing l with
  | nil => exact ⟨h, [], (List.append_nil _).symm, rfl⟩
  | cons cb cbs ih =>
      have hordered := EventLoop.step_ordered (a := .queueInLoop ⟨none, cb⟩) h hcode
      obtain ⟨hrest, tickets, hqueue, hcbs⟩ := ih hordered (by rw [EventLoop.queueInLoop_pc]; exact hcode)
      refine ⟨hrest, ⟨l.pushed.length, ⟨none, cb⟩, l.swaps⟩ :: tickets, ?_, by simp [hcbs]⟩
      calc (queueAll (l.next (.queueInLoop ⟨none, cb⟩)) cbs).queue
          = (l.next (.queueInLoop ⟨none, cb⟩)).queue ++ tickets := hqueue
        _ = l.queue ++ ⟨l.pushed.length, ⟨none, cb⟩, l.swaps⟩ :: tickets := by
            rw [EventLoop.queueInLoop_queue, List.append_assoc, List.singleton_append]

/-- Functors that carry no messages. -/
theorem queueAll_spec {l : EventLoop Parcel} {cbs : List LoopFunctor} (h : EventLoop.Ordered l)
    (hcode : l.pc.userCode = true) (hcbs : ∀ cb ∈ cbs, cb.messages = []) :
    EventLoop.Ordered (queueAll l cbs) ∧ ∀ x, mail x (queueAll l cbs).queue = mail x l.queue := by
  obtain ⟨hordered, tickets, hqueue, hfunctors⟩ := queueAll_queue h hcode cbs
  refine ⟨hordered, fun x => ?_⟩
  have hnone : mail x tickets = [] := by
    refine List.flatMap_eq_nil_iff.mpr fun ticket hticket => ?_
    have hin : ticket.functor ∈ tickets.map (·.functor) :=
      List.mem_map_of_mem (List.mem_filter.mp hticket).1
    rw [hfunctors] at hin
    obtain ⟨cb, hcb, heq⟩ := List.mem_map.mp hin
    rw [← heq]
    exact hcbs cb hcb
  rw [hqueue, mail_append, hnone, List.append_nil]

theorem queue_quiet {l : EventLoop Parcel} {a : EventLoop.Act Parcel} (h : EventLoop.Ordered l)
    (hen : EventLoop.Enabled l a) (hquiet : quiet a = true) : (l.next a).queue = l.queue := by
  cases a with
  | push | queueInLoop | call => cases hquiet
  | swap =>
      have hempty : l.functors = [] := h.between (by simp [show l.pc = _ from hen])
      simp [EventLoop.queue, EventLoop.next, hempty]
  | _ => rfl

/-! ## The invariant -/

structure Inv (s : SharedConnection) : Prop where
  ordered : EventLoop.Ordered s.loop
  settled : Settled s.conn
  /-- The thread of the loop does not queue its own messages. -/
  direct : mail none s.loop.queue = []
  messages : MessagesInOrder s

theorem start_inv (hs : Starts s) : Inv s := by
  obtain ⟨sockfd, highWaterMark, writeComplete, highWater, rfl⟩ := hs
  have hopen := TcpConnection.established_open sockfd highWaterMark writeComplete highWater
  refine ⟨EventLoop.new_ordered, Or.inl hopen.pending, rfl, by simp [written], fun x => ?_⟩
  cases x <;> rfl

theorem deliveredBy_deliver (s : SharedConnection) (sender x : Option Nat) (w : WriteResult)
    (messages : List (List UInt8)) :
    (s.deliver sender w messages).deliveredBy x =
      s.deliveredBy x ++ if sender = x then messages else [] := by
  by_cases hx : sender = x <;> simp [deliveredBy, deliver, hx, List.filter_map, Function.comp_def]

theorem sentBy_record (s : SharedConnection) (sender x : Option Nat)
    (messages : List (List UInt8)) :
    (s.record sender messages).sentBy x = s.sentBy x ++ if sender = x then messages else [] := by
  by_cases hx : sender = x <;> simp [sentBy, record, hx, List.filter_map, Function.comp_def]

/-- In a state `t` that differs from `s` in its loop and in what was sent, the thread of the loop
runs a function that takes `messages`. -/
theorem Inv.loopDid {sender : Option Nat} {w : WriteResult} {messages : List (List UInt8)}
    (h : Inv s) (hordered : EventLoop.Ordered t.loop) (hcode : t.loop.pc.userCode = true)
    (hdirect : mail none t.loop.queue = [])
    (hmoves : Moves s.conn (if takes s.conn w then messages else []) r)
    (hflow : ∀ x, s.deliveredBy x ++ (if sender = x then messages else []) ++
      mail x t.loop.queue ++ s.inHand x = t.sentBy x)
    (hconn : t.conn = s.conn) (hhand : t.hand = s.hand) (hlog : t.log = s.log)
    (hdelivered : t.delivered = s.delivered) : Inv ((t.deliver sender w messages).loopDid r) := by
  obtain ⟨hqueued, hmail⟩ := queueAll_spec hordered hcode hmoves.queue
  refine ⟨hqueued, hmoves.settled, (hmail none).trans hdirect, ?_, fun x => ?_⟩
  · have htaken : ((t.deliver sender w messages).delivered.filter (·.taken)).map (·.message) =
        (s.delivered.filter (·.taken)).map (·.message) ++
          if takes s.conn w then messages else [] := by
      cases htakes : takes s.conn w <;>
        simp [deliver, hdelivered, hconn, htakes, List.filter_map, Function.comp_def]
    calc written (t.log ++ r.2) ++ r.1.outputBuffer.content
        = written s.log ++ (written r.2 ++ r.1.outputBuffer.content) := by
          rw [hlog, written_append, List.append_assoc]
      _ = written s.log ++ s.conn.outputBuffer.content ++
            (if takes s.conn w then messages else []).flatten := by
          rw [hmoves.stream, List.append_assoc]
      _ = _ := by rw [h.messages.whole, ← List.flatten_append, ← htaken]; rfl
  · have hby : (t.deliver sender w messages).deliveredBy x =
        s.deliveredBy x ++ if sender = x then messages else [] := by
      rw [deliveredBy_deliver, deliveredBy, hdelivered]
      rfl
    have hhands : inHand t x = s.inHand x := by
      cases x with
      | none => rfl
      | some i => simp [inHand, hhand]
    calc ((t.deliver sender w messages).loopDid r).deliveredBy x ++
          mail x (queueAll t.loop (queued r.2)).queue ++ inHand t x
        = s.deliveredBy x ++ (if sender = x then messages else []) ++ mail x t.loop.queue ++
            s.inHand x := by
          rw [hmail, hhands, ← hby]
          rfl
      _ = t.sentBy x := hflow x

/-! ## Steps -/

theorem body_inv (h : Inv s) (thread : Nat) (call : Call) : Inv (s.next (.body thread call)) := by
  obtain ⟨hsettled, hwritten, hcontent, hbinds⟩ := body_binds h.settled call (.accept 0)
  refine ⟨h.ordered, hsettled, h.direct, ?_, fun x => ?_⟩
  · have hlog : written (s.next (.body thread call)).log = written s.log := by
      simp only [next, written_append, hwritten, List.append_nil]
    rw [hlog]
    exact (congrArg (written s.log ++ ·) hcontent).trans h.messages.whole
  · have hsent := sentBy_record s (some thread) x (call.sends s.conn)
    have hold := h.messages.inOrder x
    show s.deliveredBy x ++ mail x s.loop.queue ++ inHand (s.next (.body thread call)) x =
      (s.record (some thread) (call.sends s.conn)).sentBy x
    rw [hsent, ← hold, List.append_assoc (s.deliveredBy x ++ _)]
    congr 1
    cases x with
    | none => simp [inHand]
    | some i =>
        by_cases hi : thread = i
        · subst hi
          simp [inHand, next, hbinds]
        · have hne : i ≠ thread := fun heq => hi heq.symm
          simp [inHand, next, hi, Function.update_of_ne hne]

theorem push_inv (h : Inv s) {thread : Nat} (hen : Enabled s (.push thread)) :
    Inv (s.next (.push thread)) := by
  cases hhand : s.hand thread with
  | nil => exact absurd hhand hen.1
  | cons cb rest =>
      have hnext : s.next (.push thread) =
          { s with
            loop := s.loop.next (.push thread ⟨some thread, cb⟩)
            hand := Function.update s.hand thread rest } := by
        simp [next, hhand]
      have hqueue : (s.loop.next (.push thread ⟨some thread, cb⟩)).queue =
          s.loop.queue ++ [⟨s.loop.pushed.length, ⟨some thread, cb⟩, s.loop.swaps⟩] := by
        simp [EventLoop.next, EventLoop.queue, EventLoop.pushBack]
      have hordered := EventLoop.step_ordered (a := .push thread ⟨some thread, cb⟩) h.ordered hen.2
      rw [hnext]
      refine ⟨hordered, h.settled, ?_, h.messages.whole, fun x => ?_⟩
      · simp only [hqueue, mail_append, mail_singleton, h.direct]
        simp
      · have hold := h.messages.inOrder x
        simp only [hqueue, mail_append, mail_singleton]
        rw [← show s.sentBy x = sentBy { s with
            loop := s.loop.next (.push thread ⟨some thread, cb⟩)
            hand := Function.update s.hand thread rest } x from rfl, ← hold]
        cases x with
        | none => simp [inHand, deliveredBy]
        | some i =>
            by_cases hi : thread = i
            · subst hi
              simp [inHand, deliveredBy, hhand]
            · have hne : i ≠ thread := fun heq => hi heq.symm
              simp [inHand, deliveredBy, hi, Function.update_of_ne hne]

theorem functor_inv (h : Inv s) {w : WriteResult} (hen : Enabled s (.functor w)) :
    Inv (s.next (.functor w)) := by
  cases hfunctors : s.loop.functors with
  | nil => simp [next, hfunctors, h]
  | cons ticket rest =>
      have hnext : s.next (.functor w) =
          (deliver { s with loop := s.loop.next .call } ticket.functor.sender w
            ticket.functor.cb.messages).loopDid (s.conn.runFunctor ticket.functor.cb w) := by
        simp [next, hfunctors, deliver]
      have hpop : s.loop.queue = ticket :: (s.loop.next .call).queue := by
        simp [EventLoop.queue, EventLoop.next, hfunctors]
      have hmail : ∀ x, mail x s.loop.queue =
          (if ticket.functor.sender = x then ticket.functor.cb.messages else []) ++
            mail x (s.loop.next .call).queue := by
        intro x
        rw [hpop, ← mail_singleton, ← mail_append, List.singleton_append]
      have hpc : (s.loop.next .call).pc = s.loop.pc := by simp [EventLoop.next, hfunctors]
      have hordered := EventLoop.step_ordered (a := .call) h.ordered hen
      have hdirect := h.direct
      rw [hmail, List.append_eq_nil_iff] at hdirect
      rw [hnext]
      refine Inv.loopDid (t := { s with loop := s.loop.next .call }) h hordered ?_ hdirect.2
        (runFunctor_moves h.settled ticket.functor.cb w) (fun x => ?_) rfl rfl rfl rfl
      · show (s.loop.next .call).pc.userCode = true
        rw [hpc, show s.loop.pc = .running from hen.1]
        rfl
      · show _ = s.sentBy x
        rw [List.append_assoc (s.deliveredBy x), ← hmail]
        exact h.messages.inOrder x

theorem step_inv (h : Inv s) {a : Act} (hen : Enabled s a) : Inv (s.next a) := by
  cases a with
  | body thread call => exact body_inv h thread call
  | push thread => exact push_inv h hen
  | call call w =>
      refine Inv.loopDid (t := s.record none (call.sends s.conn)) h h.ordered hen h.direct
        (call_moves h.settled call w) (fun x => ?_) rfl rfl rfl rfl
      rw [sentBy_record, ← h.messages.inOrder x]
      -- Nothing of the loop's own thread is on its way.
      cases x with
      | none => simp [h.direct, inHand, record]
      | some i => simp [record]
  | event cb r w =>
      have hcode : s.loop.pc.userCode = true := by
        rcases hen with hpc | hpc <;> rw [hpc] <;> rfl
      have hnext : s.next (.event cb r w) =
          (s.deliver none w []).loopDid (s.conn.onEvent cb r w) := by
        simp [next, deliver]
      rw [hnext]
      refine Inv.loopDid h h.ordered hcode h.direct (onEvent_moves h.settled cb r w).none
        (fun x => ?_) rfl rfl rfl rfl
      rw [ite_self, List.append_nil]
      exact h.messages.inOrder x
  | functor w => exact functor_inv h hen
  | loop a =>
      have hqueue := queue_quiet h.ordered hen.2 hen.1
      refine ⟨EventLoop.step_ordered h.ordered hen.2, h.settled, ?_, h.messages.whole, fun x => ?_⟩
      · rw [next, hqueue]
        exact h.direct
      · rw [next, hqueue]
        exact h.messages.inOrder x

/-- Any interleaving of the threads with the loop: what the socket and the output buffer got are
whole messages, and `sendInLoop` gets the messages of each thread once and in their order. -/
theorem messages_in_order (hs : system.Reachable s) : MessagesInOrder s := by
  have hinv : Inv s := by
    refine hs.invariant start_inv ?_
    rintro s a t h ⟨hen, rfl⟩
    exact step_inv h hen
  exact hinv.messages

/-- Two threads and the loop send at the same time, and the socket takes the bytes in pieces. -/
def threeSenders : List Act :=
  [.loop .loop, .loop .test, .body 1 (.send [1, 2]), .body 2 (.send [3]), .push 2, .push 1,
    .loop (.wakeup 2), .loop (.wakeup 1), .loop (.epoll true), .loop .handleRead,
    .call (.send [8, 9]) (.accept 1), .loop .doPendingFunctors, .loop .swap,
    .functor (.accept 0), .functor (.accept 0), .loop .finish, .loop .destroy, .loop .test,
    .loop (.epoll false), .event .write (.bytes []) (.accept 2)]

def beforeSenders : SharedConnection where
  loop := EventLoop.new
  conn := TcpConnection.established 5 100 false false
  hand := fun _ => []
  log := []
  sent := []
  delivered := []

theorem messages_in_order_threeSenders :
    let s := threeSenders.foldl next beforeSenders
    written s.log = [8, 9, 3] ∧ s.conn.outputBuffer.content = [1, 2] ∧
      s.deliveredBy (some 1) = [[1, 2]] := by
  have hrun : system.Run beforeSenders threeSenders (threeSenders.foldl next beforeSenders) :=
    StepSystem.run_foldl (by decide +kernel)
  have horder := messages_in_order (hrun.reachable (.init ⟨5, 100, false, false, rfl⟩))
  refine ⟨by decide +kernel, by decide +kernel, ?_⟩
  have hall := horder.inOrder (some 1)
  have hqueue : mail (some 1) (threeSenders.foldl next beforeSenders).loop.queue = [] := by
    decide +kernel
  have hhand : (threeSenders.foldl next beforeSenders).inHand (some 1) = [] := by
    decide +kernel
  rw [hqueue, hhand, List.append_nil, List.append_nil] at hall
  exact hall.trans (by decide +kernel)

end SharedConnection

end Net
end Muduo
