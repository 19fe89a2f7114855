import Muduo.Net.ChannelOwners
import Muduo.Net.ConnectionLifecycle

/-!
# ChannelCalls — what owners do to their channels

An operation of a channel writes the channel and one entry of `channels_`, in every build and
whatever the kernel says.  A channel is in the loop from an edit of its interest to the next
`remove`, and while it is not, no entry of `channels_` points to it (`Tracks`).

The functions of a connection are put into six classes by their calls on the channel (`Does`),
and from these it follows what brings a channel into the loop (`run_added`), and that a connection
on which nothing is written any more stays like that (`run_down`).
-/

namespace Muduo
namespace Net

/-! ## The operations of a channel -/

namespace Build

variable {b : Build} {p p' : EPoller} {channel : Addr} {c : Channel}

theorem set_index_frame {idx : Index} (h : p.set_index channel idx = .ok p')
    (hobj : p.objects channel = some c) :
    p'.objects = Function.update p.objects channel (some { c with index := idx }) ∧
      p'.channels = p.channels := by
  simp only [EPoller.set_index, EPoller.deref_eq hobj, ok_bind, pure_eq_ok, Except.ok.injEq] at h
  subst h
  exact ⟨rfl, rfl⟩

/-- Whatever the build, `updataChannel` writes the index, and of the map the entry of the fd. -/
theorem updataChannel_frame (hobj : p.objects channel = some c)
    (h : b.updataChannel p channel = .ok p') :
    p'.objects = Function.update p.objects channel (some { c with
        index := if c.index = .kAdded ∧ c.isNoneEvent = true then .kDeleted else .kAdded }) ∧
      (p'.channels = p.channels ∨
        p'.channels = Function.update p.channels c.fd (some channel)) := by
  simp only [updataChannel, EPoller.deref_eq hobj, ok_bind] at h
  cases hidx : c.index with
  | kNew =>
      -- The only case that writes the map.
      simp only [hidx] at h
      obtain ⟨_, _, h⟩ := exists_ok_of_bind h
      obtain ⟨p₁, hp₁, h⟩ := exists_ok_of_bind h
      have hset := set_index_frame hp₁ hobj
      rw [(update_ok h).1, (update_ok h).2, hset.1, hset.2]
      exact ⟨by simp, Or.inr rfl⟩
  | kDeleted =>
      simp only [hidx] at h
      obtain ⟨_, _, h⟩ := exists_ok_of_bind h
      obtain ⟨_, _, h⟩ := exists_ok_of_bind h
      obtain ⟨p₁, hp₁, h⟩ := exists_ok_of_bind h
      have hset := set_index_frame hp₁ hobj
      rw [(update_ok h).1, (update_ok h).2, hset.1, hset.2]
      exact ⟨by simp, Or.inl rfl⟩
  | kAdded =>
      simp only [hidx] at h
      obtain ⟨_, _, h⟩ := exists_ok_of_bind h
      obtain ⟨_, _, h⟩ := exists_ok_of_bind h
      by_cases hnone : c.isNoneEvent = true
      · simp only [hnone, if_true] at h
        obtain ⟨p₁, hp₁, h⟩ := exists_ok_of_bind h
        have hobj₁ : p₁.objects channel = some c := by rw [(update_ok hp₁).1, hobj]
        have hset := set_index_frame h hobj₁
        rw [hset.1, hset.2, (update_ok hp₁).1, (update_ok hp₁).2]
        exact ⟨by simp [hnone], Or.inl rfl⟩
      · simp only [hnone, if_false, Bool.false_eq_true] at h
        rw [(update_ok h).1, (update_ok h).2]
        refine ⟨?_, Or.inl rfl⟩
        simp [hnone, ← hidx, ← hobj]

theorem setInterest_frame {op : Interest} (hobj : p.objects channel = some c)
    (h : b.setInterest p channel op = .ok p') :
    p'.objects = Function.update p.objects channel (some (c.edit op)) ∧
      (p'.channels = p.channels ∨
        p'.channels = Function.update p.channels c.fd (some channel)) := by
  simp only [setInterest, EPoller.deref_eq hobj, ok_bind] at h
  have hstored : (p.store channel
      { c with events := op.edit c.events, addedToLoop := true }).objects channel =
        some { c with events := op.edit c.events, addedToLoop := true } := by
    simp [EPoller.store]
  obtain ⟨hobjects, hchannels⟩ := updataChannel_frame hstored h
  refine ⟨?_, hchannels⟩
  rw [hobjects]
  simp only [EPoller.store, Function.update_idem]
  rfl

theorem remove_frame (hobj : p.objects channel = some c) (h : b.remove p channel = .ok p') :
    p'.objects = Function.update p.objects channel (some c.removed) ∧
      p'.channels = Function.update p.channels c.fd none := by
  simp only [remove, EPoller.deref_eq hobj, ok_bind] at h
  obtain ⟨_, _, h⟩ := exists_ok_of_bind h
  have hstored : (p.store channel { c with addedToLoop := false }).objects channel =
      some { c with addedToLoop := false } := by
    simp [EPoller.store]
  simp only [removeChannel, EPoller.deref_eq hstored, ok_bind] at h
  obtain ⟨_, _, h⟩ := exists_ok_of_bind h
  obtain ⟨_, _, h⟩ := exists_ok_of_bind h
  obtain ⟨_, _, h⟩ := exists_ok_of_bind h
  obtain ⟨_, _, h⟩ := exists_ok_of_bind h
  obtain ⟨_, _, h⟩ := exists_ok_of_bind h
  -- The `DEL` is for the kernel only.
  obtain ⟨p₁, hobjects, hchannels, h⟩ : ∃ p₁ : EPoller,
      p₁.objects = (p.store channel { c with addedToLoop := false }).objects ∧
        p₁.channels = Function.update p.channels c.fd none ∧
        p₁.set_index channel .kNew = .ok p' := by
    by_cases hidx : c.index = .kAdded
    · simp only [hidx, if_true] at h
      obtain ⟨p₁, hp₁, h⟩ := exists_ok_of_bind h
      refine ⟨p₁, ?_, (update_ok hp₁).2, h⟩
      simp [(update_ok hp₁).1, hidx]
    · simp only [hidx, if_false, pure_eq_ok, ok_bind] at h
      exact ⟨{ p.store channel { c with addedToLoop := false } with
        channels := Function.update p.channels c.fd none }, rfl, rfl, h⟩
  have hset := set_index_frame h (by rw [hobjects, hstored])
  rw [hset.1, hset.2, hobjects, hchannels]
  exact ⟨by simp [EPoller.store, Channel.removed], rfl⟩

end Build

namespace ChannelOwners

open TcpConnection ConnectionUse ConnectionOwnership

/-! ## The map -/

/-- An entry of `channels_` belongs to a channel that exists and is in the loop. -/
def Tracks (p : EPoller) : Prop :=
  ∀ fd a, p.channels fd = some a →
    ∃ c, p.objects a = some c ∧ c.fd = fd ∧ c.addedToLoop = true

namespace Tracks

variable {b : Build} {p p' : EPoller} {a : Addr} {c : Channel}

/-- A channel that is not in the loop has no entry. -/
theorem no_entry (h : Tracks p) (hobj : p.objects a = some c) (hadded : c.addedToLoop = false)
    (fd : Int) : p.channels fd ≠ some a := by
  intro hentry
  obtain ⟨d, hd, _, hdadded⟩ := h _ _ hentry
  rw [hobj] at hd
  cases hd
  rw [hadded] at hdadded
  cases hdadded

theorem create (h : Tracks p) (hfree : p.objects a = none) (fd : Int) : Tracks (p.create a fd) := by
  intro fd' a' hentry
  obtain ⟨c, hc, hrest⟩ := h _ _ hentry
  have hne : a' ≠ a := by
    rintro rfl
    rw [hfree] at hc
    cases hc
  exact ⟨c, by simpa [EPoller.create, EPoller.store, hne] using hc, hrest⟩

/-- After an edit, an entry of the map is an old one, or that of the channel at its fd. -/
theorem entry_cases {channels channels' : Int → Option Addr} {fd fd' : Int} {a' : Addr}
    (hchannels : channels' = channels ∨ channels' = Function.update channels fd (some a))
    (hentry : channels' fd' = some a') : channels fd' = some a' ∨ fd' = fd ∧ a' = a := by
  rcases hchannels with heq | heq
  · exact Or.inl (by rw [← heq, hentry])
  · rw [heq] at hentry
    by_cases hfd : fd' = fd
    · rw [hfd, Function.update_self, Option.some.injEq] at hentry
      exact Or.inr ⟨hfd, hentry.symm⟩
    · rw [Function.update_of_ne hfd] at hentry
      exact Or.inl hentry

theorem edit (h : Tracks p) {op : Interest} (hobj : p.objects a = some c)
    (hop : b.setInterest p a op = .ok p') : Tracks p' := by
  obtain ⟨hobjects, hchannels⟩ := Build.setInterest_frame hobj hop
  intro fd a' hentry
  rw [hobjects]
  by_cases ha : a' = a
  · -- All entries of the channel are at its fd.
    subst ha
    refine ⟨c.edit op, Function.update_self .., ?_, rfl⟩
    rcases entry_cases hchannels hentry with hold | ⟨hfd, _⟩
    · obtain ⟨d, hd, hdfd, _⟩ := h _ _ hold
      rw [hobj] at hd
      cases hd
      exact hdfd
    · exact hfd.symm
  · have hold := (entry_cases hchannels hentry).resolve_right fun hnew => ha hnew.2
    obtain ⟨d, hd, hrest⟩ := h _ _ hold
    exact ⟨d, by rw [Function.update_of_ne ha, hd], hrest⟩

theorem remove (h : Tracks p) (hobj : p.objects a = some c) (hop : b.remove p a = .ok p') :
    Tracks p' := by
  obtain ⟨hobjects, hchannels⟩ := Build.remove_frame hobj hop
  intro fd a' hentry
  rw [hchannels] at hentry
  -- The entry at the fd of the channel is gone, and the channel had no other.
  have hfd : fd ≠ c.fd := by
    rintro rfl
    rw [Function.update_self] at hentry
    cases hentry
  rw [Function.update_of_ne hfd] at hentry
  obtain ⟨d, hd, hdfd, hadded⟩ := h _ _ hentry
  have ha : a' ≠ a := by
    rintro rfl
    rw [hobj] at hd
    cases hd
    exact hfd hdfd.symm
  exact ⟨d, by rw [hobjects, Function.update_of_ne ha, hd], hdfd, hadded⟩

theorem channelOp (h : Tracks p) (op : ChannelOp) (hobj : p.objects a = some c)
    (hop : channelOp b a p op = .ok p') :
    Tracks p' ∧ p'.objects = Function.update p.objects a (some (op.apply c)) := by
  cases op with
  | edit op => exact ⟨h.edit hobj hop, (Build.setInterest_frame hobj hop).1⟩
  | remove => exact ⟨h.remove hobj hop, (Build.remove_frame hobj hop).1⟩

theorem channelOps {ops : List ChannelOp} :
    ∀ {p : EPoller} {c : Channel}, Tracks p → p.objects a = some c →
      ops.foldlM (ChannelOwners.channelOp b a) p = .ok p' →
      Tracks p' ∧ p'.objects = Function.update p.objects a (some (ops.foldl ChannelOp.apply c)) := by
  induction ops with
  | nil =>
      intro p c h hobj hops
      cases hops
      exact ⟨h, by rw [List.foldl_nil, ← hobj, Function.update_eq_self]⟩
  | cons op ops ih =>
      intro p c h hobj hops
      rw [List.foldlM_cons] at hops
      obtain ⟨p₁, hp₁, hrest⟩ := exists_ok_of_bind hops
      obtain ⟨h₁, hobjects₁⟩ := h.channelOp op hobj hp₁
      obtain ⟨h', hobjects'⟩ := ih h₁ (by rw [hobjects₁, Function.update_self]) hrest
      exact ⟨h', by rw [hobjects', hobjects₁, Function.update_idem, List.foldl_cons]⟩

theorem destroy (h : Tracks p) (hobj : p.objects a = some c) (hadded : c.addedToLoop = false) :
    Tracks { p with objects := Function.update p.objects a none } := by
  intro fd a' hentry
  obtain ⟨d, hd, hrest⟩ := h _ _ hentry
  have hne : a' ≠ a := by
    rintro rfl
    exact h.no_entry hobj hadded fd hentry
  exact ⟨d, by simpa [hne] using hd, hrest⟩

end Tracks

/-! ## What the functions of a connection do to the channel -/

/-- `startReadInLoop` runs in the function. -/
def Fn.reads : Fn → Bool
  | .functor .startReadInLoop _ => true
  | .user true .startRead => true
  | .user true .stopRead => true
  | _ => false

/-- Each kind of function, with its calls on the channel. -/
inductive Does (c : TcpConnection) (fn : Fn) : List ChannelOp → Prop where
  | nothing :
      (fn.run c).1.channel = c.channel →
      ((fn.run c).1.state ≠ .kDisconnected → c.state ≠ .kDisconnected) →
      .closeCallback ∉ (fn.run c).2 → Does c fn []
  /-- Writability matters to an open connection, or to one that waits for it. -/
  | write {op : Interest} :
      op = .enableWriting ∧ c.state ≠ .kDisconnected ∨
        op = .disableWriting ∧ c.isWriting = true →
      (fn.run c).1.channel = c.channel.edit op → (fn.run c).1.state = c.state →
      .closeCallback ∉ (fn.run c).2 → Does c fn [.edit op]
  | close : fn.run c = c.handleClose → Does c fn [.edit .disableAll]
  | read :
      fn.reads = true → fn.run c = (c.startReadInLoop, []) → Does c fn (Fn.startReadInLoopOps c)
  | establish : fn = .connectEstablished → Does c fn [.edit .enableReading]
  | destroy : fn = .connectDestroyed → Does c fn (Fn.ops c .connectDestroyed)

section Functions

variable {c : TcpConnection} {fn : Fn}

/-- A function of the output path: it edits the interest in writing under `P`, and that is all. -/
theorem does_of_output {P : Prop} [Decidable P] {op : Interest}
    (hwhy : P → op = .enableWriting ∧ c.state ≠ .kDisconnected ∨
      op = .disableWriting ∧ c.isWriting = true)
    (hchannel : (fn.run c).1.channel =
      (if P then [.edit op] else []).foldl ChannelOp.apply c.channel)
    (hstate : (fn.run c).1.state = c.state) (hquiet : .closeCallback ∉ (fn.run c).2) :
    Does c fn (if P then [.edit op] else []) := by
  by_cases h : P
  · rw [if_pos h] at hchannel ⊢
    exact Does.write (hwhy h) hchannel hstate hquiet
  · rw [if_neg h] at hchannel ⊢
    exact Does.nothing hchannel (fun hup => by rwa [hstate] at hup) hquiet

theorem sendInLoop_does {data : List UInt8} {w : WriteResult}
    (hrun : fn.run c = c.sendInLoop data w) : Does c fn (Fn.sendInLoopOps c data w) := by
  have hquiet : .closeCallback ∉ (c.sendInLoop data w).2 := by
    intro hclose
    cases sendInLoop_isOutput c data w _ hclose
  have hstate := sendInLoop_state c data w
  have hchannel : (c.sendInLoop data w).1.channel =
      (Fn.sendInLoopOps c data w).foldl ChannelOp.apply c.channel := by
    unfold TcpConnection.sendInLoop Fn.sendInLoopOps
    by_cases hdown : c.state = .kDisconnected
    · simp [hdown]
    · by_cases hbuffer : (c.directWrite data w).faultError = false ∧
          0 < data.length - (c.directWrite data w).nwrote
      · have hwriting : ∀ rest, { c with outputBuffer := rest }.isWriting = c.isWriting :=
          fun _ => rfl
        cases hw : c.isWriting with
        | false =>
            simp [hdown, hbuffer.1, hbuffer.2, hwriting, hw, appendOutput, setInterest,
              ChannelOp.apply]
        | true => simp [hdown, hbuffer.1, hbuffer.2, hwriting, hw, appendOutput]
      · simp only [if_neg hdown, if_neg hbuffer]
        rw [if_neg fun h => hbuffer ⟨h.2.1, h.2.2.1⟩]
        rfl
  rw [← hrun] at hquiet hstate hchannel
  exact does_of_output (fun h => Or.inl ⟨rfl, h.1⟩) hchannel hstate hquiet

theorem handleWrite_does {w : WriteResult} (hrun : fn.run c = c.handleWrite w) :
    Does c fn (Fn.handleWriteOps c w) := by
  have hquiet : .closeCallback ∉ (c.handleWrite w).2 := by
    intro hclose
    have hno := (ConnectionLifecycle.handleWrite_quiet c w _ hclose).1
    cases hno
  have hstate := handleWrite_state c w
  have hchannel : (c.handleWrite w).1.channel =
      (Fn.handleWriteOps c w).foldl ChannelOp.apply c.channel := by
    rw [handleWrite.eq_def, Fn.handleWriteOps.eq_def]
    by_cases hwriting : c.isWriting = true
    case neg => cases w <;> simp [hwriting]
    case pos =>
      rw [if_pos hwriting]
      cases w with
      | fail errno => rfl
      | accept room =>
          dsimp only
          generalize min room c.outputBuffer.readableBytes = n
          by_cases hpos : 0 < n
          · by_cases hempty : (c.outputBuffer.retrieve n).readableBytes = 0
            · -- Drained: the interest goes off, and `shutdownInLoop` does not touch it.
              have hoff := shutdownInLoop_of_not_writing
                (c := (c.retrieveOutput n).setInterest .disableWriting)
                (isWriting_edit .disableWriting _)
              simp only [retrieveOutput] at hoff
              simp only [hwriting, hpos, hempty, hoff, and_self, if_true]
              split <;> rfl
            · simp [hpos, hempty]
          · simp [hpos]
  rw [← hrun] at hquiet hstate hchannel
  cases w with
  | fail errno => exact Does.nothing hchannel (fun hup => by rwa [hstate] at hup) hquiet
  | accept room => exact does_of_output (fun h => Or.inr ⟨rfl, h.1⟩) hchannel hstate hquiet

/-- A call that changes the state only. -/
theorem does_of_asks {inLoop : Bool} {call : UserCall} (hops : Fn.userOps c call = [])
    (h : Asks c (call.run c inLoop).1) (hquiet : .closeCallback ∉ (call.run c inLoop).2) :
    Does c (.user inLoop call) (Fn.ops c (.user inLoop call)) := by
  have hnone : Fn.ops c (.user inLoop call) = [] := by
    cases inLoop with
    | true => exact hops
    | false => rfl
  rw [hnone]
  refine Does.nothing h.channel ?_ hquiet
  intro hopen hdown
  refine hopen ?_
  exact (h.other (by rw [hdown]; decide)).trans hdown

theorem userOps_does (inLoop : Bool) (call : UserCall) :
    Does c (.user inLoop call) (Fn.ops c (.user inLoop call)) := by
  cases call with
  | send message w =>
      cases inLoop with
      | false =>
          refine Does.nothing ?_ ?_ ?_ <;>
            simp only [Fn.run, UserCall.run, send] <;> split <;> simp
      | true =>
          simp only [Fn.ops, Fn.userOps]
          split
          case isTrue hopen =>
            refine sendInLoop_does ?_
            simp [Fn.run, UserCall.run, send, hopen]
          case isFalse hopen =>
            refine Does.nothing ?_ ?_ ?_ <;> simp [Fn.run, UserCall.run, send, hopen]
  | shutdown =>
      refine does_of_asks rfl (shutdown_asks c inLoop) ?_
      simp only [UserCall.run, shutdown, shutdownInLoop]
      split_ifs <;> simp
  | forceClose =>
      refine does_of_asks rfl (forceClose_asks c) ?_
      simp only [UserCall.run, forceClose]
      split_ifs <;> simp
  | forceCloseWithDelay =>
      refine does_of_asks rfl (forceCloseWithDelay_asks c) ?_
      simp only [UserCall.run, forceCloseWithDelay]
      split_ifs <;> simp
  | startRead =>
      cases inLoop with
      | true => exact Does.read rfl rfl
      | false => exact Does.nothing rfl id (by simp [Fn.run, UserCall.run, startRead])
  -- `stopRead` runs the function of `startRead`.
  | stopRead =>
      cases inLoop with
      | true => exact Does.read rfl rfl
      | false => exact Does.nothing rfl id (by simp [Fn.run, UserCall.run, stopRead])

theorem functorOps_does (cb : LoopFunctor) (w : WriteResult) :
    Does c (.functor cb w) (Fn.ops c (.functor cb w)) := by
  cases cb with
  | sendInLoop message => exact sendInLoop_does rfl
  | shutdownInLoop =>
      refine Does.nothing ?_ ?_ ?_ <;>
        simp only [Fn.run, TcpConnection.runFunctor, shutdownInLoop] <;> split <;> simp
  | forceCloseInLoop =>
      simp only [Fn.ops, Fn.functorOps]
      split
      case isTrue h =>
        exact Does.close (by simp [Fn.run, TcpConnection.runFunctor, forceCloseInLoop, h])
      case isFalse h =>
        refine Does.nothing ?_ ?_ ?_ <;>
          simp [Fn.run, TcpConnection.runFunctor, forceCloseInLoop, h]
  | startReadInLoop => exact Does.read rfl rfl
  | writeCompleteCallback => exact Does.nothing rfl id List.not_mem_nil
  | highWaterMarkCallback len => exact Does.nothing rfl id List.not_mem_nil

theorem eventOps_does (cb : Callback) (r : ReadResult) (w : WriteResult) :
    Does c (.event cb r w) (Fn.ops c (.event cb r w)) := by
  cases cb with
  | close => exact Does.close rfl
  | error => exact Does.nothing rfl id List.not_mem_nil
  | write => exact handleWrite_does rfl
  | read =>
      cases r with
      | fail => exact Does.nothing rfl id List.not_mem_nil
      | bytes data =>
          cases data with
          | nil => exact Does.close rfl
          | cons byte data =>
              exact Does.nothing rfl id (by simp [Fn.run, TcpConnection.onEvent, handleRead])

theorem fn_does (c : TcpConnection) (fn : Fn) : Does c fn (fn.ops c) := by
  cases fn with
  | connectEstablished => exact Does.establish rfl
  | connectDestroyed => exact Does.destroy rfl
  | event cb r w => exact eventOps_does cb r w
  | functor cb w => exact functorOps_does cb w
  | user inLoop call => exact userOps_does inLoop call

/-- The channel of the connection is what the calls make of it. -/
theorem channel_run (c : TcpConnection) (fn : Fn) :
    (fn.run c).1.channel = (fn.ops c).foldl ChannelOp.apply c.channel := by
  have hdoes := fn_does c fn
  generalize fn.ops c = ops at hdoes
  cases hdoes with
  | nothing hchannel _ _ => exact hchannel
  | write _ hchannel _ _ => exact hchannel
  | close hrun =>
      rw [hrun]
      rfl
  | read _ hrun =>
      rw [hrun]
      simp only [startReadInLoop, Fn.startReadInLoopOps]
      split <;> rfl
  | establish hfn =>
      rw [hfn]
      rfl
  | destroy hfn =>
      rw [hfn]
      simp only [Fn.run, connectDestroyed, Fn.ops]
      split <;> rfl

/-- Nothing is written any more. -/
def Down (c : TcpConnection) : Prop :=
  c.state = .kDisconnected ∧ c.isWriting = false

/-- What can bring a channel into the loop. -/
theorem run_added (hadded : (fn.run c).1.channel.addedToLoop = true) :
    c.channel.addedToLoop = true ∧ fn ≠ .connectDestroyed ∨ ¬ Down c ∨
      .closeCallback ∈ (fn.run c).2 ∨ fn.reads = true ∨ fn = .connectEstablished := by
  have hdoes := fn_does c fn
  generalize fn.ops c = ops at hdoes
  cases hdoes with
  | nothing hchannel _ _ =>
      -- `connectDestroyed` is not among these: it leaves the channel out of the loop.
      rw [hchannel] at hadded
      refine Or.inl ⟨hadded, ?_⟩
      rintro rfl
      have hremoved := channel_run c .connectDestroyed
      rw [hchannel, Fn.ops] at hremoved
      rw [hremoved] at hadded
      split at hadded <;> cases hadded
  | write hwhy _ _ _ =>
      refine Or.inr (Or.inl ?_)
      rintro ⟨hdown, hwriting⟩
      rcases hwhy with ⟨_, hup⟩ | ⟨_, hwaits⟩
      · exact hup hdown
      · rw [hwriting] at hwaits
        cases hwaits
  | close hrun => exact Or.inr (Or.inr (Or.inl (by simp [hrun, handleClose])))
  | read hreads _ => exact Or.inr (Or.inr (Or.inr (Or.inl hreads)))
  | establish hfn => exact Or.inr (Or.inr (Or.inr (Or.inr hfn)))
  | destroy hfn =>
      subst hfn
      rw [channel_run, Fn.ops] at hadded
      split at hadded <;> cases hadded

theorem run_close (hclose : .closeCallback ∈ (fn.run c).2) : Down (fn.run c).1 := by
  have hdoes := fn_does c fn
  generalize fn.ops c = ops at hdoes
  cases hdoes with
  | nothing _ _ hquiet => exact absurd hclose hquiet
  | write _ _ _ hquiet => exact absurd hclose hquiet
  | close hrun =>
      rw [hrun]
      exact ⟨rfl, isWriting_edit .disableAll c.channel.events⟩
  | read _ hrun =>
      rw [hrun] at hclose
      cases hclose
  | establish hfn =>
      subst hfn
      simp [Fn.run, connectEstablished] at hclose
  | destroy hfn =>
      subst hfn
      simp only [Fn.run, connectDestroyed] at hclose
      split at hclose <;> simp at hclose

theorem run_down (hdown : Down c) (hfn : fn ≠ .connectEstablished) : Down (fn.run c).1 := by
  have hdoes := fn_does c fn
  generalize fn.ops c = ops at hdoes
  cases hdoes with
  | nothing hchannel hstate _ =>
      refine ⟨?_, by rw [isWriting, hchannel]; exact hdown.2⟩
      by_contra hup
      exact hstate hup hdown.1
  | write hwhy _ _ _ =>
      rcases hwhy with ⟨_, hup⟩ | ⟨_, hwaits⟩
      · exact absurd hdown.1 hup
      · rw [hdown.2] at hwaits
        cases hwaits
  | close hrun => exact run_close (by simp [hrun, handleClose])
  | read _ hrun =>
      rw [hrun]
      simp only [startReadInLoop]
      split
      · exact ⟨hdown.1, (isWriting_edit .enableReading _).trans hdown.2⟩
      · exact hdown
  | establish h => exact absurd h hfn
  | destroy h =>
      subst h
      simp only [Fn.run, connectDestroyed]
      split
      case isTrue hup =>
        rw [hdown.1] at hup
        cases hup
      case isFalse => exact hdown

end Functions

end ChannelOwners

end Net
end Muduo
