import Muduo.Net.TcpConnection

/-!
# OutputStream — the bytes that leave a connection

`sendInLoop` writes to the socket directly or appends to the output buffer, and `handleWrite`
drains the buffer.  The invariant is `WritesPending`: the channel is interested in writing
exactly while output waits.  Under it each function moves bytes along the line

  message → output buffer → kernel

without losing, doubling or reordering any, apart from a message whose direct write fails
because the peer is gone.
-/

namespace Muduo
namespace Net
namespace TcpConnection

open Effect

variable {c : TcpConnection} {data : List UInt8} {w : WriteResult}

/-! ## The invariant -/

/-- `channel_->isWriting()` holds exactly when `outputBuffer_` is non-empty. -/
def WritesPending (c : TcpConnection) : Prop :=
  c.isWriting = true ↔ c.outputBuffer.content ≠ []

/-- The message of a `sendInLoop` is dropped: its direct write fails with `EPIPE` or
`ECONNRESET`. -/
def drops (c : TcpConnection) (w : WriteResult) : Bool :=
  c.writesDirectly &&
    match w with
    | .fail errno => errno.isFault
    | .accept _ => false

theorem isWriting_setInterest (c : TcpConnection) (op : Interest) :
    (c.setInterest op).isWriting = (op.edit c.channel.events).isWriting := rfl

@[simp] theorem content_setInterest (c : TcpConnection) (op : Interest) :
    (c.setInterest op).outputBuffer.content = c.outputBuffer.content := rfl

theorem writesDirectly_iff (h : c.WritesPending) :
    c.writesDirectly = true ↔ c.outputBuffer.content = [] := by
  simp only [writesDirectly, Bool.and_eq_true, Bool.not_eq_true', beq_iff_eq,
    c.outputBuffer.readableBytes_eq_zero]
  constructor
  · intro hdirect
    exact hdirect.2
  · intro hempty
    refine ⟨?_, hempty⟩
    by_contra hwriting
    exact h.mp (by simpa using hwriting) hempty

/-! ## One function at a time -/

/-- A buffer is sent as its content is, and it is emptied when the connection is up. -/
theorem sendBuffer_ok (c : TcpConnection) (inLoop : Bool) {buf : Buffer} (h : buf.WF)
    (w : WriteResult) :
    ∃ buf', c.sendBuffer inLoop buf w = .ok (c.send inLoop buf.content w, buf') ∧ buf'.WF ∧
      buf'.content = if c.state = .kConnected then [] else buf.content := by
  unfold sendBuffer send
  by_cases hstate : c.state = .kConnected
  · simp only [if_pos hstate]
    cases inLoop with
    | true =>
        refine ⟨buf.retrieveAll, ?_, Buffer.retrieveAll_wf h, Buffer.content_retrieveAll buf⟩
        simp only [if_true, Buffer.load_content_ok h]
        rfl
    | false =>
        obtain ⟨buf', hbuf', hwf, hcontent⟩ :=
          Buffer.retrieveAsString_ok h (Nat.le_refl buf.readableBytes)
        rw [← h.length_content, List.take_length, h.length_content] at hbuf'
        rw [← h.length_content, List.drop_length] at hcontent
        refine ⟨buf', ?_, hwf, hcontent⟩
        simp only [Bool.false_eq_true, if_false, Buffer.retrieveAllAsString, hbuf']
        rfl
  · simp only [if_neg hstate]
    exact ⟨buf, rfl, h, rfl⟩

theorem appendOutput_stream (hdata : data ≠ []) :
    (c.appendOutput data).outputBuffer.content = c.outputBuffer.content ++ data ∧
      (c.appendOutput data).WritesPending := by
  have hcontent : (c.appendOutput data).outputBuffer.content = c.outputBuffer.content ++ data := by
    rw [appendOutput]
    split <;> simp
  refine ⟨hcontent, iff_of_true ?_ (by simp [hcontent, hdata])⟩
  simp only [appendOutput]
  split
  case isTrue hwriting => exact hwriting
  case isFalse => exact isWriting_edit .enableWriting _

@[simp] theorem written_highWater (c : TcpConnection) (n : Nat) : written (c.highWater n) = [] := by
  simp only [highWater]
  split <;> rfl

theorem nwrote_le (c : TcpConnection) (data : List UInt8) (w : WriteResult) :
    (c.directWrite data w).nwrote ≤ data.length := by
  unfold directWrite
  split
  · cases w with
    | accept n => exact Nat.min_le_right n data.length
    | fail errno => exact Nat.zero_le _
  · exact Nat.zero_le _

theorem written_directWrite (c : TcpConnection) (data : List UInt8) (w : WriteResult) :
    written (c.directWrite data w).effects = data.take (c.directWrite data w).nwrote := by
  unfold directWrite
  split
  · cases w with
    | accept n =>
        simp only [written]
        split <;> simp [written]
    | fail errno => rfl
  · rfl

theorem faultError_eq (c : TcpConnection) (data : List UInt8) (w : WriteResult) :
    (c.directWrite data w).faultError = c.drops w := by
  unfold directWrite drops
  split
  case isTrue hdirect => cases w <;> simp [hdirect]
  case isFalse hbuffered => simp [hbuffered]

/-- A dropped message is dropped whole. -/
theorem nwrote_of_drops (h : c.drops w = true) (data : List UInt8) :
    (c.directWrite data w).nwrote = 0 := by
  unfold directWrite
  unfold drops at h
  cases w with
  | accept n => simp at h
  | fail errno => split <;> rfl

/-- Bytes are only written directly when no output waits before them. -/
theorem directWrite_order (h : c.WritesPending) (data : List UInt8) (w : WriteResult) :
    (c.directWrite data w).nwrote = 0 ∨ c.outputBuffer.content = [] := by
  by_cases hdirect : c.writesDirectly = true
  · exact Or.inr ((writesDirectly_iff h).mp hdirect)
  · refine Or.inl ?_
    simp [directWrite, hdirect]

theorem sendInLoop_stream (hstate : c.state ≠ .kDisconnected) (h : c.WritesPending)
    (data : List UInt8) (w : WriteResult) :
    (c.sendInLoop data w).1.WritesPending ∧
      written (c.sendInLoop data w).2 ++ (c.sendInLoop data w).1.outputBuffer.content =
        c.outputBuffer.content ++ if c.drops w then [] else data := by
  have hfault := faultError_eq c data w
  have hwritten := written_directWrite c data w
  have hle := nwrote_le c data w
  rw [sendInLoop, if_neg hstate]
  dsimp only
  by_cases hbuffer : (c.directWrite data w).faultError = false ∧
      0 < data.length - (c.directWrite data w).nwrote
  · -- The rest of the message goes to the buffer.
    have hkept : c.drops w = false := hfault.symm.trans hbuffer.1
    have hrest : data.drop (c.directWrite data w).nwrote ≠ [] := by
      rw [← List.length_pos_iff, List.length_drop]
      exact hbuffer.2
    rcases appendOutput_stream (c := c) hrest with ⟨hcontent, hpending⟩
    rw [if_pos hbuffer]
    refine ⟨hpending, ?_⟩
    simp only [written_append, hwritten, written_highWater, List.append_nil, hcontent, hkept,
      Bool.false_eq_true, if_false]
    rcases directWrite_order h data w with hzero | hempty
    · simp [hzero]
    · simp [hempty]
  · -- Nothing is left to buffer: the message is on the wire, or dropped.
    rw [if_neg hbuffer]
    refine ⟨h, ?_⟩
    rw [hwritten]
    by_cases hdrop : c.drops w = true
    · simp [nwrote_of_drops hdrop, hdrop]
    · have hall : (c.directWrite data w).nwrote = data.length := by
        by_contra hne
        refine hbuffer ⟨by simpa [hfault] using hdrop, ?_⟩
        omega
      rcases directWrite_order h data w with hzero | hempty
      · have hnil : data = [] := List.length_eq_zero_iff.mp (hall.symm.trans hzero)
        simp [hnil]
      · simp [hall, hempty, hdrop]

/-- The connection after `outputBuffer_.retrieve(n)`. -/
def retrieveOutput (c : TcpConnection) (n : Nat) : TcpConnection :=
  { c with outputBuffer := c.outputBuffer.retrieve n }

/-- What `handleWrite` can do: nothing, write a part of the output, or drain it.  Only the last
turns the write interest off, and only in `kDisconnecting` it goes on to `shutdownWrite`. -/
inductive Drain (c : TcpConnection) : Result → Prop
  | idle {effects : List Effect} (heffects : effects = [] ∨ effects = [.wrote []]) :
      Drain c (c, effects)
  | part {n : Nat} (hpos : 0 < n) (hlt : n < c.outputBuffer.readableBytes)
      (hwriting : c.isWriting = true) :
      Drain c (c.retrieveOutput n, [.wrote (c.outputBuffer.content.take n)])
  | all (hpos : 0 < c.outputBuffer.readableBytes) (hwriting : c.isWriting = true) :
      Drain c
        ((c.retrieveOutput c.outputBuffer.readableBytes).setInterest .disableWriting,
          .wrote c.outputBuffer.content ::
            (if c.writeCompleteCallback then [.queueInLoop .writeCompleteCallback] else []) ++
            if c.state = .kDisconnecting then [.shutdownWrite] else [])

theorem shutdownInLoop_of_not_writing (h : c.isWriting = false) :
    c.shutdownInLoop = (c, [.shutdownWrite]) := by
  simp [shutdownInLoop, h]

theorem handleWrite_drain (c : TcpConnection) (w : WriteResult) : Drain c (c.handleWrite w) := by
  by_cases hwriting : c.isWriting = true
  case neg =>
    rw [handleWrite.eq_def, if_neg hwriting]
    exact Drain.idle (Or.inl rfl)
  case pos =>
    rw [handleWrite.eq_def, if_pos hwriting]
    cases w with
    | fail errno => exact Drain.idle (Or.inl rfl)
    | accept room =>
        have hle : min room c.outputBuffer.readableBytes ≤ c.outputBuffer.readableBytes :=
          Nat.min_le_right _ _
        dsimp only
        generalize min room c.outputBuffer.readableBytes = n at hle
        by_cases hpos : 0 < n
        case neg =>
          have hzero : n = 0 := by omega
          rw [if_neg hpos]
          exact Drain.idle (Or.inr (by simp [hzero]))
        case pos =>
          rw [if_pos hpos]
          have hleft : (c.outputBuffer.retrieve n).readableBytes =
              c.outputBuffer.readableBytes - n := by
            rw [← WFBuffer.length_content, WFBuffer.content_retrieve _ hle, List.length_drop,
              WFBuffer.length_content]
          by_cases hall : n = c.outputBuffer.readableBytes
          · -- The buffer is drained, and with it the write interest goes off.
            subst hall
            rw [if_pos (by omega)]
            have hoff := shutdownInLoop_of_not_writing
              (c := (c.retrieveOutput c.outputBuffer.readableBytes).setInterest .disableWriting)
              (isWriting_edit .disableWriting _)
            simp only [retrieveOutput] at hoff
            rw [hoff]
            have htake : c.outputBuffer.content.take c.outputBuffer.readableBytes =
                c.outputBuffer.content := by
              rw [← WFBuffer.length_content, List.take_length]
            rw [htake]
            have hspec := Drain.all hpos hwriting
            by_cases hstate : c.state = .kDisconnecting
            · rw [if_pos hstate] at hspec
              rw [if_pos (by exact hstate)]
              exact hspec
            · rw [if_neg hstate, List.append_nil] at hspec
              rw [if_neg (by exact hstate)]
              exact hspec
          · rw [if_neg (by omega)]
            exact Drain.part hpos (by omega) hwriting

theorem handleWrite_stream (h : c.WritesPending) (w : WriteResult) :
    (c.handleWrite w).1.WritesPending ∧
      written (c.handleWrite w).2 ++ (c.handleWrite w).1.outputBuffer.content =
        c.outputBuffer.content := by
  have hspec := handleWrite_drain c w
  generalize c.handleWrite w = r at hspec
  cases hspec with
  | idle heffects =>
      refine ⟨h, ?_⟩
      rcases heffects with rfl | rfl <;> rfl
  | part hpos hlt hwriting =>
      have hcontent := c.outputBuffer.content_retrieve (Nat.le_of_lt hlt)
      refine ⟨iff_of_true hwriting ?_, by simp [written, retrieveOutput, hcontent]⟩
      rw [retrieveOutput, hcontent, ← List.length_pos_iff, List.length_drop, WFBuffer.length_content]
      omega
  | all hpos hwriting =>
      have hcontent := c.outputBuffer.content_retrieve (Nat.le_refl _)
      have hempty : (c.outputBuffer.retrieve c.outputBuffer.readableBytes).content = [] := by
        simp [hcontent]
      constructor
      · exact iff_of_false (by simp [isWriting_setInterest, isWriting_edit])
          (by simp [retrieveOutput, hempty])
      · simp only [written, written_append, List.cons_append, content_setInterest]
        split <;> split <;> simp [written, retrieveOutput, hempty]

/-! ## What the output functions do besides -/

theorem sendInLoop_isOutput (c : TcpConnection) (data : List UInt8) (w : WriteResult) :
    ∀ e ∈ (c.sendInLoop data w).2, e.isOutput = true := by
  have hdirect : ∀ e ∈ (c.directWrite data w).effects, e.isOutput = true := by
    intro e he
    simp only [directWrite] at he
    split at he
    · cases w with
      | accept n =>
          simp only [List.mem_cons] at he
          rcases he with rfl | he
          · rfl
          · split at he <;> simp_all [isOutput]
      | fail errno => simp at he
    · simp at he
  have hhigh : ∀ n, ∀ e ∈ c.highWater n, e.isOutput = true := by
    intro n e he
    simp only [highWater] at he
    split at he <;> simp_all [isOutput]
  intro e he
  simp only [sendInLoop] at he
  split at he
  · simp at he
  · split at he
    · rcases List.mem_append.mp he with he | he
      · exact hdirect e he
      · exact hhigh _ e he
    · exact hdirect e he

theorem handleWrite_isOutput (hstate : c.state ≠ .kDisconnecting) (w : WriteResult) :
    ∀ e ∈ (c.handleWrite w).2, e.isOutput = true := by
  have hspec := handleWrite_drain c w
  generalize c.handleWrite w = r at hspec
  intro e he
  cases hspec with
  | idle heffects => rcases heffects with rfl | rfl <;> simp_all [isOutput]
  | part hpos hlt hwriting => simp_all [isOutput]
  | all hpos hwriting =>
      simp only [if_neg hstate, List.append_nil, List.mem_cons] at he
      rcases he with rfl | he
      · rfl
      · split at he <;> simp_all [isOutput]

/-! ## Runs -/

/-- What happens to a connection between its set-up and its close, seen from the output. -/
inductive OutputAct
  | sendInLoop (message : List UInt8) (w : WriteResult)
  | handleWrite (w : WriteResult)
  | startReadInLoop
  | stopReadInLoop
  | forceClose
  deriving DecidableEq, Repr

def outputStep (c : TcpConnection) : OutputAct → Result
  | .sendInLoop message w => c.sendInLoop message w
  | .handleWrite w => c.handleWrite w
  | .startReadInLoop => (c.startReadInLoop, [])
  | .stopReadInLoop => (c.stopReadInLoop, [])
  | .forceClose => c.forceClose

def runOutput (c : TcpConnection) : List OutputAct → Result
  | [] => (c, [])
  | a :: acts =>
      let r := c.outputStep a
      let rest := r.1.runOutput acts
      (rest.1, r.2 ++ rest.2)

/-- The message of a step, unless the step drops it. -/
def kept (c : TcpConnection) : OutputAct → List (List UInt8)
  | .sendInLoop message w => if c.drops w then [] else [message]
  | _ => []

/-- The messages of a run in call order, without those whose direct write fails with `EPIPE` or
`ECONNRESET`. -/
def keptMessages (c : TcpConnection) : List OutputAct → List (List UInt8)
  | [] => []
  | a :: acts => c.kept a ++ (c.outputStep a).1.keptMessages acts

/-- The part of the state that the output depends on is in order, and the connection is open. -/
structure Open (c : TcpConnection) : Prop where
  state : c.state ≠ .kDisconnected
  pending : c.WritesPending

@[simp] theorem content_established (sockfd : Int) (highWaterMark : Nat)
    (writeComplete highWater : Bool) :
    (established sockfd highWaterMark writeComplete highWater).outputBuffer.content = [] := by
  simp [established, connectEstablished, setState, TcpConnection.new]

theorem established_open (sockfd : Int) (highWaterMark : Nat) (writeComplete highWater : Bool) :
    (established sockfd highWaterMark writeComplete highWater).Open where
  state := by simp [established, connectEstablished, setState, setInterest]
  pending := by
    have hoff : (kNoneEvent).isWriting = false := by decide
    refine iff_of_false ?_ (by simp)
    simp [established, connectEstablished, isWriting_setInterest, isWriting_edit, setState,
      TcpConnection.new, Channel.new, hoff]

theorem sendInLoop_state (c : TcpConnection) (data : List UInt8) (w : WriteResult) :
    (c.sendInLoop data w).1.state = c.state := by
  have happend : ∀ rest, (c.appendOutput rest).state = c.state := by
    intro rest
    simp only [appendOutput]
    split <;> rfl
  simp only [sendInLoop]
  split_ifs <;> simp [happend]

theorem handleWrite_state (c : TcpConnection) (w : WriteResult) :
    (c.handleWrite w).1.state = c.state := by
  have hspec := handleWrite_drain c w
  generalize c.handleWrite w = r at hspec
  cases hspec <;> rfl

/-- Editing the read interest does not touch the output. -/
theorem WritesPending.setInterest_read (h : c.WritesPending) {op : Interest}
    (hop : op = .enableReading ∨ op = .disableReading) : (c.setInterest op).WritesPending := by
  have hwriting : (c.setInterest op).isWriting = c.isWriting := by
    rw [isWriting_setInterest, isWriting_edit]
    rcases hop with rfl | rfl <;> rfl
  simpa [WritesPending, hwriting] using h

theorem outputStep_open (h : c.Open) (a : OutputAct) : (c.outputStep a).1.Open := by
  cases a with
  | sendInLoop message w =>
      refine ⟨?_, (sendInLoop_stream h.state h.pending message w).1⟩
      rw [outputStep, sendInLoop_state]
      exact h.state
  | handleWrite w =>
      refine ⟨?_, (handleWrite_stream h.pending w).1⟩
      rw [outputStep, handleWrite_state]
      exact h.state
  | startReadInLoop =>
      rw [outputStep, startReadInLoop]
      split
      · exact ⟨h.state, h.pending.setInterest_read (Or.inl rfl)⟩
      · exact h
  | stopReadInLoop =>
      rw [outputStep, stopReadInLoop]
      split
      · exact ⟨h.state, h.pending.setInterest_read (Or.inr rfl)⟩
      · exact h
  | forceClose =>
      rw [outputStep, forceClose]
      split
      · exact ⟨by simp [setState], h.pending⟩
      · exact h

/-- One step moves bytes along the line. -/
theorem outputStep_stream (h : c.Open) (a : OutputAct) :
    written (c.outputStep a).2 ++ (c.outputStep a).1.outputBuffer.content =
      c.outputBuffer.content ++ (c.kept a).flatten := by
  cases a with
  | sendInLoop message w =>
      rw [outputStep, (sendInLoop_stream h.state h.pending message w).2, kept]
      split <;> simp
  | handleWrite w => simpa [outputStep, kept] using (handleWrite_stream h.pending w).2
  | startReadInLoop =>
      rw [outputStep, startReadInLoop]
      split <;> simp [written, kept]
  | stopReadInLoop =>
      rw [outputStep, stopReadInLoop]
      split <;> simp [written, kept]
  | forceClose =>
      rw [outputStep, forceClose]
      split <;> simp [written, kept, setState]

theorem runOutput_stream (acts : List OutputAct) :
    ∀ {c : TcpConnection}, c.Open →
      (c.runOutput acts).1.Open ∧
      written (c.runOutput acts).2 ++ (c.runOutput acts).1.outputBuffer.content =
        c.outputBuffer.content ++ (c.keptMessages acts).flatten := by
  induction acts with
  | nil =>
      intro c h
      exact ⟨h, by simp [runOutput, keptMessages, written]⟩
  | cons a acts ih =>
      intro c h
      rcases ih (outputStep_open h a) with ⟨hopen, hrest⟩
      refine ⟨hopen, ?_⟩
      calc
        written (c.runOutput (a :: acts)).2 ++ (c.runOutput (a :: acts)).1.outputBuffer.content
            = written (c.outputStep a).2 ++
                (written ((c.outputStep a).1.runOutput acts).2 ++
                  ((c.outputStep a).1.runOutput acts).1.outputBuffer.content) := by
              simp [runOutput, written_append]
        _ = written (c.outputStep a).2 ++ ((c.outputStep a).1.outputBuffer.content ++
                ((c.outputStep a).1.keptMessages acts).flatten) := by rw [hrest]
        _ = c.outputBuffer.content ++ (c.keptMessages (a :: acts)).flatten := by
              rw [← List.append_assoc, outputStep_stream h a, keptMessages, List.flatten_append,
                List.append_assoc]

/-- Nothing is lost, doubled or reordered on the way out: at every moment before the close, what
the kernel has accepted followed by what waits is the concatenation of the messages sent, and
the channel waits for writability exactly while output waits. -/
theorem output_stream_exact (sockfd : Int) (highWaterMark : Nat) (writeComplete highWater : Bool)
    (acts : List OutputAct) :
    let c := established sockfd highWaterMark writeComplete highWater
    let r := c.runOutput acts
    written r.2 ++ r.1.outputBuffer.content = (c.keptMessages acts).flatten ∧
      (r.1.isWriting = true ↔ r.1.outputBuffer.content ≠ []) := by
  intro c r
  rcases runOutput_stream acts (established_open sockfd highWaterMark writeComplete highWater)
    with ⟨hopen, hstream⟩
  refine ⟨?_, hopen.pending⟩
  simpa using hstream

end TcpConnection
end Net
end Muduo
