import Muduo.Net.OutputStream

/-!
# OutputNotifications — when the user hears about the pending output

`sendInLoop` and `handleWrite` queue two notifications: `writeCompleteCallback_` when a write
leaves nothing pending, `highWaterMarkCallback_` when the pending length reaches the mark.
`outputStep_notifications` says exactly which of them a step queues, as a function of the
pending length before and after it.  That two high-water notifications have a draining
`handleWrite` between them then follows from a crossing argument: only `handleWrite` makes the
pending length smaller.
-/

namespace Muduo
namespace Net
namespace TcpConnection

open Effect

variable {c : TcpConnection} {data : List UInt8} {w : WriteResult}

/-! ## What a step can queue -/

/-- The step calls `::write`, and the call succeeds. -/
def writeSucceeds (c : TcpConnection) : OutputAct → Bool
  | .sendInLoop _ (.accept _) => c.state != .kDisconnected && c.writesDirectly
  | .handleWrite (.accept _) => c.isWriting
  | _ => false

/-- The notifications of the user among the functors queued. -/
def notifications (effects : List Effect) : List LoopFunctor :=
  (queued effects).filter fun cb =>
    match cb with
    | .writeCompleteCallback => true
    | .highWaterMarkCallback _ => true
    | _ => false

/-- Both callbacks are set. -/
structure Notifies (c : TcpConnection) : Prop where
  writeComplete : c.writeCompleteCallback = true
  highWater : c.highWaterMarkCallback = true

theorem queued_append (l₁ l₂ : List Effect) : queued (l₁ ++ l₂) = queued l₁ ++ queued l₂ := by
  induction l₁ with
  | nil => rfl
  | cons e l₁ ih => cases e <;> simp [queued, ih]

@[simp] theorem notifications_nil : notifications [] = [] := rfl

@[simp] theorem notifications_append (l₁ l₂ : List Effect) :
    notifications (l₁ ++ l₂) = notifications l₁ ++ notifications l₂ := by
  simp [notifications, queued_append]

@[simp] theorem notifications_wrote (data : List UInt8) (l : List Effect) :
    notifications (.wrote data :: l) = notifications l := rfl

@[simp] theorem notifications_shutdownWrite (l : List Effect) :
    notifications (.shutdownWrite :: l) = notifications l := rfl

theorem mem_notifications_writeComplete {l : List Effect} :
    .writeCompleteCallback ∈ notifications l ↔ .queueInLoop .writeCompleteCallback ∈ l := by
  simp [notifications, mem_queued]

theorem mem_notifications_highWater {l : List Effect} {n : Nat} :
    .highWaterMarkCallback n ∈ notifications l ↔ .queueInLoop (.highWaterMarkCallback n) ∈ l := by
  simp [notifications, mem_queued]

/-- What a step that leaves `pending` bytes in the output buffer is expected to queue. -/
def expected (c : TcpConnection) (a : OutputAct) (pending : Nat) : List LoopFunctor :=
  (if c.writeSucceeds a = true ∧ pending = 0 then [.writeCompleteCallback] else []) ++
    if c.outputBuffer.readableBytes < c.highWaterMark ∧ c.highWaterMark ≤ pending then
      [.highWaterMarkCallback pending]
    else []

theorem writeComplete_mem_expected {a : OutputAct} {pending : Nat} :
    .writeCompleteCallback ∈ c.expected a pending ↔ c.writeSucceeds a = true ∧ pending = 0 := by
  simp only [expected]
  split_ifs <;> simp_all

theorem highWater_mem_expected {a : OutputAct} {pending n : Nat} :
    .highWaterMarkCallback n ∈ c.expected a pending ↔
      c.outputBuffer.readableBytes < c.highWaterMark ∧ c.highWaterMark ≤ pending ∧
        pending = n := by
  simp only [expected]
  by_cases hcross : c.outputBuffer.readableBytes < c.highWaterMark ∧ c.highWaterMark ≤ pending
  · rw [if_pos hcross]
    have hhead : LoopFunctor.highWaterMarkCallback n ∉
        (if c.writeSucceeds a = true ∧ pending = 0 then [LoopFunctor.writeCompleteCallback]
        else []) := by
      split <;> simp
    rw [List.mem_append, or_iff_right hhead]
    simp [hcross, eq_comm]
  · rw [if_neg hcross, List.append_nil]
    constructor
    · split <;> simp
    · rintro ⟨hbelow, habove, _⟩
      exact absurd ⟨hbelow, habove⟩ hcross

theorem expected_nodup (c : TcpConnection) (a : OutputAct) (pending : Nat) :
    (c.expected a pending).Nodup := by
  simp only [expected]
  split_ifs <;> simp

@[simp] theorem readableBytes_setInterest (c : TcpConnection) (op : Interest) :
    (c.setInterest op).outputBuffer.readableBytes = c.outputBuffer.readableBytes := rfl

/-! ## `sendInLoop` -/

@[simp] theorem readableBytes_appendOutput (c : TcpConnection) (rest : List UInt8) :
    (c.appendOutput rest).outputBuffer.readableBytes =
      c.outputBuffer.readableBytes + rest.length := by
  have happend : (c.outputBuffer.append rest).readableBytes =
      c.outputBuffer.readableBytes + rest.length := by
    rw [← WFBuffer.length_content, WFBuffer.content_append, List.length_append,
      WFBuffer.length_content]
  rw [appendOutput]
  split <;> exact happend

theorem notifications_highWater (h : c.Notifies) (remaining : Nat) :
    notifications (c.highWater remaining) =
      if c.outputBuffer.readableBytes < c.highWaterMark ∧
          c.highWaterMark ≤ c.outputBuffer.readableBytes + remaining then
        [.highWaterMarkCallback (c.outputBuffer.readableBytes + remaining)]
      else [] := by
  simp only [highWater, h.highWater, and_true]
  by_cases hcross : c.outputBuffer.readableBytes < c.highWaterMark ∧
      c.highWaterMark ≤ c.outputBuffer.readableBytes + remaining
  · rw [if_pos ⟨hcross.2, hcross.1⟩, if_pos hcross]
    rfl
  · rw [if_neg fun hpos => hcross ⟨hpos.2, hpos.1⟩, if_neg hcross]
    rfl

theorem notifications_directWrite (hstate : c.state ≠ .kDisconnected) (h : c.Notifies)
    (data : List UInt8) (w : WriteResult) :
    notifications (c.directWrite data w).effects =
      if c.writeSucceeds (.sendInLoop data w) = true ∧
          data.length - (c.directWrite data w).nwrote = 0 then
        [.writeCompleteCallback]
      else [] := by
  unfold directWrite
  by_cases hdirect : c.writesDirectly = true
  · cases w with
    | accept n =>
        have hsucceeds : c.writeSucceeds (.sendInLoop data (.accept n)) = true := by
          simp [writeSucceeds, hstate, hdirect]
        by_cases hrest : data.length - min n data.length = 0 <;>
          simp [hdirect, hsucceeds, h.writeComplete, hrest, notifications, queued]
    | fail errno => simp [hdirect, writeSucceeds]
  · have hfails : c.writeSucceeds (.sendInLoop data w) = false := by
      cases w <;> simp [writeSucceeds, hdirect]
    simp [hdirect, hfails]

/-- A write that succeeds finds nothing pending, and is not given up. -/
theorem directWrite_of_succeeds (h : c.WritesPending) (data : List UInt8) (w : WriteResult)
    (hw : c.writeSucceeds (.sendInLoop data w) = true) :
    c.outputBuffer.readableBytes = 0 ∧ (c.directWrite data w).faultError = false := by
  cases w with
  | accept n =>
      simp only [writeSucceeds, Bool.and_eq_true] at hw
      rw [c.outputBuffer.readableBytes_eq_zero, ← writesDirectly_iff h, faultError_eq]
      exact ⟨hw.2, by simp [drops]⟩
  | fail errno => simp [writeSucceeds] at hw

theorem readableBytes_le_sendInLoop (data : List UInt8) (w : WriteResult) :
    c.outputBuffer.readableBytes ≤ (c.sendInLoop data w).1.outputBuffer.readableBytes := by
  simp only [sendInLoop]
  split_ifs <;> simp

theorem sendInLoop_notifications (h : c.Open) (hset : c.Notifies) (data : List UInt8)
    (w : WriteResult) :
    notifications (c.sendInLoop data w).2 =
      c.expected (.sendInLoop data w) (c.sendInLoop data w).1.outputBuffer.readableBytes := by
  have hdirect := notifications_directWrite h.state hset data w
  have hsucceeds := directWrite_of_succeeds h.pending data w
  rw [sendInLoop, if_neg h.state]
  dsimp only
  generalize c.directWrite data w = d at hdirect hsucceeds
  by_cases hbuffer : d.faultError = false ∧ 0 < data.length - d.nwrote
  · -- Something is left: no completion, and the mark is crossed or not by what is appended.
    have hrest : data.length - d.nwrote ≠ 0 := by omega
    have hpending : c.outputBuffer.readableBytes + (data.length - d.nwrote) ≠ 0 := by omega
    rw [if_pos hbuffer, notifications_append, hdirect, notifications_highWater hset, expected,
      readableBytes_appendOutput, List.length_drop]
    simp only [hrest, hpending, and_false, if_false]
  · -- Nothing is appended, so the mark is not crossed.
    have hcross : ¬ (c.outputBuffer.readableBytes < c.highWaterMark ∧
        c.highWaterMark ≤ c.outputBuffer.readableBytes) := by omega
    rw [if_neg hbuffer, hdirect, expected, if_neg hcross, List.append_nil]
    by_cases hw : c.writeSucceeds (.sendInLoop data w) = true
    · rcases hsucceeds hw with ⟨hempty, hkept⟩
      have hall : data.length - d.nwrote = 0 := by
        by_contra hne
        exact hbuffer ⟨hkept, Nat.pos_of_ne_zero hne⟩
      rw [if_pos ⟨hw, hall⟩, if_pos ⟨hw, hempty⟩]
    · rw [if_neg fun hpos => hw hpos.1, if_neg fun hpos => hw hpos.1]

/-! ## `handleWrite` -/

theorem readableBytes_retrieveOutput {n : Nat} (hn : n ≤ c.outputBuffer.readableBytes) :
    (c.retrieveOutput n).outputBuffer.readableBytes = c.outputBuffer.readableBytes - n := by
  rw [retrieveOutput, ← WFBuffer.length_content, WFBuffer.content_retrieve _ hn, List.length_drop,
    WFBuffer.length_content]

theorem handleWrite_notifications (h : c.Open) (hset : c.Notifies) (w : WriteResult) :
    notifications (c.handleWrite w).2 =
      c.expected (.handleWrite w) (c.handleWrite w).1.outputBuffer.readableBytes := by
  have hcross : ∀ n ≤ c.outputBuffer.readableBytes,
      ¬ (c.outputBuffer.readableBytes < c.highWaterMark ∧ c.highWaterMark ≤ n) := by omega
  -- A write of `handleWrite` always has something to write.
  have hwaits : c.isWriting = true → c.outputBuffer.readableBytes ≠ 0 := by
    intro hwriting hempty
    exact h.pending.mp hwriting (c.outputBuffer.readableBytes_eq_zero.mp hempty)
  cases w with
  | fail errno =>
      have hidle : c.handleWrite (.fail errno) = (c, []) := by
        simp [handleWrite.eq_def]
      rw [hidle, expected, if_neg (hcross _ (Nat.le_refl _))]
      simp [writeSucceeds]
  | accept room =>
      have hspec := handleWrite_drain c (.accept room)
      generalize c.handleWrite (.accept room) = r at hspec
      cases hspec with
      | idle heffects =>
          rw [expected, if_neg (hcross _ (Nat.le_refl _)), if_neg fun hpos => hwaits hpos.1 hpos.2]
          rcases heffects with rfl | rfl <;> rfl
      | part hpos hlt hwriting =>
          rename_i n
          have hleft := readableBytes_retrieveOutput (Nat.le_of_lt hlt)
          rw [expected, hleft, if_neg (hcross _ (Nat.sub_le _ _)),
            if_neg fun hdone => by omega]
          rfl
      | all hpos hwriting =>
          have hleft := readableBytes_retrieveOutput (Nat.le_refl c.outputBuffer.readableBytes)
          rw [Nat.sub_self] at hleft
          have hdone : c.writeSucceeds (.handleWrite (.accept room)) = true ∧ 0 = 0 :=
            ⟨hwriting, rfl⟩
          rw [readableBytes_setInterest, hleft, expected, if_pos hdone,
            if_neg (hcross 0 (Nat.zero_le _)), if_pos hset.writeComplete]
          split <;> rfl

/-! ## Every step -/

theorem outputStep_notifications (h : c.Open) (hset : c.Notifies) (a : OutputAct) :
    notifications (c.outputStep a).2 =
      c.expected a (c.outputStep a).1.outputBuffer.readableBytes := by
  have hquiet : c.writeSucceeds a = false →
      c.expected a c.outputBuffer.readableBytes = [] := by
    intro hfails
    have hcross : ¬ (c.outputBuffer.readableBytes < c.highWaterMark ∧
        c.highWaterMark ≤ c.outputBuffer.readableBytes) := by omega
    simp [expected, hcross, hfails]
  cases a with
  | sendInLoop message w => exact sendInLoop_notifications h hset message w
  | handleWrite w => exact handleWrite_notifications h hset w
  | startReadInLoop =>
      rw [outputStep, startReadInLoop]
      split <;> exact (hquiet rfl).symm
  | stopReadInLoop =>
      rw [outputStep, stopReadInLoop]
      split <;> exact (hquiet rfl).symm
  | forceClose =>
      rw [outputStep, forceClose]
      split <;> exact (hquiet rfl).symm

/-- No step changes the mark or the callbacks. -/
theorem outputStep_settings (c : TcpConnection) (a : OutputAct) :
    (c.outputStep a).1.highWaterMark = c.highWaterMark ∧
      (c.Notifies → (c.outputStep a).1.Notifies) := by
  cases a with
  | sendInLoop message w =>
      simp only [outputStep, sendInLoop, appendOutput]
      split_ifs <;> exact ⟨rfl, fun hset => ⟨hset.writeComplete, hset.highWater⟩⟩
  | handleWrite w =>
      have hspec := handleWrite_drain c w
      rw [outputStep]
      generalize c.handleWrite w = r at hspec
      cases hspec <;> exact ⟨rfl, fun hset => ⟨hset.writeComplete, hset.highWater⟩⟩
  | startReadInLoop =>
      rw [outputStep, startReadInLoop]
      split <;> exact ⟨rfl, fun hset => ⟨hset.writeComplete, hset.highWater⟩⟩
  | stopReadInLoop =>
      rw [outputStep, stopReadInLoop]
      split <;> exact ⟨rfl, fun hset => ⟨hset.writeComplete, hset.highWater⟩⟩
  | forceClose =>
      rw [outputStep, forceClose]
      split <;> exact ⟨rfl, fun hset => ⟨hset.writeComplete, hset.highWater⟩⟩

/-- Only `handleWrite` makes the pending length smaller. -/
theorem handleWrite_of_shorter {a : OutputAct}
    (hless : (c.outputStep a).1.outputBuffer.readableBytes < c.outputBuffer.readableBytes) :
    ∃ w, a = .handleWrite w := by
  cases a with
  | sendInLoop message w =>
      exact absurd hless (Nat.not_lt.mpr (readableBytes_le_sendInLoop message w))
  | handleWrite w => exact ⟨w, rfl⟩
  | startReadInLoop =>
      rw [outputStep, startReadInLoop] at hless
      split at hless <;> exact absurd hless (Nat.lt_irrefl _)
  | stopReadInLoop =>
      rw [outputStep, stopReadInLoop] at hless
      split at hless <;> exact absurd hless (Nat.lt_irrefl _)
  | forceClose =>
      rw [outputStep, forceClose] at hless
      split at hless <;> exact absurd hless (Nat.lt_irrefl _)

/-! ## Runs -/

theorem runOutput_append (acts₁ acts₂ : List OutputAct) :
    ∀ c : TcpConnection, (c.runOutput (acts₁ ++ acts₂)).1 =
      ((c.runOutput acts₁).1.runOutput acts₂).1 := by
  induction acts₁ with
  | nil =>
      intro c
      rfl
  | cons a acts₁ ih =>
      intro c
      exact ih (c.outputStep a).1

theorem runOutput_notifies (acts : List OutputAct) :
    ∀ {c : TcpConnection}, c.Notifies →
      (c.runOutput acts).1.highWaterMark = c.highWaterMark ∧ (c.runOutput acts).1.Notifies := by
  induction acts with
  | nil =>
      intro c hset
      exact ⟨rfl, hset⟩
  | cons a acts ih =>
      intro c hset
      rcases outputStep_settings c a with ⟨hmark, hnext⟩
      rcases ih (hnext hset) with ⟨hmark', hset'⟩
      exact ⟨hmark'.trans hmark, hset'⟩

/-- Crossing: a run that takes the pending length from at least `mark` to below it has a
`handleWrite` that leaves it below. -/
theorem exists_handleWrite_below {mark : Nat} (acts : List OutputAct) :
    ∀ {c : TcpConnection}, c.Open → mark ≤ c.outputBuffer.readableBytes →
      (c.runOutput acts).1.outputBuffer.readableBytes < mark →
      ∃ front w back, acts = front ++ .handleWrite w :: back ∧
        (c.runOutput (front ++ [.handleWrite w])).1.outputBuffer.readableBytes < mark := by
  induction acts with
  | nil =>
      intro c _ hhigh hlow
      exact absurd hlow (Nat.not_lt.mpr hhigh)
  | cons a acts ih =>
      intro c h hhigh hlow
      by_cases hnow : (c.outputStep a).1.outputBuffer.readableBytes < mark
      · rcases handleWrite_of_shorter (Nat.lt_of_lt_of_le hnow hhigh) with ⟨w, rfl⟩
        exact ⟨[], w, acts, rfl, hnow⟩
      · rcases ih (outputStep_open h a) (Nat.not_lt.mp hnow) hlow with ⟨front, w, back, rfl, hw⟩
        exact ⟨a :: front, w, back, rfl, hw⟩

/-- After every run, a step queues `writeCompleteCallback_` exactly when its `::write` succeeds
and leaves nothing pending, `highWaterMarkCallback_` with `n` exactly when it raises the pending
length from below the mark to `n`, and neither twice; and between two high-water notifications
a `handleWrite` leaves the pending length below the mark. -/
theorem output_notifications_exact (sockfd : Int) (h : Nat) (before : List OutputAct)
    (a : OutputAct) :
    let after := fun acts => ((established sockfd h true true).runOutput acts).1
    let pending := fun acts => (after acts).outputBuffer.readableBytes
    let effects := fun acts b => ((after acts).outputStep b).2
    (.queueInLoop .writeCompleteCallback ∈ effects before a ↔
        (after before).writeSucceeds a = true ∧
          (after (before ++ [a])).outputBuffer.content = []) ∧
      (∀ n, .queueInLoop (.highWaterMarkCallback n) ∈ effects before a ↔
        pending before < h ∧ h ≤ n ∧ pending (before ++ [a]) = n) ∧
      (notifications (effects before a)).Nodup ∧
      ∀ mid b m n, .queueInLoop (.highWaterMarkCallback m) ∈ effects before a →
        .queueInLoop (.highWaterMarkCallback n) ∈ effects (before ++ a :: mid) b →
        ∃ front w back, mid = front ++ .handleWrite w :: back ∧
          pending (before ++ a :: front ++ [.handleWrite w]) < h := by
  intro after pending effects
  have hopen : ∀ acts, (after acts).Open := fun acts =>
    (runOutput_stream acts (established_open sockfd h true true)).1
  have hset : ∀ acts, (after acts).highWaterMark = h ∧ (after acts).Notifies := fun acts =>
    runOutput_notifies acts ⟨rfl, rfl⟩
  have hnext : ∀ acts b, ((after acts).outputStep b).1 = after (acts ++ [b]) := fun acts b =>
    (runOutput_append acts [b] _).symm
  have hstep : ∀ acts b,
      notifications (effects acts b) = (after acts).expected b (pending (acts ++ [b])) := by
    intro acts b
    rw [outputStep_notifications (hopen acts) (hset acts).2 b, hnext]
  have hhigh : ∀ acts b n, .queueInLoop (.highWaterMarkCallback n) ∈ effects acts b ↔
      pending acts < h ∧ h ≤ n ∧ pending (acts ++ [b]) = n := by
    intro acts b n
    rw [← mem_notifications_highWater, hstep, highWater_mem_expected, (hset acts).1]
    constructor
    · rintro ⟨hbelow, habove, rfl⟩
      exact ⟨hbelow, habove, rfl⟩
    · rintro ⟨hbelow, habove, rfl⟩
      exact ⟨hbelow, habove, rfl⟩
  refine ⟨?_, hhigh before a, ?_, ?_⟩
  · rw [← mem_notifications_writeComplete, hstep, writeComplete_mem_expected,
      WFBuffer.readableBytes_eq_zero]
  · rw [hstep]
    exact expected_nodup _ _ _
  · intro mid b m n hfirst hsecond
    -- The first notification leaves the pending length high, the second finds it low.
    rcases (hhigh before a m).mp hfirst with ⟨_, habove, hm⟩
    rcases (hhigh (before ++ a :: mid) b n).mp hsecond with ⟨hbelow, _, _⟩
    have hsplit : ∀ acts, after (before ++ a :: acts) =
        ((after (before ++ [a])).runOutput acts).1 := by
      intro acts
      rw [← runOutput_append, List.append_assoc]
      rfl
    have hlow : ((after (before ++ [a])).runOutput mid).1.outputBuffer.readableBytes < h := by
      rw [← hsplit]
      exact hbelow
    have hup : h ≤ (after (before ++ [a])).outputBuffer.readableBytes :=
      Nat.le_trans habove (Nat.le_of_eq hm.symm)
    rcases exists_handleWrite_below mid (hopen _) hup hlow with ⟨front, w, back, hmid, hw⟩
    refine ⟨front, w, back, hmid, ?_⟩
    have hpath : before ++ a :: front ++ [.handleWrite w] =
        before ++ a :: (front ++ [.handleWrite w]) := by simp
    rw [hpath]
    simp only [pending]
    rw [hsplit]
    exact hw

end TcpConnection
end Net
end Muduo
