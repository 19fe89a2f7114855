import Muduo.Net.EventLoop

/-!
# EventLoopWakeup — when the loop may block

`queueInLoop` skips the `wakeup()` when the loop thread calls it and `callingPendingFunctors_` is
not set, on the assumption, written above it in the source, that the call then comes from an
event callback and `doPendingFunctors` is still ahead in the same iteration.  The loop thread can
also call it before `loop()`, or from the destructor of an executed functor, where the next thing
is `epoll_wait`.
-/

namespace Muduo
namespace Net
namespace EventLoop

variable {F : Type} {s : EventLoop F}

/-- When the loop is about to block with functors pending, the eventfd is readable or a foreign
thread is about to make it so. -/
def NoLostWakeup (s : EventLoop F) : Prop :=
  s.pc = .polling → s.pendingFunctors ≠ [] → 0 < s.eventfd ∨ s.waking ≠ []

/-- The loop thread calls `queueInLoop` from event callbacks and from pending functors only. -/
def Meets (s : EventLoop F) : Act F → Prop
  | .queueInLoop _ => (∃ woken, s.pc = .handling woken) ∨ s.callingPendingFunctors = true
  | _ => True

/-- `doPendingFunctors` comes before the next `epoll_wait`. -/
def swapAhead : Pc → Bool
  | .handling _ => true
  | .swapping => true
  | _ => false

/-- Pending functors are announced, or will be taken before the loop can block. -/
def Announced (s : EventLoop F) : Prop :=
  s.pendingFunctors = [] ∨ 0 < s.eventfd ∨ s.waking ≠ [] ∨ swapAhead s.pc = true

theorem Announced.noLostWakeup (h : Announced s) : NoLostWakeup s := by
  intro hpc hne
  rcases h with hnil | hpos | hwaking | hahead
  · exact absurd hnil hne
  · exact Or.inl hpos
  · exact Or.inr hwaking
  · simp [hpc, swapAhead] at hahead

/-- A step that leaves the queue and the announcements alone, from a place where no swap is
ahead. -/
theorem Announced.move (h : Announced s) (hpc : swapAhead s.pc = false) {t : EventLoop F}
    (hpending : t.pendingFunctors = s.pendingFunctors := by rfl)
    (heventfd : t.eventfd = s.eventfd := by rfl) (hwaking : t.waking = s.waking := by rfl) :
    Announced t := by
  rcases h with hnil | hpos | hne | hahead
  · exact Or.inl (hpending.trans hnil)
  · exact Or.inr (Or.inl (heventfd ▸ hpos))
  · exact Or.inr (Or.inr (Or.inl (hwaking ▸ hne)))
  · rw [hpc] at hahead
    cases hahead

theorem step_announced (h : Announced s) {a : Act F} (hmeets : Meets s a) (hen : Enabled s a) :
    Announced (s.next a) := by
  cases a with
  | push thread cb => exact Or.inr (Or.inr (Or.inl (by simp [next])))
  | wakeup thread => exact Or.inr (Or.inl (Nat.succ_pos _))
  | queueInLoop cb =>
      rcases hmeets with ⟨woken, hpc⟩ | hcalling
      · -- In an event callback the swap is still ahead.
        refine Or.inr (Or.inr (Or.inr ?_))
        rw [next]
        split <;> simp [EventLoop.pushBack, writeEventfd, hpc, swapAhead]
      · -- In a pending functor `queueInLoop` writes the eventfd itself.
        refine Or.inr (Or.inl ?_)
        simp [next, hcalling, writeEventfd]
  | quit => exact h
  | notify => exact Or.inr (Or.inl (Nat.succ_pos _))
  | loop => exact h.move (by simp [show s.pc = _ from hen, swapAhead])
  | test => exact h.move (by simp [show s.pc = _ from hen, swapAhead])
  | epoll woken => exact Or.inr (Or.inr (Or.inr rfl))
  -- `handleRead` clears the counter, but only between `epoll_wait` and the swap.
  | handleRead => exact Or.inr (Or.inr (Or.inr rfl))
  | doPendingFunctors => exact Or.inr (Or.inr (Or.inr rfl))
  | swap => exact Or.inl rfl
  | call =>
      have hahead : swapAhead s.pc = false := by simp [hen.1, swapAhead]
      rw [next]
      split
      · exact h.move hahead
      · exact h
  | finish => exact h.move (by simp [hen.1, swapAhead])
  | destroy => exact h.move (by simp [show s.pc = _ from hen, swapAhead])

/-- In every run in which the loop thread queues functors only from event callbacks and from
pending functors, no wakeup is lost. -/
theorem no_lost_wakeup_of_meets (hs : ((system F).restrict Meets).Reachable s) :
    NoLostWakeup s := by
  have hannounced : Announced s := by
    refine hs.invariant ?_ ?_
    · rintro s rfl
      exact Or.inl rfl
    · rintro s a t h ⟨hmeets, hen, rfl⟩
      exact step_announced h hmeets hen
  exact hannounced.noLostWakeup

/-- A functor queues another one, and the loop comes back to `epoll_wait` with it pending. -/
def requeueRun : List (Act Nat) :=
  [.push 1 10, .loop, .test, .wakeup 1, .epoll true, .handleRead, .doPendingFunctors, .swap, .call,
    .queueInLoop 20, .finish, .destroy, .test]

def requeueState : EventLoop Nat :=
  requeueRun.foldl next EventLoop.new

theorem no_lost_wakeup_of_meets_requeue :
    (((system Nat).restrict Meets).Reachable requeueState ∧ requeueState.pc = .polling ∧
      requeueState.pendingFunctors ≠ []) ∧ NoLostWakeup requeueState := by
  have hallowed : StepSystem.AllowedAlong (fun s a => Meets s a ∧ Enabled s a) next EventLoop.new
      requeueRun := by
    simp [requeueRun, StepSystem.AllowedAlong, Meets, Enabled, next, EventLoop.new, pushBack,
      writeEventfd, Pc.userCode]
  have hs : ((system Nat).restrict Meets).Reachable requeueState := by
    rw [system, StepSystem.restrict_ofNext]
    exact (StepSystem.run_foldl hallowed).reachable (StepSystem.Reachable.init rfl)
  exact ⟨⟨hs, by decide, by decide⟩, no_lost_wakeup_of_meets hs⟩

/-- The loop thread queues a functor, then enters `loop()`. -/
def earlyRun : List (Act Nat) :=
  [.queueInLoop 10, .loop, .test]

def earlyState : EventLoop Nat :=
  earlyRun.foldl next EventLoop.new

/-- The loop is about to block although the functor is pending, and nobody will wake it. -/
theorem early_functor_stranded :
    (system Nat).Reachable earlyState ∧ ¬ NoLostWakeup earlyState := by
  have hrun : (system Nat).Run EventLoop.new earlyRun earlyState :=
    StepSystem.run_foldl (by decide)
  refine ⟨hrun.reachable (StepSystem.Reachable.init rfl), ?_⟩
  intro h
  have hwoken := h (by decide) (by decide)
  revert hwoken
  decide

end EventLoop
end Net
end Muduo
